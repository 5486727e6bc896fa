import InteropGen.Proofs.Typedefs.Bare

/-!
# Plain types

A type with every typedef replaced by what it stands for and every array of arrays merged into one,
at every depth: in elements, in the fields of structs and in the branches of unions.

* `TypeNode.plain_isPlain` — nothing is left to replace or to merge;
* `TypeNode.shape_plain` — the shape stays, but for what is inside the structs and unions it names.
-/

set_option autoImplicit false

namespace InteropGen

namespace TypeNode

/-- An array of the given dimensions, merged with its element if that is an array itself. -/
def merged (dims : List Nat) : TypeNode → TypeNode
  | .fixedArray element more => .fixedArray element (dims ++ more)
  | element => .fixedArray element dims

mutual

/-- The type without typedefs and without arrays of arrays. -/
def plain : TypeNode → TypeNode
  | .primitive kind => .primitive kind
  | .narrowString => .narrowString
  | .wideString => .wideString
  | .enum e => .enum e
  | .struct s => .struct (plainStruct s)
  | .union u => .union (plainUnion u)
  | .alias ⟨_, target⟩ => target.plain
  | .fixedArray element dims => merged dims element.plain
  | .sequence element maxBound => .sequence element.plain maxBound
  termination_by structural node => node

/-- A struct with plain fields. -/
def plainStruct : StructOf TypeNode → StructOf TypeNode
  | ⟨name, fields, category⟩ => ⟨name, plainFields fields, category⟩
  termination_by structural s => s

/-- A union with plain branches. -/
def plainUnion : UnionOf TypeNode → UnionOf TypeNode
  | ⟨name, branches⟩ => ⟨name, plainFields branches⟩
  termination_by structural u => u

def plainFields : List (FieldOf TypeNode) → List (FieldOf TypeNode)
  | [] => []
  | f :: rest => plainField f :: plainFields rest
  termination_by structural fields => fields

def plainField : FieldOf TypeNode → FieldOf TypeNode
  | ⟨name, type⟩ => ⟨name, type.plain⟩
  termination_by structural f => f

end

/-- Whether a type is an array as it is written. -/
def isArray : TypeNode → Bool
  | .fixedArray _ _ => true
  | _ => false

mutual

/-- No typedef at any depth, and no array of arrays. -/
def IsPlain : TypeNode → Prop
  | .primitive _ | .narrowString | .wideString | .enum _ => True
  | .struct s => IsPlainStruct s
  | .union u => IsPlainUnion u
  | .alias _ => False
  | .fixedArray element _ => element.isArray = false ∧ element.IsPlain
  | .sequence element _ => element.IsPlain
  termination_by structural node => node

def IsPlainStruct : StructOf TypeNode → Prop
  | ⟨_, fields, _⟩ => ArePlain fields
  termination_by structural s => s

def IsPlainUnion : UnionOf TypeNode → Prop
  | ⟨_, branches⟩ => ArePlain branches
  termination_by structural u => u

def ArePlain : List (FieldOf TypeNode) → Prop
  | [] => True
  | f :: rest => IsPlainField f ∧ ArePlain rest
  termination_by structural fields => fields

def IsPlainField : FieldOf TypeNode → Prop
  | ⟨_, type⟩ => type.IsPlain
  termination_by structural f => f

end

theorem merged_isPlain (dims : List Nat) (element : TypeNode) (h : element.IsPlain) :
    (merged dims element).IsPlain := by
  cases element with
  | fixedArray inner more => exact h
  | «alias» a => exact h.elim
  | _ => exact ⟨rfl, h⟩

mutual

theorem plain_isPlain : ∀ node : TypeNode, node.plain.IsPlain
  | .primitive _ | .narrowString | .wideString | .enum _ => trivial
  | .struct s => plainStruct_isPlain s
  | .union u => plainUnion_isPlain u
  | .alias ⟨_, target⟩ => plain_isPlain target
  | .fixedArray element dims => merged_isPlain dims _ (plain_isPlain element)
  | .sequence element _ => plain_isPlain element
  termination_by structural node => node

theorem plainStruct_isPlain : ∀ s : StructOf TypeNode, IsPlainStruct (plainStruct s)
  | ⟨_, fields, _⟩ => plainFields_arePlain fields
  termination_by structural s => s

theorem plainUnion_isPlain : ∀ u : UnionOf TypeNode, IsPlainUnion (plainUnion u)
  | ⟨_, branches⟩ => plainFields_arePlain branches
  termination_by structural u => u

theorem plainFields_arePlain : ∀ fields : List (FieldOf TypeNode), ArePlain (plainFields fields)
  | [] => trivial
  | f :: rest => ⟨plainField_isPlain f, plainFields_arePlain rest⟩
  termination_by structural fields => fields

theorem plainField_isPlain : ∀ f : FieldOf TypeNode, IsPlainField (plainField f)
  | ⟨_, type⟩ => plain_isPlain type
  termination_by structural f => f

end

theorem shape_merged (dims : List Nat) (element : TypeNode) :
    (merged dims element).shape = Shape.arrayOf dims element.shape := by
  cases element with
  | fixedArray inner more =>
    show Shape.arrayOf (dims ++ more) inner.shape =
      Shape.arrayOf dims (Shape.arrayOf more inner.shape)
    cases inner.shape <;> simp [Shape.arrayOf, List.append_assoc]
  | _ => rfl

/-- What code generation reads of a type is that of its plain form. -/
theorem shape_plain (node : TypeNode) : node.plain.shape.bare = node.shape.bare := by
  have harray : ∀ dims (s : Shape), (Shape.arrayOf dims s).bare = Shape.arrayOf dims s.bare := by
    intro dims s
    cases s <;> rfl
  induction node using TypeNode.shape.induct with
  | case1 name target ih => exact ih
  | case8 element dims ih =>
    show (merged dims element.plain).shape.bare = (Shape.arrayOf dims element.shape).bare
    rw [shape_merged, harray, harray, ih]
  | case6 s =>
    obtain ⟨name, fields, category⟩ := s
    rfl
  | case7 u =>
    obtain ⟨name, branches⟩ := u
    rfl
  | case9 element maxBound ih => exact congrArg (Shape.sequence · maxBound) ih
  | _ => rfl

end TypeNode

namespace Declaration

/-- The declaration with plain types. -/
def plain : Declaration → Declaration
  | .struct s => .struct (TypeNode.plainStruct s)
  | .enum e => .enum e
  | .alias a => .alias ⟨a.name, a.target.plain⟩
  | .union u => .union (TypeNode.plainUnion u)
  | .const c => .const { c with type := c.type.plain }

/-- All types of the declaration are plain. -/
def IsPlain : Declaration → Prop
  | .struct s => TypeNode.IsPlainStruct s
  | .enum _ => True
  | .alias a => a.target.IsPlain
  | .union u => TypeNode.IsPlainUnion u
  | .const c => c.type.IsPlain

theorem plain_isPlain (d : Declaration) : d.plain.IsPlain := by
  cases d with
  | struct s => exact TypeNode.plainStruct_isPlain s
  | enum e => trivial
  | «alias» a => exact TypeNode.plain_isPlain a.target
  | union u => exact TypeNode.plainUnion_isPlain u
  | const c => exact TypeNode.plain_isPlain c.type

end Declaration

end InteropGen
