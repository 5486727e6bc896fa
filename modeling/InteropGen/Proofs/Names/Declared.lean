import InteropGen.Proofs.Names.Spelled
import InteropGen.Proofs.Targets.Emission

/-!
# Declared and referenced names

Where the names of a declaration are spelled in its code, and which of them can be bare keywords. A
declared name is escaped; the segments of a path are not. So a type whose own name is a keyword is
declared under an escaped name and referred to by a bare one, while the name of a transfer type,
which ends in the suffix, is spelled alike in both places.

* `Target.declarationCode_spells` — what the code of a declaration spells;
* `ScopedName.Identifiers.tokens_dotted` — the tokens of a path;
* `Target.names_spelled` — which tokens can be keywords, and where declaration and reference agree.
-/

set_option autoImplicit false

namespace InteropGen

open CSharp

/-! ## What a declaration spells -/

namespace CSharp

variable (P : Spelling → Prop)

/-- Everything a declaration spells is of the kind. A constant of a named type spells a member after
the path of the type. -/
def TypeDecl.Spells : TypeDecl → Prop
  | .valueClass c =>
    P (.name c.name) ∧ P (.path c.transferName) ∧
      (∀ p ∈ c.properties, p.1.Spells P ∧ P (.name p.2)) ∧
      BodySpells P c.constructor ∧ BodySpells P c.toNative ∧ BodySpells P c.fromNative ∧
      BodySpells P c.releaseNative ∧
      ∀ bodies ∈ c.codec, BodySpells P bodies.1 ∧ BodySpells P bodies.2
  | .transferStruct s => P (.path s.name) ∧ ∀ f ∈ s.fields, f.type.Spells P ∧ P (.name f.name)
  | .valueEnum name members => P (.name name) ∧ ∀ m ∈ members, P (.name m)
  | .transferEnum name members => P (.path name) ∧ ∀ m ∈ members, P (.name m)
  | .constant type name literal =>
    type.Spells P ∧ P (.name name) ∧ ∀ path, type = .named path →
      ∃ member, literal = path ++ "." ++ identifier member ∧ P (.name member)

/-- Everything a declaration and the namespace around it spell is of the kind. -/
def SourceUnit.Spells (u : SourceUnit) : Prop :=
  (∀ path ∈ u.enclosing, P (.path path)) ∧ u.decl.Spells P

/-- The name of the type that is declared, as it is printed. -/
def TypeDecl.typeName? : TypeDecl → Option String
  | .valueClass c => some (identifier c.name)
  | .transferStruct s => some s.name
  | .valueEnum name _ => some (identifier name)
  | .transferEnum name _ => some name
  | .constant _ _ _ => none

/-- The path under which a unit declares a type: the namespace line, then the name. -/
def SourceUnit.typePath? (u : SourceUnit) : Option String :=
  u.decl.typeName?.map (u.enclosing.elim "" (· ++ ".") ++ ·)

end CSharp

/-- Everything the code spells on either side is of the kind. -/
def DeclarationCode.Spells (P : Spelling → Prop) (code : DeclarationCode) : Prop :=
  (∀ u ∈ code.units.values, u.Spells P) ∧ ∀ u ∈ code.units.transfers, u.Spells P

/-- The names of the types that a shape refers to. -/
def Shape.typeNames : Shape → List ScopedName
  | .enum e => [e.name]
  | .struct s => [s.name]
  | .array element _ | .sequence element _ => element.typeNames
  | _ => []

namespace Declaration

/-- The types that a declaration refers to. -/
def references : Declaration → List ScopedName
  | .struct s => s.fields.flatMap (·.type.shape.typeNames)
  | .const c => c.type.shape.typeNames
  | _ => []

/-- The members that a declaration declares or, being a constant, refers to. -/
def members : Declaration → List String
  | .struct s => s.fields.map (·.name)
  | .enum e => e.values
  | .const c =>
    match c.value with
    | .enumerator member => [member]
    | _ => []
  | _ => []

/-- The spellings in the code of a declaration: escaped, its own name and its members; as paths, its
namespace, its own transfer type, and the value and transfer types that it refers to. -/
def Spelled (t : Target) (d : Declaration) : Spelling → Prop
  | .name n => n = d.name.short ∨ n ∈ d.members
  | .path p =>
    d.name.enclosing = some p ∨ p = t.transferShortName d.name ∨
      ∃ n ∈ d.references, p = n.dotted ∨ p = n.dotted ++ t.transferSuffix

end Declaration

section
variable {P : Spelling → Prop} (t : Target)

theorem freeReleased_spells : BodySpells P freeReleased := by
  simp [freeReleased]

namespace Target

theorem valueClass_spells (codec : Bool) (s : StructType) (fields : List FieldView)
    (c : ValueClass) (notes : List Diagnostic) (h : t.valueClass codec s fields = .ok (c, notes))
    (hname : P (.name s.name.short)) (htransfer : P (.path (t.transferShortName s.name)))
    (hfields : ∀ f ∈ fields, f.Admitted P t) : (TypeDecl.valueClass c).Spells P := by
  have haccepted := (t.valueClass_ok_iff codec s fields).mp ⟨_, h⟩
  obtain ⟨hproperties, hwritten⟩ := t.valueClass_written codec s fields c notes h
  have hbody : ∀ draft : Nat → FieldView → Draft Unit,
      (∀ f ∈ fields, BodySpells P (draft 0 f).stmts) → BodySpells P (bodyOf fields draft) :=
    fun draft hdraft => bodySpells_flatMap fields _ hdraft
  rw [hwritten]
  refine ⟨hname, htransfer, fun p hp => ?_, ?_, ?_, ?_, ?_, ?_⟩
  · obtain ⟨f, hf, hproperty⟩ := except_mapM_of_mem t.property fields c.properties hproperties p hp
    exact t.property_spells f (hfields f hf) (haccepted f hf).1 p hproperty
  · exact hbody _ fun f hf => t.initial_spells 0 f (hfields f hf) (haccepted f hf).1
  · exact hbody _ fun f hf => t.toNative_spells 0 f (hfields f hf) (haccepted f hf).1
  · exact hbody _ fun f hf => t.fromNative_spells 0 f (hfields f hf) (haccepted f hf).1
  · exact (bodySpells_append _ _).mpr ⟨freeReleased_spells,
      hbody _ fun f hf => t.releaseNative_spells 0 f (hfields f hf) (haccepted f hf).1⟩
  · intro bodies hbodies
    cases codec with
    | false => cases hbodies
    | true =>
      cases hbodies
      exact ⟨hbody _ fun f hf => t.encode_spells 0 f (hfields f hf) ((haccepted f hf).2 rfl),
        hbody _ fun f hf => t.decode_spells 0 f (hfields f hf) ((haccepted f hf).2 rfl)⟩

theorem transferStruct_spells (s : StructType) (fields : List FieldView)
    (transfers : TransferStruct) (h : t.transferStruct s fields = .ok transfers)
    (htransfer : P (.path (t.transferShortName s.name))) (hfields : ∀ f ∈ fields, f.Admitted P t)
    (haccepted : ∀ f ∈ fields, f.shape.Transferable t.layout) :
    (TypeDecl.transferStruct transfers).Spells P := by
  simp only [transferStruct, except_bind_ok_iff] at h
  obtain ⟨results, hresults, hpure⟩ := h
  cases hpure
  refine ⟨htransfer, fun field hfield => ?_⟩
  obtain ⟨f, hf, hresult⟩ := except_mapM_of_mem t.transferField fields results hresults field hfield
  exact t.transferField_spells f (hfields f hf) (haccepted f hf) field hresult

end Target

/-- The types of an element are among those of its field. -/
theorem Element.admitted_of_typeNames (e : Element)
    (h : ∀ n ∈ e.shape.typeNames, P (.path n.dotted) ∧ P (.path (n.dotted ++ t.transferSuffix))) :
    e.Admitted P t := by
  cases e with
  | primitive kind => exact ⟨trivial, trivial⟩
  | string kind => exact ⟨trivial, trivial⟩
  | enum en =>
    obtain ⟨hvalue, htransfer⟩ := h en.name (List.mem_singleton.mpr rfl)
    exact ⟨hvalue, htransfer⟩
  | struct s =>
    obtain ⟨hvalue, htransfer⟩ := h s.name (List.mem_singleton.mpr rfl)
    exact ⟨hvalue, htransfer⟩

theorem Shape.typeNames_item {shape item : Shape} (h : shape.item = item) (n : ScopedName)
    (hn : n ∈ item.typeNames) : n ∈ shape.typeNames := by
  subst h
  cases shape <;> exact hn

/-- A constant spells its type, and if it is a member of an enum, that member. -/
theorem constantLiteral_spells (c : ConstDecl)
    (hP : ∀ sp, (Declaration.const c).Spelled t sp → P sp) (type : Ty) (literal : String)
    (h : constantLiteral? c.type.shape c.value = some (type, literal)) :
    type.Spells P ∧ ∀ path, type = .named path →
      ∃ member, literal = path ++ "." ++ identifier member ∧ P (.name member) := by
  unfold constantLiteral? at h
  split at h
  · obtain ⟨text, _, hresult⟩ := Option.map_eq_some_iff.mp h
    cases hresult
    exact ⟨trivial, nofun⟩
  · cases h
    exact ⟨trivial, nofun⟩
  · rename_i e member hshape hvalue
    split at h
    · cases h
      have hreference : e.name ∈ (Declaration.const c).references := by
        simp [Declaration.references, hshape, Shape.typeNames]
      have hmember : member ∈ (Declaration.const c).members := by
        simp [Declaration.members, hvalue]
      refine ⟨hP _ (.inr (.inr ⟨e.name, hreference, .inl rfl⟩)), fun path hpath => ?_⟩
      cases hpath
      exact ⟨member, rfl, hP _ (.inr hmember)⟩
    · cases h
  · cases h

namespace Target

/-- Every field of a struct spells only what the struct may. -/
theorem views_admitted (s : StructType) (hP : ∀ sp, (Declaration.struct s).Spelled t sp → P sp) :
    ∀ f ∈ views s, f.Admitted P t := by
  refine forall_mem_views fun f hf => ⟨hP _ (.inr (List.mem_map_of_mem hf)), fun e he => ?_⟩
  refine e.admitted_of_typeNames t fun n hn => ?_
  have hreference : n ∈ (Declaration.struct s).references :=
    List.mem_flatMap.mpr ⟨f, hf, Shape.typeNames_item he n hn⟩
  exact ⟨hP _ (.inr (.inr ⟨n, hreference, .inl rfl⟩)), hP _ (.inr (.inr ⟨n, hreference, .inr rfl⟩))⟩

/-- What the code of a declaration spells. -/
theorem declarationCode_spells (wireCodec : Bool) (d : Declaration) (code : DeclarationCode)
    (h : t.declarationCode wireCodec d = .ok code) (hP : ∀ sp, d.Spelled t sp → P sp) :
    code.Spells P := by
  have henclosing : ∀ path ∈ d.name.enclosing, P (.path path) := fun path hpath => hP _ (.inl hpath)
  have hname : P (.name d.name.short) := hP _ (.inl rfl)
  have htransfer : P (.path (t.transferShortName d.name)) := hP _ (.inr (.inl rfl))
  cases d with
  | struct s =>
    obtain ⟨c, notes, transfers, hclass, htransfers, rfl⟩ := t.structCode_parts wireCodec s code h
    have haccepted := (t.valueClass_ok_iff _ s (views s)).mp ⟨_, hclass⟩
    have hfields := t.views_admitted s hP
    constructor
    · rintro u ⟨⟩
      exact ⟨henclosing, t.valueClass_spells _ s _ c notes hclass hname htransfer hfields⟩
    · rintro u ⟨⟩
      exact ⟨henclosing, t.transferStruct_spells s _ transfers htransfers htransfer hfields
        fun f hf => (haccepted f hf).1⟩
  | enum e =>
    cases h
    have hmembers : ∀ m ∈ e.values, P (.name m) := fun m hm => hP _ (.inr hm)
    constructor
    · rintro u ⟨⟩
      exact ⟨henclosing, hname, hmembers⟩
    · rintro u ⟨⟩
      exact ⟨henclosing, htransfer, hmembers⟩
  | const c =>
    obtain ⟨type, literal, hliteral, rfl⟩ := constCode_parts h
    obtain ⟨htype, hmember⟩ := constantLiteral_spells t c hP type literal hliteral
    refine ⟨?_, by simp⟩
    rintro u ⟨⟩
    exact ⟨henclosing, htype, hname, hmember⟩
  | «alias» a =>
    cases h
    constructor <;> simp
  | union u => cases h

end Target

end

/-! ## Paths and their tokens -/

/-- No escaped name is a keyword. -/
theorem identifier_not_keyword (name : String) : identifier name ∉ keywords := by
  have hplain : ∀ keyword ∈ keywords, keyword.toList.head? ≠ some '@' := by decide
  unfold identifier
  split
  · intro h
    exact hplain _ h (by simp)
  · assumption

theorem identifier_eq_iff (name : String) : identifier name = name ↔ name ∉ keywords := by
  constructor
  · intro h
    rw [← h]
    exact identifier_not_keyword name
  · intro h
    exact if_neg h

namespace ScopedName

variable (n : ScopedName) (last : String)

/-- A name at the end of the namespace of another. -/
theorem enclosing_append :
    n.enclosing.elim "" (· ++ ".") ++ last = ".".intercalate (n.segments.dropLast ++ [last]) := by
  unfold enclosing
  cases hmodules : n.segments.dropLast with
  | nil => simp
  | cons first rest =>
    rw [String.intercalate_append_of_ne_nil (by simp) (by simp)]
    simp

theorem dotted_append (suffix : String) :
    n.dotted ++ suffix = ".".intercalate (n.segments.dropLast ++ [n.short ++ suffix]) := by
  unfold dotted short
  rcases List.eq_nil_or_concat n.segments with hsegments | ⟨modules, short, hsegments⟩
  · simp [hsegments]
  · rw [hsegments, List.concat_eq_append, List.dropLast_concat, List.getLastD_concat]
    cases modules with
    | nil => simp
    | cons first rest =>
      rw [String.intercalate_append_of_ne_nil (by simp) (by simp),
        String.intercalate_append_of_ne_nil (by simp) (by simp)]
      simp [String.append_assoc]

theorem dotted_eq : n.dotted = ".".intercalate (n.segments.dropLast ++ [n.short]) := by
  simpa using n.dotted_append ""

end ScopedName

/-- The tokens of a spelling: the segments of a path, or the identifier of a name. -/
def Spelling.tokens : Spelling → List String
  | .path text => (text.toList.splitOn '.').map String.ofList
  | .name n => [identifier n]

theorem tokens_intercalate (segments : List String) (h : ∀ s ∈ segments, '.' ∉ s.toList)
    (hne : segments ≠ []) : (Spelling.path (".".intercalate segments)).tokens = segments := by
  have hchars : ∀ chars ∈ segments.map String.toList, '.' ∉ chars := by
    simpa using h
  simp only [Spelling.tokens, String.toList_intercalate]
  have hdot : ".".toList = ['.'] := rfl
  rw [hdot, List.splitOn_intercalate '.' hchars (by simpa using hne), List.map_map]
  simp

theorem not_mem_of_isIdentifier {text : String} (h : isIdentifier text = true) :
    '.' ∉ text.toList := by
  unfold isIdentifier at h
  intro hdot
  split at h
  · cases h
  · rename_i c rest heq
    rw [heq] at hdot
    simp only [Bool.and_eq_true, List.all_eq_true] at h
    rcases List.mem_cons.mp hdot with hc | hrest
    · rw [← hc] at h
      exact absurd h.1 (by decide)
    · exact absurd (h.2 '.' hrest) (by decide)

namespace ScopedName

variable (n : ScopedName)

/-- Every segment is an identifier, a keyword perhaps. -/
def Identifiers : Prop :=
  ∀ s ∈ n.segments, isIdentifier s = true

instance : Decidable n.Identifiers :=
  inferInstanceAs (Decidable (∀ s ∈ n.segments, isIdentifier s = true))

theorem short_mem_or : n.short ∈ n.segments ∨ n.short = "" := by
  unfold short
  rcases List.eq_nil_or_concat n.segments with hsegments | ⟨modules, last, hsegments⟩
  · exact .inr (by simp [hsegments])
  · refine .inl ?_
    rw [hsegments, List.concat_eq_append, List.getLastD_concat]
    exact List.mem_append_right _ (List.mem_singleton.mpr rfl)

variable {n}

theorem Identifiers.not_mem_modules (h : n.Identifiers) :
    ∀ s ∈ n.segments.dropLast, '.' ∉ s.toList :=
  fun s hs => not_mem_of_isIdentifier (h s (List.dropLast_subset _ hs))

theorem Identifiers.not_mem_short (h : n.Identifiers) : '.' ∉ n.short.toList := by
  rcases n.short_mem_or with hmem | hempty
  · exact not_mem_of_isIdentifier (h n.short hmem)
  · simp [hempty]

/-- The tokens of a path that ends in the name, with or without a suffix. -/
theorem Identifiers.tokens_append (h : n.Identifiers) (suffix : String)
    (hsuffix : '.' ∉ suffix.toList) :
    (Spelling.path (n.dotted ++ suffix)).tokens = n.segments.dropLast ++ [n.short ++ suffix] := by
  rw [dotted_append]
  refine tokens_intercalate _ (fun s hs => ?_) (by simp)
  rcases List.mem_append.mp hs with hmodule | hlast
  · exact h.not_mem_modules s hmodule
  · rw [List.mem_singleton.mp hlast, String.toList_append, List.mem_append, not_or]
    exact ⟨h.not_mem_short, hsuffix⟩

theorem Identifiers.tokens_dotted (h : n.Identifiers) :
    (Spelling.path n.dotted).tokens = n.segments.dropLast ++ [n.short] := by
  simpa using h.tokens_append "" (by simp)

/-- A short name with a suffix is one token. -/
theorem Identifiers.tokens_short (h : n.Identifiers) (suffix : String)
    (hsuffix : '.' ∉ suffix.toList) :
    (Spelling.path (n.short ++ suffix)).tokens = [n.short ++ suffix] := by
  have hlast : '.' ∉ (n.short ++ suffix).toList := by
    rw [String.toList_append, List.mem_append, not_or]
    exact ⟨h.not_mem_short, hsuffix⟩
  simpa using tokens_intercalate [n.short ++ suffix] (by simpa using hlast) (by simp)

theorem Identifiers.tokens_enclosing (h : n.Identifiers) {path : String}
    (hpath : n.enclosing = some path) : (Spelling.path path).tokens = n.segments.dropLast := by
  unfold enclosing at hpath
  split at hpath
  · cases hpath
  · rename_i modules hne
    cases hpath
    exact tokens_intercalate _ h.not_mem_modules hne

end ScopedName

theorem not_keyword_empty : "" ∉ keywords := by
  decide

namespace Target

variable (t : Target)

/-- A token of generated code is the identifier of a name, or part of a path: a segment of a name, or
a short name with the suffix. -/
theorem token_of_spelled (d : Declaration) (hsuffix : '.' ∉ t.transferSuffix.toList)
    (hnames : ∀ n ∈ d.name :: d.references, n.Identifiers) (sp : Spelling) (h : d.Spelled t sp)
    (token : String) (htoken : token ∈ sp.tokens) (hkeyword : token ∈ keywords) :
    (∃ path, sp = .path path) ∧ ∃ n ∈ d.name :: d.references,
      token ∈ n.segments ∨ token = n.short ++ t.transferSuffix := by
  have hshort : ∀ n : ScopedName, n.short ∈ keywords → n.short ∈ n.segments := fun n hn =>
    n.short_mem_or.resolve_right fun hempty => not_keyword_empty (hempty ▸ hn)
  cases sp with
  | name n =>
    rw [Spelling.tokens, List.mem_singleton] at htoken
    exact absurd (htoken ▸ hkeyword) (identifier_not_keyword n)
  | path p =>
    refine ⟨⟨p, rfl⟩, ?_⟩
    obtain hpath | rfl | ⟨n, hn, rfl | rfl⟩ := h
    · rw [(hnames _ (List.mem_cons_self ..)).tokens_enclosing hpath] at htoken
      exact ⟨d.name, List.mem_cons_self .., .inl (List.dropLast_subset _ htoken)⟩
    · rw [transferShortName, (hnames _ (List.mem_cons_self ..)).tokens_short _ hsuffix,
        List.mem_singleton] at htoken
      exact ⟨d.name, List.mem_cons_self .., .inr htoken⟩
    · rw [(hnames n (List.mem_cons_of_mem _ hn)).tokens_dotted, List.mem_append,
        List.mem_singleton] at htoken
      refine ⟨n, List.mem_cons_of_mem _ hn, .inl ?_⟩
      rcases htoken with hmodule | rfl
      · exact List.dropLast_subset _ hmodule
      · exact hshort n hkeyword
    · rw [(hnames n (List.mem_cons_of_mem _ hn)).tokens_append _ hsuffix, List.mem_append,
        List.mem_singleton] at htoken
      refine ⟨n, List.mem_cons_of_mem _ hn, ?_⟩
      exact htoken.imp (fun hmodule => List.dropLast_subset _ hmodule) id

/-- The namespaces and the names of the types of a declaration. -/
theorem typeName_of_ok (wireCodec : Bool) (d : Declaration) (code : DeclarationCode)
    (h : t.declarationCode wireCodec d = .ok code) :
    ((∀ c, d ≠ .const c) → ∀ u ∈ code.units.values,
      u.enclosing = d.name.enclosing ∧ u.decl.typeName? = some (identifier d.name.short)) ∧
    ∀ u ∈ code.units.transfers,
      u.enclosing = d.name.enclosing ∧ u.decl.typeName? = some (t.transferShortName d.name) := by
  cases d with
  | struct s =>
    obtain ⟨c, notes, transfers, hclass, htransfers, rfl⟩ := t.structCode_parts wireCodec s code h
    obtain ⟨hname, _⟩ := t.valueClass_names _ s _ c notes hclass
    simp only [transferStruct, except_bind_ok_iff] at htransfers
    obtain ⟨_, _, hpure⟩ := htransfers
    cases hpure
    constructor
    · rintro - u ⟨⟩
      exact ⟨rfl, by simp only [TypeDecl.typeName?, hname]; rfl⟩
    · rintro u ⟨⟩
      exact ⟨rfl, rfl⟩
  | enum e =>
    cases h
    constructor
    · rintro - u ⟨⟩
      exact ⟨rfl, rfl⟩
    · rintro u ⟨⟩
      exact ⟨rfl, rfl⟩
  | const c =>
    obtain ⟨_, _, _, rfl⟩ := constCode_parts h
    exact ⟨fun hconst => absurd rfl (hconst c), by simp⟩
  | «alias» a =>
    cases h
    constructor <;> simp
  | union u => cases h

/-- Where the types of a declaration are declared. -/
theorem typePath_of_ok (wireCodec : Bool) (d : Declaration) (code : DeclarationCode)
    (h : t.declarationCode wireCodec d = .ok code) :
    ((∀ c, d ≠ .const c) → ∀ u ∈ code.units.values,
      u.typePath? = some (d.name.enclosing.elim "" (· ++ ".") ++ identifier d.name.short)) ∧
    ∀ u ∈ code.units.transfers,
      u.typePath? = some (d.name.enclosing.elim "" (· ++ ".") ++ t.transferShortName d.name) := by
  obtain ⟨hvalues, htransfers⟩ := t.typeName_of_ok wireCodec d code h
  constructor
  · intro hconst u hu
    obtain ⟨henclosing, hname⟩ := hvalues hconst u hu
    simp [SourceUnit.typePath?, henclosing, hname]
  · intro u hu
    obtain ⟨henclosing, hname⟩ := htransfers u hu
    simp [SourceUnit.typePath?, henclosing, hname]

/-- **Declared and referenced names.** Let all names be identifiers. A keyword among the tokens of
generated code is never the declared name of a value type, a field, an enumerator or a constant: it
is part of a path, either a segment of the own name or of one that is referred to, or a short name
with the suffix. A value type is declared under the path that refers to it exactly if its short name
is no keyword; a transfer type always is. -/
theorem names_spelled (wireCodec : Bool) (d : Declaration) (code : DeclarationCode)
    (hsuffix : '.' ∉ t.transferSuffix.toList)
    (hnames : ∀ n ∈ d.name :: d.references, n.Identifiers)
    (h : t.declarationCode wireCodec d = .ok code) :
    code.Spells (fun sp => d.Spelled t sp ∧ ∀ token ∈ sp.tokens, token ∈ keywords →
      (∃ path, sp = .path path) ∧ ∃ n ∈ d.name :: d.references,
        token ∈ n.segments ∨ token = n.short ++ t.transferSuffix) ∧
    ((∀ c, d ≠ .const c) → ∀ u ∈ code.units.values,
      ∃ path, u.typePath? = some path ∧ (path = d.name.dotted ↔ d.name.short ∉ keywords)) ∧
    ∀ u ∈ code.units.transfers, u.typePath? = some (d.name.dotted ++ t.transferSuffix) := by
  obtain ⟨hvalues, htransfers⟩ := t.typePath_of_ok wireCodec d code h
  refine ⟨t.declarationCode_spells wireCodec d code h fun sp hsp =>
    ⟨hsp, t.token_of_spelled d hsuffix hnames sp hsp⟩, fun hconst u hu => ?_, fun u hu => ?_⟩
  · refine ⟨_, hvalues hconst u hu, ?_⟩
    rw [← identifier_eq_iff, d.name.dotted_eq, ← d.name.enclosing_append]
    exact String.append_right_inj _
  · rw [htransfers u hu, d.name.dotted_append, ← d.name.enclosing_append]
    rfl

end Target

namespace Siren

def event : EnumType := ⟨.ofSegments ["Siren", "event"], ["ON", "OFF"]⟩

/-- A struct with a keyword among its fields, which refers to a type that is named by one. -/
def log : StructType :=
  ⟨.ofSegments ["Siren", "Log"], [⟨"last", .enum event⟩, ⟨"lock", .primitive .bool⟩], none⟩

def target : Target := (Generator.mk .default .empty).target .jagged

end Siren

theorem siren_names :
    ∃ code u, Siren.target.declarationCode true (.struct Siren.log) = .ok code ∧
      code.units.transfers = some u ∧ u.typePath? = some "Siren.LogWrapper" := by
  obtain ⟨_, _, htransfers⟩ :=
    Siren.target.names_spelled true (.struct Siren.log) _ (by decide) (by decide) rfl
  exact ⟨_, _, rfl, rfl, htransfers _ rfl⟩

/-- The enum is declared under an escaped name, and the property of its type refers to a keyword. -/
theorem siren_event_bare :
    (Siren.target.enumCode Siren.event).units.values.bind (·.typePath?) = some "Siren.@event" ∧
      Siren.event.name.dotted = "Siren.event" ∧
      ∃ code, Siren.target.declarationCode true (.struct Siren.log) = .ok code ∧
        ¬ code.Spells fun sp => ∀ token ∈ sp.tokens, token ∉ keywords := by
  refine ⟨by decide, by decide, _, rfl, fun h => ?_⟩
  obtain ⟨_, _, _, hproperties, _⟩ := h.1 _ rfl
  have hlast := hproperties (.named "Siren.event", "last") (List.mem_cons_self ..)
  exact hlast.1 "event" (by decide) (by decide)

end InteropGen
