import Mathlib.Data.List.Nodup
import InteropGen.Proofs.Transfer.Compiled

/-!
# Machines with generated code

A family of structs and enums that refers to nothing outside of it, with names that do not clash
even when the transfer suffix is put after them, has a machine: its declarations are the ones that
the generator emits for the family.

* `Family.compiled` — every struct of the family is compiled on that machine.
-/

set_option autoImplicit false

namespace InteropGen

open CSharp

/-- A family of structs and the enums that go with it. -/
structure Family where
  structs : List StructType
  enums : List EnumType

/-- What the code of a named declaration declares at a path. -/
def declaredAt (suffix path : String) (item : ScopedName × DeclarationCode) : Option TypeDecl :=
  if path = item.1.dotted then item.2.units.values.map (·.decl)
  else if path = item.1.dotted ++ suffix then item.2.units.transfers.map (·.decl)
  else none

namespace Family

variable (family : Family) (t : Target) (wireCodec : Bool)

/-- The names of a family. -/
def names : List ScopedName :=
  family.structs.map (·.name) ++ family.enums.map (·.name)

/-- The code of every member. A struct that is not accepted has none. -/
def code : List (ScopedName × DeclarationCode) :=
  (family.structs.filterMap fun s => (t.structCode wireCodec s).toOption.map fun c => (s.name, c)) ++
    family.enums.map fun e => (e.name, t.enumCode e)

/-- The generated declaration at a path. -/
def decls (path : String) : Option TypeDecl :=
  (family.code t wireCodec).findSome? (declaredAt t.transferSuffix path)

/-- The family can be compiled: its members are accepted, refer to members only, and their paths on
the two sides are all different; field names are distinct and bounds are numbers of type `int`. -/
structure Compiles : Prop where
  accepted : ∀ s ∈ family.structs, ∃ code, t.structCode wireCodec s = .ok code
  structs : ∀ s ∈ family.structs, ∀ f ∈ s.fields, ∀ inner ∈ f.type.shape.structs,
    inner ∈ family.structs
  enums : ∀ s ∈ family.structs, ∀ f ∈ s.fields, ∀ e ∈ f.type.shape.enums, e ∈ family.enums
  paths : (family.names.flatMap fun name =>
    [name.dotted, name.dotted ++ t.transferSuffix]).Nodup
  distinct : ∀ s ∈ family.structs, (s.fields.map (·.name)).Nodup
  bounds : ∀ s ∈ family.structs, ∀ f ∈ s.fields, ∀ element maxBound,
    f.type.shape = .sequence element maxBound → maxBound ≤ 2147483647

variable {family t wireCodec}

theorem code_names (accepted : ∀ s ∈ family.structs, ∃ code, t.structCode wireCodec s = .ok code) :
    (family.code t wireCodec).map (·.1) = family.names := by
  have hstructs : ∀ structs : List StructType, (∀ s ∈ structs, ∃ code, t.structCode wireCodec s =
      .ok code) → (structs.filterMap fun s =>
        (t.structCode wireCodec s).toOption.map fun c => (s.name, c)).map (·.1) =
          structs.map (·.name) := by
    intro structs haccepted
    induction structs with
    | nil => rfl
    | cons s rest ih =>
      obtain ⟨⟨code, hcode⟩, hrest⟩ := List.forall_mem_cons.mp haccepted
      rw [List.filterMap_cons, hcode]
      exact congrArg (s.name :: ·) (ih hrest)
  rw [code, List.map_append, hstructs _ accepted, List.map_map]
  rfl

/-- With paths that are all different, the path of a member leads to its code. -/
theorem findSome?_code (items : List (ScopedName × DeclarationCode)) (suffix : String)
    (hpaths : ((items.map (·.1)).flatMap fun name => [name.dotted, name.dotted ++ suffix]).Nodup)
    (item : ScopedName × DeclarationCode) (hitem : item ∈ items) (path : String)
    (hpath : path = item.1.dotted ∨ path = item.1.dotted ++ suffix) (decl : TypeDecl)
    (hdecl : declaredAt suffix path item = some decl) :
    items.findSome? (declaredAt suffix path) = some decl := by
  induction items with
  | nil => cases hitem
  | cons first rest ih =>
    rw [List.map_cons, List.flatMap_cons, List.nodup_append] at hpaths
    obtain ⟨_, hrest, hapart⟩ := hpaths
    rcases List.mem_cons.mp hitem with rfl | hmem
    · rw [List.findSome?_cons, hdecl]
    · have hin : path ∈ (rest.map (·.1)).flatMap fun name => [name.dotted, name.dotted ++ suffix] := by
        rw [List.mem_flatMap]
        refine ⟨item.1, List.mem_map_of_mem hmem, ?_⟩
        rcases hpath with h | h <;> simp [h]
      have hne : path ≠ first.1.dotted := fun h => hapart _ (by simp) _ hin h.symm
      have hne' : path ≠ first.1.dotted ++ suffix := fun h => hapart _ (by simp) _ hin h.symm
      have hnone : declaredAt suffix path first = none := by
        rw [declaredAt, if_neg hne, if_neg hne']
      rw [List.findSome?_cons, hnone]
      exact ih hrest hmem

/-- Every struct of a family that compiles is compiled on a machine with its declarations. -/
theorem compiled {m : Machine} (compiles : family.Compiles t wireCodec)
    (hdecls : m.decls = family.decls t wireCodec) (s : StructType) (hs : s ∈ family.structs) :
    Compiled m t wireCodec s := by
  have hpaths : (((family.code t wireCodec).map (·.1)).flatMap fun name =>
      [name.dotted, name.dotted ++ t.transferSuffix]).Nodup := by
    rw [code_names compiles.accepted]
    exact compiles.paths
  -- the two paths of a member differ
  have hside : ∀ item ∈ family.code t wireCodec, item.1.dotted ++ t.transferSuffix ≠ item.1.dotted := by
    intro item hitem heq
    have hpair := (List.nodup_flatMap.mp hpaths).1 item.1 (List.mem_map_of_mem hitem)
    simp [heq] at hpair
  have hvalue : ∀ item ∈ family.code t wireCodec, ∀ decl,
      item.2.units.values.map (·.decl) = some decl → m.decls item.1.dotted = some decl := by
    intro item hitem decl hdecl
    rw [hdecls]
    exact findSome?_code _ _ hpaths item hitem _ (.inl rfl) decl (by rw [declaredAt, if_pos rfl, hdecl])
  have htransfer : ∀ item ∈ family.code t wireCodec, ∀ decl,
      item.2.units.transfers.map (·.decl) = some decl →
        m.decls (item.1.dotted ++ t.transferSuffix) = some decl := by
    intro item hitem decl hdecl
    rw [hdecls]
    exact findSome?_code _ _ hpaths item hitem _ (.inr rfl) decl
      (by rw [declaredAt, if_neg (hside item hitem), if_pos rfl, hdecl])
  have hnested : ∀ inner, NestedIn inner s → inner ∈ family.structs := by
    intro inner h
    induction h with
    | refl => exact hs
    | field middle outer f hf hmiddle _ ih =>
      exact ih (compiles.structs outer hs f hf middle hmiddle)
  intro inner hinner
  have hmem := hnested inner hinner
  obtain ⟨code, hcode⟩ := compiles.accepted inner hmem
  have hitem : (inner.name, code) ∈ family.code t wireCodec := by
    rw [Family.code, List.mem_append, List.mem_filterMap]
    exact .inl ⟨inner, hmem, by rw [hcode]; rfl⟩
  obtain ⟨c, transfers, _, _, hunits⟩ := structCode_cases hcode
  refine ⟨⟨code, hcode, ?_, ?_⟩, compiles.distinct inner hmem, compiles.bounds inner hmem, ?_⟩
  · rw [hvalue _ hitem (.valueClass c) (by rw [hunits]; rfl), hunits]
    rfl
  · rw [htransfer _ hitem (.transferStruct transfers) (by rw [hunits]; rfl), hunits]
    rfl
  intro f hf e he
  have hmember := compiles.enums inner hmem f hf e he
  have henum : (e.name, t.enumCode e) ∈ family.code t wireCodec := by
    rw [Family.code, List.mem_append, List.mem_map]
    exact .inr ⟨e, hmember, rfl⟩
  exact ⟨hvalue _ henum _ rfl, htransfer _ henum _ rfl⟩

end Family

namespace Radar

/-- A target with rows of their own and wide characters of four bytes. -/
def target : Target := ⟨.jagged, .linux, "_Native"⟩

def track : StructType :=
  ⟨.ofSegments ["Radar", "Track"], [⟨"range", .primitive .f64⟩, ⟨"label", .wideString⟩], none⟩

def scan : StructType :=
  ⟨.ofSegments ["Radar", "Scan"],
    [⟨"tracks", .sequence (.struct track) 4⟩, ⟨"grid", .fixedArray (.primitive .wchar) [2, 2]⟩], none⟩

/-- A struct and one that holds a sequence of it. -/
def family : Family := ⟨[track, scan], []⟩

theorem compiles : family.Compiles target false where
  accepted := by
    simp only [family, List.forall_mem_cons]
    exact ⟨⟨_, rfl⟩, ⟨_, rfl⟩, by simp⟩
  structs := by
    simp only [family, List.forall_mem_cons]
    simp [track, scan, TypeNode.shape, Shape.structs, Shape.arrayOf]
  enums := by
    simp only [family, List.forall_mem_cons]
    simp [track, scan, TypeNode.shape, Shape.enums, Shape.arrayOf]
  paths := by decide
  distinct := by
    simp only [family, List.forall_mem_cons]
    exact ⟨by decide, by decide, by simp⟩
  bounds := by
    simp only [family, List.forall_mem_cons]
    simp [track, scan, TypeNode.shape, Shape.arrayOf]

def trackValue : Value :=
  .record "Radar.Track" fun
    | "range" => .double 0x4059000000000000
    | "label" => .text [72, 105]
    | _ => .null

/-- A scan of one track. -/
def scanValue : Value :=
  .record "Radar.Scan" fun
    | "tracks" => .list [trackValue]
    | "grid" => Layout.jagged.arrayValue [2, 2] fun idx => .char (BitVec.ofNat 16 (flat [2, 2] idx))
    | _ => .null

/-- A machine with the code of the family. -/
def machine : Machine where
  decls := family.decls target false
  handleSize := 8
  structSize _ := 16
  narrow _ := 0
  widen _ := none
  handleSize_pos := by decide
  handleSize_le := by decide
  structSize_pos _ := by decide
  structSize_le _ := by decide

theorem compiled : Compiled machine target false scan :=
  family.compiled compiles rfl scan (by simp [family])

theorem trackValue_typed (strict : Bool) :
    Typed machine target strict (.struct track) trackValue := by
  refine .struct track _ ?_ ?_
  · simp only [track, List.forall_mem_cons]
    exact ⟨.primitive .f64 _ (.double _) fun _ => ⟨by simp, by simp⟩, .text .wide _, by simp⟩
  · intro name hname
    simp only [track, List.map_cons, List.map_nil, List.mem_cons, List.not_mem_nil, or_false,
      not_or] at hname
    simp [hname]

theorem scanValue_typed (strict : Bool) :
    Typed machine target strict (.struct scan) scanValue := by
  have htracks : Typed machine target strict (.sequence (.struct track) 4) (.list [trackValue]) := by
    refine .list (.struct track) 4 _ ?_ (fun _ => .inr (by decide)) (by decide) (by decide)
    intro v hv
    rw [List.mem_singleton.mp hv]
    exact trackValue_typed strict
  have hgrid : Typed machine target strict (.array (.primitive .wchar) [2, 2])
      (Layout.jagged.arrayValue [2, 2] fun idx => .char (BitVec.ofNat 16 (flat [2, 2] idx))) := by
    refine .array (.primitive .wchar) [2, 2] _ ⟨by simp, by simp, by decide⟩ ?_ ?_
    · intro length h
      cases h
    · intro idx _
      exact .primitive .wchar _ (.char _) fun _ => ⟨by simp, by simp⟩
  refine .struct scan _ ?_ ?_
  · simp only [scan, List.forall_mem_cons]
    exact ⟨htracks, hgrid, by simp⟩
  · intro name hname
    simp only [scan, List.map_cons, List.map_nil, List.mem_cons, List.not_mem_nil, or_false,
      not_or] at hname
    simp [hname]

/-- Before a scan is converted. -/
def before : State where
  self := scanValue
  wrapper := .record "Radar.Scan_Native" fun _ => .null
  released := []
  memory := ⟨fun _ => none, 0, []⟩
  wire := []

theorem before_storage : Storage target (.struct scan) before.wrapper := by
  refine .struct scan _ ?_
  simp only [scan, List.forall_mem_cons]
  exact ⟨.other _ _ (by simp [TypeNode.shape]),
    .other _ _ (by simp [TypeNode.shape, Shape.arrayOf]), by simp⟩

end Radar

namespace Atlas

def target : Target := ⟨.jagged, .windows, "_Native"⟩

/-- A struct of 65536 bytes. -/
def tile : StructType :=
  ⟨.ofSegments ["Atlas", "Tile"], [⟨"pixels", .fixedArray (.primitive .octet) [65536]⟩], none⟩

/-- A struct with many of them. -/
def chart : StructType :=
  ⟨.ofSegments ["Atlas", "Chart"],
    [⟨"tiles", .fixedArray (.struct tile) [256, 512]⟩, ⟨"strip", .sequence (.struct tile) 0⟩], none⟩

def tiles : FieldView := .of "Atlas::Chart" ⟨"tiles", .fixedArray (.struct tile) [256, 512]⟩

def strip : FieldView := .of "Atlas::Chart" ⟨"strip", .sequence (.struct tile) 0⟩

/-- A machine that knows the size of a tile. -/
def machine : Machine :=
  { Radar.machine with
    structSize := fun _ => 65536
    structSize_pos := fun _ => by decide
    structSize_le := fun _ => by decide }

end Atlas

end InteropGen
