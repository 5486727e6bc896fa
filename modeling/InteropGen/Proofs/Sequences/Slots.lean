import InteropGen.Proofs.Bodies
import InteropGen.Proofs.Sequences.Accesses
import InteropGen.Proofs.Transfer.Slots

/-!
# Accesses to one slot

An element is stored in its slot by one store, and taken from it by one load, of as many bytes as
the code takes a slot to have. Strings and structs are staged in local variables before or after
that.

* `amount_slotSize` — the size that the code computes is the width of the slot;
* `Target.storeInSlot_accesses`, `Target.loadFromSlot_accesses` — one element in either direction.
-/

set_option autoImplicit false

namespace InteropGen

open CSharp

attribute [local simp] Expr.amount? totalAmount? Expr.origins? allOrigins? Expr.loads? allLoads?
  Expr.callAccesses? Stmt.leafAccesses? Stmt.accesses?

variable {o : Outlook}

/-! ## Numbers -/

theorem amount_var (name : Local) : (Expr.var name).amount? o = o.numbers.lookup name := by
  rw [Expr.amount?]

/-- What lies behind the number at the start of the block. -/
theorem amount_pastCount {x y : Expr} {k width : Nat} (hx : x.amount? o = some (k : Int))
    (hy : y.amount? o = some (width : Int)) :
    (Expr.sum [.constant .sizeOfInt, .binary .times x y]).amount? o =
      some (int32 (4 + k * width)) := by
  have hfour : int32 4 = 4 := by decide
  simp [Machine.constant, Value.int?, hx, hy, hfour, int32_add_int32]

/-- The size of a slot as it is spelled is the number of bytes that it occupies. -/
theorem amount_slotSize (t : Target) (e : Element) :
    (t.slot e).size.amount? o = some (((t.slot e).width o.machine : Nat) : Int) := by
  have hone : InInt32 1 := by decide
  have htwo : InInt32 2 := by decide
  have hfour : InInt32 4 := by decide
  have height : InInt32 8 := by decide
  cases e with
  | primitive kind =>
    cases kind with
    | wchar =>
      cases hplatform : t.platform <;>
        simp [Target.slot, Platform.primitiveSlot, hplatform, Platform.widensChars, Slot.size,
          Slot.width, Machine.wordWidth, htwo, hfour]
    | _ =>
      simp [Target.slot, Platform.primitiveSlot, Slot.size, Slot.width, Machine.wordWidth, hone,
        htwo, hfour, height]
  | string kind => rfl
  | enum e => rfl
  | struct s => rfl

theorem loads_slotSize (t : Target) (e : Element) : (t.slot e).size.loads? o = some [] := by
  cases e with
  | primitive kind =>
    cases kind with
    | wchar =>
      cases hplatform : t.platform <;>
        simp [Target.slot, Platform.primitiveSlot, hplatform, Platform.widensChars, Slot.size]
    | _ => simp [Target.slot, Platform.primitiveSlot, Slot.size]
  | _ => simp [Target.slot, Slot.size]

/-! ## Values and places -/

/-- The evaluation of an expression reads something, and its value is made from one thing. -/
structure MadeFrom (o : Outlook) (x : Expr) (loads : List Access) (origin : Origin) : Prop where
  loads : x.loads? o = some loads
  origins : x.origins? o = some [origin]

/-- An expression is the distance of a place from the start of the block. -/
structure LiesAt (o : Outlook) (distance : Expr) (off : Int) : Prop where
  amount : distance.amount? o = some off
  quiet : distance.loads? o = some []

section
variable {x : Expr} {loads : List Access} {origin : Origin}

/-- A stored integer is made from what its value is made from. -/
theorem MadeFrom.encode (h : MadeFrom o x [] origin) (coding : SlotCoding) :
    MadeFrom o (coding.encode x) [] origin := by
  constructor <;> cases coding <;>
    simp [SlotCoding.encode, h.loads, h.origins, appendNew]

theorem MadeFrom.decode (h : MadeFrom o x loads origin) (coding : SlotCoding) :
    MadeFrom o (coding.decode x) loads origin := by
  constructor <;> cases coding <;>
    simp [SlotCoding.decode, h.loads, h.origins, appendNew]

theorem MadeFrom.stringToNative (h : MadeFrom o x [] origin) (platform : Platform)
    (kind : StringKind) : MadeFrom o (platform.stringToNative kind x) [] origin := by
  constructor <;>
    simp [Platform.stringToNative, h.loads, h.origins, appendNew]

theorem MadeFrom.stringFromNative (h : MadeFrom o x [] origin) (platform : Platform)
    (kind : StringKind) : MadeFrom o (platform.stringFromNative kind x) [] origin := by
  constructor <;>
    simp [Platform.stringFromNative, h.loads, h.origins, appendNew]

end

/-- A local variable that is declared, or was filled in by a call. -/
theorem madeFrom_var {name : Local} {type : Ty} {origin : Origin}
    (h : o.staged.lookup name = some (type, [origin])) : MadeFrom o (.var name) [] origin := by
  constructor <;> simp [h]

/-! ## Statements -/

theorem bodyAccesses_step {s : Stmt} {o o' : Outlook} {first : List Access}
    (h : s.accesses? o = some (first, o')) (rest : List Stmt) :
    bodyAccesses? (s :: rest) o = (bodyAccesses? rest o').map (first ++ ·) := by
  simp only [bodyAccesses?, h, Option.bind_eq_bind, Option.bind_some, Option.pure_def]
  cases bodyAccesses? rest o' <;> rfl

theorem bodyAccesses_cons {s : Stmt} {rest : List Stmt} {o o' : Outlook} {first more : List Access}
    (hfirst : s.accesses? o = some (first, o')) (hrest : bodyAccesses? rest o' = some more) :
    bodyAccesses? (s :: rest) o = some (first ++ more) := by
  rw [bodyAccesses_step hfirst, hrest, Option.map_some]

theorem bodyAccesses_block (body : List Stmt) :
    bodyAccesses? [.block body] o = bodyAccesses? body o := by
  simp only [bodyAccesses?, Stmt.accesses?, Option.bind_eq_bind, Option.pure_def]
  cases bodyAccesses? body o <;> simp

theorem bodyAccesses_when {condition : Expr} {body : List Stmt} {accesses : List Access}
    (hholds : o.holds? condition = some true) (h : bodyAccesses? body o = some accesses) :
    bodyAccesses? [.when condition body] o = some accesses := by
  simp [bodyAccesses?, hholds, h]

theorem bodyAccesses_unless {condition : Expr} (hholds : o.holds? condition = some false)
    (body : List Stmt) : bodyAccesses? [.when condition body] o = some [] := by
  simp [bodyAccesses?, hholds]

/-- A number that is declared. -/
theorem accesses_declareInt {name : Local} {x : Expr} {loads : List Access} {n : Int}
    (hloads : x.loads? o = some loads) (hamount : x.amount? o = some n) :
    (Stmt.declare (.builtin .int) name x).accesses? o =
      some (loads, { o with numbers := (name, n) :: o.numbers }) := by
  simp [hloads, hamount]

/-- Another local variable. -/
theorem accesses_declare {name : Local} {type : Ty} {x : Expr} {loads : List Access}
    {origin : Origin} (htype : type ≠ .builtin .int) (h : MadeFrom o x loads origin) :
    (Stmt.declare type name x).accesses? o =
      some (loads, { o with staged := (name, type, [origin]) :: o.staged }) := by
  simp [h.loads, h.origins]

/-- The default object that a nested object or transfer struct is converted into. -/
theorem accesses_declareElement (path : String) :
    (Stmt.declare (.named path) .element (.newObject (.named path) [])).accesses? o =
      some ([], { o with staged := (.element, .named path, []) :: o.staged }) := by
  simp

/-- That object is filled in from an item. -/
theorem accesses_convertStruct {x : Expr} {type : Ty} {origin : Origin}
    (helement : o.staged.lookup .element = some (type, [])) (h : MadeFrom o x [] origin) :
    (Target.convertStruct x (.var .element)).accesses? o =
      some ([], { o with staged := (.element, type, [origin]) :: o.staged }) := by
  simp [Target.convertStruct, h.loads, h.origins, Outlook.feed, helement, appendNew]

/-- Or from what a slot holds. -/
theorem accesses_fromNative {x : Expr} {type : Ty} {loads : List Access} {origin : Origin}
    (helement : o.staged.lookup .element = some (type, [])) (h : MadeFrom o x loads origin) :
    (Stmt.run (.invoke (.var .element) .fromNative [x])).accesses? o =
      some (loads, { o with staged := (.element, type, [origin]) :: o.staged }) := by
  simp [h.loads, h.origins, Outlook.feed, helement, appendNew]

/-- What has to be released is no access. -/
theorem accesses_release {x : Expr} {loads : List Access} (h : x.loads? o = some loads) :
    (Stmt.run (.invoke (.var .toRelease) .add [x])).accesses? o = some (loads, o) := by
  simp [h]

section
variable {f : FieldView} {distance x : Expr} {off : Int} {origin : Origin}

/-- An integer that is stored in a slot. -/
theorem accesses_writeInteger (size : Expr) (word : Word) (coding : SlotCoding)
    (hfills : o.fills f.site.field = true) (hdistance : LiesAt o distance off)
    (hx : MadeFrom o x [] origin) :
    (Stmt.run ((Slot.integer size word coding).write f.native distance x)).accesses? o =
      some ([.store off (o.machine.wordWidth word) [origin]], o) := by
  have hcoded := hx.encode coding
  simp [Slot.write, Expr.target?, FieldView.native, hfills, hdistance.amount, hdistance.quiet,
    hcoded.loads, hcoded.origins]

/-- A transfer struct that is stored in a slot. -/
theorem accesses_writeStruct {path : String} (hfills : o.fills f.site.field = true)
    (hdistance : LiesAt o distance off)
    (helement : o.staged.lookup .element = some (.named path, [origin])) :
    (Stmt.run
      ((Slot.transferStruct (.named path)).write f.native distance (.var .element))).accesses? o =
        some ([.store off (o.machine.structSize path) [origin]], o) := by
  simp [Slot.write, Expr.target?, FieldView.native, hfills, hdistance.amount, hdistance.quiet,
    helement]

/-- An item that the list gets. -/
theorem accesses_append {loads : List Access} (hbuilds : o.builds f.site.field = true)
    (hx : MadeFrom o x loads origin) :
    (Stmt.run (.invoke f.value .add [x])).accesses? o = some (loads ++ [.append [origin]], o) := by
  simp [FieldView.value, hx.loads, hx.origins, hbuilds]

end

/-! ## Slots -/

theorem exists_primitiveSlot (platform : Platform) (kind : PrimitiveKind) :
    ∃ size word coding, platform.primitiveSlot kind = .integer size word coding := by
  cases kind with
  | wchar => cases platform <;> exact ⟨_, _, _, rfl⟩
  | _ => exact ⟨_, _, _, rfl⟩

namespace Target

variable (t : Target) (e : Element) (f : FieldView)
variable {distance x : Expr} {off : Int} {origin : Origin}

/-- Storing a value is one store of the whole slot, after its staging. -/
theorem storeInSlot_accesses (hfills : o.fills f.site.field = true)
    (hdistance : ∀ staged, LiesAt { o with staged := staged } distance off)
    (hx : ∀ staged, MadeFrom { o with staged := staged } x [] origin) :
    bodyAccesses? (t.storeInSlot e f.native distance x) o =
      some [.store off ((t.slot e).width o.machine) [origin]] := by
  have hfills : ∀ staged, { o with staged := staged }.fills f.site.field = true := fun _ => hfills
  cases e with
  | primitive kind =>
    obtain ⟨size, word, coding, hslot⟩ := exists_primitiveSlot t.platform kind
    have hwrite := accesses_writeInteger size word coding (hfills o.staged) (hdistance o.staged)
      (hx o.staged)
    simp only [storeInSlot, stageToNative, slot, hslot]
    exact bodyAccesses_cons hwrite rfl
  | enum e =>
    have hwrite := accesses_writeInteger (.constant .sizeOfInt) .int32
      (.casts (.builtin .int) (valueTypeOf e.name)) (hfills o.staged) (hdistance o.staged)
      (hx o.staged)
    exact bodyAccesses_cons hwrite rfl
  | string kind =>
    let staged : Outlook := { o with staged := (.text, .intPtr, [origin]) :: o.staged }
    have htext : MadeFrom staged (.var .text) [] origin := madeFrom_var rfl
    have hdeclare : (Stmt.declare .intPtr .text (t.platform.stringToNative kind x)).accesses? o =
        some ([], staged) :=
      accesses_declare (by decide) ((hx o.staged).stringToNative t.platform kind)
    have hrelease := accesses_release htext.loads
    have hwrite := accesses_writeInteger (.constant .sizeOfHandle) .intPtr .plain
      (hfills staged.staged) (hdistance staged.staged) htext
    exact bodyAccesses_cons hdeclare (bodyAccesses_cons hrelease (bodyAccesses_cons hwrite rfl))
  | struct s =>
    let blank := (Local.element, t.transferTypeOf s.name, ([] : List Origin)) :: o.staged
    let staged := (Local.element, t.transferTypeOf s.name, [origin]) :: blank
    have hconvert : (convertStruct x (.var .element)).accesses? { o with staged := blank } =
        some ([], { o with staged := staged }) := accesses_convertStruct rfl (hx blank)
    have hwrite := accesses_writeStruct (hfills staged) (hdistance staged)
      (show staged.lookup .element = some (.named _, [origin]) from rfl)
    exact bodyAccesses_cons (accesses_declareElement _)
      (bodyAccesses_cons hconvert (bodyAccesses_cons hwrite rfl))

/-- Reading a slot is one load of the whole slot. -/
theorem slotRead_madeFrom {stored : Int} (hgiven : o.given = .block (some stored))
    (hfield : f.site.field = o.field) (hdistance : LiesAt o distance off) :
    MadeFrom o ((t.slot e).read f.native distance) [.load off ((t.slot e).width o.machine)]
      (.slot off ((t.slot e).width o.machine)) := by
  have hsource : f.native.source? o distance = some off := by
    simp [Expr.source?, FieldView.native, hgiven, hfield, hdistance.amount]
  have hinteger : ∀ size word coding,
      MadeFrom o ((Slot.integer size word coding).read f.native distance)
        [.load off (o.machine.wordWidth word)] (.slot off (o.machine.wordWidth word)) :=
    fun size word coding => MadeFrom.decode
      ⟨by simp [hsource, hdistance.quiet], by simp [hsource]⟩ coding
  cases e with
  | primitive kind =>
    obtain ⟨size, word, coding, hslot⟩ := exists_primitiveSlot t.platform kind
    simpa only [slot, hslot, Slot.width] using hinteger size word coding
  | string kind => exact hinteger _ _ _
  | enum e => exact hinteger _ _ _
  | struct s =>
    constructor <;>
      simp [slot, transferTypeOf, Slot.read, Slot.width, hsource, hdistance.quiet]

/-- Taking an element from its slot is one load of the whole slot, and then the list gets an item
that is made from it. -/
theorem loadFromSlot_accesses {stored : Int} (hgiven : o.given = .block (some stored))
    (hfield : f.site.field = o.field)
    (hdistance : ∀ staged, LiesAt { o with staged := staged } distance off) :
    bodyAccesses? (t.loadFromSlot e f.native distance fun staged =>
      .run (.invoke f.value .add [staged])) o =
        some [.load off ((t.slot e).width o.machine),
          .append [.slot off ((t.slot e).width o.machine)]] := by
  have hbuilds : ∀ staged, { o with staged := staged }.builds f.site.field = true := fun _ => by
    simp [Outlook.builds, hgiven, hfield]
  have hread : ∀ staged, MadeFrom { o with staged := staged } ((t.slot e).read f.native distance)
      [.load off ((t.slot e).width o.machine)] (.slot off ((t.slot e).width o.machine)) :=
    fun staged => t.slotRead_madeFrom e f hgiven hfield (hdistance staged)
  -- how the slot is read no longer matters
  rw [loadFromSlot]
  generalize (t.slot e).read f.native distance = x at hread ⊢
  generalize (t.slot e).width o.machine = width at hread ⊢
  cases e with
  | primitive kind =>
    exact bodyAccesses_cons (accesses_append (hbuilds o.staged) (hread o.staged)) rfl
  | enum e => exact bodyAccesses_cons (accesses_append (hbuilds o.staged) (hread o.staged)) rfl
  | string kind =>
    let staged : Outlook := { o with staged := (.text, .intPtr, [.slot off width]) :: o.staged }
    have hdeclare : (Stmt.declare .intPtr .text x).accesses? o =
        some ([.load off width], staged) := accesses_declare (by decide) (hread o.staged)
    have htext : MadeFrom staged (t.platform.stringFromNative kind (.var .text)) []
        (.slot off width) := (madeFrom_var rfl).stringFromNative t.platform kind
    have happend := accesses_append (hbuilds staged.staged) htext
    exact bodyAccesses_cons hdeclare (bodyAccesses_cons happend rfl)
  | struct s =>
    let blank := (Local.element, valueTypeOf s.name, ([] : List Origin)) :: o.staged
    let staged := (Local.element, valueTypeOf s.name, [Origin.slot off width]) :: blank
    have hconvert : (Stmt.run (.invoke (.var .element) .fromNative [x])).accesses?
        { o with staged := blank } = some ([.load off width], { o with staged := staged }) :=
      accesses_fromNative rfl (hread blank)
    have helement : MadeFrom { o with staged := staged } (.var .element) [] (.slot off width) :=
      madeFrom_var rfl
    have happend := accesses_append (hbuilds staged) helement
    exact bodyAccesses_cons (accesses_declareElement _)
      (bodyAccesses_cons hconvert (bodyAccesses_cons happend rfl))

end Target

end InteropGen
