import InteropGen.Number.Binary64

/-!
# JSON values

Values as they stand in a JSON text: objects keep the order of their members and may repeat a key.
Numbers are whole numbers of 64 bits where they are written as such, and binary64 numbers
otherwise. A text may hold parts that are well formed but stand for no value; they do no harm as
long as nothing asks for them.

* `Json.record?` reads an object, or an array in the same order, as a record of named parts;
* `Json.variant?` reads a string, or an object with one member, as a tagged choice.
-/

set_option autoImplicit false

namespace InteropGen

/-- A number. Integers outside 64 bits are binary64 numbers, and so is negative zero. -/
inductive JsonNumber where
  | integer (value : Int)
  | float (value : Binary64)
  deriving DecidableEq

/-- A JSON value. -/
inductive Json where
  | null
  | bool (value : Bool)
  | number (value : JsonNumber)
  | string (value : String)
  | array (items : List Json)
  | object (members : List (String × Json))
  /-- A part of a text that stands for no value. -/
  | unreadable

instance : Inhabited Json := ⟨.null⟩

namespace Json

/-- A whole number. -/
def ofInt (i : Int) : Json :=
  .number (.integer i)

/-- A natural number. -/
def ofNat (n : Nat) : Json :=
  .number (.integer n)

/-- A string, or null. -/
def ofString? (s : Option String) : Json :=
  s.elim .null .string

def string? : Json → Option String
  | .string s => some s
  | _ => none

def bool? : Json → Option Bool
  | .bool b => some b
  | _ => none

def array? : Json → Option (List Json)
  | .array items => some items
  | _ => none

/-- The whole number that a value is, from `low` up to `high`. -/
def integer? (low high : Int) : Json → Option Int
  | .number (.integer i) => if low ≤ i ∧ i ≤ high then some i else none
  | _ => none

/-- A whole number of at most `bits` bits without a sign. -/
def natural? (bits : Nat) (j : Json) : Option Nat :=
  (j.integer? 0 (2 ^ bits - 1)).map Int.toNat

/-- The finite number that a value is; whole numbers are rounded. -/
def number? : Json → Option Binary64
  | .number (.integer i) => some (Binary64.ofInt i)
  | .number (.float x) => if x.isFinite then some x else none
  | _ => none

/-- The items of a list, all read by `item`. -/
def list? {α : Type} (item : Json → Option α) (j : Json) : Option (List α) := do
  (← j.array?).mapM item

/-- The members of an object under a key, in order. -/
def membersOf (members : List (String × Json)) (key : String) : List Json :=
  (members.filter (·.1 = key)).map (·.2)

/-- The member of an object under a key that must not be repeated: `some none` if it is absent,
`none` if it occurs twice. -/
def unique? (members : List (String × Json)) (key : String) : Option (Option Json) :=
  match membersOf members key with
  | [] => some none
  | [j] => some (some j)
  | _ => none

/-- The parts of a record, in the order of `keys`. An object may leave parts out, repeat none and
have members of other names; an array lists the parts in order and may end early. -/
def record? (keys : List String) : Json → Option (List (Option Json))
  | .object members => keys.mapM (unique? members)
  | .array items =>
    if items.length ≤ keys.length then
      some (items.map some ++ List.replicate (keys.length - items.length) none)
    else none
  | _ => none

/-- A tagged choice: its tag, and its content unless the tag stands alone. -/
def variant? : Json → Option (String × Option Json)
  | .string tag => some (tag, none)
  | .object [(tag, content)] => some (tag, some content)
  | _ => none

/-- A tagged choice with content. -/
def tagged (tag : String) (content : Json) : Json :=
  .object [(tag, content)]

mutual

/-- How deeply arrays and objects are nested in a value. -/
def depth : Json → Nat
  | .array items => depthOfItems items + 1
  | .object members => depthOfMembers members + 1
  | _ => 0

/-- The greatest depth of several items. -/
def depthOfItems : List Json → Nat
  | [] => 0
  | j :: rest => max j.depth (depthOfItems rest)

/-- The greatest depth of the members of an object. -/
def depthOfMembers : List (String × Json) → Nat
  | [] => 0
  | (_, j) :: rest => max j.depth (depthOfMembers rest)

end

end Json

end InteropGen
