import InteropGen.Json.Basic
import InteropGen.Number.Decimal

/-!
# Reading JSON text

Strict JSON: one value, with nothing but blanks around it. A text is cut into tokens, and a machine
with a stack of open arrays and objects takes one token after the other.

Well-formed parts that stand for no value are `Json.unreadable`: a string with half of a surrogate
pair, an object with such a key, a number that is too large, and an array or object within
`nestingLimit` others.
-/

set_option autoImplicit false

namespace InteropGen.Json

/-- The parts that a text is cut into. -/
inductive Token where
  | openArray | closeArray | openObject | closeObject | comma | colon
  /-- A string; `none` if it holds half of a surrogate pair. -/
  | string (text : Option String)
  /-- A value that is no string, no array and no object. -/
  | scalar (value : Json)

/-- Blanks between tokens. -/
def isBlank (c : Char) : Bool :=
  c = ' ' || c = '\t' || c = '\n' || c = '\r'

/-- The digits that a text starts with, and the rest. -/
def takeDigits (s : List Char) : List Char × List Char :=
  (s.takeWhile Char.isDigit, s.dropWhile Char.isDigit)

/-- The fraction part after a number's digits, if there is one: its digits. -/
def fraction? : List Char → Option (List Char × List Char)
  | '.' :: rest =>
    match takeDigits rest with
    | ([], _) => none
    | part => some part
  | rest => some ([], rest)

/-- The exponent part after a number, if there is one. -/
def exponent? : List Char → Option (Option Int × List Char)
  | 'e' :: rest | 'E' :: rest =>
    let (negative, rest) :=
      match rest with
      | '+' :: rest => (false, rest)
      | '-' :: rest => (true, rest)
      | rest => (false, rest)
    match takeDigits rest with
    | ([], _) => none
    | (digits, rest) =>
      let n : Int := Decimal.digitsValue digits
      some (some (if negative then -n else n), rest)
  | rest => some (none, rest)

/-- The number that a decimal stands for, unless it is too large. What is written without a point
and an exponent is a whole number if it has 64 bits at most. -/
def numberOf (rounding : Rounding) (negative : Bool) (whole fraction : List Char)
    (exponent : Option Int) : Json :=
  let digits := Decimal.digitsValue whole
  let i : Int := if negative then -digits else digits
  let isWhole := fraction.isEmpty && exponent.isNone && !(negative && digits = 0)
  if isWhole && decide (-2 ^ 63 ≤ i ∧ i < 2 ^ 64) then .number (.integer i)
  else
    let x := (Decimal.mk negative whole fraction (exponent.getD 0)).round rounding
    if x.isFinite then .number (.float x) else .unreadable

/-- The number that a text starts with, after its sign. -/
def unsigned? (rounding : Rounding) (negative : Bool) (s : List Char) :
    Option (Json × List Char) := do
  let (whole, rest) := takeDigits s
  if whole.isEmpty || (whole.length > 1 && whole.head? = some '0') then none
  else
    let (fraction, rest) ← fraction? rest
    let (exponent, rest) ← exponent? rest
    return (numberOf rounding negative whole fraction exponent, rest)

/-- The number that a text starts with. -/
def numeral? (rounding : Rounding) : List Char → Option (Json × List Char)
  | '-' :: rest => unsigned? rounding true rest
  | rest => unsigned? rounding false rest

/-- The value of a hexadecimal digit. -/
def hexValue? (c : Char) : Option Nat :=
  if c.isDigit then some (c.toNat - '0'.toNat)
  else if 'a' ≤ c ∧ c ≤ 'f' then some (c.toNat - 'a'.toNat + 10)
  else if 'A' ≤ c ∧ c ≤ 'F' then some (c.toNat - 'A'.toNat + 10)
  else none

/-- The value of four hexadecimal digits. -/
def hex4? (a b c d : Char) : Option Nat := do
  return (((← hexValue? a) * 16 + (← hexValue? b)) * 16 + (← hexValue? c)) * 16 + (← hexValue? d)

/-- The character of an escape with one letter. -/
def escapeOf? : Char → Option Char
  | '"' => some '"'
  | '\\' => some '\\'
  | '/' => some '/'
  | 'b' => some '\x08'
  | 'f' => some '\x0c'
  | 'n' => some '\n'
  | 'r' => some '\r'
  | 't' => some '\t'
  | _ => none

/-- The first half of a pair of UTF-16 units, `U+D800` to `U+DBFF`. -/
def isHighSurrogate (n : Nat) : Bool :=
  0xD800 ≤ n && n < 0xDC00

/-- The second half of such a pair, `U+DC00` to `U+DFFF`. -/
def isLowSurrogate (n : Nat) : Bool :=
  0xDC00 ≤ n && n < 0xE000

/-- What has been read of a string: its characters, latest first, or `none` once a surrogate stands
alone; and the first half of a pair whose second half has to come next. -/
structure StringSoFar where
  chars : Option (List Char)
  high : Option Nat

namespace StringSoFar

/-- The characters if no half of a pair is left alone. -/
def settled (s : StringSoFar) : Option (List Char) :=
  if s.high.isSome then none else s.chars

def push (s : StringSoFar) (c : Char) : StringSoFar :=
  ⟨s.settled.map (c :: ·), none⟩

/-- One more UTF-16 unit. -/
def pushUnit (s : StringSoFar) (unit : Nat) : StringSoFar :=
  if isHighSurrogate unit then ⟨s.settled, some unit⟩
  else if isLowSurrogate unit then
    match s.high with
    | some high =>
      let code := 0x10000 + (high - 0xD800) * 0x400 + (unit - 0xDC00)
      ⟨s.chars.map (Char.ofNat code :: ·), none⟩
    | none => ⟨none, none⟩
  else s.push (Char.ofNat unit)

def text (s : StringSoFar) : Option String :=
  s.settled.map fun cs => String.ofList cs.reverse

end StringSoFar

/-- The text of a string after what has been read of it, and what follows the closing quote. -/
def stringRest? (soFar : StringSoFar) : List Char → Option (Option String × List Char)
  | [] => none
  | '"' :: rest => some (soFar.text, rest)
  | '\\' :: 'u' :: a :: b :: c :: d :: rest => do
    let unit ← hex4? a b c d
    stringRest? (soFar.pushUnit unit) rest
  | '\\' :: c :: rest => do
    let c ← escapeOf? c
    stringRest? (soFar.push c) rest
  | c :: rest =>
    if c.toNat < 0x20 || c = '\\' then none else stringRest? (soFar.push c) rest

/-- The token that a text without leading blanks starts with. -/
def token? (rounding : Rounding) : List Char → Option (Token × List Char)
  | '[' :: rest => some (.openArray, rest)
  | ']' :: rest => some (.closeArray, rest)
  | '\x7b' :: rest => some (.openObject, rest)
  | '\x7d' :: rest => some (.closeObject, rest)
  | ',' :: rest => some (.comma, rest)
  | ':' :: rest => some (.colon, rest)
  | 'n' :: 'u' :: 'l' :: 'l' :: rest => some (.scalar .null, rest)
  | 't' :: 'r' :: 'u' :: 'e' :: rest => some (.scalar (.bool true), rest)
  | 'f' :: 'a' :: 'l' :: 's' :: 'e' :: rest => some (.scalar (.bool false), rest)
  | '"' :: rest => (stringRest? ⟨some [], none⟩ rest).map fun (text, rest) => (.string text, rest)
  | rest => (numeral? rounding rest).map fun (n, rest) => (.scalar n, rest)

/-- The tokens of a text after those in `tokens`, latest first. Every token takes at least one
character, so the length of the text is enough fuel. -/
def tokens? (rounding : Rounding) : (fuel : Nat) → List Token → List Char → Option (List Token)
  | fuel, tokens, s =>
    match s.dropWhile isBlank, fuel with
    | [], _ => some tokens.reverse
    | _, 0 => none
    | s, fuel + 1 =>
      match token? rounding s with
      | some (token, rest) => tokens? rounding fuel (token :: tokens) rest
      | none => none

/-- How many arrays and objects may be open within each other. -/
def nestingLimit : Nat := 127

/-- An open array or object with what it holds so far, latest first; an object waits for the value
of a key. -/
inductive Frame where
  | array (items : List Json)
  | object (members : List (Option String × Json)) (key : Option String)

/-- What may come next. -/
inductive Expected where
  | value
  /-- The first item of an array, or its end. -/
  | firstItem
  /-- The first key of an object, or its end. -/
  | firstKey
  | key (members : List (Option String × Json))
  | colon (members : List (Option String × Json)) (key : Option String)
  /-- What follows a complete value. -/
  | next (value : Json)

/-- A reader between two tokens. -/
structure Machine where
  expected : Expected
  stack : List Frame

/-- The object with the given members, latest first, unless a key has no text. -/
def objectOf (members : List (Option String × Json)) : Json :=
  match members.reverse.mapM fun (key, j) => key.map (·, j) with
  | some members => .object members
  | none => .unreadable

/-- An array or object that ends, unless it stands within too many others. -/
def Machine.close (stack : List Frame) (j : Json) : Machine :=
  ⟨.next (if (stack.drop (nestingLimit - 1)).isEmpty then j else .unreadable), stack⟩

/-- A value where one is expected. -/
def Machine.startValue (stack : List Frame) : Token → Option Machine
  | .scalar j => some ⟨.next j, stack⟩
  | .string text => some ⟨.next (text.elim .unreadable .string), stack⟩
  | .openArray => some ⟨.firstItem, .array [] :: stack⟩
  | .openObject => some ⟨.firstKey, stack⟩
  | _ => none

/-- One token. -/
def Machine.step (m : Machine) (t : Token) : Option Machine :=
  match m.expected, m.stack, t with
  | .value, stack, t => startValue stack t
  | .firstItem, .array _ :: stack, .closeArray => some (close stack (.array []))
  | .firstItem, stack, t => startValue stack t
  | .firstKey, stack, .closeObject => some (close stack (.object []))
  | .firstKey, stack, .string key => some ⟨.colon [] key, stack⟩
  | .key members, stack, .string key => some ⟨.colon members key, stack⟩
  | .colon members key, stack, .colon => some ⟨.value, .object members key :: stack⟩
  | .next j, .array items :: stack, .comma => some ⟨.value, .array (j :: items) :: stack⟩
  | .next j, .array items :: stack, .closeArray =>
    some (close stack (.array (j :: items).reverse))
  | .next j, .object members key :: stack, .comma => some ⟨.key ((key, j) :: members), stack⟩
  | .next j, .object members key :: stack, .closeObject =>
    some (close stack (objectOf ((key, j) :: members)))
  | _, _, _ => none

/-- The value that a complete run of the machine has read. -/
def Machine.result? : Machine → Option Json
  | ⟨.next j, []⟩ => some j
  | _ => none

/-- The value that a text spells; its decimals are rounded as given. -/
def parse? (rounding : Rounding) (text : String) : Option Json := do
  let s := text.toList
  let tokens ← tokens? rounding s.length [] s
  (← tokens.foldlM Machine.step ⟨.value, []⟩).result?

end InteropGen.Json
