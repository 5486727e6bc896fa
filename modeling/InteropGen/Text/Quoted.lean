/-!
# Quoted text

Text between quotes: the backslash, the enclosing quote and the control characters are spelled by
escapes, every other character stands for itself. The two notations of this library differ only in
the escape of a control character that has no letter of its own.
-/

set_option autoImplicit false

namespace InteropGen.Text

/-- Control characters: the two ranges below U+0020 and from U+007F to U+009F. -/
def isControl (c : Char) : Bool :=
  c.toNat < 0x20 || (0x7F ≤ c.toNat && c.toNat ≤ 0x9F)

/-- How control characters without a letter escape are spelled, given their code point. -/
structure QuoteStyle where
  control : Nat → List Char

/-- Lower-case hexadecimal digits, without leading zeros. -/
def hexDigits (n : Nat) : List Char :=
  Nat.toDigits 16 n

/-- Lower-case hexadecimal digits, filled up with zeros to four places. -/
def hexDigits4 (n : Nat) : List Char :=
  let digits := hexDigits n
  List.replicate (4 - digits.length) '0' ++ digits

/-- One character inside a text enclosed by `quote`. -/
def QuoteStyle.escape (style : QuoteStyle) (quote c : Char) : List Char :=
  if c = '\\' then ['\\', '\\']
  else if c = '\n' then ['\\', 'n']
  else if c = '\r' then ['\\', 'r']
  else if c = '\t' then ['\\', 't']
  else if c = '\x00' then ['\\', '0']
  else if c = quote then ['\\', quote]
  else if isControl c then style.control c.toNat
  else [c]

/-- A text enclosed by `quote`. -/
def QuoteStyle.enclose (style : QuoteStyle) (quote : Char) (text : List Char) : List Char :=
  quote :: (text.flatMap (style.escape quote) ++ [quote])

/-- The notation of messages: a control character is `\u`, an opening brace, its hexadecimal digits
and a closing brace. -/
def messageStyle : QuoteStyle where
  control n := ['\\', 'u', '\x7b'] ++ hexDigits n ++ ['\x7d']

/-- A text as messages show it, in double quotes. -/
def shown (text : String) : String :=
  String.ofList (messageStyle.enclose '"' text.toList)

/-- A character as messages show it, in single quotes. -/
def shownChar (c : Char) : String :=
  String.ofList (messageStyle.enclose '\'' [c])

end InteropGen.Text
