import InteropGen.Number.Shortest
import InteropGen.Text.Quoted

/-!
# Identifiers and literals of C#

How names and constant values are spelled in generated code: a name that is a keyword is escaped
with `@`, strings and characters are quoted with escapes, and a floating-point literal always has a
point or an exponent.
-/

set_option autoImplicit false

namespace InteropGen.CSharp

/-- The reserved words of C#. -/
def keywords : List String :=
  ["abstract", "as", "base", "bool", "break", "byte", "case", "catch", "char", "checked",
    "class", "const", "continue", "decimal", "default", "delegate", "do", "double", "else",
    "enum", "event", "explicit", "extern", "false", "finally", "fixed", "float", "for",
    "foreach", "goto", "if", "implicit", "in", "int", "interface", "internal", "is", "lock",
    "long", "namespace", "new", "null", "object", "operator", "out", "override", "params",
    "private", "protected", "public", "readonly", "ref", "return", "sbyte", "sealed", "short",
    "sizeof", "stackalloc", "static", "string", "struct", "switch", "this", "throw", "true",
    "try", "typeof", "uint", "ulong", "unchecked", "unsafe", "ushort", "using", "virtual",
    "void", "volatile", "while"]

/-- A declared name as an identifier. -/
def identifier (name : String) : String :=
  if name ∈ keywords then "@" ++ name else name

/-- The notation of C# literals: a control character is a backslash, `u` and four digits. -/
def literalStyle : Text.QuoteStyle where
  control n := ['\\', 'u'] ++ Text.hexDigits4 n

/-- A string literal. -/
def stringLiteral (value : String) : String :=
  String.ofList (literalStyle.enclose '"' value.toList)

/-- A character literal. -/
def charLiteral (value : Char) : String :=
  String.ofList (literalStyle.enclose '\'' [value])

/-- A floating-point literal with a type suffix. -/
def floatLiteral (value : Binary64) (suffix : String) : String :=
  let text := value.text
  let marked := text.toList.any fun c => c = '.' || c = 'e' || c = 'E'
  (if marked then text else text ++ ".0") ++ suffix

end InteropGen.CSharp
