/-!
# Pieces of a text

The text between the occurrences of a separating character. There is always at least one piece, and
pieces may be empty.
-/

set_option autoImplicit false

namespace InteropGen.Text

/-- The pieces of a text between separators. -/
def pieces (separator : Char) : List Char → List (List Char)
  | [] => [[]]
  | c :: rest =>
    if c = separator then [] :: pieces separator rest
    else
      match pieces separator rest with
      | [] => [[c]]
      | piece :: more => (c :: piece) :: more

end InteropGen.Text
