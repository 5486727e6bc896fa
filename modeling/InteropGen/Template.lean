import InteropGen.Catalog
import InteropGen.ScopedName

/-!
# Templates

A template is text with markers `<%KEY%>`. Markers of known keys are replaced by their values, key
after key in the order of the list, so that a value which contains a marker is spliced again by a
later key; markers of other keys stay.
-/

set_option autoImplicit false

namespace InteropGen.Template

/-- The marker of a key. -/
def marker (key : List Char) : List Char :=
  ['<', '%'] ++ key ++ ['%', '>']

/-- Replaces every occurrence of `mark`, from the left and without overlap. The first `skip`
characters belong to an occurrence that has been replaced and are dropped. -/
def replaceFrom (mark value : List Char) : (skip : Nat) → List Char → List Char
  | _, [] => []
  | skip + 1, _ :: rest => replaceFrom mark value skip rest
  | 0, c :: rest =>
    if mark.isPrefixOf (c :: rest) then value ++ replaceFrom mark value (mark.length - 1) rest
    else c :: replaceFrom mark value 0 rest

/-- Replaces the markers of one key. -/
def replaceKey (text : List Char) (key value : String) : List Char :=
  replaceFrom (marker key.toList) value.toList 0 text

/-- Replaces the markers of all keys, in order. -/
def splice (template : String) (pairs : List (String × String)) : String :=
  String.ofList (pairs.foldl (fun text p => replaceKey text p.1 p.2) template.toList)

/-- A letter or underscore of ASCII. -/
def isKeyStart (c : Char) : Bool :=
  c.isAlpha || c = '_'

/-- A letter, digit or underscore of ASCII. -/
def isKeyChar (c : Char) : Bool :=
  c.isAlphanum || c = '_'

/-- The key of the marker that a text starts with, if it starts with one. -/
def markerKey? : List Char → Option (List Char)
  | '<' :: '%' :: c :: rest =>
    let key := c :: rest.takeWhile isKeyChar
    match rest.dropWhile isKeyChar with
    | '%' :: '>' :: _ => if isKeyStart c then some key else none
    | _ => none
  | _ => none

/-- The keys of all markers, from the left. Two markers never overlap. -/
def markerKeys : List Char → List (List Char)
  | [] => []
  | c :: rest => (markerKey? (c :: rest)).toList ++ markerKeys rest

/-- The keys whose markers occur in a text, in order of first appearance. -/
def unresolved (text : String) : List String :=
  appendNew [] ((markerKeys text.toList).map String.ofList)

/-- The values of one declaration: its name as part of an identifier, as a type path, and alone,
and the suffix of sequence types. -/
def substitutions (name : ScopedName) (sequenceSuffix : String) : List (String × String) :=
  [("SCOPED_METHOD", name.methodSafe),
    ("SCOPED", name.dotted),
    ("TYPE", name.short),
    ("SEQ", sequenceSuffix)]

end InteropGen.Template

namespace InteropGen

/-- The template texts of every category; a category may have a text for either side. -/
abbrev Templates := Catalog (Sides (Option String))

end InteropGen
