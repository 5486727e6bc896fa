/-!
# Small collections

`Sides` holds one thing for value declarations and one for transfer declarations, `Catalog` holds
things under category names in the order of the names, and `appendNew` keeps lists free of
repetitions.
-/

set_option autoImplicit false

namespace InteropGen

/-- What there is once for value declarations and once for transfer declarations. -/
structure Sides (α : Type) where
  values : α
  transfers : α
  deriving DecidableEq, Repr, Inhabited

/-- Both sides changed alike. -/
def Sides.map {α β : Type} (f : α → β) (s : Sides α) : Sides β :=
  ⟨f s.values, f s.transfers⟩

/-- Adds the items that are not listed yet, in order. -/
def appendNew {α : Type} [DecidableEq α] (known more : List α) : List α :=
  more.foldl (fun seen a => if a ∈ seen then seen else seen ++ [a]) known

/-- Things under distinct names, in ascending order of the names. -/
structure Catalog (α : Type) where
  entries : List (String × α)
  deriving DecidableEq, Repr

namespace Catalog

variable {α : Type}

def empty : Catalog α := ⟨[]⟩

instance : Inhabited (Catalog α) := ⟨empty⟩

def isEmpty (c : Catalog α) : Bool :=
  c.entries.isEmpty

/-- The entry put in its place, in place of one of the same name. -/
def insertEntry (name : String) (a : α) : List (String × α) → List (String × α)
  | [] => [(name, a)]
  | (other, b) :: rest =>
    if name < other then (name, a) :: (other, b) :: rest
    else if name = other then (name, a) :: rest
    else (other, b) :: insertEntry name a rest

/-- Adds an entry; one of the same name is replaced. -/
def insert (c : Catalog α) (name : String) (a : α) : Catalog α :=
  ⟨insertEntry name a c.entries⟩

/-- The entries of a list; of one name the last counts. -/
def ofList (entries : List (String × α)) : Catalog α :=
  entries.foldl (fun c e => c.insert e.1 e.2) empty

/-- What is listed under a name. -/
def get? (c : Catalog α) (name : String) : Option α :=
  c.entries.lookup name

end Catalog

end InteropGen
