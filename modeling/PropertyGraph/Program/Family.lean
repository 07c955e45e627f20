/-!
Finite families of names in a fixed order: the order numbers them in the binary form, the tags name
them in the JSON form.
-/

namespace PropertyGraph

class Family (α : Type) where
  members : List α
  tag : α → String

namespace Family

variable {α : Type} [Family α] [DecidableEq α]

def number (a : α) : Nat := (members (α := α)).idxOf a

def ofNumber? (n : Nat) : Option α := (members (α := α))[n]?

def ofTag? (tag : String) : Option α := (members (α := α)).find? fun a => Family.tag a == tag

end Family

/-- The word with a capital first letter. -/
def capitalized (word : String) : String :=
  match word.toList with
  | [] => word
  | c :: rest => String.ofList (c.toUpper :: rest)

end PropertyGraph
