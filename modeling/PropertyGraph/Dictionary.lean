/-!
Dictionaries that keep the order of first insertion. Writing a key that is present replaces its
value in place; removing one closes the gap.
-/

namespace PropertyGraph

abbrev Dictionary (κ α : Type) := List (κ × α)

namespace Dictionary

variable {κ α : Type} [DecidableEq κ]

def get? (key : κ) : Dictionary κ α → Option α
  | [] => none
  | (k, value) :: rest => if k = key then some value else get? key rest

def has (key : κ) (d : Dictionary κ α) : Bool := (get? key d).isSome

def put (key : κ) (value : α) : Dictionary κ α → Dictionary κ α
  | [] => [(key, value)]
  | (k, old) :: rest => if k = key then (k, value) :: rest else (k, old) :: put key value rest

def remove (key : κ) : Dictionary κ α → Dictionary κ α
  | [] => []
  | (k, value) :: rest => if k = key then rest else (k, value) :: remove key rest

def putAll (d : Dictionary κ α) (entries : List (κ × α)) : Dictionary κ α :=
  entries.foldl (fun d entry => put entry.1 entry.2 d) d

def ofEntries (entries : List (κ × α)) : Dictionary κ α := putAll [] entries

def keys (d : Dictionary κ α) : List κ := d.map (·.1)

def values (d : Dictionary κ α) : List α := d.map (·.2)

/-- Changes the value under a key that is present. -/
def adjust (key : κ) (change : α → α) : Dictionary κ α → Dictionary κ α
  | [] => []
  | (k, value) :: rest =>
      if k = key then (k, change value) :: rest else (k, value) :: adjust key change rest

end Dictionary

end PropertyGraph
