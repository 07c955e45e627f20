import Mathlib.Data.List.Nodup
import PropertyGraph.Program.Basic

/-!
What programs are made of. Families are complete and their tags differ, so a member is known by its
number and by its tag. The contents of a program, at any depth, are what one of its portable forms
is particular about: numbers of elements, keys of maps, texts, lengths of lists, and floating-point
numbers.
-/

namespace PropertyGraph

/-- A family that lists all its members, few enough for a number of 32 bits, under different tags. -/
class LawfulFamily (α : Type) [Family α] : Prop where
  complete : ∀ a : α, a ∈ Family.members (α := α)
  tags_distinct : ((Family.members (α := α)).map Family.tag).Nodup
  few : (Family.members (α := α)).length ≤ twoTo 32

instance : LawfulFamily StepKind where
  complete kind := by cases kind <;> decide
  tags_distinct := by decide +kernel
  few := by decide

instance : LawfulFamily Function where
  complete f := by cases f <;> decide
  tags_distinct := by decide +kernel
  few := by decide

instance : LawfulFamily Scope where
  complete scope := by cases scope <;> decide
  tags_distinct := by decide +kernel
  few := by decide

instance : LawfulFamily SortOrder where
  complete order := by cases order <;> decide
  tags_distinct := by decide +kernel
  few := by decide

instance : LawfulFamily Pop where
  complete pop := by cases pop <;> decide
  tags_distinct := by decide +kernel
  few := by decide

instance : LawfulFamily Column where
  complete column := by cases column <;> decide
  tags_distinct := by decide +kernel
  few := by decide

instance : LawfulFamily Cardinality where
  complete cardinality := by cases cardinality <;> decide
  tags_distinct := by decide +kernel
  few := by decide

instance : LawfulFamily ElementToken where
  complete token := by cases token <;> decide
  tags_distinct := by decide +kernel
  few := by decide

/-- Of a list without repeated images, the first item with a given image is the one that has it. -/
theorem find?_image {α β : Type} [DecidableEq β] {f : α → β} {items : List α}
    (distinct : (items.map f).Nodup) {a : α} (member : a ∈ items) :
    items.find? (fun b => f b == f a) = some a := by
  induction items with
  | nil => nomatch member
  | cons first rest ih =>
      obtain ⟨fresh, others⟩ := List.nodup_cons.mp distinct
      rcases List.mem_cons.mp member with rfl | later
      · exact List.find?_cons_of_pos (beq_self_eq_true _)
      · have different : f first ≠ f a := fun same => fresh (same ▸ List.mem_map_of_mem later)
        rw [List.find?_cons_of_neg (by simpa using different)]
        exact ih others later

namespace Family

variable {α : Type} [Family α] [LawfulFamily α]

@[simp]
theorem ofTag?_tag (a : α) : ofTag? (Family.tag a) = some a :=
  find?_image LawfulFamily.tags_distinct (LawfulFamily.complete a)

variable [DecidableEq α]

@[simp]
theorem ofNumber?_number (a : α) : ofNumber? (number a) = some a := by
  have place : number a < (members (α := α)).length :=
    List.idxOf_lt_length_iff.mpr (LawfulFamily.complete a)
  rw [ofNumber?, List.getElem?_eq_getElem place]
  exact congrArg some (List.getElem_idxOf place)

theorem number_lt (a : α) : number a < twoTo 32 :=
  Nat.lt_of_lt_of_le (List.idxOf_lt_length_iff.mpr (LawfulFamily.complete a)) LawfulFamily.few

end Family

inductive Content where
  | float (x : Binary64)
  /-- The number of a vertex or an edge. -/
  | id (n : Nat)
  /-- All keys of one map. -/
  | keys (keys : List Value)
  | text (s : String)
  | length (n : Nat)

def VertexRef.contents (v : VertexRef) : List Content := [.id v.id.toNat, .text v.label]

def EdgeRef.contents (e : EdgeRef) : List Content :=
  [.id e.id.toNat, .text e.label, .id e.source.toNat, .id e.target.toNat]

def Owner.contents : Owner → List Content
  | .vertex id => [.id id.toNat]
  | .edge id => [.id id.toNat]

namespace Value

mutual

def contents : Value → List Content
  | .null | .bool _ | .int _ => []
  | .float x => [.float x]
  | .string s => [.text s]
  | .list items => .length items.length :: itemContents items
  | .map entries =>
      .length entries.length :: .keys (entries.map (·.1)) :: entriesContents entries
  | .vertex v => v.contents
  | .edge e => e.contents
  | .property owner key value => owner.contents ++ .text key :: value.contents

def itemContents : List Value → List Content
  | [] => []
  | item :: rest => item.contents ++ itemContents rest

def entriesContents : List (Value × Value) → List Content
  | [] => []
  | entry :: rest => entryContents entry ++ entriesContents rest

def entryContents : Value × Value → List Content
  | (key, value) => key.contents ++ value.contents

end

end Value

def Predicate.contents : Predicate → List Content
  | .eq v | .neq v | .lt v | .lte v | .gt v | .gte v => v.contents
  | .within vs | .without vs => .length vs.length :: Value.itemContents vs
  | .between low high => low.contents ++ high.contents
  | .startingWith s | .endingWith s | .containing s => [.text s]
  | .and a b | .or a b => a.contents ++ b.contents
  | .not a => a.contents

mutual

def Argument.contents : Argument → List Content
  | .literal v => v.contents
  | .predicate p => p.contents
  | .program steps => .length steps.length :: Step.stepsContents steps
  | .label s => [.text s]
  | .scope _ | .order _ | .pop _ | .column _ | .cardinality _ | .token _ | .function _ => []

def Argument.argumentsContents : List Argument → List Content
  | [] => []
  | argument :: rest => argument.contents ++ Argument.argumentsContents rest

def Step.contents : Step → List Content
  | .mk _ arguments => .length arguments.length :: Argument.argumentsContents arguments

def Step.stepsContents : List Step → List Content
  | [] => []
  | step :: rest => step.contents ++ Step.stepsContents rest

end

def Program.contents (p : Program) : List Content := .length p.length :: Step.stepsContents p

namespace Content

/-- What 64 bits for numbers and lengths can hold, with no key twice in a map. -/
def fitsBinary : Content → Bool
  | .float _ => true
  | .id n => decide (n < twoTo 64)
  | .keys all => decide all.Nodup
  | .text s => decide (s.utf8ByteSize < twoTo 64)
  | .length n => decide (n < twoTo 64)

/-- What JSON can hold: no floating-point number, numbers of elements of 64 bits, and no key twice
in a map. -/
def fitsJson : Content → Bool
  | .float _ => false
  | .id n => decide (n < twoTo 64)
  | .keys all => decide all.Nodup
  | .text _ => true
  | .length _ => true

end Content

end PropertyGraph
