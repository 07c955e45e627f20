import PropertyGraph.Proofs.Cypher.ClauseNames

/-!
Where the loops of a pattern stand in its script. An emission that begins a script is given to the
loop before it, if a loop stands there, and so the shape of a part says two things: whether a loop
stands last once the part is appended, and whether an emission stands first.
-/

namespace PropertyGraph

namespace Cypher

/-- How operations change whether a loop stands last, and whether an emission stands first before
what follows them. -/
structure Shape where
  ends : Bool → Bool
  opens : Bool → Bool

namespace Shape

/-- Nothing is appended. -/
def still : Shape := ⟨id, id⟩

def plain : Shape := ⟨fun _ => false, fun _ => false⟩

/-- A loop, with its emission in front or not. -/
def loop (emits : Bool) : Shape := ⟨fun _ => true, fun _ => emits⟩

def then_ (first second : Shape) : Shape :=
  ⟨fun before => second.ends (first.ends before), fun after => first.opens (second.opens after)⟩

end Shape

end Cypher

/-- Nothing is said of a node: no name, no label, no property. -/
def NodePattern.isBare (node : NodePattern) : Bool :=
  node.name.isNone && node.labels.isEmpty && node.properties.isEmpty

def NodePattern.shape (node : NodePattern) : Cypher.Shape :=
  if node.isBare then .still else .plain

def RelationshipPattern.shape (r : RelationshipPattern) : Cypher.Shape :=
  match r.length with
  | none => .plain
  | some range => if range.max = some 0 then .still else .loop (range.min == 0)

namespace Cypher

open Scripting

def chainShape : List (RelationshipPattern × NodePattern) → Shape
  | [] => .still
  | (r, node) :: rest => (r.shape.then_ node.shape).then_ (chainShape rest)

variable {view : View}

/-- Operations within the view that have a shape. -/
structure HasShape (view : View) (shape : Shape) (operations : Ops) : Prop where
  admitted : view.AdmitsOps operations
  ends : ∀ before, operations.foldl Op.endsInLoop before = shape.ends before
  opens : ∀ emits next, Op.Opening emits next → Op.Opening (shape.opens emits) (operations ++ next)

namespace HasShape

variable {shape other : Shape} {operations more : Ops} {n : Nat}

theorem nil : HasShape view .still [] := ⟨trivial, fun _ => rfl, fun _ _ opening => opening⟩

theorem append (first : HasShape view shape operations) (second : HasShape view other more) :
    HasShape view (shape.then_ other) (operations ++ more) where
  admitted := View.admitsOps_append.mpr ⟨first.admitted, second.admitted⟩
  ends before := by
    rw [List.foldl_append, first.ends, second.ends, Shape.then_]
  opens emits next opening := by
    rw [List.append_assoc]
    exact first.opens _ _ (second.opens emits next opening)

theorem of_straight (straight : Straight view n operations) (some_ : n ≠ 0) :
    HasShape view .plain operations := by
  refine ⟨straight.admitted, fun before => ?_, fun emits next _ => ?_⟩
  · have known := straight.straight
    have filled := straight.length
    clear straight
    induction operations generalizing n before with
    | nil => exact absurd filled.symm some_
    | cons op rest ih =>
        have one := Op.endsInLoop_of_straight (known op List.mem_cons_self) before
        have others : ∀ other ∈ rest, other.isStraight = true := fun other member =>
          known other (List.mem_cons_of_mem _ member)
        rw [List.foldl_cons, one]
        by_cases last : rest = []
        · rw [last]
          rfl
        · exact ih (fun none_ => last (List.length_eq_zero_iff.mp none_)) false others rfl
  · cases operations with
    | nil => exact absurd straight.length.symm some_
    | cons op rest =>
        intro first same
        cases same
        exact Op.stands_of_straight (straight.straight op List.mem_cons_self)

end HasShape

theorem labelOps_straight {name : Option String} (labels : ∀ given ∈ name, view.labels given) :
    Straight view name.toList.length (labelOps name) := by
  cases name with
  | none => exact .nil
  | some name =>
      refine .cons (View.admitsOp_labelled trivial fun label member => ?_) rfl .nil
      cases List.mem_singleton.mp member
      exact ⟨nofun, fun _ => labels name rfl⟩

theorem edgeStep_admitted (d : Direction) (types : List String) :
    view.AdmitsOp (edgeStep d types) ∧ (edgeStep d types).isStraight = true := by
  cases d with
  | outgoing => exact ⟨View.admitsOp_blind rfl types, rfl⟩
  | incoming => exact ⟨View.admitsOp_blind rfl types, rfl⟩
  | both => exact ⟨View.admitsOp_blind rfl types, rfl⟩

theorem vertexStep_admitted (d : Direction) :
    view.AdmitsOp (vertexStep d) ∧ (vertexStep d).isStraight = true := by
  cases d with
  | outgoing => exact ⟨View.admitsOp_bare rfl, rfl⟩
  | incoming => exact ⟨View.admitsOp_bare rfl, rfl⟩
  | both => exact ⟨View.admitsOp_bare rfl, rfl⟩

theorem hop_straight {r : RelationshipPattern} (labels : ∀ name ∈ r.name, view.labels name)
    {n : Nat} {filters : Ops} (inside : Straight view n filters) :
    Straight view (n + r.name.toList.length + 1 + 1)
      (edgeStep r.direction r.types :: filters ++ labelOps r.name ++ [vertexStep r.direction]) := by
  have edge : Straight view (n + r.name.toList.length + 1)
      (filters ++ labelOps r.name ++ [vertexStep r.direction]) := by
    obtain ⟨last, plain⟩ := vertexStep_admitted r.direction
    exact (inside.append (labelOps_straight labels)).append (.cons last plain .nil)
  obtain ⟨first, plain⟩ := edgeStep_admitted r.direction r.types
  exact .cons first plain edge

theorem pathLoop_shape {r : RelationshipPattern} (labels : ∀ name ∈ r.name, view.labels name)
    (path : view.path) {filters : Ops} (inside : view.AdmitsOps filters) (range : PathLength) :
    HasShape view (.loop (range.min == 0)) (pathLoop (hopOps r filters) range) := by
  have body : view.AdmitsOps (hopOps r filters) := by
    have steps : view.AdmitsOps [vertexStep r.direction, .append .simplePath []] :=
      ⟨(vertexStep_admitted r.direction).1, ⟨path, trivial⟩, trivial⟩
    refine ⟨(edgeStep_admitted r.direction r.types).1, ?_⟩
    have named := View.admitsOps_append.mpr ⟨inside, (labelOps_straight labels).admitted⟩
    exact View.admitsOps_append.mpr ⟨named, steps⟩
  have loop : view.AdmitsOp (.nested .repeat_ [.of (hopOps r filters)]) :=
    View.admitsOp_nested trivial fun _ member => List.mem_singleton.mp member ▸ body
  have gate : view.AdmitsOp
      (.nested .emit [.of [.append .loops [], .is_ (.gte (.ofNat range.min))]]) :=
    View.admitsOp_nested trivial fun _ member => List.mem_singleton.mp member ▸
      ⟨View.admitsOp_bare rfl, View.admitsOp_is _, trivial⟩
  have exits : view.AdmitsOps (range.max.map .times).toList := by
    cases range.max with
    | none => trivial
    | some most => exact ⟨View.admitsOp_times most, trivial⟩
  have stays : ((range.max.map .times).toList : Ops).foldl Op.endsInLoop true = true := by
    cases range.max <;> rfl
  unfold pathLoop
  dsimp only
  by_cases zero : range.min = 0
  · rw [if_pos zero, zero]
    refine ⟨View.admitsOps_append.mpr ⟨⟨View.admitsOp_bare rfl, loop, trivial⟩, exits⟩, ?_, ?_⟩
    · intro before
      rw [List.foldl_append]
      exact stays
    · intro emits next _
      exact ⟨_, _, rfl, rfl⟩
  · rw [if_neg zero, beq_false_of_ne zero]
    refine ⟨View.admitsOps_append.mpr ⟨⟨loop, gate, trivial⟩, exits⟩, ?_, ?_⟩
    · intro before
      rw [List.foldl_append]
      exact stays
    · intro emits next _ first same
      cases same
      rfl

end Cypher

end PropertyGraph
