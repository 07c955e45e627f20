import PropertyGraph.Proofs.Builder.Stages
import PropertyGraph.Proofs.Cypher.Matches
import PropertyGraph.Proofs.Cypher.PatternScript

/-!
Traversers that know what some names stand for, and operations that lead from one such state to
those that it becomes, on any builder that holds a stage already.
-/

namespace PropertyGraph

open Exec Script

namespace Script

/-- The operations append these stages to a builder that holds some. -/
def Continues (operations : List (Op Script)) (stages : List Stage) : Prop :=
  ∀ l : Live, l.plan.pending = [] → l.plan.stages ≠ [] → ∃ program,
    performAll operations l = .ok ⟨l.bound, program, .mk (l.plan.stages ++ stages) []⟩

theorem Builds.continues {operations : List (Op Script)} {stages : List Stage}
    (builds : Builds operations stages) : Continues operations stages :=
  fun l pending _ => builds l pending

theorem Builds.each {ι : Type} {op : ι → Op Script} {stage : ι → Stage}
    (one : ∀ i, Builds [op i] [stage i]) (indices : List ι) :
    Builds (indices.map op) (indices.map stage) := by
  induction indices with
  | nil => exact nil
  | cons i rest ih => exact (one i).append ih

namespace Continues

variable {operations more : List (Op Script)} {stages others : List Stage}

theorem append (first : Continues operations stages) (second : Continues more others) :
    Continues (operations ++ more) (stages ++ others) := by
  intro l pending holding
  obtain ⟨before, performed⟩ := first l pending holding
  have still : l.plan.stages ++ stages ≠ [] := fun nothing =>
    holding (List.append_eq_nil_iff.mp nothing).1
  obtain ⟨program, performedMore⟩ := second ⟨l.bound, before, .mk (l.plan.stages ++ stages) []⟩
    rfl still
  refine ⟨program, ?_⟩
  rw [performAll_append, performed, ok_bind]
  simpa [Plan.stages] using performedMore

theorem vertices : Continues [.vertices] [.bare .v []] := by
  intro l pending holding
  obtain ⟨bound, program, plan⟩ := l
  obtain ⟨stages, waiting⟩ := plan
  cases (pending : waiting = [])
  have filled : stages.isEmpty = false := List.isEmpty_eq_false_iff.mpr holding
  have standing : Live.isRooting ⟨bound, program, .mk stages []⟩ = false := by
    simp [Live.isRooting, Plan.isEmpty, Plan.stages, Plan.pending, filled]
  refine ⟨program ++ [.mk .v []], ?_⟩
  have added := Plan.add_plain (.mk .v []) ⟨rfl, by decide⟩ [] stages
  simp only [performAll, performOne, ok_bind, Backend.vertices, standing]
  change Except.ok (Live.add _ _ _) = _
  rw [Live.add, added]
  rfl

end Continues

end Script

/-- An element that is stored in a graph. -/
inductive Element where
  | vertex (v : Vertex)
  | edge (e : Edge)

namespace Element

def value : Element → Value
  | .vertex v => .vertex v.ref
  | .edge e => .edge e.ref

def label : Element → String
  | .vertex v => v.label
  | .edge e => e.label

def properties : Element → Properties
  | .vertex v => v.properties
  | .edge e => e.properties

def StoredIn (g : Graph) : Element → Prop
  | .vertex v => v ∈ g.vertices
  | .edge e => e ∈ g.edges

theorem map?_value (x : Element) : x.value.map? = none := by
  cases x <;> rfl

theorem property?_gives {world : World} (consistent : world.store.graph.Consistent) {x : Element}
    (stored : x.StoredIn world.store.graph) (key : String) :
    Gives world (property? x.value key) (.ok (Dictionary.get? key x.properties)) := by
  have known := propertiesOf_gives world x.value
  cases x with
  | vertex v =>
      have found := consistent.vertex?_eq stored
      simp only [Graph.propertiesOf, value, Vertex.ref, found] at known
      exact known.bind_ok (Gives.pure _)
  | edge e =>
      have found := consistent.indexed.edge?_eq stored
      simp only [Graph.propertiesOf, value, Edge.ref, found] at known
      exact known.bind_ok (Gives.pure _)

end Element

namespace Cypher

open Scripting

variable {α β γ : Type} {engine : Engine} {world : World} {b : Bindings} {named : α → Naming}
  {place : α → Element} {here : α → Vertex} {R : Traverser → α → Prop} {S : Traverser → β → Prop}
  {T : Traverser → γ → Prop}

/-- A traverser stands where its state does, and finds what the state has named under the names of
a scope. -/
structure Stands (g : Graph) (b : Bindings) (named : α → Naming) (place : α → Element)
    (t : Traverser) (a : α) : Prop where
  object : t.object = (place a).value
  stored : (place a).StoredIn g
  recalls : ∀ name v, (name, v) ∈ named a → (t.labelled name).getLast? = some v
  coherent : (named a).Coherent
  bound : ∀ name, (Dictionary.get? name b).isSome ↔ ∃ v, (name, v) ∈ named a
  nodes : ∀ name v, Dictionary.get? name b = some .node → (name, v) ∈ named a →
    ∃ w ∈ g.vertices, v = .vertex w.ref

/-- The operations lead on from each state to those that it becomes. -/
def Reaches (engine : Engine) (world : World) (R : Traverser → α → Prop) (operations : Ops)
    (f : α → List β) (S : Traverser → β → Prop) : Prop :=
  ∃ stages, Continues operations stages ∧ Expands engine world R stages f S

namespace Reaches

variable {operations more : Ops} {f : α → List β}

theorem nil : Reaches engine world R [] (fun a => [a]) R := ⟨[], Builds.nil.continues, Expands.nil⟩

theorem append {g : β → List γ} (first : Reaches engine world R operations f S)
    (next : Reaches engine world S more g T) :
    Reaches engine world R (operations ++ more) (fun a => (f a).flatMap g) T := by
  obtain ⟨stages, continues, expands⟩ := first
  obtain ⟨others, continuesNext, expandsNext⟩ := next
  exact ⟨stages ++ others, continues.append continuesNext, expands.append expandsNext⟩

theorem congr {f' : α → List β} (reaches : Reaches engine world R operations f S)
    (same : ∀ t a, R t a → f a = f' a) : Reaches engine world R operations f' S := by
  obtain ⟨stages, continues, expands⟩ := reaches
  exact ⟨stages, continues, expands.congr same⟩

theorem map (reaches : Reaches engine world R operations f S) (g : β → γ)
    (stands : ∀ t b, S t b → T t (g b)) :
    Reaches engine world R operations (fun a => (f a).map g) T := by
  obtain ⟨stages, continues, expands⟩ := reaches
  exact ⟨stages, continues, expands.map g stands⟩

theorem knowing {S' : Traverser → β → Prop} (reaches : Reaches engine world R operations f S)
    (implies : ∀ u a, R u a → ∀ t, ∀ b ∈ f a, S t b → S' t b) :
    Reaches engine world R operations f S' := by
  obtain ⟨stages, continues, expands⟩ := reaches
  exact ⟨stages, continues, expands.knowing implies⟩

theorem guard {p : α → Bool} {g : α → List γ} {R' : Traverser → α → Prop}
    (first : Reaches engine world R operations (fun a => if p a then [a] else []) R')
    (next : Reaches engine world R' more g T) :
    Reaches engine world R (operations ++ more) (fun a => if p a then g a else []) T := by
  refine (first.append next).congr fun t a _ => ?_
  cases p a <;> simp

theorem both {p q : α → Bool}
    (first : Reaches engine world R operations (fun a => if p a then [a] else []) R)
    (second : Reaches engine world R more (fun a => if q a then [a] else []) R) :
    Reaches engine world R (operations ++ more) (fun a => if p a && q a then [a] else []) R := by
  refine (first.append second).congr fun t a _ => ?_
  cases p a <;> simp

end Reaches

namespace Stands

variable {t : Traverser} {a : α}

theorem named? (quiet : world.sideEffects = [])
    (stands : Stands world.store.graph b named place t a) {name : String} {v : Value}
    (known : (name, v) ∈ named a) : world.named? t .last name = some v := by
  have map : t.object.map? = none := by rw [stands.object, Element.map?_value]
  simp only [World.named?, map, Option.bind_none, quiet, Dictionary.get?, Traverser.pathValue?]
  exact stands.recalls name v known

theorem unnamed (stands : Stands world.store.graph b named place t a) {name : String}
    (new : Dictionary.get? name b = none) (v : Value) : (name, v) ∉ named a := by
  intro known
  have bound := (stands.bound name).mpr ⟨v, known⟩
  rw [new] at bound
  cases bound

theorem node (stands : Stands world.store.graph b named place t a) {name : String}
    (known : Dictionary.get? name b = some .node) :
    ∃ w ∈ world.store.graph.vertices, (name, Value.vertex w.ref) ∈ named a := by
  obtain ⟨v, before⟩ := (stands.bound name).mp (by rw [known]; rfl)
  obtain ⟨w, stored, rfl⟩ := stands.nodes name v known before
  exact ⟨w, stored, before⟩

theorem allows_node (stands : Stands world.store.graph b named place t a) {name : String}
    {v w : Value} (before : (name, w) ∈ named a) :
    (named a).allows (some name) v = true ↔ v = w := by
  rw [Naming.allows_iff]
  constructor
  · intro agrees
    exact (agrees name rfl w before).symm
  · rintro rfl other same u entry
    cases same
    exact stands.coherent name u v entry before

theorem again (stands : Stands world.store.graph b named place t a) {name : String} {v : Value}
    (before : (name, v) ∈ named a) :
    Stands world.store.graph b (fun a => named a ++ Naming.of (some name) v) place t a := by
  have entry (other : String) (u : Value) :
      (other, u) ∈ named a ++ Naming.of (some name) v ↔ (other, u) ∈ named a := by
    rw [List.mem_append, Naming.mem_of, or_iff_left_iff_imp]
    rintro ⟨same, rfl⟩
    cases same
    exact before
  exact {
    object := stands.object
    stored := stands.stored
    recalls := fun other u member => stands.recalls other u ((entry other u).mp member)
    coherent := Naming.coherent_append_of.mpr ⟨stands.coherent, (stands.allows_node before).mpr rfl⟩
    bound := fun other => (stands.bound other).trans (exists_congr fun u => (entry other u).symm)
    nodes := fun other u isNode member => stands.nodes other u isNode ((entry other u).mp member) }

theorem allows_new (stands : Stands world.store.graph b named place t a) (name : Option String)
    (new : boundKind? b name = none) (v : Value) : (named a).allows name v = true := by
  rw [Naming.allows_iff]
  intro other same w known
  rw [Option.mem_def] at same
  rw [same] at new
  exact absurd known (stands.unnamed new w)

theorem split (stands : Stands world.store.graph b named place t a) {c : β} {named' : β → Naming}
    (place' : β → Element) (same : named' c = named a)
    (stored : (place' c).StoredIn world.store.graph) :
    Stands world.store.graph b named' place' (t.split (place' c).value) c where
  object := rfl
  stored := stored
  recalls name v known := by
    rw [Traverser.labelled_split]
    exact stands.recalls name v (same ▸ known)
  coherent := same ▸ stands.coherent
  bound := same ▸ stands.bound
  nodes := same ▸ stands.nodes

/-- The same knowledge, described by another state. -/
theorem reshape {named' : β → Naming} {place' : β → Element} {c : β} {g : Graph}
    (stands : Stands g b named place t a) (same : named' c = named a)
    (still : place' c = place a) : Stands g b named' place' t c where
  object := still ▸ stands.object
  stored := still ▸ stands.stored
  recalls := same ▸ stands.recalls
  coherent := same ▸ stands.coherent
  bound := same ▸ stands.bound
  nodes := same ▸ stands.nodes

theorem label {kind : NameKind} {name : String}
    (stands : Stands world.store.graph b named place t a)
    (new : Dictionary.get? name b = none)
    (node : kind = .node → ∃ w ∈ world.store.graph.vertices, (place a).value = .vertex w.ref) :
    Stands world.store.graph (Dictionary.put name kind b)
      (fun a => named a ++ Naming.of (some name) (place a).value) place (t.addLabel name) a where
  object := by
    unfold Traverser.addLabel
    split <;> exact stands.object
  stored := stands.stored
  recalls other v known := by
    rcases List.mem_append.mp known with before | added
    · have different : other ≠ name := by
        rintro rfl
        exact (stands.unnamed new v) before
      rw [Traverser.labelled_addLabel_of_ne t different]
      exact stands.recalls other v before
    · obtain ⟨same, rfl⟩ := Naming.mem_of.mp added
      cases same
      rw [Traverser.last_addLabel, stands.object]
  coherent := by
    have allowed : (named a).allows (some name) (place a).value = true :=
      stands.allows_new (some name) new _
    exact Naming.coherent_append_of.mpr ⟨stands.coherent, allowed⟩
  bound other := by
    rw [Dictionary.get?_put]
    by_cases same : other = name
    · rw [if_pos same]
      have added : (other, (place a).value) ∈ Naming.of (some name) (place a).value :=
        Naming.mem_of.mpr ⟨by rw [same], rfl⟩
      exact ⟨fun _ => ⟨_, List.mem_append_right _ added⟩, fun _ => rfl⟩
    · rw [if_neg same, stands.bound]
      constructor
      · rintro ⟨v, known⟩
        exact ⟨v, List.mem_append_left _ known⟩
      · rintro ⟨v, known⟩
        rcases List.mem_append.mp known with before | added
        · exact ⟨v, before⟩
        · obtain ⟨here, _⟩ := Naming.mem_of.mp added
          cases here
          exact absurd rfl same
  nodes other v isNode known := by
    rw [Dictionary.get?_put] at isNode
    rcases List.mem_append.mp known with before | added
    · have different : other ≠ name := by
        rintro rfl
        exact (stands.unnamed new v) before
      rw [if_neg different] at isNode
      exact stands.nodes other v isNode before
    · obtain ⟨same, rfl⟩ := Naming.mem_of.mp added
      cases same
      rw [if_pos rfl] at isNode
      exact node (Option.some.inj isNode)

end Stands

end Cypher

end PropertyGraph
