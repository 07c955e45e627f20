import Mathlib.Data.List.Induction
import PropertyGraph.Proofs.Cypher.Courses
import PropertyGraph.Proofs.Cypher.Creating
import PropertyGraph.Proofs.Cypher.Creation
import PropertyGraph.Proofs.Cypher.Rows
import PropertyGraph.Proofs.Graph.Labels
import PropertyGraph.Proofs.Graph.Removal

/-!
The SET clause. Every row writes one property of one element, with the value that the expression has
on the graph that the rows before it left. Of a property that is written time and again the last
value counts, and all others stay as they are; the key keeps its place unless a null takes it away
in between.
-/

namespace PropertyGraph

open Application (vertexId?)
open Cypher (written)

namespace Dictionary

variable {κ α : Type} [DecidableEq κ]

theorem others_put (key : κ) (value : α) (d : Dictionary κ α) :
    (put key value d).filter (fun entry => entry.1 ≠ key) =
      d.filter fun entry => entry.1 ≠ key := by
  induction d with
  | nil => simp [put]
  | cons entry rest ih =>
      obtain ⟨k, old⟩ := entry
      rw [put]
      split
      · next same => simp [same]
      · next different => simp only [List.filter_cons, ih]

theorem others_remove (key : κ) (d : Dictionary κ α) :
    (remove key d).filter (fun entry => entry.1 ≠ key) =
      d.filter fun entry => entry.1 ≠ key := by
  induction d with
  | nil => rfl
  | cons entry rest ih =>
      obtain ⟨k, old⟩ := entry
      rw [remove]
      split
      · next same => simp [same]
      · next different => simp only [List.filter_cons, ih]

theorem keys_put_known {key : κ} {d : Dictionary κ α} (known : key ∈ d.keys) (value : α) :
    (put key value d).keys = d.keys := by
  induction d with
  | nil => cases known
  | cons entry rest ih =>
      obtain ⟨k, old⟩ := entry
      rw [put]
      split
      · rfl
      · next different =>
          have later : key ∈ keys rest :=
            (List.mem_cons.mp known).resolve_left fun same => different same.symm
          exact congrArg (k :: ·) (ih later)

theorem keys_remove {key : κ} {d : Dictionary κ α} (distinct : d.keys.Nodup) :
    (remove key d).keys = d.keys.filter (· ≠ key) := by
  induction d with
  | nil => rfl
  | cons entry rest ih =>
      obtain ⟨k, old⟩ := entry
      obtain ⟨fresh, others⟩ := List.nodup_cons.mp distinct
      rw [remove]
      split
      · next same =>
          subst same
          have all : (keys rest).filter (· ≠ k) = keys rest :=
            List.filter_eq_self.mpr fun other member =>
              decide_eq_true fun same => fresh (same ▸ member)
          have first : keys ((k, old) :: rest) = k :: keys rest := rfl
          rw [first, List.filter_cons_of_neg (by simp), all]
      · next different =>
          simp only [keys, List.map_cons, List.filter_cons] at ih ⊢
          simp [different, ih others]

theorem keys_filter (key : κ) (d : Dictionary κ α) :
    d.keys.filter (· ≠ key) = keys (d.filter fun entry => entry.1 ≠ key) := by
  rw [keys, keys, List.filter_map]
  rfl

end Dictionary

namespace Cypher

variable {key : String} {values : List Value} {properties : Properties}

theorem others_written (key : String) (v : Value) (properties : Properties) :
    (written key v properties).filter (fun entry => entry.1 ≠ key) =
      properties.filter fun entry => entry.1 ≠ key := by
  unfold written
  split
  · exact Dictionary.others_remove key properties
  · exact Dictionary.others_put key v properties

theorem written_distinct (distinct : properties.keys.Nodup) (v : Value) :
    (written key v properties).keys.Nodup := by
  unfold written
  split
  · rw [Dictionary.keys_remove distinct]
    exact distinct.filter _
  · exact Dictionary.keys_put_nodup key v distinct

theorem get?_written (distinct : properties.keys.Nodup) (v : Value) :
    Dictionary.get? key (written key v properties) = if v.isUnknown then none else some v := by
  unfold written
  split
  · refine Dictionary.get?_eq_none ?_
    rw [Dictionary.keys_remove distinct]
    simp
  · rw [Dictionary.get?_put, if_pos rfl]

/-- Properties after values were written under a key, one after another. -/
def rewritten (key : String) (values : List Value) (properties : Properties) : Properties :=
  values.foldl (fun properties v => written key v properties) properties

theorem rewritten_append (key : String) (values : List Value) (v : Value)
    (properties : Properties) :
    rewritten key (values ++ [v]) properties = written key v (rewritten key values properties) :=
  List.foldl_append

/-- What has become of properties when values were written under a key: the last value is there
unless it is null, all other entries are as before, and the key has kept its place, or stands at the
end if it is new or a null has taken it away. -/
structure Rewritten (key : String) (values : List Value) (old new : Properties) : Prop where
  others : new.filter (fun entry => entry.1 ≠ key) = old.filter fun entry => entry.1 ≠ key
  value : ∀ v ∈ values.getLast?, Dictionary.get? key new = if v.isUnknown then none else some v
  place : key ∈ new.keys → new.keys =
    if key ∈ old.keys ∧ values.any Value.isUnknown = false then old.keys
    else old.keys.filter (· ≠ key) ++ [key]

theorem rewritten_distinct (distinct : properties.keys.Nodup) :
    (rewritten key values properties).keys.Nodup := by
  induction values using List.reverseRecOn with
  | nil => exact distinct
  | append_singleton values v ih =>
      rw [rewritten_append]
      exact written_distinct ih v

theorem mem_keys_rewritten (known : key ∈ properties.keys)
    (said : values.any Value.isUnknown = false) : key ∈ (rewritten key values properties).keys := by
  induction values generalizing properties with
  | nil => exact known
  | cons v rest ih =>
      obtain ⟨first, others⟩ := Bool.or_eq_false_iff.mp said
      have puts : written key v properties = Dictionary.put key v properties :=
        if_neg (by simp [first])
      refine ih ?_ others
      dsimp only
      rw [puts, Dictionary.keys_put_known known]
      exact known

theorem rewritten_spec (distinct : properties.keys.Nodup) :
    Rewritten key values properties (rewritten key values properties) := by
  induction values using List.reverseRecOn with
  | nil => exact ⟨rfl, nofun, fun known => (if_pos ⟨known, rfl⟩).symm⟩
  | append_singleton values v ih =>
      have before : (rewritten key values properties).keys.Nodup := rewritten_distinct distinct
      rw [rewritten_append]
      refine ⟨(others_written _ _ _).trans ih.others, fun last same => ?_, fun known => ?_⟩
      · rw [List.getLast?_concat] at same
        cases same
        exact get?_written before v
      · unfold written at known ⊢
        split at known
        · -- a null leaves no place
          rw [Dictionary.keys_remove before] at known
          simp at known
        · next said =>
            rw [if_neg said]
            have same : (values ++ [v]).any Value.isUnknown = values.any Value.isUnknown := by
              simp [said]
            rw [same]
            by_cases stood : key ∈ (rewritten key values properties).keys
            · rw [Dictionary.keys_put_known stood, ih.place stood]
            · have gone : ¬(key ∈ properties.keys ∧ values.any Value.isUnknown = false) :=
                fun kept => stood (mem_keys_rewritten kept.1 kept.2)
              have others : (rewritten key values properties).keys =
                  properties.keys.filter (· ≠ key) := by
                rw [Dictionary.keys_filter, ← ih.others, ← Dictionary.keys_filter, eq_comm,
                  List.filter_eq_self]
                exact fun other member => decide_eq_true fun same => stood (same ▸ member)
              rw [if_neg gone, ← others, Dictionary.put_new stood]
              simp [Dictionary.keys]

end Cypher

namespace Graph

open Cypher (rewritten Rewritten)

/-- The graph after a value was written under a key of an element. -/
def write (key : String) (g : Graph) (element v : Value) : Graph :=
  { g with
    vertices := g.vertices.map fun w =>
      if vertexId? element = some w.id then { w with properties := written key v w.properties }
      else w
    edges := g.edges.map fun e =>
      if element.edgeId? = some e.id then { e with properties := written key v e.properties }
      else e }

/-- The values that are written for one element. -/
def valuesFor {ι : Type} [DecidableEq ι] (id? : Value → Option ι) (writes : List (Value × Value))
    (id : ι) : List Value :=
  writes.filterMap fun w => if id? w.1 = some id then some w.2 else none

/-- Values were written under a key of some elements, one after another, and nothing else. -/
structure OnlyWritten (key : String) (writes : List (Value × Value)) (g after : Graph) :
    Prop where
  vertices : after.vertices = g.vertices.map fun v =>
    { v with properties := rewritten key (valuesFor vertexId? writes v.id) v.properties }
  edges : after.edges = g.edges.map fun e =>
    { e with properties := rewritten key (valuesFor Value.edgeId? writes e.id) e.properties }
  vertexIndex : after.vertexIndex = g.vertexIndex
  edgeIndex : after.edgeIndex = g.edgeIndex
  nextVertex : after.nextVertex = g.nextVertex
  nextEdge : after.nextEdge = g.nextEdge

variable {g after : Graph} {key : String} {writes : List (Value × Value)}

theorem OnlyWritten.refl (key : String) (g : Graph) : g.OnlyWritten key [] g :=
  ⟨(List.map_id _).symm, (List.map_id _).symm, rfl, rfl, rfl, rfl⟩

theorem OnlyWritten.cons {element v : Value}
    (others : (g.write key element v).OnlyWritten key writes after) :
    g.OnlyWritten key ((element, v) :: writes) after := by
  have first {ι : Type} [DecidableEq ι] (id? : Value → Option ι) (id : ι)
      (properties : Properties) :
      rewritten key (valuesFor id? ((element, v) :: writes) id) properties =
        rewritten key (valuesFor id? writes id)
          (if id? element = some id then written key v properties else properties) := by
    unfold valuesFor
    rw [List.filterMap_cons]
    dsimp only
    split <;> simp_all [rewritten]
  refine ⟨?_, ?_, others.vertexIndex, others.edgeIndex, others.nextVertex, others.nextEdge⟩
  · rw [others.vertices, write, List.map_map]
    refine List.map_congr_left fun w _ => ?_
    rw [first, Function.comp_apply]
    split <;> rfl
  · rw [others.edges, write, List.map_map]
    refine List.map_congr_left fun e _ => ?_
    rw [first, Function.comp_apply]
    split <;> rfl

/-- No key stands twice in the properties of an element. -/
def KeysDistinct (g : Graph) : Prop :=
  (∀ v ∈ g.vertices, v.properties.keys.Nodup) ∧ ∀ e ∈ g.edges, e.properties.keys.Nodup

end Graph

open Exec Plan

theorem Element.change_written {x : Element} {key : String} {v : Value} {g after : Graph}
    (changed : x.change (written key v) g = .ok after) : after = g.write key x.value v := by
  cases x with
  | vertex w =>
      simp only [Element.change, Graph.changeVertex] at changed
      split at changed
      · cases changed
        simp [Graph.write, Element.value, vertexId?, Value.edgeId?, Vertex.ref, eq_comm]
      · cases changed
  | edge e =>
      simp only [Element.change, Graph.changeEdge] at changed
      split at changed
      · cases changed
        simp [Graph.write, Element.value, vertexId?, Value.edgeId?, Edge.ref, eq_comm]
      · cases changed

namespace Traverser

theorem onPath_split (b : Cypher.Bindings) (g : Graph) (t : Traverser) (v : Value) :
    Environment.onPath b g (t.split v) = .onPath b g t := by
  simp only [Environment.onPath, labelled_split]

end Traverser

namespace Cypher

open Script

variable {b : Bindings} {item : SetItem} {kind : NameKind} {g after : Graph} {stream : Stream}
  {writes : List (Value × Value)} {l l' : Live}

/-- Every row writes the value of an expression under a key of the element that a name stands for,
on the graph that the rows before it left. -/
inductive Sets (b : Bindings) (item : SetItem) :
    Graph → Stream → List (Value × Value) → Graph → Prop
  | nil (g : Graph) : Sets b item g [] [] g
  | cons {g after : Graph} {t : Traverser} {rest : Stream} {element v : Value}
      {writes : List (Value × Value)} (bound : t.valuation b item.owner = some element)
      (evaluates : item.value.evaluate (.onPath b g t) = .ok v)
      (others : Sets b item (g.write item.key element v) rest writes after) :
      Sets b item g (t :: rest) ((element, v) :: writes) after

theorem Sets.onlyWritten (sets : Sets b item g stream writes after) :
    g.OnlyWritten item.key writes after := by
  induction sets with
  | nil g => exact .refl item.key g
  | cons _ _ _ ih => exact ih.cons

/-- What is set is the value of the expression, whether it is written out or computed. -/
theorem setValue_gives {e : Expression} {value : Slot Script} (compiled : setValue b e = .ok value)
    (performs : ∀ inside, value = .builder (.of inside) → Performs inside) :
    ∃ found : Slot Live, resolveOne value = .ok found ∧
      ∀ engine (a : Application) index key t world,
        a.children = runChildren engine ([found].filterMap Live.child?) →
          (Environment.seenFrom b world t).Covers b →
            Gives world (a.valueFrom index key t [Live.argument found] a.children)
              (e.evaluate (.seenFrom b world t)) := by
  unfold setValue at compiled
  split at compiled
  · next v literal =>
      cases compiled
      cases e with
      | literal _ =>
          cases literal
          refine ⟨Slot.literal (literalValue v), rfl, fun engine a index key t world _ _ => ?_⟩
          have same : Expression.evaluate (.seenFrom b world t) (.literal v) =
              .ok (literalValue v) := by
            cases v <;> simp [literalValue, Value.isNull, Expression.evaluate]
          rw [same]
          exact Gives.pure _
      | _ => cases literal
  · obtain ⟨script, scripted, rfl⟩ := map_eq_ok.mp compiled
    obtain ⟨inside, walked, rfl⟩ := map_eq_ok.mp scripted
    exact valueOps_give walked (performs inside rfl)

/-- What one row does. -/
def SetsRow (b : Bindings) (item : SetItem) (t : Traverser) (w w' : World) : Prop :=
  ∃ element v, t.valuation b item.owner = some element ∧
    item.value.evaluate (.onPath b w.store.graph t) = .ok v ∧
    w' = { w with store := { w.store with graph := w.store.graph.write item.key element v } }

theorem rows_set {world last : World} (through : Through (SetsRow b item) stream world last) :
    ∃ writes, Sets b item world.store.graph stream writes last.store.graph := by
  induction through with
  | nil world => exact ⟨[], .nil _⟩
  | cons first _ ih =>
      obtain ⟨element, v, bound, evaluates, rfl⟩ := first
      obtain ⟨writes, others⟩ := ih
      exact ⟨(element, v) :: writes, .cons bound evaluates others⟩

theorem setRow {value : Slot Script} (declared : Dictionary.get? item.owner b = some kind)
    (single : kind ≠ .relationships) (compiled : setValue b item.value = .ok value)
    (performs : ∀ inside, value = .builder (.of inside) → Performs inside) :
    ∃ stages, Builds [.select [item.owner], writeOps (kind == .node) item.key value] stages ∧
      ∀ {engine : Engine} {t : Traverser} {w w' : World} {out : Stream}, t.Stands b .node →
        w.sideEffects = [] → (runStages engine stages [t]).run w = (.ok out, w') →
          SetsRow b item t w w' := by
  obtain ⟨selecting, buildsSelect, leads⟩ := select_leads .node declared single
  obtain ⟨found, resolved, gives⟩ := setValue_gives compiled performs
  obtain ⟨cardinality, index, arguments, alone⟩ :=
    propertyArguments_written (kind == .node) item.key (Live.argument found)
  refine ⟨_, buildsSelect.append (writeOps_builds (kind == .node) item.key resolved),
    fun {engine t w w' out} stands quiet ran => ?_⟩
  obtain ⟨element, bound, holds, selects⟩ := leads stands quiet
  rw [runStages_append] at ran
  obtain ⟨selected, middle, first, ran⟩ := runs_bind.mp ran
  cases selects.symm.trans first
  rw [runStages_one] at ran
  let a : Application := ⟨.property, cardinalities (kind == .node) ++
    [.label item.key, Live.argument found], runChildren engine ([found].filterMap Live.child?), []⟩
  change (forEach (fun u => do
    a.writeProperty u
    return [u]) [t.split element]).run w = _ at ran
  rw [forEach_one] at ran
  obtain ⟨_, last, writes, same⟩ := runs_bind.mp ran
  cases same
  obtain ⟨x, rfl⟩ : ∃ x : Element, x.value = element := by
    cases kind with
    | relationships => exact absurd rfl single
    | node =>
        obtain ⟨ref, rfl⟩ := holds
        exact ⟨.vertex ⟨ref.id, ref.label, []⟩, rfl⟩
    | relationship =>
        obtain ⟨ref, rfl⟩ := holds
        exact ⟨.edge ⟨ref.id, ref.label, ref.source, ref.target, []⟩, rfl⟩
  have plain : x.value.map? = none := by cases x <;> rfl
  have there := stands.split plain holds
  obtain ⟨v, g, evaluates, changed, rfl⟩ := Application.writeProperty_runs arguments alone rfl
    (gives engine a (index + 1) item.key _ w rfl (there.knows.covers quiet)) writes
  rw [there.knows.seenFrom_eq quiet, Traverser.onPath_split] at evaluates
  exact ⟨x.value, v, bound, evaluates, by rw [Element.change_written changed]⟩

theorem performs_written {owner key : String} {isSingle : Bool} {inside : Ops}
    (performs : Performs [.select [owner], writeOps isSingle key (.builder (.of inside))]) :
    Performs inside := by
  cases isSingle <;>
    exact performs.inside (List.mem_cons_of_mem _ List.mem_cons_self) (by simp)

/-- An item of a SET clause is written row by row. -/
theorem setOps_sets {op : Op Script} (compiled : setOps b item = .ok op)
    (performed : performAll [op] l = .ok l') : ∃ stage, Builds [op] [stage] ∧
      ∀ {engine : Engine} {stream out : Stream} {world last : World}, Standing b .node stream →
        world.sideEffects = [] → (runStages engine [stage] stream).run world = (.ok out, last) →
          ∃ writes, Sets b item world.store.graph stream writes last.store.graph := by
  obtain ⟨kind, value, declared, single, found, rfl⟩ := setOps_parts compiled
  have inside : Performs [.select [item.owner], writeOps (kind == .node) item.key value] :=
    Performs.within performed List.mem_cons_self List.mem_cons_self
  obtain ⟨stages, builds, row⟩ := setRow declared single found
    fun script same => performs_written (same ▸ inside)
  obtain ⟨stage, buildsStage, runs⟩ := sideEffect_builds builds
  refine ⟨stage, buildsStage, fun {engine stream out world last} stands quiet ran => ?_⟩
  have through := (runs.mp ran).2
  refine rows_set (through.imp (I := fun w => w.sideEffects = [])
    (fun t member w w' still ends => ?_) quiet).1
  obtain ⟨out, ran⟩ := ends
  have written := row (stands t member) still ran
  obtain ⟨element, v, _, _, rfl⟩ := id written
  exact ⟨written, still⟩

end Cypher

end PropertyGraph
