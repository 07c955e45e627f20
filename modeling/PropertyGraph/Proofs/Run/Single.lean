import Mathlib.Data.List.Forall2
import PropertyGraph.Proofs.Run.Observation
import PropertyGraph.Run.Plan

/-!
Steps that are given a single traverser. What comes out is stated from what the sub-traversals
show.
-/

namespace PropertyGraph

namespace Graph

def propertiesOf (g : Graph) : Value → Except ExecutionFault Properties
  | .vertex v =>
      match g.vertex? v.id with
      | some vertex => .ok vertex.properties
      | none => .error (.missing (.deletedVertex v.id))
  | .edge e =>
      match g.edge? e.id with
      | some edge => .ok edge.properties
      | none => .error (.missing (.deletedEdge e.id))
  | other => .error (.notElement other.typeName)

end Graph

namespace Value

def elementId : Value → Except ExecutionFault Value
  | .vertex v => .ok (.ofNat v.id.toNat)
  | .edge e => .ok (.ofNat e.id.toNat)
  | other => .error (.notElement other.typeName)

def elementLabel : Value → Except ExecutionFault Value
  | .vertex v => .ok (.string v.label)
  | .edge e => .ok (.string e.label)
  | .property _ key _ => .ok (.string key)
  | other => .error (.inapplicable .label other.typeName)

end Value

namespace Function

/-- The value of a function; its faults are those of a run. -/
def value (f : Function) (operand : Value) : Except ExecutionFault Value :=
  (f.apply operand).mapError .function

end Function

namespace Exec

variable {world : World} {t : Traverser}

theorem forEach_one (f : Traverser → Exec Stream) (t : Traverser) : forEach f [t] = f t := by
  simp [forEach]

theorem mapEach_one {f : Traverser → Exec Value} {result : Except ExecutionFault Value}
    (gives : Gives world (f t) result) : Shows world IsOne (mapEach f [t]) result := by
  rw [mapEach, forEach_one, ← bind_pure result]
  exact gives.shows_bind fun v _ => .pure ⟨t.split v, rfl, rfl⟩

theorem keep_one {test : Traverser → Exec Bool} {result : Except ExecutionFault Bool}
    (gives : Gives world (test t) result) :
    Gives world (keep test [t]) ((fun passed => if passed then [t] else []) <$> result) := by
  rw [keep, forEach_one, map_eq_pure_bind]
  exact gives.bind fun passed _ => Gives.pure _

theorem keep_pure (test : Traverser → Bool) (stream : Stream) :
    keep (fun t => pure (test t)) stream = pure (stream.filter test) := by
  rw [keep]
  induction stream with
  | nil => rfl
  | cons t rest ih =>
      rw [forEach, ih]
      cases passed : test t <;> simp [passed]

theorem mapEach_shows {f : Traverser → Exec Value} {g : Value → Except ExecutionFault Value}
    {stream : Stream} (each : ∀ t ∈ stream, Gives world (f t) (g t.object)) :
    Shows world HasObjects (mapEach f stream) ((objects stream).mapM g) := by
  induction stream with
  | nil => exact .pure rfl
  | cons t rest ih =>
      have others := ih fun u later => each u (List.mem_cons_of_mem _ later)
      change Shows world HasObjects _ ((t.object :: objects rest).mapM g)
      rw [mapEach, forEach, List.mapM_cons, bind_assoc]
      refine (each t List.mem_cons_self).shows_bind fun v _ => ?_
      rw [pure_bind]
      refine others.bind fun more values _ shown => .pure ?_
      exact congrArg (v :: ·) shown

theorem keep_any {test : Traverser → Exec Bool} {result : Except ExecutionFault Bool}
    (gives : Gives world (test t) result) : Shows world HasAny (keep test [t]) result := by
  rw [keep, forEach_one, ← bind_pure result]
  refine gives.shows_bind fun passed _ => .pure ?_
  cases passed <;> rfl

theorem propertiesOf_gives (world : World) (v : Value) :
    Gives world (propertiesOf v) (world.store.graph.propertiesOf v) := by
  refine Gives.graph.bind_ok ?_
  cases v with
  | vertex v =>
      cases found : world.store.graph.vertex? v.id with
      | none => simpa [Graph.propertiesOf, found] using Gives.throw _
      | some vertex => simpa [Graph.propertiesOf, found] using Gives.pure _
  | edge e =>
      cases found : world.store.graph.edge? e.id with
      | none => simpa [Graph.propertiesOf, found] using Gives.throw _
      | some edge => simpa [Graph.propertiesOf, found] using Gives.pure _
  | _ => exact Gives.throw _

end Exec

open Exec

namespace Plan

variable {engine : Engine}

theorem runStages_append (first second : List Stage) (stream : Stream) :
    runStages engine (first ++ second) stream =
      runStages engine first stream >>= runStages engine second := by
  induction first generalizing stream with
  | nil => simp [runStages]
  | cons stage rest ih => simp [runStages, ih]

theorem runStages_one (stage : Stage) (stream : Stream) :
    runStages engine [stage] stream = runStage engine stage stream := by
  simp [runStages]

end Plan

namespace Child

variable {world : World} {t : Traverser} {child : Child}

theorem first?_gives {result : Except ExecutionFault Value}
    (shows_ : Shows world IsOne (child.run [t]) result) :
    Gives world (child.first? t) (some <$> result) := by
  cases result with
  | error fault => exact Gives.bind_error shows_
  | ok v =>
      obtain ⟨stream, gives, u, rfl, rfl⟩ := shows_
      exact gives.bind_ok (.pure _)

theorem hasResult_gives {result : Except ExecutionFault Bool}
    (shows_ : Shows world HasAny (child.run [t]) result) :
    Gives world (child.hasResult t) result := by
  cases result with
  | error fault => exact Gives.bind_error shows_
  | ok passed =>
      obtain ⟨stream, gives, rfl⟩ := shows_
      exact gives.bind_ok (.pure _)

theorem valueOr_gives {result : Except ExecutionFault Value} (fault : ExecutionFault)
    (shows_ : Shows world IsOne (child.run [t]) result) :
    Gives world (Child.valueOr (some child) fault t) result := by
  have first := first?_gives shows_
  cases result with
  | error fault => exact first.bind_error
  | ok v => exact first.bind_ok (.pure v)

end Child

namespace Application

variable {world : World} {t : Traverser}

/-- Each sub-traversal leads a traverser to one value or fails. -/
abbrev Lead (world : World) (t : Traverser) :=
  List.Forall₂ fun (child : Child) (result : Except ExecutionFault Value) =>
    Shows world IsOne (child.run [t]) result

theorem runAll_shows {children : List Child} {results : List (Except ExecutionFault Value)}
    (lead : Lead world t children results) :
    Shows world HasObjects (runAll t children) (results.mapM fun result => result) := by
  induction lead with
  | nil => exact .pure rfl
  | @cons child result children results first _ ih =>
      rw [List.mapM_cons]
      refine first.bind fun stream v _ single => ih.bind fun others values _ objects => ?_
      obtain ⟨u, rfl, rfl⟩ := single
      exact .pure (congrArg (u.object :: ·) objects)

theorem fold_shows {stream : Stream} {values : List Value} (shown : HasObjects stream values) :
    Shows world IsOne (fold stream) (.ok (.list values)) := by
  cases shown
  exact .pure ⟨.start (.list (objects stream)), rfl, rfl⟩

theorem union_shows {a : Application} {results : List (Except ExecutionFault Value)}
    (lead : Lead world t a.children results) :
    Shows world HasObjects (a.union [t]) (results.mapM fun result => result) := by
  rw [union, forEach_one]
  exact runAll_shows lead

theorem map_shows {a : Application} {f : Function} {rest : List Argument}
    (arguments : a.arguments = .function f :: rest) :
    Shows world IsOne (a.map [t]) (f.value t.object) := by
  simp only [map, arguments]
  exact mapEach_one (Gives.liftFault _ _)

theorem constant_shows {a : Application} {v : Value} {rest : List Argument}
    (arguments : a.arguments = .literal v :: rest) :
    Shows world IsOne (a.constant [t]) (.ok v) := by
  have value : a.value 0 = pure v := by simp [Application.value, Arguments.value, arguments]
  rw [constant, value, pure_bind]
  exact mapEach_one (Gives.pure v)

theorem matching_filter {a : Application} {p : Predicate} {rest : List Argument}
    (arguments : a.arguments = .predicate p :: rest) (stream : Stream) :
    a.matching stream = pure (stream.filter fun t => p.test t.object) := by
  have asked : a.predicate? 0 = some p := by simp [predicate?, arguments]
  simp only [matching, asked]
  exact keep_pure (fun t => p.test t.object) stream

theorem selectOne_gives {a : Application} (unmodulated : a.modulations = []) {pop : Pop}
    {name : String} {v : Value} (found : world.named? t pop name = some v) :
    Gives world (a.selectOne pop [name] t) (.ok [t.split v]) := by
  have bys : byAt a.bys 0 = none := by simp [byAt, Application.bys, modulationsOf, unmodulated]
  have keys : Gives world (selectKeys a.bys pop t 0 [name]) (.ok (some [(name, v)])) := by
    rw [selectKeys]
    refine (Gives.named? t pop name).bind_ok ?_
    simp only [found, bys]
    exact Gives.pure _
  exact keys.bind_ok (.pure _)

theorem selectOne_shows {a : Application} (unmodulated : a.modulations = []) {pop : Pop}
    {name : String} {v : Value} (found : world.named? t pop name = some v) :
    Shows world IsOne (a.selectOne pop [name] t) (.ok v) :=
  .ok (selectOne_gives unmodulated found) ⟨t.split v, rfl, rfl⟩

theorem id_shows : Shows world IsOne (Application.id [t]) t.object.elementId := by
  refine mapEach_one ?_
  cases t.object with
  | vertex v => exact Gives.pure _
  | edge e => exact Gives.pure _
  | _ => exact Gives.throw _

theorem label_shows {a : Application} (kind : a.kind = .label) :
    Shows world IsOne (a.label [t]) t.object.elementLabel := by
  refine mapEach_one ?_
  cases t.object with
  | vertex v => exact Gives.pure _
  | edge e => exact Gives.pure _
  | property owner key v => exact Gives.pure _
  | _ =>
      simp only [Value.elementLabel?, Value.elementLabel, inapplicable, kind]
      exact Gives.throw _

theorem values_shows {a : Application} {key : String} (labels : a.labels = [key]) :
    Shows world (fun stream (found : Option Value) => HasObjects stream found.toList)
      (a.values [t]) (Dictionary.get? key <$> world.store.graph.propertiesOf t.object) := by
  rw [values, forEach_one, map_eq_pure_bind]
  refine (propertiesOf_gives world t.object).shows_bind fun known _ => .pure ?_
  simp only [labels]
  cases found : Dictionary.get? key known with
  | none => simp [HasObjects, objects, found]
  | some v => simp [HasObjects, objects, found, Traverser.split, Traverser.object]

theorem coalesce_shows {a : Application} {first second : Child}
    (children : a.children = [first, second]) {result : Except ExecutionFault (Option Value)}
    {fallback : Value}
    (shows_ : Shows world (fun stream (found : Option Value) => HasObjects stream found.toList)
      (first.run [t]) result)
    (otherwise : Shows world IsOne (second.run [t]) (.ok fallback)) :
    Shows world IsOne (a.coalesce [t]) ((fun found => found.getD fallback) <$> result) := by
  rw [coalesce, forEach_one, children, map_eq_pure_bind]
  refine shows_.bind fun stream found _ objects => ?_
  cases found with
  | none =>
      have empty : stream = [] := List.map_eq_nil_iff.mp objects
      obtain ⟨others, gives, u, rfl, same⟩ := otherwise
      subst empty
      exact .ok (gives.bind_ok (.pure _)) ⟨u, rfl, same⟩
  | some v =>
      obtain ⟨u, rfl, same⟩ := List.map_eq_singleton_iff.mp objects
      exact .pure ⟨u, rfl, same⟩

/-- The traversers stand at the properties of one element. -/
def AtProperties (stream : Stream) (known : Properties) : Prop :=
  ∃ owner, HasObjects stream (known.map fun entry => .property owner entry.1 entry.2)

theorem at_properties (t : Traverser) (owner : Owner) (known : Properties) :
    AtProperties (known.map fun (key, value) => t.split (.property owner key value)) known :=
  ⟨owner, by simp [HasObjects, objects, Function.comp_def, Traverser.split, Traverser.object]⟩

theorem properties_shows {a : Application} (labels : a.labels = []) :
    Shows world AtProperties (a.properties [t]) (world.store.graph.propertiesOf t.object) := by
  rw [properties, forEach_one]
  have known := propertiesOf_gives world t.object
  simp only [labels, List.isEmpty_nil, Bool.true_or, List.filter_true]
  rw [← bind_pure (world.store.graph.propertiesOf t.object)]
  cases place : t.object with
  | vertex v =>
      rw [place] at known
      exact known.shows_bind fun entries _ => .pure (at_properties t _ entries)
  | edge e =>
      rw [place] at known
      exact known.shows_bind fun entries _ => .pure (at_properties t _ entries)
  | _ => exact Gives.throw _

theorem key_shows (a : Application) {stream : Stream} {known : Properties}
    (standing : AtProperties stream known) :
    Shows world HasObjects (a.key stream) (.ok (known.keys.map .string)) := by
  obtain ⟨owner, standing⟩ := standing
  induction stream generalizing known with
  | nil =>
      cases known with
      | nil => exact .pure rfl
      | cons entry rest => cases standing
  | cons u stream ih =>
      cases known with
      | nil => cases standing
      | cons entry rest =>
          obtain ⟨here, others⟩ := List.cons.inj standing
          change u.object = .property owner entry.1 entry.2 at here
          obtain ⟨more, gives, shown⟩ := ih others
          refine .ok (a := u.split (.string entry.1) :: more) ?_ (congrArg (_ :: ·) shown)
          rw [Application.key, propertyPart, mapEach, forEach, here]
          exact Gives.bind_ok (Gives.pure _) (Gives.bind_ok gives (Gives.pure _))

theorem projectColumns_gives {children : List Child}
    {results : List (Except ExecutionFault Value)} (lead : Lead world t children results)
    {bys : List (Option Child)} (served : List (Option Child))
    (all : bys = served ++ children.map some) {keys : List String}
    (lengths : keys.length = children.length) :
    Gives world (projectColumns bys t served.length keys)
      (keys.zip <$> results.mapM fun result => result) := by
  induction lead generalizing served keys with
  | nil =>
      cases List.length_eq_zero_iff.mp lengths
      exact Gives.pure _
  | @cons child result children results first _ ih =>
      cases keys with
      | nil => cases lengths
      | cons key keys =>
          have serving : byAt bys served.length = some child := by
            have small : served.length < bys.length := by simp [all]
            rw [byAt, Nat.mod_eq_of_lt small]
            simp [all]
          have rest := ih (served ++ [some child]) (by simp [all]) (Nat.succ.inj lengths)
          rw [List.length_append] at rest
          have split : ((key :: keys).zip <$> (result :: results).mapM fun result => result) =
              result >>= fun v =>
                (keys.zip <$> results.mapM fun result => result) >>= fun columns =>
                  pure ((key, v) :: columns) := by
            simp [List.mapM_cons]
          rw [projectColumns, serving, split]
          refine (Child.valueOr_gives _ first).bind fun v _ => ?_
          exact rest.bind fun columns _ => Gives.pure _

theorem record_gives {a : Application} {children : List Child}
    {results : List (Except ExecutionFault Value)} (lead : Lead world t children results)
    (bys : a.bys = children.map some) (lengths : a.labels.length = children.length) :
    Gives world (return Value.record (← projectColumns a.bys t 0 a.labels))
      ((fun values => Value.record (a.labels.zip values)) <$>
        results.mapM fun result => result) := by
  have columns := projectColumns_gives lead [] bys lengths
  have recorded := columns.map Value.record
  rwa [← comp_map, map_eq_pure_bind] at recorded

/-- Without a predicate, the first sub-traversal decides between the other two. -/
theorem chooseOne_eq {a : Application} {condition yes no : Child}
    (children : a.children = [condition, yes, no]) (unpredicated : a.predicate? 0 = none)
    (t : Traverser) : a.chooseOne t = condition.hasResult t >>= fun passed =>
      if passed then yes.run [t] else no.run [t] := by
  simp [chooseOne, unpredicated, children, Application.child, branch]

theorem choose_shows {a : Application} {β : Type} {see : Stream → β → Prop}
    {condition yes no : Child} (children : a.children = [condition, yes, no])
    (unpredicated : a.predicate? 0 = none) {result : Except ExecutionFault Bool}
    {chosen other : Except ExecutionFault β}
    (asks : Shows world HasAny (condition.run [t]) result)
    (first : Shows world see (yes.run [t]) chosen) (second : Shows world see (no.run [t]) other) :
    Shows world see (a.choose [t]) (result >>= fun passed => if passed then chosen else other) := by
  rw [choose, forEach_one, chooseOne_eq children unpredicated]
  refine (Child.hasResult_gives asks).shows_bind fun passed _ => ?_
  cases passed with
  | true => exact first
  | false => exact second

theorem anyChild_gives (wanted : Bool) {first second : Child}
    {result other : Except ExecutionFault Bool} (asks : Shows world HasAny (first.run [t]) result)
    (asksNext : Shows world HasAny (second.run [t]) other) :
    Gives world (anyChild wanted t [first, second])
      (result >>= fun passed =>
        if passed == wanted then .ok true else (· == wanted) <$> other) := by
  rw [anyChild]
  refine (Child.hasResult_gives asks).bind fun passed _ => ?_
  split
  · exact Gives.pure _
  · rw [anyChild, map_eq_pure_bind]
    refine (Child.hasResult_gives asksNext).bind fun passedNext _ => ?_
    cases same : passedNext == wanted <;> exact Gives.pure _

theorem and_shows {a : Application} {first second : Child} (children : a.children = [first, second])
    {result other : Except ExecutionFault Bool} (asks : Shows world HasAny (first.run [t]) result)
    (asksNext : Shows world HasAny (second.run [t]) other) :
    Shows world HasAny (a.and [t])
      (result >>= fun passed => if passed then other else .ok false) := by
  have failing := (anyChild_gives false asks asksNext).map (! ·)
  rw [← children, map_eq_pure_bind] at failing
  have both : ((! ·) <$> (result >>= fun passed =>
      if passed == false then .ok true else (· == false) <$> other)) =
      result >>= fun passed => if passed then other else .ok false := by
    cases result with
    | error fault => rfl
    | ok passed =>
        cases passed <;> cases other <;> simp [bind, Except.bind, Functor.map, Except.map]
  exact keep_any (both ▸ failing)

theorem or_shows {a : Application} {first second : Child} (children : a.children = [first, second])
    {result other : Except ExecutionFault Bool} (asks : Shows world HasAny (first.run [t]) result)
    (asksNext : Shows world HasAny (second.run [t]) other) :
    Shows world HasAny (a.or [t])
      (result >>= fun passed => if passed then .ok true else other) := by
  have passing := anyChild_gives true asks asksNext
  rw [← children] at passing
  have either : (result >>= fun passed =>
      if passed == true then .ok true else (· == true) <$> other) =
      result >>= fun passed => if passed then .ok true else other := by
    simp
  exact keep_any (either ▸ passing)

theorem where_gives {a : Application} {child : Child} (children : a.children = [child])
    (unpredicated : a.predicate? 0 = none) {result : Except ExecutionFault Bool}
    (asks : Shows world HasAny (child.run [t]) result) :
    Gives world (a.where_ [t]) ((fun passed => if passed then [t] else []) <$> result) := by
  have one : a.where_ [t] = keep child.hasResult [t] := by
    simp [where_, unpredicated, children, Application.child]
  rw [one]
  exact keep_one (Child.hasResult_gives asks)

end Application

end PropertyGraph
