import PropertyGraph.Proofs.Builder.Stages
import PropertyGraph.Proofs.Cypher.Evaluation

/-!
What operations lead traversers to, as a function of what the variables of a scope stand for. Each
way to put operations together is given once, for all that they may be made of.
-/

namespace PropertyGraph

namespace Cypher

open Exec Script Plan

variable {α β : Type} {see : Stream → α → Prop} {b : Bindings} {operations more : Ops}

/-- The operations lead each traverser that finds the variables of a scope to what is seen. -/
def Leads (see : Stream → α → Prop) (b : Bindings) (operations : Ops)
    (f : Environment → Except ExecutionFault α) : Prop :=
  ∃ stages, Builds operations stages ∧
    ∀ engine world t, (Environment.seenFrom b world t).Covers b →
      Shows world see (runStages engine stages [t]) (f (.seenFrom b world t))

/-- The operations lead each traverser that may start to what is seen, which may depend on where it
stands. -/
def LeadsFrom (see : Stream → α → Prop) (starts : World → Traverser → Prop) (operations : Ops)
    (f : World → Traverser → Except ExecutionFault α) : Prop :=
  ∃ stages, Builds operations stages ∧
    ∀ engine world t, starts world t → Shows world see (runStages engine stages [t]) (f world t)

/-- One value comes out. -/
abbrev Computes := Leads IsOne

/-- Something comes out, or nothing does. -/
abbrev Decides := Leads HasAny

/-- The operations lead a traverser to what is seen, wherever it comes from. -/
def Moves (see : Stream → α → Prop) (operations : Ops)
    (g : Graph → Value → Except ExecutionFault α) : Prop :=
  ∃ stages, Builds operations stages ∧
    ∀ engine world t, Shows world see (runStages engine stages [t]) (g world.store.graph t.object)

variable {f : Environment → Except ExecutionFault Value}

theorem Moves.leads {g : Graph → Value → Except ExecutionFault α} (moves : Moves see operations g)
    {result : Except ExecutionFault α} (fixed : ∀ graph v, g graph v = result) :
    Leads see b operations fun _ => result := by
  obtain ⟨stages, builds, run⟩ := moves
  refine ⟨stages, builds, ?_⟩
  intro engine world t _
  have shows_ := run engine world t
  rwa [fixed] at shows_

theorem Leads.starting {f : Environment → Except ExecutionFault α} (leads : Leads see b operations f) :
    LeadsFrom see (fun world t => (Environment.seenFrom b world t).Covers b) operations
      fun world t => f (.seenFrom b world t) := leads

theorem Moves.starting {g : Graph → Value → Except ExecutionFault α} (moves : Moves see operations g)
    (starts : World → Traverser → Prop) :
    LeadsFrom see starts operations fun world t => g world.store.graph t.object := by
  obtain ⟨stages, builds, run⟩ := moves
  exact ⟨stages, builds, fun engine world t _ => run engine world t⟩

namespace LeadsFrom

variable {starts : World → Traverser → Prop} {f : World → Traverser → Except ExecutionFault Value}

theorem child {f : World → Traverser → Except ExecutionFault α}
    (leads : LeadsFrom see starts operations f) :
    ∃ plan, Makes (.of operations) plan ∧ ∀ engine world t, starts world t →
      Shows world see (plan.run engine [t]) (f world t) := by
  obtain ⟨stages, builds, run⟩ := leads
  exact ⟨.mk stages [], .of builds, run⟩

theorem andThen (first : LeadsFrom IsOne starts operations f)
    {g : Graph → Value → Except ExecutionFault α} (next : Moves see more g) :
    LeadsFrom see starts (operations ++ more)
      fun world t => f world t >>= g world.store.graph := by
  obtain ⟨stages, builds, run⟩ := first
  obtain ⟨others, buildsNext, runNext⟩ := next
  refine ⟨stages ++ others, builds.append buildsNext, ?_⟩
  intro engine world t may
  rw [runStages_append]
  refine (run engine world t may).bind ?_
  rintro stream v _ ⟨u, rfl, rfl⟩
  exact runNext engine world u

end LeadsFrom

theorem Leads.andThen (first : Computes b operations f)
    {g : Graph → Value → Except ExecutionFault α} (next : Moves see more g) :
    Leads see b (operations ++ more) fun env => f env >>= g env.graph :=
  first.starting.andThen next

theorem Leads.congr {f g : Environment → Except ExecutionFault α} (leads : Leads see b operations f)
    (same : ∀ env, f env = g env) : Leads see b operations g := by
  have equal : f = g := funext same
  rwa [← equal]

namespace Moves

theorem step {kind : StepKind} (plain : kind.IsPlain) (inner : kind.isEntry = false)
    {slots : List (Slot Script)} {arguments : List Argument}
    (resolved : ∃ found : List (Slot Live), resolve slots = .ok found ∧
      found.map Live.argument = arguments ∧ found.filterMap Live.child? = [])
    {g : Graph → Value → Except ExecutionFault α}
    (shows_ : ∀ engine world t,
      Shows world see (Application.perform engine ⟨kind, arguments, [], []⟩ [t])
        (g world.store.graph t.object)) :
    Moves see [.append kind slots inner] g := by
  obtain ⟨found, resolved, rfl, childless⟩ := resolved
  refine ⟨_, Builds.step kind plain inner slots resolved, ?_⟩
  intro engine world t
  rw [runStages_one, childless]
  exact shows_ engine world t

theorem constant (v : Value) : Moves IsOne [.constant v] fun _ _ => .ok v := by
  refine step ⟨rfl, by decide⟩ rfl ⟨[.literal v], rfl, rfl, rfl⟩ ?_
  intro engine world t
  exact Application.constant_shows rfl

theorem apply (f : Function) : Moves IsOne [.apply f] fun _ v => f.value v := by
  refine step ⟨rfl, by decide⟩ rfl ⟨[.function f], rfl, rfl, rfl⟩ ?_
  intro engine world t
  exact Application.map_shows (a := ⟨.map, [.function f], [], []⟩) rfl

theorem tests (ps : List Predicate) :
    Moves HasAny (ps.map .is_) fun _ v => .ok (ps.all fun p => p.test v) := by
  -- over any stream, since the first predicate may leave nothing for the others
  have filter (engine : Engine) (ps : List Predicate) (stream : Stream) :
      runStages engine (ps.map fun p => .apply (.mk .is_ [.predicate p]) [] []) stream =
        pure (stream.filter fun t => ps.all fun p => p.test t.object) := by
    induction ps generalizing stream with
    | nil => simp [runStages]
    | cons p ps ih =>
        have first : runStage engine (.apply (.mk .is_ [.predicate p]) [] []) stream =
            pure (stream.filter fun t => p.test t.object) :=
          Application.matching_filter (a := ⟨.is_, [.predicate p], [], []⟩) rfl stream
        simp [runStages, first, ih, Bool.and_comm]
  have builds (ps : List Predicate) : Builds (ps.map .is_)
      (ps.map fun p => .apply (.mk .is_ [.predicate p]) [] []) := by
    induction ps with
    | nil => exact .nil
    | cons p ps ih =>
        exact (Builds.step .is_ ⟨rfl, by decide⟩ rfl [.predicate p] rfl).append ih
  refine ⟨_, builds ps, ?_⟩
  intro engine world t
  rw [filter]
  refine .pure ?_
  cases passed : ps.all fun p => p.test t.object <;> simp [HasAny, passed]

theorem id : Moves IsOne [.append .id []] fun _ v => v.elementId := by
  refine step ⟨rfl, by decide⟩ rfl ⟨[], rfl, rfl, rfl⟩ ?_
  intro engine world t
  exact Application.id_shows

theorem label : Moves IsOne [.append .label []] fun _ v => v.elementLabel := by
  refine step ⟨rfl, by decide⟩ rfl ⟨[], rfl, rfl, rfl⟩ ?_
  intro engine world t
  exact Application.label_shows rfl

theorem follow {g : Graph → Value → Except ExecutionFault α} (moves : Moves see operations g)
    {stages : List Stage} (builds : Builds more stages) {see' : Stream → β → Prop}
    {rest : Graph → α → Except ExecutionFault β}
    (next : ∀ engine world stream a, see stream a →
      Shows world see' (runStages engine stages stream) (rest world.store.graph a)) :
    Moves see' (operations ++ more) fun graph v => g graph v >>= rest graph := by
  obtain ⟨before, buildsFirst, run⟩ := moves
  refine ⟨before ++ stages, buildsFirst.append builds, ?_⟩
  intro engine world t
  rw [runStages_append]
  exact (run engine world t).bind fun stream a _ seen => next engine world stream a seen

theorem andThen {g : Graph → Value → Except ExecutionFault Value} (moves : Moves IsOne operations g)
    {see' : Stream → β → Prop} {h : Graph → Value → Except ExecutionFault β}
    (next : Moves see' more h) :
    Moves see' (operations ++ more) fun graph v => g graph v >>= h graph := by
  obtain ⟨stages, builds, run⟩ := next
  refine moves.follow builds ?_
  rintro engine world stream v ⟨u, rfl, rfl⟩
  exact run engine world u

theorem fold {g : Graph → Value → Except ExecutionFault (List Value)}
    (moves : Moves HasObjects operations g) :
    Moves IsOne (operations ++ [.append .fold []]) fun graph v =>
      g graph v >>= fun values => .ok (.list values) := by
  refine moves.follow (Builds.step .fold ⟨rfl, by decide⟩ rfl [] rfl) ?_
  intro engine world stream values shown
  rw [runStages_one]
  exact Application.fold_shows shown

theorem labels : Moves IsOne [.append .label [], .append .fold []] fun _ v =>
    v.elementLabel >>= fun label => .ok (.list [label]) := by
  refine label.follow (Builds.step .fold ⟨rfl, by decide⟩ rfl [] rfl) ?_
  rintro engine world stream label ⟨u, rfl, rfl⟩
  rw [runStages_one]
  exact Application.fold_shows rfl

theorem keys : Moves IsOne [.labelled .properties [], .append .key [], .append .fold []]
    fun graph v => graph.propertiesOf v >>= fun known => .ok (.list (known.keys.map .string)) := by
  have properties : Moves Application.AtProperties [.labelled .properties []] fun graph v =>
      graph.propertiesOf v := by
    refine step ⟨rfl, by decide⟩ rfl ⟨[], rfl, rfl, rfl⟩ ?_
    intro engine world t
    exact Application.properties_shows (a := ⟨.properties, [], [], []⟩) rfl
  have named : Moves HasObjects [.labelled .properties [], .append .key []] fun graph v =>
      graph.propertiesOf v >>= fun known => .ok (known.keys.map .string) := by
    refine properties.follow (Builds.step .key ⟨rfl, by decide⟩ rfl [] rfl) ?_
    intro engine world stream known standing
    rw [runStages_one]
    exact Application.key_shows _ standing
  have folded := named.fold
  simp only [bind_assoc] at folded
  exact folded

/-- What a builder of these operations holds, and how it runs as a sub-traversal. -/
theorem child {g : Graph → Value → Except ExecutionFault α} (moves : Moves see operations g) :
    ∃ plan, Makes (.of operations) plan ∧ ∀ engine world t,
      Shows world see (plan.run engine [t]) (g world.store.graph t.object) := by
  obtain ⟨stages, builds, run⟩ := moves
  exact ⟨.mk stages [], .of builds, run⟩

theorem values (key : String) :
    Moves (fun stream (found : Option Value) => HasObjects stream found.toList)
      [.labelled .values [key]] fun graph v => Dictionary.get? key <$> graph.propertiesOf v := by
  refine step ⟨rfl, by decide⟩ rfl ⟨[.label key], rfl, rfl, rfl⟩ ?_
  intro engine world t
  exact Application.values_shows (a := ⟨.values, [.label key], [], []⟩) rfl

theorem ownProperty (key : String) : Moves IsOne [Cypher.ownProperty key] fun graph v =>
    graph.propertiesOf v >>= fun known => .ok ((Dictionary.get? key known).getD Value.unknown) := by
  obtain ⟨own, makesOwn, runOwn⟩ := (values key).child
  obtain ⟨other, makesOther, runOther⟩ := (constant Value.unknown).child
  obtain ⟨programs, builds⟩ := Builds.nested .coalesce ⟨rfl, by decide⟩ rfl
    (.cons makesOwn (.cons makesOther .nil))
  refine ⟨_, builds, ?_⟩
  intro engine world t
  rw [runStages_one]
  have shows_ := Application.coalesce_shows (t := t)
    (a := ⟨.coalesce, programs.map .program, runChildren engine [own, other], []⟩) rfl
    (runOwn engine world t) (runOther engine world t)
  rw [map_eq_pure_bind, map_eq_pure_bind, bind_assoc] at shows_
  exact shows_

end Moves

theorem LeadsFrom.pairwise {starts : World → Traverser → Prop} {left right : Ops}
    {f g : World → Traverser → Except ExecutionFault Value} (first : LeadsFrom IsOne starts left f)
    (second : LeadsFrom IsOne starts right g) (function : Function) :
    LeadsFrom IsOne starts (Cypher.pairwise function left right) fun world t =>
      f world t >>= fun v => g world t >>= fun w => function.ofPair v w := by
  obtain ⟨plan, makes, run⟩ := first.child
  obtain ⟨other, makesOther, runOther⟩ := second.child
  obtain ⟨programs, builds⟩ := Builds.nested .union ⟨rfl, by decide⟩ rfl
    (.cons makes (.cons makesOther .nil))
  have list : LeadsFrom IsOne starts [.nested .union [.of left, .of right], .append .fold []]
      fun world t => f world t >>= fun v => g world t >>= fun w => .ok (.list [v, w]) := by
    refine ⟨_, builds.append (Builds.step .fold ⟨rfl, by decide⟩ rfl [] rfl), ?_⟩
    intro engine world t may
    have both := Application.union_shows (t := t)
      (a := ⟨.union, programs.map .program, runChildren engine [plan, other], []⟩)
      (.cons (run engine world t may) (.cons (runOther engine world t may) .nil))
    have whole : (f world t >>= fun v => g world t >>= fun w => .ok (.list [v, w])) =
        [f world t, g world t].mapM (fun result => result) >>= fun values =>
          .ok (Value.list values) := by
      simp [List.mapM_cons]
    dsimp only
    rw [whole, runStages_append, runStages_one]
    refine both.bind fun stream values _ shown => ?_
    rw [runStages_one]
    exact Application.fold_shows shown
  have applied := list.andThen (Moves.apply function)
  simp only [bind_assoc] at applied
  exact applied

theorem runChildren_eq (engine : Engine) (plans : List Plan) :
    runChildren engine plans = plans.map fun plan => ⟨plan.run engine, plan.isReducing⟩ := by
  induction plans with
  | nil => rfl
  | cons plan rest ih => rw [runChildren, ih, List.map_cons]

theorem projection {keys : List String} (named : keys ≠ []) {scripts : List Script}
    {plans : List Plan} (make : List.Forall₂ Makes scripts plans)
    (lengths : keys.length = scripts.length) : ∃ stage,
      Builds (.project keys :: scripts.map fun script => .nested .by_ [script]) [stage] ∧
        ∀ engine, ∃ record : Traverser → Exec Value,
          (∀ stream, runStage engine stage stream = mapEach record stream) ∧
            ∀ world t results, Application.Lead world t (runChildren engine plans) results →
              Gives world (record t) ((fun values => .record (keys.zip values)) <$>
                results.mapM fun result => result) := by
  obtain ⟨modulators, builds, by_⟩ := Builds.project named make
  refine ⟨_, builds, fun engine => ?_⟩
  let a : Application := ⟨.project, keys.map .label, [], modulations engine modulators⟩
  have served : a.bys = (runChildren engine plans).map some := by
    clear builds make
    induction by_ with
    | nil => rfl
    | cons first _ ih =>
        obtain ⟨arguments, rfl⟩ := first
        exact congrArg (_ :: ·) ih
  have labels : a.labels = keys := by
    simp [a, Application.labels, Arguments.labels, List.filterMap_map]
  have several : a.labels.length = (runChildren engine plans).length := by
    rw [labels, lengths, make.length_eq, runChildren_eq, List.length_map]
  let record (t : Traverser) : Exec Value :=
    return .record (← Application.projectColumns a.bys t 0 a.labels)
  refine ⟨record, fun stream => rfl, fun world t results lead => ?_⟩
  have gives : Gives world (record t) _ := Application.record_gives lead served several
  rwa [labels] at gives

/-- Scripts that compute values, each with what it computes. -/
abbrev Compute (b : Bindings) :=
  List.Forall₂ fun (script : Script) (f : Environment → Except ExecutionFault Value) =>
    ∃ operations, script = .of operations ∧ Computes b operations f

namespace Leads

theorem child {f : Environment → Except ExecutionFault α} (leads : Leads see b operations f) :
    ∃ plan, Makes (.of operations) plan ∧ ∀ engine world t,
      (Environment.seenFrom b world t).Covers b →
        Shows world see (plan.run engine [t]) (f (.seenFrom b world t)) :=
  leads.starting.child

theorem children {scripts : List Script} {fs : List (Environment → Except ExecutionFault Value)}
    (compute : Compute b scripts fs) :
    ∃ plans, List.Forall₂ Makes scripts plans ∧ ∀ engine world t,
      (Environment.seenFrom b world t).Covers b →
        Application.Lead world t (runChildren engine plans)
          (fs.map fun f => f (.seenFrom b world t)) := by
  induction compute with
  | nil => exact ⟨[], .nil, fun engine world t _ => .nil⟩
  | cons first _ ih =>
      obtain ⟨operations, rfl, leads⟩ := first
      obtain ⟨plan, makes, run⟩ := leads.child
      obtain ⟨plans, make, runRest⟩ := ih
      refine ⟨plan :: plans, .cons makes make, ?_⟩
      intro engine world t covers
      exact .cons (run engine world t covers) (runRest engine world t covers)

theorem list {scripts : List Script} {fs : List (Environment → Except ExecutionFault Value)}
    (compute : Compute b scripts fs) :
    Computes b [.nested .union scripts, .append .fold []] fun env =>
      ((fs.map fun f => f env).mapM fun result => result) >>= fun values => .ok (.list values) := by
  obtain ⟨plans, make, run⟩ := children compute
  obtain ⟨programs, builds⟩ := Builds.nested .union ⟨rfl, by decide⟩ rfl make
  have folding := Builds.step .fold ⟨rfl, by decide⟩ rfl [] rfl
  refine ⟨_, builds.append folding, ?_⟩
  intro engine world t covers
  rw [runStages_append, runStages_one]
  have shows_ := Application.union_shows (t := t)
    (a := ⟨.union, programs.map .program, runChildren engine plans, []⟩) (run engine world t covers)
  refine shows_.bind fun stream values _ shown => ?_
  rw [runStages_one]
  exact Application.fold_shows shown

theorem pairwise {left right : Ops} {f g : Environment → Except ExecutionFault Value}
    (first : Computes b left f) (second : Computes b right g) (function : Function) :
    Computes b (Cypher.pairwise function left right) fun env =>
      f env >>= fun v => g env >>= fun w => function.ofPair v w :=
  first.starting.pairwise second.starting function

theorem select {name : String} {kind : NameKind} (declared : Dictionary.get? name b = some kind)
    (single : kind ≠ .relationships) :
    Computes b [.select [name]] fun env => .ok ((env.value? name).getD Value.unknown) := by
  refine ⟨_, Builds.labelled .select ⟨rfl, by decide⟩ rfl [name], ?_⟩
  intro engine world t covers
  have value : (Environment.seenFrom b world t).value? name = world.named? t .last name := by
    cases kind <;> simp_all [Environment.seenFrom]
  obtain ⟨v, found⟩ := Option.isSome_iff_exists.mp (covers name (by simp [declared]))
  rw [runStages_one]
  change Shows world IsOne (forEach (Application.selectOne ⟨.select, [.label name], [], []⟩ .last
    [name]) [t]) (.ok (((Environment.seenFrom b world t).value? name).getD Value.unknown))
  rw [forEach_one, found]
  exact Application.selectOne_shows rfl (value ▸ found)

theorem selectAll {name : String} (declared : Dictionary.get? name b = some .relationships) :
    Computes b [.selectLabel .all name] fun env => .ok ((env.value? name).getD Value.unknown) := by
  refine ⟨_, Builds.step .select ⟨rfl, by decide⟩ rfl [.pop .all, .label name] rfl, ?_⟩
  intro engine world t covers
  have value : (Environment.seenFrom b world t).value? name = world.named? t .all name := by
    simp [Environment.seenFrom, declared]
  obtain ⟨v, found⟩ := Option.isSome_iff_exists.mp (covers name (by simp [declared]))
  rw [runStages_one]
  change Shows world IsOne (Application.select ⟨.select, [.pop .all, .label name], [], []⟩ [t])
    (.ok (((Environment.seenFrom b world t).value? name).getD Value.unknown))
  have text : Application.text ⟨.select, [.pop .all, .label name], [], []⟩ 1 = pure name := rfl
  simp only [Application.select, text, pure_bind]
  rw [forEach_one, found]
  exact Application.selectOne_shows rfl (value ▸ found)

theorem project {keys : List String} (named : keys ≠ []) {scripts : List Script}
    {fs : List (Environment → Except ExecutionFault Value)} (compute : Compute b scripts fs)
    (lengths : keys.length = scripts.length) :
    Computes b (.project keys :: scripts.map fun script => .nested .by_ [script]) fun env =>
      ((fs.map fun f => f env).mapM fun result => result) >>= fun values =>
        .ok (.record (keys.zip values)) := by
  obtain ⟨plans, make, run⟩ := children compute
  obtain ⟨stage, builds, projects⟩ := projection named make lengths
  refine ⟨_, builds, ?_⟩
  intro engine world t covers
  obtain ⟨record, runs, gives⟩ := projects engine
  have recorded := gives world t _ (run engine world t covers)
  rw [map_eq_pure_bind] at recorded
  rw [runStages_one, runs]
  exact mapEach_one recorded

theorem choice {condition yes no : Ops} {c : Environment → Except ExecutionFault Bool}
    {f g : Environment → Except ExecutionFault Value} (asks : Decides b condition c)
    (first : Computes b yes f) (second : Computes b no g) :
    Computes b [Cypher.choice condition yes no] fun env =>
      c env >>= fun passed => if passed then f env else g env := by
  obtain ⟨plan, makes, run⟩ := asks.child
  obtain ⟨planYes, makesYes, runYes⟩ := first.child
  obtain ⟨planNo, makesNo, runNo⟩ := second.child
  obtain ⟨programs, builds⟩ := Builds.nested .choose ⟨rfl, by decide⟩ rfl
    (.cons makes (.cons makesYes (.cons makesNo .nil)))
  refine ⟨_, builds, ?_⟩
  intro engine world t covers
  rw [runStages_one]
  have unpredicated : Application.predicate? ⟨.choose, programs.map .program,
      runChildren engine [plan, planYes, planNo], []⟩ 0 = none := by
    cases programs <;> rfl
  exact Application.choose_shows rfl unpredicated (run engine world t covers)
    (runYes engine world t covers) (runNo engine world t covers)

theorem truthOf {condition : Ops} {c : Environment → Except ExecutionFault Bool}
    (asks : Decides b condition c) :
    Computes b [Cypher.truthOf condition] fun env =>
      c env >>= fun passed => .ok (.bool passed) := by
  have chosen := choice asks ((Moves.constant (.bool true)).leads fun _ _ => rfl)
    ((Moves.constant (.bool false)).leads fun _ _ => rfl)
  refine chosen.congr fun env => ?_
  cases c env with
  | error fault => rfl
  | ok passed => cases passed <;> rfl

theorem pair {kind : StepKind} (plain : kind.IsPlain) (inner : kind.isEntry = false)
    {first second : Ops} {c d result : Environment → Except ExecutionFault Bool}
    (asks : Decides b first c) (asksNext : Decides b second d)
    (answers : ∀ engine world t env arguments (one two : Child),
      Shows world HasAny (one.run [t]) (c env) → Shows world HasAny (two.run [t]) (d env) →
        Shows world HasAny (Application.perform engine ⟨kind, arguments, [one, two], []⟩ [t])
          (result env)) :
    Decides b [.nested kind [.of first, .of second] inner] result := by
  obtain ⟨plan, makes, run⟩ := asks.child
  obtain ⟨planNext, makesNext, runNext⟩ := asksNext.child
  obtain ⟨programs, builds⟩ := Builds.nested kind plain inner (.cons makes (.cons makesNext .nil))
  refine ⟨_, builds, ?_⟩
  intro engine world t covers
  rw [runStages_one]
  exact answers engine world t _ _ _ _ (run engine world t covers) (runNext engine world t covers)

/-- Both conditions; the second one is asked if the first one lets pass. -/
theorem both {first second : Ops} {c d : Environment → Except ExecutionFault Bool}
    (asks : Decides b first c) (asksNext : Decides b second d) :
    Decides b [.nested .and [.of first, .of second]] fun env =>
      c env >>= fun passed => if passed then d env else .ok false :=
  pair ⟨rfl, by decide⟩ rfl asks asksNext fun _ _ _ _ arguments one two shown shownNext =>
    Application.and_shows (a := ⟨.and, arguments, [one, two], []⟩) rfl shown shownNext

/-- Either condition; the second one is asked if the first one does not let pass. -/
theorem either {first second : Ops} {c d : Environment → Except ExecutionFault Bool}
    (asks : Decides b first c) (asksNext : Decides b second d) :
    Decides b [.nested .or [.of first, .of second]] fun env =>
      c env >>= fun passed => if passed then .ok true else d env :=
  pair ⟨rfl, by decide⟩ rfl asks asksNext fun _ _ _ _ arguments one two shown shownNext =>
    Application.or_shows (a := ⟨.or, arguments, [one, two], []⟩) rfl shown shownNext

theorem always : Decides b [.append .identity []] fun _ => .ok true := by
  refine ⟨_, Builds.step .identity ⟨rfl, by decide⟩ rfl [] rfl, ?_⟩
  intro engine world t _
  rw [runStages_one]
  exact .pure rfl

theorem never : Decides b [.limit 0] fun _ => .ok false := by
  refine ⟨_, Builds.step .limit ⟨rfl, by decide⟩ rfl [.literal (.int 0)] rfl, ?_⟩
  intro engine world t _
  rw [runStages_one]
  exact .ok rfl rfl

theorem filter {condition : Ops} {c : Environment → Except ExecutionFault Bool}
    (asks : Decides b condition c) :
    ∃ l : Live, Script.perform (.of [.nested .where_ [.of condition]]) Backend.floating = .ok l ∧
      ∀ engine world t, (Environment.seenFrom b world t).Covers b →
        Gives world (l.plan.run engine [t])
          ((fun passed => if passed then [t] else []) <$> c (.seenFrom b world t)) := by
  obtain ⟨plan, makes, run⟩ := asks.child
  obtain ⟨programs, builds⟩ := Builds.nested .where_ ⟨rfl, by decide⟩ rfl (.cons makes .nil)
  obtain ⟨program, performed⟩ := builds.fresh
  refine ⟨_, performed, ?_⟩
  intro engine world t covers
  have unpredicated : Application.predicate? ⟨.where_, programs.map .program,
      runChildren engine [plan], []⟩ 0 = none := by
    cases programs <;> rfl
  change Gives world (runStages engine [_] [t]) _
  rw [runStages_one]
  exact Application.where_gives rfl unpredicated (run engine world t covers)

end Leads

end Cypher

end PropertyGraph
