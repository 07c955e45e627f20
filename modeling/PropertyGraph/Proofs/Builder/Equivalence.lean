import PropertyGraph.Client.Basic
import PropertyGraph.Proofs.Builder.Insertion

/-!
Scripts that come to the same. Two plans that end in the same stages have the same results and
effects if these stages cannot tell apart what reaches them. So it is with a label that no step
looks up, unless it comes between a loop and an emission that the loop would take.
-/

namespace PropertyGraph

namespace Plan

variable {view : View} {engine : Engine} {p q : Plan}

/-- Plans that cannot be told apart in some view have the same results and effects. -/
theorem execute_eq {store : Store}
    (agree : Exec.AgreeIn ⟨store, []⟩ (Stream.Alike view) (p.run engine []) (q.run engine [])) :
    p.execute engine store = q.execute engine store := by
  obtain ⟨ends, same⟩ := agree
  rw [execute, execute]
  generalize (p.run engine []).run ⟨store, []⟩ = left at ends same
  generalize (q.run engine []).run ⟨store, []⟩ = right at ends same
  obtain ⟨result, after⟩ := left
  obtain ⟨result', after'⟩ := right
  cases (same : after = after')
  cases (ends : Alike (Stream.Alike view) result result') with
  | ok alike => simp only [alike.objects_eq]
  | error fault => rfl

end Plan

namespace Live

/-- Builders whose traversals have the same results and effects. -/
def Equivalent (l m : Live) : Prop := ∀ engine store, l.execute engine store = m.execute engine store

/-- Builders whose traversals have the same results and effects on one graph. -/
def EquivalentOn (g : Graph) (l m : Live) : Prop :=
  ∀ engine store, store.graph = g → l.execute engine store = m.execute engine store

/-- Two builders hold the same plan behind different stages. Nothing need be there yet. -/
structure SameTail (view : View) (front other : List Stage) (l m : Live) : Prop where
  bound : l.bound = m.bound
  plans : ∃ tail : Plan, view.AdmitsPlan tail ∧ l.plan = tail.behind front ∧
    m.plan = tail.behind other

variable {view : View} {front other : List Stage} {l m : Live}

/-- What is the same behind both is all that matters, if it cannot tell apart what reaches it. -/
theorem SameTail.execute_eq (same : SameTail view front other l m) {engine : Engine} {store : Store}
    (reached : Exec.AgreeIn ⟨store, []⟩ (Stream.Alike view)
      (Plan.runStages engine front []) (Plan.runStages engine other [])) :
    l.execute engine store = m.execute engine store := by
  obtain ⟨⟨stages, pending⟩, admitted, left, right⟩ := same.plans
  rw [execute, execute, left, right, same.bound]
  have agree : Exec.AgreeIn ⟨store, []⟩ (Stream.Alike view)
      ((Plan.behind front (.mk stages pending)).run engine [])
      ((Plan.behind other (.mk stages pending)).run engine []) := by
    cases pending with
    | cons modulator rest =>
        obtain ⟨step, children, before⟩ := modulator
        exact Exec.Agree.throw _ _
    | nil =>
        change Exec.AgreeIn _ _ (Plan.runStages engine (front ++ stages) [])
          (Plan.runStages engine (other ++ stages) [])
        rw [Plan.runStages_append, Plan.runStages_append]
        exact reached.bind fun _ _ alike =>
          Plan.runStages_respects engine stages admitted.1 _ _ alike
  split
  · exact Plan.execute_eq agree
  · rfl

theorem SameTail.equivalent (same : SameTail view front other l m)
    (reached : ∀ engine store, Exec.AgreeIn ⟨store, []⟩ (Stream.Alike view)
      (Plan.runStages engine front []) (Plan.runStages engine other [])) : l.Equivalent m :=
  fun engine store => same.execute_eq (reached engine store)

theorem SameTail.of_pending {pending : List Modulator} (bound : l.bound = m.bound)
    (left : l.plan = .mk front pending) (right : m.plan = .mk other pending)
    (waiting : view.AdmitsModulators pending) : SameTail view front other l m := by
  refine ⟨bound, .mk [] pending, ⟨trivial, waiting⟩, ?_, ?_⟩
  · rw [left, Plan.behind, Plan.stages, Plan.pending, List.append_nil]
  · rw [right, Plan.behind, Plan.stages, Plan.pending, List.append_nil]

theorem add_emit {stages : List Stage} {pending : List Modulator}
    (plan : l.plan = .mk stages pending) (refuses : Plan.Refuses stages) :
    (l.add (.mk .emit []) []).plan = .mk stages (pending ++ [.mk (.mk .emit []) [] true]) := by
  rw [Live.add, plan]
  simp [Plan.add, refuses _, StepKind.isModulator, StepKind.isLoopModulator, Step.kind]

end Live

theorem Query.buildOn_alike {related : Live → Live → Prop} {q q' : Query}
    (alike : Alike (fun left right => Alike related (Script.performAll left.1 Live.onGraph)
      (Script.performAll right.1 Live.onGraph)) ((Cypher.queryOps q).run .empty)
        ((Cypher.queryOps q').run .empty)) :
    Alike related (q.buildOn Live.onGraph) (q'.buildOn Live.onGraph) := by
  unfold buildOn script
  generalize (Cypher.queryOps q).run .empty = left at alike
  generalize (Cypher.queryOps q').run .empty = right at alike
  cases alike with
  | error fault => exact .error _
  | @ok found found' performed =>
      obtain ⟨operations, after⟩ := found
      obtain ⟨operations', after'⟩ := found'
      dsimp only [bind, Except.bind, pure, Except.pure] at performed ⊢
      rw [Script.perform, Script.perform]
      generalize Script.performAll operations Live.onGraph = built at performed
      generalize Script.performAll operations' Live.onGraph = built' at performed
      cases performed with
      | ok same => exact .ok same
      | error fault => exact .error _

namespace Client

/-- A client whose graph has two vertices, and an edge from the first to the second. -/
def onOneEdge : Client := ⟨⟨.oneEdge, .zero⟩, .standard 10, .bytecode⟩

theorem run_eq (client : Client) {l m : Live} (same : l.EquivalentOn client.store.graph m) :
    client.run l = client.run m := by
  unfold run
  rw [same client.engine client.store rfl]

/-- Queries whose traversals have the same results and effects on the graph of a client have the
same outcome there, and leave the same client. -/
theorem submitStatement_eqOn (client : Client) {q q' : Query}
    (alike : Alike (Live.EquivalentOn client.store.graph) (q.buildOn Live.onGraph)
      (q'.buildOn Live.onGraph)) :
    client.submitStatement ⟨false, q⟩ = client.submitStatement ⟨false, q'⟩ := by
  simp only [submitStatement, Bool.false_eq_true, if_false]
  generalize q.buildOn Live.onGraph = left at alike
  generalize q'.buildOn Live.onGraph = right at alike
  cases alike with
  | ok same => exact run_eq (client.count Metrics.countCompilation) same
  | error fault => rfl

theorem submitStatement_eq (client : Client) {q q' : Query}
    (alike : Alike Live.Equivalent (q.buildOn Live.onGraph) (q'.buildOn Live.onGraph)) :
    client.submitStatement ⟨false, q⟩ = client.submitStatement ⟨false, q'⟩ :=
  client.submitStatement_eqOn (alike.imp fun _ _ same engine store _ => same engine store)

end Client

namespace Script

variable {view : View} {front other : List Stage} {l m : Live} {pending : List Modulator}

/-- Operations append the same behind any stages if the first of them makes a stage. -/
theorem performAll_standing (holding : front ≠ []) (holdingOther : other ≠ [])
    (same : Live.SameTail view front other l m) {op : Op Script} {rest : List (Op Script)}
    (stands : op.stands = true) (admitted : view.AdmitsOps (op :: rest)) :
    Alike (Live.SameTail view front other) (performAll (op :: rest) l)
      (performAll (op :: rest) m) := by
  obtain ⟨bound, tail, within, left, right⟩ := same
  have first := performOne_behind holding holdingOther bound left right within (.inr stands)
    admitted.1
  have whole := first.bind fun _ _ behind =>
    performAll_behind holding holdingOther behind admitted.2
  refine whole.imp ?_
  rintro l m ⟨equal, tail, _, within, leftPlan, rightPlan⟩
  exact ⟨equal, tail, within, leftPlan, rightPlan⟩

/-- Operations that do not begin with a modulator append the same behind any stages; so do an
emission and its loop, if neither of the stages takes the emission. -/
theorem performAll_same_tail (holding : front ≠ []) (holdingOther : other ≠ [])
    (bound : l.bound = m.bound) (left : l.plan = .mk front pending)
    (right : m.plan = .mk other pending) (waiting : view.AdmitsModulators pending)
    {emits : Bool} {operations : List (Op Script)} (opening : Op.Opening emits operations)
    (refuses : emits = true → Plan.Refuses front ∧ Plan.Refuses other)
    (admitted : view.AdmitsOps operations) :
    Alike (Live.SameTail view front other) (performAll operations l)
      (performAll operations m) := by
  cases emits with
  | false =>
      have same := Live.SameTail.of_pending bound left right waiting
      cases operations with
      | nil => exact .ok same
      | cons op rest =>
          exact performAll_standing holding holdingOther same (opening op rfl) admitted
  | true =>
      obtain ⟨loop, more, stands, rfl⟩ := opening
      obtain ⟨refusesFront, refusesOther⟩ := refuses rfl
      have emission : view.Admits .emit [] := View.admits_of_blind rfl _
      have same : Live.SameTail view front other (l.add (.mk .emit []) [])
          (m.add (.mk .emit []) []) :=
        .of_pending bound (Live.add_emit left refusesFront) (Live.add_emit right refusesOther)
          (View.admitsModulators_append.mpr ⟨waiting, ⟨emission, trivial⟩, trivial⟩)
      exact performAll_standing holding holdingOther same stands admitted.2

end Script

open Script

/-- A script with a place where a label may be given: something stands before it, no step looks the
label up, and no emission after it would go to a loop before it. -/
structure Labelling (x : String) where
  before : List (Op Script)
  after : List (Op Script)
  admitted : (View.without x).AdmitsOps (before ++ after)
  standing : ∃ op ∈ before, op.stands = true
  emits : Bool
  opening : Op.Opening emits after
  apart : emits = true → ∀ loop, before.foldl Op.endsInLoop loop = false

namespace Labelling

variable {x : String} (place : Labelling x)

def plain : List (Op Script) := place.before ++ place.after

def labelled : List (Op Script) := place.before ++ .labelled .as_ [x] :: place.after

theorem hides_label (engine : Engine) (front : List Stage) :
    Exec.Agree (Stream.Alike (View.without x)) (Plan.runStages engine front [])
      (Plan.runStages engine (front ++ [.bare .as_ [.label x]]) []) := by
  have hides (stream : Stream) : Stream.Alike (View.without x) stream
      (stream.map fun t => t.addLabel x) := by
    rw [Stream.Alike, List.forall₂_map_right_iff, List.forall₂_same]
    exact fun t _ => .hides t x
  have run : Exec.Agree (Stream.Alike (View.without x)) (Plan.runStages engine front [] >>= pure)
      (Plan.runStages engine front [] >>= Plan.runStages engine [.bare .as_ [.label x]]) :=
    .after _ fun stream => .pure (hides stream)
  rw [bind_pure] at run
  rwa [Plan.runStages_append]

theorem performs_alike : Alike Live.Equivalent (performAll place.plain Live.onGraph)
    (performAll place.labelled Live.onGraph) := by
  obtain ⟨inside, insideRest⟩ := View.admitsOps_append.mp place.admitted
  rw [plain, labelled, performAll_append, performAll_append]
  cases performed : performAll place.before Live.onGraph with
  | error fault => exact .error fault
  | ok l =>
      have within := performAll_within _ inside performed ⟨trivial, trivial⟩
      have filled := performAll_stages_ne_nil performed (.inr place.standing)
      have refuses (emits : place.emits = true) : Plan.Refuses l.plan.stages :=
        performAll_refuses performed (fun _ _ => rfl) (place.apart emits false)
      obtain ⟨bound, program, ⟨stages, pending⟩⟩ := l
      have refusesOther : Plan.Refuses (stages ++ [.bare .as_ [.label x]]) :=
        Plan.refuses_concat _ _ (by simp [Step.kind]) _ _
      have other : stages ++ [.bare .as_ [.label x]] ≠ [] :=
        List.append_ne_nil_of_right_ne_nil stages (List.cons_ne_nil _ _)
      have same := performAll_same_tail (l := ⟨bound, program, .mk stages pending⟩)
        (m := Live.add (.mk .as_ [.label x]) [] ⟨bound, program, .mk stages pending⟩) filled other
        rfl rfl rfl within.2 place.opening (fun emits => ⟨refuses emits, refusesOther⟩) insideRest
      exact same.imp fun _ _ tails => tails.equivalent fun engine _ => hides_label engine stages _

end Labelling

end PropertyGraph
