import Mathlib.Data.List.Forall2
import Mathlib.Logic.Function.Basic
import Mathlib.Tactic.SplitIfs
import PropertyGraph.Builder.Backend
import PropertyGraph.Plan.Basic

/-!
The backends side by side. A recorder knows from its program whether it may still start at the
graph, a live builder from its plan; the two agree because every operation that is not refused
leaves both of them filled, loop modulators that only wait and calls without effect included.
-/

namespace PropertyGraph

/-- Two results that are the same fault, or are related. -/
inductive Alike {ε α β : Type} (related : α → β → Prop) : Except ε α → Except ε β → Prop
  | ok {a : α} {b : β} (same : related a b) : Alike related (.ok a) (.ok b)
  | error (fault : ε) : Alike related (.error fault) (.error fault)

theorem Alike.bind {ε α β γ δ : Type} {related : α → β → Prop} {relatedNext : γ → δ → Prop}
    {left : Except ε α} {right : Except ε β} {f : α → Except ε γ} {g : β → Except ε δ}
    (first : Alike related left right)
    (next : ∀ a b, related a b → Alike relatedNext (f a) (g b)) :
    Alike relatedNext (left >>= f) (right >>= g) := by
  cases first with
  | ok same => exact next _ _ same
  | error fault => exact .error fault

theorem Alike.imp {ε α β : Type} {related implied : α → β → Prop} {left : Except ε α}
    {right : Except ε β} (alike : Alike related left right)
    (implies : ∀ a b, related a b → implied a b) : Alike implied left right := by
  cases alike with
  | ok same => exact .ok (implies _ _ same)
  | error fault => exact .error fault

namespace Plan

theorem attach_nonempty (modulator : Modulator) (kind : StepKind) (stages attached : List Stage)
    (found : attach? modulator kind stages = some attached) : attached ≠ [] := by
  intro nothing
  subst nothing
  fun_induction attach? modulator kind stages <;> simp_all

theorem add_stage_nonempty (stage : Stage) (plan : Plan) :
    (plan.addStage stage).isEmpty = false := by
  cases plan
  simp [addStage, isEmpty, stages]

theorem add_nonempty (step : Step) (children : List Plan) (plan : Plan) :
    (plan.add step children).isEmpty = false := by
  obtain ⟨stages, pending⟩ := plan
  rw [add]
  split_ifs with modulator waits loop
  · split
    · next attached found =>
        have filled := attach_nonempty _ _ _ _ found
        simp [isEmpty, Plan.stages, filled]
    · simp [isEmpty, Plan.pending]
  · split
    · next attached found =>
        have filled := attach_nonempty _ _ _ _ found
        simp [isEmpty, Plan.stages, filled]
    · simp [isEmpty, Plan.stages]
  · simp [isEmpty, Plan.stages]
  · simp [isEmpty, Plan.stages]

end Plan

/-- A recorder and a live builder after the same calls. -/
structure Simulates (recorder : Recorder) (live : Live) : Prop where
  rooted : recorder.rooted = live.bound
  program : recorder.program = live.program
  fresh : live.plan.isEmpty = live.program.isEmpty

/-- Slots that hold the same argument, or related builders. -/
inductive SlotsRelated {σ τ : Type} (related : σ → τ → Prop) : Slot σ → Slot τ → Prop
  | argument (a : Argument) (flat : a.program? = none) :
      SlotsRelated related (.argument a flat) (.argument a flat)
  | builder {b : σ} {c : τ} (same : related b c) :
      SlotsRelated related (.builder b) (.builder c)

namespace Simulates

variable {recorder : Recorder} {live : Live}

theorem floating : Simulates Backend.floating Backend.floating := ⟨rfl, rfl, rfl⟩

theorem rooted_at_graph : Simulates .rootedAtGraph .onGraph := ⟨rfl, rfl, rfl⟩

theorem rooting (same : Simulates recorder live) :
    live.isRooting = (recorder.rooted && recorder.program.isEmpty) := by
  rw [Live.isRooting, same.fresh, same.rooted, same.program]

theorem add (same : Simulates recorder live) (step : Step) (children : List Plan) :
    Simulates (recorder.add step) (live.add step children) where
  rooted := same.rooted
  program := by rw [Recorder.add, Live.add, same.program]
  fresh := by simp [Live.add, Plan.add_nonempty]

theorem root (same : Simulates recorder live) (step : Step) (stage : Stage) :
    Simulates (recorder.add step) (live.root step stage) where
  rooted := same.rooted
  program := by rw [Recorder.add, Live.root, same.program]
  fresh := by simp [Live.root, Plan.add_stage_nonempty]

theorem vertices (same : Simulates recorder live) :
    Simulates (Backend.vertices recorder) (Backend.vertices live) := by
  change Simulates (recorder.add _) (if live.isRooting then _ else _)
  split_ifs
  · exact same.root _ _
  · exact same.add _ _

theorem addVertex (same : Simulates recorder live) (label : Option String) :
    Simulates (Backend.addVertex label recorder) (Backend.addVertex label live) := by
  change Simulates (recorder.add _) (if live.isRooting then _ else _)
  split_ifs
  · exact same.root _ _
  · exact same.add _ _

theorem edges (same : Simulates recorder live) :
    Alike Simulates (Backend.edges recorder) (Backend.edges live) := by
  change Alike Simulates (if recorder.rooted && recorder.program.isEmpty then _ else _)
    (if live.isRooting then _ else _)
  rw [same.rooting]
  split_ifs
  · exact .ok (same.root _ _)
  · exact .error _

theorem arguments {slots : List (Slot Recorder)} {liveSlots : List (Slot Live)}
    (agree : List.Forall₂ (SlotsRelated Simulates) slots liveSlots) :
    slots.map Recorder.argument = liveSlots.map Live.argument := by
  induction agree with
  | nil => rfl
  | cons head _ ih =>
      cases head with
      | argument a flat => simp [Recorder.argument, Live.argument, ih]
      | builder same => simp [Recorder.argument, Live.argument, ih, same.program]

theorem append (same : Simulates recorder live) (kind : StepKind)
    {slots : List (Slot Recorder)} {liveSlots : List (Slot Live)}
    (agree : List.Forall₂ (SlotsRelated Simulates) slots liveSlots) :
    Simulates (Backend.append kind slots recorder) (Backend.append kind liveSlots live) := by
  change Simulates (recorder.add (.mk kind (slots.map Recorder.argument)))
    (live.add (.mk kind (liveSlots.map Live.argument)) _)
  rw [arguments agree]
  exact same.add _ _

end Simulates

namespace Slot

def builder? {α : Type} : Slot α → Option α
  | .argument _ _ => none
  | .builder b => some b

end Slot

/-- Builders by number: number 0 is the one that was given, the others start as floating ones. -/
abbrev Registers (σ : Type) := Nat → σ

namespace Registers

variable {σ : Type} [Backend σ]

def holding (given : σ) : Registers σ
  | 0 => given
  | _ + 1 => Backend.floating

end Registers

/-- A call on a builder in a register; builders among its arguments are in registers too, that of
the receiver not excepted. `append` is what the operations are made of, with any kind of step. -/
inductive Call where
  | start (register : Nat)
  | perform (register : Nat) (op : Op Nat)
  | append (register : Nat) (kind : StepKind) (slots : List (Slot Nat))

namespace Call

variable {σ : Type} [Backend σ]

/-- What a call answers, and the builders after it. -/
def run (call : Call) (builders : Registers σ) : Option BuildFault × Registers σ :=
  match call with
  | .start n => (none, Function.update builders (n + 1) Backend.floating)
  | .perform n op =>
      match (op.map builders).perform (builders n) with
      | .ok built => (none, Function.update builders n built)
      | .error fault => (some fault, builders)
  | .append n kind slots =>
      (none, Function.update builders n
        (Backend.append kind (slots.map (Slot.map builders)) (builders n)))

/-- The answer to each call, with the builders after it. -/
def runAll : List Call → Registers σ → List (Option BuildFault × Registers σ)
  | [], _ => []
  | call :: rest, builders => call.run builders :: runAll rest (call.run builders).2

def after (calls : List Call) (builders : Registers σ) : Registers σ :=
  calls.foldl (fun builders call => (call.run builders).2) builders

end Call

/-- What can be seen after a call: its fault, if it was refused, and all programs. -/
structure Answer where
  fault? : Option BuildFault
  programs : Nat → Program

def Answer.of {σ : Type} (programOf : σ → Program) (seen : Option BuildFault × Registers σ) :
    Answer :=
  ⟨seen.1, fun n => programOf (seen.2 n)⟩

/-- Calls that are refused: `edges` unless it comes first on the given builder, which must be
rooted, and projections and selections of nothing. -/
def Call.refusal? (rooted : Bool) (programs : Nat → Program) : Call → Option BuildFault
  | .perform n .edges =>
      if rooted && n == 0 && (programs n).isEmpty then none else some .misplacedEdges
  | .perform _ (.refuse fault) => some fault
  | _ => none

/-- Answers that refuse what is to be refused, and then leave every program as it was. -/
def AnswersRightly (rooted : Bool) : (Nat → Program) → List Call → List Answer → Prop
  | _, [], answers => answers = []
  | before, call :: calls, answers => ∃ answer rest, answers = answer :: rest ∧
      answer.fault? = call.refusal? rooted before ∧
      (answer.fault? ≠ none → answer.programs = before) ∧
      AnswersRightly rooted answer.programs calls rest

/-- Builders of two kinds, register by register. -/
def RegistersRelated {σ τ : Type} (related : Nat → σ → τ → Prop) (builders : Registers σ)
    (others : Registers τ) : Prop :=
  ∀ n, related n (builders n) (others n)

namespace RegistersRelated

variable {σ τ : Type} {related : Nat → σ → τ → Prop} {builders : Registers σ}
  {others : Registers τ}

theorem holding [Backend σ] [Backend τ] {given : σ} {other : τ} (first : related 0 given other)
    (floating : ∀ n, related (n + 1) Backend.floating Backend.floating) :
    RegistersRelated related (.holding given) (.holding other) := by
  intro n
  cases n with
  | zero => exact first
  | succ n => exact floating n

theorem update (agree : RegistersRelated related builders others) (n : Nat) {b : σ} {c : τ}
    (same : related n b c) :
    RegistersRelated related (Function.update builders n b) (Function.update others n c) := by
  intro m
  by_cases here : m = n
  · subst here
    simpa using same
  · simpa [here] using agree m

theorem slots {relatedBuilders : σ → τ → Prop} (slots : List (Slot Nat))
    (agree : ∀ n ∈ slots.filterMap Slot.builder?, relatedBuilders (builders n) (others n)) :
    List.Forall₂ (SlotsRelated relatedBuilders) (slots.map (Slot.map builders))
      (slots.map (Slot.map others)) := by
  induction slots with
  | nil => exact .nil
  | cons slot rest ih =>
      cases slot with
      | argument a flat => exact .cons (.argument a flat) (ih agree)
      | builder n =>
          refine .cons (.builder (agree n ?_)) (ih fun m member => agree m ?_)
          · simp [Slot.builder?]
          · simp [Slot.builder?, member]

theorem run [Backend σ] [Backend τ] (agree : RegistersRelated related builders others)
    (floating : ∀ n, related (n + 1) Backend.floating Backend.floating) (call : Call)
    (performed : ∀ n op, call = .perform n op →
      Alike (related n) ((op.map builders).perform (builders n))
        ((op.map others).perform (others n)))
    (appended : ∀ n kind slots, call = .append n kind slots →
      related n (Backend.append kind (slots.map (Slot.map builders)) (builders n))
        (Backend.append kind (slots.map (Slot.map others)) (others n))) :
    (call.run builders).1 = (call.run others).1 ∧
      RegistersRelated related (call.run builders).2 (call.run others).2 := by
  cases call with
  | start n => exact ⟨rfl, agree.update _ (floating n)⟩
  | append n kind slots => exact ⟨rfl, agree.update _ (appended n kind slots rfl)⟩
  | perform n op =>
      have alike := performed n op rfl
      simp only [Call.run]
      generalize (op.map builders).perform (builders n) = recorded at alike
      generalize (op.map others).perform (others n) = built at alike
      cases alike with
      | ok same => exact ⟨rfl, agree.update _ same⟩
      | error fault => exact ⟨rfl, agree⟩

end RegistersRelated

/-- Registers of both backends after the same calls. -/
abbrev RegistersAgree (recorders : Registers Recorder) (lives : Registers Live) : Prop :=
  RegistersRelated (fun _ => Simulates) recorders lives

namespace RegistersAgree

variable {recorders : Registers Recorder} {lives : Registers Live}

/-- One operation on builders that agree: both carry it out, or both refuse it alike. -/
theorem perform (agree : RegistersAgree recorders lives) (op : Op Nat) (n : Nat) :
    Alike Simulates ((op.map recorders).perform (recorders n))
      ((op.map lives).perform (lives n)) := by
  cases op with
  | vertices => exact .ok (agree n).vertices
  | edges => exact (agree n).edges
  | addVertex label => exact .ok ((agree n).addVertex label)
  | append kind slots inner =>
      exact .ok ((agree n).append kind (RegistersRelated.slots slots fun m _ => agree m))
  | nothing => exact .ok (agree n)
  | refuse fault => exact .error fault

theorem run (agree : RegistersAgree recorders lives) (call : Call) :
    (call.run recorders).1 = (call.run lives).1 ∧
      RegistersAgree (call.run recorders).2 (call.run lives).2 := by
  refine RegistersRelated.run agree (fun _ => .floating) call ?_ ?_
  · intro n op _
    exact agree.perform op n
  · intro n kind slots _
    exact (agree n).append kind (RegistersRelated.slots slots fun m _ => agree m)

theorem programs (agree : RegistersAgree recorders lives) :
    (fun n => (recorders n).program) = fun n => (lives n).program :=
  funext fun n => (agree n).program

end RegistersAgree

namespace Recorder

/-- A builder without calls: rooted, or floating. -/
def starting (rooted : Bool) : Recorder := if rooted then .rootedAtGraph else Backend.floating

@[simp] theorem starting_rooted (rooted : Bool) : (starting rooted).rooted = rooted := by
  cases rooted <;> rfl

theorem perform_edges (recorder : Recorder) :
    Op.perform .edges recorder =
      if recorder.rooted && recorder.program.isEmpty then .ok (recorder.add (.mk .e []))
      else .error .misplacedEdges :=
  rfl

theorem perform_rooted {op : Op Recorder} {recorder built : Recorder}
    (performed : op.perform recorder = .ok built) : built.rooted = recorder.rooted := by
  cases op with
  | edges =>
      rw [perform_edges] at performed
      split_ifs at performed
      cases performed
      rfl
  | refuse fault => cases performed
  | _ =>
      cases performed
      rfl

/-- Only the builder in register 0 can start at the graph. -/
def OnlyFirstRooted (rooted : Bool) (recorders : Registers Recorder) : Prop :=
  ∀ n, (recorders n).rooted = (rooted && n == 0)

theorem only_first_rooted_holding (rooted : Bool) :
    OnlyFirstRooted rooted (.holding (starting rooted)) := by
  intro n
  cases n with
  | zero => simp [Registers.holding]
  | succ n =>
      simp only [Registers.holding]
      change false = _
      simp

theorem only_first_rooted_update {rooted : Bool} {recorders : Registers Recorder}
    (first : OnlyFirstRooted rooted recorders) (n : Nat) {built : Recorder}
    (kept : built.rooted = (recorders n).rooted) :
    OnlyFirstRooted rooted (Function.update recorders n built) := by
  intro m
  by_cases here : m = n
  · subst here
    simpa [kept] using first m
  · simpa [here] using first m

theorem only_first_rooted_run {rooted : Bool} {recorders : Registers Recorder}
    (first : OnlyFirstRooted rooted recorders) (call : Call) :
    OnlyFirstRooted rooted (call.run recorders).2 := by
  cases call with
  | start n =>
      refine only_first_rooted_update first (n + 1) ?_
      rw [first (n + 1)]
      change false = _
      simp
  | append n kind slots => exact only_first_rooted_update first n rfl
  | perform n op =>
      simp only [Call.run]
      split
      · next built performed => exact only_first_rooted_update first n (perform_rooted performed)
      · exact first

theorem refusal_eq {rooted : Bool} {recorders : Registers Recorder}
    (first : OnlyFirstRooted rooted recorders) (call : Call) :
    (call.run recorders).1 = call.refusal? rooted fun n => (recorders n).program := by
  cases call with
  | start n => rfl
  | append n kind slots => rfl
  | perform n op =>
      cases op with
      | edges =>
          simp only [Call.run, Call.refusal?, ← first n, Op.map, perform_edges]
          split_ifs <;> rfl
      | _ => rfl

theorem refused_unchanged (recorders : Registers Recorder) (call : Call)
    (refused : (call.run recorders).1 ≠ none) : (call.run recorders).2 = recorders := by
  cases call with
  | start n => exact absurd rfl refused
  | append n kind slots => exact absurd rfl refused
  | perform n op =>
      simp only [Call.run] at refused ⊢
      split at refused
      · exact absurd rfl refused
      · next fault performed => rfl

theorem answers_rightly {rooted : Bool} (calls : List Call) (recorders : Registers Recorder)
    (first : OnlyFirstRooted rooted recorders) :
    AnswersRightly rooted (fun n => (recorders n).program) calls
      ((Call.runAll calls recorders).map (Answer.of program)) := by
  induction calls generalizing recorders with
  | nil => rfl
  | cons call rest ih =>
      refine ⟨_, _, rfl, refusal_eq first call, ?_, ih _ (only_first_rooted_run first call)⟩
      intro refused
      simp only [Answer.of, refused_unchanged recorders call refused]

end Recorder

def Live.starting (rooted : Bool) : Live := if rooted then .onGraph else Backend.floating

theorem Simulates.starting (rooted : Bool) : Simulates (.starting rooted) (.starting rooted) := by
  cases rooted with
  | false => exact .floating
  | true => exact .rooted_at_graph

theorem RegistersAgree.answers {recorders : Registers Recorder} {lives : Registers Live}
    (agree : RegistersAgree recorders lives) (calls : List Call) :
    (Call.runAll calls recorders).map (Answer.of Recorder.program) =
      (Call.runAll calls lives).map (Answer.of Live.program) := by
  induction calls generalizing recorders lives with
  | nil => rfl
  | cons call rest ih =>
      obtain ⟨sameFault, agreeAfter⟩ := agree.run call
      simp only [Call.runAll, List.map_cons, ih agreeAfter]
      simp only [Answer.of, sameFault, agreeAfter.programs]

/-- Builders of both backends that start alike answer every call alike and hold the same programs
after it; a call that is refused changes no program. -/
theorem backends_answer_alike (rooted : Bool) (calls : List Call) :
    ∃ answers,
      (Call.runAll calls (.holding (Recorder.starting rooted))).map
        (Answer.of Recorder.program) = answers ∧
      (Call.runAll calls (.holding (Live.starting rooted))).map
        (Answer.of Live.program) = answers ∧
      AnswersRightly rooted (fun _ => []) calls answers := by
  have agree : RegistersAgree (.holding (.starting rooted)) (.holding (.starting rooted)) :=
    .holding (.starting rooted) fun _ => .floating
  have rightly := Recorder.answers_rightly calls _ (Recorder.only_first_rooted_holding rooted)
  have empty : (fun n => (Registers.holding (Recorder.starting rooted) n).program) =
      fun _ => [] := by
    funext n
    cases n <;> cases rooted <;> rfl
  rw [empty] at rightly
  exact ⟨_, rfl, (agree.answers calls).symm, rightly⟩

end PropertyGraph
