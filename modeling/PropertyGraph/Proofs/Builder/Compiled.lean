import PropertyGraph.Proofs.Builder.Parity

/-!
A live builder holds the plan that its own program compiles to, as long as the builders among its
arguments are floating ones. Builder and compiler decide where to start at the graph and where a
modulator goes from the same plan, so it is enough to follow one step at a time.
-/

namespace PropertyGraph

namespace Plan

theorem extend_append (bound : Bool) (first second : List Step) (plan : Plan) :
    extend bound (first ++ second) plan = extend bound first plan >>= extend bound second := by
  induction first generalizing plan with
  | nil => rfl
  | cons step rest ih =>
      simp only [List.cons_append, extend]
      cases extendOne (bound && plan.isEmpty) step plan with
      | error fault => rfl
      | ok next => exact ih next

end Plan

namespace Live

/-- The plan is what the program compiles to. -/
def IsCompiled (l : Live) : Prop := Plan.ofProgram? l.bound l.program = .ok l.plan

namespace IsCompiled

variable {l : Live}

theorem starting (bound : Bool) : IsCompiled ⟨bound, [], .empty⟩ := rfl

theorem extend (compiled : l.IsCompiled) {step : Step} {plan : Plan}
    (extended : Plan.extendOne l.isRooting step l.plan = .ok plan) :
    IsCompiled ⟨l.bound, l.program ++ [step], plan⟩ := by
  change Plan.extend l.bound (l.program ++ [step]) .empty = .ok plan
  have before : Plan.extend l.bound l.program .empty = .ok l.plan := compiled
  rw [Plan.extend_append, before]
  change (Plan.extendOne l.isRooting step l.plan).bind _ = _
  rw [extended]
  rfl

theorem vertices (compiled : l.IsCompiled) : (Backend.vertices l).IsCompiled := by
  change IsCompiled (if l.isRooting then _ else _)
  split_ifs with rooting
  · refine compiled.extend ?_
    rw [rooting]
    rfl
  · refine compiled.extend ?_
    rw [Bool.eq_false_iff.mpr rooting]
    rfl

theorem addVertex (compiled : l.IsCompiled) (label : Option String) :
    (Backend.addVertex label l).IsCompiled := by
  change IsCompiled (if l.isRooting then _ else _)
  split_ifs with rooting
  · refine compiled.extend ?_
    rw [rooting]
    cases label <;> rfl
  · refine compiled.extend ?_
    rw [Bool.eq_false_iff.mpr rooting]
    cases label <;> rfl

theorem edges (compiled : l.IsCompiled) {built : Live}
    (performed : Backend.edges l = .ok built) : built.IsCompiled := by
  change (if l.isRooting then _ else _) = _ at performed
  split_ifs at performed with rooting
  cases performed
  refine compiled.extend ?_
  rw [rooting]
  rfl

theorem children (slots : List (Slot Live))
    (floating : ∀ sub ∈ slots.filterMap Slot.builder?, sub.IsCompiled ∧ sub.bound = false) :
    Plan.childrenOf (slots.map argument) = .ok (slots.filterMap child?) := by
  induction slots with
  | nil => rfl
  | cons slot rest ih =>
      cases slot with
      | argument a flat =>
          have others := ih floating
          cases a with
          | program steps => cases flat
          | _ =>
              simp only [List.map_cons, argument, Plan.childrenOf, Plan.childOf, others]
              rfl
      | builder sub =>
          obtain ⟨compiled, unbound⟩ := floating sub (by simp [Slot.builder?])
          have others := ih fun other member => floating other (by simp [Slot.builder?, member])
          have own : Plan.extend false sub.program .empty = .ok sub.plan := by
            rw [← unbound]
            exact compiled
          simp only [List.map_cons, argument, Plan.childrenOf, Plan.childOf, own, others]
          rfl

theorem append (compiled : l.IsCompiled) {kind : StepKind} (inner : kind.isEntry = false)
    (slots : List (Slot Live))
    (floating : ∀ sub ∈ slots.filterMap Slot.builder?, sub.IsCompiled ∧ sub.bound = false) :
    (Backend.append kind slots l).IsCompiled := by
  refine compiled.extend ?_
  have found := children slots floating
  cases kind with
  | v | e | addV => cases inner
  | _ => simp [Plan.extendOne, found, bind, Except.bind, pure, Except.pure]

end IsCompiled

end Live

/-- A recorder and a live builder after the same calls, with a plan that fits the program. -/
structure Faithful (rooted : Bool) (recorder : Recorder) (live : Live) : Prop where
  simulates : Simulates recorder live
  compiled : live.IsCompiled
  bound : live.bound = rooted

namespace Faithful

variable {rooted : Bool} {recorder : Recorder} {live : Live}

theorem floating : Faithful false Backend.floating Backend.floating :=
  ⟨.floating, .starting false, rfl⟩

theorem starting (rooted : Bool) : Faithful rooted (.starting rooted) (.starting rooted) := by
  cases rooted with
  | false => exact .floating
  | true => exact ⟨.rooted_at_graph, .starting true, rfl⟩

theorem vertices (same : Faithful rooted recorder live) :
    Faithful rooted (Backend.vertices recorder) (Backend.vertices live) where
  simulates := same.simulates.vertices
  compiled := same.compiled.vertices
  bound := by
    rw [← same.simulates.vertices.rooted]
    exact same.simulates.rooted.trans same.bound

theorem addVertex (same : Faithful rooted recorder live) (label : Option String) :
    Faithful rooted (Backend.addVertex label recorder) (Backend.addVertex label live) where
  simulates := same.simulates.addVertex label
  compiled := same.compiled.addVertex label
  bound := by
    rw [← (same.simulates.addVertex label).rooted]
    exact same.simulates.rooted.trans same.bound

theorem edges (same : Faithful rooted recorder live) :
    Alike (Faithful rooted) (Backend.edges recorder) (Backend.edges live) := by
  have alike := same.simulates.edges
  have kept := @Recorder.perform_rooted .edges recorder
  have compiled := fun built => @Live.IsCompiled.edges live same.compiled built
  change ∀ {built}, Backend.edges recorder = .ok built → _ at kept
  generalize Backend.edges recorder = recorded at alike kept
  generalize Backend.edges live = built at alike compiled
  cases alike with
  | ok after =>
      refine .ok ⟨after, compiled _ rfl, ?_⟩
      rw [← after.rooted, kept rfl]
      exact same.simulates.rooted.trans same.bound
  | error fault => exact .error fault

theorem slots {slots : List (Slot Recorder)} {liveSlots : List (Slot Live)}
    (agree : List.Forall₂ (SlotsRelated (Faithful false)) slots liveSlots) :
    List.Forall₂ (SlotsRelated Simulates) slots liveSlots :=
  agree.imp fun _ _ related => by
    cases related with
    | argument a flat => exact .argument a flat
    | builder same => exact .builder same.simulates

theorem liveSlots {slots : List (Slot Recorder)} {liveSlots : List (Slot Live)}
    (agree : List.Forall₂ (SlotsRelated (Faithful false)) slots liveSlots) :
    ∀ sub ∈ liveSlots.filterMap Slot.builder?, sub.IsCompiled ∧ sub.bound = false := by
  induction agree with
  | nil => simp
  | cons related _ ih =>
      cases related with
      | argument a flat => exact ih
      | builder same =>
          intro sub member
          rcases List.mem_cons.mp member with here | there
          · subst here
            exact ⟨same.compiled, same.bound⟩
          · exact ih sub there

theorem append (same : Faithful rooted recorder live) {kind : StepKind}
    (inner : kind.isEntry = false) {slots : List (Slot Recorder)} {liveSlots : List (Slot Live)}
    (agree : List.Forall₂ (SlotsRelated (Faithful false)) slots liveSlots) :
    Faithful rooted (Backend.append kind slots recorder) (Backend.append kind liveSlots live) where
  simulates := same.simulates.append kind (Faithful.slots agree)
  compiled := same.compiled.append inner liveSlots (Faithful.liveSlots agree)
  bound := same.bound

end Faithful

/-! Scripts: every builder among the arguments is carried out on a floating builder. -/

namespace Script

mutual

theorem perform_faithful {rooted : Bool} : (script : Script) → {recorder : Recorder} →
    {live : Live} → Faithful rooted recorder live →
    Alike (Faithful rooted) (script.perform recorder) (script.perform live)
  | .of operations, _, _, same => performAll_faithful operations same
termination_by structural script => script

theorem performAll_faithful {rooted : Bool} : (operations : List (Op Script)) →
    {recorder : Recorder} → {live : Live} → Faithful rooted recorder live →
    Alike (Faithful rooted) (performAll operations recorder) (performAll operations live)
  | [], _, _, same => .ok same
  | op :: rest, _, _, same =>
      (performOne_faithful op same).bind fun _ _ after => performAll_faithful rest after
termination_by structural operations => operations

theorem performOne_faithful {rooted : Bool} : (op : Op Script) → {recorder : Recorder} →
    {live : Live} → Faithful rooted recorder live →
    Alike (Faithful rooted) (performOne op recorder) (performOne op live)
  | .vertices, _, _, same => .ok same.vertices
  | .edges, _, _, same => same.edges
  | .addVertex label, _, _, same => .ok (same.addVertex label)
  | .append _ slots inner, _, _, same =>
      (resolve_faithful slots).bind fun _ _ agree => .ok (same.append inner agree)
  | .nothing, _, _, same => .ok same
  | .refuse fault, _, _, _ => .error fault
termination_by structural op => op

theorem resolve_faithful : (slots : List (Slot Script)) →
    Alike (List.Forall₂ (SlotsRelated (Faithful false)))
      (resolve slots : Except BuildFault (List (Slot Recorder)))
      (resolve slots : Except BuildFault (List (Slot Live)))
  | [] => .ok .nil
  | slot :: rest =>
      (resolveOne_faithful slot).bind fun _ _ first =>
        (resolve_faithful rest).bind fun _ _ others => .ok (.cons first others)
termination_by structural slots => slots

theorem resolveOne_faithful : (slot : Slot Script) →
    Alike (SlotsRelated (Faithful false)) (resolveOne slot : Except BuildFault (Slot Recorder))
      (resolveOne slot : Except BuildFault (Slot Live))
  | .argument a flat => .ok (.argument a flat)
  | .builder script =>
      (perform_faithful script .floating).bind fun _ _ same => .ok (.builder same)
termination_by structural slot => slot

end

end Script

/-! Calls on registers. -/

/-- The builders that an operation takes as arguments. -/
def Op.builders {α : Type} : Op α → List α
  | .append _ slots _ => slots.filterMap Slot.builder?
  | _ => []

/-- Only builders that were started as floating ones are arguments, and the graph is entered by the
operations that are there for it. -/
def Call.IsRegular : Call → Prop
  | .start _ => True
  | .perform _ op => 0 ∉ op.builders
  | .append _ kind slots => kind.isEntry = false ∧ 0 ∉ slots.filterMap Slot.builder?

/-- The builder in register 0 is rooted or not, the others are floating. -/
abbrev RegistersFaithful (rooted : Bool) (recorders : Registers Recorder)
    (lives : Registers Live) : Prop :=
  RegistersRelated (fun n => Faithful (rooted && n == 0)) recorders lives

namespace RegistersFaithful

variable {rooted : Bool} {recorders : Registers Recorder} {lives : Registers Live}

theorem starting (rooted : Bool) :
    RegistersFaithful rooted (.holding (.starting rooted)) (.holding (.starting rooted)) := by
  refine .holding ?_ fun n => ?_
  · simpa using Faithful.starting rooted
  · simpa using Faithful.floating

theorem slots (agree : RegistersFaithful rooted recorders lives) {slots : List (Slot Nat)}
    (regular : 0 ∉ slots.filterMap Slot.builder?) :
    List.Forall₂ (SlotsRelated (Faithful false)) (slots.map (Slot.map recorders))
      (slots.map (Slot.map lives)) := by
  refine RegistersRelated.slots slots fun n member => ?_
  have started : n ≠ 0 := fun zero => regular (zero ▸ member)
  have same : Faithful (rooted && n == 0) (recorders n) (lives n) := agree n
  rwa [beq_false_of_ne started, Bool.and_false] at same

theorem perform (agree : RegistersFaithful rooted recorders lives) (op : Op Nat) (n : Nat)
    (regular : 0 ∉ op.builders) :
    Alike (Faithful (rooted && n == 0)) ((op.map recorders).perform (recorders n))
      ((op.map lives).perform (lives n)) := by
  cases op with
  | vertices => exact .ok (agree n).vertices
  | edges => exact (agree n).edges
  | addVertex label => exact .ok ((agree n).addVertex label)
  | append kind slots inner => exact .ok ((agree n).append inner (agree.slots regular))
  | nothing => exact .ok (agree n)
  | refuse fault => exact .error fault

theorem run (agree : RegistersFaithful rooted recorders lives) {call : Call}
    (regular : call.IsRegular) :
    RegistersFaithful rooted (call.run recorders).2 (call.run lives).2 := by
  refine (RegistersRelated.run agree (fun n => ?_) call ?_ ?_).2
  · simpa using Faithful.floating
  · intro n op isPerform
    subst isPerform
    exact agree.perform op n regular
  · intro n kind slots isAppend
    subst isAppend
    exact (agree n).append regular.1 (agree.slots regular.2)

theorem after (agree : RegistersFaithful rooted recorders lives) {calls : List Call}
    (regular : ∀ call ∈ calls, call.IsRegular) :
    RegistersFaithful rooted (Call.after calls recorders) (Call.after calls lives) := by
  induction calls generalizing recorders lives with
  | nil => exact agree
  | cons call rest ih =>
      have step := agree.run (regular call (by simp))
      exact ih step fun other member => regular other (by simp [member])

end RegistersFaithful

end PropertyGraph
