import PropertyGraph.Proofs.Builder.Parity
import PropertyGraph.Proofs.Builder.Stages

/-!
Programs that differ only in texts that stand for the same parameter, with its value in one set of
parameters and in another. Scripts agree if they make such programs of such programs; what agrees in
its parts agrees as a whole, and a script agrees with itself.
-/

namespace PropertyGraph

section Relations

variable (before after : Properties)

/-- Texts that one parameter stands for may differ, everything else is the same. -/
inductive Value.Corresponds : Value → Value → Prop
  | same (v : Value) : Corresponds v v
  | parameter {name s t : String} (earlier : Dictionary.get? name before = some (.string s))
      (later : Dictionary.get? name after = some (.string t)) : Corresponds (.string s) (.string t)
  | list {vs ws : List Value} (items : List.Forall₂ Corresponds vs ws) :
      Corresponds (.list vs) (.list ws)
  | record (keys : List String) {vs ws : List Value} (values : List.Forall₂ Corresponds vs ws) :
      Corresponds (.record (keys.zip vs)) (.record (keys.zip ws))

inductive Predicate.Corresponds : Predicate → Predicate → Prop
  | same (p : Predicate) : Corresponds p p
  | eq {v w : Value} (values : v.Corresponds before after w) : Corresponds (.eq v) (.eq w)
  | neq {v w : Value} (values : v.Corresponds before after w) : Corresponds (.neq v) (.neq w)
  | lt {v w : Value} (values : v.Corresponds before after w) : Corresponds (.lt v) (.lt w)
  | lte {v w : Value} (values : v.Corresponds before after w) : Corresponds (.lte v) (.lte w)
  | gt {v w : Value} (values : v.Corresponds before after w) : Corresponds (.gt v) (.gt w)
  | gte {v w : Value} (values : v.Corresponds before after w) : Corresponds (.gte v) (.gte w)
  | within {vs ws : List Value} (values : List.Forall₂ (Value.Corresponds before after) vs ws) :
      Corresponds (.within vs) (.within ws)
  | startingWith {s t : String} (texts : Value.Corresponds before after (.string s) (.string t)) :
      Corresponds (.startingWith s) (.startingWith t)
  | endingWith {s t : String} (texts : Value.Corresponds before after (.string s) (.string t)) :
      Corresponds (.endingWith s) (.endingWith t)
  | containing {s t : String} (texts : Value.Corresponds before after (.string s) (.string t)) :
      Corresponds (.containing s) (.containing t)

mutual

/-- Arguments that differ in corresponding values alone. -/
inductive Argument.Corresponds : Argument → Argument → Prop
  | same (a : Argument) : Argument.Corresponds a a
  | literal {v w : Value} (values : v.Corresponds before after w) :
      Argument.Corresponds (.literal v) (.literal w)
  | predicate {p q : Predicate} (predicates : p.Corresponds before after q) :
      Argument.Corresponds (.predicate p) (.predicate q)
  | program {steps others : List Step} (same : List.Forall₂ Step.Corresponds steps others) :
      Argument.Corresponds (.program steps) (.program others)

/-- Steps of one kind with as many arguments. -/
inductive Step.Corresponds : Step → Step → Prop
  | mk (kind : StepKind) {arguments others : List Argument}
      (same : List.Forall₂ Argument.Corresponds arguments others) :
      Step.Corresponds (.mk kind arguments) (.mk kind others)

end

abbrev Program.Corresponds : Program → Program → Prop :=
  List.Forall₂ (Step.Corresponds before after)

structure Recorder.Corresponds (r s : Recorder) : Prop where
  rooted : r.rooted = s.rooted
  program : Program.Corresponds before after r.program s.program

/-- Arguments that are ready. -/
def Slot.Corresponds (x y : Slot Recorder) : Prop :=
  (Recorder.argument x).Corresponds before after (Recorder.argument y)

/-- From corresponding builders the operations make corresponding ones, or fail alike. -/
def OpsAgree (ops others : List (Op Script)) : Prop :=
  ∀ r s : Recorder, r.Corresponds before after s →
    Alike (Recorder.Corresponds before after) (Script.performAll ops r) (Script.performAll others s)

def OpAgrees (op other : Op Script) : Prop :=
  ∀ r s : Recorder, r.Corresponds before after s →
    Alike (Recorder.Corresponds before after) (Script.performOne op r) (Script.performOne other s)

def ScriptAgrees (script other : Script) : Prop :=
  ∀ r s : Recorder, r.Corresponds before after s →
    Alike (Recorder.Corresponds before after) (script.perform r) (other.perform s)

def SlotAgrees (x y : Slot Script) : Prop :=
  Alike (Slot.Corresponds before after) (Script.resolveOne x) (Script.resolveOne y)

end Relations

variable {before after : Properties}

theorem Alike.pure {ε α β : Type} {related : α → β → Prop} {a : α} {b : β} (same : related a b) :
    Alike related (Pure.pure a : Except ε α) (Pure.pure b) :=
  .ok same

theorem Alike.map {ε α β γ δ : Type} {related : α → β → Prop} {relatedNext : γ → δ → Prop}
    {left : Except ε α} {right : Except ε β} {f : α → γ} {g : β → δ}
    (alike : Alike related left right) (keeps : ∀ a b, related a b → relatedNext (f a) (g b)) :
    Alike relatedNext (f <$> left) (g <$> right) := by
  cases alike with
  | ok same => exact .ok (keeps _ _ same)
  | error fault => exact .error fault

theorem Alike.refl {ε α : Type} {related : α → α → Prop} (same : ∀ a, related a a)
    (result : Except ε α) : Alike related result result := by
  cases result with
  | ok a => exact .ok (same a)
  | error fault => exact .error fault

/-- Neither a text nor made of values. -/
def Value.isScalar : Value → Bool
  | .null | .bool _ | .int _ | .float _ => true
  | _ => false

namespace Value.Corresponds

variable {v w : Value}

theorem isNull_eq (same : v.Corresponds before after w) : v.isNull = w.isNull := by
  cases same <;> rfl

theorem eq_of_scalar (same : v.Corresponds before after w) (scalar : v.isScalar = true) :
    w = v := by
  cases same with
  | same => rfl
  | parameter => cases scalar
  | list => cases scalar
  | record => cases scalar

theorem eq_of_scalar_later (same : v.Corresponds before after w) (scalar : w.isScalar = true) :
    v = w := by
  cases same with
  | same => rfl
  | parameter => cases scalar
  | list => cases scalar
  | record => cases scalar

end Value.Corresponds

theorem Argument.corresponds_refl (arguments : List Argument) :
    List.Forall₂ (Argument.Corresponds before after) arguments arguments :=
  List.forall₂_same.mpr fun a _ => .same a

theorem Step.corresponds_refl (step : Step) : step.Corresponds before after step := by
  cases step with
  | mk kind arguments => exact .mk kind (Argument.corresponds_refl arguments)

namespace Recorder

variable {r s : Recorder}

theorem floating_corresponds :
    Recorder.Corresponds before after Backend.floating Backend.floating :=
  ⟨rfl, .nil⟩

theorem add_corresponds (same : r.Corresponds before after s) {step other : Step}
    (steps : step.Corresponds before after other) :
    (add step r).Corresponds before after (add other s) :=
  ⟨same.rooted, List.rel_append same.program (.cons steps .nil)⟩

theorem edges_alike (same : r.Corresponds before after s) :
    Alike (Recorder.Corresponds before after) (Backend.edges r) (Backend.edges s) := by
  have empty : r.program.isEmpty = s.program.isEmpty := by
    have steps := same.program
    generalize r.program = first, s.program = second at steps
    cases steps <;> rfl
  change Alike _ (if r.rooted && r.program.isEmpty then _ else _)
    (if s.rooted && s.program.isEmpty then _ else _)
  rw [same.rooted, empty]
  split
  · exact .ok (add_corresponds same (.mk .e .nil))
  · exact .error _

theorem append_corresponds (same : r.Corresponds before after s) (kind : StepKind)
    {slots others : List (Slot Recorder)}
    (slotsSame : List.Forall₂ (Slot.Corresponds before after) slots others) :
    Recorder.Corresponds before after (Backend.append kind slots r)
      (Backend.append kind others s) := by
  refine add_corresponds same (.mk kind ?_)
  exact List.forall₂_map_left_iff.mpr (List.forall₂_map_right_iff.mpr slotsSame)

end Recorder

namespace Script

mutual

theorem perform_agrees : (script : Script) → ScriptAgrees before after script script
  | .of operations, _, _, same => performAll_agree operations _ _ same
termination_by structural script => script

theorem performAll_agree : (operations : List (Op Script)) →
    OpsAgree before after operations operations
  | [], _, _, same => .ok same
  | op :: rest, _, _, same =>
      (performOne_agrees op _ _ same).bind fun _ _ after => performAll_agree rest _ _ after
termination_by structural operations => operations

theorem performOne_agrees : (op : Op Script) → OpAgrees before after op op
  | .vertices, _, _, same => .ok (Recorder.add_corresponds same (Step.corresponds_refl _))
  | .edges, _, _, same => Recorder.edges_alike same
  | .addVertex _, _, _, same => .ok (Recorder.add_corresponds same (Step.corresponds_refl _))
  | .append kind slots _, _, _, same =>
      (resolve_agree slots).bind fun _ _ slotsSame =>
        .ok (Recorder.append_corresponds same kind slotsSame)
  | .nothing, _, _, same => .ok same
  | .refuse fault, _, _, _ => .error fault
termination_by structural op => op

theorem resolve_agree : (slots : List (Slot Script)) →
    Alike (List.Forall₂ (Slot.Corresponds before after)) (resolve slots) (resolve slots)
  | [] => .ok .nil
  | slot :: rest =>
      (resolveOne_agrees slot).bind fun _ _ first =>
        (resolve_agree rest).bind fun _ _ others => .ok (.cons first others)
termination_by structural slots => slots

theorem resolveOne_agrees : (slot : Slot Script) → SlotAgrees before after slot slot
  | .argument a _ => .ok (.same a)
  | .builder script =>
      (perform_agrees script _ _ Recorder.floating_corresponds).bind fun _ _ same =>
        .ok (.program same.program)
termination_by structural slot => slot

end

end Script

/-! What agrees in its parts agrees as a whole. -/

theorem ScriptAgrees.of {ops others : List (Op Script)} (agree : OpsAgree before after ops others) :
    ScriptAgrees before after (.of ops) (.of others) := agree

namespace SlotAgrees

theorem literal {v w : Value} (same : v.Corresponds before after w) :
    SlotAgrees before after (.literal v) (.literal w) :=
  .ok (.literal same)

theorem predicate {p q : Predicate} (same : p.Corresponds before after q) :
    SlotAgrees before after (.predicate p) (.predicate q) :=
  .ok (.predicate same)

theorem builder {script other : Script} (agree : ScriptAgrees before after script other) :
    SlotAgrees before after (.builder script) (.builder other) :=
  (agree _ _ Recorder.floating_corresponds).bind fun _ _ same => .ok (.program same.program)

end SlotAgrees

namespace OpAgrees

theorem append (kind : StepKind) {slots others : List (Slot Script)}
    (agree : List.Forall₂ (SlotAgrees before after) slots others) (inner : kind.isEntry = false) :
    OpAgrees before after (.append kind slots inner) (.append kind others inner) := by
  have resolved : Alike (List.Forall₂ (Slot.Corresponds before after))
      (Script.resolve slots) (Script.resolve others) := by
    induction agree with
    | nil => exact .ok .nil
    | cons slot _ ih =>
        exact slot.bind fun _ _ first => ih.bind fun _ _ rest => .pure (.cons first rest)
  intro r s same
  exact resolved.bind fun _ _ slotsSame => .ok (Recorder.append_corresponds same kind slotsSame)

theorem nested (kind : StepKind) {scripts others : List Script}
    (agree : List.Forall₂ (ScriptAgrees before after) scripts others)
    (inner : kind.isEntry = false) :
    OpAgrees before after (.nested kind scripts inner) (.nested kind others inner) :=
  append kind (List.forall₂_map_left_iff.mpr (List.forall₂_map_right_iff.mpr
    (agree.imp fun _ _ => .builder))) inner

theorem wrapped (kind : StepKind) {ops others : List (Op Script)}
    (agree : OpsAgree before after ops others) (inner : kind.isEntry = false) :
    OpAgrees before after (.nested kind [.of ops] inner) (.nested kind [.of others] inner) :=
  nested kind (.cons (.of agree) .nil) inner

theorem constant {v w : Value} (same : v.Corresponds before after w) :
    OpAgrees before after (.constant v) (.constant w) :=
  append _ (.cons (.literal same) .nil) _

theorem is_ {p q : Predicate} (same : p.Corresponds before after q) :
    OpAgrees before after (.is_ p) (.is_ q) :=
  append _ (.cons (.predicate same) .nil) _

theorem has (key : String) {p q : Predicate} (same : p.Corresponds before after q) :
    OpAgrees before after (.has key p) (.has key q) :=
  append _ (.cons (Script.resolveOne_agrees _) (.cons (.predicate same) .nil)) _

end OpAgrees

namespace OpsAgree

variable {ops others more moreOthers : List (Op Script)}

theorem refl (ops : List (Op Script)) : OpsAgree before after ops ops :=
  Script.performAll_agree ops

theorem cons {op other : Op Script} (first : OpAgrees before after op other)
    (rest : OpsAgree before after ops others) :
    OpsAgree before after (op :: ops) (other :: others) :=
  fun r s same => (first r s same).bind fun _ _ after => rest _ _ after

theorem one {op other : Op Script} (agree : OpAgrees before after op other) :
    OpsAgree before after [op] [other] :=
  cons agree (refl [])

theorem then_ (op : Op Script) (rest : OpsAgree before after ops others) :
    OpsAgree before after (op :: ops) (op :: others) :=
  cons (Script.performOne_agrees op) rest

theorem bys {scripts scripts' : List Script}
    (agree : List.Forall₂ (ScriptAgrees before after) scripts scripts') :
    OpsAgree before after (scripts.map fun script => .nested .by_ [script])
      (scripts'.map fun script => .nested .by_ [script]) := by
  induction agree with
  | nil => exact refl []
  | cons first _ ih => exact cons (.nested _ (.cons first .nil) _) ih

theorem append (first : OpsAgree before after ops others)
    (second : OpsAgree before after more moreOthers) :
    OpsAgree before after (ops ++ more) (others ++ moreOthers) := by
  intro r s same
  rw [Script.performAll_append, Script.performAll_append]
  exact (first r s same).bind second

end OpsAgree

end PropertyGraph
