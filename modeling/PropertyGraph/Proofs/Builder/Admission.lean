import PropertyGraph.Proofs.Builder.Stages
import PropertyGraph.Proofs.Run.Respect

/-!
Operations that look at nothing outside a view make plans that look at nothing outside it.
-/

namespace PropertyGraph

open Script

variable {view : View}

/-- Steps that look at more than the object, or label it. -/
def StepKind.looksBack : StepKind → Bool
  | .select | .dedup | .where_ | .from_ | .to_ | .as_ | .path | .simplePath | .math => true
  | _ => false

namespace View

mutual

/-- What a script tells a builder to append is within the view. -/
def AdmitsScript (view : View) : Script → Prop
  | .of operations => view.AdmitsOps operations

def AdmitsOps (view : View) : List (Op Script) → Prop
  | [] => True
  | op :: rest => view.AdmitsOp op ∧ view.AdmitsOps rest

def AdmitsOp (view : View) : Op Script → Prop
  | .append kind slots _ => view.AdmitsKind kind ∧ view.AdmitsSlots kind slots
  | .vertices | .edges | .addVertex _ | .nothing | .refuse _ => True

def AdmitsSlots (view : View) (kind : StepKind) : List (Slot Script) → Prop
  | [] => True
  | slot :: rest => view.AdmitsSlot kind slot ∧ view.AdmitsSlots kind rest

def AdmitsSlot (view : View) (kind : StepKind) : Slot Script → Prop
  | .argument a _ => view.AdmitsArgument kind a
  | .builder script => view.AdmitsScript script

end

@[simp] theorem admitsOps_append {first second : List (Op Script)} :
    view.AdmitsOps (first ++ second) ↔ view.AdmitsOps first ∧ view.AdmitsOps second := by
  induction first with
  | nil => simp [AdmitsOps]
  | cons op rest ih => simp [AdmitsOps, ih, and_assoc]

theorem admitsOps_iff {operations : List (Op Script)} :
    view.AdmitsOps operations ↔ ∀ op ∈ operations, view.AdmitsOp op := by
  induction operations with
  | nil => simp [AdmitsOps]
  | cons op rest ih => simp [AdmitsOps, ih]

theorem admitsSlots_iff {kind : StepKind} {slots : List (Slot Script)} :
    view.AdmitsSlots kind slots ↔ ∀ slot ∈ slots, view.AdmitsSlot kind slot := by
  induction slots with
  | nil => simp [AdmitsSlots]
  | cons slot rest ih => simp [AdmitsSlots, ih]

theorem admitsStages_append {first second : List Stage} :
    view.AdmitsStages (first ++ second) ↔
      view.AdmitsStages first ∧ view.AdmitsStages second := by
  induction first with
  | nil => simp [AdmitsStages]
  | cons stage rest ih => simp [AdmitsStages, ih, and_assoc]

theorem admitsPlans_append {first second : List Plan} :
    view.AdmitsPlans (first ++ second) ↔ view.AdmitsPlans first ∧ view.AdmitsPlans second := by
  induction first with
  | nil => simp [AdmitsPlans]
  | cons plan rest ih => simp [AdmitsPlans, ih, and_assoc]

theorem admitsModulators_append {first second : List Modulator} :
    view.AdmitsModulators (first ++ second) ↔
      view.AdmitsModulators first ∧ view.AdmitsModulators second := by
  induction first with
  | nil => simp [AdmitsModulators]
  | cons modulator rest ih => simp [AdmitsModulators, ih, and_assoc]

/-- A step that looks at the object alone may be given any arguments. -/
theorem admitsArgument_of_blind {kind : StepKind} (blind : kind.looksBack = false) (a : Argument) :
    view.AdmitsArgument kind a := by
  unfold AdmitsArgument
  split
  · constructor
    · intro looks
      cases kind <;> simp [StepKind.looksBack, StepKind.looksUp] at blind looks
    · rintro rfl
      cases blind
  · intro looks
    cases kind <;> simp [StepKind.looksBack, StepKind.looksUp] at blind looks
  · intro looks
    cases kind <;> simp [StepKind.looksBack, StepKind.looksUp] at blind looks
  · trivial

theorem admitsKind_of_blind {kind : StepKind} (blind : kind.looksBack = false) :
    view.AdmitsKind kind := by
  cases kind <;> trivial

theorem admits_of_blind {kind : StepKind} (blind : kind.looksBack = false)
    (arguments : List Argument) : view.Admits kind arguments :=
  ⟨admitsKind_of_blind blind, fun a _ => admitsArgument_of_blind blind a⟩

/-! What a plan is made of stays within the view while it grows. -/

theorem attached {modulator : Modulator} (admitted : view.AdmitsModulator modulator)
    {kind : StepKind} {stages found : List Stage}
    (attaches : Plan.attach? modulator kind stages = some found)
    (before : view.AdmitsStages stages) : view.AdmitsStages found := by
  fun_induction Plan.attach? modulator kind stages generalizing found with
  | case1 => cases attaches
  | case2 step children modulators takes =>
      cases attaches
      obtain ⟨⟨own, inside, modulated⟩, _⟩ := before
      refine ⟨⟨own, inside, ?_⟩, trivial⟩
      exact admitsModulators_append.mpr ⟨modulated, admitted, trivial⟩
  | case3 => cases attaches
  | case4 stage rest _ ih =>
      obtain ⟨others, attachesRest, rfl⟩ := Option.map_eq_some_iff.mp attaches
      exact ⟨before.1, ih attachesRest before.2⟩

theorem rooted {stage : Stage} {plan : Plan} (admitted : view.AdmitsStage stage)
    (before : view.AdmitsPlan plan) : view.AdmitsPlan (plan.addStage stage) := by
  obtain ⟨stages, pending⟩ := plan
  exact ⟨admitsStages_append.mpr ⟨before.1, admitted, trivial⟩, before.2⟩

theorem added {step : Step} {children : List Plan} {plan : Plan}
    (admitted : view.Admits step.kind step.arguments) (inside : view.AdmitsPlans children)
    (before : view.AdmitsPlan plan) : view.AdmitsPlan (plan.add step children) := by
  obtain ⟨stages, pending⟩ := plan
  obtain ⟨staged, waiting⟩ := before
  have alone (modulators : List Modulator) (modulated : view.AdmitsModulators modulators) :
      view.AdmitsStages (stages ++ [.apply step children modulators]) :=
    admitsStages_append.mpr ⟨staged, ⟨admitted, inside, modulated⟩, trivial⟩
  unfold Plan.add
  dsimp only
  split
  · split
    · next found attaches =>
        have modulator : view.AdmitsModulator (.mk step children false) := ⟨admitted, inside⟩
        exact ⟨attached modulator attaches staged, waiting⟩
    · split
      · have modulator : view.AdmitsModulator (.mk step children true) := ⟨admitted, inside⟩
        exact ⟨staged, admitsModulators_append.mpr ⟨waiting, modulator, trivial⟩⟩
      · exact ⟨alone [] trivial, waiting⟩
  · split
    · exact ⟨alone pending waiting, trivial⟩
    · exact ⟨alone [] trivial, waiting⟩

section

variable {kind : StepKind} {inner : kind.isEntry = false}

theorem admitsOp_iff {slots : List (Slot Script)} :
    view.AdmitsOp (.append kind slots inner) ↔
      view.AdmitsKind kind ∧ ∀ slot ∈ slots, view.AdmitsSlot kind slot := by
  rw [AdmitsOp, admitsSlots_iff]

/-- Only what is inside a step that looks at the object alone can be outside the view. -/
theorem admitsOp_of_blind (blind : kind.looksBack = false) {slots : List (Slot Script)}
    (inside : ∀ script, .builder script ∈ slots → view.AdmitsScript script) :
    view.AdmitsOp (.append kind slots inner) := by
  refine admitsOp_iff.mpr ⟨admitsKind_of_blind blind, fun slot member => ?_⟩
  cases slot with
  | argument a flat => exact admitsArgument_of_blind blind a
  | builder script => exact inside script member

theorem admitsOp_nested {scripts : List Script} (suits : view.AdmitsKind kind)
    (inside : ∀ script ∈ scripts, view.AdmitsScript script) :
    view.AdmitsOp (.nested kind scripts inner) := by
  refine admitsOp_iff.mpr ⟨suits, fun slot member => ?_⟩
  obtain ⟨script, given, rfl⟩ := List.mem_map.mp member
  exact inside script given

theorem admitsOp_labelled {labels : List String} (suits : view.AdmitsKind kind)
    (given : ∀ label ∈ labels, view.AdmitsArgument kind (.label label)) :
    view.AdmitsOp (.labelled kind labels inner) := by
  refine admitsOp_iff.mpr ⟨suits, fun slot member => ?_⟩
  obtain ⟨label, listed, rfl⟩ := List.mem_map.mp member
  exact given label listed

theorem admitsOp_flat (blind : kind.looksBack = false) {slots : List (Slot Script)}
    (flat : ∀ script, .builder script ∉ slots) : view.AdmitsOp (.append kind slots inner) :=
  admitsOp_of_blind blind fun script member => absurd member (flat script)

theorem admitsOp_bare (blind : kind.looksBack = false) : view.AdmitsOp (.append kind [] inner) :=
  admitsOp_flat blind fun _ => List.not_mem_nil

theorem admitsOp_blind (blind : kind.looksBack = false) (labels : List String) :
    view.AdmitsOp (.labelled kind labels inner) :=
  admitsOp_labelled (admitsKind_of_blind blind) fun _ _ => admitsArgument_of_blind blind _

end

@[simp] theorem admitsOp_constant (v : Value) : view.AdmitsOp (.constant v) :=
  admitsOp_flat rfl (by simp [Slot.literal])

@[simp] theorem admitsOp_is (p : Predicate) : view.AdmitsOp (.is_ p) :=
  admitsOp_flat rfl (by simp [Slot.predicate])

@[simp] theorem admitsOp_apply (f : Function) : view.AdmitsOp (.apply f) :=
  admitsOp_flat rfl (by simp [Slot.function])

@[simp] theorem admitsOp_limit (n : Int64) : view.AdmitsOp (.limit n) :=
  admitsOp_flat rfl (by simp [Slot.literal])

@[simp] theorem admitsOp_times (n : Nat) : view.AdmitsOp (.times n) :=
  admitsOp_flat rfl (by simp [Slot.literal])

@[simp] theorem admitsOp_has (key : String) (p : Predicate) : view.AdmitsOp (.has key p) :=
  admitsOp_flat rfl (by simp [Slot.label, Slot.predicate])

theorem admitsOp_select {keys : List String} (reads : ∀ key ∈ keys, view.reads key) :
    view.AdmitsOp (.select keys) := by
  unfold Op.select
  split
  · trivial
  · exact admitsOp_labelled trivial fun key member =>
      ⟨fun _ => reads key member, fun never => by cases never⟩

theorem admitsOp_selectLabel (pop : Pop) {name : String} (reads : view.reads name) :
    view.AdmitsOp (.selectLabel pop name) :=
  ⟨trivial, trivial, ⟨fun _ => reads, nofun⟩, trivial⟩

@[simp] theorem admitsOp_selectColumn (column : Column) :
    view.AdmitsOp (.selectColumn column) := ⟨trivial, trivial, trivial⟩

@[simp] theorem admitsOp_project (keys : List String) : view.AdmitsOp (.project keys) := by
  unfold Op.project
  split
  · trivial
  · exact admitsOp_blind rfl keys

@[simp] theorem admitsOp_hasLabel (labels : List String) : view.AdmitsOp (.hasLabel labels) := by
  unfold Op.hasLabel
  split
  · trivial
  · exact admitsOp_blind rfl labels

theorem admitsOp_byOrder {key : Script} (inside : view.AdmitsScript key) (order : SortOrder) :
    view.AdmitsOp (.byOrder key order) := ⟨trivial, inside, trivial, trivial⟩

end View

namespace Script

/-- What slots are resolved to is within the view. -/
def ResolvedWithin (view : View) (kind : StepKind) (found : List (Slot Live)) : Prop :=
  (∀ a ∈ found.map Live.argument, view.AdmitsArgument kind a) ∧
    view.AdmitsPlans (found.filterMap Live.child?)

mutual

theorem perform_within : (script : Script) → view.AdmitsScript script → {l built : Live} →
    script.perform l = .ok built → view.AdmitsPlan l.plan → view.AdmitsPlan built.plan
  | .of operations, admitted, _, _, performed, before =>
      performAll_within operations admitted performed before

theorem performAll_within : (operations : List (Op Script)) → view.AdmitsOps operations →
    {l built : Live} → performAll operations l = .ok built → view.AdmitsPlan l.plan →
      view.AdmitsPlan built.plan
  | [], _, _, _, performed, before => by
      cases performed
      exact before
  | op :: rest, admitted, _, _, performed, before => by
      rw [performAll, bind_eq_ok] at performed
      obtain ⟨next, first, others⟩ := performed
      exact performAll_within rest admitted.2 others
        (performOne_within op admitted.1 first before)

theorem performOne_within : (op : Op Script) → view.AdmitsOp op → {l built : Live} →
    performOne op l = .ok built → view.AdmitsPlan l.plan → view.AdmitsPlan built.plan
  | .vertices, _, l, built, performed, before => by
      cases performed
      change view.AdmitsPlan (if l.isRooting then _ else _ : Live).plan
      split
      · exact View.rooted trivial before
      · exact View.added (View.admits_of_blind rfl _) trivial before
  | .edges, _, l, built, performed, before => by
      change (if l.isRooting then _ else _) = _ at performed
      split at performed
      · cases performed
        exact View.rooted trivial before
      · cases performed
  | .addVertex label, _, l, built, performed, before => by
      cases performed
      change view.AdmitsPlan (if l.isRooting then _ else _ : Live).plan
      split
      · exact View.rooted trivial before
      · exact View.added (View.admits_of_blind rfl _) trivial before
  | .append kind slots inner, admitted, l, built, performed, before => by
      rw [performOne, bind_eq_ok] at performed
      obtain ⟨found, resolved, same⟩ := performed
      cases same
      obtain ⟨arguments, children⟩ := resolve_within kind slots admitted.2 resolved
      exact View.added ⟨admitted.1, arguments⟩ children before
  | .nothing, _, _, _, performed, before => by
      cases performed
      exact before
  | .refuse _, _, _, _, performed, _ => by cases performed

theorem resolve_within (kind : StepKind) : (slots : List (Slot Script)) →
    view.AdmitsSlots kind slots → {found : List (Slot Live)} → resolve slots = .ok found →
      ResolvedWithin view kind found
  | [], _, found, resolved => by
      cases resolved
      exact ⟨by simp, trivial⟩
  | slot :: rest, admitted, found, resolved => by
      rw [resolve, bind_eq_ok] at resolved
      obtain ⟨head, first, others⟩ := resolved
      obtain ⟨more, resolvedRest, same⟩ := bind_eq_ok.mp others
      cases same
      have one := resolveOne_within kind slot admitted.1 first
      have several := resolve_within kind rest admitted.2 resolvedRest
      constructor
      · intro a member
        rcases List.mem_cons.mp member with here | there
        · exact one.1 a (List.mem_singleton.mpr here)
        · exact several.1 a there
      · have children : (head :: more).filterMap Live.child? =
            [head].filterMap Live.child? ++ more.filterMap Live.child? := by
          rw [← List.filterMap_append]
          rfl
        rw [children]
        exact View.admitsPlans_append.mpr ⟨one.2, several.2⟩

theorem resolveOne_within (kind : StepKind) : (slot : Slot Script) → view.AdmitsSlot kind slot →
    {found : Slot Live} → resolveOne slot = .ok found → ResolvedWithin view kind [found]
  | .argument a flat, admitted, found, resolved => by
      cases resolved
      exact ⟨fun b member => List.mem_singleton.mp member ▸ admitted, trivial⟩
  | .builder script, admitted, found, resolved => by
      rw [resolveOne, bind_eq_ok] at resolved
      obtain ⟨built, performed, same⟩ := resolved
      cases same
      have plan := perform_within script admitted performed ⟨trivial, trivial⟩
      exact ⟨by simp [Live.argument, View.AdmitsArgument], plan, trivial⟩

end

end Script

end PropertyGraph
