import PropertyGraph.Proofs.Builder.Stages
import PropertyGraph.Proofs.Program.Contents
import PropertyGraph.Proofs.Program.Kinds
import PropertyGraph.Proofs.Run.Discipline
import PropertyGraph.Proofs.Run.Observation

/-!
Plans without a step that changes the graph, and what scripts are made of. Such a plan leaves the
store as it was, however it ends; and a script records nothing but what stands in its own
operations, so whether a step of its program changes the graph, and what stands in its arguments, is
decided there.
-/

namespace PropertyGraph

/-- Steps that only look at the graph. -/
def StepKind.Reads (kind : StepKind) : Prop := kind.changesGraph = false

instance : DecidablePred StepKind.Reads := fun kind => decEq kind.changesGraph false

def Program.ReadsOnly (p : Program) : Prop := ∀ kind ∈ p.kinds, kind.Reads

instance (p : Program) : Decidable p.ReadsOnly := List.decidableBAll StepKind.Reads p.kinds

namespace Exec

/-- However it ends, the store is as it was. -/
def KeepsStore {α : Type} (m : Exec α) : Prop := ∀ world, (m.run world).2.store = world.store

theorem KeepsStore.bind {α β : Type} {m : Exec α} {f : α → Exec β} (first : KeepsStore m)
    (next : ∀ a, KeepsStore (f a)) : KeepsStore (m >>= f) := by
  intro world
  have kept := first world
  rw [run_bind]
  generalize m.run world = seen at kept
  obtain ⟨result, after⟩ := seen
  cases result with
  | ok a => exact (next a after).trans kept
  | error fault => exact kept

def storeKept : Discipline where
  holds := KeepsStore
  pure _ _ := rfl
  throw _ _ _ := rfl
  bind := .bind
  graph _ := rfl
  sideEffects _ := rfl

theorem storeKept_permits : storeKept.Permits StepKind.Reads where
  steps kind reads := by
    cases kind with
    | addV | addE | property | drop => cases reads
    | aggregate => exact storeKept.admits_aggregate fun _ _ _ => rfl
    | e => exact storeKept.admits_edges fun _ => rfl
    | _ => exact storeKept.admits_looking rfl
  starts := nofun

end Exec

theorem Plan.execute_reading (engine : Engine) {plan : Plan} (reads : plan.Uses StepKind.Reads)
    (store : Store) : (plan.execute engine store).2 = store := by
  have kept := plan.run_keeps Exec.storeKept_permits engine reads [] ⟨store, []⟩
  rw [Plan.execute]
  generalize (plan.run engine []).run ⟨store, []⟩ = seen at kept
  obtain ⟨result, after⟩ := seen
  cases result <;> exact kept

theorem Live.execute_reading {p : Program} (reads : p.ReadsOnly) {bound : Bool} {l : Live}
    (arranged : Live.ofProgram? bound p = .ok l) (engine : Engine) (store : Store) :
    (l.execute engine store).2 = store := by
  obtain ⟨plan, found, same⟩ := bind_eq_ok.mp arranged
  cases same
  rw [Live.execute]
  split
  · exact Plan.execute_reading engine (Plan.ofProgram?_uses reads found) store
  · rfl

end PropertyGraph

/-! ## What scripts are made of -/

namespace PropertyGraph

/-- What scripts may be made of: steps that change the graph or only others, and contents of
arguments, among them all texts and lengths. -/
structure Material where
  writes : Prop
  holds : Content → Prop
  text : ∀ s, holds (.text s)
  length : ∀ n, holds (.length n)

namespace Material

variable {m : Material}

def Allows (m : Material) (kind : StepKind) : Prop := kind.Reads ∨ m.writes

def Takes (m : Material) (v : Value) : Prop := ∀ c ∈ v.contents, m.holds c

def Tests (m : Material) (p : Predicate) : Prop := ∀ c ∈ p.contents, m.holds c

def Names (m : Material) (a : Argument) : Prop := ∀ c ∈ a.contents, m.holds c

theorem takes_bool (b : Bool) : m.Takes (.bool b) := nofun

theorem takes_int (i : Int64) : m.Takes (.int i) := nofun

theorem takes_string (s : String) : m.Takes (.string s) := List.forall_mem_singleton.mpr (m.text s)

theorem takes_items {items : List Value} :
    (∀ c ∈ Value.itemContents items, m.holds c) ↔ ∀ item ∈ items, m.Takes item := by
  induction items with
  | nil => simp [Value.itemContents]
  | cons item rest ih =>
      rw [Value.itemContents, List.forall_mem_append, ih, List.forall_mem_cons]
      rfl

theorem takes_list {items : List Value} :
    m.Takes (.list items) ↔ ∀ item ∈ items, m.Takes item := by
  rw [Takes, Value.contents, List.forall_mem_cons, takes_items]
  exact and_iff_right (m.length _)

theorem tests_within {vs : List Value} :
    m.Tests (.within vs) ↔ ∀ v ∈ vs, m.Takes v := by
  rw [Tests, Predicate.contents, List.forall_mem_cons, takes_items]
  exact and_iff_right (m.length _)

theorem names_label (s : String) : m.Names (.label s) := List.forall_mem_singleton.mpr (m.text s)

end Material

namespace Script

mutual

/-- Whatever stands in a script, at any depth, is of the material. -/
def Made (m : Material) : Script → Prop
  | .of operations => OpsMade m operations

def OpsMade (m : Material) : List (Op Script) → Prop
  | [] => True
  | op :: rest => OpMade m op ∧ OpsMade m rest

def OpMade (m : Material) : Op Script → Prop
  | .append kind slots _ => m.Allows kind ∧ SlotsMade m slots
  | .addVertex _ => m.writes
  | .vertices | .edges | .nothing | .refuse _ => True

def SlotsMade (m : Material) : List (Slot Script) → Prop
  | [] => True
  | slot :: rest => SlotMade m slot ∧ SlotsMade m rest

def SlotMade (m : Material) : Slot Script → Prop
  | .argument a _ => m.Names a
  | .builder script => script.Made m

end

variable {m : Material}

mutual

theorem kinds_made : (script : Script) → script.Made m → ∀ kind ∈ script.kinds, m.Allows kind
  | .of operations, made => opsKinds_made operations made
termination_by structural script => script

theorem opsKinds_made : (operations : List (Op Script)) → OpsMade m operations →
    ∀ kind ∈ opsKinds operations, m.Allows kind
  | [], _ => List.forall_mem_nil _
  | op :: rest, made => List.forall_mem_append.mpr
      ⟨opKinds_made op made.1, opsKinds_made rest made.2⟩
termination_by structural operations => operations

theorem opKinds_made : (op : Op Script) → OpMade m op → ∀ kind ∈ opKinds op, m.Allows kind
  | .vertices, _ | .edges, _ => List.forall_mem_singleton.mpr (.inl rfl)
  | .addVertex _, writes => List.forall_mem_singleton.mpr (.inr writes)
  | .append _ slots _, made => List.forall_mem_cons.mpr ⟨made.1, slotsKinds_made slots made.2⟩
  | .nothing, _ | .refuse _, _ => List.forall_mem_nil _
termination_by structural op => op

theorem slotsKinds_made : (slots : List (Slot Script)) → SlotsMade m slots →
    ∀ kind ∈ slotsKinds slots, m.Allows kind
  | [], _ => List.forall_mem_nil _
  | slot :: rest, made => List.forall_mem_append.mpr
      ⟨slotKinds_made slot made.1, slotsKinds_made rest made.2⟩
termination_by structural slots => slots

theorem slotKinds_made : (slot : Slot Script) → SlotMade m slot →
    ∀ kind ∈ slotKinds slot, m.Allows kind
  | .argument _ _, _ => List.forall_mem_nil _
  | .builder script, made => kinds_made script made
termination_by structural slot => slot

end

/-- What a recorder holds is of the material. -/
abbrev Recorded (m : Material) (r : Recorder) : Prop :=
  ∀ c ∈ Step.stepsContents r.program, m.holds c

theorem stepsContents_append (first second : List Step) : Step.stepsContents (first ++ second) =
    Step.stepsContents first ++ Step.stepsContents second := by
  induction first with
  | nil => rfl
  | cons step rest ih =>
      rw [List.cons_append, Step.stepsContents, Step.stepsContents, ih, List.append_assoc]

theorem add_recorded {kind : StepKind} {arguments : List Argument} {r : Recorder}
    (own : ∀ c ∈ Argument.argumentsContents arguments, m.holds c) (before : Recorded m r) :
    Recorded m (Recorder.add (.mk kind arguments) r) := by
  have step : ∀ c ∈ Step.stepsContents [.mk kind arguments], m.holds c := by
    rw [Step.stepsContents, Step.contents, Step.stepsContents, List.append_nil,
      List.forall_mem_cons]
    exact ⟨m.length _, own⟩
  unfold Recorded
  rw [Recorder.add, stepsContents_append, List.forall_mem_append]
  exact ⟨before, step⟩

mutual

theorem perform_recorded : (script : Script) → script.Made m → {before after : Recorder} →
    script.perform before = .ok after → Recorded m before → Recorded m after
  | .of operations, made, _, _, performs, held =>
      performAll_recorded operations made performs held
termination_by structural script => script

theorem performAll_recorded : (operations : List (Op Script)) → OpsMade m operations →
    {before after : Recorder} → performAll operations before = .ok after →
      Recorded m before → Recorded m after
  | [], _, _, _, performs, held => by
      cases performs
      exact held
  | op :: rest, made, _, _, performs, held => by
      obtain ⟨between, first, later⟩ := bind_eq_ok.mp performs
      exact performAll_recorded rest made.2 later (performOne_recorded op made.1 first held)
termination_by structural operations => operations

theorem performOne_recorded : (op : Op Script) → OpMade m op → {before after : Recorder} →
    performOne op before = .ok after → Recorded m before → Recorded m after
  | .vertices, _, _, _, performs, held => by
      cases performs
      exact add_recorded (List.forall_mem_nil _) held
  | .edges, _, before, _, performs, held => by
      simp only [performOne, Backend.edges] at performs
      split at performs
      · cases performs
        exact add_recorded (List.forall_mem_nil _) held
      · cases performs
  | .addVertex label, _, _, _, performs, held => by
      cases performs
      refine add_recorded ?_ held
      cases label with
      | none => exact List.forall_mem_nil _
      | some name => exact List.forall_mem_singleton.mpr (m.text name)
  | .append kind slots _, made, _, _, performs, held => by
      obtain ⟨found, resolves, appended⟩ := bind_eq_ok.mp performs
      cases appended
      exact add_recorded (resolve_recorded slots made.2 resolves) held
  | .nothing, _, _, _, performs, held => by
      cases performs
      exact held
  | .refuse _, _, _, _, performs, _ => nomatch performs
termination_by structural op => op

theorem resolve_recorded : (slots : List (Slot Script)) → SlotsMade m slots →
    {found : List (Slot Recorder)} → resolve slots = .ok found →
      ∀ c ∈ Argument.argumentsContents (found.map Recorder.argument), m.holds c
  | [], _, _, resolves => by
      cases resolves
      exact List.forall_mem_nil _
  | slot :: rest, made, _, resolves => by
      obtain ⟨first, here, resolves⟩ := bind_eq_ok.mp resolves
      obtain ⟨others, there, same⟩ := bind_eq_ok.mp resolves
      cases same
      rw [List.map_cons, Argument.argumentsContents, List.forall_mem_append]
      exact ⟨resolveOne_recorded slot made.1 here, resolve_recorded rest made.2 there⟩
termination_by structural slots => slots

theorem resolveOne_recorded : (slot : Slot Script) → SlotMade m slot → {found : Slot Recorder} →
    resolveOne slot = .ok found → m.Names (Recorder.argument found)
  | .argument a _, made, _, resolves => by
      cases resolves
      exact made
  | .builder script, made, _, resolves => by
      obtain ⟨built, performs, same⟩ := bind_eq_ok.mp resolves
      cases same
      have empty : Recorded m Backend.floating := List.forall_mem_nil _
      exact List.forall_mem_cons.mpr ⟨m.length _, perform_recorded script made performs empty⟩
termination_by structural slot => slot

end

variable {operations more : List (Op Script)} {op : Op Script} {kind : StepKind}

theorem opsMade_iff : OpsMade m operations ↔ ∀ op ∈ operations, OpMade m op := by
  induction operations with
  | nil => simp [OpsMade]
  | cons op rest ih => simp [OpsMade, ih]

namespace OpsMade

theorem nil : OpsMade m [] := trivial

theorem cons (first : OpMade m op) (rest : OpsMade m operations) : OpsMade m (op :: operations) :=
  ⟨first, rest⟩

theorem one (made : OpMade m op) : OpsMade m [op] := cons made nil

theorem append (first : OpsMade m operations) (second : OpsMade m more) :
    OpsMade m (operations ++ more) :=
  opsMade_iff.mpr (List.forall_mem_append.mpr ⟨opsMade_iff.mp first, opsMade_iff.mp second⟩)

theorem map {α : Type} {f : α → Op Script} (items : List α) (each : ∀ item, OpMade m (f item)) :
    OpsMade m (items.map f) :=
  opsMade_iff.mpr (List.forall_mem_map.mpr fun item _ => each item)

end OpsMade

theorem labelSlots_made (labels : List String) : SlotsMade m (labels.map .label) := by
  induction labels with
  | nil => trivial
  | cons label rest ih => exact ⟨Material.names_label label, ih⟩

namespace OpMade

variable {inner : kind.isEntry = false}

/-! Steps that look at the graph need no more than their arguments. -/

theorem bare (reads : kind.Reads) : OpMade m (.append kind [] inner) := ⟨.inl reads, trivial⟩

theorem labelled {labels : List String} (reads : kind.Reads) :
    OpMade m (.labelled kind labels inner) := ⟨.inl reads, labelSlots_made labels⟩

theorem nested {scripts : List Script} (reads : kind.Reads)
    (each : ∀ script ∈ scripts, script.Made m) : OpMade m (.nested kind scripts inner) := by
  refine ⟨.inl reads, ?_⟩
  induction scripts with
  | nil => trivial
  | cons script rest ih =>
      rw [List.forall_mem_cons] at each
      exact ⟨each.1, ih each.2⟩

theorem nested_one (reads : kind.Reads) (made : OpsMade m operations) :
    OpMade m (.nested kind [.of operations] inner) :=
  ⟨.inl reads, made, trivial⟩

theorem nested_two (reads : kind.Reads) (first : OpsMade m operations) (second : OpsMade m more) :
    OpMade m (.nested kind [.of operations, .of more] inner) :=
  ⟨.inl reads, first, second, trivial⟩

theorem literal {v : Value} (reads : kind.Reads) (takes : m.Takes v) :
    OpMade m (.append kind [.literal v] inner) :=
  ⟨.inl reads, takes, trivial⟩

theorem constant {v : Value} (takes : m.Takes v) : OpMade m (.constant v) :=
  ⟨.inl rfl, takes, trivial⟩

theorem limit (n : Int64) : OpMade m (.limit n) :=
  ⟨.inl rfl, Material.takes_int n, trivial⟩

theorem times (n : Nat) : OpMade m (.times n) :=
  ⟨.inl rfl, Material.takes_int (Int64.ofNat n), trivial⟩

theorem is_ {p : Predicate} (tests : m.Tests p) : OpMade m (.is_ p) := ⟨.inl rfl, tests, trivial⟩

theorem has (key : String) {p : Predicate} (tests : m.Tests p) : OpMade m (.has key p) :=
  ⟨.inl rfl, Material.names_label key, tests, trivial⟩

theorem apply (f : Function) : OpMade m (.apply f) := ⟨.inl rfl, nofun, trivial⟩

theorem select (keys : List String) : OpMade m (.select keys) := by
  unfold Op.select
  split
  · trivial
  · exact labelled rfl

theorem project (keys : List String) : OpMade m (.project keys) := by
  unfold Op.project
  split
  · trivial
  · exact labelled rfl

theorem hasLabel (labels : List String) : OpMade m (.hasLabel labels) := by
  unfold Op.hasLabel
  split
  · trivial
  · exact labelled rfl

theorem selectLabel (pop : Pop) (label : String) : OpMade m (.selectLabel pop label) :=
  ⟨.inl rfl, nofun, Material.names_label label, trivial⟩

theorem selectColumn (column : Column) : OpMade m (.selectColumn column) :=
  ⟨.inl rfl, nofun, trivial⟩

theorem byOrder {key : Script} (made : key.Made m) (order : SortOrder) :
    OpMade m (.byOrder key order) :=
  ⟨.inl rfl, made, nofun, trivial⟩

end OpMade

end Script

end PropertyGraph
