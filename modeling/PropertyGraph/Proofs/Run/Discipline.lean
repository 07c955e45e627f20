import PropertyGraph.Proofs.Graph.History
import PropertyGraph.Proofs.Program.Kinds
import PropertyGraph.Run.Plan

/-!
What every step keeps. A discipline is a property of runs that holds of reading the graph and the
side effects, of all faults but that of misplaced edges, and of all that is put together from runs
that have it; so it holds of every step that only looks and whose sub-traversals have it. Steps that
remember values, change the graph or are misplaced ask for it of what they do as well. A plan keeps
a discipline that admits the kinds of all its steps.
-/

namespace PropertyGraph

/-- The fault of an edge step that is no start. -/
def ExecutionFault.isMisplaced : ExecutionFault → Bool
  | .misplacedEdges => true
  | _ => false

namespace Exec

def sideEffects : Exec (Dictionary String (List Value)) := return (← get).sideEffects

structure Discipline where
  holds : {α : Type} → Exec α → Prop
  pure {α : Type} (a : α) : holds (Pure.pure a : Exec α)
  throw {α : Type} (fault : ExecutionFault) (other : fault.isMisplaced = false) :
    holds (MonadExcept.throw fault : Exec α)
  bind {α β : Type} {m : Exec α} {f : α → Exec β} (first : holds m) (next : ∀ a, holds (f a)) :
    holds (m >>= f)
  graph : holds Exec.graph
  sideEffects : holds Exec.sideEffects

/-- A discipline that changes of the graph and of the side effects keep too. -/
structure WritingDiscipline extends Discipline where
  remember (key : String) (values : List Value) :
    holds (modify (Application.remember key values) : Exec Unit)
  createVertex (label : Option String) : holds (Exec.createVertex label)
  createEdge (label : String) (source target : VertexId) :
    holds (Exec.createEdge label source target)
  update {change : Graph → Except MissingElement Graph} (requested : Graph.IsRequested change) :
    holds (Exec.update change)
  countDrop : holds (modify fun world : World =>
    { world with store := world.store.countDrop } : Exec Unit)

/-- A name stands for something by the side effects alone, whatever the store holds. -/
theorem named_eq_bind (t : Traverser) (pop : Pop) (key : String) :
    named? t pop key =
      sideEffects >>= fun known => pure (World.named? ⟨.empty, known⟩ t pop key) :=
  rfl

theorem resolved_eq_bind (p : Predicate) (t : Traverser) :
    Application.resolved p t =
      sideEffects >>= fun known => pure (p.mapValues fun
        | .string label => (World.named? ⟨.empty, known⟩ t .last label).getD (.string label)
        | other => other) :=
  rfl

end Exec

namespace Exec.Discipline

variable (d : Exec.Discipline) {α β : Type}

theorem map {m : Exec α} (f : α → β) (first : d.holds m) : d.holds (f <$> m) := by
  rw [map_eq_pure_bind]
  exact d.bind first fun _ => d.pure _

theorem liftFault {ε : Type} (wrap : ε → ExecutionFault) (result : Except ε α)
    (other : ∀ fault, result = .error fault → (wrap fault).isMisplaced = false) :
    d.holds (Exec.liftFault wrap result) := by
  cases result with
  | ok a => exact d.pure a
  | error fault => exact d.throw _ (other fault rfl)

theorem ite {c : Prop} [Decidable c] {yes no : Exec α} (first : d.holds yes)
    (second : d.holds no) : d.holds (if c then yes else no) := by
  split
  · exact first
  · exact second

theorem forEach {f : Traverser → Exec Stream} (each : ∀ t, d.holds (f t)) (stream : Stream) :
    d.holds (Exec.forEach f stream) := by
  induction stream with
  | nil => exact d.pure _
  | cons t rest ih => exact d.bind (each t) fun _ => d.bind ih fun _ => d.pure _

theorem keep {test : Traverser → Exec Bool} (each : ∀ t, d.holds (test t)) (stream : Stream) :
    d.holds (Exec.keep test stream) :=
  d.forEach (fun t => d.bind (each t) fun _ => d.pure _) stream

theorem mapEach {f : Traverser → Exec Value} (each : ∀ t, d.holds (f t)) (stream : Stream) :
    d.holds (Exec.mapEach f stream) :=
  d.forEach (fun t => d.bind (each t) fun _ => d.pure _) stream

theorem named (t : Traverser) (pop : Pop) (key : String) :
    d.holds (Exec.named? t pop key) := by
  rw [named_eq_bind]
  exact d.bind d.sideEffects fun _ => d.pure _

theorem resolved (p : Predicate) (t : Traverser) : d.holds (Application.resolved p t) := by
  rw [resolved_eq_bind]
  exact d.bind d.sideEffects fun _ => d.pure _

/-! Arguments. -/

theorem text (kind : StepKind) (arguments : List Argument) (index : Nat) :
    d.holds (Arguments.text kind arguments index) := by
  rw [Arguments.text]
  split
  · exact d.pure _
  · exact d.pure _
  · exact d.throw _ rfl

theorem value (kind : StepKind) (arguments : List Argument) (index : Nat) :
    d.holds (Arguments.value kind arguments index) := by
  rw [Arguments.value]
  split
  · exact d.pure _
  · exact d.throw _ rfl

theorem integer (kind : StepKind) (arguments : List Argument) (index : Nat) :
    d.holds (Arguments.integer kind arguments index) := by
  rw [Arguments.integer]
  split
  · exact d.pure _
  · exact d.throw _ rfl

theorem scopedInteger (kind : StepKind) (arguments : List Argument) (index : Nat) :
    d.holds (Arguments.scopedInteger kind arguments index) := by
  unfold Arguments.scopedInteger
  split
  · exact d.integer _ _ _
  · exact d.integer _ _ _

theorem inapplicable (a : Application) (value : Value) :
    d.holds (a.inapplicable value : Exec α) :=
  d.throw _ rfl

end Exec.Discipline

/-- The sub-traversal keeps a discipline on every stream. -/
def Child.Keeps (d : Exec.Discipline) (child : Child) : Prop := ∀ stream, d.holds (child.run stream)

/-- All sub-traversals of a step and of its modulators keep a discipline. -/
structure Application.Keeps (d : Exec.Discipline) (a : Application) : Prop where
  children : ∀ child ∈ a.children, child.Keeps d
  modulations : ∀ m ∈ a.modulations, ∀ child ∈ m.children, child.Keeps d

namespace Child.Keeps

variable {d : Exec.Discipline} {child : Child}

theorem first (keeps : child.Keeps d) (t : Traverser) : d.holds (child.first? t) :=
  d.bind (keeps _) fun _ => d.pure _

theorem hasResult (keeps : child.Keeps d) (t : Traverser) : d.holds (child.hasResult t) :=
  d.bind (keeps _) fun _ => d.pure _

theorem valueOr {choice : Option Child} (keeps : ∀ child ∈ choice, child.Keeps d)
    (fault : ExecutionFault) (t : Traverser) (other : fault.isMisplaced = false) :
    d.holds (Child.valueOr choice fault t) := by
  cases choice with
  | none => exact d.pure _
  | some child =>
      refine d.bind ((keeps child rfl).first t) fun found => ?_
      cases found with
      | none => exact d.throw _ other
      | some value => exact d.pure _

end Child.Keeps

namespace Application.Keeps

variable {d : Exec.Discipline} {a : Application}

theorem child (keeps : a.Keeps d) {β : Type} {f : Child → Exec β} (index : Nat)
    (next : ∀ child : Child, child.Keeps d → d.holds (f child)) :
    d.holds (a.child index >>= f) := by
  rw [Application.child]
  split
  · next child found =>
      rw [pure_bind]
      exact next child (keeps.children child (List.mem_of_getElem? found))
  · exact d.throw (α := β) _ rfl

theorem bys (keeps : a.Keeps d) {choice : Option Child} (member : choice ∈ a.bys) :
    ∀ child ∈ choice, child.Keeps d := by
  intro child found
  obtain ⟨m, modulates, rfl⟩ := List.mem_map.mp member
  exact keeps.modulations m (List.mem_filter.mp modulates).1 child (List.mem_of_mem_head? found)

theorem byAt {bys : List (Option Child)}
    (keeps : ∀ choice ∈ bys, ∀ child ∈ choice, child.Keeps d) (index : Nat) :
    ∀ child ∈ byAt bys index, child.Keeps d := by
  intro child found
  rw [Application.byAt, Option.mem_def, Option.join_eq_some_iff] at found
  exact keeps _ (List.mem_of_getElem? found) child rfl

theorem last (keeps : a.Keeps d) {kind : StepKind} {m : Modulation}
    (found : a.last? kind = some m) : ∀ child ∈ m.children, child.Keeps d :=
  keeps.modulations m (List.mem_filter.mp (List.mem_of_getLast? found)).1

end Application.Keeps

/-! Steps that let traversers pass. -/

namespace Exec.Discipline

variable (d : Exec.Discipline)

theorem propertiesOf (value : Value) : d.holds (Exec.propertiesOf value) := by
  refine d.bind d.graph fun g => ?_
  split
  · split
    · exact d.pure _
    · exact d.throw _ rfl
  · split
    · exact d.pure _
    · exact d.throw _ rfl
  · exact d.throw _ rfl

theorem property? (value : Value) (key : String) : d.holds (Exec.property? value key) := by
  unfold Exec.property?
  split
  · exact d.bind (d.propertiesOf _) fun _ => d.pure _
  · exact d.bind (d.propertiesOf _) fun _ => d.pure _
  · exact d.pure _

theorem has (a : Application) (stream : Stream) : d.holds (a.has stream) := by
  refine d.bind (d.text _ _ _) fun key => d.keep (fun t => ?_) stream
  refine d.bind (d.property? _ _) fun found => ?_
  split
  · exact d.pure _
  · split
    · exact d.pure _
    · exact d.pure _

theorem hasNot (a : Application) (stream : Stream) : d.holds (a.hasNot stream) :=
  d.bind (d.text _ _ _) fun _ =>
    d.keep (fun _ => d.bind (d.property? _ _) fun _ => d.pure _) stream

theorem hasLabel (a : Application) (stream : Stream) : d.holds (a.hasLabel stream) :=
  d.keep (fun _ => d.pure _) stream

theorem hasKey (a : Application) (stream : Stream) : d.holds (a.hasKey stream) := by
  refine d.keep (fun t => ?_) stream
  split
  · exact d.pure _
  · exact d.pure _

theorem matching (a : Application) (stream : Stream) : d.holds (a.matching stream) := by
  unfold Application.matching
  split
  · exact d.keep (fun _ => d.pure _) stream
  · exact d.throw _ rfl

theorem distinctBy {keyOf : Traverser → Exec Value} (each : ∀ t, d.holds (keyOf t))
    (seen : List Value) (stream : Stream) : d.holds (Application.distinctBy keyOf seen stream) := by
  induction stream generalizing seen with
  | nil => exact d.pure _
  | cons t rest ih =>
      refine d.bind (each t) fun key => ?_
      split
      · exact ih seen
      · exact d.bind (ih _) fun _ => d.pure _

theorem namedValues (t : Traverser) (labels : List String) :
    d.holds (Application.namedValues t labels) := by
  induction labels with
  | nil => exact d.pure _
  | cons label rest ih => exact d.bind (d.named _ _ _) fun _ => d.bind ih fun _ => d.pure _

theorem simplePath (stream : Stream) : d.holds (Application.simplePath stream) :=
  d.keep (fun _ => d.pure _) stream

end Exec.Discipline

namespace Application.Keeps

variable {d : Exec.Discipline} {a : Application}

theorem where_ (keeps : a.Keeps d) (stream : Stream) : d.holds (a.where_ stream) := by
  unfold Application.where_
  split
  · exact d.keep (fun _ => d.bind (d.resolved _ _) fun _ => d.pure _) stream
  · exact keeps.child 0 fun child keepsChild => d.keep keepsChild.hasResult stream

theorem dedupKey (keeps : a.Keeps d) (t : Traverser) (key : Value) :
    d.holds (match (a.bys.head?).join with
      | none => pure key
      | some child => do return (← child.first? (t.split key)).getD .null) := by
  split
  · exact d.pure _
  · next child found =>
      rw [Option.join_eq_some_iff] at found
      have keepsChild := keeps.bys (List.mem_of_mem_head? found) child rfl
      exact d.bind (keepsChild.first _) fun _ => d.pure _

theorem dedup (keeps : a.Keeps d) (stream : Stream) : d.holds (a.dedup stream) := by
  refine d.distinctBy (fun t => ?_) [] stream
  dsimp only
  split
  · exact d.bind (d.pure _) (keeps.dedupKey t)
  · exact d.bind (d.map _ (d.namedValues _ _)) (keeps.dedupKey t)

theorem anyChild (wanted : Bool) (t : Traverser) {children : List Child}
    (keeps : ∀ child ∈ children, child.Keeps d) :
    d.holds (Application.anyChild wanted t children) := by
  induction children with
  | nil => exact d.pure _
  | cons child rest ih =>
      refine d.bind ((keeps child (by simp)).hasResult t) fun found => ?_
      split
      · exact d.pure _
      · exact ih fun other member => keeps other (by simp [member])

theorem and (keeps : a.Keeps d) (stream : Stream) : d.holds (a.and stream) :=
  d.keep (fun t => d.bind (anyChild false t keeps.children) fun _ => d.pure _) stream

theorem or (keeps : a.Keeps d) (stream : Stream) : d.holds (a.or stream) :=
  d.keep (fun t => anyChild true t keeps.children) stream

theorem not (keeps : a.Keeps d) (stream : Stream) : d.holds (a.not stream) :=
  keeps.child 0 fun _ keepsChild =>
    d.keep (fun t => d.bind (keepsChild.hasResult t) fun _ => d.pure _) stream

end Application.Keeps

/-! Steps that move, and steps that take a part of the stream. -/

namespace Exec.Discipline

variable (d : Exec.Discipline)

theorem vertexIdOf (value : Value) : d.holds (Exec.vertexIdOf value) := by
  unfold Exec.vertexIdOf
  split
  · exact d.pure _
  · exact d.throw _ rfl

theorem vertexValue (id : VertexId) : d.holds (Exec.vertexValue id) := by
  refine d.bind d.graph fun g => ?_
  split
  · exact d.pure _
  · exact d.throw _ rfl

theorem vertices (stream : Stream) : d.holds (Application.vertices stream) :=
  d.forEach (fun _ => d.bind d.graph fun _ => d.pure _) stream

theorem edges (a : Application) (incident : Graph → VertexId → List Edge) (stream : Stream) :
    d.holds (a.edges incident stream) :=
  d.forEach (fun _ => d.bind (d.vertexIdOf _) fun _ => d.bind d.graph fun _ => d.pure _) stream

theorem endpoint (a : Application) (choose : EdgeRef → Traverser → VertexId) (stream : Stream) :
    d.holds (a.endpoint choose stream) := by
  refine d.mapEach (fun t => ?_) stream
  split
  · exact d.vertexValue _
  · exact d.inapplicable _ _

theorem range (a : Application) (stream : Stream) : d.holds (a.range stream) :=
  d.bind (d.scopedInteger _ _ _) fun _ => d.bind (d.scopedInteger _ _ _) fun _ => d.pure _

theorem limit (a : Application) (stream : Stream) : d.holds (a.limit stream) :=
  d.bind (d.scopedInteger _ _ _) fun _ => d.pure _

theorem skip (a : Application) (stream : Stream) : d.holds (a.skip stream) :=
  d.bind (d.integer _ _ _) fun _ => d.pure _

theorem tail (a : Application) (stream : Stream) : d.holds (a.tail stream) := by
  refine d.bind (d.scopedInteger _ _ _) fun n => ?_
  split
  · exact d.pure _
  · exact d.pure _

theorem sortKeys (t : Traverser) {criteria : List Application.Criterion}
    (keeps : ∀ c ∈ criteria, ∀ child ∈ c.child, child.Keeps d) :
    d.holds (Application.sortKeys t criteria) := by
  induction criteria with
  | nil => exact d.pure _
  | cons c rest ih =>
      refine d.bind (Child.Keeps.valueOr (keeps c (by simp)) _ t rfl) fun _ => ?_
      exact d.bind (ih fun other member => keeps other (by simp [member])) fun _ => d.pure _

theorem withSortKeys {criteria : List Application.Criterion}
    (keeps : ∀ c ∈ criteria, ∀ child ∈ c.child, child.Keeps d) (stream : Stream) :
    d.holds (Application.withSortKeys criteria stream) := by
  induction stream with
  | nil => exact d.pure _
  | cons t rest ih =>
      exact d.bind (d.sortKeys t keeps) fun _ => d.bind ih fun _ => d.pure _

end Exec.Discipline

namespace Application.Keeps

variable {d : Exec.Discipline} {a : Application}

theorem criteria (keeps : a.Keeps d) : ∀ c ∈ a.criteria, ∀ child ∈ c.child, child.Keeps d := by
  intro c member child found
  unfold Application.criteria at member
  split at member
  · rw [List.mem_singleton.mp member] at found
    cases found
  · obtain ⟨m, modulates, rfl⟩ := List.mem_map.mp member
    exact keeps.modulations m (List.mem_filter.mp modulates).1 child
      (List.mem_of_mem_head? found)

theorem order (keeps : a.Keeps d) (engine : Engine) (stream : Stream) :
    d.holds (a.order engine stream) := by
  refine d.bind (d.withSortKeys keeps.criteria stream) fun keyed => ?_
  split
  · exact d.pure _
  · split
    · exact d.pure _
    · exact d.throw _ rfl

end Application.Keeps

/-! Steps that compute values. -/

namespace Exec.Discipline

variable (d : Exec.Discipline)

theorem idAndLabel (value : Value) : d.holds (Exec.idAndLabel value) := by
  unfold Exec.idAndLabel
  split
  · exact d.pure _
  · exact d.pure _
  · exact d.throw _ rfl

theorem ownerOf (value : Value) : d.holds (Exec.ownerOf value) := by
  unfold Exec.ownerOf
  split
  · exact d.pure _
  · exact d.pure _
  · exact d.throw _ rfl

theorem fold (stream : Stream) : d.holds (Application.fold stream) := d.pure _

theorem unfold (stream : Stream) : d.holds (Application.unfold stream) :=
  d.forEach (fun _ => d.pure _) stream

theorem count (a : Application) (stream : Stream) : d.holds (a.count stream) := by
  unfold Application.count
  split
  · exact d.pure _
  · exact d.mapEach (fun _ => d.pure _) stream

theorem reduced (kind : StepKind) (values : List Value) :
    d.holds (Exec.liftFault id (Reduce.reduce? kind values)) := by
  refine d.liftFault id _ fun fault failed => ?_
  unfold Reduce.reduce? at failed
  split at failed
  · cases failed
  · cases failed
  · split at failed
    · cases failed
      rfl
    · cases failed

theorem reduce (a : Application) (stream : Stream) : d.holds (a.reduce stream) := by
  unfold Application.reduce
  split
  · exact d.bind (d.reduced _ _) fun _ => d.pure _
  · exact d.forEach (fun _ => d.bind (d.reduced _ _) fun _ => d.pure _) stream

theorem path (stream : Stream) : d.holds (Application.path stream) :=
  d.mapEach (fun _ => d.pure _) stream

theorem valueMap (a : Application) (stream : Stream) : d.holds (a.valueMap stream) := by
  refine d.mapEach (fun t => ?_) stream
  have withProperties : ∀ tokens : List (String × Value), d.holds (do
      return Value.record (tokens ++ (← Exec.propertiesOf t.object))) :=
    fun tokens => d.bind (d.propertiesOf _) fun _ => d.pure _
  dsimp only
  split
  · exact d.bind (d.idAndLabel _) fun _ => d.bind (d.pure _) withProperties
  · exact d.bind (d.pure _) withProperties

theorem values (a : Application) (stream : Stream) : d.holds (a.values stream) := by
  refine d.forEach (fun t => d.bind (d.propertiesOf _) fun known => ?_) stream
  exact d.pure _

theorem properties (a : Application) (stream : Stream) : d.holds (a.properties stream) :=
  d.forEach (fun _ => d.bind (d.ownerOf _) fun _ =>
    d.bind (d.propertiesOf _) fun _ => d.pure _) stream

theorem propertyPart (a : Application) (part : String → Value → Value) (stream : Stream) :
    d.holds (a.propertyPart part stream) := by
  refine d.mapEach (fun t => ?_) stream
  split
  · exact d.pure _
  · exact d.inapplicable _ _

theorem label (a : Application) (stream : Stream) : d.holds (a.label stream) := by
  refine d.mapEach (fun t => ?_) stream
  split
  · exact d.pure _
  · split
    · exact d.pure _
    · exact d.inapplicable _ _

theorem id (stream : Stream) : d.holds (Application.id stream) :=
  d.mapEach (fun _ => d.bind (d.idAndLabel _) fun _ => d.pure _) stream

end Exec.Discipline

namespace Application.Keeps

variable {d : Exec.Discipline} {a : Application}

theorem projectColumns {bys : List (Option Child)}
    (keeps : ∀ choice ∈ bys, ∀ child ∈ choice, child.Keeps d) (t : Traverser) (index : Nat)
    (keys : List String) : d.holds (Application.projectColumns bys t index keys) := by
  induction keys generalizing index with
  | nil => exact d.pure _
  | cons key rest ih =>
      refine d.bind (Child.Keeps.valueOr (byAt keeps index) _ t rfl) fun _ => ?_
      exact d.bind (ih _) fun _ => d.pure _

theorem project (keeps : a.Keeps d) (stream : Stream) : d.holds (a.project stream) :=
  d.mapEach (fun t => d.bind (projectColumns (fun _ => keeps.bys) t 0 _) fun _ => d.pure _) stream

theorem selectedBefore {rest : Exec (Option (List (String × Value)))} (keeps : d.holds rest)
    (key : String) (found : Option Value) :
    d.holds (match found with
      | none => pure none
      | some value => do return (← rest).map ((key, value) :: ·)) := by
  split
  · exact d.pure _
  · exact d.bind keeps fun _ => d.pure _

theorem selectKeys {bys : List (Option Child)}
    (keeps : ∀ choice ∈ bys, ∀ child ∈ choice, child.Keeps d) (pop : Pop) (t : Traverser)
    (index : Nat) (keys : List String) :
    d.holds (Application.selectKeys bys pop t index keys) := by
  induction keys generalizing index with
  | nil => exact d.pure _
  | cons key rest ih =>
      refine d.bind (d.named _ _ _) fun found => ?_
      split
      · exact d.pure _
      · next value =>
          split
          · exact d.bind (d.pure _) (selectedBefore (ih _) key)
          · next child chosen =>
              exact d.bind ((byAt keeps index child chosen).first _) (selectedBefore (ih _) key)

theorem selectOne (keeps : a.Keeps d) (pop : Pop) (keys : List String) (t : Traverser) :
    d.holds (a.selectOne pop keys t) := by
  refine d.bind (selectKeys (fun _ => keeps.bys) pop t 0 keys) fun found => ?_
  split
  · exact d.pure _
  · exact d.pure _
  · exact d.pure _

theorem select (keeps : a.Keeps d) (stream : Stream) : d.holds (a.select stream) := by
  unfold Application.select
  split
  · refine d.mapEach (fun t => ?_) stream
    split
    · exact d.pure _
    · exact d.inapplicable _ _
  · exact d.bind (d.text _ _ _) fun _ => d.forEach (keeps.selectOne _ _) stream
  · exact d.forEach (keeps.selectOne _ _) stream

theorem keyed {choice : Option Child} (keeps : ∀ child ∈ choice, child.Keeps d)
    (fault : ExecutionFault) (stream : Stream) (other : fault.isMisplaced = false) :
    d.holds (Application.keyed fault choice stream) := by
  induction stream with
  | nil => exact d.pure _
  | cons t rest ih =>
      exact d.bind (Child.Keeps.valueOr keeps fault t other) fun _ => d.bind ih fun _ => d.pure _

theorem groupValues {choice : Option Child} (keeps : ∀ child ∈ choice, child.Keeps d)
    (groups : Dictionary Value Stream) : d.holds (Application.groupValues choice groups) := by
  induction groups with
  | nil => exact d.pure _
  | cons entry rest ih =>
      refine d.bind ?_ fun _ => d.bind ih fun _ => d.pure _
      cases choice with
      | none => exact d.pure _
      | some child => exact d.bind (keeps child rfl _) fun _ => d.pure _

theorem byNumber (keeps : a.Keeps d) (index : Nat) :
    ∀ child ∈ (a.bys[index]?).join, child.Keeps d := by
  intro child found
  rw [Option.mem_def, Option.join_eq_some_iff] at found
  exact keeps.bys (List.mem_of_getElem? found) child rfl

theorem group (keeps : a.Keeps d) (stream : Stream) : d.holds (a.group stream) :=
  d.bind (keyed (keeps.byNumber 0) _ stream rfl) fun _ =>
    d.bind (groupValues (keeps.byNumber 1) _) fun _ => d.pure _

end Application.Keeps

/-! Steps that send traversers through sub-traversals. -/

namespace Application.Keeps

variable {d : Exec.Discipline} {a : Application}

theorem runAll (t : Traverser) {children : List Child}
    (keeps : ∀ child ∈ children, child.Keeps d) : d.holds (Application.runAll t children) := by
  induction children with
  | nil => exact d.pure _
  | cons child rest ih =>
      refine d.bind (keeps child (by simp) _) fun _ => ?_
      exact d.bind (ih fun other member => keeps other (by simp [member])) fun _ => d.pure _

theorem runFirst (t : Traverser) {children : List Child}
    (keeps : ∀ child ∈ children, child.Keeps d) : d.holds (Application.runFirst t children) := by
  induction children with
  | nil => exact d.pure _
  | cons child rest ih =>
      refine d.bind (keeps child (by simp) _) fun results => ?_
      split
      · exact ih fun other member => keeps other (by simp [member])
      · exact d.pure _

theorem union (keeps : a.Keeps d) (stream : Stream) : d.holds (a.union stream) :=
  d.forEach (fun t => runAll t keeps.children) stream

theorem coalesce (keeps : a.Keeps d) (stream : Stream) : d.holds (a.coalesce stream) :=
  d.forEach (fun t => runFirst t keeps.children) stream

theorem optional (keeps : a.Keeps d) (stream : Stream) : d.holds (a.optional stream) :=
  keeps.child 0 fun _ keepsChild =>
    d.forEach (fun _ => d.bind (keepsChild _) fun _ => d.pure _) stream

theorem flatMap (keeps : a.Keeps d) (stream : Stream) : d.holds (a.flatMap stream) :=
  keeps.child 0 fun _ keepsChild => d.forEach (fun _ => keepsChild _) stream

theorem sideEffect (keeps : a.Keeps d) (stream : Stream) : d.holds (a.sideEffect stream) :=
  keeps.child 0 fun _ keepsChild =>
    d.forEach (fun _ => d.bind (keepsChild _) fun _ => d.pure _) stream

theorem map (keeps : a.Keeps d) (stream : Stream) : d.holds (a.map stream) := by
  unfold Application.map
  split
  · exact d.mapEach (fun _ => d.liftFault _ _ fun _ _ => rfl) stream
  · exact keeps.child 0 fun _ keepsChild =>
      d.forEach (fun t => d.bind (keepsChild.first t) fun _ => d.pure _) stream

theorem branch (keeps : a.Keeps d) (index : Nat) (t : Traverser) :
    d.holds (a.branch index t) := by
  unfold Application.branch
  split
  · next child found => exact keeps.children child (List.mem_of_getElem? found) _
  · exact d.pure _

theorem pick (t : Traverser) (choice : Value) {options : List Modulation}
    (keeps : ∀ m ∈ options, ∀ child ∈ m.children, child.Keeps d) :
    d.holds (Application.pick t choice options) := by
  induction options with
  | nil => exact d.pure _
  | cons option rest ih =>
      refine d.bind (d.value _ _ _) fun value => ?_
      split
      · split
        · next child more chosen => exact keeps option (by simp) child (by simp [chosen]) _
        · exact d.throw _ rfl
      · exact ih fun other member => keeps other (by simp [member])

theorem chooseOne (keeps : a.Keeps d) (t : Traverser) : d.holds (a.chooseOne t) := by
  unfold Application.chooseOne
  split
  · split
    · exact keeps.child 0 fun _ keepsChild => keepsChild _
    · exact keeps.branch 1 t
  · next choice _ only =>
      have keepsChoice := keeps.children choice (by simp [only])
      exact d.bind (keepsChoice.first t) fun _ => pick t _ fun m member =>
        keeps.modulations m (List.mem_filter.mp member).1
  · refine keeps.child 0 fun _ keepsCondition => d.bind (keepsCondition.hasResult t) fun holds => ?_
    split
    · exact keeps.child 1 fun _ keepsChild => keepsChild _
    · exact keeps.branch 2 t

theorem choose (keeps : a.Keeps d) (stream : Stream) : d.holds (a.choose stream) :=
  d.forEach keeps.chooseOne stream

end Application.Keeps

namespace Application.Loop

/-- The sub-traversals of a loop keep a discipline. -/
structure Keeps (d : Exec.Discipline) (loop : Loop) : Prop where
  body : loop.body.Keeps d
  leaving : ∀ condition before, loop.until_ = some (.holds condition, before) → condition.Keeps d
  emitting : ∀ condition before, loop.emit = some (some condition, before) → condition.Keeps d

namespace Keeps

variable {d : Exec.Discipline} {loop : Loop}

theorem leaves (keeps : loop.Keeps d) (before : Bool) (t : Traverser) :
    d.holds (loop.leaves before t) := by
  unfold Loop.leaves
  split
  · next condition asked found =>
      split
      · exact (keeps.leaving _ _ found).hasResult t
      · exact d.pure _
  · exact d.pure _

theorem emits (keeps : loop.Keeps d) (before : Bool) (t : Traverser) :
    d.holds (loop.emits before t) := by
  unfold Loop.emits
  split
  · next condition asked found =>
      split
      · split
        · exact (keeps.emitting _ _ found).hasResult t
        · exact d.pure _
      · exact d.pure _
  · exact d.pure _

theorem sift {f : Traverser → Exec (Stream × Stream)} (each : ∀ t, d.holds (f t))
    (stream : Stream) : d.holds (Loop.sift f stream) := by
  induction stream with
  | nil => exact d.pure _
  | cons t rest ih => exact d.bind (each t) fun _ => d.bind ih fun _ => d.pure _

theorem stay (keeps : loop.Keeps d) (before : Bool) (t : Traverser) :
    d.holds (loop.stay before t) := by
  refine d.bind (keeps.leaves before t) fun leaving => ?_
  split
  · exact d.pure _
  · refine d.bind (keeps.emits before t) fun emitting => ?_
    split
    · exact d.pure _
    · exact d.pure _

theorem pass (keeps : loop.Keeps d) (t : Traverser) : d.holds (loop.pass t) := by
  refine d.bind (keeps.body _) fun results => ?_
  split
  · exact d.pure _
  · exact d.pure _

theorem settle (keeps : loop.Keeps d) (t : Traverser) : d.holds (loop.settle t) :=
  d.ite (d.pure _) (keeps.stay false t)

theorem rounds (keeps : loop.Keeps d) (limit left : Nat) (stream : Stream) :
    d.holds (loop.rounds limit left stream) := by
  induction left generalizing stream with
  | zero =>
      unfold Loop.rounds
      refine d.bind (sift (keeps.stay true) stream) fun sifted => ?_
      obtain ⟨early, next⟩ := sifted
      dsimp only
      split
      · exact d.pure _
      · exact d.throw _ rfl
  | succ left ih =>
      unfold Loop.rounds
      refine d.bind (sift (keeps.stay true) stream) fun sifted => ?_
      obtain ⟨early, next⟩ := sifted
      dsimp only
      split
      · exact d.pure _
      · refine d.bind (sift keeps.pass _) fun passed => ?_
        refine d.bind (sift keeps.settle _) fun settled => ?_
        exact d.bind (ih _) fun _ => d.pure _

end Keeps

end Application.Loop

namespace Application.Keeps

variable {d : Exec.Discipline} {a : Application}

theorem loopTimes (d : Exec.Discipline) (a : Application) : d.holds a.loopTimes := by
  unfold Application.loopTimes
  split
  · exact d.pure _
  · refine d.bind (d.integer _ _ _) fun n => ?_
    split
    · exact d.pure _
    · exact d.throw _ rfl

theorem loop (keeps : a.Keeps d) {body : Child} (keepsBody : body.Keeps d) (times : Option Nat) :
    Loop.Keeps d ⟨body, times,
      (a.last? .until_).map fun m =>
        (match m.children with
          | condition :: _ => .holds condition
          | [] => .exhausted, m.before),
      (a.last? .emit).map fun m => (m.children.head?, m.before)⟩ := by
  refine ⟨keepsBody, ?_, ?_⟩
  · intro condition before found
    obtain ⟨m, isLast, made⟩ := Option.map_eq_some_iff.mp found
    have keepsAll := keeps.last isLast
    cases children : m.children with
    | nil => simp [children] at made
    | cons first rest =>
        simp only [children, Prod.mk.injEq, LoopEnd.holds.injEq] at made
        exact made.1 ▸ keepsAll first (by simp [children])
  · intro condition before found
    obtain ⟨m, isLast, made⟩ := Option.map_eq_some_iff.mp found
    simp only [Prod.mk.injEq] at made
    exact keeps.last isLast condition (List.mem_of_mem_head? made.1)

theorem repeat_ (keeps : a.Keeps d) (limit : Nat) (stream : Stream) :
    d.holds (a.repeat_ limit stream) :=
  keeps.child 0 fun _ keepsBody => d.bind (loopTimes d a) fun times =>
    (keeps.loop keepsBody times).rounds limit limit _

end Application.Keeps

/-! Steps that remember, compute formulas, and change the graph. -/

namespace Exec.Discipline

variable (d : Exec.Discipline)

theorem loops (stream : Stream) : d.holds (Application.loops stream) :=
  d.mapEach (fun _ => d.pure _) stream

theorem as_ (a : Application) (stream : Stream) : d.holds (a.as_ stream) := d.pure _

theorem remembered (key : String) :
    d.holds (Exec.sideEffects >>= fun known =>
      match Dictionary.get? key known with
      | some values => Pure.pure [Traverser.start (.list values)]
      | none => MonadExcept.throw (.unknownSideEffect key)) := by
  refine d.bind d.sideEffects fun known => ?_
  split
  · exact d.pure _
  · exact d.throw _ rfl

theorem cap (a : Application) : d.holds a.cap := d.bind (d.text _ _ _) d.remembered

theorem index (stream : Stream) : d.holds (Application.index stream) := by
  refine d.mapEach (fun t => ?_) stream
  split
  · exact d.pure _
  · exact d.pure _

theorem constant (a : Application) (stream : Stream) : d.holds (a.constant stream) :=
  d.bind (d.value _ _ _) fun _ => d.mapEach (fun _ => d.pure _) stream

theorem inject (a : Application) (stream : Stream) : d.holds (a.inject stream) := d.pure _

theorem edgeEnd (m : Option Modulation) (t : Traverser) :
    d.holds (Application.edgeEnd m t) := by
  cases m with
  | none => exact d.vertexIdOf _
  | some m =>
      refine d.bind (d.text _ _ _) fun label => d.bind (d.named _ _ _) fun found => ?_
      split
      · exact d.vertexIdOf _
      · exact d.throw _ rfl

/-- The number that a variable of a formula stands for, if it is one. -/
def formulaNumber (name : String) (value : Option Value) : Exec Binary64 :=
  match value.bind Value.number? with
  | some x => Pure.pure x
  | none => MonadExcept.throw (.unboundVariable name)

theorem formulaNumber_holds (name : String) (value : Option Value) :
    d.holds (formulaNumber name value) := by
  unfold formulaNumber
  split
  · exact d.pure _
  · exact d.throw _ rfl

theorem currentNumber {by_ : Option Child} (keeps : ∀ child ∈ by_, child.Keeps d) (name : String)
    (t : Traverser) (current : Option Value) :
    d.holds (match current, by_ with
      | some value, some child => child.first? (t.split value) >>= formulaNumber name
      | current, _ => Pure.pure current >>= formulaNumber name) := by
  split
  · exact d.bind ((keeps _ rfl).first _) (d.formulaNumber_holds name)
  · exact d.bind (d.pure _) (d.formulaNumber_holds name)

theorem variableNumber {by_ : Option Child} (keeps : ∀ child ∈ by_, child.Keeps d)
    (name : String) (t : Traverser) : d.holds (Application.variableNumber by_ name t) := by
  unfold Application.variableNumber
  dsimp only
  split
  · exact d.bind (d.pure _) (d.currentNumber keeps name t)
  · exact d.bind (d.named _ _ _) (d.currentNumber keeps name t)

theorem bindings {bys : List (Option Child)}
    (keeps : ∀ choice ∈ bys, ∀ child ∈ choice, child.Keeps d) (t : Traverser) (index : Nat)
    (names : List String) : d.holds (Application.bindings bys t index names) := by
  induction names generalizing index with
  | nil => exact d.pure _
  | cons name rest ih =>
      refine d.bind (d.variableNumber (Application.Keeps.byAt keeps index) _ t) fun _ => ?_
      exact d.bind (ih _) fun _ => d.pure _

end Exec.Discipline

theorem Application.Keeps.math {d : Exec.Discipline} {a : Application} (keeps : a.Keeps d)
    (stream : Stream) : d.holds (a.math stream) := by
  refine d.bind (d.value _ _ _) fun value => ?_
  split
  · refine d.bind (d.liftFault _ _ fun _ _ => rfl) fun names => d.mapEach (fun t => ?_) stream
    exact d.bind (d.bindings (fun _ => keeps.bys) t 0 _) fun _ =>
      d.bind (d.liftFault _ _ fun _ _ => rfl) fun _ => d.pure _
  · exact d.inapplicable _ _

namespace Exec.WritingDiscipline

variable (w : Exec.WritingDiscipline)

theorem addV (a : Application) (stream : Stream) : w.holds (a.addV stream) := by
  have create : ∀ label : Option String,
      w.holds (Exec.mapEach (fun _ => Exec.createVertex label) stream) :=
    fun label => w.mapEach (fun _ => w.createVertex label) stream
  unfold Application.addV
  dsimp only
  split
  · exact w.bind (w.pure _) create
  · exact w.bind (w.map _ (w.text _ _ _)) create

theorem addE (a : Application) (stream : Stream) : w.holds (a.addE stream) :=
  w.bind (w.text _ _ _) fun _ => w.mapEach (fun _ =>
    w.bind (w.edgeEnd _ _) fun _ => w.bind (w.edgeEnd _ _) fun _ => w.createEdge _ _ _) stream

theorem dropOne (a : Application) (t : Traverser) : w.holds (a.dropOne t) := by
  unfold Application.dropOne
  dsimp only
  split
  · next v _ => exact w.bind (w.update fun _ => ⟨.removeVertex v.id, rfl⟩) fun _ => w.countDrop
  · next e _ => exact w.bind (w.update fun _ => ⟨.removeEdge e.id, rfl⟩) fun _ => w.countDrop
  · next id key _ _ =>
      exact w.bind (w.update fun _ => ⟨.removeVertexProperty id key, rfl⟩) fun _ => w.countDrop
  · next id key _ _ =>
      exact w.bind (w.update fun _ => ⟨.removeEdgeProperty id key, rfl⟩) fun _ => w.countDrop
  · exact w.bind (w.inapplicable _ _) fun _ => w.countDrop

theorem drop (a : Application) (stream : Stream) : w.holds (a.drop stream) :=
  w.forEach (fun t => w.bind (w.dropOne a t) fun _ => w.pure _) stream

end Exec.WritingDiscipline

namespace Application.Keeps

variable {d : Exec.Discipline} {a : Application}

theorem keyFrom (a : Application) (index : Nat) (t : Traverser) (arguments : List Argument)
    {children : List Child} (keeps : ∀ child ∈ children, child.Keeps d) {β : Type}
    {f : String × List Child → Exec β}
    (next : ∀ key rest, (∀ child ∈ rest, child.Keeps d) → d.holds (f (key, rest))) :
    d.holds (a.keyFrom index t arguments children >>= f) := by
  unfold Application.keyFrom
  split
  · exact next _ _ keeps
  · exact next _ _ keeps
  · exact d.throw (α := β) _ rfl
  · next child rest =>
      rw [bind_assoc]
      refine d.bind ((keeps child (by simp)).first t) fun found => ?_
      split
      · exact next _ _ fun other member => keeps other (by simp [member])
      · exact d.throw (α := β) _ rfl
  · exact d.throw (α := β) _ rfl
  · exact d.throw (α := β) _ rfl

theorem valueFrom (a : Application) (index : Nat) (key : String) (t : Traverser)
    (arguments : List Argument) {children : List Child}
    (keeps : ∀ child ∈ children, child.Keeps d) :
    d.holds (a.valueFrom index key t arguments children) := by
  unfold Application.valueFrom
  split
  · exact d.pure _
  · next child rest =>
      refine d.bind ((keeps child (by simp)).first t) fun found => ?_
      split
      · exact d.pure _
      · exact d.throw _ rfl
  · exact d.throw _ rfl
  · exact d.throw _ rfl

variable {w : Exec.WritingDiscipline}

theorem writeProperty (keeps : a.Keeps w.toDiscipline) (t : Traverser) :
    w.holds (a.writeProperty t) := by
  unfold Application.writeProperty
  refine keyFrom (d := w.toDiscipline) a _ t _ keeps.children fun key rest keepsRest => ?_
  refine w.bind (valueFrom a _ key t _ keepsRest) fun value => ?_
  split
  · next v _ =>
      exact w.toDiscipline.ite (w.update fun _ => ⟨.removeVertexProperty v.id key, rfl⟩)
        (w.update fun _ => ⟨.setVertexProperty v.id key _, rfl⟩)
  · next e _ =>
      exact w.toDiscipline.ite (w.update fun _ => ⟨.removeEdgeProperty e.id key, rfl⟩)
        (w.update fun _ => ⟨.setEdgeProperty e.id key _, rfl⟩)
  · exact w.inapplicable _ _

theorem property (keeps : a.Keeps w.toDiscipline) (stream : Stream) :
    w.holds (a.property stream) :=
  w.forEach (fun t => w.bind (keeps.writeProperty t) fun _ => w.pure _) stream

end Application.Keeps

/-! Any step, and any plan. -/

namespace StepKind

/-- Steps that change the graph. -/
def changesGraph : StepKind → Bool
  | .addV | .addE | .property | .drop => true
  | _ => false

/-- Steps that neither change the graph nor remember values, and are at home everywhere. -/
def looks : StepKind → Bool
  | .addV | .addE | .property | .drop | .aggregate | .e => false
  | _ => true

end StepKind

theorem Application.Keeps.perform_looking {d : Exec.Discipline} {a : Application} (keeps : a.Keeps d)
    (looks : a.kind.looks = true) (engine : Engine) (stream : Stream) :
    d.holds (a.perform engine stream) := by
  unfold Application.perform
  cases kind : a.kind with
  | v => exact d.vertices _
  | e => simp [kind, StepKind.looks] at looks
  | addV => simp [kind, StepKind.looks] at looks
  | addE => simp [kind, StepKind.looks] at looks
  | aggregate => simp [kind, StepKind.looks] at looks
  | and => exact keeps.and _
  | as_ => exact d.as_ _ _
  | barrier => exact d.pure _
  | bothE => exact d.edges _ _ _
  | cap => exact d.cap _
  | choose => exact keeps.choose _
  | coalesce => exact keeps.coalesce _
  | constant => exact d.constant _ _
  | count => exact d.count _ _
  | dedup => exact keeps.dedup _
  | drop => simp [kind, StepKind.looks] at looks
  | flatMap => exact keeps.flatMap _
  | fold => exact d.fold _
  | group => exact keeps.group _
  | has => exact d.has _ _
  | hasKey => exact d.hasKey _ _
  | hasLabel => exact d.hasLabel _ _
  | hasNot => exact d.hasNot _ _
  | id => exact d.id _
  | identity => exact d.pure _
  | inE => exact d.edges _ _ _
  | inV => exact d.endpoint _ _ _
  | index => exact d.index _
  | inject => exact d.inject _ _
  | is_ => exact d.matching _ _
  | key => exact d.propertyPart _ _ _
  | label => exact d.label _ _
  | limit => exact d.limit _ _
  | local_ => exact keeps.flatMap _
  | loops => exact d.loops _
  | map => exact keeps.map _
  | math => exact keeps.math _
  | max => exact d.reduce _ _
  | mean => exact d.reduce _ _
  | min => exact d.reduce _ _
  | not => exact keeps.not _
  | optional => exact keeps.optional _
  | or => exact keeps.or _
  | order => exact keeps.order _ _
  | otherV => exact d.endpoint _ _ _
  | outE => exact d.edges _ _ _
  | outV => exact d.endpoint _ _ _
  | path => exact d.path _
  | project => exact keeps.project _
  | properties => exact d.properties _ _
  | property => simp [kind, StepKind.looks] at looks
  | range => exact d.range _ _
  | repeat_ => exact keeps.repeat_ _ _
  | select => exact keeps.select _
  | sideEffect => exact keeps.sideEffect _
  | simplePath => exact d.simplePath _
  | skip => exact d.skip _ _
  | sum => exact d.reduce _ _
  | tail => exact d.tail _ _
  | unfold => exact d.unfold _
  | union => exact keeps.union _
  | value => exact d.propertyPart _ _ _
  | valueMap => exact d.valueMap _ _
  | values => exact d.values _ _
  | where_ => exact keeps.where_ _
  | by_ | emit | from_ | option | times | to_ | until_ | with_ => exact d.throw _ rfl

namespace Exec.Discipline

variable (d : Exec.Discipline)

/-- It holds of every step of a kind whose sub-traversals keep it. -/
def Admits (kind : StepKind) : Prop :=
  ∀ a : Application, a.kind = kind → a.Keeps d → ∀ engine stream, d.holds (a.perform engine stream)

theorem admits_looking {kind : StepKind} (looks : kind.looks = true) : d.Admits kind := by
  rintro a rfl keeps
  exact keeps.perform_looking looks

theorem admits_aggregate (remember : ∀ key values,
    d.holds (modify (Application.remember key values) : Exec Unit)) : d.Admits .aggregate := by
  intro a kind _ engine stream
  simp only [Application.perform, kind]
  exact d.bind (d.text _ _ _) fun _ => d.bind (remember _ _) fun _ => d.pure _

theorem admits_edges (misplaced : d.holds (MonadExcept.throw .misplacedEdges : Exec Stream)) :
    d.Admits .e := by
  intro a kind _ engine stream
  simp only [Application.perform, kind]
  exact misplaced

/-- It admits steps of such kinds, and what starts at the graph by one of them. -/
structure Permits (P : StepKind → Prop) : Prop where
  steps : ∀ kind, P kind → d.Admits kind
  starts : P .addV → ∀ label, d.holds (Exec.createVertex label)

end Exec.Discipline

namespace Exec.WritingDiscipline

variable (w : Exec.WritingDiscipline)

theorem admits {kind : StepKind} (other : kind ≠ .e) : w.Admits kind := by
  cases kind with
  | e => exact absurd rfl other
  | aggregate => exact w.admits_aggregate w.remember
  | addV =>
      intro a kind _ engine stream
      simpa only [Application.perform, kind] using w.addV a stream
  | addE =>
      intro a kind _ engine stream
      simpa only [Application.perform, kind] using w.addE a stream
  | property =>
      intro a kind keeps engine stream
      simpa only [Application.perform, kind] using keeps.property stream
  | drop =>
      intro a kind _ engine stream
      simpa only [Application.perform, kind] using w.drop a stream
  | _ => exact w.admits_looking rfl

theorem permits : w.Permits (· ≠ .e) := ⟨fun _ => w.admits, fun _ => w.createVertex⟩

theorem permits_all (misplaced : w.holds (MonadExcept.throw .misplacedEdges : Exec Stream)) :
    w.Permits fun _ => True where
  steps kind _ := by
    by_cases edges : kind = .e
    · exact edges ▸ w.admits_edges misplaced
    · exact w.admits edges
  starts _ := w.createVertex

end Exec.WritingDiscipline

namespace Plan

variable {d : Exec.Discipline} {P : StepKind → Prop}

mutual

theorem run_keeps (permits : d.Permits P) (engine : Engine) : (plan : Plan) → plan.Uses P →
    (stream : Stream) → d.holds (plan.run engine stream)
  | .mk stages [], uses, stream => runStages_keep permits engine stages uses.1 stream
  | .mk _ (.mk _ _ _ :: _), _, _ => d.throw _ rfl
termination_by structural plan => plan

theorem runStages_keep (permits : d.Permits P) (engine : Engine) : (stages : List Stage) →
    UsesStages P stages → (stream : Stream) → d.holds (runStages engine stages stream)
  | [], _, stream => d.pure stream
  | stage :: rest, uses, stream =>
      d.bind (runStage_keeps permits engine stage uses.1 stream) fun _ =>
        runStages_keep permits engine rest uses.2 _
termination_by structural stages => stages

theorem runStage_keeps (permits : d.Permits P) (engine : Engine) : (stage : Stage) →
    UsesStage P stage → (stream : Stream) → d.holds (runStage engine stage stream)
  | .vertices, _, _ => d.bind d.graph fun _ => d.pure _
  | .edges, _, _ => d.bind d.graph fun _ => d.pure _
  | .addVertex label, uses, _ => d.bind (permits.starts uses label) fun _ => d.pure _
  | .apply step children modulators, uses, stream =>
      permits.steps step.kind uses.1 ⟨step.kind, step.arguments, runChildren engine children,
        modulations engine modulators⟩ rfl ⟨runChildren_keep permits engine children uses.2.1,
          modulations_keep permits engine modulators uses.2.2⟩ engine stream
termination_by structural stage => stage

theorem runChildren_keep (permits : d.Permits P) (engine : Engine) : (children : List Plan) →
    UsesAll P children → ∀ child ∈ runChildren engine children, child.Keeps d
  | [], _, _, member => nomatch member
  | plan :: rest, uses, child, member => by
      rcases List.mem_cons.mp member with here | there
      · subst here
        exact run_keeps permits engine plan uses.1
      · exact runChildren_keep permits engine rest uses.2 child there
termination_by structural children => children

theorem modulations_keep (permits : d.Permits P) (engine : Engine) : (modulators : List Modulator) →
    UsesModulators P modulators → ∀ m ∈ modulations engine modulators,
      ∀ child ∈ m.children, child.Keeps d
  | [], _, _, member => nomatch member
  | modulator :: rest, uses, m, member => by
      rcases List.mem_cons.mp member with here | there
      · subst here
        exact modulation_keeps permits engine modulator uses.1
      · exact modulations_keep permits engine rest uses.2 m there
termination_by structural modulators => modulators

theorem modulation_keeps (permits : d.Permits P) (engine : Engine) : (modulator : Modulator) →
    UsesModulator P modulator → ∀ child ∈ (modulation engine modulator).children, child.Keeps d
  | .mk _ children _, uses => runChildren_keep permits engine children uses.2
termination_by structural modulator => modulator

end

end Plan

end PropertyGraph
