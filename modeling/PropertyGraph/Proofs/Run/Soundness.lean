import PropertyGraph.Proofs.Run.Strict

/-!
What steps without sub-traversals do to sorts of traversers.
-/

namespace PropertyGraph

open Exec

variable {R S : Traverser → Prop} {t : Traverser} {stream : Stream}

namespace Application

variable {a : Application}

theorem performStrictly_other (engine : Engine) (other : a.kind ≠ .select) (stream : Stream) :
    a.performStrictly engine stream = a.perform engine stream := by
  simp [performStrictly, other]

/-- A selection that keeps all traversers is not told from a strict one. -/
theorem performStrictly_sound (engine : Engine)
    (sound : Exec.Sound (Count stream.length S) (a.perform engine stream)
      (a.perform engine stream)) :
    Exec.Sound (Count stream.length S) (a.performStrictly engine stream)
      (a.perform engine stream) := by
  rw [← bind_pure (a.perform engine stream)]
  refine sound.bind fun out count => ?_
  have kept : ¬(a.kind = .select ∧ out.length < stream.length) := by
    rintro ⟨_, lost⟩
    exact absurd count.length (Nat.ne_of_lt lost)
  rw [if_neg kept]
  exact .pure count

/-! Steps without sub-traversals. -/

theorem map_sound {f : Function} {rest : List Argument}
    (arguments : a.arguments = .function f :: rest)
    (ordinary : ∀ t ∈ stream, ∀ fault, f.apply t.object = .error fault → fault.isOrdinary = true)
    (moves : ∀ t ∈ stream, ∀ v, S (t.split v)) :
    Exec.Sound (Count stream.length S) (a.map stream) (a.map stream) := by
  simp only [map, arguments]
  exact .mapEach fun t member =>
    .liftFault (fun fault failed => ordinary t member fault failed) fun v _ => moves t member v

theorem constant_sound {v : Value} {rest : List Argument}
    (arguments : a.arguments = .literal v :: rest) (moves : ∀ t ∈ stream, S (t.split v)) :
    Exec.Sound (Count stream.length S) (a.constant stream) (a.constant stream) := by
  have value : a.value 0 = pure v := by simp [Application.value, Arguments.value, arguments]
  rw [constant, value, pure_bind]
  exact .mapEach fun t member => .pure (moves t member)

theorem fold_sound (P : Stream → Prop) (holds : P stream) :
    Exec.Sound (Count 1 fun u => ∃ members, u.object = .list (objects members) ∧ P members)
      (fold stream) (fold stream) :=
  .pure (.one ⟨stream, rfl, holds⟩)

theorem matching_sound {p : Predicate} {rest : List Argument}
    (arguments : a.arguments = .predicate p :: rest) (all : All R stream) :
    Exec.Sound (All R) (a.matching stream) (a.matching stream) := by
  rw [matching_filter arguments]
  exact .pure fun t member => all t (List.mem_of_mem_filter member)

end Application

/-- Only elements have properties, and only while they are stored. -/
theorem Graph.propertiesOf_fault (g : Graph) {v : Value} {fault : ExecutionFault}
    (failed : g.propertiesOf v = .error fault) : fault.isOrdinary = true := by
  unfold propertiesOf at failed
  split at failed
  · split at failed <;> cases failed
    rfl
  · split at failed <;> cases failed
    rfl
  · cases failed
    rfl

namespace Exec.Sound

theorem idAndLabel (v : Value) :
    Sound (fun _ => True) (Exec.idAndLabel v) (Exec.idAndLabel v) := by
  cases v with
  | vertex _ | edge _ => exact pure trivial
  | _ => exact throw rfl

theorem ownerOf (v : Value) : Sound (fun _ => True) (Exec.ownerOf v) (Exec.ownerOf v) := by
  cases v with
  | vertex _ | edge _ => exact pure trivial
  | _ => exact throw rfl

theorem vertexIdOf (v : Value) :
    Sound (fun _ => True) (Exec.vertexIdOf v) (Exec.vertexIdOf v) := by
  cases v with
  | vertex _ => exact pure trivial
  | _ => exact throw rfl

theorem propertiesOf (v : Value) :
    Sound (fun _ => True) (Exec.propertiesOf v) (Exec.propertiesOf v) := by
  intro store
  have gives := propertiesOf_gives ⟨store, []⟩ v
  refine ⟨_, store, gives, gives, ?_⟩
  cases found : store.graph.propertiesOf v with
  | ok known => trivial
  | error fault => exact .inl (store.graph.propertiesOf_fault found)

theorem property? (v : Value) (key : String) :
    Sound (fun _ => True) (Exec.property? v key) (Exec.property? v key) := by
  cases v with
  | vertex _ | edge _ => exact (propertiesOf _).bind fun _ _ => pure trivial
  | _ => exact pure trivial

theorem vertexValue (id : VertexId) :
    Sound (fun v => ∃ ref, v = .vertex ref) (Exec.vertexValue id) (Exec.vertexValue id) := by
  refine graph.bind fun g _ => ?_
  split
  · exact pure ⟨_, rfl⟩
  · exact throw rfl

theorem createVertex (label : Option String) :
    Sound (fun v => ∃ ref, v = .vertex ref) (Exec.createVertex label) (Exec.createVertex label) :=
  reading fun store => (writing (store.addVertex (label.getD Exec.defaultLabel) []).2).bind
    fun _ _ => pure ⟨_, rfl⟩

theorem createEdge (label : String) (source target : VertexId) :
    Sound (fun v => ∃ ref, v = .edge ref) (Exec.createEdge label source target)
      (Exec.createEdge label source target) :=
  reading fun _ => (liftFault (fun _ _ => rfl) fun _ _ => trivial).bind fun made _ =>
    (writing made.2).bind fun _ _ => pure ⟨_, rfl⟩

end Exec.Sound

namespace Application

variable {a : Application}

theorem inapplicable_sound {α : Type} {P : α → Prop} (a : Application) (v : Value) :
    Exec.Sound P (a.inapplicable v) (a.inapplicable v) := .throw rfl

theorem id_sound (moves : ∀ t ∈ stream, ∀ v, S (t.split v)) :
    Exec.Sound (Count stream.length S) (Application.id stream) (Application.id stream) :=
  .mapEach fun t member => (Sound.idAndLabel t.object).bind fun _ _ => .pure (moves t member _)

theorem label_sound (a : Application) (moves : ∀ t ∈ stream, ∀ v, S (t.split v)) :
    Exec.Sound (Count stream.length S) (a.label stream) (a.label stream) := by
  refine .mapEach fun t member => ?_
  split
  · exact .pure (moves t member _)
  · split
    · exact .pure (moves t member _)
    · exact inapplicable_sound a _

theorem properties_sound (a : Application) (stream : Stream) :
    Exec.Sound (fun _ => True) (a.properties stream) (a.properties stream) := by
  refine (Sound.forEach (R := fun _ => True) fun t _ => ?_).imp fun _ _ => trivial
  refine (Sound.ownerOf t.object).bind fun _ _ => (Sound.propertiesOf t.object).bind fun _ _ => ?_
  exact .pure fun _ _ => trivial

theorem key_sound (a : Application) (stream : Stream) :
    Exec.Sound (fun _ => True) (a.key stream) (a.key stream) := by
  refine (Sound.mapEach (R := fun _ => True) fun t _ => ?_).imp fun _ _ => trivial
  split
  · exact .pure trivial
  · exact inapplicable_sound a _

theorem values_sound {key : String} (labels : a.labels = [key]) :
    Exec.Sound (fun out => out.length ≤ 1) (a.values [t]) (a.values [t]) := by
  rw [values, forEach_one]
  refine (Sound.propertiesOf t.object).bind fun known _ => .pure ?_
  cases found : Dictionary.get? key known <;> simp [labels, found]

theorem valueMap_sound (a : Application) (moves : ∀ t ∈ stream, ∀ v, S (t.split v)) :
    Exec.Sound (Count stream.length S) (a.valueMap stream) (a.valueMap stream) := by
  have properties (t : Traverser) (member : t ∈ stream) (tokens : List (String × Value)) :
      Exec.Sound (fun v => S (t.split v))
        (do return Value.record (tokens ++ (← propertiesOf t.object)))
        (do return Value.record (tokens ++ (← propertiesOf t.object))) :=
    (Sound.propertiesOf t.object).bind fun _ _ => .pure (moves t member _)
  refine .mapEach fun t member => ?_
  split
  · simp only [pure_bind]
    exact (Sound.idAndLabel t.object).bind fun found _ => properties t member _
  · exact properties t member []

theorem has_sound {key : String} {rest : List Argument}
    (arguments : a.arguments = .label key :: rest) (all : All R stream) :
    Exec.Sound (All R) (a.has stream) (a.has stream) := by
  have text : a.text 0 = pure key := by simp [Application.text, Arguments.text, arguments]
  rw [has, text, pure_bind]
  refine .keep all fun t _ => (Sound.property? t.object key).bind fun found _ => ?_
  split
  · exact .pure trivial
  · split <;> exact .pure trivial

theorem hasLabel_sound (a : Application) (all : All R stream) :
    Exec.Sound (All R) (a.hasLabel stream) (a.hasLabel stream) :=
  .keep all fun _ _ => .pure trivial

theorem edges_sound (a : Application) (incident : Graph → VertexId → List Edge)
    (moves : ∀ t ∈ stream, ∀ e : EdgeRef, S (t.split (.edge e))) :
    Exec.Sound (All S) (a.edges incident stream) (a.edges incident stream) := by
  refine .forEach fun t member => (Sound.vertexIdOf t.object).bind fun id _ => ?_
  refine Sound.graph.bind fun g _ => .pure fun u found => ?_
  obtain ⟨e, _, rfl⟩ := List.mem_map.mp found
  exact moves t member e.ref

theorem endpoint_sound (a : Application) (choose : EdgeRef → Traverser → VertexId)
    (moves : ∀ t ∈ stream, ∀ v : VertexRef, S (t.split (.vertex v))) :
    Exec.Sound (Count stream.length S) (a.endpoint choose stream) (a.endpoint choose stream) := by
  refine .mapEach fun t member => ?_
  split
  · refine (Sound.vertexValue _).imp ?_
    rintro _ ⟨ref, rfl⟩
    exact moves t member ref
  · exact inapplicable_sound a _

theorem vertices_sound (moves : ∀ t ∈ stream, ∀ v : VertexRef, S (t.split (.vertex v))) :
    Exec.Sound (All S) (vertices stream) (vertices stream) := by
  refine .forEach fun t member => Sound.graph.bind fun g _ => .pure fun u found => ?_
  obtain ⟨v, _, rfl⟩ := List.mem_map.mp found
  exact moves t member v.ref

theorem simplePath_sound (all : All R stream) :
    Exec.Sound (All R) (simplePath stream) (simplePath stream) :=
  .keep all fun _ _ => .pure trivial

theorem loops_sound (stream : Stream) :
    Exec.Sound (fun _ => True) (loops stream) (loops stream) :=
  (Sound.mapEach (R := fun _ => True) fun _ _ => .pure trivial).imp fun _ _ => trivial

theorem as_sound (labelled : ∀ t ∈ stream, S (a.labels.foldl Traverser.addLabel t)) :
    Exec.Sound (Count stream.length S) (a.as_ stream) (a.as_ stream) := by
  refine .pure ⟨List.length_map _, fun u member => ?_⟩
  obtain ⟨t, given, rfl⟩ := List.mem_map.mp member
  exact labelled t given

theorem addV_sound {label : Option String} (arguments : a.arguments = label.toList.map .label)
    (moves : ∀ t ∈ stream, ∀ v : VertexRef, S (t.split (.vertex v))) :
    Exec.Sound (Count stream.length S) (a.addV stream) (a.addV stream) := by
  have created (label : Option String) :
      Exec.Sound (Count stream.length S) (mapEach (fun _ => createVertex label) stream)
        (mapEach (fun _ => createVertex label) stream) := by
    refine .mapEach fun t member => (Sound.createVertex label).imp ?_
    rintro _ ⟨ref, rfl⟩
    exact moves t member ref
  cases label with
  | none =>
      simp only [addV, arguments, Option.toList_none, List.map_nil, List.isEmpty_nil, if_true,
        pure_bind]
      exact created none
  | some label =>
      have text : a.text 0 = pure label := by simp [Application.text, Arguments.text, arguments]
      simp only [addV, arguments, Option.toList_some, List.map_cons, List.map_nil,
        List.isEmpty_cons, text]
      exact created (some label)

theorem drop_sound (a : Application) (stream : Stream) :
    Exec.Sound (All S) (a.drop stream) (a.drop stream) := by
  refine .forEach fun t _ => Sound.bind (P := fun _ => True) ?_ fun _ _ => .pure nofun
  have counted : Exec.Sound (fun _ => True)
      (modify fun world => { world with store := world.store.countDrop } : Exec Unit)
      (modify fun world => { world with store := world.store.countDrop } : Exec Unit) :=
    fun store => ⟨.ok (), store.countDrop, rfl, rfl, trivial⟩
  unfold dropOne
  dsimp only
  split
  all_goals first
    | exact (Sound.update _).bind fun _ _ => counted
    | exact (inapplicable_sound (P := fun _ => True) a _).bind fun _ _ => counted

theorem unfold_sound (moves : ∀ t ∈ stream, ∀ part ∈ parts t.object, S (t.split part)) :
    Exec.Sound (fun out => All S out ∧ objects out = stream.flatMap fun t => parts t.object)
      (unfold stream) (unfold stream) := by
  unfold unfold
  induction stream with
  | nil => exact .pure ⟨nofun, rfl⟩
  | cons t rest ih =>
      have others := ih fun u later => moves u (List.mem_cons_of_mem _ later)
      refine Sound.bind (P := (· = (parts t.object).map t.split)) (.pure rfl) ?_
      rintro _ rfl
      refine others.bind fun out holds => .pure ⟨List.forall_mem_append.mpr ⟨?_, holds.1⟩, ?_⟩
      · intro u member
        obtain ⟨part, inside, rfl⟩ := List.mem_map.mp member
        exact moves t List.mem_cons_self part inside
      · rw [List.flatMap_cons, ← holds.2]
        simp [objects, Function.comp_def, Traverser.split, Traverser.object]

theorem dedup_sound (labels : a.labels = []) (modulations : a.modulations = [])
    (all : All R stream) : Exec.Sound (All R) (a.dedup stream) (a.dedup stream) := by
  have bys : a.bys = [] := by simp [bys, modulationsOf, modulations]
  have passing (seen : List Value) :
      Exec.Sound (All R) (distinctBy (fun t => pure t.object) seen stream)
        (distinctBy (fun t => pure t.object) seen stream) := by
    induction stream generalizing seen with
    | nil => exact .pure (List.forall_mem_nil _)
    | cons t rest ih =>
        have others := ih fun u later => all u (List.mem_cons_of_mem _ later)
        simp only [distinctBy, pure_bind]
        split
        · exact others seen
        · refine (others _).bind fun out holds => .pure ?_
          exact List.forall_mem_cons.mpr ⟨all t List.mem_cons_self, holds⟩
  simpa [dedup, labels, bys] using passing []

theorem inject_sound {values : List Value} (arguments : a.arguments = values.map .literal)
    (all : All R stream) (starts : ∀ v ∈ values, R (.start v)) :
    Exec.Sound (All R) (a.inject stream) (a.inject stream) := by
  refine .pure (List.forall_mem_append.mpr ⟨fun u member => ?_, all⟩)
  obtain ⟨v, given, rfl⟩ := List.mem_map.mp member
  rw [arguments, List.filterMap_map] at given
  exact starts v (by simpa [Function.comp_def, literal?] using given)

theorem limit_sound {n : Int64} (arguments : a.arguments = [.literal (.int n)])
    (all : All R stream) : Exec.Sound (All R) (a.limit stream) (a.limit stream) := by
  have read : Arguments.scopedInteger a.kind a.arguments 0 = pure n := by
    simp [Arguments.scopedInteger, Arguments.integer, arguments]
  have global : a.scope = .global := by simp [Application.scope, Arguments.scope, arguments]
  rw [limit, read, pure_bind, global]
  refine .pure fun t member => all t ?_
  simp only [window, slice] at member
  split at member
  · exact List.mem_of_mem_drop member
  · exact List.mem_of_mem_drop (List.mem_of_mem_take member)

theorem skip_sound {n : Int64} (arguments : a.arguments = [.literal (.int n)])
    (all : All R stream) : Exec.Sound (All R) (a.skip stream) (a.skip stream) := by
  have read : Arguments.integer a.kind a.arguments 0 = pure n := by
    simp [Arguments.integer, arguments]
  rw [skip, read, pure_bind]
  exact .pure fun t member => all t (List.mem_of_mem_drop member)

theorem count_sound (arguments : a.arguments = []) (starts : ∀ v, S (.start v)) (stream : Stream) :
    Exec.Sound (Count 1 S) (a.count stream) (a.count stream) := by
  have global : a.scope = .global := by simp [Application.scope, Arguments.scope, arguments]
  rw [count, global]
  exact .pure (.one (starts _))

theorem reduce?_fault {kind : StepKind} {values : List Value} {fault : ExecutionFault}
    (failed : Reduce.reduce? kind values = .error fault) : fault.isOrdinary = true := by
  unfold Reduce.reduce? at failed
  split at failed
  · cases failed
  · cases failed
  · split at failed <;> cases failed
    rfl

theorem reduce_sound (arguments : a.arguments = []) (starts : ∀ v, S (.start v))
    (stream : Stream) :
    Exec.Sound (fun out => All S out ∧ out.length ≤ 1) (a.reduce stream) (a.reduce stream) := by
  have global : a.scope = .global := by simp [Application.scope, Arguments.scope, arguments]
  rw [reduce, global]
  refine (Sound.liftFault (P := fun _ => True) (fun _ failed => reduce?_fault failed)
    fun _ _ => trivial).bind fun value _ => .pure ?_
  cases value with
  | none => exact ⟨nofun, Nat.zero_le 1⟩
  | some v => exact ⟨(Count.one (starts v)).all, Nat.le_refl 1⟩

theorem sum_sound (kind : a.kind = .sum) (arguments : a.arguments = [])
    (starts : ∀ v, S (.start v)) (stream : Stream) :
    Exec.Sound (Count 1 S) (a.reduce stream) (a.reduce stream) := by
  have global : a.scope = .global := by simp [Application.scope, Arguments.scope, arguments]
  rw [reduce, global]
  refine (Sound.liftFault (P := fun found => found.isSome = true)
    (fun _ failed => reduce?_fault failed) fun found reduced => ?_).bind fun found present => ?_
  · rw [kind] at reduced
    simp only [Reduce.reduce?] at reduced
    split at reduced <;> cases reduced
    rfl
  · obtain ⟨v, rfl⟩ := Option.isSome_iff_exists.mp present
    exact .pure (.one (starts v))

end Application

/-- What a name stands for while no side effects are remembered. -/
def Traverser.named? (t : Traverser) (pop : Pop) (name : String) : Option Value :=
  World.named? ⟨.empty, []⟩ t pop name

namespace Exec.Sound

theorem named? (t : Traverser) (pop : Pop) (name : String) :
    Sound (· = t.named? pop name) (Exec.named? t pop name) (Exec.named? t pop name) :=
  reading fun _ => pure rfl

end Exec.Sound

namespace Application

variable {a : Application}

theorem selectKeys_sound {pop : Pop} {keys : List String}
    (finds : ∀ key ∈ keys, (t.named? pop key).isSome = true) (index : Nat) :
    Exec.Sound (fun found => ∃ entries : List (String × Value), found = some entries ∧
        entries.map (fun entry => (entry.1, some entry.2)) =
          keys.map fun key => (key, t.named? pop key))
      (selectKeys [] pop t index keys) (selectKeys [] pop t index keys) := by
  induction keys generalizing index with
  | nil => exact .pure ⟨[], rfl, rfl⟩
  | cons key rest ih =>
      obtain ⟨v, found⟩ := Option.isSome_iff_exists.mp (finds key List.mem_cons_self)
      rw [selectKeys]
      refine (Sound.named? t pop key).bind ?_
      rintro _ rfl
      simp only [found, byAt, List.getElem?_nil, Option.join_none, pure_bind]
      refine (ih (fun other later => finds other (List.mem_cons_of_mem _ later)) _).bind ?_
      rintro _ ⟨entries, rfl, known⟩
      exact .pure ⟨(key, v) :: entries, rfl, by simp [found, known]⟩

theorem selectOne_sound (modulations : a.modulations = []) {pop : Pop} {keys : List String}
    (finds : ∀ key ∈ keys, (t.named? pop key).isSome = true)
    (moves : ∀ v, (∀ key, keys = [key] → t.named? pop key = some v) → S (t.split v)) :
    Exec.Sound (Count 1 S) (a.selectOne pop keys t) (a.selectOne pop keys t) := by
  have bys : a.bys = [] := by simp [bys, modulationsOf, modulations]
  rw [selectOne, bys]
  refine (selectKeys_sound finds 0).bind ?_
  rintro _ ⟨entries, rfl, known⟩
  have several (v : Value) (many : ∀ key v, entries ≠ [(key, v)]) : S (t.split v) := by
    refine moves v fun key only => ?_
    subst only
    obtain ⟨entry, rfl, _⟩ := List.map_eq_singleton_iff.mp known
    exact absurd rfl (many entry.1 entry.2)
  split
  · next absent => cases absent
  · next key v same =>
      cases same
      refine .pure (.one (moves v fun other only => ?_))
      subst only
      simp only [List.map_cons, List.map_nil, List.cons.injEq, Prod.mk.injEq, and_true] at known
      exact known.2.symm
  · next others many same =>
      cases same
      exact .pure (.one (several _ many))

theorem select_sound {keys : List String} (arguments : a.arguments = keys.map .label)
    (modulations : a.modulations = [])
    (finds : ∀ t ∈ stream, ∀ key ∈ keys, (t.named? .last key).isSome = true)
    (moves : ∀ t ∈ stream, ∀ v, (∀ key, keys = [key] → t.named? .last key = some v) →
      S (t.split v)) :
    Exec.Sound (Count stream.length S) (a.select stream) (a.select stream) := by
  have labels : a.labels = keys := by
    simp [Application.labels, Arguments.labels, arguments, List.filterMap_map]
  have selects : a.select stream = Exec.forEach (a.selectOne .last a.labels) stream := by
    cases keys <;> simp [select, arguments]
  rw [selects, labels]
  exact .forEach_one fun t member => selectOne_sound modulations (finds t member) (moves t member)

theorem selectAll_sound {name : String} (arguments : a.arguments = [.pop .all, .label name])
    (modulations : a.modulations = []) (moves : ∀ t ∈ stream, ∀ v, S (t.split v)) :
    Exec.Sound (Count stream.length S) (a.select stream) (a.select stream) := by
  have text : a.text 1 = pure name := by simp [Application.text, Arguments.text, arguments]
  have selects : a.select stream = Exec.forEach (a.selectOne .all [name]) stream := by
    simp [select, arguments, text]
  rw [selects]
  refine .forEach_one fun t member => selectOne_sound modulations (fun key named => ?_)
    fun v _ => moves t member v
  simp only [Traverser.named?, World.named?, Dictionary.get?, Traverser.pathValue?]
  split <;> rfl

theorem selectValues_sound (arguments : a.arguments = [.column .values])
    (moves : ∀ t ∈ stream, ∃ entries, t.object = .map entries ∧
      S (t.split (.list (entries.map (·.2))))) :
    Exec.Sound (Count stream.length S) (a.select stream) (a.select stream) := by
  simp only [select, arguments]
  refine .mapEach fun t member => ?_
  obtain ⟨entries, place, moved⟩ := moves t member
  rw [place]
  exact .pure moved

theorem wherePredicate_sound {p : Predicate} {rest : List Argument}
    (arguments : a.arguments = .predicate p :: rest) (all : All R stream) :
    Exec.Sound (All R) (a.where_ stream) (a.where_ stream) := by
  have asked : a.predicate? 0 = some p := by simp [predicate?, arguments]
  simp only [where_, asked]
  exact .keep all fun t _ => .reading fun _ => .pure trivial

theorem edgeEnd_sound {m : Modulation} {label : String} (arguments : m.arguments = [.label label])
    (finds : (t.named? .last label).isSome = true) :
    Exec.Sound (fun _ => True) (edgeEnd (some m) t) (edgeEnd (some m) t) := by
  have text : m.text 0 = pure label := by simp [Modulation.text, Arguments.text, arguments]
  obtain ⟨v, found⟩ := Option.isSome_iff_exists.mp finds
  simp only [edgeEnd, text, pure_bind]
  refine (Sound.named? t .last label).bind ?_
  rintro _ rfl
  rw [found]
  exact Sound.vertexIdOf v

theorem addE_sound (label source target : String) (arguments : a.arguments = [.label label])
    (modulations : a.modulations =
      [⟨.from_, [.label source], [], false⟩, ⟨.to_, [.label target], [], false⟩])
    (finds : ∀ t ∈ stream, (t.named? .last source).isSome = true ∧
      (t.named? .last target).isSome = true)
    (moves : ∀ t ∈ stream, ∀ e : EdgeRef, S (t.split (.edge e))) :
    Exec.Sound (Count stream.length S) (a.addE stream) (a.addE stream) := by
  have text : a.text 0 = pure label := by simp [Application.text, Arguments.text, arguments]
  have starts : a.last? .from_ = some ⟨.from_, [.label source], [], false⟩ := by
    rw [last?, modulationsOf, modulations]
    rfl
  have ends : a.last? .to_ = some ⟨.to_, [.label target], [], false⟩ := by
    rw [last?, modulationsOf, modulations]
    rfl
  rw [addE, text, pure_bind, starts, ends]
  refine .mapEach fun t member => ?_
  refine (edgeEnd_sound rfl (finds t member).1).bind fun x _ => ?_
  refine (edgeEnd_sound rfl (finds t member).2).bind fun y _ => ?_
  refine (Sound.createEdge label x y).imp ?_
  rintro _ ⟨ref, rfl⟩
  exact moves t member ref

end Application

end PropertyGraph
