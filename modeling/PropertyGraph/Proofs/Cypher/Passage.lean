import PropertyGraph.Cypher.ReturnScript
import PropertyGraph.Proofs.Builder.Stages
import PropertyGraph.Proofs.Run.PlanSoundness

/-!
Operations that lead streams of one kind to streams of another: one statement for each way to put
operations together.
-/

namespace PropertyGraph

open Exec Plan

def Stage.isLoop : Stage → Bool
  | .apply step _ _ => step.kind == .repeat_
  | _ => false

namespace Cypher

open Script

variable {Pre Mid Post : Stream → Prop} {R S : Traverser → Prop} {operations more : Ops}

abbrev Anything : Traverser → Prop := fun _ => True

/-- The operations append stages, none of them a loop, that lead such streams to such others. -/
def Passes (Pre : Stream → Prop) (operations : Ops) (Post : Stream → Prop) : Prop :=
  ∃ stages, Builds operations stages ∧ (∀ stage ∈ stages, stage.isLoop = false) ∧
    StagesCarry Pre stages Post

namespace Passes

theorem nil (implies : ∀ stream, Pre stream → Post stream) : Passes Pre [] Post :=
  ⟨[], .nil, nofun, .nil implies⟩

theorem append (first : Passes Pre operations Mid) (next : Passes Mid more Post) :
    Passes Pre (operations ++ more) Post := by
  obtain ⟨stages, builds, straight, carry⟩ := first
  obtain ⟨others, buildsNext, straightNext, carryNext⟩ := next
  exact ⟨stages ++ others, builds.append buildsNext,
    List.forall_mem_append.mpr ⟨straight, straightNext⟩, carry.append carryNext⟩

theorem imp {Pre' Post' : Stream → Prop} (passes : Passes Pre operations Post)
    (before : ∀ stream, Pre' stream → Pre stream)
    (after : ∀ stream, Post stream → Post' stream) : Passes Pre' operations Post' := by
  obtain ⟨stages, builds, straight, carry⟩ := passes
  exact ⟨stages, builds, straight, carry.imp before after⟩

theorem before {Pre' : Stream → Prop} (passes : Passes Pre operations Post)
    (implies : ∀ stream, Pre' stream → Pre stream) : Passes Pre' operations Post :=
  passes.imp implies fun _ holds => holds

theorem after {Post' : Stream → Prop} (passes : Passes Pre operations Post)
    (implies : ∀ stream, Post stream → Post' stream) : Passes Pre operations Post' :=
  passes.imp (fun _ holds => holds) implies

theorem script (passes : Passes Pre operations Post) :
    ∃ plan, Makes (.of operations) plan ∧ plan.Carries Pre Post := by
  obtain ⟨stages, builds, _, carry⟩ := passes
  exact ⟨.mk stages [], .of builds, carry.plan⟩

theorem one {kind : StepKind} (plain : kind.IsPlain) {op : Op Script} {arguments : List Argument}
    {children : List Plan} {modulators : List Modulator} {rest : Ops}
    (builds : Builds (op :: rest) [.apply (.mk kind arguments) children modulators])
    (carry : StagesCarry Pre [.apply (.mk kind arguments) children modulators] Post) :
    Passes Pre (op :: rest) Post := by
  refine ⟨_, builds, fun stage member => ?_, carry⟩
  cases List.mem_singleton.mp member
  exact beq_eq_false_iff_ne.mpr plain.straight

theorem step {kind : StepKind} (plain : kind.IsPlain) (apart : kind ≠ .select)
    (inner : kind.isEntry = false) {slots : List (Slot Script)} {arguments : List Argument}
    (resolved : ∃ found : List (Slot Live), resolve slots = .ok found ∧
      found.map Live.argument = arguments ∧ found.filterMap Live.child? = [])
    (sound : ∀ engine stream, Pre stream → Exec.Sound Post
      (Application.perform engine ⟨kind, arguments, [], []⟩ stream)
      (Application.perform engine ⟨kind, arguments, [], []⟩ stream)) :
    Passes Pre [.append kind slots inner] Post := by
  obtain ⟨found, resolved, rfl, childless⟩ := resolved
  have builds := Builds.step kind plain inner slots resolved
  rw [childless] at builds
  exact one plain builds (.other apart sound)

theorem labelled {kind : StepKind} (plain : kind.IsPlain) (apart : kind ≠ .select)
    (inner : kind.isEntry = false) (keys : List String)
    (sound : ∀ engine stream, Pre stream → Exec.Sound Post
      (Application.perform engine ⟨kind, keys.map .label, [], []⟩ stream)
      (Application.perform engine ⟨kind, keys.map .label, [], []⟩ stream)) :
    Passes Pre [.labelled kind keys inner] Post :=
  one plain (Builds.labelled kind plain inner keys) (.other apart sound)

theorem bare {kind : StepKind} (plain : kind.IsPlain) (apart : kind ≠ .select)
    (inner : kind.isEntry = false)
    (sound : ∀ engine stream, Pre stream → Exec.Sound Post
      (Application.perform engine ⟨kind, [], [], []⟩ stream)
      (Application.perform engine ⟨kind, [], [], []⟩ stream)) :
    Passes Pre [.append kind [] inner] Post :=
  step plain apart inner ⟨[], rfl, rfl, rfl⟩ sound

theorem flat {kind : StepKind} (plain : kind.IsPlain) (apart : kind ≠ .select)
    (inner : kind.isEntry = false) (argument : Argument) (flat : argument.program? = none)
    (sound : ∀ engine stream, Pre stream → Exec.Sound Post
      (Application.perform engine ⟨kind, [argument], [], []⟩ stream)
      (Application.perform engine ⟨kind, [argument], [], []⟩ stream)) :
    Passes Pre [.append kind [.argument argument flat] inner] Post :=
  step plain apart inner ⟨[.argument argument flat], rfl, rfl, rfl⟩ sound

end Passes

theorem scripts_carry {scripts : List Script}
    (passes : ∀ script ∈ scripts, ∃ inside, script = .of inside ∧ Passes Pre inside Post) :
    ∃ plans, List.Forall₂ Makes scripts plans ∧ ∀ plan ∈ plans, plan.Carries Pre Post := by
  induction scripts with
  | nil => exact ⟨[], .nil, nofun⟩
  | cons script rest ih =>
      obtain ⟨inside, rfl, first⟩ := passes script List.mem_cons_self
      obtain ⟨plan, makes, carries⟩ := first.script
      obtain ⟨plans, make, carry⟩ :=
        ih fun other later => passes other (List.mem_cons_of_mem _ later)
      exact ⟨plan :: plans, .cons makes make, List.forall_mem_cons.mpr ⟨carries, carry⟩⟩

theorem no_predicate (kind : StepKind) (programs : List Program) (children : List Child)
    (modulations : List Modulation) :
    Application.predicate? ⟨kind, programs.map .program, children, modulations⟩ 0 = none := by
  cases programs <;> rfl

namespace Passes

theorem constant (v : Value) (moves : ∀ t, R t → S (t.split v)) :
    Passes (Count 1 R) [.constant v] (Count 1 S) := by
  refine flat ⟨rfl, by decide⟩ (by decide) rfl (.literal v) rfl fun engine stream count => ?_
  have sound := Application.constant_sound (a := ⟨.constant, [.literal v], [], []⟩) rfl
    (fun t member => moves t (count.all t member))
  rwa [count.length] at sound

theorem apply {f : Function}
    (ordinary : ∀ t, R t → ∀ fault, f.apply t.object = .error fault → fault.isOrdinary = true) :
    Passes (Count 1 R) [.apply f] (Count 1 Anything) := by
  refine flat ⟨rfl, by decide⟩ (by decide) rfl (.function f) rfl fun engine stream count => ?_
  have sound := Application.map_sound (a := ⟨.map, [.function f], [], []⟩) (S := Anything) rfl
    (fun t member => ordinary t (count.all t member)) fun _ _ _ => trivial
  rwa [count.length] at sound

theorem fold : Passes Pre [.append .fold []]
    (Count 1 fun u => ∃ members, u.object = .list (objects members) ∧ Pre members) :=
  bare ⟨rfl, by decide⟩ (by decide) rfl fun _ _ holds => Application.fold_sound Pre holds

theorem is_ (p : Predicate) : Passes (All R) [.is_ p] (All R) :=
  flat ⟨rfl, by decide⟩ (by decide) rfl (.predicate p) rfl fun _ _ all =>
    Application.matching_sound (a := ⟨.is_, [.predicate p], [], []⟩) rfl all

theorem select {name : String} (finds : ∀ t, R t → (t.named? .last name).isSome = true)
    (moves : ∀ t v, R t → t.named? .last name = some v → S (t.split v))
    (kept : ∀ stream out, Pre stream → All R stream ∧ (Count stream.length S out → Post out)) :
    Passes Pre [.select [name]] Post := by
  refine one ⟨rfl, by decide⟩ (Builds.labelled .select ⟨rfl, by decide⟩ rfl [name])
    (.select (R := S) (fun stream holds => ?_) fun stream out holds => (kept stream out holds).2)
  have all := (kept stream [] holds).1
  have given : [Argument.label name] = [name].map .label := rfl
  refine Application.select_sound given rfl (fun t member key listed => ?_)
    fun t member v only => moves t v (all t member) (only name rfl)
  rw [List.mem_singleton.mp listed]
  exact finds t (all t member)

theorem selectAll (name : String) (moves : ∀ t v, R t → S (t.split v)) :
    Passes (Count 1 R) [.selectLabel .all name] (Count 1 S) := by
  have builds : Builds [.selectLabel .all name] [.bare .select [.pop .all, .label name]] :=
    Builds.step .select ⟨rfl, by decide⟩ rfl [.pop .all, .label name] rfl
  refine one ⟨rfl, by decide⟩ builds
    (.select (R := S) (fun stream count => ?_) fun stream out count reached => ?_)
  · exact Application.selectAll_sound rfl rfl fun t member v => moves t v (count.all t member)
  · rwa [count.length] at reached

theorem union {scripts : List Script} (passes : ∀ script ∈ scripts, ∃ inside,
      script = .of inside ∧ Passes (Count 1 R) inside (Count 1 S)) :
    Passes (Count 1 R) [.nested .union scripts] (Count scripts.length S) := by
  obtain ⟨plans, make, carry⟩ := scripts_carry passes
  obtain ⟨programs, builds⟩ := Builds.nested .union ⟨rfl, by decide⟩ rfl make
  refine one ⟨rfl, by decide⟩ builds (.other (by decide) fun engine stream count => ?_)
  obtain ⟨t, rfl, holds⟩ := count.single
  have sound := Application.union_sound
    (a := ⟨.union, programs.map .program, strictChildren engine plans, strictModulations engine []⟩)
    (b := ⟨.union, programs.map .program, runChildren engine plans, Plan.modulations engine []⟩)
    (children_sound carry engine) holds
  rwa [strictChildren_length, ← make.length_eq] at sound

/-- The second script stands in where the first one has nothing. -/
theorem coalesce {first second : Ops}
    (passes : Passes (Count 1 R) first fun out => All S out ∧ out.length ≤ 1)
    (otherwise : Passes (Count 1 R) second (Count 1 S)) :
    Passes (Count 1 R) [.nested .coalesce [.of first, .of second]] (Count 1 S) := by
  obtain ⟨plan, makes, carries⟩ := passes.script
  obtain ⟨other, makesOther, carriesOther⟩ := otherwise.script
  obtain ⟨programs, builds⟩ := Builds.nested .coalesce ⟨rfl, by decide⟩ rfl
    (.cons makes (.cons makesOther .nil))
  refine one ⟨rfl, by decide⟩ builds (.other (by decide) fun engine stream count => ?_)
  obtain ⟨t, rfl, holds⟩ := count.single
  exact Application.coalesce_sound rfl rfl (carries.child engine) (carriesOther.child engine) holds

theorem ownProperty (key : String) :
    Passes (Count 1 R) [Cypher.ownProperty key] (Count 1 Anything) := by
  refine coalesce ?_ (constant Value.unknown fun _ _ => trivial)
  refine labelled ⟨rfl, by decide⟩ (by decide) rfl [key] fun engine stream count => ?_
  obtain ⟨t, rfl, _⟩ := count.single
  refine (Application.values_sound (a := ⟨.values, [.label key], [], []⟩) rfl).imp ?_
  exact fun out few => ⟨fun _ _ => trivial, few⟩

theorem choice {condition yes no : Ops} (asks : Passes (Count 1 R) condition fun _ => True)
    (first : Passes (Count 1 R) yes (Count 1 S)) (second : Passes (Count 1 R) no (Count 1 S)) :
    Passes (Count 1 R) [Cypher.choice condition yes no] (Count 1 S) := by
  obtain ⟨plan, makes, carries⟩ := asks.script
  obtain ⟨planYes, makesYes, carriesYes⟩ := first.script
  obtain ⟨planNo, makesNo, carriesNo⟩ := second.script
  obtain ⟨programs, builds⟩ := Builds.nested .choose ⟨rfl, by decide⟩ rfl
    (.cons makes (.cons makesYes (.cons makesNo .nil)))
  refine one ⟨rfl, by decide⟩ builds (.other (by decide) fun engine stream count => ?_)
  obtain ⟨t, rfl, holds⟩ := count.single
  exact Application.choose_sound rfl rfl (no_predicate _ _ _ _) (no_predicate _ _ _ _)
    (carries.child engine) (carriesYes.child engine) (carriesNo.child engine) holds

theorem truthOf {condition : Ops} (asks : Passes (Count 1 R) condition fun _ => True) :
    Passes (Count 1 R) [Cypher.truthOf condition] (Count 1 Anything) :=
  choice asks (constant _ fun _ _ => trivial) (constant _ fun _ _ => trivial)

theorem where_ {condition : Ops} (asks : Passes (Count 1 R) condition fun _ => True) :
    Passes (All R) [.nested .where_ [.of condition]] (All R) := by
  obtain ⟨plan, makes, carries⟩ := asks.script
  obtain ⟨programs, builds⟩ := Builds.nested .where_ ⟨rfl, by decide⟩ rfl (.cons makes .nil)
  refine one ⟨rfl, by decide⟩ builds (.other (by decide) fun engine stream all => ?_)
  exact Application.where_sound rfl rfl (no_predicate _ _ _ _) (no_predicate _ _ _ _)
    (carries.child engine) all

theorem and {scripts : List Script} (asks : ∀ script ∈ scripts, ∃ inside,
      script = .of inside ∧ Passes (Count 1 R) inside fun _ => True) :
    Passes (All R) [.nested .and scripts] (All R) := by
  obtain ⟨plans, make, carry⟩ := scripts_carry asks
  obtain ⟨programs, builds⟩ := Builds.nested .and ⟨rfl, by decide⟩ rfl make
  refine one ⟨rfl, by decide⟩ builds (.other (by decide) fun engine stream all => ?_)
  exact Application.and_sound (children_sound carry engine) all

theorem or {scripts : List Script} (asks : ∀ script ∈ scripts, ∃ inside,
      script = .of inside ∧ Passes (Count 1 R) inside fun _ => True) :
    Passes (All R) [.nested .or scripts] (All R) := by
  obtain ⟨plans, make, carry⟩ := scripts_carry asks
  obtain ⟨programs, builds⟩ := Builds.nested .or ⟨rfl, by decide⟩ rfl make
  refine one ⟨rfl, by decide⟩ builds (.other (by decide) fun engine stream all => ?_)
  exact Application.or_sound (children_sound carry engine) all

/-- What the script does to the graph is done, and the traversers stay. -/
theorem sideEffect {inside : Ops} (acts : Passes (Count 1 R) inside fun _ => True) :
    Passes (All R) [.nested .sideEffect [.of inside]] (All R) := by
  obtain ⟨plan, makes, carries⟩ := acts.script
  obtain ⟨programs, builds⟩ := Builds.nested .sideEffect ⟨rfl, by decide⟩ rfl (.cons makes .nil)
  refine one ⟨rfl, by decide⟩ builds (.other (by decide) fun engine stream all => ?_)
  exact Application.sideEffect_sound rfl rfl (carries.child engine) all

theorem limit (n : Int64) : Passes (All R) [.limit n] (All R) :=
  flat ⟨rfl, by decide⟩ (by decide) rfl (.literal (.int n)) rfl fun _ _ all =>
    Application.limit_sound (a := ⟨.limit, [.literal (.int n)], [], []⟩) rfl all

/-! Steps that are served by what is computed for each traverser. -/

end Passes

/-- The operation gives a step a `by` that finds one value for each traverser. -/
def ServesBy (R : Traverser → Prop) (op : Op Script) : Prop :=
  ∀ owner, ∃ modulator, Modulates owner op modulator ∧ Application.IsBy R modulator

theorem ServesBy.by_ {inside : Ops} (passes : Passes (Count 1 R) inside (Count 1 Anything)) :
    ServesBy R (.nested .by_ [.of inside]) := by
  intro owner
  obtain ⟨stages, builds, _, carry⟩ := passes
  obtain ⟨arguments, modulates⟩ :=
    Modulates.nested owner .by_ rfl rfl rfl builds [] rfl rfl
  exact ⟨_, modulates, .mk carry.plan⟩

theorem ServesBy.byOrder {inside : Ops} (passes : Passes (Count 1 R) inside (Count 1 Anything))
    (order : SortOrder) : ServesBy R (.byOrder (.of inside) order) := by
  intro owner
  obtain ⟨stages, builds, _, carry⟩ := passes
  have resolved : resolve [Slot.order order] = .ok [(Slot.order order : Slot Live)] := rfl
  obtain ⟨arguments, modulates⟩ := Modulates.nested owner .by_ rfl rfl rfl builds _ resolved rfl
  exact ⟨_, modulates, .mk carry.plan⟩

theorem ServesBy.all {bys : Ops} (serve : ∀ op ∈ bys, ServesBy R op) (owner : StepKind) :
    ∃ modulators, List.Forall₂ (Modulates owner) bys modulators ∧
      ∀ m ∈ modulators, Application.IsBy R m := by
  induction bys with
  | nil => exact ⟨[], .nil, nofun⟩
  | cons op rest ih =>
      obtain ⟨modulator, first, by_⟩ := serve op List.mem_cons_self owner
      obtain ⟨modulators, others, bys⟩ := ih fun op later => serve op (List.mem_cons_of_mem _ later)
      exact ⟨modulator :: modulators, .cons first others, List.forall_mem_cons.mpr ⟨by_, bys⟩⟩

namespace Passes

theorem project {keys : List String} (named : keys ≠ []) {bys : Ops}
    (serve : ∀ op ∈ bys, ServesBy R op)
    (moves : ∀ t, ∀ entries : List (String × Value), R t → entries.map (·.1) = keys →
      S (t.split (.record entries)))
    (kept : ∀ stream out, Pre stream → All R stream ∧ (Count stream.length S out → Post out)) :
    Passes Pre (.project keys :: bys) Post := by
  obtain ⟨modulators, modulate, by_⟩ := ServesBy.all serve .project
  have filled : Op.project (α := Script) keys = .labelled .project keys := by
    simp [Op.project, named]
  rw [filled]
  refine one ⟨rfl, by decide⟩
    ((Builds.labelled .project ⟨rfl, by decide⟩ rfl keys).modulated modulate)
    (.other (by decide) fun engine stream holds => ?_)
  have all := (kept stream [] holds).1
  have labels (modulations : List Modulation) :
      Application.labels ⟨.project, keys.map .label, [], modulations⟩ = keys := by
    simp [Application.labels, Arguments.labels, List.filterMap_map]
  refine (Application.project_sound (S := S)
    (a := ⟨.project, keys.map .label, [], strictModulations engine modulators⟩)
    (b := ⟨.project, keys.map .label, [], Plan.modulations engine modulators⟩)
    (by rw [labels, labels]) (Application.bys_sound by_ _ _ _ _) all
    fun t member entries given => moves t entries (all t member) (given.trans (labels _))).imp ?_
  exact fun out count => (kept stream out holds).2 count

theorem order {bys : Ops} (serve : ∀ op ∈ bys, ServesBy R op) :
    Passes (All R) (.append .order [] :: bys) (All R) := by
  obtain ⟨modulators, modulate, by_⟩ := ServesBy.all serve .order
  refine one ⟨rfl, by decide⟩
    ((Builds.step .order ⟨rfl, by decide⟩ rfl [] rfl).modulated modulate)
    (.other (by decide) fun engine stream all => ?_)
  refine (Application.order_sound engine
    (a := ⟨.order, [], [], strictModulations engine modulators⟩)
    (b := ⟨.order, [], [], Plan.modulations engine modulators⟩)
    (Application.criteria_sound by_ _ _ _ _) all).imp ?_
  exact fun out perm t member => all t (perm.mem_iff.mp member)

theorem group {inside : Ops} {P : Value → Prop}
    (keys : Passes (Count 1 R) inside (Count 1 Anything))
    (folded : ∀ members, Application.IsGroup R members → P (.list (objects members)))
    (starts : ∀ entries : List (Value × Value), (∀ entry ∈ entries, P entry.2) →
      S (.start (.map entries))) :
    Passes (All R) [.append .group [], .nested .by_ [.of inside],
      .nested .by_ [.of [.append .fold []]]] (Count 1 S) := by
  obtain ⟨_, modulates, ⟨carries⟩⟩ := ServesBy.by_ keys .group
  have folds := Builds.step .fold ⟨rfl, by decide⟩ rfl [] rfl
  obtain ⟨arguments, modulatesFold⟩ :=
    Modulates.nested .group .by_ rfl rfl rfl folds [] rfl rfl
  have carry : StagesCarry (Application.IsGroup R) [.bare .fold []]
      (Count 1 fun u => P u.object) := by
    refine .other (by decide) fun engine stream group => ?_
    refine (Application.fold_sound (Application.IsGroup R) group).imp fun out count => count.imp ?_
    rintro u ⟨members, listed, inhabited⟩
    rw [listed]
    exact folded members inhabited
  refine one ⟨rfl, by decide⟩ ((Builds.step .group ⟨rfl, by decide⟩ rfl [] rfl).modulated
    (.cons modulates (.cons modulatesFold .nil))) (.other (by decide) fun engine stream all => ?_)
  exact Application.group_sound rfl rfl (.some (carries.child engine))
    (carry.plan.child engine) rfl all starts

end Passes

end Cypher

end PropertyGraph
