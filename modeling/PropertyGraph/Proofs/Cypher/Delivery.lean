import Mathlib.Data.List.Perm.Subperm
import PropertyGraph.Proofs.Cypher.Columns
import PropertyGraph.Proofs.Cypher.Grouping
import PropertyGraph.Proofs.Cypher.ReturnSoundness
import PropertyGraph.Proofs.Run.Nesting

/-!
What operations deliver in one world if they succeed, without a change of that world; rows that are
sorted by their columns, and the part of them that is left by a window; and the rows of a query
without aggregates. Runs that fail are not spoken of.
-/

namespace PropertyGraph

namespace Exec

variable {α β : Type} {world : World} {P P' : α → Prop} {Q : β → Prop} {m : Exec α}

/-- If the run succeeds, it has found what is asked for and left the world as it was. -/
def Obtains (world : World) (P : α → Prop) (m : Exec α) : Prop :=
  ∀ a after, m.run world = (.ok a, after) → after = world ∧ P a

namespace Obtains

theorem pure {a : α} (holds : P a) : Obtains world P (Pure.pure a) := by
  rintro b after same
  cases same
  exact ⟨rfl, holds⟩

theorem throw (fault : ExecutionFault) : Obtains world P (MonadExcept.throw fault) := by
  rintro a after same
  cases same

theorem bind {f : α → Exec β} (first : Obtains world P m)
    (next : ∀ a, P a → Obtains world Q (f a)) : Obtains world Q (m >>= f) := by
  intro b after ran
  rw [run_bind] at ran
  split at ran
  · next a middle same =>
      obtain ⟨rfl, holds⟩ := first a middle same
      exact next a holds b after ran
  · cases ran

theorem imp (obtains : Obtains world P m) (implies : ∀ a, P a → P' a) : Obtains world P' m :=
  fun a after ran => (obtains a after ran).imp_right (implies a)

theorem of_gives {result : Except ExecutionFault α} (gives : Gives world m result) :
    Obtains world (fun a => result = .ok a) m := by
  intro a after ran
  rw [Gives] at gives
  obtain ⟨same, kept⟩ := Prod.mk.inj (gives.symm.trans ran)
  exact ⟨kept.symm, same⟩

theorem of_shows {see : α → β → Prop} {result : Except ExecutionFault β}
    (shows_ : Shows world see m result) :
    Obtains world (fun a => ∃ b, result = .ok b ∧ see a b) m := by
  cases result with
  | error fault => exact (of_gives shows_).imp nofun
  | ok b =>
      obtain ⟨a, gives, sees⟩ := shows_
      refine (of_gives gives).imp fun c same => ⟨b, rfl, ?_⟩
      exact Except.ok.inj same ▸ sees

variable {stream : Stream} {R : Traverser → Value → Prop}

theorem forEach_one {f : Traverser → Exec Stream}
    (each : ∀ t ∈ stream, Obtains world (fun out => ∃ v, out = [t.split v] ∧ R t v) (f t)) :
    Obtains world (List.Forall₂ (fun t u => R t u.object) stream) (Exec.forEach f stream) := by
  induction stream with
  | nil => exact pure .nil
  | cons t rest ih =>
      refine (each t List.mem_cons_self).bind ?_
      rintro _ ⟨v, rfl, here⟩
      refine (ih fun u later => each u (List.mem_cons_of_mem _ later)).bind fun more others => ?_
      exact pure (.cons here others)

theorem mapEach {f : Traverser → Exec Value} (each : ∀ t ∈ stream, Obtains world (R t) (f t)) :
    Obtains world (List.Forall₂ (fun t u => R t u.object) stream) (Exec.mapEach f stream) :=
  forEach_one fun t member => (each t member).bind fun v holds => pure ⟨v, rfl, holds⟩

end Obtains

end Exec

open Exec

namespace Application

variable {world : World} {stream : Stream} {criteria : List Criterion}

/-- The keys to sort by are looked at, and nothing is changed. -/
def OnlyKeys (world : World) (criteria : List Criterion) (t : Traverser) : Prop :=
  ∀ c ∈ criteria, Obtains world (fun _ => True) (Child.valueOr c.child .orderWithoutKey t)

theorem sortKeys_obtains {t : Traverser} (keys : OnlyKeys world criteria t) :
    Obtains world (fun _ => True) (sortKeys t criteria) := by
  induction criteria with
  | nil => exact .pure trivial
  | cons c rest ih =>
      refine (keys c List.mem_cons_self).bind fun _ _ => ?_
      refine (ih fun d later => keys d (List.mem_cons_of_mem _ later)).bind fun _ _ => ?_
      exact .pure trivial

theorem withSortKeys_obtains (keys : ∀ t ∈ stream, OnlyKeys world criteria t) :
    Obtains world (fun keyed => keyed.map (·.2) = stream) (withSortKeys criteria stream) := by
  induction stream with
  | nil => exact .pure rfl
  | cons t rest ih =>
      refine (sortKeys_obtains (keys t List.mem_cons_self)).bind fun _ _ => ?_
      refine (ih fun u later => keys u (List.mem_cons_of_mem _ later)).bind fun more same => ?_
      exact .pure (congrArg (t :: ·) same)

theorem order_obtains (engine : Engine) {a : Application}
    (keys : ∀ t ∈ stream, OnlyKeys world a.criteria t) :
    Obtains world (fun out => out.Perm stream) (a.order engine stream) := by
  refine (withSortKeys_obtains keys).bind fun keyed same => ?_
  subst same
  split
  · exact .pure (engine.shuffle.apply_perm _)
  · split
    · rename_i sorted sorts
      exact .pure ((Sorter.sort_perm sorts).map _)
    · exact .throw _

theorem distinctBy_obtains {keyOf : Traverser → Exec Value}
    (keys : ∀ t, Obtains world (fun _ => True) (keyOf t)) (seen : List Value) (stream : Stream) :
    Obtains world (fun out => out.Sublist stream) (distinctBy keyOf seen stream) := by
  induction stream generalizing seen with
  | nil => exact .pure (.refl _)
  | cons t rest ih =>
      refine (keys t).bind fun key _ => ?_
      split
      · exact (ih seen).imp fun _ part => part.cons t
      · exact (ih (key :: seen)).bind fun _ part => .pure (part.cons_cons t)

end Application

end PropertyGraph

/-! ## What operations deliver -/

namespace PropertyGraph

open Exec Plan Script

theorem mapM_eq_ok {ε α β : Type} {f : α → Except ε β} {items : List α} {values : List β} :
    items.mapM f = .ok values ↔
      List.Forall₂ (fun item value => f item = .ok value) items values := by
  induction items generalizing values with
  | nil => cases values <;> simp [pure, Except.pure]
  | cons item rest ih =>
      rw [List.mapM_cons, bind_eq_ok]
      constructor
      · rintro ⟨value, first, others⟩
        obtain ⟨more, several, same⟩ := bind_eq_ok.mp others
        cases same
        exact .cons first (ih.mp several)
      · intro all
        cases all with
        | cons first others => exact ⟨_, first, bind_eq_ok.mpr ⟨_, ih.mpr others, rfl⟩⟩

theorem eq_map_of_forall₂ {α β : Type} {R : α → β → Prop} {f : α → β} {xs : List α} {ys : List β}
    (all : List.Forall₂ R xs ys) (only : ∀ x y, R x y → y = f x) : ys = xs.map f := by
  induction all with
  | nil => rfl
  | cons first _ ih => rw [List.map_cons, only _ _ first, ih]

/-- What is left of a list, in any order, is related to what is left of the other. -/
theorem forall₂_subperm {α β : Type} {R : α → β → Prop} {xs : List α} {ys left : List β}
    (related : List.Forall₂ R xs ys) (part : left.Subperm ys) :
    ∃ kept, kept.Subperm xs ∧ List.Forall₂ R kept left := by
  obtain ⟨sorted, perm, sublist⟩ := part
  have among : ∃ kept, kept.Sublist xs ∧ List.Forall₂ R kept sorted := by
    clear perm
    induction sublist generalizing xs with
    | slnil => exact ⟨[], List.nil_sublist xs, .nil⟩
    | cons y _ ih =>
        cases related with
        | cons _ others =>
            obtain ⟨kept, sublist, same⟩ := ih others
            exact ⟨kept, sublist.cons _, same⟩
    | cons_cons y _ ih =>
        cases related with
        | cons first others =>
            obtain ⟨kept, sublist, same⟩ := ih others
            exact ⟨_ :: kept, sublist.cons_cons _, .cons first same⟩
  obtain ⟨kept, sublist, same⟩ := among
  obtain ⟨arranged, others, moved⟩ := List.perm_comp_forall₂ perm.symm same.flip
  exact ⟨arranged, ⟨kept, moved.symm, sublist⟩, others.flip⟩

namespace Cypher

/-- What a traverser stands at after it was led to a value under every key. -/
def IsRecord (keys : List String) (results : List (Except ExecutionFault Value))
    (u : Traverser) : Prop :=
  ∃ values, List.Forall₂ (fun result value => result = .ok value) results values ∧
    u.object = .record (keys.zip values)

theorem IsRecord.isRow {names : List String} {results : List (Except ExecutionFault Value)}
    {u : Traverser} (lengths : names.length = results.length) (stands : IsRecord names results u) :
    IsRow names u := by
  obtain ⟨values, found, place⟩ := stands
  exact ⟨names.zip values, place, List.map_fst_zip (Nat.le_of_eq (lengths.trans found.length_eq))⟩

def rowOf (items : List ReturnItem) (value : ReturnItem → Value) : Value :=
  .record (items.map fun item => (item.column, value item))

theorem rowOf_columns (items : List ReturnItem) (value : ReturnItem → Value) :
    (items.map fun item => (item.column, value item)).map (·.1) = items.map ReturnItem.column := by
  rw [List.map_map]
  rfl

def obtained (result : Except ExecutionFault Value) : Value := result.toOption.getD Value.unknown

/-- A traverser that was led to a value for every item stands at their row. -/
theorem IsRecord.rowOf {items : List ReturnItem}
    {result : ReturnItem → Except ExecutionFault Value} {u : Traverser}
    (stands : IsRecord (items.map ReturnItem.column) (items.map result) u) :
    (∀ item ∈ items, result item = .ok (obtained (result item))) ∧
      u.object = rowOf items fun item => obtained (result item) := by
  obtain ⟨values, found, place⟩ := stands
  rw [List.forall₂_map_left_iff] at found
  obtain rfl : values = items.map fun item => obtained (result item) :=
    eq_map_of_forall₂ found fun item v same => same ▸ rfl
  rw [List.forall₂_map_right_iff, List.forall₂_same] at found
  refine ⟨found, place.trans ?_⟩
  rw [List.zip_map']
  rfl

variable {world : World} {Pre Mid : Stream → Prop} {Post Next : Stream → Stream → Prop}
  {operations more : Ops} {R : Traverser → Prop}

/-- Where they succeed, the operations make this of such streams and leave the world as it is. -/
def Delivers (world : World) (Pre : Stream → Prop) (operations : Ops)
    (Post : Stream → Stream → Prop) : Prop :=
  ∃ stages, Builds operations stages ∧ ∀ engine stream, Pre stream →
    Obtains world (Post stream) (runStages engine stages stream)

namespace Delivers

theorem nil : Delivers world Pre [] fun stream out => out = stream :=
  ⟨[], .nil, fun _ _ _ => .pure rfl⟩

theorem append (first : Delivers world Pre operations Post) (next : Delivers world Mid more Next)
    (meets : ∀ stream middle, Pre stream → Post stream middle → Mid middle) :
    Delivers world Pre (operations ++ more) fun stream out =>
      ∃ middle, Post stream middle ∧ Next middle out := by
  obtain ⟨stages, builds, obtains⟩ := first
  obtain ⟨others, buildsNext, obtainsNext⟩ := next
  refine ⟨stages ++ others, builds.append buildsNext, fun engine stream holds => ?_⟩
  rw [runStages_append]
  refine (obtains engine stream holds).bind fun middle reached => ?_
  exact (obtainsNext engine middle (meets stream middle holds reached)).imp
    fun out made => ⟨middle, reached, made⟩

theorem after {Post' : Stream → Stream → Prop} (delivers : Delivers world Pre operations Post)
    (implies : ∀ stream out, Pre stream → Post stream out → Post' stream out) :
    Delivers world Pre operations Post' := by
  obtain ⟨stages, builds, obtains⟩ := delivers
  exact ⟨stages, builds, fun engine stream holds =>
    (obtains engine stream holds).imp fun out => implies stream out holds⟩

theorem project {keys : List String} (named : keys ≠ []) {scripts : List Script}
    {plans : List Plan} (make : List.Forall₂ Makes scripts plans)
    (lengths : keys.length = scripts.length)
    {results : Traverser → List (Except ExecutionFault Value)}
    (lead : ∀ engine t, R t → Application.Lead world t (runChildren engine plans) (results t)) :
    Delivers world (All R) (.project keys :: scripts.map fun script => .nested .by_ [script])
      (List.Forall₂ fun t u => IsRecord keys (results t) u) := by
  obtain ⟨stage, builds, projects⟩ := projection named make lengths
  refine ⟨[stage], builds, fun engine stream all => ?_⟩
  obtain ⟨record, runs, gives⟩ := projects engine
  rw [runStages_one, runs]
  have each (t : Traverser) (member : t ∈ stream) : Obtains world (fun v => ∃ values,
      List.Forall₂ (fun result value => result = .ok value) (results t) values ∧
        v = .record (keys.zip values)) (record t) := by
    have given := gives world t _ (lead engine t (all t member))
    refine (Obtains.of_gives given).imp fun v recorded => ?_
    obtain ⟨values, found, rfl⟩ := map_eq_ok.mp recorded
    exact ⟨values, mapM_eq_ok.mp found, rfl⟩
  exact .mapEach each

end Delivers

/-- The modulator is a `by` that obtains one value for each such traverser, or fails. -/
def LooksBy (world : World) (R : Traverser → Prop) (modulator : Modulator) : Prop :=
  ∃ arguments plan before, modulator = .mk (.mk .by_ arguments) [plan] before ∧
    ∀ engine t, R t → ∃ result, Shows world IsOne (plan.run engine [t]) result

theorem LooksBy.onlyKeys {modulators : List Modulator}
    (look : ∀ m ∈ modulators, LooksBy world R m) (engine : Engine) {t : Traverser} (holds : R t) :
    Application.OnlyKeys world
      (Application.criteria ⟨.order, [], [], modulations engine modulators⟩) t := by
  have listed : Application.OnlyKeys world ((Application.modulationsOf
      ⟨.order, [], [], modulations engine modulators⟩ .by_).map Application.criterion) t := by
    induction modulators with
    | nil => exact nofun
    | cons m rest ih =>
        have others := ih fun other later => look other (List.mem_cons_of_mem _ later)
        obtain ⟨arguments, plan, before, rfl, shows_⟩ := look m List.mem_cons_self
        refine List.forall_mem_cons.mpr ⟨?_, others⟩
        obtain ⟨result, shown⟩ := shows_ engine t holds
        let child : Child := ⟨plan.run engine, plan.isReducing⟩
        have shown : Shows world IsOne (child.run [t]) result := shown
        exact (Obtains.of_gives (Child.valueOr_gives _ shown)).imp fun _ _ => trivial
  unfold Application.criteria
  split
  · exact List.forall_mem_singleton.mpr (.pure trivial)
  · exact listed

theorem Delivers.order {bys : Ops} {modulators : List Modulator}
    (modulate : List.Forall₂ (Modulates .order) bys modulators)
    (look : ∀ m ∈ modulators, LooksBy world R m) :
    Delivers world (All R) (.append .order [] :: bys) fun stream out => out.Perm stream := by
  refine ⟨_, (Builds.step .order ⟨rfl, by decide⟩ rfl [] rfl).modulated modulate, ?_⟩
  intro engine stream all
  rw [runStages_one]
  exact Application.order_obtains engine (a := ⟨.order, [], [], modulations engine modulators⟩)
    fun t member => LooksBy.onlyKeys look engine (all t member)

end Cypher

theorem Application.slice_sublist {α : Type} (low high : Int64) (items : List α) :
    (slice low high items).Sublist items := by
  unfold slice
  dsimp only
  split
  · exact List.drop_sublist _ _
  · exact (List.take_sublist _ _).trans (List.drop_sublist _ _)

namespace Cypher

variable {world : World} {operations : Ops} {names : List String} {Pre : Stream → Prop}

theorem column_looks (distinct : names.Nodup) {name : String} (member : name ∈ names)
    (order : SortOrder) : ∃ modulator,
      Modulates .order (.byOrder (.of [.select [name]]) order) modulator ∧
        LooksBy world (IsRow names) modulator := by
  have cell : Turns (AreRows names) [.select [name]] _ :=
    .select distinct (List.cons_ne_nil _ _) fun _ listed => List.mem_singleton.mp listed ▸ member
  obtain ⟨stages, builds, run⟩ := cell
  have resolved : resolve [Slot.order order] = .ok [(Slot.order order : Slot Live)] := rfl
  obtain ⟨arguments, modulates⟩ := Modulates.nested .order .by_ rfl rfl rfl builds _ resolved rfl
  refine ⟨_, modulates, arguments, .mk stages [], false, rfl, fun engine t row => ?_⟩
  have looked := run engine world [t] (List.forall_mem_singleton.mpr row)
  exact ⟨.ok (keyOf [name] t.object), Shows.one looked⟩

theorem columnSortKeys_looks (distinct : names.Nodup) {order : List SortItem} {bys : Ops}
    (compiled : columnSortKeys names order = .ok bys) :
    ∃ modulators, List.Forall₂ (Modulates .order) bys modulators ∧
      ∀ m ∈ modulators, LooksBy world (IsRow names) m := by
  induction order generalizing bys with
  | nil =>
      cases compiled
      exact ⟨[], .nil, nofun⟩
  | cons item rest ih =>
      obtain ⟨column, first, compiled⟩ := bind_eq_ok.mp compiled
      obtain ⟨others, several, same⟩ := bind_eq_ok.mp compiled
      cases same
      obtain ⟨modulators, modulate, look⟩ := ih several
      obtain ⟨modulator, modulates, looks⟩ :=
        column_looks distinct (sortColumn_listed first) (sortOrder item)
      exact ⟨modulator :: modulators, .cons modulates modulate,
        List.forall_mem_cons.mpr ⟨looks, look⟩⟩

theorem sortRows_deliver (distinct : names.Nodup) {order : List SortItem}
    (compiled : sortRows names order = .ok operations) :
    Delivers world (All (IsRow names)) operations fun stream out =>
      out.Perm stream ∧ (order = [] → out = stream) := by
  unfold sortRows at compiled
  split at compiled
  · cases compiled
    exact Delivers.nil.after fun _ _ _ same => ⟨.of_eq same, fun _ => same⟩
  · next sorts =>
      obtain ⟨bys, keys, same⟩ := bind_eq_ok.mp compiled
      cases same
      obtain ⟨modulators, modulate, look⟩ := columnSortKeys_looks distinct keys
      refine (Delivers.order modulate look).after fun stream out _ perm => ⟨perm, fun none_ => ?_⟩
      simp [none_] at sorts

theorem distinctOps_deliver (once : Bool) :
    Delivers world Pre (distinctOps once) fun stream out => out.Sublist stream := by
  cases once with
  | false => exact Delivers.nil.after fun _ _ _ same => same ▸ .refl _
  | true =>
      refine ⟨_, .step .dedup ⟨rfl, by decide⟩ rfl [] rfl, fun engine stream _ => ?_⟩
      rw [runStages_one]
      exact Application.distinctBy_obtains (fun _ => .pure trivial) [] stream

theorem Delivers.part {kind : StepKind} (plain : kind.IsPlain) (inner : kind.isEntry = false)
    {n : Int64} {part : Stream → Stream} (sublist : ∀ stream, (part stream).Sublist stream)
    (performs : ∀ engine stream,
      Application.perform engine ⟨kind, [.literal (.int n)], [], []⟩ stream = pure (part stream)) :
    Delivers world Pre [.append kind [.literal (.int n)] inner] fun stream out =>
      out.Sublist stream := by
  refine ⟨_, Builds.step kind plain inner [.literal (.int n)] rfl, fun engine stream _ => ?_⟩
  rw [runStages_one]
  change Obtains world _ (Application.perform engine ⟨kind, [.literal (.int n)], [], []⟩ stream)
  rw [performs]
  exact .pure (sublist stream)

/-- What is skipped and what is beyond the limit is left out. -/
theorem windowOps_deliver (r : ReturnClause) :
    Delivers world (fun _ => True) (windowOps r) fun stream out => out.Sublist stream := by
  have skips (n : Int64) : Delivers world (fun _ => True) [.append .skip [.literal (.int n)]]
      fun stream out => out.Sublist stream :=
    .part ⟨rfl, by decide⟩ rfl (fun _ => List.drop_sublist _ _) fun _ _ => rfl
  have limits (n : Int64) : Delivers world (fun _ => True) [.limit n]
      fun stream out => out.Sublist stream :=
    .part ⟨rfl, by decide⟩ rfl (Application.slice_sublist 0 n) fun _ _ => rfl
  have nothing : Delivers world (fun _ => True) [] fun stream out => out.Sublist stream :=
    Delivers.nil.after fun _ _ _ same => same ▸ .refl _
  have first : Delivers world (fun _ => True)
      (r.skip.map fun n => .append .skip [.literal (.int n)]).toList
      fun stream out => out.Sublist stream := by
    cases r.skip with
    | none => exact nothing
    | some n => exact skips n
  have second : Delivers world (fun _ => True) (r.limit.map .limit).toList
      fun stream out => out.Sublist stream := by
    cases r.limit with
    | none => exact nothing
    | some n => exact limits n
  refine (first.append second fun _ _ _ _ => trivial).after ?_
  rintro stream out _ ⟨middle, skipped, limited⟩
  exact limited.trans skipped

end Cypher

end PropertyGraph

/-! ## Rows without aggregates: one for each traverser, with every item under its column -/

namespace PropertyGraph

open Exec Plan Script

namespace Cypher

variable {world : World} {b : Bindings} {operations : Ops} {l l' : Live}
  {compile : ReturnItem → Except CompileFault Ops}
  {f : ReturnItem → Environment → Except ExecutionFault Value}
  {items : List ReturnItem} {names : List String}

theorem seenFrom_knows {t : Traverser} {extra : List String} (knows : t.Knows b extra)
    (quiet : world.sideEffects = []) :
    Environment.seenFrom b world t = .onPath b world.store.graph t := by
  have plain : t.object.map? = none := knows.plain _ List.mem_cons_self
  exact Environment.seenFrom_eq fun name _ => by simp [plain, quiet, Dictionary.get?]

def itemValues (world : World) (b : Bindings)
    (f : ReturnItem → Environment → Except ExecutionFault Value) (items : List ReturnItem)
    (t : Traverser) : List (Except ExecutionFault Value) :=
  items.map fun item => f item (.onPath b world.store.graph t)

theorem byEach_compute
    (computes : ∀ item inside, compile item = .ok inside → Performs inside →
      Computes b inside (f item)) {bys : Ops}
    (compiled : byEach compile items = .ok bys) (performed : performAll bys l = .ok l') :
    ∃ scripts : List Script, bys = scripts.map (fun script => .nested .by_ [script]) ∧
      Compute b scripts (items.map f) := by
  have parts := byEach_parts compiled performed
  clear compiled performed
  induction parts with
  | nil => exact ⟨[], rfl, .nil⟩
  | cons part _ ih =>
      obtain ⟨inside, made, performs, rfl⟩ := part
      obtain ⟨scripts, rfl, compute⟩ := ih
      exact ⟨.of inside :: scripts, rfl,
        .cons ⟨inside, rfl, computes _ inside made performs⟩ compute⟩

/-- Traversers that know the variables become rows of what the items come to. -/
theorem byEach_delivers (quiet : world.sideEffects = []) (named : names ≠ [])
    (lengths : names.length = items.length)
    (computes : ∀ item inside, compile item = .ok inside → Performs inside →
      Computes b inside (f item)) {bys : Ops}
    (compiled : byEach compile items = .ok bys) (performed : performAll bys l = .ok l') :
    Delivers world (Known b []) (.project names :: bys)
      (List.Forall₂ fun t u => IsRecord names (itemValues world b f items t) u) := by
  obtain ⟨scripts, rfl, compute⟩ := byEach_compute computes compiled performed
  obtain ⟨plans, make, run⟩ := Leads.children compute
  have several : names.length = scripts.length := by
    rw [lengths, compute.length_eq, List.length_map]
  refine .project named make several fun engine t knows => ?_
  have lead := run engine world t
  rw [seenFrom_knows knows quiet, List.map_map] at lead
  exact lead (Environment.onPath_covers _ knows.binds)

theorem sortKeys_look (quiet : world.sideEffects = []) {order : List SortItem} {bys : Ops}
    (compiled : sortKeys b items order = .ok bys) (performed : performAll bys l = .ok l') :
    ∃ modulators, List.Forall₂ (Modulates .order) bys modulators ∧
      ∀ m ∈ modulators, LooksBy world (fun t => t.Knows b []) m := by
  have parts := sortKeys_parts compiled performed
  clear compiled performed
  induction parts with
  | nil => exact ⟨[], .nil, nofun⟩
  | @cons item _ _ _ part _ ih =>
      obtain ⟨inside, made, performs, rfl⟩ := part
      obtain ⟨modulators, modulate, look⟩ := ih
      obtain ⟨stages, builds, runs⟩ := valueOps_computes _ made performs
      have resolved : resolve [Slot.order (sortOrder item)] =
        .ok [(Slot.order (sortOrder item) : Slot Live)] := rfl
      obtain ⟨arguments, modulates⟩ :=
        Modulates.nested .order .by_ rfl rfl rfl builds _ resolved rfl
      refine ⟨_ :: modulators, .cons modulates modulate, List.forall_mem_cons.mpr ⟨?_, look⟩⟩
      refine ⟨arguments, .mk stages [], false, rfl, fun engine t knows => ⟨_, runs engine world t ?_⟩⟩
      rw [seenFrom_knows knows quiet]
      exact Environment.onPath_covers _ knows.binds

theorem sortedBefore_delivers (quiet : world.sideEffects = []) {r : ReturnClause}
    (compiled : sortedBefore b r = .ok operations)
    (performed : performAll operations l = .ok l') :
    Delivers world (Known b []) operations fun stream out =>
      out.Perm stream ∧ (r.order = [] → out = stream) := by
  unfold sortedBefore at compiled
  split at compiled
  · cases compiled
    exact Delivers.nil.after fun stream out _ same => ⟨.of_eq same, fun _ => same⟩
  · next sorts =>
      obtain ⟨bys, keys, same⟩ := bind_eq_ok.mp compiled
      cases same
      obtain ⟨ordered, _, performed⟩ := performed_cons.mp performed
      obtain ⟨modulators, modulate, look⟩ := sortKeys_look quiet keys performed
      refine (Delivers.order modulate look).after fun stream out _ perm => ⟨perm, fun none_ => ?_⟩
      simp [none_] at sorts

/-- The row has the values of the items for the traverser. -/
def IsRowOf (world : World) (b : Bindings) (names : List String) (items : List ReturnItem)
    (t u : Traverser) : Prop :=
  IsRecord names (itemValues world b (fun item env => columnValue b env item.expression) items t) u

/-- Each row is that of a traverser of its own. -/
def RowsFrom (world : World) (b : Bindings) (names : List String) (items : List ReturnItem)
    (stream out : Stream) : Prop :=
  ∃ arranged, arranged.Subperm stream ∧
    List.Forall₂ (IsRowOf world b names items) arranged out

theorem RowsFrom.subperm {stream out left : Stream} (rows : RowsFrom world b names items stream out)
    (part : left.Subperm out) : RowsFrom world b names items stream left := by
  obtain ⟨arranged, among, stand⟩ := rows
  obtain ⟨kept, fewer, stand⟩ := forall₂_subperm stand part
  exact ⟨kept, fewer.trans among, stand⟩

theorem RowsFrom.all {stream out : Stream} (lengths : names.length = items.length)
    (rows : RowsFrom world b names items stream out) : All (IsRow names) out := by
  intro u member
  obtain ⟨_, _, _ | ⟨stands, _⟩⟩ := rows.subperm (List.singleton_subperm_iff.mpr member)
  exact IsRecord.isRow (lengths.trans (List.length_map _).symm) stands

/-- Each traverser becomes a row. -/
theorem columns_project (quiet : world.sideEffects = []) (named : names ≠ [])
    (lengths : names.length = items.length) {bys : Ops} (projected : columns b items = .ok bys)
    (served : performAll bys l = .ok l') :
    Delivers world (Known b []) (.project names :: bys)
      (List.Forall₂ (IsRowOf world b names items)) := by
  rw [columns_eq] at projected
  exact byEach_delivers quiet named lengths
    (fun item inside compiled performs => columnOps_computes compiled performs) projected served

/-- A row for each traverser, after all of them are sorted. -/
theorem plainRows_deliver (quiet : world.sideEffects = []) {r : ReturnClause}
    (plain : r.distinct = false) (lengths : names.length = r.items.length)
    (compiled : plainRows b r names = .ok operations)
    (performed : performAll operations l = .ok l') :
    Delivers world (Known b []) operations fun stream out =>
      ∃ arranged, arranged.Perm stream ∧ (r.order = [] → arranged = stream) ∧
        List.Forall₂ (IsRowOf world b names r.items) arranged out := by
  obtain ⟨sorts, bys, after, sorted, projected, last, named, ⟨_, _, orders⟩, ⟨_, _, served⟩, rfl⟩ :=
    plainRows_parts compiled performed
  have unsorted : after = [] := by
    simp only [sortedAfter, plain] at last
    exact (Except.ok.inj last).symm
  subst unsorted
  simp only [plain, distinctOps, Bool.false_eq_true, if_false, List.append_nil]
  have rows := columns_project quiet named lengths projected served
  refine ((sortedBefore_delivers quiet sorted orders).append rows ?_).after ?_
  · rintro stream middle known ⟨perm, _⟩ t member
    exact known t (perm.mem_iff.mp member)
  · rintro stream out _ ⟨arranged, ⟨perm, same⟩, made⟩
    exact ⟨arranged, perm, same, made⟩

/-- Of equal rows the first one stays, and those that stay are sorted after that. -/
theorem distinctRows_deliver (quiet : world.sideEffects = []) {r : ReturnClause}
    (once : r.distinct = true) (distinct : names.Nodup) (lengths : names.length = r.items.length)
    (compiled : plainRows b r names = .ok operations)
    (performed : performAll operations l = .ok l') :
    Delivers world (Known b []) operations (RowsFrom world b names r.items) := by
  obtain ⟨sorts, bys, after, sorted, projected, last, named, _, ⟨_, _, served⟩, rfl⟩ :=
    plainRows_parts compiled performed
  simp only [sortedBefore, sortedAfter, once, Bool.true_or, if_true] at sorted last
  cases sorted
  have rows := columns_project quiet named lengths projected served
  have dedups : Delivers world (fun _ => True) (distinctOps r.distinct) _ := distinctOps_deliver _
  have kept : Delivers world (Known b []) (.project names :: bys ++ distinctOps r.distinct)
      (RowsFrom world b names r.items) := by
    refine (rows.append dedups fun _ _ _ _ => trivial).after ?_
    rintro stream left _ ⟨middle, made, part⟩
    exact RowsFrom.subperm ⟨stream, .refl _, made⟩ part.subperm
  refine (kept.append (sortRows_deliver distinct last) fun _ _ _ rows => rows.all lengths).after ?_
  rintro stream out _ ⟨left, rows, perm, _⟩
  exact rows.subperm perm.subperm

/-- However rows are made without aggregates, sorted and cut off, each comes from a traverser of its
own. -/
theorem returnOps_deliver (quiet : world.sideEffects = []) {r : ReturnClause}
    (free : ∀ item ∈ r.items, item.expression.hasAggregate = false)
    (compiled : returnOps b r = .ok operations) (performed : performAll operations l = .ok l') :
    Delivers world (Known b []) operations
      (RowsFrom world b (r.items.map ReturnItem.column) r.items) := by
  obtain ⟨distinct, rows, rfl, ⟨⟨item, member, aggregated⟩, _⟩ | ⟨_, plain⟩⟩ :=
    returnOps_cases compiled
  · rw [free item member] at aggregated
    cases aggregated
  obtain ⟨middle, performed, _⟩ := performed_append.mp performed
  have made : Delivers world (Known b []) rows
      (RowsFrom world b (r.items.map ReturnItem.column) r.items) := by
    cases once : r.distinct with
    | true => exact distinctRows_deliver quiet once distinct (List.length_map _) plain performed
    | false =>
        refine (plainRows_deliver quiet once (List.length_map _) plain performed).after ?_
        rintro stream out _ ⟨arranged, perm, _, stand⟩
        exact ⟨arranged, perm.subperm, stand⟩
  refine (made.append (windowOps_deliver r) fun _ _ _ _ => trivial).after ?_
  rintro stream out _ ⟨middle, rows, part⟩
  exact rows.subperm part.subperm

end Cypher

end PropertyGraph
