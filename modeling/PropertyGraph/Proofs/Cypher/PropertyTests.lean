import PropertyGraph.Proofs.Cypher.Condition
import PropertyGraph.Proofs.Cypher.Names
import PropertyGraph.Proofs.Cypher.Sorts

/-!
A property asked for in a pattern, and a property compared in a condition. The first is asked where
the element is at hand, the second through a name; on graphs that store no unknown value both let
the same traversers pass.
-/

namespace PropertyGraph

open Exec Plan Script

/-- The environments have the same graph, and give these names the same values. -/
structure Environment.SameOn (names : List String) (env env' : Environment) : Prop where
  graph : env.graph = env'.graph
  values : ∀ name ∈ names, env.value? name = env'.value? name

namespace Environment.SameOn

variable {names others : List String} {env env' : Environment}

theorem left (same : SameOn (names ++ others) env env') : SameOn names env env' :=
  ⟨same.graph, fun name member => same.values name (List.mem_append_left _ member)⟩

theorem right (same : SameOn (names ++ others) env env') : SameOn others env env' :=
  ⟨same.graph, fun name member => same.values name (List.mem_append_right _ member)⟩

end Environment.SameOn

namespace Expression

variable {env env' : Environment}

mutual

/-- The value of an expression depends on the graph and on its own variables only. -/
theorem evaluate_congr : (e : Expression) → env.SameOn e.names env' →
    e.evaluate env = e.evaluate env'
  | .literal _, _ | .countAll, _ => rfl
  | .reference name, same => by
      simp only [evaluate, same.values name (List.mem_singleton.mpr rfl)]
  | .property owner key, same => by
      simp only [evaluate, same.values owner (List.mem_singleton.mpr rfl), same.graph]
  | .list items, same => by
      simp only [evaluate, evaluateAll_congr items same]
  | .map entries, same => by
      simp only [evaluate, evaluateEntries_congr entries same]
  | .binary left op right, same => by
      simp only [evaluate, evaluate_congr left same.left, evaluate_congr right same.right]
  | .not operand, same | .negate operand, same | .isNull operand, same
  | .isNotNull operand, same => by
      simp only [evaluate, evaluate_congr operand same]
  | .call name _ arguments, same => by
      simp only [evaluate, evaluateAll_congr arguments same, same.graph]

theorem evaluateAll_congr : (items : List Expression) → env.SameOn (namesOfAll items) env' →
    evaluateAll env items = evaluateAll env' items
  | [], _ => rfl
  | e :: rest, same => by
      simp only [evaluateAll, evaluate_congr e same.left, evaluateAll_congr rest same.right]

theorem evaluateEntries_congr : (entries : List (String × Expression)) →
    env.SameOn (namesOfEntries entries) env' →
    evaluateEntries env entries = evaluateEntries env' entries
  | [], _ => rfl
  | entry :: rest, same => by
      simp only [evaluateEntries, evaluateEntry_congr entry same.left,
        evaluateEntries_congr rest same.right]

theorem evaluateEntry_congr : (entry : String × Expression) →
    env.SameOn (namesOfEntry entry) env' → evaluateEntry env entry = evaluateEntry env' entry
  | (_, e), same => by
      simp only [evaluateEntry, evaluate_congr e same]

end

end Expression

/-- No property of an element is null, or the text that stands for it. -/
structure Graph.StoresNoUnknown (g : Graph) : Prop where
  vertices : ∀ v ∈ g.vertices, ∀ w ∈ Dictionary.values v.properties, w.isUnknown = false
  edges : ∀ e ∈ g.edges, ∀ w ∈ Dictionary.values e.properties, w.isUnknown = false

namespace Graph.StoresNoUnknown

variable {g : Graph} {owner v : Value} {known : Properties} {key : String}

theorem property (stores : g.StoresNoUnknown) (found : g.propertiesOf owner = .ok known)
    (stored : Dictionary.get? key known = some v) : v.isUnknown = false := by
  have member := Dictionary.get?_mem stored
  cases owner with
  | vertex ref =>
      simp only [propertiesOf] at found
      split at found
      · rename_i vertex present
        cases found
        exact stores.vertices vertex (List.mem_of_find?_eq_some present) v member
      · cases found
  | edge ref =>
      simp only [propertiesOf] at found
      split at found
      · rename_i edge present
        cases found
        exact stores.edges edge (List.mem_of_find?_eq_some present) v member
      · cases found
  | _ => cases found

theorem given (stores : g.StoresNoUnknown) (found : g.propertiesOf owner = .ok known)
    (stored : Dictionary.get? key known = some v) : v ≠ .null ∧ v ≠ Value.unknown := by
  have given := stores.property found stored
  constructor
  · rintro rfl
    cases given
  · rintro rfl
    simp [Value.isUnknown, Value.unknown] at given

end Graph.StoresNoUnknown

theorem NameKind.Holds.property_gives {world : World} {kind : NameKind} {v : Value}
    (holds : kind.Holds v) (key : String) :
    Gives world (property? v key)
      (Dictionary.get? key <$> world.store.graph.propertiesOf v) := by
  have known := (propertiesOf_gives world v).map (Dictionary.get? key)
  cases kind <;> obtain ⟨ref, rfl⟩ := holds <;> rwa [map_eq_pure_bind] at known

namespace Cypher

/-- The operation builds one stage, which keeps the traversers that a decision lets pass. -/
def Sifts (starts : World → Traverser → Prop) (op : Op Script)
    (c : World → Traverser → Except ExecutionFault Bool) : Prop :=
  ∃ stage, Builds [op] [stage] ∧ ∀ engine, ∃ test : Traverser → Exec Bool,
    (∀ stream, runStage engine stage stream = keep test stream) ∧
      ∀ world t, starts world t → Gives world (test t) (c world t)

namespace Sifts

variable {starts : World → Traverser → Prop} {c : World → Traverser → Except ExecutionFault Bool}

theorem tests (world : World) (p : Predicate) (found : Option Value) :
    Gives world (match found with
      | none => return false
      | some value => return p.test value : Exec Bool) (.ok (found.any p.test)) := by
  cases found <;> rfl

theorem has (kind : NameKind) (key : String) (p : Predicate) :
    Sifts (fun _ t => kind.Holds t.object) (.has key p) fun world t =>
      world.store.graph.propertiesOf t.object >>= fun known =>
        .ok ((Dictionary.get? key known).any p.test) := by
  refine ⟨_, Builds.step .has ⟨rfl, by decide⟩ rfl [.label key, .predicate p] rfl, fun engine =>
    ⟨_, fun stream => rfl, fun world t holds => ?_⟩⟩
  have asked := (holds.property_gives key).bind fun found _ => tests world p found
  rw [map_eq_pure_bind, bind_assoc] at asked
  exact asked

theorem where_ {condition : Ops} (asks : LeadsFrom HasAny starts condition c) :
    Sifts starts (.nested .where_ [.of condition]) c := by
  obtain ⟨plan, makes, run⟩ := asks.child
  obtain ⟨programs, builds⟩ := Builds.nested .where_ ⟨rfl, by decide⟩ rfl (.cons makes .nil)
  refine ⟨_, builds, fun engine => ⟨Child.hasResult ⟨plan.run engine, plan.isReducing⟩,
    fun stream => ?_, fun world t may => Child.hasResult_gives (run engine world t may)⟩⟩
  cases programs <;> rfl

end Sifts

/-- No builder accepts the operations. -/
def Refused (operations : Ops) (fault : BuildFault) : Prop :=
  ∀ l : Live, performAll operations l = .error fault

namespace Refused

variable {inside operations : Ops} {fault : BuildFault}

theorem append (refused : Refused operations fault) (more : Ops) :
    Refused (operations ++ more) fault := by
  intro l
  rw [performAll_append, refused l]
  rfl

theorem nested (kind : StepKind) (inner : kind.isEntry = false)
    (refused : (performAll inside Backend.floating : Except BuildFault Live) = .error fault) :
    Refused [.nested kind [.of inside] inner] fault := by
  intro l
  simp only [Op.nested, performAll, performOne, List.map_cons, resolve, resolveOne, perform,
    refused]
  rfl

theorem second {own : Ops} (accepted : Performs own)
    (refused : (performAll inside Backend.floating : Except BuildFault Live) = .error fault) :
    Refused [.nested .union [.of own, .of inside]] fault := by
  intro l
  obtain ⟨built, performed⟩ := accepted
  simp only [Op.nested, performAll, performOne, List.map_cons, resolve, resolveOne, perform,
    refused, performed]
  rfl

end Refused

/-- Whether the values are equal. Nothing is equal to the unknown value. -/
def areEqual (left right : Except ExecutionFault Value) : Except ExecutionFault Bool :=
  left >>= fun v => right >>= fun w => Function.equals.ofPair v w >>= fun result =>
    .ok (decide (result = .bool true))

theorem equals_decide {starts : World → Traverser → Prop} {left right : Ops}
    {f g : World → Traverser → Except ExecutionFault Value} (first : LeadsFrom IsOne starts left f)
    (second : LeadsFrom IsOne starts right g) :
    LeadsFrom HasAny starts (pairwise .equals left right ++ [isTrue])
      fun world t => areEqual (f world t) (g world t) := by
  have asked := (first.pairwise second .equals).andThen (Moves.tests [.eq (.bool true)])
  simp only [bind_assoc, List.all_cons, List.all_nil, Bool.and_true, test_eq_bool] at asked
  exact asked

/-- A property of an element, unknown where it is absent. -/
def propertyOf (g : Graph) (key : String) (owner : Value) : Except ExecutionFault Value :=
  g.propertiesOf owner >>= fun known => .ok ((Dictionary.get? key known).getD Value.unknown)

section Constants

variable {g : Graph} (stores : g.StoresNoUnknown) (key : String) (owner : Value)
include stores

/-- On known values, the predicate for a constant may be asked before. -/
theorem constant_decided (v : Value) :
    (g.propertiesOf owner >>= fun known =>
        .ok ((Dictionary.get? key known).any (Predicate.eq v).test)) =
      propertyOf g key owner >>= fun w =>
        .ok (decide (w ≠ Value.unknown) && (Predicate.eq v).test w) := by
  rw [propertyOf]
  cases found : g.propertiesOf owner with
  | error fault => rfl
  | ok known =>
      simp only [ok_bind]
      cases stored : Dictionary.get? key known with
      | none => simp
      | some w => simp [(stores.given found stored).2]

theorem null_decided :
    (g.propertiesOf owner >>= fun known =>
        .ok ((Dictionary.get? key known).any (Predicate.eq .null).test)) =
      areEqual (propertyOf g key owner) (.ok Value.unknown) := by
  have nothing (v : Value) : Function.equals.ofPair v Value.unknown = .ok Value.unknown := by
    have unknown : (v.isUnknown || Value.unknown.isUnknown) = true := by
      simp [Value.unknown, Value.isUnknown]
    have equality : comparison? .eq = some .equals := rfl
    rw [Function.ofPair, Function.value, apply_unknown equality unknown]
    rfl
  rw [propertyOf, areEqual]
  cases found : g.propertiesOf owner with
  | error fault => rfl
  | ok known =>
      simp only [ok_bind, nothing]
      cases stored : Dictionary.get? key known with
      | none => rfl
      | some w =>
          have apart := (stores.given found stored).1
          simp [Predicate.test, Predicate.looselyEqual, Value.isNumber, apart, Value.unknown]

end Constants

/-- A traverser that finds the element of another one under a name, and otherwise what that one
finds under the names of an expression. -/
structure Points (kind : NameKind) (b b' : Bindings) (name : String) (e : Expression)
    (world : World) (t u : Traverser) : Prop where
  stores : world.store.graph.StoresNoUnknown
  element : kind.Holds t.object
  covers : (Environment.seenFrom b world t).Covers b
  coversToo : (Environment.seenFrom b' world u).Covers b'
  finds : (Environment.seenFrom b' world u).value? name = some t.object
  same : (Environment.seenFrom b world t).SameOn e.names (.seenFrom b' world u)

/-- Both operations are refused, or let those traversers pass that are related. -/
def SiftAlike (related : World → Traverser → Traverser → Prop) (op op' : Op Script) : Prop :=
  (∃ fault, Refused [op] fault ∧ Refused [op'] fault) ∨
    ∃ starts starts' c c', Sifts starts op c ∧ Sifts starts' op' c' ∧
      ∀ world t u, related world t u → starts world t ∧ starts' world u ∧ c world t = c' world u

variable {b b' : Bindings} {name key : String} {e : Expression} {kind : NameKind}

theorem evaluate_property (env : Environment) (name key : String) :
    (Expression.property name key).evaluate env =
      propertyOf env.graph key ((env.value? name).getD Value.unknown) := rfl

/-- The script of an expression depends on the scope only through the names in it. -/
theorem valueOps_congr
    (known : ∀ other ∈ e.names, Dictionary.get? other b = Dictionary.get? other b') :
    valueOps b e = valueOps b' e := by
  have yields : Yields View.whole.AdmitsOps (valueOps b e) (valueOps b' e) :=
    valueOps_yields e fun other member => ⟨trivial, known other member⟩
  generalize valueOps b e = left at yields ⊢
  generalize valueOps b' e = right at yields ⊢
  cases yields with
  | ok same => rw [same.1]
  | error fault => rfl

theorem property_compiled (declared : Dictionary.get? name b = some kind)
    (single : kind ≠ .relationships) (key : String) :
    valueOps b (.property name key) = .ok [.select [name], ownProperty key] := by
  rw [valueOps, kindOf, declared]
  change (if kind = .relationships then _ else _) = _
  rw [if_neg single]
  rfl

theorem condition_compiled (declared : Dictionary.get? name b = some kind)
    (single : kind ≠ .relationships) (other : e.literal? = none) :
    conditionOps b (.binary (.property name key) .eq e) =
      (fun inside => pairwise .equals [.select [name], ownProperty key] inside ++ [isTrue]) <$>
        valueOps b e := by
  have constant : constant? e = none := by rw [constant?, other]
  change comparisonOps b .eq .equals _ e = _
  rw [comparisonOps, constant, other, property_compiled declared single]
  cases valueOps b e <;> rfl

/-- A comparison with a constant; with null, nothing passes. -/
theorem condition_compiled_constant (declared : Dictionary.get? name b = some kind)
    (single : kind ≠ .relationships) (v : Value) :
    conditionOps b (.binary (.property name key) .eq (.literal v)) =
      .ok (if v = .null then
          pairwise .equals [.select [name], ownProperty key] [.constant Value.unknown] ++ [isTrue]
        else [.select [name], ownProperty key, isKnown, .is_ (.eq v)]) := by
  change comparisonOps b .eq .equals _ _ = _
  rw [comparisonOps, property_compiled declared single]
  cases v <;> rfl

/-- The two ways to ask whether a property equals a value. -/
theorem filter_and_condition (declared : Dictionary.get? name b' = some kind)
    (single : kind ≠ .relationships)
    (known : ∀ other ∈ e.names, Dictionary.get? other b = Dictionary.get? other b') :
    Alike (fun op condition => SiftAlike (Points kind b b' name e) op (.nested .where_ [condition]))
      (filterOp b key e) (conditionScript b' (.binary (.property name key) .eq e)) := by
  have computesOwn := valueOps_computes _ (property_compiled declared single key) ⟨_, rfl⟩
  have found {world : World} {t u : Traverser} (points : Points kind b b' name e world t u) :
      (Expression.property name key).evaluate (.seenFrom b' world u) =
        propertyOf world.store.graph key t.object := by
    rw [evaluate_property, points.finds]
    rfl
  cases literal : e.literal? with
  | some v =>
      obtain rfl : e = .literal v := by
        cases e <;> cases literal
        rfl
      have filter : filterOp b key (.literal v) = .ok (.has key (.eq v)) := rfl
      rw [filter, conditionScript, condition_compiled_constant declared single v]
      refine .ok (.inr ?_)
      by_cases null : v = .null
      · rw [if_pos null]
        have unknown := valueOps_computes (b := b') (.literal .null) rfl ⟨_, rfl⟩
        refine ⟨_, _, _, _, .has kind key (.eq v), .where_ (equals_decide computesOwn.starting
          unknown.starting), fun world t u points => ⟨points.element, points.coversToo, ?_⟩⟩
        rw [null, found points]
        exact null_decided points.stores key t.object
      · rw [if_neg null]
        refine ⟨_, _, _, _, .has kind key (.eq v),
          .where_ (computesOwn.isKnownAnd (.eq v)).starting,
          fun world t u points => ⟨points.element, points.coversToo, ?_⟩⟩
        rw [found points]
        exact constant_decided points.stores key t.object v
  | none =>
      have filter : filterOp b key e = (fun inside => .nested .where_
          [.of (pairwise .equals [ownProperty key] inside ++ [isTrue])]) <$> valueOps b e := by
        rw [filterOp, literal, valueScript]
        cases valueOps b e <;> rfl
      rw [filter, conditionScript, condition_compiled declared single literal,
        ← valueOps_congr known]
      cases compiled : valueOps b e with
      | error fault => exact .error fault
      | ok inside =>
          refine .ok ?_
          cases performed : (performAll inside Backend.floating : Except BuildFault Live) with
          | error fault =>
              have refuses {own : Ops} (accepted : Performs own) :
                  Refused [.nested .where_ [.of (pairwise .equals own inside ++ [isTrue])]]
                    fault :=
                .nested _ _ (((Refused.second accepted performed).append
                  [.append .fold [], .apply .equals, isTrue]) _)
              exact .inl ⟨fault, refuses ⟨_, rfl⟩, refuses ⟨_, rfl⟩⟩
          | ok built =>
              have computes := valueOps_computes e compiled ⟨built, performed⟩
              have computesToo := valueOps_computes e (valueOps_congr known ▸ compiled)
                ⟨built, performed⟩
              refine .inr ⟨_, _, _, _, .where_ (equals_decide ((Moves.ownProperty key).starting _)
                computes.starting), .where_ (equals_decide computesOwn.starting
                  computesToo.starting), ?_⟩
              intro world t u points
              refine ⟨points.covers, points.coversToo, ?_⟩
              rw [found points, e.evaluate_congr points.same]
              rfl

end Cypher

end PropertyGraph
