import PropertyGraph.Proofs.Cypher.Compilation
import PropertyGraph.Proofs.Cypher.Making
import PropertyGraph.Proofs.Cypher.WriteSoundness

/-!
Scripts of CREATE clauses make the patterns of the clause once for each row.
-/

namespace PropertyGraph

open Exec Plan

/-- Only a builder that holds nothing starts with a vertex. -/
theorem Script.Continues.addVertex (label : Option String) :
    Script.Continues [.addVertex label] [.apply (Live.addVertexStep label) [] []] := by
  intro l pending holding
  obtain ⟨bound, program, ⟨stages, waiting⟩⟩ := l
  cases (pending : waiting = [])
  have filled : stages.isEmpty = false := List.isEmpty_eq_false_iff.mpr holding
  have standing : Live.isRooting ⟨bound, program, .mk stages []⟩ = false := by
    simp [Live.isRooting, Plan.isEmpty, Plan.stages, Plan.pending, filled]
  refine ⟨program ++ [Live.addVertexStep label], ?_⟩
  have plain : StepKind.addV.IsPlain := ⟨rfl, by decide⟩
  have added := Plan.add_plain (Live.addVertexStep label) plain [] stages
  simp only [Script.performAll, Script.performOne, ok_bind, Backend.addVertex, standing]
  change Except.ok (Live.add _ _ _) = _
  rw [Live.add, added]
  rfl

theorem Application.valueFrom_gives {a : Application} {child : Child} {t : Traverser}
    {world : World} {result : Except ExecutionFault Value}
    (shows_ : Shows world IsOne (child.run [t]) result) {index : Nat} {key : String}
    {program : Program} :
    Gives world (a.valueFrom index key t [.program program] [child]) result := by
  have first := Child.first?_gives shows_
  cases result with
  | error fault => exact first.bind_error
  | ok v => exact first.bind_ok (.pure v)

namespace Cypher

open Script Scripting

variable {before : Graph} {R S T : Traverser → Course → Prop} {operations more : Ops}

/-- Operations that take all rows on, on a builder that holds a stage. -/
def Lets (before : Graph) (R : Traverser → Course → Prop) (operations : Ops)
    (S : Traverser → Course → Prop) : Prop :=
  ∃ stages, Continues operations stages ∧ Conveys before R stages S

namespace Lets

theorem nil (implies : ∀ t c, R t c → S t c) : Lets before R [] S :=
  ⟨[], Builds.nil.continues, Conveys.nil.imp (fun _ _ holds => holds) implies⟩

theorem append (first : Lets before R operations S) (next : Lets before S more T) :
    Lets before R (operations ++ more) T := by
  obtain ⟨stages, continues, conveys⟩ := first
  obtain ⟨others, continuesNext, conveysNext⟩ := next
  exact ⟨stages ++ others, continues.append continuesNext, conveys.append conveysNext⟩

end Lets

variable {b : Bindings} {scope : Scope} {parts : List Part} {part : Part} {l l' : Live}

theorem valueOps_give {e : Expression} {inside : Ops} (compiled : valueOps b e = .ok inside)
    (performs : Performs inside) : ∃ found : Slot Live,
      resolveOne (.builder (.of inside)) = .ok found ∧
      ∀ engine (a : Application) index key t world,
        a.children = runChildren engine ([found].filterMap Live.child?) →
          (Environment.seenFrom b world t).Covers b →
            Gives world (a.valueFrom index key t [Live.argument found] a.children)
              (e.evaluate (.seenFrom b world t)) := by
  obtain ⟨plan, makes, runs⟩ := (valueOps_computes e compiled performs).child
  cases makes with
  | @of _ stages builds =>
      obtain ⟨program, done⟩ := builds.fresh
      refine ⟨.builder (⟨false, program, .mk stages []⟩ : Live), ?_,
        fun engine a index key t world children covers => ?_⟩
      · simp only [resolveOne, perform, done]
        rfl
      · rw [children]
        exact Application.valueFrom_gives (runs engine world t covers)

theorem writeOps_let {single : Bool} {key : String} {e : Expression} {value : Slot Script}
    {found : Slot Live} (resolved : resolveOne value = .ok found) (known : e.literal? ≠ some .null)
    (gives : ∀ engine (a : Application) index t entered made world,
      a.children = runChildren engine ([found].filterMap Live.child?) →
        Follows b before parts t ⟨entered, made⟩ → world.sideEffects = [] →
          Gives world (a.valueFrom index key t [Live.argument found] a.children)
            (e.evaluate ⟨world.store.graph,
              fun name => made.value? (entered.valuation b) (.named name)⟩))
    (entries : List (String × Expression)) :
    Lets before (Opens b before parts part entries) [writeOps single key value]
      (Opens b before parts part (entries ++ [(key, e)])) := by
  obtain ⟨cardinality, index, arguments, alone⟩ :=
    propertyArguments_written single key (Live.argument found)
  refine ⟨_, (writeOps_builds single key resolved).continues,
    .step _ (fun engine stream => rfl) fun engine => ?_⟩
  exact write_advances known arguments alone fun {t entered made world} follows quiet =>
    gives engine _ _ t entered made world rfl follows quiet

theorem newPropertyOp_let (declares : Declares b (parts.filterMap Part.anchor?) scope)
    {single : Bool} {key : String} {e : Expression}
    (compiled : newPropertyOp scope.bindings single key e = .ok operations)
    (performed : performAll operations l = .ok l') (entries : List (String × Expression)) :
    Lets before (Opens b before parts part entries) operations
      (Opens b before parts part (entries ++ [(key, e)])) := by
  unfold newPropertyOp at compiled
  split at compiled
  · next v literal =>
      cases compiled
      cases e with
      | literal _ =>
          cases literal
          cases null : v.isNull with
          | true =>
              have same : v = .null := by cases v <;> simp_all [Value.isNull]
              exact .nil fun t c opens => opens.skip (by rw [same]; rfl)
          | false =>
              have other : v ≠ .null := by
                rintro rfl
                cases null
              have known : (Expression.literal v).literal? ≠ some .null := fun same =>
                other (Option.some.inj same)
              have resolved : resolveOne (.literal v) = .ok (Slot.literal v : Slot Live) := rfl
              refine writeOps_let resolved known
                (fun engine a index t entered made world children follows quiet => ?_) entries
              rw [Expression.evaluate, if_neg other]
              exact Gives.pure v
      | _ => cases literal
  · next computed =>
      obtain ⟨script, scripted, same⟩ := bind_eq_ok.mp compiled
      cases same
      obtain ⟨inside, compiledInside, rfl⟩ := map_eq_ok.mp scripted
      have performs : Performs inside := by
        cases single <;> exact Performs.within performed List.mem_cons_self (by simp)
      obtain ⟨slot, resolved, gives⟩ := valueOps_give compiledInside performs
      refine writeOps_let resolved (by simp [computed])
        (fun engine a index t entered made world children follows quiet => ?_) entries
      rw [← follows.seenFrom_eq declares quiet]
      exact gives engine a index key t world children (follows.covers declares quiet)

theorem newPropertyOps_let (declares : Declares b (parts.filterMap Part.anchor?) scope)
    {single : Bool} {properties : List (String × Expression)}
    (compiled : newPropertyOps scope.bindings single properties = .ok operations)
    (performed : performAll operations l = .ok l') (entries : List (String × Expression)) :
    Lets before (Opens b before parts part entries) operations
      (Opens b before parts part (entries ++ properties)) := by
  induction properties generalizing entries operations l with
  | nil =>
      cases compiled
      rw [List.append_nil]
      exact .nil fun _ _ opens => opens
  | cons entry rest ih =>
      obtain ⟨first, one, compiled⟩ := bind_eq_ok.mp compiled
      obtain ⟨others, several, same⟩ := bind_eq_ok.mp compiled
      cases same
      obtain ⟨halfway, begun, performed⟩ := performed_append.mp performed
      have writes : Lets before (Opens b before parts part entries) first
          (Opens b before parts part (entries ++ [entry])) :=
        newPropertyOp_let declares one begun entries
      rw [List.append_cons]
      exact writes.append (ih several performed _)

theorem label_let {anchor : Anchor} (named : part.anchor? = some anchor) :
    Lets before (Opens b before parts part part.properties) [.labelled .as_ [anchor.label]]
      (Follows b before (parts ++ [part])) := by
  refine ⟨_, (Builds.labelled .as_ ⟨rfl, by decide⟩ rfl [anchor.label]).continues,
    .step (fun _ t => pure [t.addLabel anchor.label]) (fun engine stream => ?_)
      fun _ => label_advances named⟩
  rw [forEach_pure]
  rfl

theorem node_let (declares : Declares b (parts.filterMap Part.anchor?) scope) {anchor : Anchor}
    {pattern : NodePattern}
    (compiled : newPropertyOps scope.bindings true pattern.properties = .ok operations)
    (performed : performAll operations l = .ok l') :
    Lets before (Opens b before parts (.node anchor pattern) [])
      (operations ++ [.labelled .as_ [anchor.label]])
      (Follows b before (parts ++ [.node anchor pattern])) :=
  have named : (Part.node anchor pattern).anchor? = some anchor := rfl
  (newPropertyOps_let declares compiled performed []).append (label_let named)

theorem addVertex_let (anchor : Anchor) (pattern : NodePattern) :
    Lets before (Follows b before parts) [.addVertex pattern.labels.head?]
      (Opens b before parts (.node anchor pattern) []) := by
  refine ⟨_, .addVertex pattern.labels.head?,
    .step (fun _ t => do return [t.split (← createVertex pattern.labels.head?)])
      (fun engine stream => ?_) fun _ => addV_advances anchor pattern⟩
  exact Application.addV_eq rfl stream

theorem edge_let {source target : Anchor} {pattern : RelationshipPattern} {label : String}
    (types : pattern.types = [label])
    (declares : Declares b (parts.filterMap Part.anchor?) scope)
    (starts : Nameable scope (parts.filterMap Part.anchor?) source)
    (ends : Nameable scope (parts.filterMap Part.anchor?) target)
    (compiled : newPropertyOps scope.bindings false pattern.properties = .ok operations)
    (performed : performAll operations l = .ok l') :
    Lets before (Follows b before parts)
      ([.labelled .addE [label], .labelled .from_ [source.label], .labelled .to_ [target.label]]
        ++ operations ++ labelOps pattern.name)
      (Follows b before (parts ++ [.edge source target pattern])) := by
  have adds : Lets before (Follows b before parts)
      [.labelled .addE [label], .labelled .from_ [source.label], .labelled .to_ [target.label]]
      (Opens b before parts (.edge source target pattern) []) :=
    ⟨_, (addE_builds label source.label target.label).continues,
      .step _ (fun engine stream => rfl) fun _ =>
        addE_advances types declares starts ends ⟨.from_, [.label source.label], [], false⟩
          ⟨.to_, [.label target.label], [], false⟩ rfl rfl⟩
  refine (adds.append (newPropertyOps_let declares compiled performed [])).append ?_
  cases named : pattern.name with
  | none =>
      exact .nil fun t c opens => opens.close (by rw [Part.anchor?, named]; rfl)
  | some name =>
      have called : (Part.edge source target pattern).anchor? = some (.named name) := by
        rw [Part.anchor?, named]
        rfl
      exact label_let called

end Cypher

end PropertyGraph
