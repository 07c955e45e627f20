import PropertyGraph.Proofs.Function.Results
import PropertyGraph.Proofs.Run.Single

/-!
Runs that are stricter than they have to be: a selection that loses a traverser is a fault. A run is
sound if the strict run does the same, ends in what was to be expected, and fails only where values,
missing elements or endless loops make it fail.
-/

namespace PropertyGraph

namespace ExecutionFault

/-- Faults of values and of the graph; all others are faults of the traversal itself. -/
def isOrdinary : ExecutionFault → Bool
  | .missing _ | .inapplicable _ _ | .notVertex _ | .notElement _ | .notNumber _ _ | .loopLimit _ =>
      true
  | .function fault => fault.isOrdinary
  | _ => false

/-- A sort gave up, on keys whose order is not total. -/
def IsDisorder (fault : ExecutionFault) : Prop :=
  ∃ orders keys, fault = .disordered orders keys ∧
    ¬IsTotalOrder keys.length (compareAt (Application.compareKeys (orders.map (⟨none, ·⟩))) keys)

end ExecutionFault

/-- Like a step, but a selection must not lose a traverser. -/
def Application.performStrictly (engine : Engine) (a : Application) (stream : Stream) :
    Exec Stream := do
  let out ← a.perform engine stream
  if a.kind = .select ∧ out.length < stream.length then
    throw (.unboundVariable (a.labels.headD ""))
  return out

namespace Plan

mutual

def runStrictly (engine : Engine) : Plan → Stream → Exec Stream
  | .mk stages [] => runStagesStrictly engine stages
  | .mk _ (.mk step _ _ :: _) => fun _ => throw (.loopModulatorWithoutLoop step.kind)

def runStagesStrictly (engine : Engine) : List Stage → Stream → Exec Stream
  | [] => pure
  | stage :: rest => fun stream => do
      runStagesStrictly engine rest (← runStageStrictly engine stage stream)

def runStageStrictly (engine : Engine) : Stage → Stream → Exec Stream
  | .apply step children modulators =>
      Application.performStrictly engine ⟨step.kind, step.arguments,
        strictChildren engine children, strictModulations engine modulators⟩
  | stage => runStage engine stage

def strictChildren (engine : Engine) : List Plan → List Child
  | [] => []
  | plan :: rest => ⟨runStrictly engine plan, plan.isReducing⟩ :: strictChildren engine rest

def strictModulations (engine : Engine) : List Modulator → List Modulation
  | [] => []
  | modulator :: rest => strictModulation engine modulator :: strictModulations engine rest

def strictModulation (engine : Engine) : Modulator → Modulation
  | .mk step children before =>
      ⟨step.kind, step.arguments, strictChildren engine children, before⟩

end

theorem runStagesStrictly_append (engine : Engine) (first second : List Stage) (stream : Stream) :
    runStagesStrictly engine (first ++ second) stream =
      runStagesStrictly engine first stream >>= runStagesStrictly engine second := by
  induction first generalizing stream with
  | nil => simp [runStagesStrictly]
  | cons stage rest ih => simp [runStagesStrictly, ih]

theorem runStagesStrictly_one (engine : Engine) (stage : Stage) (stream : Stream) :
    runStagesStrictly engine [stage] stream = runStageStrictly engine stage stream := by
  simp [runStagesStrictly]

end Plan

namespace Exec

variable {α β : Type}

/-- A result as expected, an ordinary fault, or a sort that gave up. -/
def Within (P : α → Prop) : Except ExecutionFault α → Prop
  | .ok a => P a
  | .error fault => fault.isOrdinary = true ∨ fault.IsDisorder

/-- Two runs come to the same, and to what is expected, and remember no side effects. -/
def Sound (P : α → Prop) (strict plain : Exec α) : Prop :=
  ∀ store : Store, ∃ result after, strict.run ⟨store, []⟩ = (result, ⟨after, []⟩) ∧
    plain.run ⟨store, []⟩ = (result, ⟨after, []⟩) ∧ Within P result

namespace Sound

variable {P : α → Prop} {Q : β → Prop} {m n : Exec α} {f g : α → Exec β}

theorem pure {a : α} (holds : P a) : Sound P (Pure.pure a) (Pure.pure a) :=
  fun store => ⟨.ok a, store, rfl, rfl, holds⟩

theorem throw {fault : ExecutionFault} (ordinary : fault.isOrdinary = true) :
    Sound P (MonadExcept.throw fault) (MonadExcept.throw fault) :=
  fun store => ⟨.error fault, store, rfl, rfl, .inl ordinary⟩

theorem disorder {fault : ExecutionFault} (disorder : fault.IsDisorder) :
    Sound P (MonadExcept.throw fault) (MonadExcept.throw fault) :=
  fun store => ⟨.error fault, store, rfl, rfl, .inr disorder⟩

theorem bind (first : Sound P m n) (next : ∀ a, P a → Sound Q (f a) (g a)) :
    Sound Q (m >>= f) (n >>= g) := by
  intro store
  obtain ⟨result, after, strict, plain, within⟩ := first store
  rw [run_bind, run_bind, strict, plain]
  cases result with
  | ok a => exact next a within after
  | error fault => exact ⟨.error fault, after, rfl, rfl, within⟩

theorem imp {P' : α → Prop} (sound : Sound P m n) (implies : ∀ a, P a → P' a) :
    Sound P' m n := by
  intro store
  obtain ⟨result, after, strict, plain, within⟩ := sound store
  refine ⟨result, after, strict, plain, ?_⟩
  cases result with
  | ok a => exact implies a within
  | error fault => exact within

theorem reading {f g : World → Exec β} (next : ∀ store, Sound Q (f ⟨store, []⟩) (g ⟨store, []⟩)) :
    Sound Q (get >>= f) (get >>= g) :=
  fun store => next store store

theorem writing (store : Store) :
    Sound (fun _ => True) (set (World.mk store [])) (set (World.mk store [])) :=
  fun _ => ⟨.ok PUnit.unit, store, rfl, rfl, trivial⟩

theorem graph : Sound (fun _ => True) Exec.graph Exec.graph :=
  reading fun _ => pure trivial

theorem liftFault {ε : Type} {wrap : ε → ExecutionFault} {result : Except ε α}
    (ordinary : ∀ fault, result = .error fault → (wrap fault).isOrdinary = true)
    (holds : ∀ a, result = .ok a → P a) :
    Sound P (Exec.liftFault wrap result) (Exec.liftFault wrap result) := by
  cases result with
  | ok a => exact .pure (holds a rfl)
  | error fault => exact .throw (ordinary fault rfl)

theorem update (change : Graph → Except MissingElement Graph) :
    Sound (fun _ => True) (Exec.update change) (Exec.update change) :=
  reading fun store => (liftFault (fun _ _ => rfl) fun _ _ => trivial).bind fun graph _ =>
    writing { store with graph }

end Sound

end Exec

/-- All traversers are of one sort. -/
def All (R : Traverser → Prop) (stream : Stream) : Prop := ∀ t ∈ stream, R t

/-- So many traversers, all of one sort. -/
structure Count (n : Nat) (R : Traverser → Prop) (stream : Stream) : Prop where
  length : stream.length = n
  all : All R stream

namespace Count

variable {R S : Traverser → Prop} {stream : Stream}

theorem one {t : Traverser} (holds : R t) : Count 1 R [t] :=
  ⟨rfl, fun _ member => List.mem_singleton.mp member ▸ holds⟩

theorem single (count : Count 1 R stream) : ∃ t, stream = [t] ∧ R t := by
  obtain ⟨t, rfl⟩ := List.length_eq_one_iff.mp count.length
  exact ⟨t, rfl, count.all t List.mem_cons_self⟩

theorem append {m n : Nat} {other : Stream} (first : Count m R stream) (second : Count n R other) :
    Count (m + n) R (stream ++ other) :=
  ⟨by rw [List.length_append, first.length, second.length],
    List.forall_mem_append.mpr ⟨first.all, second.all⟩⟩

theorem imp {n : Nat} (count : Count n R stream) (implies : ∀ t, R t → S t) : Count n S stream :=
  ⟨count.length, fun t member => implies t (count.all t member)⟩

end Count

namespace Exec.Sound

variable {R S : Traverser → Prop} {stream : Stream}

theorem forEach {f g : Traverser → Exec Stream}
    (each : ∀ t ∈ stream, Sound (All R) (f t) (g t)) :
    Sound (All R) (Exec.forEach f stream) (Exec.forEach g stream) := by
  induction stream with
  | nil => exact pure nofun
  | cons t rest ih =>
      refine (each t List.mem_cons_self).bind fun out here => ?_
      refine (ih fun u later => each u (List.mem_cons_of_mem _ later)).bind fun more there => ?_
      exact pure (List.forall_mem_append.mpr ⟨here, there⟩)

theorem forEach_one {f g : Traverser → Exec Stream}
    (each : ∀ t ∈ stream, Sound (Count 1 R) (f t) (g t)) :
    Sound (Count stream.length R) (Exec.forEach f stream) (Exec.forEach g stream) := by
  induction stream with
  | nil => exact pure ⟨rfl, nofun⟩
  | cons t rest ih =>
      refine (each t List.mem_cons_self).bind fun out here => ?_
      refine (ih fun u later => each u (List.mem_cons_of_mem _ later)).bind fun more there => ?_
      have both := here.append there
      rw [Nat.add_comm] at both
      exact pure both

theorem mapEach {f g : Traverser → Exec Value}
    (each : ∀ t ∈ stream, Sound (fun v => R (t.split v)) (f t) (g t)) :
    Sound (Count stream.length R) (Exec.mapEach f stream) (Exec.mapEach g stream) :=
  forEach_one fun t member => (each t member).bind fun _ holds => pure (Count.one holds)

theorem keep {f g : Traverser → Exec Bool} (all : All R stream)
    (each : ∀ t ∈ stream, Sound (fun _ => True) (f t) (g t)) :
    Sound (All R) (Exec.keep f stream) (Exec.keep g stream) := by
  refine forEach fun t member => (each t member).bind fun passed _ => pure ?_
  cases passed with
  | true => exact (Count.one (all t member)).all
  | false => exact nofun

end Exec.Sound

end PropertyGraph
