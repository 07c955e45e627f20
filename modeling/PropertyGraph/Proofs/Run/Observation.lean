import PropertyGraph.Run.Exec

/-!
Runs seen from one world. A run that only looks gives a result and leaves the world as it was. Of
the traversers that come out, the objects are looked at, or only whether there are any.
-/

namespace PropertyGraph

namespace Exec

variable {α β : Type} {world : World}

theorem run_bind (m : Exec α) (f : α → Exec β) (world : World) :
    (m >>= f).run world =
      match m.run world with
      | (.ok a, after) => (f a).run after
      | (.error fault, after) => (.error fault, after) := by
  change (ExceptT.bindCont f (m world).1) (m world).2 = _
  simp only [ExceptT.run]
  rcases m world with ⟨result, after⟩
  cases result <;> rfl

/-- A run gives a result and leaves the world as it was. -/
def Gives (world : World) (m : Exec α) (result : Except ExecutionFault α) : Prop :=
  m.run world = (result, world)

/-- What a run gives is seen only in part; its faults are seen. -/
def Shows (world : World) (see : α → β → Prop) (m : Exec α) : Except ExecutionFault β → Prop
  | .ok b => ∃ a, Gives world m (.ok a) ∧ see a b
  | .error fault => Gives world m (.error fault)

/-- One traverser with this object. -/
def IsOne (stream : Stream) (v : Value) : Prop := ∃ t : Traverser, stream = [t] ∧ t.object = v

def HasObjects (stream : Stream) (values : List Value) : Prop := objects stream = values

def HasAny (stream : Stream) (some_ : Bool) : Prop := some_ = !stream.isEmpty

namespace Gives

variable {m : Exec α} {f : α → Exec β}

theorem pure (a : α) : Gives world (Pure.pure a) (.ok a) := rfl

theorem throw (fault : ExecutionFault) :
    Gives world (MonadExcept.throw fault : Exec α) (.error fault) := rfl

theorem graph : Gives world Exec.graph (.ok world.store.graph) := rfl

theorem named? (t : Traverser) (pop : Pop) (key : String) :
    Gives world (Exec.named? t pop key) (.ok (world.named? t pop key)) := rfl

theorem liftFault {ε : Type} (wrap : ε → ExecutionFault) (result : Except ε α) :
    Gives world (Exec.liftFault wrap result) (result.mapError wrap) := by
  cases result <;> rfl

theorem bind_ok {a : α} (first : Gives world m (.ok a)) {result : Except ExecutionFault β}
    (next : Gives world (f a) result) : Gives world (m >>= f) result := by
  rw [Gives] at first
  rw [Gives, run_bind, first]
  exact next

theorem bind_error {fault : ExecutionFault} (first : Gives world m (.error fault)) :
    Gives world (m >>= f) (.error fault) := by
  rw [Gives] at first
  rw [Gives, run_bind, first]

theorem bind {result : Except ExecutionFault α} {rest : α → Except ExecutionFault β}
    (first : Gives world m result) (next : ∀ a, result = .ok a → Gives world (f a) (rest a)) :
    Gives world (m >>= f) (result >>= rest) := by
  cases result with
  | error fault => exact first.bind_error
  | ok a => exact first.bind_ok (next a rfl)

theorem map {result : Except ExecutionFault α} (gives : Gives world m result) (g : α → β) :
    Gives world (g <$> m) (g <$> result) := by
  rw [map_eq_pure_bind, map_eq_pure_bind]
  exact gives.bind fun a _ => pure (g a)

end Gives

namespace Shows

variable {γ δ : Type} {see : α → β → Prop} {m : Exec α} {result : Except ExecutionFault β}

theorem ok {a : α} {b : β} (gives : Gives world m (.ok a)) (sees : see a b) :
    Shows world see m (.ok b) := ⟨a, gives, sees⟩

theorem pure {a : α} {b : β} (sees : see a b) : Shows world see (Pure.pure a) (.ok b) :=
  ok (.pure a) sees

theorem of_gives {outcome : Except ExecutionFault α} (gives : Gives world m outcome) :
    Shows world Eq m outcome := by
  cases outcome with
  | error fault => exact gives
  | ok a => exact ok gives rfl

theorem one {m : Exec Stream} {result : Except ExecutionFault Value}
    (shows_ : Shows world HasObjects m ((fun v => [v]) <$> result)) :
    Shows world IsOne m result := by
  cases result with
  | error fault => exact shows_
  | ok v =>
      obtain ⟨stream, gives, shown⟩ := shows_
      obtain ⟨u, rfl, same⟩ := List.map_eq_singleton_iff.mp shown
      exact ok gives ⟨u, rfl, same⟩

theorem bind {see' : γ → δ → Prop} {f : α → Exec γ} {rest : β → Except ExecutionFault δ}
    (first : Shows world see m result)
    (next : ∀ a b, result = .ok b → see a b → Shows world see' (f a) (rest b)) :
    Shows world see' (m >>= f) (result >>= rest) := by
  cases result with
  | error fault => exact Gives.bind_error first
  | ok b =>
      obtain ⟨a, gives, sees⟩ := first
      have after := next a b rfl sees
      change Shows world see' (m >>= f) (rest b)
      generalize rest b = last at after
      cases last with
      | error fault => exact gives.bind_ok after
      | ok d =>
          obtain ⟨c, gives', sees'⟩ := after
          exact ok (gives.bind_ok gives') sees'

end Shows

theorem Gives.shows_bind {γ δ : Type} {see : γ → δ → Prop} {m : Exec α} {f : α → Exec γ}
    {result : Except ExecutionFault α} {rest : α → Except ExecutionFault δ}
    (first : Gives world m result)
    (next : ∀ a, result = .ok a → Shows world see (f a) (rest a)) :
    Shows world see (m >>= f) (result >>= rest) :=
  (Shows.of_gives first).bind fun a _ given same => by
    subst same
    exact next a given

end Exec

theorem Application.child_eq {a : Application} {index : Nat} {child : Child}
    (there : a.children[index]? = some child) : a.child index = pure child := by
  simp [Application.child, there]

end PropertyGraph
