import PropertyGraph.Proofs.Run.Discipline
import PropertyGraph.Proofs.Run.Iteration
import PropertyGraph.Proofs.Run.Single

/-!
Rows on their own. Most steps look at one traverser at a time, and so does a loop, though it works
round by round on all of them. So two streams that go through such steps together fail where one of
them fails alone, and otherwise come to what they come to alone, in some order. The order of a
stream is not kept, since a loop lets those of one round pass before those of the next: what is
carried from step to step is a mixture of two streams, whatever its order.
-/

namespace PropertyGraph

open Exec

namespace StepKind

end StepKind

namespace Exec

variable {α β γ α' β' γ' : Type} {world : World} {m : Exec α} {n : Exec β} {k : Exec γ}

/-- It leaves the world as it is, whatever it comes to. -/
def Looks (m : Exec α) : Prop := ∀ world, (m.run world).2 = world

def Fails (world : World) (m : Exec α) : Prop := ∃ fault, (m.run world).1 = .error fault

theorem Looks.bind {f : α → Exec β} (first : Looks m) (next : ∀ a, Looks (f a)) :
    Looks (m >>= f) := by
  intro world
  have same := first world
  rw [run_bind]
  generalize m.run world = seen at same
  obtain ⟨result, after⟩ := seen
  cases result with
  | ok a => exact (next a after).trans same
  | error fault => exact same

theorem Looks.gives_or_fails (looks : Looks m) (world : World) :
    (∃ a, Gives world m (.ok a)) ∨ Fails world m := by
  have same := looks world
  cases result : (m.run world).1 with
  | ok a => exact .inl ⟨a, Prod.ext result same⟩
  | error fault => exact .inr ⟨fault, result⟩

theorem Fails.throw (fault : ExecutionFault) :
    Fails world (MonadExcept.throw fault : Exec α) :=
  ⟨fault, rfl⟩

theorem Fails.bind (fails : Fails world m) (f : α → Exec β) : Fails world (m >>= f) := by
  obtain ⟨fault, result⟩ := fails
  refine ⟨fault, ?_⟩
  rw [run_bind]
  generalize m.run world = seen at result
  obtain ⟨_, after⟩ := seen
  cases result
  rfl

theorem Fails.after {f : α → Exec β} {a : α} (gives : Gives world m (.ok a))
    (fails : Fails world (f a)) : Fails world (m >>= f) := by
  obtain ⟨fault, result⟩ := fails
  rw [Gives] at gives
  refine ⟨fault, ?_⟩
  rw [run_bind, gives]
  exact result

theorem Gives.not_fails {a : α} (gives : Gives world m (.ok a)) : ¬Fails world m := by
  rintro ⟨fault, result⟩
  rw [Gives] at gives
  rw [gives] at result
  cases result

/-- Runs that leave the world as it is. -/
def looking : Discipline where
  holds := Looks
  pure _ _ := rfl
  throw _ _ _ := rfl
  bind := .bind
  graph _ := rfl
  sideEffects _ := rfl

/-- A run of both fails where one of two runs does, and otherwise comes to something that belongs to
what they come to. -/
inductive Joined (world : World) (R : α → β → γ → Prop) (m : Exec α) (n : Exec β) (k : Exec γ) :
    Prop
  | gives {a : α} {b : β} {c : γ} (first : Gives world m (.ok a)) (second : Gives world n (.ok b))
      (both : Gives world k (.ok c)) (related : R a b c) : Joined world R m n k
  | fails (one : Fails world m ∨ Fails world n) (both : Fails world k) : Joined world R m n k

namespace Joined

variable {R : α → β → γ → Prop} {S : α' → β' → γ' → Prop}

theorem pure {a : α} {b : β} {c : γ} (related : R a b c) :
    Joined world R (Pure.pure a) (Pure.pure b) (Pure.pure c) :=
  .gives (Gives.pure a) (Gives.pure b) (Gives.pure c) related

theorem throw (fault : ExecutionFault) : Joined world R (MonadExcept.throw fault : Exec α)
    (MonadExcept.throw fault) (MonadExcept.throw fault) :=
  .fails (.inl (.throw fault)) (.throw fault)

theorem same (looks : Looks m) : Joined world (fun a b c => b = a ∧ c = a) m m m := by
  rcases looks.gives_or_fails world with ⟨a, gives⟩ | fails
  · exact .gives gives gives gives ⟨rfl, rfl⟩
  · exact .fails (.inl fails) fails

theorem bind {f : α → Exec α'} {g : β → Exec β'} {h : γ → Exec γ'}
    (first : Joined world R m n k)
    (next : ∀ a b c, R a b c → Joined world S (f a) (g b) (h c)) :
    Joined world S (m >>= f) (n >>= g) (k >>= h) := by
  cases first with
  | @gives a b c one two both related =>
      cases next a b c related with
      | gives one' two' both' related' =>
          exact .gives (one.bind_ok one') (two.bind_ok two') (both.bind_ok both') related'
      | fails failing both' =>
          exact .fails (failing.imp (.after one) (.after two)) (.after both both')
  | fails failing both => exact .fails (failing.imp (·.bind f) (·.bind g)) (both.bind h)

end Joined

/-! ### Streams that are mixed -/

/-- The traversers of two streams, in some order. -/
def Mixes (xs ys zs : Stream) : Prop := zs.Perm (xs ++ ys)

/-- The run treats a mixture of two streams as it treats each of them. -/
def Splits (world : World) (run : Stream → Exec Stream) : Prop :=
  ∀ xs ys zs, Mixes xs ys zs → Joined world Mixes (run xs) (run ys) (run zs)

variable {xs ys zs xs' ys' zs' : Stream}

namespace Mixes

theorem append (mixes : Mixes xs ys zs) (others : Mixes xs' ys' zs') :
    Mixes (xs ++ xs') (ys ++ ys') (zs ++ zs') := by
  refine (List.Perm.append mixes others).trans ?_
  rw [List.append_assoc, List.append_assoc, ← List.append_assoc ys, ← List.append_assoc xs']
  exact (List.perm_append_comm.append_right ys').append_left xs

theorem flatMap (mixes : Mixes xs ys zs) (f : Traverser → Stream) :
    Mixes (xs.flatMap f) (ys.flatMap f) (zs.flatMap f) :=
  (List.Perm.flatMap_right f mixes).trans (List.flatMap_append ▸ .refl _)

theorem map (mixes : Mixes xs ys zs) (f : Traverser → Traverser) :
    Mixes (xs.map f) (ys.map f) (zs.map f) :=
  (List.Perm.map f mixes).trans (List.map_append ▸ .refl _)

theorem mem_iff (mixes : Mixes xs ys zs) {t : Traverser} : t ∈ zs ↔ t ∈ xs ∨ t ∈ ys :=
  (List.Perm.mem_iff mixes).trans List.mem_append

end Mixes

end Exec

/-! ### One traverser at a time -/

namespace Application.Loop

variable {world : World} {f : Traverser → Exec (Stream × Stream)} {stream xs ys zs : Stream}

/-- Results and traversers that go on, each mixed of two streams. -/
def MixesBoth (a b c : Stream × Stream) : Prop := Mixes a.1 b.1 c.1 ∧ Mixes a.2 b.2 c.2

/-- What one traverser comes to, where it does not fail. -/
def yield (world : World) (f : Traverser → Exec (Stream × Stream)) (t : Traverser) :
    Stream × Stream :=
  ((f t).run world).1.toOption.getD ([], [])

theorem gives_yield (looks : ∀ t, Looks (f t)) {t : Traverser} (works : ¬Fails world (f t)) :
    Gives world (f t) (.ok (yield world f t)) := by
  rcases (looks t).gives_or_fails world with ⟨found, gives⟩ | fails
  · have same : yield world f t = found := by
      rw [Gives] at gives
      rw [yield, gives]
      rfl
    rwa [same]
  · exact absurd fails works

theorem sift_yields (looks : ∀ t, Looks (f t)) (works : ∀ t ∈ stream, ¬Fails world (f t)) :
    Gives world (sift f stream) (.ok (stream.flatMap fun t => (yield world f t).1,
      stream.flatMap fun t => (yield world f t).2)) := by
  induction stream with
  | nil => rfl
  | cons t rest ih =>
      obtain ⟨here, later⟩ := List.forall_mem_cons.mp works
      exact (gives_yield looks here).bind_ok ((ih later).bind_ok (Gives.pure _))

theorem sift_fails (looks : ∀ t, Looks (f t)) {t : Traverser} (member : t ∈ stream)
    (fails : Fails world (f t)) : Fails world (sift f stream) := by
  induction stream with
  | nil => cases member
  | cons u rest ih =>
      rcases (looks u).gives_or_fails world with ⟨found, gives⟩ | first
      · rcases List.mem_cons.mp member with rfl | later
        · exact absurd fails gives.not_fails
        · exact .after gives ((ih later).bind _)
      · exact first.bind _

theorem sift_joined (looks : ∀ t, Looks (f t)) (mixes : Mixes xs ys zs) :
    Joined world MixesBoth (sift f xs) (sift f ys) (sift f zs) := by
  by_cases works : ∀ t ∈ zs, ¬Fails world (f t)
  · refine .gives (sift_yields looks fun t member => works t (mixes.mem_iff.mpr (.inl member)))
      (sift_yields looks fun t member => works t (mixes.mem_iff.mpr (.inr member)))
      (sift_yields looks works) ⟨mixes.flatMap _, mixes.flatMap _⟩
  · simp only [not_forall, not_not] at works
    obtain ⟨t, member, fails⟩ := works
    exact .fails ((mixes.mem_iff.mp member).imp (sift_fails looks · fails)
      (sift_fails looks · fails)) (sift_fails looks member fails)

/-- All traversers on their own are those that are sifted with nothing going on. -/
theorem forEach_eq_sift (f : Traverser → Exec Stream) (stream : Stream) :
    forEach f stream = sift (fun t => f t >>= fun out => pure (out, [])) stream >>=
      fun found => pure found.1 := by
  induction stream with
  | nil => rfl
  | cons t rest ih => simp only [forEach, sift, ih, bind_assoc, pure_bind]

theorem forEach_splits {f : Traverser → Exec Stream} (looks : ∀ t, Looks (f t)) :
    Splits world (forEach f) := by
  intro xs ys zs mixes
  simp only [forEach_eq_sift]
  have rows : ∀ t, Looks (f t >>= fun out => pure (out, ([] : Stream))) := fun t =>
    (looks t).bind fun _ _ => rfl
  exact (sift_joined rows mixes).bind fun _ _ _ both => .pure both.1

/-! ### Loops -/

variable {loop : Loop}

end Application.Loop

namespace Application

variable {a : Application} {world : World}

end Application

/-! ### Every step -/

/-- A run that takes the traversers one by one, or fails whatever they are. -/
inductive Separately : (Stream → Exec Stream) → Prop
  | each (f : Traverser → Exec Stream) : Separately (forEach f)
  | never (fault : ExecutionFault) : Separately fun _ => throw fault

/-- What is known, or cannot be known, before any traverser is looked at. -/
inductive Settled {α : Type} : Exec α → Prop
  | known (a : α) : Settled (pure a)
  | unknown (fault : ExecutionFault) : Settled (throw fault)

namespace Settled

variable {α : Type} {a : Application}

theorem bind {m : Exec α} {run : α → Stream → Exec Stream} (settled : Settled m)
    (each : ∀ a, Separately (run a)) : Separately fun stream => m >>= fun a => run a stream := by
  cases settled with
  | known a =>
      simp only [pure_bind]
      exact each a
  | unknown fault => exact .never fault

theorem text (kind : StepKind) (arguments : List Argument) (index : Nat) :
    Settled (Arguments.text kind arguments index) := by
  rw [Arguments.text]
  split
  · exact .known _
  · exact .known _
  · exact .unknown _

theorem value (kind : StepKind) (arguments : List Argument) (index : Nat) :
    Settled (Arguments.value kind arguments index) := by
  rw [Arguments.value]
  split
  · exact .known _
  · exact .unknown _

theorem integer (kind : StepKind) (arguments : List Argument) (index : Nat) :
    Settled (Arguments.integer kind arguments index) := by
  rw [Arguments.integer]
  split
  · exact .known _
  · exact .unknown _

theorem scopedInteger (kind : StepKind) (arguments : List Argument) (index : Nat) :
    Settled (Arguments.scopedInteger kind arguments index) := by
  unfold Arguments.scopedInteger
  split
  · exact integer _ _ _
  · exact integer _ _ _

theorem child (a : Application) (index : Nat) : Settled (a.child index) := by
  rw [Application.child]
  split
  · exact .known _
  · exact .unknown _

theorem liftFault {ε : Type} (wrap : ε → ExecutionFault) (result : Except ε α) :
    Settled (Exec.liftFault wrap result) := by
  cases result with
  | ok a => exact .known a
  | error fault => exact .unknown _

end Settled

namespace Separately

variable {world : World} {run : Stream → Exec Stream}

theorem splits (separately : Separately run) (looks : ∀ stream, Looks (run stream)) :
    Splits world run := by
  cases separately with
  | never fault => exact fun _ _ _ _ => .throw fault
  | each f => exact Application.Loop.forEach_splits fun t => forEach_one f t ▸ looks [t]

end Separately

namespace Application

variable {a : Application}

end Application

/-! ### Every traversal -/

namespace Plan

variable {world : World}

end Plan

end PropertyGraph
