import PropertyGraph.Proofs.Run.Observation
import PropertyGraph.Run.Branch

/-!
Loops that only count their rounds. Each round runs the body on the traversers of one level, with
the number of the round as the newest loop counter, and makes the next level of what comes out. Main
statement: a loop of so many rounds is that many levels, with the counters of the traversers as they
were before it.
-/

namespace PropertyGraph

open Exec

namespace Exec

variable {α β : Type} {P : α → Prop} {Q : β → Prop} {m : Exec α} {stream : Stream}

/-- Whatever a run gives, wherever it succeeds. -/
def Delivers (P : α → Prop) (m : Exec α) : Prop :=
  ∀ world a after, m.run world = (.ok a, after) → P a

namespace Delivers

theorem pure {a : α} (holds : P a) : Delivers P (Pure.pure a) := by
  rintro world b after same
  cases same
  exact holds

theorem throw (fault : ExecutionFault) : Delivers P (MonadExcept.throw fault : Exec α) :=
  fun _ _ _ same => nomatch same

theorem any (m : Exec α) : Delivers (fun _ => True) m := fun _ _ _ _ => trivial

theorem bind {f : α → Exec β} (first : Delivers P m) (next : ∀ a, P a → Delivers Q (f a)) :
    Delivers Q (m >>= f) := by
  intro world b after ran
  rw [run_bind] at ran
  split at ran
  · next a middle same => exact next a (first world a middle same) middle b after ran
  · cases ran

/-- Continuations are told apart only by what is delivered. -/
theorem bind_congr {f g : α → Exec β} (first : Delivers P m) (same : ∀ a, P a → f a = g a) :
    m >>= f = m >>= g := by
  funext world
  change (m >>= f).run world = (m >>= g).run world
  rw [run_bind, run_bind]
  split
  · next a middle ran => rw [same a (first world a middle ran)]
  · rfl

theorem forEach {S : Traverser → Prop} {f : Traverser → Exec Stream}
    (each : ∀ t ∈ stream, Delivers (fun out => ∀ u ∈ out, S u) (f t)) :
    Delivers (fun out => ∀ u ∈ out, S u) (Exec.forEach f stream) := by
  induction stream with
  | nil => exact pure nofun
  | cons t rest ih =>
      refine (each t List.mem_cons_self).bind fun out here => ?_
      refine (ih fun u later => each u (List.mem_cons_of_mem t later)).bind fun more there => ?_
      exact pure (List.forall_mem_append.mpr ⟨here, there⟩)

end Delivers

end Exec

/-- What comes out has the loop counters of the traverser that it comes from. -/
def Child.KeepsLoops (child : Child) : Prop :=
  ∀ t, Delivers (fun out => ∀ u ∈ out, u.loops = t.loops) (child.run [t])

namespace Traverser

/-- In a round of one more loop. -/
def inRound (round : Nat) (t : Traverser) : Traverser := { t with loops := round :: t.loops }

variable {round : Nat} {t u : Traverser}

theorem countLoop_eq (same : u.loops = (t.inRound round).loops) :
    u.countLoop = u.exitLoop.inRound (round + 1) := by
  rw [countLoop, same]
  simp [exitLoop, inRound, same]

theorem exitLoop_loops (same : u.loops = (t.inRound round).loops) :
    u.exitLoop.loops = t.loops := by
  simp [exitLoop, inRound, same]

end Traverser

namespace Child

/-- One level: the results of the body for each traverser, in a round of one more loop. -/
def level (body : Child) (round : Nat) : Stream → Exec Stream :=
  forEach fun t => do return (← body.run [t.inRound round]).map (·.exitLoop)

/-- So many levels, the first of them in this round. -/
def levels (body : Child) (round : Nat) : Nat → Stream → Exec Stream
  | 0, stream => pure stream
  | n + 1, stream => do levels body (round + 1) n (← body.level round stream)

variable {body : Child} {round : Nat} {stream : Stream}

theorem level_keeps (keeps : body.KeepsLoops) (round : Nat) (stream : Stream) :
    Delivers (fun out => ∀ u ∈ out, ∃ t ∈ stream, u.loops = t.loops) (body.level round stream) := by
  refine .forEach fun t member => (keeps (t.inRound round)).bind fun out same => .pure ?_
  intro u exited
  obtain ⟨v, found, rfl⟩ := List.mem_map.mp exited
  exact ⟨t, member, Traverser.exitLoop_loops (same v found)⟩

theorem levels_keep (keeps : body.KeepsLoops) (round n : Nat) (stream : Stream) :
    Delivers (fun out => ∀ u ∈ out, ∃ t ∈ stream, u.loops = t.loops)
      (body.levels round n stream) := by
  induction n generalizing round stream with
  | zero => exact .pure fun u member => ⟨u, member, rfl⟩
  | succ n ih =>
      refine (level_keeps keeps round stream).bind fun next here => ?_
      intro world out after ran u member
      obtain ⟨v, found, same⟩ := ih (round + 1) next world out after ran u member
      obtain ⟨t, given, same'⟩ := here v found
      exact ⟨t, given, same.trans same'⟩

theorem levels_nil (body : Child) (round n : Nat) : body.levels round n [] = pure [] := by
  induction n generalizing round with
  | zero => rfl
  | succ n ih => exact ih (round + 1)

end Child

namespace Application

namespace Loop

variable {body : Child} {times : Option Nat} {limit left round : Nat} {stream : Stream}

/-- A loop that only counts its rounds. -/
def counting (body : Child) (times : Option Nat) : Loop := ⟨body, times, none, none⟩

theorem sift_stay (body : Child) (times : Option Nat) (before : Bool) (stream : Stream) :
    sift ((counting body times).stay before) stream = pure ([], stream) := by
  induction stream with
  | nil => rfl
  | cons t rest ih =>
      rw [sift, ih]
      rfl

theorem pass_inRound (keeps : body.KeepsLoops) (t : Traverser) :
    (counting body times).pass (t.inRound round) = do
      let out ← body.run [t.inRound round]
      return ([], (out.map (·.exitLoop)).map (·.inRound (round + 1))) := by
  refine (keeps (t.inRound round)).bind_congr fun out same => ?_
  have counted : out.map (·.countLoop) = (out.map (·.exitLoop)).map (·.inRound (round + 1)) := by
    rw [List.map_map]
    exact List.map_congr_left fun u member => Traverser.countLoop_eq (same u member)
  rw [← counted]
  cases out <;> rfl

theorem sift_pass (keeps : body.KeepsLoops) (round : Nat) (stream : Stream) :
    sift (counting body times).pass (stream.map (·.inRound round)) = do
      return ([], (← body.level round stream).map (·.inRound (round + 1))) := by
  induction stream with
  | nil => rfl
  | cons t rest ih =>
      rw [Child.level] at ih
      rw [Child.level, List.map_cons, sift, pass_inRound keeps, ih, forEach]
      simp only [bind_assoc, pure_bind, List.map_append, List.nil_append]

theorem sift_settle (round : Nat) (stream : Stream) :
    sift (counting body times).settle (stream.map (·.inRound round)) =
      pure (if times.any (· ≤ round) then (stream, []) else ([], stream.map (·.inRound round))) := by
  induction stream with
  | nil => split <;> rfl
  | cons t rest ih =>
      have settled : (counting body times).settle (t.inRound round) =
          pure (if times.any (· ≤ round) then ([t], []) else ([], [t.inRound round])) := by
        change (if times.any (· ≤ round) then pure ([t], []) else pure ([], [t.inRound round])) = _
        split <;> rfl
      rw [List.map_cons, sift, settled, ih]
      split <;> rfl

theorem rounds_empty (loop : Loop) (limit left : Nat) : loop.rounds limit left [] = pure [] := by
  cases left <;> rfl

theorem rounds_over (some_ : stream ≠ []) :
    (counting body times).rounds limit 0 stream = throw (.loopLimit limit) := by
  rw [rounds, sift_stay]
  simp [some_]

theorem rounds_next (keeps : body.KeepsLoops) (some_ : stream ≠ []) :
    (counting body times).rounds limit (left + 1) (stream.map (·.inRound round)) =
      body.level round stream >>= fun next =>
        if times.any (· ≤ round + 1) then pure next
        else (counting body times).rounds limit left (next.map (·.inRound (round + 1))) := by
  rw [rounds, sift_stay]
  simp only [pure_bind, List.isEmpty_map, List.isEmpty_eq_false_iff.mpr some_, Bool.false_eq_true,
    if_false]
  rw [sift_pass keeps]
  simp only [bind_assoc, pure_bind, sift_settle]
  congr 1
  funext next
  split
  · simp [rounds_empty]
  · simp

theorem rounds_levels (keeps : body.KeepsLoops) {more : Nat} (enough : more < left) :
    (counting body (some (round + more + 1))).rounds limit left (stream.map (·.inRound round)) =
      body.levels round (more + 1) stream := by
  induction more generalizing left round stream with
  | zero =>
      by_cases empty : stream = []
      · rw [empty, List.map_nil, rounds_empty, Child.levels_nil]
      · obtain ⟨left, rfl⟩ := Nat.exists_eq_add_one_of_ne_zero (Nat.ne_of_gt enough)
        rw [rounds_next keeps empty, Child.levels]
        simp only [Option.any_some, Nat.add_zero, Nat.le_refl, decide_true, if_true]
        rfl
  | succ more ih =>
      by_cases empty : stream = []
      · rw [empty, List.map_nil, rounds_empty, Child.levels_nil]
      · obtain ⟨left, rfl⟩ := Nat.exists_eq_add_one_of_ne_zero (Nat.ne_of_gt (Nat.zero_lt_of_lt enough))
        have goesOn : ¬ (some (round + (more + 1) + 1)).any (· ≤ round + 1) = true := by
          simp
        rw [rounds_next keeps empty, Child.levels]
        congr 1
        funext next
        rw [if_neg goesOn, ← ih (Nat.lt_of_succ_lt_succ enough)]
        congr 3
        omega

/-- Without a number of rounds, what is alive after the last one is a fault. -/
theorem rounds_endless (keeps : body.KeepsLoops) :
    (counting body none).rounds limit left (stream.map (·.inRound round)) =
      body.levels round left stream >>= fun alive =>
        if alive.isEmpty then pure [] else throw (.loopLimit limit) := by
  induction left generalizing round stream with
  | zero =>
      by_cases empty : stream = []
      · rw [empty]
        rfl
      · rw [rounds_over (by simpa using empty), Child.levels, pure_bind]
        simp [empty]
  | succ left ih =>
      by_cases empty : stream = []
      · rw [empty, List.map_nil, rounds_empty, Child.levels_nil]
        rfl
      · rw [rounds_next keeps empty, Child.levels, bind_assoc]
        congr 1
        funext next
        exact ih

/-- No round and one round are the same, since the number is asked for after a round. -/
theorem rounds_at_least_one (keeps : body.KeepsLoops) {few : Nat} (none_ : few ≤ 1) :
    (counting body (some few)).rounds limit left (stream.map (·.inRound 0)) =
      (counting body (some 1)).rounds limit left (stream.map (·.inRound 0)) := by
  by_cases empty : stream = []
  · rw [empty, List.map_nil, rounds_empty, rounds_empty]
  · cases left with
    | zero => rw [rounds_over (by simpa using empty), rounds_over (by simpa using empty)]
    | succ left =>
        rw [rounds_next keeps empty, rounds_next keeps empty]
        simp [none_]

end Loop

/-- A loop with this body and number of rounds, which neither ends nor emits otherwise. -/
structure Repeats (a : Application) (body : Child) (times : Option Int64) : Prop where
  body : a.children[0]? = some body
  times : (a.last? .times).map (·.arguments[0]?) = times.map fun n => some (.literal (.int n))
  endless : a.last? .until_ = none
  silent : a.last? .emit = none

variable {a b : Application} {body : Child} {n : Int64} {limit : Nat} {stream : Stream}

theorem Repeats.loopTimes_eq {times : Option Int64} (repeats : a.Repeats body times)
    (bounded : ∀ n ∈ times, n.toInt < twoTo 32) :
    a.loopTimes = pure (times.map (·.toInt.toNat)) := by
  have given := repeats.times
  unfold loopTimes
  cases found : a.last? .times with
  | none =>
      cases times with
      | none => rfl
      | some n => simp [found] at given
  | some m =>
      cases times with
      | none => simp [found] at given
      | some n =>
          rw [found, Option.map_some, Option.map_some, Option.some.injEq] at given
          have integer : Arguments.integer .times m.arguments 0 = pure n := by
            simp [Arguments.integer, given]
          have small : n.toInt < twoTo 32 := bounded n rfl
          simp only [integer, pure_bind, if_pos small, Option.map_some]

theorem Repeats.eq_rounds {times : Option Int64} (repeats : a.Repeats body times)
    (bounded : ∀ n ∈ times, n.toInt < twoTo 32) (limit : Nat) (stream : Stream) :
    a.repeat_ limit stream = (Loop.counting body (times.map (·.toInt.toNat))).rounds limit limit
      (stream.map (·.inRound 0)) := by
  simp only [repeat_, child_eq repeats.body, repeats.loopTimes_eq bounded, repeats.endless,
    repeats.silent, pure_bind, Option.map_none]
  rfl

theorem Repeats.eq_counted {n : Int64} (repeats : a.Repeats body (some n))
    (small : n.toInt < twoTo 32) (limit : Nat) (stream : Stream) :
    a.repeat_ limit stream = (Loop.counting body (some n.toInt.toNat)).rounds limit limit
      (stream.map (·.inRound 0)) := by
  refine repeats.eq_rounds ?_ limit stream
  intro m same
  cases same
  exact small

namespace Loop

variable {loop : Loop} {outer : List Nat} {t : Traverser}

/-- In one more loop than these. -/
def Inside (outer : List Nat) (t : Traverser) : Prop := ∃ round, t.loops = round :: outer

/-- What has left the loop has the counters around it, and what goes on one more. -/
def Sifted (outer : List Nat) (found : Stream × Stream) : Prop :=
  (∀ u ∈ found.1, u.loops = outer) ∧ ∀ u ∈ found.2, Inside outer u

theorem Inside.exitLoop (inside : Inside outer t) : t.exitLoop.loops = outer := by
  obtain ⟨round, same⟩ := inside
  simp [Traverser.exitLoop, same]

theorem Inside.countLoop (inside : Inside outer t) : Inside outer t.countLoop := by
  obtain ⟨round, same⟩ := inside
  exact ⟨round + 1, by simp [Traverser.countLoop, same]⟩

theorem Inside.leaves (inside : Inside outer t) : Sifted outer ([t.exitLoop], []) :=
  ⟨List.forall_mem_singleton.mpr inside.exitLoop, nofun⟩

theorem Inside.stays (inside : Inside outer t) : Sifted outer ([], [t]) :=
  ⟨nofun, List.forall_mem_singleton.mpr inside⟩

theorem sift_sifted {f : Traverser → Exec (Stream × Stream)}
    (each : ∀ t ∈ stream, Delivers (Sifted outer) (f t)) :
    Delivers (Sifted outer) (sift f stream) := by
  induction stream with
  | nil => exact .pure ⟨nofun, nofun⟩
  | cons t rest ih =>
      refine (each t List.mem_cons_self).bind fun found here => ?_
      refine (ih fun u later => each u (List.mem_cons_of_mem t later)).bind fun more there => ?_
      exact .pure ⟨List.forall_mem_append.mpr ⟨here.1, there.1⟩,
        List.forall_mem_append.mpr ⟨here.2, there.2⟩⟩

theorem stay_sifted (before : Bool) (inside : Inside outer t) :
    Delivers (Sifted outer) (loop.stay before t) := by
  refine (Delivers.any _).bind fun left _ => ?_
  split
  · exact .pure inside.leaves
  · refine (Delivers.any _).bind fun emitted _ => ?_
    split
    · exact .pure ⟨inside.leaves.1, inside.stays.2⟩
    · exact .pure inside.stays

theorem pass_sifted (keeps : loop.body.KeepsLoops) (inside : Inside outer t) :
    Delivers (Sifted outer) (loop.pass t) := by
  refine (keeps t).bind fun out same => ?_
  split
  · exact .pure inside.leaves
  · refine .pure ⟨nofun, fun u counted => ?_⟩
    obtain ⟨v, member, rfl⟩ := List.mem_map.mp counted
    obtain ⟨round, here⟩ := inside
    exact Inside.countLoop ⟨round, (same v member).trans here⟩

theorem settle_sifted (inside : Inside outer t) : Delivers (Sifted outer) (loop.settle t) := by
  unfold settle
  split
  · exact .pure inside.leaves
  · exact stay_sifted false inside

theorem rounds_keep (keeps : loop.body.KeepsLoops) (limit left : Nat)
    (inside : ∀ t ∈ stream, Inside outer t) :
    Delivers (fun out => ∀ u ∈ out, u.loops = outer) (loop.rounds limit left stream) := by
  induction left generalizing stream with
  | zero =>
      unfold rounds
      refine (sift_sifted fun t member => stay_sifted true (inside t member)).bind
        fun found first => ?_
      dsimp only
      split
      · exact .pure first.1
      · exact .throw _
  | succ left ih =>
      unfold rounds
      refine (sift_sifted fun t member => stay_sifted true (inside t member)).bind
        fun found first => ?_
      dsimp only
      split
      · exact .pure first.1
      · refine (sift_sifted fun t member => pass_sifted keeps (first.2 t member)).bind
          fun passed second => ?_
        refine (sift_sifted fun t member => settle_sifted (second.2 t member)).bind
          fun settled third => ?_
        refine (ih third.2).bind fun more rest => .pure ?_
        exact List.forall_mem_append.mpr ⟨List.forall_mem_append.mpr
          ⟨List.forall_mem_append.mpr ⟨first.1, second.1⟩, third.1⟩, rest⟩

end Loop

/-- A loop keeps the loop counters if its body does, so that it can be the body of another one. -/
theorem repeat_keeps (keeps : body.KeepsLoops) (there : a.children[0]? = some body) (limit : Nat)
    (reducing : Bool) : (⟨a.repeat_ limit, reducing⟩ : Child).KeepsLoops := by
  intro t
  simp only [repeat_, child_eq there, pure_bind]
  refine (Delivers.any _).bind fun times _ => ?_
  exact Loop.rounds_keep keeps limit limit (by simp [Loop.Inside, Traverser.enterLoop])

/-- A loop with a number of rounds within the limit is the body that many times, level by level,
and what comes out has the loop counters of what went in; fewer than one round are one. Without a
number, what is still alive after all rounds is a fault, and otherwise nothing comes out. All this
holds of bodies that keep the loop counters, and loops of such bodies are such bodies. -/
theorem counted_loop_is_iteration (keeps : body.KeepsLoops) (bounded : limit < twoTo 32)
    (stream : Stream) :
    (∀ (a : Application) (n : Int64), a.Repeats body (some n) → 1 ≤ n.toInt → n.toInt ≤ limit →
      a.repeat_ limit stream = body.levels 0 n.toInt.toNat stream ∧
        Delivers (fun out => ∀ u ∈ out, ∃ t ∈ stream, u.loops = t.loops)
          (a.repeat_ limit stream)) ∧
    (∀ (a b : Application) (n : Int64), a.Repeats body (some n) → n.toInt ≤ 0 →
      b.Repeats body (some 1) → a.repeat_ limit stream = b.repeat_ limit stream) ∧
    (∀ a : Application, a.Repeats body none → a.repeat_ limit stream = do
      let alive ← body.levels 0 limit stream
      if alive.isEmpty then pure [] else throw (.loopLimit limit)) ∧
    ∀ (a : Application) (reducing : Bool), a.children[0]? = some body →
      (⟨a.repeat_ limit, reducing⟩ : Child).KeepsLoops := by
  refine ⟨fun a n repeats least most => ?_, fun a b n few none_ one => ?_, fun a endless => ?_,
    fun a reducing there => repeat_keeps keeps there limit reducing⟩
  · have small : n.toInt < twoTo 32 := by omega
    obtain ⟨more, same⟩ : ∃ more, n.toInt.toNat = more + 1 := ⟨n.toInt.toNat - 1, by omega⟩
    have enough : more < limit := by omega
    have levels : a.repeat_ limit stream = body.levels 0 n.toInt.toNat stream := by
      have counted : (Loop.counting body (some (0 + more + 1))).rounds limit limit
          (stream.map (·.inRound 0)) = body.levels 0 (more + 1) stream :=
        Loop.rounds_levels keeps enough
      rw [Nat.zero_add] at counted
      rw [repeats.eq_counted small, same]
      exact counted
    exact ⟨levels, levels ▸ Child.levels_keep keeps 0 _ stream⟩
  · have small : n.toInt < twoTo 32 := by omega
    have atMostOne : n.toInt.toNat ≤ 1 := by omega
    rw [few.eq_counted small, one.eq_counted (by decide)]
    exact Loop.rounds_at_least_one keeps atMostOne
  · rw [endless.eq_rounds nofun]
    exact Loop.rounds_endless keeps

/-- A body that keeps each traverser and moves a copy of it on. -/
def forking : Child := ⟨forEach fun t => pure [t, t.split (.bool true)], false⟩

/-- Two rounds of that body. -/
def forkingTwice : Application :=
  ⟨.repeat_, [], [forking], [⟨.times, [.literal (.int 2)], [], false⟩]⟩

/-- A loop in a loop is iteration too. -/
theorem loop_in_loop_is_iteration :
    Application.repeat_ 5
        ⟨.repeat_, [], [⟨forkingTwice.repeat_ 5, false⟩], [⟨.times, [.literal (.int 3)], [], false⟩]⟩
        [.start .null, .start (.int 1)] =
      Child.levels ⟨forkingTwice.repeat_ 5, false⟩ 0 3 [.start .null, .start (.int 1)] := by
  have bounded : 5 < twoTo 32 := by decide
  have forks : forking.KeepsLoops := fun t => .pure (by simp [Traverser.split])
  have inner : (⟨forkingTwice.repeat_ 5, false⟩ : Child).KeepsLoops :=
    (counted_loop_is_iteration forks bounded []).2.2.2 forkingTwice false rfl
  exact ((counted_loop_is_iteration inner bounded _).1 _ 3 ⟨rfl, rfl, rfl, rfl⟩
    (by decide) (by decide)).1

end Application

end PropertyGraph
