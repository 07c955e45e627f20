import PropertyGraph.Proofs.Builder.Parity
import PropertyGraph.Proofs.Run.Expansion

/-!
Runs that cannot be told apart. A view says what of a traverser the steps ahead look at: the names
that they look up, the labels that they give, and whether they look at the path as a whole.
Traversers that are alike in a view have the same object, and steps within the view lead them to
traversers that are alike again, with the same changes and the same faults on the way.
-/

namespace PropertyGraph

namespace Exec

variable {α β γ δ : Type} {R : α → β → Prop} {S : γ → δ → Prop}

/-- Two runs end alike, and in the same world. -/
def AgreeIn (world : World) (R : α → β → Prop) (m : Exec α) (n : Exec β) : Prop :=
  PropertyGraph.Alike R (m.run world).1 (n.run world).1 ∧ (m.run world).2 = (n.run world).2

theorem AgreeIn.of_gives {world : World} {m : Exec α} {n : Exec β} {a : α} {b : β}
    (left : Gives world m (.ok a)) (right : Gives world n (.ok b)) (related : R a b) :
    AgreeIn world R m n := by
  rw [AgreeIn, left, right]
  exact ⟨.ok related, rfl⟩

/-- From any world two runs end alike, and in the same world. -/
def Agree (R : α → β → Prop) (m : Exec α) (n : Exec β) : Prop := ∀ world, AgreeIn world R m n

theorem AgreeIn.bind {world : World} {m : Exec α} {n : Exec β} {f : α → Exec γ} {g : β → Exec δ}
    (first : AgreeIn world R m n) (next : ∀ a b, R a b → Agree S (f a) (g b)) :
    AgreeIn world S (m >>= f) (n >>= g) := by
  obtain ⟨ends, same⟩ := first
  rw [AgreeIn, run_bind, run_bind]
  generalize m.run world = left at ends same
  generalize n.run world = right at ends same
  obtain ⟨result, after⟩ := left
  obtain ⟨result', after'⟩ := right
  cases (same : after = after')
  cases (ends : PropertyGraph.Alike R result result') with
  | ok related => exact next _ _ related after
  | error fault => exact ⟨.error fault, rfl⟩

namespace Agree

theorem pure {a : α} {b : β} (related : R a b) : Agree R (Pure.pure a) (Pure.pure b) :=
  fun _ => ⟨.ok related, rfl⟩

theorem throw (fault : ExecutionFault) :
    Agree R (MonadExcept.throw fault) (MonadExcept.throw fault) := fun _ => ⟨.error fault, rfl⟩

theorem refl (m : Exec α) : Agree Eq m m := by
  intro world
  refine ⟨?_, rfl⟩
  cases (m.run world).1 with
  | ok a => exact .ok rfl
  | error fault => exact .error fault

theorem of_eq {m n : Exec α} (same : m = n) : Agree Eq m n := same ▸ refl m

theorem bind {m : Exec α} {n : Exec β} {f : α → Exec γ} {g : β → Exec δ} (first : Agree R m n)
    (next : ∀ a b, R a b → Agree S (f a) (g b)) : Agree S (m >>= f) (n >>= g) :=
  fun world => (first world).bind next

theorem bind_eq {m n : Exec α} {f : α → Exec γ} {g : α → Exec δ} (first : Agree Eq m n)
    (next : ∀ a, Agree S (f a) (g a)) : Agree S (m >>= f) (n >>= g) :=
  first.bind fun a _ same => same ▸ next a

theorem after (m : Exec α) {f : α → Exec γ} {g : α → Exec δ} (next : ∀ a, Agree S (f a) (g a)) :
    Agree S (m >>= f) (m >>= g) :=
  (refl m).bind fun a _ same => same ▸ next a

end Agree

end Exec

/-- What steps look at, apart from the objects. -/
structure View where
  reads : String → Prop
  labels : String → Prop
  path : Prop

open Exec Application

variable {view : View}

/-- Two traversers that look the same. Where a traverser came from matters only on an edge. -/
structure Traverser.Alike (view : View) (t u : Traverser) : Prop where
  object : t.object = u.object
  here : ∀ label, view.labels label → t.here.labels.contains label = u.here.labels.contains label
  labelled : ∀ label, view.reads label → t.labelled label = u.labelled label
  previous : vertexId? t.object = none → previousVertex? t = previousVertex? u
  loops : t.loops = u.loops
  path : view.path → t.path = u.path

/-- Streams of traversers that look the same one by one. -/
abbrev Stream.Alike (view : View) : Stream → Stream → Prop := List.Forall₂ (Traverser.Alike view)

namespace Traverser

variable {t u : Traverser}

theorem labelled_addLabel_self (t : Traverser) (label : String) :
    (t.addLabel label).labelled label =
      if t.here.labels.contains label then t.labelled label
      else t.labelled label ++ [t.object] := by
  by_cases present : label ∈ t.here.labels <;> simp [labelled, addLabel, present, object]

theorem contains_addLabel (t : Traverser) (label other : String) :
    (t.addLabel label).here.labels.contains other =
      (t.here.labels.contains other || other == label) := by
  by_cases present : label ∈ t.here.labels <;> by_cases same : other = label <;>
    simp [addLabel, present, same]

theorem loops_addLabel (t : Traverser) (label : String) : (t.addLabel label).loops = t.loops := by
  unfold addLabel
  split <;> rfl

theorem path_addLabel (t : Traverser) (label : String) : (t.addLabel label).path = t.path := by
  have object := object_addLabel t label
  rw [Traverser.object, Traverser.object] at object
  rw [path, path, past_addLabel, List.map_cons, List.map_cons, object]

theorem previousVertex?_addLabel (t : Traverser) (label : String) :
    previousVertex? (t.addLabel label) = previousVertex? t := by
  rw [previousVertex?, past_addLabel, previousVertex?]

namespace Alike

theorem refl (t : Traverser) : t.Alike view t :=
  ⟨rfl, fun _ _ => rfl, fun _ _ => rfl, fun _ => rfl, rfl, fun _ => rfl⟩

theorem split (alike : t.Alike view u) (v : Value) : (t.split v).Alike view (u.split v) where
  object := rfl
  here _ _ := rfl
  labelled label reads := by
    rw [labelled_split, labelled_split]
    exact alike.labelled label reads
  previous _ := by
    have same : t.here.object = u.here.object := alike.object
    have before := alike.previous
    rw [Traverser.object] at before
    rw [previousVertex?, previousVertex?]
    simp only [Traverser.split, List.findSome?_cons, ← same]
    cases place : vertexId? t.here.object with
    | some id => rfl
    | none => exact before place
  loops := alike.loops
  path whole := by
    have before := alike.path whole
    rw [Traverser.path, Traverser.path] at before ⊢
    simp only [Traverser.split, List.map_cons, List.reverse_cons] at before ⊢
    rw [before]

theorem splits (alike : t.Alike view u) (values : List Value) :
    Stream.Alike view (values.map t.split) (values.map u.split) := by
  have same : List.Forall₂ Eq values values := List.forall₂_same.mpr fun _ _ => rfl
  exact List.rel_map (fun v _ equal => equal ▸ alike.split v) same

theorem addLabel (alike : t.Alike view u) {label : String} (admitted : view.labels label) :
    (t.addLabel label).Alike view (u.addLabel label) where
  object := by rw [object_addLabel, object_addLabel, alike.object]
  here other known := by rw [contains_addLabel, contains_addLabel, alike.here other known]
  labelled other reads := by
    by_cases same : other = label
    · subst same
      rw [labelled_addLabel_self, labelled_addLabel_self, alike.here other admitted,
        alike.labelled other reads, alike.object]
    · rw [labelled_addLabel_of_ne t same, labelled_addLabel_of_ne u same,
        alike.labelled other reads]
  previous place := by
    rw [object_addLabel] at place
    rw [previousVertex?_addLabel, previousVertex?_addLabel, alike.previous place]
  loops := by rw [loops_addLabel, loops_addLabel, alike.loops]
  path whole := by rw [path_addLabel, path_addLabel, alike.path whole]

theorem reloop (alike : t.Alike view u) (loops : List Nat) :
    Traverser.Alike view { t with loops } { u with loops } :=
  ⟨alike.object, alike.here, alike.labelled, alike.previous, rfl, alike.path⟩

theorem enterLoop (alike : t.Alike view u) : t.enterLoop.Alike view u.enterLoop := by
  rw [Traverser.enterLoop, Traverser.enterLoop, alike.loops]
  exact alike.reloop _

theorem exitLoop (alike : t.Alike view u) : t.exitLoop.Alike view u.exitLoop := by
  rw [Traverser.exitLoop, Traverser.exitLoop, alike.loops]
  exact alike.reloop _

theorem countLoop (alike : t.Alike view u) : t.countLoop.Alike view u.countLoop := by
  rw [Traverser.countLoop, Traverser.countLoop, alike.loops]
  split
  · exact alike
  · exact alike.reloop _

theorem loopCount (alike : t.Alike view u) : t.loopCount = u.loopCount := by
  rw [Traverser.loopCount, Traverser.loopCount, alike.loops]

theorem named? (alike : t.Alike view u) {name : String} (reads : view.reads name) (pop : Pop) :
    Exec.named? t pop name = Exec.named? u pop name := by
  have same (world : World) : world.named? t pop name = world.named? u pop name := by
    simp only [World.named?, Traverser.pathValue?, alike.object, alike.labelled name reads]
  unfold Exec.named?
  simp only [same]

end Alike

end Traverser

namespace Stream.Alike

variable {stream other : Stream}

theorem refl (stream : Stream) : Stream.Alike view stream stream :=
  List.forall₂_same.mpr fun t _ => .refl t

theorem one {t u : Traverser} (alike : t.Alike view u) : Stream.Alike view [t] [u] :=
  .cons alike .nil

theorem objects_eq (alike : Stream.Alike view stream other) : objects stream = objects other := by
  induction alike with
  | nil => rfl
  | cons first _ ih => rw [objects, List.map_cons, first.object, ← objects, ih]; rfl

theorem isEmpty_eq (alike : Stream.Alike view stream other) : stream.isEmpty = other.isEmpty := by
  cases alike <;> rfl

theorem head_object_eq (alike : Stream.Alike view stream other) :
    stream.head?.map (·.object) = other.head?.map (·.object) := by
  cases alike with
  | nil => rfl
  | cons first _ => exact congrArg some first.object

end Stream.Alike

namespace Exec.Agree

variable {stream other : Stream}

theorem forEach {f g : Traverser → Exec Stream}
    (each : ∀ t u, t.Alike view u → Agree (Stream.Alike view) (f t) (g u))
    (alike : Stream.Alike view stream other) :
    Agree (Stream.Alike view) (Exec.forEach f stream) (Exec.forEach g other) := by
  induction alike with
  | nil => exact pure .nil
  | cons first _ ih =>
      refine (each _ _ first).bind fun _ _ found => ih.bind fun _ _ more => ?_
      exact pure (List.rel_append found more)

theorem keep {test test' : Traverser → Exec Bool}
    (each : ∀ t u, t.Alike view u → Agree Eq (test t) (test' u))
    (alike : Stream.Alike view stream other) :
    Agree (Stream.Alike view) (Exec.keep test stream) (Exec.keep test' other) := by
  refine forEach (fun t u same => (each t u same).bind_eq fun passes => ?_) alike
  cases passes with
  | true => exact pure (.one same)
  | false => exact pure .nil

theorem mapEach {f g : Traverser → Exec Value}
    (each : ∀ t u, t.Alike view u → Agree Eq (f t) (g u))
    (alike : Stream.Alike view stream other) :
    Agree (Stream.Alike view) (Exec.mapEach f stream) (Exec.mapEach g other) := by
  refine forEach (fun t u same => (each t u same).bind_eq fun v => ?_) alike
  exact pure (.one (same.split v))

/-- What passes, or what a traverser moves on to, may be told by its object alone. -/
theorem keep_object {test : Traverser → Exec Bool}
    (told : ∀ t u : Traverser, t.object = u.object → test t = test u)
    (alike : Stream.Alike view stream other) :
    Agree (Stream.Alike view) (Exec.keep test stream) (Exec.keep test other) :=
  keep (fun t u same => of_eq (told t u same.object)) alike

theorem mapEach_object {f : Traverser → Exec Value}
    (told : ∀ t u : Traverser, t.object = u.object → f t = f u)
    (alike : Stream.Alike view stream other) :
    Agree (Stream.Alike view) (Exec.mapEach f stream) (Exec.mapEach f other) :=
  mapEach (fun t u same => of_eq (told t u same.object)) alike

end Exec.Agree

/-- The sub-traversal leads streams that look the same to such streams. -/
def Child.Respects (view : View) (child : Child) : Prop :=
  ∀ stream other, Stream.Alike view stream other →
    Agree (Stream.Alike view) (child.run stream) (child.run other)

namespace Child.Respects

variable {child : Child} {t u : Traverser}

theorem one (respects : child.Respects view) (alike : t.Alike view u) :
    Agree (Stream.Alike view) (child.run [t]) (child.run [u]) := respects _ _ (.one alike)

theorem first (respects : child.Respects view) (alike : t.Alike view u) :
    Agree Eq (child.first? t) (child.first? u) :=
  (respects.one alike).bind fun _ _ found => .pure found.head_object_eq

theorem hasResult (respects : child.Respects view) (alike : t.Alike view u) :
    Agree Eq (child.hasResult t) (child.hasResult u) :=
  (respects.one alike).bind fun _ _ found => .pure (by rw [found.isEmpty_eq])

theorem valueOr {choice : Option Child} (respects : ∀ child ∈ choice, child.Respects view)
    (fault : ExecutionFault) (alike : t.Alike view u) :
    Agree Eq (Child.valueOr choice fault t) (Child.valueOr choice fault u) := by
  cases choice with
  | none => exact .pure alike.object
  | some child =>
      exact ((respects child rfl).first alike).bind_eq fun _ => .refl _

end Child.Respects

namespace Predicate

def values : Predicate → List Value
  | .eq v | .neq v | .lt v | .lte v | .gt v | .gte v => [v]
  | .within vs | .without vs => vs
  | .between low high => [low, high]
  | .startingWith _ | .endingWith _ | .containing _ => []
  | .and a b | .or a b => a.values ++ b.values
  | .not a => a.values

theorem mapValues_congr {f g : Value → Value} {p : Predicate} (same : ∀ v ∈ p.values, f v = g v) :
    p.mapValues f = p.mapValues g := by
  induction p with
  | within vs | without vs => simpa [mapValues, values] using same
  | and a b first second | or a b first second =>
      have left := first fun v member => same v (List.mem_append_left _ member)
      have right := second fun v member => same v (List.mem_append_right _ member)
      simp [mapValues, left, right]
  | not a inside => simp [mapValues, inside same]
  | _ => simp_all [mapValues, values]

end Predicate

/-- Steps that look up what names stand for. -/
def StepKind.looksUp : StepKind → Bool
  | .select | .dedup | .where_ | .from_ | .to_ => true
  | _ => false

namespace View

/-- Formulas may look up any name. -/
def AdmitsKind (view : View) : StepKind → Prop
  | .path | .simplePath => view.path
  | .math => ∀ name, view.reads name
  | _ => True

def AdmitsArgument (view : View) (kind : StepKind) : Argument → Prop
  | .label s =>
      (kind.looksUp = true → view.reads s) ∧ (kind = .as_ → view.labels s)
  | .literal (.string s) => kind.looksUp = true → view.reads s
  | .predicate p => kind.looksUp = true → ∀ s, .string s ∈ p.values → view.reads s
  | _ => True

/-- The step looks at nothing outside the view. -/
structure Admits (view : View) (kind : StepKind) (arguments : List Argument) : Prop where
  suits : view.AdmitsKind kind
  given : ∀ a ∈ arguments, view.AdmitsArgument kind a

end View

/-- The view of steps that may look at everything. -/
def View.whole : View := ⟨fun _ => True, fun _ => True, True⟩

/-- The view of steps that neither look up one name nor give it as a label. -/
def View.without (x : String) : View := ⟨(· ≠ x), (· ≠ x), True⟩

/-- The view of steps that do not give one label, and do not look at the path as a whole. -/
def View.withoutLabel (x : String) : View := ⟨fun _ => True, (· ≠ x), False⟩

/-- A label that is not looked up cannot be seen. -/
theorem Traverser.Alike.hides (t : Traverser) (x : String) :
    t.Alike (View.without x) (t.addLabel x) where
  object := (object_addLabel t x).symm
  here label other := by
    rw [contains_addLabel, beq_false_of_ne (show label ≠ x from other), Bool.or_false]
  labelled label other := (labelled_addLabel_of_ne t (show label ≠ x from other)).symm
  previous _ := (previousVertex?_addLabel t x).symm
  loops := (loops_addLabel t x).symm
  path _ := (path_addLabel t x).symm

/-- Going back to the vertex where one stands cannot be seen but for the path, and for the label
that is not here any more. -/
theorem Traverser.Alike.stays (v : VertexRef) (x : String) :
    ((Traverser.start (.vertex v)).addLabel x).Alike (View.withoutLabel x)
      (((Traverser.start (.vertex v)).addLabel x).split (.vertex v)) where
  object := object_addLabel _ x
  here label other := by
    rw [contains_addLabel, beq_false_of_ne (show label ≠ x from other), Bool.or_false]
    rfl
  labelled label _ := (labelled_split _ _ label).symm
  previous place := by
    rw [object_addLabel] at place
    cases place
  loops := rfl
  path whole := whole.elim

/-- A step within the view, with sub-traversals that respect it. -/
structure Application.Respects (view : View) (a : Application) : Prop where
  admitted : view.Admits a.kind a.arguments
  children : ∀ child ∈ a.children, child.Respects view
  modulating : ∀ m ∈ a.modulations, view.Admits m.kind m.arguments
  modulations : ∀ m ∈ a.modulations, ∀ child ∈ m.children, child.Respects view

namespace View.Admits

variable {kind : StepKind} {arguments : List Argument}

theorem reads (admitted : view.Admits kind arguments) (looks : kind.looksUp = true) :
    ∀ name ∈ Arguments.labels arguments, view.reads name := by
  intro name member
  obtain ⟨a, given, label⟩ := List.mem_filterMap.mp member
  cases a with
  | label s =>
      cases label
      exact (admitted.given _ given).1 looks
  | _ => cases label

theorem predicate (admitted : view.Admits kind arguments) (looks : kind.looksUp = true)
    {p : Predicate} (given : .predicate p ∈ arguments) :
    ∀ s, .string s ∈ p.values → view.reads s := admitted.given _ given looks

theorem text {α β : Type} {R : α → β → Prop} (admitted : view.Admits kind arguments)
    (looks : kind.looksUp = true) (index : Nat) {f : String → Exec α} {g : String → Exec β}
    (next : ∀ name, view.reads name → Agree R (f name) (g name)) :
    Agree R (Arguments.text kind arguments index >>= f)
      (Arguments.text kind arguments index >>= g) := by
  rw [Arguments.text]
  split
  · next s found =>
      have known := admitted.given _ (List.mem_of_getElem? found)
      exact next s (known.1 looks)
  · next s found =>
      have known := admitted.given _ (List.mem_of_getElem? found)
      exact next s (known looks)
  · exact .throw _

end View.Admits

namespace Application.Respects

variable {a : Application} {t u : Traverser} {stream other : Stream}

theorem child (respects : a.Respects view) {α β : Type} {R : α → β → Prop} {f : Child → Exec α}
    {g : Child → Exec β} (index : Nat)
    (next : ∀ child : Child, child.Respects view → Agree R (f child) (g child)) :
    Agree R (a.child index >>= f) (a.child index >>= g) := by
  rw [Application.child]
  split
  · next child found =>
      rw [pure_bind, pure_bind]
      exact next child (respects.children child (List.mem_of_getElem? found))
  · exact .throw _

theorem bys (respects : a.Respects view) {choice : Option Child} (member : choice ∈ a.bys) :
    ∀ child ∈ choice, child.Respects view := by
  intro child found
  obtain ⟨m, modulates, rfl⟩ := List.mem_map.mp member
  exact respects.modulations m (List.mem_filter.mp modulates).1 child (List.mem_of_mem_head? found)

theorem byAt {bys : List (Option Child)}
    (respects : ∀ choice ∈ bys, ∀ child ∈ choice, child.Respects view) (index : Nat) :
    ∀ child ∈ byAt bys index, child.Respects view := by
  intro child found
  rw [Application.byAt, Option.mem_def, Option.join_eq_some_iff] at found
  exact respects _ (List.mem_of_getElem? found) child rfl

theorem byNumber (respects : a.Respects view) (index : Nat) :
    ∀ child ∈ (a.bys[index]?).join, child.Respects view := by
  intro child found
  rw [Option.mem_def, Option.join_eq_some_iff] at found
  exact respects.bys (List.mem_of_getElem? found) child rfl

theorem last (respects : a.Respects view) {kind : StepKind} {m : Modulation}
    (found : a.last? kind = some m) : ∀ child ∈ m.children, child.Respects view :=
  respects.modulations m (List.mem_filter.mp (List.mem_of_getLast? found)).1

end Application.Respects

end PropertyGraph
