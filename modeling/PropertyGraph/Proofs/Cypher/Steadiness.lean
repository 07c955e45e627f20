import PropertyGraph.Cypher.QueryReader
import PropertyGraph.Proofs.Builder.Stages

/-!
Readers of words and marks look at nothing but the text: what they read is the same behind any
number of bytes and with any parameters, only the positions in their faults are not. None of them
leaves more text than there was.
-/

namespace PropertyGraph.Cypher

theorem dropBlanks_spec :
    (∀ text, (dropBlanks text).length ≤ text.length ∧
      dropBlanks (dropBlanks text) = dropBlanks text) ∧
    (∀ text, (dropBlock text).length ≤ text.length ∧
      dropBlanks (dropBlock text) = dropBlock text) ∧
    ∀ text, (dropLine text).length ≤ text.length ∧
      dropBlanks (dropLine text) = dropLine text := by
  apply dropBlanks.mutual_induct_unfolding
    (fun text rest => rest.length ≤ text.length ∧ dropBlanks rest = rest)
    (fun text rest => rest.length ≤ text.length ∧ dropBlanks rest = rest)
    (fun text rest => rest.length ≤ text.length ∧ dropBlanks rest = rest)
  case case5 =>
    intro c rest noLine noBlock word
    simp [dropBlanks, word]
  all_goals grind [dropBlanks, dropLine, dropBlock]

theorem length_dropBlanks (text : List Char) : (dropBlanks text).length ≤ text.length :=
  (dropBlanks_spec.1 text).1

@[simp] theorem dropBlanks_dropBlanks (text : List Char) :
    dropBlanks (dropBlanks text) = dropBlanks text :=
  (dropBlanks_spec.1 text).2

variable {α β : Type}

/-- On this text the parser reads the same behind any number of bytes and with any parameters, or
nothing ever, and leaves no more than so many characters. -/
def SteadyAt (text : List Char) (limit : Nat) (p : Parser α) : Prop :=
  ∃ outcome : Option (α × List Char),
    (∀ source, ((p.run source).run text).toOption = outcome) ∧
    ∀ found ∈ outcome, found.2.length ≤ limit

def Steady (p : Parser α) : Prop := ∀ text, SteadyAt text text.length p

/-- Nothing is read, from any text. -/
def Fails (p : Parser α) : Prop := ∀ source text, ((p.run source).run text).toOption = none

theorem Parser.bind_run (p : Parser α) (next : α → Parser β) (source : Source) (text : List Char) :
    ((p >>= next).run source).run text =
      (p.run source).run text >>= fun found => ((next found.1).run source).run found.2 := rfl

theorem map_run (f : α → β) (p : Parser α) (source : Source) (text : List Char) :
    ((f <$> p).run source).run text =
      (fun found => (f found.1, found.2)) <$> (p.run source).run text := by
  rw [map_eq_pure_bind, Parser.bind_run]
  cases (p.run source).run text <;> rfl

theorem toOption_bind {ε : Type} (first : Except ε α) (next : α → Except ε β) :
    (first >>= next).toOption = first.toOption.bind fun a => (next a).toOption := by
  cases first <;> rfl

namespace Fails

theorem throw (fault : ParseFault) : Fails (MonadExcept.throw fault : Parser α) :=
  fun _ _ => rfl

theorem then_ {p : Parser α} {next : α → Parser β} (others : ∀ a, Fails (next a)) :
    Fails (p >>= next) := by
  intro source text
  rw [Parser.bind_run, toOption_bind, Option.bind_eq_none_iff]
  exact fun found _ => others found.1 source found.2

end Fails

namespace SteadyAt

variable {text rest : List Char} {limit : Nat}

theorem pure (short : text.length ≤ limit) (a : α) :
    SteadyAt text limit (Pure.pure a : Parser α) :=
  ⟨some (a, text), fun _ => rfl, fun _ same => Option.some.inj same ▸ short⟩

theorem of_fails {p : Parser α} (fails : Fails p) : SteadyAt text limit p :=
  ⟨none, fun source => fails source text, nofun⟩

theorem bind {p : Parser α} {next : α → Parser β} {between : Nat}
    (first : SteadyAt text between p)
    (others : ∀ a rest, rest.length ≤ between → SteadyAt rest limit (next a)) :
    SteadyAt text limit (p >>= next) := by
  obtain ⟨outcome, same, short⟩ := first
  have split (source : Source) : (((p >>= next).run source).run text).toOption =
      outcome.bind fun found => (((next found.1).run source).run found.2).toOption := by
    rw [← same source, Parser.bind_run, toOption_bind]
  cases outcome with
  | none => exact ⟨none, split, nofun⟩
  | some found =>
      obtain ⟨last, sameLast, shortLast⟩ := others found.1 found.2 (short found rfl)
      exact ⟨last, fun source => (split source).trans (sameLast source), shortLast⟩

theorem of_get {next : List Char → Parser β} (steady : SteadyAt text limit (next text)) :
    SteadyAt text limit (get >>= next) := steady

theorem of_set {next : PUnit → Parser β} (steady : SteadyAt rest limit (next ⟨⟩)) :
    SteadyAt text limit (set rest >>= next) := steady

end SteadyAt

namespace Steady

theorem pure (a : α) : Steady (Pure.pure a : Parser α) :=
  fun _ => .pure (Nat.le_refl _) a

theorem of_fails {p : Parser α} (fails : Fails p) : Steady p :=
  fun _ => .of_fails fails

theorem throw (fault : ParseFault) : Steady (MonadExcept.throw fault : Parser α) :=
  of_fails (.throw fault)

theorem bind {p : Parser α} {next : α → Parser β} (first : Steady p)
    (others : ∀ a, Steady (next a)) : Steady (p >>= next) := by
  intro text
  refine (first text).bind fun a rest short => ?_
  obtain ⟨outcome, same, shorter⟩ := others a rest
  exact ⟨outcome, same, fun found left => Nat.le_trans (shorter found left) short⟩

theorem map {f : α → β} {p : Parser α} (steady : Steady p) : Steady (f <$> p) := by
  rw [map_eq_pure_bind]
  exact steady.bind fun a => pure (f a)

theorem of_get {next : List Char → Parser β} (steady : ∀ text, Steady (next text)) :
    Steady (get >>= next) :=
  fun text => .of_get (steady text text)

end Steady

theorem skipBlanks_steady : Steady skipBlanks := fun text =>
  ⟨some ((), dropBlanks text), fun _ => rfl, fun _ same =>
    Option.some.inj same ▸ length_dropBlanks text⟩

theorem advance_steady : Steady advance := fun text =>
  ⟨some ((), text.tail), fun _ => rfl, fun _ same =>
    Option.some.inj same ▸ by cases text <;> simp⟩

theorem peek_steady : Steady peek := .of_get fun _ => .pure _

theorem tryChar_steady (c : Char) : Steady (tryChar c) := by
  refine skipBlanks_steady.bind fun _ => peek_steady.bind fun next => ?_
  split
  · exact advance_steady.bind fun _ => .pure true
  · exact .pure false

theorem expectChar_steady (c : Char) : Steady (expectChar c) := by
  refine (tryChar_steady c).bind fun found => ?_
  split
  · exact .pure ()
  · exact .of_fails (.then_ fun _ => .then_ fun _ => .throw _)

theorem tryMark_steady (mark : List Char) : Steady (tryMark mark) := by
  refine skipBlanks_steady.bind fun _ text => .of_get ?_
  split
  · exact .of_set (.pure (by simp) true)
  · exact .pure (Nat.le_refl _) false

/-- What stands behind a keyword is the shorter, the longer the word. -/
theorem length_afterKeyword {word text rest : List Char}
    (found : afterKeyword? word text = some rest) : rest.length + word.length = text.length := by
  fun_induction afterKeyword? word text <;> grind

theorem tryKeyword_steady (word : String) : Steady (tryKeyword word) := by
  refine skipBlanks_steady.bind fun _ text => .of_get ?_
  split
  · next rest found =>
      have shorter := length_afterKeyword found
      exact .of_set (.pure (by omega) true)
  · exact .pure (Nat.le_refl _) false

theorem expectKeyword_steady (word : String) : Steady (expectKeyword word) := by
  refine (tryKeyword_steady word).bind fun found => ?_
  split
  · exact .pure ()
  · exact .of_fails (.then_ fun _ => .throw _)

theorem atName_steady : Steady atName := peek_steady.bind fun _ => .pure _

theorem atDigit_steady : Steady atDigit := peek_steady.bind fun _ => .pure _

theorem name_steady : Steady name := by
  refine skipBlanks_steady.bind fun _ text => .of_get ?_
  split
  · next rest =>
      split
      · exact .of_fails (.throw _)
      · next closing after closed =>
          have shorter := (List.dropWhile_suffix (· != '`') (l := rest)).length_le
          rw [closed] at shorter
          exact .of_set (.pure (by grind) _)
  · next c rest _ =>
      split
      · have shorter := (List.dropWhile_suffix isWordPart (l := rest)).length_le
        exact .of_set (.pure (by grind) _)
      · exact .of_fails (.then_ fun _ => .throw _)
  · exact .of_fails (.then_ fun _ => .throw _)

theorem length_stringBody {quote : Char} {text body rest : List Char}
    (found : stringBody quote text = some (body, rest)) : rest.length ≤ text.length := by
  fun_induction stringBody quote text generalizing body <;> grind [Option.map_eq_some_iff]

theorem string?_steady : Steady string? := by
  refine skipBlanks_steady.bind fun _ text => .of_get ?_
  split
  · exact .pure (Nat.le_refl _) _
  · next quote rest =>
      split
      · split
        · next found =>
            have shorter := length_stringBody found
            exact .of_set (.pure (by grind) _)
        · exact .of_fails (.throw _)
      · exact .pure (Nat.le_refl _) _

theorem digits_steady : Steady digits := fun text => by
  have shorter := (List.dropWhile_suffix isDigit (l := text)).length_le
  exact .of_get (.of_set (.pure shorter _))

theorem fraction_steady : Steady fraction := fun text => by
  refine .of_get ?_
  split
  · next c rest =>
      split
      · exact .of_set ((digits_steady (c :: rest)).bind fun _ left short =>
          .pure (by grind) _)
      · exact .pure (Nat.le_refl _) _
  · exact .pure (Nat.le_refl _) _

theorem exponent_steady : Steady exponent := fun text => by
  have digitsBehind (mark : List Char) (rest : List Char) (short : rest.length ≤ text.length) :
      SteadyAt rest text.length (do return mark ++ (← digits)) :=
    (digits_steady rest).bind fun _ left shorter => .pure (by omega) _
  refine .of_get ?_
  split
  · next e rest =>
      split
      · split
        · next sign rest' =>
            split
            · exact .of_set (digitsBehind [e, sign] rest' (by grind))
            · exact .of_set (digitsBehind [e] _ (by grind))
        · exact .of_set (.pure (by grind) _)
      · exact .pure (Nat.le_refl _) _
  · exact .pure (Nat.le_refl _) _

theorem length_steady : Steady length := by
  refine skipBlanks_steady.bind fun _ => digits_steady.bind fun text => ?_
  split
  · exact .throw _
  · exact .pure _

end PropertyGraph.Cypher
