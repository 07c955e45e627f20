import PropertyGraph.Proofs.Cypher.AsWritten
import PropertyGraph.Proofs.Cypher.Layout

/-!
How numbers are read. Digits, a fraction and an exponent are taken as they stand, and the same is
taken with a blank put in behind them.
-/

namespace PropertyGraph.Cypher

variable {α β : Type} {p : Parser α} {a : α} {t text rest rest' : List Char} {c : Char}

theorem Takes.unique {b : α} (first : Takes p text a rest) (second : Takes p text b rest') :
    a = b ∧ rest = rest' := by
  have same := (first ⟨0, []⟩).symm.trans (second ⟨0, []⟩)
  exact Prod.mk.inj (Except.ok.inj same)

theorem Takes.of_steady (steady : Steady p) {source : Source}
    (run : (p.run source).run text = .ok (a, rest)) : Takes p text a rest := by
  obtain ⟨outcome, same, _⟩ := steady text
  have found := same source
  rw [run] at found
  intro other
  have again := same other
  rw [← found] at again
  cases read : (p.run other).run text with
  | error fault =>
      rw [read] at again
      cases again
  | ok b =>
      rw [read] at again
      exact congrArg _ (Option.some.inj again)

theorem Takes.behind {next : α → Parser β} {b : β} {middle : List Char}
    (taken : Takes (p >>= next) text b rest) (first : Takes p text a middle) :
    Takes (next a) middle b rest := by
  intro source
  have run := taken source
  rw [Parser.bind_run, first source] at run
  exact run

/-- What two readers take one after the other, the first of them takes alone. -/
theorem Takes.split {next : α → Parser β} {b : β} (steady : Steady p)
    (taken : Takes (p >>= next) text b rest) :
    ∃ a middle, Takes p text a middle ∧ Takes (next a) middle b rest := by
  obtain ⟨⟨a, middle⟩, first, _⟩ := bind_eq_ok.mp (taken ⟨0, []⟩)
  have one := Takes.of_steady steady first
  exact ⟨a, middle, one, taken.behind one⟩

theorem visible_of_isWordPart (c : Char) (part : isWordPart c = true) : Text.isBlank c = false :=
  isBlank_of_isWordPart part

theorem head_dropWhile (accept : Char → Bool) (text : List Char) :
    (text.dropWhile accept).head?.any accept = false := by
  induction text with
  | nil => rfl
  | cons c text ih =>
      rw [List.dropWhile_cons]
      split
      · exact ih
      · next other => exact eq_false_of_ne_true other

theorem cons_of_head_any {accept : Char → Bool} (accepted : text.head?.any accept = true) :
    ∃ c more, text = c :: more ∧ accept c = true := by
  cases text with
  | nil => cases accepted
  | cons c more => exact ⟨c, more, rfl, accepted⟩

/-- What is taken is returned as it is, whatever is put in behind it. -/
structure Chunk (p : Parser (List Char)) (text t rest : List Char) : Prop where
  takes : Takes p text t rest
  split : text = t ++ rest
  stays : ∀ rest', Parted rest rest' → Takes p (t ++ rest') t rest'

theorem visible_of_isDigit (c : Char) (digit : isDigit c = true) : Text.isBlank c = false :=
  (isDigit_cases digit).1

theorem digits_takes (all : ∀ c ∈ t, isDigit c = true) (ends : rest.head?.any isDigit = false) :
    Takes digits (t ++ rest) t rest := by
  intro source
  have run : (digits.run source).run (t ++ rest) =
      .ok ((t ++ rest).takeWhile isDigit, (t ++ rest).dropWhile isDigit) := rfl
  obtain ⟨taken, left⟩ := takeWhile_append_ends all ends
  rw [run, taken, left]

theorem digits_chunk (text : List Char) :
    Chunk digits text (text.takeWhile isDigit) (text.dropWhile isDigit) := by
  have all := List.all_eq_true.mp (List.all_takeWhile (p := isDigit) (l := text))
  refine ⟨fun source => rfl, List.takeWhile_append_dropWhile.symm, fun rest' parted => ?_⟩
  exact digits_takes all (parted.head_any visible_of_isDigit (head_dropWhile isDigit text))

/-- Whether a point and a digit come next. -/
def marksFraction (text : List Char) : Bool :=
  text.head? == some '.' && text.tail.head?.any isDigit

theorem fraction_run (source : Source) (text : List Char) :
    (fraction.run source).run text =
      ((match text with
        | '.' :: c :: rest =>
            if isDigit c then do
              set (c :: rest)
              return '.' :: (← digits)
            else return []
        | _ => return [] : Parser (List Char)).run source).run text := rfl

theorem fraction_found {more : List Char} (digit : isDigit c = true)
    (taken : Takes digits (c :: more) t rest) :
    Takes fraction ('.' :: c :: more) ('.' :: t) rest := by
  intro source
  have run : (fraction.run source).run ('.' :: c :: more) =
      ((if isDigit c then do
          set (c :: more)
          return '.' :: (← digits)
        else return [] : Parser (List Char)).run source).run ('.' :: c :: more) := rfl
  rw [run, if_pos digit]
  exact congrArg (· >>= fun found => .ok ('.' :: found.1, found.2)) (taken source)

theorem fraction_absent (absent : marksFraction text = false) : Takes fraction text [] text := by
  intro source
  rw [fraction_run]
  split
  · next c rest =>
      have other : isDigit c = false := absent
      rw [other]
      rfl
  · rfl

theorem marksFraction_parted (parted : Parted rest rest') (absent : marksFraction rest = false) :
    marksFraction rest' = false := by
  obtain ⟨rfl, blank⟩ := parted
  rename_i front back more c
  match front with
  | [] =>
      refine eq_false_of_ne_true fun marks => ?_
      have point : c = '.' := by simpa using ((Bool.and_eq_true _ _).mp marks).1
      exact absurd (point ▸ blank) (by decide)
  | [d] =>
      refine eq_false_of_ne_true fun marks => ?_
      have digit : isDigit c = true := ((Bool.and_eq_true _ _).mp marks).2
      rw [visible_of_isDigit c digit] at blank
      cases blank
  | d :: e :: front => exact absent

theorem fraction_chunk (text : List Char) : ∃ t rest, Chunk fraction text t rest := by
  cases begins : marksFraction text with
  | false =>
      exact ⟨[], text, fraction_absent begins, rfl, fun rest' parted =>
        fraction_absent (marksFraction_parted parted begins)⟩
  | true =>
      obtain ⟨point, follows⟩ := (Bool.and_eq_true _ _).mp begins
      obtain ⟨more, rfl⟩ := List.head?_eq_some_iff.mp (beq_iff_eq.mp point)
      obtain ⟨c, more, rfl, digit⟩ := cons_of_head_any follows
      obtain ⟨takes, split, stays⟩ := digits_chunk (c :: more)
      rw [List.takeWhile_cons_of_pos digit] at takes split stays
      exact ⟨_, _, fraction_found digit takes, congrArg ('.' :: ·) split,
        fun rest' parted => fraction_found digit (stays rest' parted)⟩

def marksExponent (c : Char) : Bool := c = 'e' || c = 'E'

def isSign (c : Char) : Bool := c = '-' || c = '+'

theorem visible_of_marksExponent (c : Char) (marks : marksExponent c = true) :
    Text.isBlank c = false := by
  rcases (Bool.or_eq_true _ _).mp marks with same | same <;>
    (rw [of_decide_eq_true same]; decide)

theorem visible_of_isSign (c : Char) (sign : isSign c = true) : Text.isBlank c = false := by
  rcases (Bool.or_eq_true _ _).mp sign with same | same <;>
    (rw [of_decide_eq_true same]; decide)

theorem exponent_run (source : Source) (text : List Char) :
    (exponent.run source).run text =
      ((match text with
        | e :: rest =>
            if marksExponent e then
              match rest with
              | sign :: rest' =>
                  if isSign sign then do
                    set rest'
                    return e :: sign :: (← digits)
                  else do
                    set rest
                    return e :: (← digits)
              | [] => do
                  set rest
                  return [e]
            else return []
        | [] => return [] : Parser (List Char)).run source).run text := rfl

theorem exponent_absent (absent : text.head?.any marksExponent = false) :
    Takes exponent text [] text := by
  intro source
  rw [exponent_run]
  cases text with
  | nil => rfl
  | cons e rest =>
      have other : marksExponent e = false := absent
      dsimp only
      rw [other]
      rfl

theorem exponent_signed {sign : Char} (marks : marksExponent c = true) (signs : isSign sign = true)
    (taken : Takes digits text t rest) :
    Takes exponent (c :: sign :: text) (c :: sign :: t) rest := by
  intro source
  rw [exponent_run]
  dsimp only
  rw [if_pos marks, if_pos signs]
  exact congrArg (· >>= fun found => .ok (c :: sign :: found.1, found.2)) (taken source)

theorem exponent_plain (marks : marksExponent c = true) (plain : text.head?.any isSign = false)
    (taken : Takes digits text t rest) : Takes exponent (c :: text) (c :: t) rest := by
  intro source
  rw [exponent_run]
  dsimp only
  rw [if_pos marks]
  cases text with
  | nil =>
      obtain ⟨rfl, rfl⟩ := taken.unique (digits_chunk []).takes
      rfl
  | cons sign text =>
      have other : isSign sign = false := plain
      dsimp only
      rw [other]
      exact congrArg (· >>= fun found => .ok (c :: found.1, found.2)) (taken source)

theorem exponent_chunk (text : List Char) : ∃ t rest, Chunk exponent text t rest := by
  cases begins : text.head?.any marksExponent with
  | false =>
      exact ⟨[], text, exponent_absent begins, rfl, fun rest' parted =>
        exponent_absent (parted.head_any visible_of_marksExponent begins)⟩
  | true =>
      obtain ⟨c, text, rfl, marks⟩ := cons_of_head_any begins
      cases signed : text.head?.any isSign with
      | false =>
          obtain ⟨takes, split, stays⟩ := digits_chunk text
          refine ⟨_, _, exponent_plain marks signed takes, congrArg (c :: ·) split,
            fun rest' parted => exponent_plain marks ?_ (stays rest' parted)⟩
          have whole := parted.append (text.takeWhile isDigit)
          rw [← split] at whole
          exact whole.head_any visible_of_isSign signed
      | true =>
          obtain ⟨sign, text, rfl, signs⟩ := cons_of_head_any signed
          obtain ⟨takes, split, stays⟩ := digits_chunk text
          exact ⟨_, _, exponent_signed marks signs takes, congrArg (c :: sign :: ·) split,
            fun rest' parted => exponent_signed marks signs (stays rest' parted)⟩

/-- What digits, a fraction and an exponent stand for. -/
def valueOf (whole part power : List Char) : Parser Value :=
  if part.isEmpty && power.isEmpty then
    match readInt64? (whole ++ part ++ power) with
    | some i => return .int i
    | none => throw (.invalidInteger (String.ofList (whole ++ part ++ power)))
  else
    match Decimal.read? (whole ++ part ++ power) with
    | some x => return .float x
    | none => throw (.invalidNumber (String.ofList (whole ++ part ++ power)))

theorem number_steady : Steady number := by
  refine digits_steady.bind fun whole => fraction_steady.bind fun part =>
    exponent_steady.bind fun power => ?_
  dsimp only
  split <;> split <;> first | exact .pure _ | exact .throw _

theorem number_eq : number = (do valueOf (← digits) (← fraction) (← exponent)) := rfl

theorem valueOf_takes {whole part power : List Char} {v : Value}
    (taken : Takes (valueOf whole part power) text v rest) :
    rest = text ∧ ∀ other, Takes (valueOf whole part power) other v other := by
  suffices found : valueOf whole part power = pure v by
    rw [found] at taken ⊢
    exact ⟨(taken.unique (.pure v text)).2, fun other => .pure v other⟩
  unfold valueOf at taken ⊢
  split at taken <;> split at taken
  · next plain _ _ _ => rw [if_pos plain, (taken.unique (.pure _ text)).1]
  · cases taken ⟨0, []⟩
  · next plain _ _ _ => rw [if_neg plain, (taken.unique (.pure _ text)).1]
  · cases taken ⟨0, []⟩

theorem number_split {v : Value} (taken : Takes number text v rest) :
    ∃ power, text = text.takeWhile isDigit ++ (power ++ rest) ∧
      ∀ rest', Parted rest rest' →
        Takes number (text.takeWhile isDigit ++ (power ++ rest')) v rest' := by
  obtain ⟨wholeTakes, wholeSplit, wholeStays⟩ := digits_chunk text
  generalize text.takeWhile isDigit = whole, text.dropWhile isDigit = behind at *
  obtain ⟨part, middle, partTakes, rfl, partStays⟩ := fraction_chunk behind
  obtain ⟨power, after, powerTakes, rfl, powerStays⟩ := exponent_chunk middle
  rw [number_eq] at taken ⊢
  have last := ((taken.behind wholeTakes).behind partTakes).behind powerTakes
  obtain ⟨rfl, again⟩ := valueOf_takes last
  refine ⟨part ++ power, by rw [wholeSplit, List.append_assoc], fun rest' parted => ?_⟩
  rw [List.append_assoc]
  exact (wholeStays _ ((parted.append power).append part)).bind
    ((partStays _ (parted.append power)).bind ((powerStays _ parted).bind (again rest')))

end PropertyGraph.Cypher
