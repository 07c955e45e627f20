import Mathlib.Data.List.Forall2
import Mathlib.Tactic.IntervalCases
import PropertyGraph.Json.Reader

/-!
What readers take from the text of a JSON document. `Takes` says that a reader takes the text of one
document off the front of the input, if what follows is the end or a delimiter, so that a number
stops where it was written to stop. There is one statement for each combinator of readers.
-/

namespace PropertyGraph.Json

mutual

def depth : Json → Nat
  | .null | .bool _ | .int _ | .float _ | .string _ => 0
  | .array items => itemsDepth items + 1
  | .object fields => fieldsDepth fields + 1

def itemsDepth : List Json → Nat
  | [] => 0
  | item :: rest => max item.depth (itemsDepth rest)

def fieldsDepth : List (String × Json) → Nat
  | [] => 0
  | field :: rest => max (fieldDepth field) (fieldsDepth rest)

def fieldDepth : String × Json → Nat
  | (_, value) => value.depth

end

/-- The text of a name behind its opening quote, and what follows it. -/
def behindQuote (name : String) (rest : List Char) : List Char :=
  name.toList.flatMap escapeChar ++ '"' :: rest

theorem stringChars_append (s : String) (rest : List Char) :
    stringChars s ++ rest = '"' :: behindQuote s rest := by
  simp [stringChars, behindQuote]

theorem commaSeparated_cons (first : List Char) (others : List (List Char)) :
    commaSeparated (first :: others) = first ++ others.flatMap (',' :: ·) := by
  induction others generalizing first with
  | nil => simp [commaSeparated]
  | cons second others ih =>
      rw [commaSeparated, ih, List.flatMap_cons, List.cons_append]
      exact List.cons_ne_nil second others

theorem itemChars_eq_map (items : List Json) : itemChars items = items.map chars := by
  induction items with
  | nil => rfl
  | cons item rest ih => rw [itemChars, ih, List.map_cons]

theorem fieldsChars_eq_map (fields : List (String × Json)) :
    fieldsChars fields = fields.map fieldChars := by
  induction fields with
  | nil => rfl
  | cons field rest ih => rw [fieldsChars, ih, List.map_cons]

theorem array_append (items : List Json) (rest : List Char) :
    (Json.array items).chars ++ rest = '[' :: (commaSeparated (items.map chars) ++ ']' :: rest) := by
  simp [chars, itemChars_eq_map]

theorem object_append (fields : List (String × Json)) (rest : List Char) :
    (Json.object fields).chars ++ rest =
      '{' :: (commaSeparated (fields.map fieldChars) ++ '}' :: rest) := by
  simp [chars, fieldsChars_eq_map]

theorem field_append (name : String) (value : Json) (rest : List Char) :
    fieldChars (name, value) ++ rest = '"' :: behindQuote name (':' :: (value.chars ++ rest)) := by
  rw [fieldChars, List.append_assoc, stringChars_append, List.cons_append]

namespace Reader

variable {α β σ : Type}

theorem run_next {r : Reader α} {next : α → Reader β} {input rest : List Char} {a : α}
    (first : r.run input = .ok (a, rest)) : (r >>= next).run input = (next a).run rest := by
  rw [StateT.run_bind, first]
  rfl

theorem run_map {r : Reader α} {f : α → β} {input rest : List Char} {a : α}
    (first : r.run input = .ok (a, rest)) : (f <$> r).run input = .ok (f a, rest) := by
  rw [StateT.run_map, first]
  rfl

theorem peek_run {c : Char} (seen : isSpace c = false) (rest : List Char) :
    peek.run (c :: rest) = .ok (some c, c :: rest) := by
  simp [peek, StateT.run, List.dropWhile, seen]

theorem get_run (input : List Char) : (get : Reader (List Char)).run input = .ok (input, input) :=
  rfl

theorem advance_run (c : Char) (rest : List Char) : advance.run (c :: rest) = .ok ((), rest) := rfl

theorem colon_run (rest : List Char) : colon.run (':' :: rest) = .ok ((), rest) := rfl

/-! ### Texts -/

/-- What is read of a text once its first character is. -/
def withFirst (c : Char) (read : Option (List Char × List Char)) :
    Option (List Char × List Char) :=
  read.map fun (tail, rest) => (c :: tail, rest)

theorem stringBody_code {c : Char} {input rest : List Char}
    (code : codeEscape input = some (c, rest)) (fuel : Nat) :
    stringBody (fuel + 1) ('\\' :: 'u' :: input) = withFirst c (stringBody fuel rest) := by
  simp only [stringBody, code, Option.bind_eq_bind, Option.bind_some]
  cases stringBody fuel rest <;> rfl

theorem stringBody_simple {escaped c : Char} (simple : simpleEscape? escaped = some c) (fuel : Nat)
    (rest : List Char) :
    stringBody (fuel + 1) ('\\' :: escaped :: rest) = withFirst c (stringBody fuel rest) := by
  have noCode : escaped ≠ 'u' := by
    rintro rfl
    cases simple
  rw [stringBody, simple, Option.bind_eq_bind, Option.bind_some]
  · cases stringBody fuel rest <;> rfl
  · simpa using noCode

theorem stringBody_plain {c : Char} (quote : c ≠ '"') (slash : c ≠ '\\') (control : ¬c.toNat < 32)
    (fuel : Nat) (rest : List Char) :
    stringBody (fuel + 1) (c :: rest) = withFirst c (stringBody fuel rest) := by
  rw [stringBody]
  · simp only [if_neg quote, slash, control, decide_false, Bool.or_self, Bool.false_eq_true,
      if_false]
    cases stringBody fuel rest <;> rfl
  · simp [slash]
  · simp [slash]

theorem codeEscape_control {c : Char} (control : c.toNat < 32) (rest : List Char) :
    codeEscape ('0' :: '0' :: ((if c.toNat < 16 then ['0'] else []) ++ Text.hexDigits c.toNat ++
      rest)) = some (c, rest) := by
  rw [← Char.ofNat_toNat c]
  generalize c.toNat = n at control ⊢
  interval_cases n <;> rfl

theorem stringBody_escapeChar (c : Char) (fuel : Nat) (rest : List Char) :
    stringBody (fuel + 1) (escapeChar c ++ rest) = withFirst c (stringBody fuel rest) := by
  have simple {escaped : Char} (known : simpleEscape? escaped = some c) :=
    stringBody_simple known fuel rest
  by_cases quote : c = '"'
  · subst quote
    exact simple rfl
  by_cases slash : c = '\\'
  · subst slash
    exact simple rfl
  by_cases control : c.toNat < 32
  · by_cases named : c = '\x08' ∨ c = '\x0c' ∨ c = '\n' ∨ c = '\r' ∨ c = '\t'
    · rcases named with rfl | rfl | rfl | rfl | rfl <;> exact simple rfl
    · have code := codeEscape_control control rest
      simp only [not_or] at named
      simp only [escapeChar, quote, slash, named, control, if_false, if_true]
      split <;> next small => exact stringBody_code (by simpa [small] using code) fuel
  · have other {d : Char} (low : d.toNat < 32) : c ≠ d := by
      rintro rfl
      exact control low
    have written : escapeChar c = [c] := by
      rw [escapeChar, if_neg quote, if_neg slash, if_neg (other (by decide)),
        if_neg (other (by decide)), if_neg (other (by decide)), if_neg (other (by decide)),
        if_neg (other (by decide)), if_neg (by omega), if_neg control]
    rw [written]
    exact stringBody_plain quote slash control fuel rest

theorem stringBody_text (text rest : List Char) {fuel : Nat} (enough : text.length < fuel) :
    stringBody fuel (text.flatMap escapeChar ++ '"' :: rest) = some (text, rest) := by
  induction text generalizing fuel with
  | nil =>
      obtain _ | fuel := fuel
      · cases enough
      · rfl
  | cons c text ih =>
      obtain _ | fuel := fuel
      · cases enough
      · rw [List.flatMap_cons, List.append_assoc, stringBody_escapeChar,
          ih (Nat.lt_of_succ_lt_succ enough)]
        rfl

theorem escapeChar_ne_nil (c : Char) : escapeChar c ≠ [] := by
  unfold escapeChar
  repeat refine iteInduction (motive := (· ≠ [])) (fun _ => List.cons_ne_nil _ _) fun _ => ?_
  exact List.cons_ne_nil _ _

theorem length_le_escaped (text : List Char) : text.length ≤ (text.flatMap escapeChar).length := by
  induction text with
  | nil => exact Nat.le_refl _
  | cons c text ih =>
      have written := List.length_pos_iff.mpr (escapeChar_ne_nil c)
      rw [List.flatMap_cons, List.length_append, List.length_cons]
      omega

theorem string_run (s : String) (rest : List Char) :
    string.run (behindQuote s rest) = .ok (s, rest) := by
  have enough : s.toList.length < (behindQuote s rest).length + 1 := by
    have written := length_le_escaped s.toList
    rw [behindQuote, List.length_append]
    omega
  have body : stringBody ((behindQuote s rest).length + 1) (behindQuote s rest) =
      some (s.toList, rest) := stringBody_text s.toList rest enough
  simp only [string, StateT.run, body, String.ofList_toList]

/-! ### Numbers -/

/-- What may follow a value: nothing, or what separates or ends. -/
def Ends (rest : List Char) : Prop := ∀ c ∈ rest.head?, c = ',' ∨ c = ']' ∨ c = '}'

theorem Ends.nil : Ends [] := fun _ member => nomatch member

theorem Ends.comma (rest : List Char) : Ends (',' :: rest) := by simp [Ends]

theorem Ends.bracket (rest : List Char) : Ends (']' :: rest) := by simp [Ends]

theorem Ends.brace (rest : List Char) : Ends ('}' :: rest) := by simp [Ends]

theorem Ends.refuses {rest : List Char} (ends : Ends rest) (accept : Char → Bool)
    (none : accept ',' = false ∧ accept ']' = false ∧ accept '}' = false) :
    ∀ c ∈ rest.head?, accept c = false := by
  intro c first
  rcases ends c first with rfl | rfl | rfl
  · exact none.1
  · exact none.2.1
  · exact none.2.2

theorem digits_run {written rest : List Char} (all : ∀ c ∈ written, isDigit c = true)
    (ends : Ends rest) : digits.run (written ++ rest) = .ok (written, rest) := by
  have stop : rest.takeWhile isDigit = [] ∧ rest.dropWhile isDigit = rest := by
    cases rest with
    | nil => exact ⟨rfl, rfl⟩
    | cons c rest =>
        have other := ends.refuses isDigit (by decide) c rfl
        simp [List.takeWhile, List.dropWhile, other]
  simp [digits, StateT.run, List.takeWhile_append_of_pos all, List.dropWhile_append_of_pos all,
    stop]

theorem optionalChar_run {rest : List Char} (ends : Ends rest) {accept : Char → Bool}
    (none : accept ',' = false ∧ accept ']' = false ∧ accept '}' = false) :
    (optionalChar accept).run rest = .ok (Option.none, rest) := by
  cases rest with
  | nil => rfl
  | cons c rest => simp [optionalChar, StateT.run, ends.refuses accept none c rfl]

theorem digitChars_ne_nil (n : Nat) : digitChars n ≠ [] := Nat.toDigits_ne_nil

theorem digitChars_head {n : Nat} (zero : (digitChars n).head? = some '0') : n = 0 := by
  induction n using Nat.strongRecOn with
  | ind n ih =>
      by_cases small : n < 10
      · rw [digitChars, Nat.toDigits_of_lt_base small] at zero
        have digit : ∀ d < 10, [Nat.digitChar d].head? = some '0' → d = 0 := by decide
        exact digit n small zero
      · -- the first digit is that of the tenth
        rw [digitChars, Nat.toDigits_of_base_le (by decide) (by omega),
          List.head?_append_of_ne_nil _ Nat.toDigits_ne_nil] at zero
        have tenth := ih (n / 10) (by omega) zero
        omega

theorem absorb_digits {written : List Char} {significand : Nat}
    (fits : Nat.ofDigitChars 10 written significand < twoTo 64) :
    absorb significand written = (Nat.ofDigitChars 10 written significand, written.length) := by
  induction written generalizing significand with
  | nil => rfl
  | cons c written ih =>
      rw [Nat.ofDigitChars_cons] at fits ⊢
      have next : significand * 10 + digitsValue [c] = 10 * significand + (c.toNat - '0'.toNat) := by
        rw [digitsValue, Nat.ofDigitChars_cons, Nat.ofDigitChars_nil]
        omega
      have room : 10 * significand + (c.toNat - '0'.toNat) < twoTo 64 := by
        rw [Nat.ofDigitChars_eq_ofDigitChars_zero] at fits
        have scaled := Nat.le_mul_of_pos_left (10 * significand + (c.toNat - '0'.toNat))
          (Nat.pow_pos (n := written.length) (show 0 < 10 by decide))
        omega
      simp only [absorb, next, room, if_true, ih fits, List.length_cons]

theorem numeral_run (negative : Bool) (n : Nat) {rest : List Char} (ends : Ends rest) :
    (numeral negative).run (digitChars n ++ rest) =
      .ok (⟨negative, digitChars n, none, none⟩, rest) := by
  have found : someDigits.run (digitChars n ++ rest) = .ok (digitChars n, rest) := by
    rw [someDigits, run_next (digits_run (digitChars_isDigit n) ends)]
    simp [digitChars_ne_nil n]
    rfl
  have noZero : ¬((digitChars n).head? = some '0' ∧ 1 < (digitChars n).length) := by
    rintro ⟨zero, several⟩
    rw [digitChars_head zero] at several
    exact absurd several (by decide)
  rw [numeral, run_next found]
  simp only [Bool.and_eq_true, decide_eq_true_eq, noZero, if_false, pure_bind]
  rw [run_next (optionalChar_run ends (by decide))]
  exact (run_next (optionalChar_run ends (by decide))).trans rfl

theorem value_natural (n : Nat) (fits : n < twoTo 64) :
    (Numeral.mk false (digitChars n) none none).value = .ok (.int n) := by
  have value : Nat.ofDigitChars 10 (digitChars n) 0 = n :=
    Nat.ofDigitChars_toDigits (by decide) (by decide)
  have absorbed := absorb_digits (value.symm ▸ fits)
  simp [Numeral.value, absorbed, value, absorb]

theorem value_negative {n : Nat} (some_ : 0 < n) (fits : n ≤ twoTo 63) :
    (Numeral.mk true (digitChars n) none none).value = .ok (.int (-n)) := by
  have value : Nat.ofDigitChars 10 (digitChars n) 0 = n :=
    Nat.ofDigitChars_toDigits (by decide) (by decide)
  have room : Nat.ofDigitChars 10 (digitChars n) 0 < twoTo 64 := by
    rw [value]
    exact Nat.lt_of_le_of_lt fits (by decide)
  simp [Numeral.value, absorb_digits room, value, absorb, Nat.ne_of_gt some_, Nat.not_lt.mpr fits]

theorem number_natural {n : Nat} (fits : n < twoTo 64) {rest : List Char} (ends : Ends rest) :
    (number false).run (digitChars n ++ rest) = .ok (.int n, rest) := by
  rw [number, run_next (numeral_run false n ends), value_natural n fits]
  rfl

theorem number_negative {n : Nat} (some_ : 0 < n) (fits : n ≤ twoTo 63) {rest : List Char}
    (ends : Ends rest) : (number true).run (digitChars n ++ rest) = .ok (.int (-n), rest) := by
  rw [number, run_next (numeral_run true n ends), value_negative some_ fits]
  rfl

/-- The text of a document begins with neither white space nor a bracket that closes. -/
def Starts (j : Json) : Prop := ∃ c more, j.chars = c :: more ∧ isSpace c = false ∧ c ≠ ']'

/-- A reader that takes the text of a document, up to what may follow it, for this. -/
structure Takes (r : Reader α) (j : Json) (a : α) : Prop where
  starts : Starts j
  run : ∀ rest, Ends rest → r.run (j.chars ++ rest) = .ok (a, rest)

namespace Takes

variable {r : Reader α} {j : Json} {a : α}

theorem map (f : α → β) (takes : Takes r j a) : Takes (f <$> r) j (f a) :=
  ⟨takes.starts, fun rest ends => run_map (takes.run rest ends)⟩

theorem bind {next : α → Reader β} {b : β} (takes : Takes r j a)
    (later : ∀ rest, (next a).run rest = .ok (b, rest)) : Takes (r >>= next) j b :=
  ⟨takes.starts, fun rest ends => (run_next (takes.run rest ends)).trans (later rest)⟩

theorem document (takes : Takes r j a) : Reader.document r j.text = .ok a := by
  have whole : r.run j.text.toList = .ok (a, []) := by
    simpa [Json.text] using takes.run [] Ends.nil
  rw [Reader.document, whole]
  rfl

end Takes

theorem expectString_takes (s : String) : Takes expectString (.string s) s := by
  refine ⟨⟨'"', _, rfl, by decide, by decide⟩, fun rest _ => ?_⟩
  rw [chars, stringChars_append, expectString, run_next (peek_run (by decide) _), if_pos rfl,
    run_next (advance_run _ _)]
  exact string_run s rest

theorem expectBool_takes (b : Bool) : Takes expectBool (.bool b) b := by
  refine ⟨?_, fun rest _ => ?_⟩
  · cases b <;> exact ⟨_, _, rfl, by decide, by decide⟩
  · cases b <;> rfl

theorem isDigit_plain {c : Char} (digit : isDigit c = true) :
    isSpace c = false ∧ c ≠ ']' ∧ c ≠ '-' := by
  refine ⟨?_, ?_, ?_⟩
  · by_contra space
    simp only [isSpace, Bool.or_eq_false_iff, decide_eq_false_iff_not, not_and_or, not_not]
      at space
    rcases space with ((rfl | rfl) | rfl) | rfl <;> cases digit
  · rintro rfl
    cases digit
  · rintro rfl
    cases digit

theorem expectNumber_takes {i : Int} (low : -(twoTo 63 : Int) ≤ i) (high : i < twoTo 64) :
    Takes expectNumber (.int i) (.int i) := by
  by_cases negative : i < 0
  · have written : (Json.int i).chars = '-' :: digitChars i.natAbs := by
      rw [chars, intChars, if_pos negative]
    refine ⟨⟨_, _, written, by decide, by decide⟩, fun rest ends => ?_⟩
    rw [written, List.cons_append, expectNumber, run_next (peek_run (by decide) _)]
    refine (run_next (advance_run _ _)).trans ((number_negative ?_ ?_ ends).trans ?_)
    · omega
    · omega
    · rw [show -(i.natAbs : Int) = i by omega]
  · have written : (Json.int i).chars = digitChars i.natAbs := by
      rw [chars, intChars, if_neg negative]
    obtain ⟨c, more, first⟩ := List.exists_cons_of_ne_nil (digitChars_ne_nil i.natAbs)
    have digit : isDigit c = true :=
      digitChars_isDigit i.natAbs c (first ▸ List.mem_cons_self)
    obtain ⟨noSpace, open_, noSign⟩ := isDigit_plain digit
    refine ⟨⟨c, more, written.trans first, noSpace, open_⟩, fun rest ends => ?_⟩
    have number := number_natural (n := i.natAbs) (by omega) ends
    rw [show (i.natAbs : Int) = i by omega] at number
    rw [written]
    rw [first] at number ⊢
    rw [List.cons_append, expectNumber, run_next (peek_run noSpace _)]
    simpa [noSign, digit] using number

theorem expectInt_takes {low high i : Int} (above : low ≤ i) (below : i ≤ high)
    (least : -(twoTo 63 : Int) ≤ i) (most : i < twoTo 64) : Takes (expectInt low high) (.int i) i :=
  (expectNumber_takes least most).bind fun rest => by simp [above, below]; rfl

/-! ### Arrays -/

theorem Takes.element {item : Reader α} {j : Json} {a : α} (takes : Takes item j a) {rest : List Char}
    (ends : Ends rest) :
    (element? true item).run (j.chars ++ rest) = .ok (some a, rest) ∧
      (element? false item).run (',' :: (j.chars ++ rest)) = .ok (some a, rest) := by
  obtain ⟨c, more, first, noSpace, open_⟩ := takes.starts
  have taken := run_map (f := some) (takes.run rest ends)
  rw [first, List.cons_append] at taken ⊢
  constructor
  · have follows : (nextElement true).run (c :: (more ++ rest)) = .ok (true, c :: (more ++ rest)) := by
      rw [nextElement, run_next (peek_run noSpace _)]
      simp [open_]
      rfl
    rw [element?, run_next follows]
    exact taken
  · have follows : (nextElement false).run (',' :: c :: (more ++ rest)) =
        .ok (true, c :: (more ++ rest)) := by
      rw [nextElement, run_next (peek_run (by decide) _)]
      refine (run_next (advance_run _ _)).trans ((run_next (peek_run noSpace _)).trans ?_)
      simp [open_]
      rfl
    rw [element?, run_next follows]
    exact taken

theorem elementsFrom_others {item : Reader α} {js : List Json} {items : List α}
    (each : List.Forall₂ (Takes item) js items) {fuel : Nat} (enough : items.length < fuel)
    (rest : List Char) :
    (elementsFrom item false fuel).run ((js.map chars).flatMap (',' :: ·) ++ ']' :: rest) =
        .ok (items, ']' :: rest) ∧
      Ends ((js.map chars).flatMap (',' :: ·) ++ ']' :: rest) := by
  induction each generalizing fuel with
  | nil =>
      obtain _ | fuel := fuel
      · cases enough
      · exact ⟨rfl, .bracket rest⟩
  | cons first others ih =>
      obtain _ | fuel := fuel
      · cases enough
      · obtain ⟨later, ends⟩ := ih (Nat.lt_of_succ_lt_succ enough)
        refine ⟨?_, .comma _⟩
        rw [List.map_cons, List.flatMap_cons, List.append_assoc, List.cons_append, elementsFrom,
          run_next (first.element ends).2]
        exact (run_next later).trans rfl

theorem elementsFrom_run {item : Reader α} {js : List Json} {items : List α}
    (each : List.Forall₂ (Takes item) js items) {fuel : Nat} (enough : items.length < fuel)
    (rest : List Char) :
    (elementsFrom item true fuel).run (commaSeparated (js.map chars) ++ ']' :: rest) =
      .ok (items, ']' :: rest) := by
  cases each with
  | nil =>
      obtain _ | fuel := fuel
      · cases enough
      · rfl
  | cons first others =>
      obtain _ | fuel := fuel
      · cases enough
      · obtain ⟨later, ends⟩ := elementsFrom_others others (Nat.lt_of_succ_lt_succ enough) rest
        rw [List.map_cons, commaSeparated_cons, List.append_assoc, elementsFrom,
          run_next (first.element ends).1]
        exact (run_next later).trans rfl

theorem length_le_behindCommas (texts : List (List Char)) :
    texts.length ≤ (texts.flatMap (',' :: ·)).length := by
  induction texts with
  | nil => exact Nat.le_refl _
  | cons text texts ih =>
      rw [List.flatMap_cons, List.length_append, List.length_cons, List.length_cons]
      omega

theorem length_le_commaSeparated {texts : List (List Char)} (written : ∀ text ∈ texts, text ≠ []) :
    texts.length ≤ (commaSeparated texts).length := by
  cases texts with
  | nil => exact Nat.le_refl _
  | cons first others =>
      have one := List.length_pos_iff.mpr (written first List.mem_cons_self)
      have more := length_le_behindCommas others
      rw [commaSeparated_cons, List.length_append, List.length_cons]
      omega

theorem Takes.starts_each {item : Reader α} {js : List Json} {items : List α}
    (each : List.Forall₂ (Takes item) js items) : ∀ j ∈ js, Starts j := by
  induction each with
  | nil => exact fun _ member => nomatch member
  | cons first _ ih => exact List.forall_mem_cons.mpr ⟨first.starts, ih⟩

theorem expectArray_takes {item : Reader α} {js : List Json} {items : List α}
    (each : List.Forall₂ (Takes item) js items) : Takes (expectArray item) (.array js) items := by
  refine ⟨⟨'[', _, rfl, by decide, by decide⟩, fun rest _ => ?_⟩
  have written : ∀ text ∈ js.map chars, text ≠ [] := by
    intro text member
    obtain ⟨j, listed, rfl⟩ := List.mem_map.mp member
    obtain ⟨c, more, first, -⟩ := Takes.starts_each each j listed
    exact first ▸ List.cons_ne_nil c more
  have enough : items.length <
      (commaSeparated (js.map chars) ++ ']' :: rest).length + 1 := by
    have fits := length_le_commaSeparated written
    rw [List.length_map, each.length_eq] at fits
    rw [List.length_append]
    omega
  rw [array_append, expectArray]
  refine (run_next (run_next (peek_run (by decide) _))).trans ?_
  exact (run_next (get_run _)).trans ((run_next (elementsFrom_run each enough rest)).trans rfl)

theorem expectPair_takes {first : Reader α} {second : Reader β} {j k : Json} {a : α} {b : β}
    (takesFirst : Takes first j a) (takesSecond : Takes second k b) :
    Takes (expectPair first second) (.array [j, k]) (a, b) := by
  refine ⟨⟨'[', _, rfl, by decide, by decide⟩, fun rest _ => ?_⟩
  rw [array_append, expectPair]
  refine (run_next (run_next (peek_run (by decide) _))).trans ?_
  have one := (takesFirst.element (.comma (k.chars ++ ']' :: rest))).1
  have two := (takesSecond.element (.bracket rest)).2
  have written : commaSeparated ([j, k].map chars) ++ ']' :: rest =
      j.chars ++ ',' :: (k.chars ++ ']' :: rest) := by simp [commaSeparated]
  rw [written]
  refine (run_next (run_next one)).trans ?_
  exact (run_next (run_next two)).trans rfl

/-! ### Objects -/

/-- A reader of members that takes this field, from behind the opening quote of its name, and leads
from one state to another. -/
def TakesField (member : σ → Reader σ) (field : String × Json) (before after : σ) : Prop :=
  ∀ rest, Ends rest → (member before).run (behindQuote field.1 (':' :: (field.2.chars ++ rest))) =
    .ok (after, rest)

/-- The same for several fields in their order. -/
inductive TakesFields (member : σ → Reader σ) : List (String × Json) → σ → σ → Prop
  | nil (state : σ) : TakesFields member [] state state
  | cons {field : String × Json} {fields : List (String × Json)} {before between after : σ}
      (first : TakesField member field before between)
      (others : TakesFields member fields between after) :
      TakesFields member (field :: fields) before after

theorem field_run {item : Reader α} {j : Json} {a : α} (takes : Takes item j a) {rest : List Char}
    (ends : Ends rest) : (field none item).run (':' :: (j.chars ++ rest)) = .ok (some a, rest) := by
  rw [field, run_next (colon_run _)]
  exact run_map (takes.run rest ends)

theorem takesField {member : σ → Reader σ} {next : String → Reader σ} {name : String} {j : Json}
    {before after : σ} (reads : member before = string >>= next)
    (later : ∀ rest, Ends rest → (next name).run (':' :: (j.chars ++ rest)) = .ok (after, rest)) :
    TakesField member (name, j) before after := by
  intro rest ends
  rw [reads, run_next (string_run _ _)]
  exact later rest ends

theorem membersFrom_others {member : σ → Reader σ} {fields : List (String × Json)}
    {before after : σ} (takes : TakesFields member fields before after) {fuel : Nat}
    (enough : fields.length < fuel) (rest : List Char) :
    (membersFrom member false before fuel).run
        ((fields.map fieldChars).flatMap (',' :: ·) ++ '}' :: rest) =
        .ok (after, '}' :: rest) ∧
      Ends ((fields.map fieldChars).flatMap (',' :: ·) ++ '}' :: rest) := by
  induction takes generalizing fuel with
  | nil =>
      obtain _ | fuel := fuel
      · cases enough
      · exact ⟨rfl, .brace rest⟩
  | @cons field fields _ _ _ first _ ih =>
      obtain _ | fuel := fuel
      · cases enough
      · obtain ⟨later, ends⟩ := ih (Nat.lt_of_succ_lt_succ enough)
        refine ⟨?_, .comma _⟩
        have follows : (nextName false).run
            (',' :: '"' :: behindQuote field.1 (':' :: (field.2.chars ++
              ((fields.map fieldChars).flatMap (',' :: ·) ++ '}' :: rest)))) =
            .ok (true, behindQuote field.1 (':' :: (field.2.chars ++
              ((fields.map fieldChars).flatMap (',' :: ·) ++ '}' :: rest)))) := rfl
        rw [List.map_cons, List.flatMap_cons, List.append_assoc, List.cons_append, field_append,
          membersFrom, run_next follows, if_pos rfl, run_next (first _ ends)]
        exact later

theorem members_run {member : σ → Reader σ} {fields : List (String × Json)} {before after : σ}
    (takes : TakesFields member fields before after) (rest : List Char) :
    (members member before).run (commaSeparated (fields.map fieldChars) ++ '}' :: rest) =
      .ok (after, '}' :: rest) := by
  have written : ∀ text ∈ fields.map fieldChars, text ≠ [] := by
    intro text member
    obtain ⟨⟨name, value⟩, _, rfl⟩ := List.mem_map.mp member
    simp [fieldChars, stringChars]
  have fits := length_le_commaSeparated written
  rw [List.length_map] at fits
  refine (run_next (get_run _)).trans ?_
  cases takes with
  | nil => rfl
  | @cons field fields _ _ _ first others =>
      have enough : fields.length < (commaSeparated ((field :: fields).map fieldChars) ++
          '}' :: rest).length := by
        rw [List.length_append, List.length_cons] at *
        omega
      obtain ⟨later, ends⟩ := membersFrom_others others enough rest
      have follows (text : List Char) : (nextName true).run ('"' :: text) = .ok (true, text) := rfl
      generalize (commaSeparated ((field :: fields).map fieldChars) ++ '}' :: rest).length =
        fuel at later ⊢
      rw [List.map_cons, commaSeparated_cons, List.append_assoc, field_append, membersFrom,
        run_next (follows _), if_pos rfl, run_next (first _ ends)]
      exact later

theorem expectStructure_takes {inOrder named : Reader α} {fields : List (String × Json)} {a : α}
    (inside : ∀ rest, named.run (commaSeparated (fields.map fieldChars) ++ '}' :: rest) =
      .ok (a, '}' :: rest)) : Takes (expectStructure inOrder named) (.object fields) a := by
  refine ⟨⟨'{', _, rfl, by decide, by decide⟩, fun rest _ => ?_⟩
  rw [object_append, expectStructure, run_next (peek_run (by decide) _)]
  exact (run_next (advance_run _ _)).trans ((run_next (inside rest)).trans rfl)

theorem variant_bare {bare : String → Option α} {content : String → Reader α} {tag : String} {a : α}
    (known : bare tag = some a) : Takes (variant bare content) (.string tag) a := by
  refine ⟨⟨'"', _, rfl, by decide, by decide⟩, fun rest _ => ?_⟩
  rw [chars, stringChars_append, variant, run_next (peek_run (by decide) _)]
  refine (run_next (advance_run _ _)).trans ((run_next (string_run tag rest)).trans ?_)
  rw [known]
  rfl

theorem variant_takes {bare : String → Option α} {content : String → Reader α} {tag : String}
    {j : Json} {a : α} (unknown : bare tag = none) (inside : Takes (content tag) j a) :
    Takes (variant bare content) (.object [(tag, j)]) a := by
  refine ⟨⟨'{', _, rfl, by decide, by decide⟩, fun rest _ => ?_⟩
  have written : (Json.object [(tag, j)]).chars ++ rest =
      '{' :: ((Json.string tag).chars ++ ':' :: (j.chars ++ '}' :: rest)) := by
    simp [chars, fieldsChars, fieldChars, commaSeparated]
  have name : expectString.run ((Json.string tag).chars ++ ':' :: (j.chars ++ '}' :: rest)) =
      .ok (tag, ':' :: (j.chars ++ '}' :: rest)) := by
    rw [chars, stringChars_append]
    exact (run_next (peek_run (by decide) _)).trans
      ((run_next (advance_run _ _)).trans (string_run _ _))
  rw [written, variant, run_next (peek_run (by decide) _)]
  refine (run_next (advance_run _ _)).trans ((run_next name).trans ((run_next (colon_run _)).trans ?_))
  simp only [unknown]
  exact (run_next (inside.run _ (.brace rest))).trans rfl

end Reader

end PropertyGraph.Json
