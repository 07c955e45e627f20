import PropertyGraph.Proofs.Client.Explain
import PropertyGraph.Proofs.Cypher.Lexemes

/-!
Strings between quotes. The literals that queries may hold are those of a grammar, of which no literal
goes on behind its end; what programs show of a string is one of them. The text of a program is made
of such literals, of characters other than quotes, and of elements, which are shown as they are.
-/

namespace PropertyGraph

namespace Cypher

variable {token token' input text rest rest' : List Char} {c : Char} {s t : String}

namespace IsLiteral

theorem takes (literal : IsLiteral token s) (rest : List Char) :
    Takes string? (token ++ rest) (some s) rest := by
  refine string?_takes_iff.mpr ⟨token, literal, ?_⟩
  obtain ⟨c, more, rfl, shown, other⟩ := literal.visible
  exact dropBlanks_visible shown other _

/-- A text begins with no more than one literal, and that is read as one string. -/
theorem append_inj (first : IsLiteral token s) (second : IsLiteral token' t)
    (same : token ++ rest = token' ++ rest') : token = token' ∧ s = t ∧ rest = rest' := by
  have one := first.takes rest
  rw [same] at one
  obtain ⟨found, rfl⟩ := one.unique (second.takes rest')
  exact ⟨List.append_cancel_right same, Option.some.inj found, rfl⟩

theorem primary_takes (literal : IsLiteral token s) (nested : Parser Expression)
    (shown : dropBlanks input = token ++ rest) :
    Takes (primary nested) input (.literal (.string s)) rest := by
  have again : dropBlanks (token ++ rest) = token ++ rest := by
    rw [← shown, dropBlanks_dropBlanks]
  have found : (token ++ rest).head?.any isQuote = true := by
    obtain ⟨marks, _⟩ := literal
    exact marks
  -- What the reader looks for before a string is no quote.
  have absent (c : Char) (other : isQuote c = false) {text : List Char}
      (shown : dropBlanks text = token ++ rest) : Takes (tryChar c) text false (token ++ rest) := by
    rw [← shown]
    apply tryChar_absent
    intro begins
    rw [← shown, begins, Option.any_some, other] at found
    cases found
  have read : Takes string? (token ++ rest) (some s) rest :=
    string?_takes_iff.mpr ⟨token, literal, again⟩
  refine (absent '(' (by decide) shown).bind ((absent '[' (by decide) again).bind
    ((absent '{' (by decide) again).bind ((absent '$' (by decide) again).bind ?_)))
  exact read.bind (.pure (Expression.literal (.string s)) rest)

theorem mapKey_takes (literal : IsLiteral token s) (shown : dropBlanks input = token ++ rest) :
    Takes mapKey input s rest := by
  have read : Takes string? input (some s) rest := string?_takes_iff.mpr ⟨token, literal, shown⟩
  exact read.bind (.pure s rest)

end IsLiteral

def Unquoted (text : List Char) : Prop := ∀ c ∈ text, isQuote c = false

instance (text : List Char) : Decidable (Unquoted text) :=
  List.decidableBAll (fun c => isQuote c = false) text

namespace Unquoted

theorem cons (plain : isQuote c = false) (more : Unquoted text) : Unquoted (c :: text) :=
  List.forall_mem_cons.mpr ⟨plain, more⟩

theorem append (first : Unquoted text) (second : Unquoted rest) : Unquoted (text ++ rest) :=
  List.forall_mem_append.mpr ⟨first, second⟩

end Unquoted

/-- The strings of a text that is read from left to right, if each of them has its end: one begins at
the first quote behind the one before. -/
def stringsIn : List Char → Option (List String)
  | [] => some []
  | c :: rest =>
      if isQuote c then
        match _ : stringBody c rest with
        | some (text, after) => (stringsIn after).map (String.ofList text :: ·)
        | none => none
      else stringsIn rest
termination_by text => text.length
decreasing_by
  · exact Nat.lt_succ_of_le (length_stringBody ‹_›)
  · exact Nat.lt_succ_self _

theorem stringsIn_nil : stringsIn [] = some [] := by rw [stringsIn]

theorem stringsIn_plain (plain : isQuote c = false) (rest : List Char) :
    stringsIn (c :: rest) = stringsIn rest := by
  rw [stringsIn, plain]
  rfl

theorem stringsIn_unquoted (plain : Unquoted text) (rest : List Char) :
    stringsIn (text ++ rest) = stringsIn rest := by
  induction text with
  | nil => rfl
  | cons c text ih =>
      obtain ⟨first, others⟩ := List.forall_mem_cons.mp plain
      rw [List.cons_append, stringsIn_plain first, ih others]

theorem stringsIn_literal (literal : IsLiteral token s) (rest : List Char) :
    stringsIn (token ++ rest) = (stringsIn rest).map (s :: ·) := by
  obtain ⟨marks, encloses⟩ := literal
  have found := encloses.stringBody_append (isQuote_ne_backslash marks) rest
  rw [List.cons_append, List.append_assoc, List.singleton_append, stringsIn, if_pos marks]
  split
  · next same =>
      rw [found] at same
      cases same
      rw [String.ofList_toList]
  · next missing =>
      rw [found] at missing
      cases missing

end Cypher

open Cypher

namespace Groovy

variable {s t : String} {text rest rest' : List Char}

/-! Strings as programs show them. -/

@[simp] theorem toList_quote (s : String) : (quote s).toList = quoteChars s.toList :=
  String.toList_ofList

theorem encloses_escapeChar (c : Char) {body : List Char} (more : Encloses '\'' body text) :
    Encloses '\'' (escapeChar c ++ body) (c :: text) := by
  unfold escapeChar
  split
  · next same =>
      subst same
      exact .escape '\'' more
  split
  · next same =>
      subst same
      exact .escape '\\' more
  split
  · next same =>
      subst same
      exact .escape 'n' more
  · next inside bare _ => exact .plain inside bare more

theorem quoteChars_isLiteral (s : String) : IsLiteral (quoteChars s.toList) s := by
  refine .intro rfl ?_
  induction s.toList with
  | nil => exact .nil
  | cons c text ih => exact encloses_escapeChar c ih

theorem quote_isLiteral (s : String) : IsLiteral (quote s).toList s := by
  rw [toList_quote]
  exact quoteChars_isLiteral s

theorem quote_append_inj (same : (quote s).toList ++ rest = (quote t).toList ++ rest') :
    s = t ∧ rest = rest' := ((quote_isLiteral s).append_inj (quote_isLiteral t) same).2

end Groovy

/-! What a program shows. -/

/-- A string as it stands in the text of a program: between quotes, or as it is where it belongs to
an element. -/
inductive Mention where
  | quoted (s : String)
  | bare (s : String)

def Mention.quoted? : Mention → Option String
  | .quoted s => some s
  | .bare _ => none

namespace Value

mutual

/-- The strings of a value in their order. -/
def mentions : Value → List Mention
  | .null | .bool _ | .int _ | .float _ | .vertex _ => []
  | .string s => [.quoted s]
  | .list items => (mentionsOfAll items).flatten
  | .map entries => (mentionsOfEntries entries).flatten
  | .edge e => [.bare e.label]
  | .property _ key value => [.bare key, .bare value.text]

def mentionsOfAll : List Value → List (List Mention)
  | [] => []
  | item :: rest => item.mentions :: mentionsOfAll rest

def mentionsOfEntries : List (Value × Value) → List (List Mention)
  | [] => []
  | entry :: rest => mentionsOfEntry entry :: mentionsOfEntries rest

def mentionsOfEntry : Value × Value → List Mention
  | (key, value) => key.mentions ++ value.mentions

end

end Value

def Predicate.mentions : Predicate → List Mention
  | .eq v | .neq v | .lt v | .lte v | .gt v | .gte v => v.mentions
  | .within vs | .without vs => (Value.mentionsOfAll vs).flatten
  | .between low high => low.mentions ++ high.mentions
  | .startingWith s | .endingWith s | .containing s => [.quoted s]
  | .and a b | .or a b => a.mentions ++ b.mentions
  | .not a => a.mentions

mutual

def Argument.mentions : Argument → List Mention
  | .literal v => v.mentions
  | .predicate p => p.mentions
  | .program steps => Step.mentionsOfAll steps
  | .label s => [.quoted s]
  | .scope _ | .order _ | .pop _ | .column _ | .cardinality _ | .token _ | .function _ => []

def Argument.mentionsOfAll : List Argument → List (List Mention)
  | [] => []
  | argument :: rest => argument.mentions :: Argument.mentionsOfAll rest

def Step.mentions : Step → List Mention
  | .mk _ arguments => (Argument.mentionsOfAll arguments).flatten

def Step.mentionsOfAll : List Step → List Mention
  | [] => []
  | step :: rest => step.mentions ++ Step.mentionsOfAll rest

end

/-- The strings of a program, at any depth, in the order in which they are shown. -/
def Program.mentions (p : Program) : List Mention := Step.mentionsOfAll p

namespace Groovy

variable {text first second : List Char} {a b : String} {texts : List String}
  {mentions others front back : List Mention} {each : List (List Mention)}

/-- The text shows these strings, each quoted or as it is, and no quote stands outside of them. -/
inductive Shows : List Char → List Mention → Prop
  | nil : Shows [] []
  | mark {c : Char} {text : List Char} {mentions : List Mention} (plain : isQuote c = false)
      (more : Shows text mentions) : Shows (c :: text) mentions
  | quoted {text : List Char} {mentions : List Mention} (s : String)
      (more : Shows text mentions) : Shows ((quote s).toList ++ text) (.quoted s :: mentions)
  | bare {text : List Char} {mentions : List Mention} (s : String)
      (more : Shows text mentions) : Shows (s.toList ++ text) (.bare s :: mentions)

namespace Shows

theorem append (shows_ : Shows first mentions) (more : Shows second others) :
    Shows (first ++ second) (mentions ++ others) := by
  induction shows_ with
  | nil => exact more
  | mark plain _ ih => exact .mark plain ih
  | quoted s _ ih =>
      rw [List.append_assoc, List.cons_append]
      exact .quoted s ih
  | bare s _ ih =>
      rw [List.append_assoc, List.cons_append]
      exact .bare s ih

theorem of_unquoted (plain : Unquoted text) : Shows text [] := by
  induction text with
  | nil => exact .nil
  | cons c text ih =>
      obtain ⟨first, others⟩ := List.forall_mem_cons.mp plain
      exact .mark first (ih others)

theorem split (shows_ : Shows text (front ++ .quoted a :: back)) :
    ∃ before after, text = before ++ ((quote a).toList ++ after) ∧ Shows before front ∧
      Shows after back := by
  generalize same : front ++ .quoted a :: back = mentions at shows_
  -- The first string is the one that is meant only if none comes before that.
  induction shows_ generalizing front with
  | nil => cases List.append_eq_nil_iff.mp same |>.2
  | @mark c text mentions plain more ih =>
      obtain ⟨before, after, rfl, shown, behind⟩ := ih same
      exact ⟨c :: before, after, rfl, .mark plain shown, behind⟩
  | @quoted text mentions s more ih =>
      cases front with
      | nil =>
          cases same
          exact ⟨[], text, (List.nil_append _).symm, .nil, more⟩
      | cons mention front =>
          obtain ⟨rfl, later⟩ := List.cons.inj same
          obtain ⟨before, after, rfl, shown, behind⟩ := ih later
          exact ⟨(quote s).toList ++ before, after, (List.append_assoc ..).symm, .quoted s shown,
            behind⟩
  | @bare text mentions s more ih =>
      cases front with
      | nil => cases List.cons.inj same |>.1
      | cons mention front =>
          obtain ⟨rfl, later⟩ := List.cons.inj same
          obtain ⟨before, after, rfl, shown, behind⟩ := ih later
          exact ⟨s.toList ++ before, after, (List.append_assoc ..).symm, .bare s shown, behind⟩

theorem both (shows_ : Shows a.toList mentions) (more : Shows b.toList others) :
    Shows (a ++ b).toList (mentions ++ others) := by
  rw [String.toList_append]
  exact shows_.append more

theorem behind (plain : Unquoted a.toList) (shows_ : Shows b.toList mentions) :
    Shows (a ++ b).toList mentions := (of_unquoted plain).both shows_

theorem before (shows_ : Shows a.toList mentions) (plain : Unquoted b.toList) :
    Shows (a ++ b).toList mentions := by
  have whole := shows_.both (of_unquoted plain)
  rwa [List.append_nil] at whole

theorem string (s : String) : Shows (quote s).toList [.quoted s] := by
  have whole := Shows.quoted s .nil
  rwa [List.append_nil] at whole

theorem itself (s : String) : Shows s.toList [.bare s] := by
  have whole := Shows.bare s .nil
  rwa [List.append_nil] at whole

/-- Each text shows its own strings. -/
def Each (texts : List String) (each : List (List Mention)) : Prop :=
  List.Forall₂ (fun text mentions => Shows text.toList mentions) texts each

theorem joined (shows_ : Each texts each) : Shows (Text.joined ", " texts).toList each.flatten := by
  induction shows_ with
  | nil => exact .nil
  | @cons text mentions texts each first more ih =>
      cases more with
      | nil =>
          rw [List.flatten_cons, List.flatten_nil, List.append_nil]
          exact first
      | cons _ _ => exact (first.before (b := ", ") (by decide)).both ih

theorem listed (shows_ : Each texts each) : Shows (Text.listed texts).toList each.flatten :=
  .before (.behind (by decide) (joined shows_)) (by decide)

theorem call {name : String} (plain : Unquoted name.toList) (shows_ : Each texts each) :
    Shows (Predicate.call name texts).toList each.flatten := by
  have opening : Shows (name ++ "(").toList [] := .before (.of_unquoted plain) (by decide)
  exact .before (opening.both (joined shows_)) (by decide)

end Shows

theorem isQuote_of_isDigit {c : Char} (digit : isDigit c = true) : isQuote c = false :=
  Bool.or_eq_false_iff.mpr ⟨decide_eq_false (isDigit_ne digit (by decide)),
    decide_eq_false (isDigit_ne digit (by decide))⟩

theorem digitChars_unquoted (n : Nat) : Unquoted (digitChars n) :=
  fun c member => isQuote_of_isDigit (digitChars_isDigit n c member)

theorem natText_unquoted (n : Nat) : Unquoted (natText n).toList := by
  rw [natText, String.toList_ofList]
  exact digitChars_unquoted n

theorem intChars_unquoted (i : Int) : Unquoted (intChars i) := by
  unfold intChars
  split
  · exact .cons rfl (digitChars_unquoted _)
  · exact digitChars_unquoted _

theorem intText_unquoted (i : Int) : Unquoted (intText i).toList := by
  rw [intText, String.toList_ofList]
  exact intChars_unquoted i

theorem layDigits_unquoted (layout : Decimal.Layout) (d : Decimal.Digits) :
    Unquoted (Decimal.layDigits layout d) := by
  have digits := digitChars_unquoted d.digits
  have zeros (n : Nat) : Unquoted (List.replicate n '0') := fun c member => by
    rw [List.eq_of_mem_replicate member]
    rfl
  unfold Decimal.layDigits
  dsimp only
  split
  -- Without an exponent the point comes first, last or between.
  · split
    · exact .cons rfl (.cons rfl ((zeros _).append digits))
    split
    · exact (digits.append (zeros _)).append (by decide)
    · refine .append (fun c member => digits c (List.mem_of_mem_take member)) (.cons rfl ?_)
      exact fun c member => digits c (List.mem_of_mem_drop member)
  · have sign : Unquoted (if (0 ≤ d.exponent + ((digitChars d.digits).length : Nat) - 1 &&
        layout.exponentSign) = true then ['+'] else []) := by
      split <;> decide
    refine .append ?_ (.cons rfl (sign.append (intChars_unquoted _)))
    generalize digitChars d.digits = all at digits
    match all with
    | [] => exact digits
    | [_] => exact digits
    | first :: second :: more =>
        obtain ⟨one, others⟩ := List.forall_mem_cons.mp digits
        exact .cons one (.cons rfl others)

theorem ofFloat_unquoted (x : Binary64) : Unquoted (Text.ofFloat x).toList := by
  unfold Text.ofFloat Decimal.render
  split
  · decide
  · rw [String.toList_ofList]
    refine .append (by split <;> decide) ?_
    split
    · decide
    split
    · decide
    · exact layDigits_unquoted _ _

theorem vertex_shows (v : VertexRef) : Shows (Value.vertex v).text.toList [] := by
  change Shows ("v[" ++ natText v.id.toNat ++ "]").toList []
  exact .before (.before (.of_unquoted (by decide)) (natText_unquoted _)) (by decide)

theorem edge_shows (e : EdgeRef) : Shows (Value.edge e).text.toList [.bare e.label] := by
  change Shows ("e[" ++ natText e.id.toNat ++ "][" ++ natText e.source.toNat ++ "-" ++ e.label ++
    "->" ++ natText e.target.toNat ++ "]").toList [.bare e.label]
  have first : Shows ("e[" ++ natText e.id.toNat ++ "][").toList [] :=
    .before (.before (.of_unquoted (by decide)) (natText_unquoted _)) (by decide)
  have second : Shows ("e[" ++ natText e.id.toNat ++ "][" ++ natText e.source.toNat ++ "-").toList
      [] := .before (.before first (natText_unquoted _)) (by decide)
  have label := second.both (.itself e.label)
  exact .before (.before (.before label (by decide)) (natText_unquoted _)) (by decide)

theorem property_shows (owner : Owner) (key : String) (value : Value) :
    Shows (Value.property owner key value).text.toList [.bare key, .bare value.text] := by
  change Shows ("p[" ++ key ++ "->" ++ value.text ++ "]").toList [.bare key, .bare value.text]
  have keyed : Shows ("p[" ++ key ++ "->").toList [.bare key] :=
    .before (.behind (by decide) (.itself key)) (by decide)
  exact .before (keyed.both (.itself value.text)) (by decide)

theorem pair_shows {key value : Value} (first : Shows (literal key).toList key.mentions)
    (second : Shows (literal value).toList value.mentions) :
    Shows (entryLiteral (key, value)).toList (key.mentions ++ value.mentions) := by
  cases key with
  | string s =>
      have keyed : Shows ("(" ++ quote s ++ "): ").toList [.quoted s] :=
        .before (.behind (by decide) first) (by decide)
      exact keyed.both second
  | _ => exact (first.before (b := ": ") (by decide)).both second

mutual

theorem literal_shows : (v : Value) → Shows (literal v).toList v.mentions
  | .null => .of_unquoted (by decide)
  | .bool b => .of_unquoted (by cases b <;> decide)
  | .int i => .of_unquoted (intText_unquoted i.toInt)
  | .float x => .of_unquoted (ofFloat_unquoted x)
  | .string s => .string s
  | .list items => .listed (literals_show items)
  | .map [] => .of_unquoted (by decide)
  | .map (entry :: rest) => .listed (entryLiterals_show (entry :: rest))
  | .vertex v => vertex_shows v
  | .edge e => edge_shows e
  | .property owner key value => property_shows owner key value

theorem literals_show : (items : List Value) →
    Shows.Each (literals items) (Value.mentionsOfAll items)
  | [] => .nil
  | item :: rest => .cons (literal_shows item) (literals_show rest)

theorem entryLiterals_show : (entries : List (Value × Value)) →
    Shows.Each (entryLiterals entries) (Value.mentionsOfEntries entries)
  | [] => .nil
  | entry :: rest => .cons (entryLiteral_shows entry) (entryLiterals_show rest)

theorem entryLiteral_shows : (entry : Value × Value) →
    Shows (entryLiteral entry).toList (Value.mentionsOfEntry entry)
  | (key, value) => pair_shows (literal_shows key) (literal_shows value)

end

theorem predicateName_unquoted (p : Predicate) : Unquoted p.name.toList := by
  cases p <;> simp only [Predicate.name] <;> decide

theorem Shows.call_one (p : Predicate) (shows_ : Shows a.toList mentions) :
    Shows (Predicate.call p.name [a]).toList mentions := by
  have whole := Shows.call (predicateName_unquoted p) (.cons shows_ .nil)
  rwa [List.flatten_singleton] at whole

theorem predicate_shows (p : Predicate) : Shows (predicate p).toList p.mentions := by
  induction p with
  | eq v | neq v | lt v | lte v | gt v | gte v =>
      exact (Shows.call_one _ (literal_shows v)).behind (a := "P.") (by decide)
  | within vs | without vs =>
      exact (Shows.call (predicateName_unquoted _) (literals_show vs)).behind (a := "P.") (by decide)
  | between low high =>
      have whole := Shows.call (predicateName_unquoted (.between low high))
        (.cons (literal_shows low) (.cons (literal_shows high) .nil))
      rw [List.flatten_cons, List.flatten_singleton] at whole
      exact whole.behind (a := "P.") (by decide)
  | startingWith s | endingWith s | containing s =>
      exact (Shows.call_one _ (.string s)).behind (a := "TextP.") (by decide)
  | and a b first second | or a b first second =>
      exact (first.before (b := ".") (by decide)).both (Shows.call_one _ second)
  | not a shows_ => exact (Shows.call_one _ shows_).behind (a := "P.") (by decide)

theorem kindName_unquoted (kind : StepKind) : Unquoted kind.name.toList := by
  cases kind <;> decide

mutual

theorem argument_shows : (a : Argument) → Shows (argument a).toList a.mentions
  | .literal v => literal_shows v
  | .predicate p => predicate_shows p
  | .program [] => .of_unquoted (by decide)
  | .program (step :: rest) => (chain_shows (step :: rest)).behind (a := "__") (by decide)
  | .label s => .string s
  | .scope s => .of_unquoted (by cases s <;> decide)
  | .order o => .of_unquoted (by cases o <;> decide)
  | .pop p => .of_unquoted (by cases p <;> decide)
  | .column c => .of_unquoted (by cases c <;> decide)
  | .cardinality c => .of_unquoted (by cases c <;> decide)
  | .token t => .of_unquoted (by cases t <;> decide)
  | .function f => .of_unquoted (by cases f <;> decide)

theorem arguments_show : (given : List Argument) →
    Shows.Each (arguments given) (Argument.mentionsOfAll given)
  | [] => .nil
  | first :: rest => .cons (argument_shows first) (arguments_show rest)

theorem call_shows : (step : Step) → Shows (call step).toList step.mentions
  | .mk kind given => by
      have opening : Shows ("." ++ kind.name ++ "(").toList [] :=
        .before (.before (.of_unquoted (by decide)) (kindName_unquoted kind)) (by decide)
      exact .before (opening.both (.joined (arguments_show given))) (by decide)

theorem chain_shows : (steps : List Step) → Shows (chain steps).toList (Step.mentionsOfAll steps)
  | [] => .nil
  | step :: rest => (call_shows step).both (chain_shows rest)

end

/-- The text of a program shows its strings in their order, and quotes stand around those alone. -/
theorem ofProgram_shows (p : Program) : Shows (ofProgram p).toList p.mentions :=
  (chain_shows p).behind (a := "g") (by decide)

theorem Shows.stringsIn_eq (shows_ : Shows text mentions)
    (plain : ∀ s, .bare s ∈ mentions → Unquoted s.toList) :
    stringsIn text = some (mentions.filterMap Mention.quoted?) := by
  induction shows_ with
  | nil => exact stringsIn_nil
  | mark mark_ _ ih => rw [stringsIn_plain mark_, ih plain]
  | quoted s _ ih =>
      have others := ih fun t member => plain t (List.mem_cons_of_mem _ member)
      rw [stringsIn_literal (quote_isLiteral s), others]
      rfl
  | bare s _ ih =>
      have others := ih fun t member => plain t (List.mem_cons_of_mem _ member)
      rw [stringsIn_unquoted (plain s List.mem_cons_self), others]
      rfl

/-- Whatever a text shows, its strings stay between their quotes. -/
structure Delimits (text : List Char) (mentions : List Mention) : Prop where
  shown : Shows text mentions
  /-- Each literal is read as its own string, up to what is shown behind it. -/
  literal : ∀ front s back, mentions = front ++ .quoted s :: back → ∃ before after,
    text = before ++ ((quote s).toList ++ after) ∧ Shows before front ∧ Shows after back ∧
      Takes string? ((quote s).toList ++ after) (some s) after
  /-- The same strings are found from left to right, if no element brings a quote of its own. -/
  strings : (∀ s, .bare s ∈ mentions → Unquoted s.toList) →
    stringsIn text = some (mentions.filterMap Mention.quoted?)

theorem Shows.delimits (shows_ : Shows text mentions) : Delimits text mentions where
  shown := shows_
  literal := by
    rintro front s back rfl
    obtain ⟨before, after, same, shown, behind⟩ := shows_.split
    exact ⟨before, after, same, shown, behind, (quote_isLiteral s).takes after⟩
  strings := shows_.stringsIn_eq

end Groovy

theorem Client.explanation_delimits {client : Client} {q : Query} {text : String}
    (format : client.explain = .groovy) (explained : client.explanation q = .ok text) :
    ∃ l, q.buildOn Live.onGraph = .ok l ∧ Groovy.Delimits text.toList l.program.mentions := by
  rw [Client.explanation_eq, format] at explained
  obtain ⟨l, built, rfl⟩ := map_eq_ok.mp explained
  exact ⟨l, built, (Groovy.ofProgram_shows l.program).delimits⟩

/-- Strings by themselves are written as literals, and other expressions in any way. -/
def Cypher.Quotes (print : Expression → List Token) : Prop :=
  ∀ s, ∃ token, IsLiteral token s ∧ print (.literal (.string s)) = [token]

theorem Cypher.Quotes.printsBack {print : Expression → List Token} (quotes : Quotes print)
    (s : String) : PrintsBack print (.literal (.string s)) := by
  obtain ⟨token, literal, same⟩ := quotes s
  have loosest (depth : Nat) : ReadsAt (expressionWithin depth) 0 (print (.literal (.string s)))
      (.literal (.string s)) := by
    rw [same]
    exact (ReadsAt.string literal).mono (Nat.zero_le _) (Nat.le_refl _)
  refine ⟨(loosest 0).heads, ?_, ?_⟩
  · rw [same]
    obtain @⟨quote, body, _, marks, _⟩ := literal
    refine ⟨[], quote :: body, quote, rfl, ?_⟩
    rcases isQuote_cases marks with rfl | rfl <;> rfl
  · exact .of_get fun text rest skipped ends =>
      (loosest text.length).parses text rest skipped ends

/-- Strings by themselves as programs show them. -/
def Groovy.tokens : Expression → List Token
  | .literal (.string s) => [quoteChars s.toList]
  | e => e.tokens id

theorem Groovy.tokens_quotes : Quotes Groovy.tokens :=
  fun s => ⟨_, Groovy.quoteChars_isLiteral s, rfl⟩

/-- A literal is read as the string that it was written for, whatever that is made of and whatever
follows, so no two strings have the same literal and no literal begins another one. In the text of a
program quotes stand around its strings alone and in elements. In a query a string goes on up to the
first quote of its kind without a backslash in front of it, and what is read of a query is what was
written, whatever strings stand in it. -/
theorem quoted_strings_cannot_be_broken_out_of :
    (∀ s, IsLiteral (Groovy.quote s).toList s ∧
      ∀ rest, Takes string? ((Groovy.quote s).toList ++ rest) (some s) rest) ∧
    (∀ s t, s ≠ t → Groovy.quote s ≠ Groovy.quote t ∧
      ¬(Groovy.quote s).toList <+: (Groovy.quote t).toList) ∧
    (∀ p, Groovy.Delimits (Groovy.ofProgram p).toList p.mentions) ∧
    (∀ (client : Client) q text, client.explain = .groovy → client.explanation q = .ok text →
      ∃ l, q.buildOn Live.onGraph = .ok l ∧
        Groovy.Delimits text.toList l.program.mentions) ∧
    (∀ input s rest, Takes string? input (some s) rest ↔
      ∃ token, IsLiteral token s ∧ dropBlanks input = token ++ rest) ∧
    (∀ token s, IsLiteral token s →
      (∀ token' t rest rest', IsLiteral token' t → token ++ rest = token' ++ rest' →
        token = token' ∧ s = t ∧ rest = rest') ∧
      ∀ nested input rest, dropBlanks input = token ++ rest →
        Takes (primary nested) input (.literal (.string s)) rest ∧ Takes mapKey input s rest) ∧
    (∀ print, Quotes print → ∀ s, PrintsBack print (.literal (.string s))) ∧
    ∀ print terse (q : Query) parameters, q.Writable print →
      Statement.parse (q.written terse print) parameters = .ok ⟨false, q⟩ := by
  refine ⟨fun s => ⟨Groovy.quote_isLiteral s, (Groovy.quote_isLiteral s).takes⟩,
    fun s t differ => ⟨?_, ?_⟩,
    fun p => (Groovy.ofProgram_shows p).delimits,
    fun client q text => Client.explanation_delimits, fun input s rest => string?_takes_iff,
    fun token s literal => ⟨fun _ _ _ _ => literal.append_inj, fun nested input rest shown =>
      ⟨literal.primary_takes nested shown, literal.mapKey_takes shown⟩⟩,
    fun print => Quotes.printsBack, fun print terse q parameters writable => ?_⟩
  · intro same
    have whole : (Groovy.quote s).toList ++ [] = (Groovy.quote t).toList ++ [] := by rw [same]
    exact differ (Groovy.quote_append_inj whole).1
  · rintro ⟨more, begins⟩
    rw [← List.append_nil (Groovy.quote t).toList] at begins
    exact differ (Groovy.quote_append_inj begins).1
  · exact parse_of_takes (written_takes writable) parameters

/-- What could end a string and go on behind it: a backslash, quotes and a line end. -/
def intruder : String := "\\'\n' DETACH DELETE n //"

def intrudedProgram : Program :=
  [.mk .v [], .mk .has [.label "it's", .predicate (.within
    [.string intruder, .edge ⟨⟨5⟩, "knows", ⟨1⟩, ⟨2⟩⟩])]]

def intrudedQuery : Query :=
  ⟨[⟨[⟨⟨some "n", ["Person"], [("it's", .literal (.string intruder))]⟩, []⟩], none⟩], [], [],
    some ⟨false, ["n"]⟩, none⟩

def intrudedText : String :=
  "MATCH ( n : Person ".push '{' ++ " 'it\\'s' : '\\\\\\'\\n\\' DETACH DELETE n //' ".push '}' ++
    " ) DELETE n"

theorem intrudedQuery_writable : intrudedQuery.Writable Groovy.tokens := by
  have back : PrintsBack Groovy.tokens (.literal (.string intruder)) :=
    Groovy.tokens_quotes.printsBack intruder
  refine ⟨rfl, List.forall_mem_singleton.mpr ⟨List.cons_ne_nil _ _,
    List.forall_mem_singleton.mpr ⟨⟨by decide, by decide, List.forall_mem_singleton.mpr back⟩,
      nofun⟩, nofun⟩, nofun, nofun, ?_, nofun⟩
  intro d member
  cases member
  exact ⟨List.cons_ne_nil _ _, by decide⟩

theorem intruders_stay_between_quotes :
    Takes string? ((Groovy.quote intruder).toList ++ "')".toList) (some intruder) "')".toList ∧
    (intruder ≠ "\\" ∧ ¬(Groovy.quote intruder).toList <+: (Groovy.quote "\\").toList) ∧
    stringsIn (Groovy.ofProgram intrudedProgram).toList = some ["it's", intruder] ∧
    (∃ text l, (⟨⟨.empty, .zero⟩, .standard 10, .groovy⟩ : Client).explanation intrudedQuery =
      .ok text ∧ intrudedQuery.buildOn Live.onGraph = .ok l ∧
        Groovy.Delimits text.toList l.program.mentions) ∧
    (IsLiteral "\"it's\"".toList "it's" ∧ Takes mapKey " \"it's\": 1".toList "it's" ": 1".toList) ∧
    (Quotes Groovy.tokens ∧ PrintsBack Groovy.tokens (.literal (.string intruder))) ∧
    intrudedQuery.Writable Groovy.tokens ∧
      Statement.parse intrudedText [] = .ok ⟨false, intrudedQuery⟩ := by
  obtain ⟨reads, differ, shows_, explains, _, literals, prints, parses⟩ :=
    quoted_strings_cannot_be_broken_out_of
  have plain (s : String) (member : .bare s ∈ intrudedProgram.mentions) : Unquoted s.toList := by
    have same : s = "knows" := by
      simpa [intrudedProgram, Program.mentions, Step.mentionsOfAll, Step.mentions,
        Argument.mentionsOfAll, Argument.mentions, Predicate.mentions, Value.mentionsOfAll,
        Value.mentions] using member
    rw [same]
    decide
  have accepted : ((⟨⟨.empty, .zero⟩, .standard 10, .groovy⟩ : Client).explanation
      intrudedQuery).isOk = true := by decide +kernel
  have double : IsLiteral "\"it's\"".toList "it's" := by
    refine @IsLiteral.intro '"' "it's".toList "it's" rfl ?_
    exact .plain (by decide) (by decide) (.plain (by decide) (by decide)
      (.plain (by decide) (by decide) (.plain (by decide) (by decide) .nil)))
  have written : intrudedQuery.written false Groovy.tokens = intrudedText := by decide +kernel
  have different : intruder ≠ "\\" := by decide
  refine ⟨(reads _).2 _, ⟨different, (differ _ _ different).2⟩, (shows_ _).strings plain, ?_,
    ⟨double, ((literals _ _ double).2 expression _ _ rfl).2⟩,
    ⟨Groovy.tokens_quotes, prints _ Groovy.tokens_quotes _⟩, intrudedQuery_writable, ?_⟩
  · cases explained : (⟨⟨.empty, .zero⟩, .standard 10, .groovy⟩ : Client).explanation
      intrudedQuery with
    | error fault => simp [explained, Except.isOk, Except.toBool] at accepted
    | ok text =>
        obtain ⟨l, built, delimits⟩ := explains _ _ _ rfl explained
        exact ⟨text, l, rfl, built, delimits⟩
  · rw [← written]
    exact parses _ _ _ _ intrudedQuery_writable

end PropertyGraph
