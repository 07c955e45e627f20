import PropertyGraph.Proofs.Cypher.Paired
import PropertyGraph.Proofs.Cypher.Steadiness

/-!
Two readings of one text, with different parameters and behind different numbers of bytes. Whatever
relates the values of the parameters and is kept by every way to make an expression of its parts
relates the expressions that are read, and with them the queries; both readings fail, or both go on
from the same place.
-/

namespace PropertyGraph.Cypher

variable {α β γ δ : Type} {before after : Properties} {R : α → β → Prop} {S : γ → δ → Prop}

/-- Related things were read, and the same is left, no more than so many characters. -/
def Together (R : α → β → Prop) (limit : Nat) (a : α × List Char) (b : β × List Char) : Prop :=
  R a.1 b.1 ∧ a.2 = b.2 ∧ a.2.length ≤ limit

/-- With parameters before and after a change, both parsers read related things from every text, or
nothing. -/
def Twin (before after : Properties) (R : α → β → Prop) (p : Parser α) (q : Parser β) : Prop :=
  ∀ bytes bytes' text, Option.Rel (Together R text.length)
    ((p.run ⟨bytes, before⟩).run text).toOption ((q.run ⟨bytes', after⟩).run text).toOption

namespace Twin

variable {p : Parser α} {q : Parser β}

theorem imp {R' : α → β → Prop} (twin : Twin before after R p q)
    (implies : ∀ a b, R a b → R' a b) : Twin before after R' p q := by
  intro bytes bytes' text
  have both := twin bytes bytes' text
  generalize ((p.run ⟨bytes, before⟩).run text).toOption = found,
    ((q.run ⟨bytes', after⟩).run text).toOption = found' at both
  cases both with
  | none => exact .none
  | some together => exact .some ⟨implies _ _ together.1, together.2⟩

theorem of_steady {p : Parser α} (steady : Steady p) : Twin before after Eq p p := by
  intro bytes bytes' text
  obtain ⟨outcome, same, short⟩ := steady text
  rw [same, same]
  cases outcome with
  | none => exact .none
  | some found => exact .some ⟨rfl, rfl, short found rfl⟩

theorem pure {a : α} {b : β} (related : R a b) : Twin before after R (Pure.pure a) (Pure.pure b) :=
  fun _ _ _ => .some ⟨related, rfl, Nat.le_refl _⟩

theorem of_fails (fails : Fails p) (fails' : Fails q) : Twin before after R p q := by
  intro bytes bytes' text
  rw [fails, fails']
  exact .none

theorem throw (fault fault' : ParseFault) :
    Twin before after R (MonadExcept.throw fault) (MonadExcept.throw fault') :=
  of_fails (.throw fault) (.throw fault')

theorem bind {next : α → Parser γ} {next' : β → Parser δ} (first : Twin before after R p q)
    (others : ∀ a b, R a b → Twin before after S (next a) (next' b)) :
    Twin before after S (p >>= next) (q >>= next') := by
  intro bytes bytes' text
  rw [Parser.bind_run, Parser.bind_run, toOption_bind, toOption_bind]
  generalize ((p.run ⟨bytes, before⟩).run text).toOption = found,
    ((q.run ⟨bytes', after⟩).run text).toOption = found', first bytes bytes' text = both
  cases both with
  | none => exact .none
  | @some a b together =>
      obtain ⟨related, same, short⟩ := together
      have later := others a.1 b.1 related bytes bytes' a.2
      rw [Option.bind_some, Option.bind_some, ← same]
      generalize (((next a.1).run ⟨bytes, before⟩).run a.2).toOption = last,
        (((next' b.1).run ⟨bytes', after⟩).run a.2).toOption = last' at later
      cases later with
      | none => exact .none
      | some together =>
          exact .some ⟨together.1, together.2.1, Nat.le_trans together.2.2 short⟩

theorem then_ {p q : Parser α} {next : α → Parser γ} {next' : α → Parser δ}
    (first : Twin before after Eq p q) (others : ∀ a, Twin before after S (next a) (next' a)) :
    Twin before after S (p >>= next) (q >>= next') :=
  first.bind fun a _ same => same ▸ others a

theorem after_ {p : Parser α} {next : α → Parser γ} {next' : α → Parser δ} (first : Steady p)
    (others : ∀ a, Twin before after S (next a) (next' a)) :
    Twin before after S (p >>= next) (p >>= next') :=
  (of_steady first).then_ others

theorem map {f : α → γ} {g : β → δ} (twin : Twin before after R p q)
    (keeps : ∀ a b, R a b → S (f a) (g b)) : Twin before after S (f <$> p) (g <$> q) := by
  rw [map_eq_pure_bind, map_eq_pure_bind]
  exact twin.bind fun a b related => pure (keeps a b related)

theorem of_get {next : List Char → Parser γ} {next' : List Char → Parser δ}
    (twin : ∀ text, Twin before after S (next text) (next' text)) :
    Twin before after S (get >>= next) (get >>= next') :=
  fun bytes bytes' text => twin text bytes bytes' text

/-- What is read next may depend on the parameters. -/
theorem of_read {next : Source → Parser γ} {next' : Source → Parser δ}
    (twin : ∀ bytes bytes', Twin before after S (next ⟨bytes, before⟩) (next' ⟨bytes', after⟩)) :
    Twin before after S (read >>= next) (read >>= next') :=
  fun bytes bytes' => twin bytes bytes' bytes bytes'

theorem separated {item : Parser α} {item' : Parser β} (twin : Twin before after R item item') :
    Twin before after (List.Forall₂ R) (separated item) (separated item') := by
  have from_ (fuel : Nat) :
      Twin before after (List.Forall₂ R) (separatedFrom item fuel) (separatedFrom item' fuel) := by
    induction fuel with
    | zero => exact twin.bind fun a b related => pure (.cons related .nil)
    | succ fuel ih =>
        refine twin.bind fun a b related => (after_ (tryChar_steady ',') fun more => ?_)
        split
        · exact ih.bind fun _ _ others => pure (.cons related others)
        · exact pure (.cons related .nil)
  exact of_get fun text => from_ text.length

theorem repeated {item? : Parser (Option α)} {item?' : Parser (Option β)}
    (twin : Twin before after (Option.Rel R) item? item?') :
    Twin before after (List.Forall₂ R) (repeated item?) (repeated item?') := by
  have from_ (fuel : Nat) :
      Twin before after (List.Forall₂ R) (repeatedFrom item? fuel) (repeatedFrom item?' fuel) := by
    induction fuel with
    | zero => exact pure .nil
    | succ fuel ih =>
        refine twin.bind fun found found' both => ?_
        cases both with
        | none => exact pure .nil
        | some related => exact ih.bind fun _ _ others => pure (.cons related others)
  exact of_get fun text => from_ (text.length + 1)

theorem withText {item : Parser α} {item' : Parser β} (twin : Twin before after R item item') :
    Twin before after (fun a b => R a.1 b.1 ∧ a.2 = b.2) (withText item) (withText item') :=
  after_ skipBlanks_steady fun _ => of_get fun _ => twin.bind fun _ _ related => of_get fun _ =>
    pure ⟨related, rfl⟩

theorem keyword {item : Parser α} {item' : Parser β} (word : String)
    (twin : Twin before after R item item') :
    Twin before after (Option.Rel R) (keyword? word item) (keyword? word item') := by
  refine after_ (tryKeyword_steady word) fun found => ?_
  split
  · exact twin.bind fun a b related => pure (.some related)
  · exact pure .none

theorem separated_same {item : Parser α} (steady : Steady item) :
    Twin before after Eq (Cypher.separated item) (Cypher.separated item) :=
  (of_steady steady).separated.imp fun _ _ => eq_of_forall₂ fun _ _ same => same

theorem repeated_same {item? : Parser (Option α)} (steady : Steady item?) :
    Twin before after Eq (Cypher.repeated item?) (Cypher.repeated item?) := by
  have item : Twin before after (Option.Rel Eq) item? item? :=
    (of_steady steady).imp fun a b same => by cases same; cases a <;> constructor; rfl
  exact item.repeated.imp fun _ _ => eq_of_forall₂ fun _ _ same => same

theorem keyword_same {item : Parser α} (word : String) (twin : Twin before after Eq item item) :
    Twin before after Eq (keyword? word item) (keyword? word item) :=
  (twin.keyword word).imp fun _ _ => eq_of_rel fun _ _ same => same

theorem ok_length (twin : Twin before after R p q) {bytes : Nat} {text rest : List Char} {a : α}
    (read : (p.run ⟨bytes, before⟩).run text = .ok (a, rest)) : rest.length ≤ text.length := by
  have both := twin bytes 0 text
  rw [read] at both
  generalize ((q.run ⟨0, after⟩).run text).toOption = found at both
  cases both with
  | some together => exact together.2.2

end Twin

/-- A relation between expressions that holds of those that stand for the same parameter, and that
is kept by every way to make an expression of its parts. -/
structure Mirrors (before after : Properties) (R : Expression → Expression → Prop) : Prop where
  parameter (name : String) : Option.Rel (fun v w => R (.literal v) (.literal w))
    (Dictionary.get? name before) (Dictionary.get? name after)
  string (s : String) : R (.literal (.string s)) (.literal (.string s))
  number (v : Value) (numeric : v.isNumber = true) : R (.literal v) (.literal v)
  bool (b : Bool) : R (.literal (.bool b)) (.literal (.bool b))
  null : R (.literal .null) (.literal .null)
  reference (name : String) (free : isReserved name = false) : R (.reference name) (.reference name)
  property (owner key : String) (free : isReserved owner = false) :
    R (.property owner key) (.property owner key)
  list {items items' : List Expression} (related : List.Forall₂ R items items') :
    R (listOf items) (listOf items')
  map {entries entries' : List (String × Expression)} (related : EntriesPaired R entries entries') :
    R (mapOf entries) (mapOf entries')
  negated {e e' : Expression} (related : R e e') : R (negated e) (negated e')
  not {e e' : Expression} (related : R e e') : R (.not e) (.not e')
  isNull {e e' : Expression} (related : R e e') : R (.isNull e) (.isNull e')
  isNotNull {e e' : Expression} (related : R e e') : R (.isNotNull e) (.isNotNull e')
  binary {left left' right right' : Expression} (op : BinaryOperator) (relatedLeft : R left left')
    (relatedRight : R right right') : R (.binary left op right) (.binary left' op right')
  call (name : String) (distinct : Bool) {arguments arguments' : List Expression}
    (related : List.Forall₂ R arguments arguments') :
    R (.call name distinct arguments) (.call name distinct arguments')
  countAll : R .countAll .countAll

theorem Mirrors.eq (parameters : Properties) : Mirrors parameters parameters Eq where
  parameter name := by cases Dictionary.get? name parameters <;> constructor; rfl
  string _ := rfl
  number _ _ := rfl
  bool _ := rfl
  null := rfl
  reference _ _ := rfl
  property _ _ _ := rfl
  list related := congrArg listOf (eq_of_forall₂ (fun _ _ same => same) related)
  map related := congrArg mapOf (EntriesPaired.eq related)
  negated related := congrArg _ related
  not related := congrArg _ related
  isNull related := congrArg _ related
  isNotNull related := congrArg _ related
  binary _ left right := by rw [left, right]
  call _ _ _ _ related := congrArg _ (eq_of_forall₂ (fun _ _ same => same) related)
  countAll := rfl

section Expressions

variable {R : Expression → Expression → Prop} {nested operand : Parser Expression}

theorem firstOf_steady {operators : List (Parser Bool × BinaryOperator)}
    (steady : ∀ o ∈ operators, Steady o.1) : Steady (firstOf operators) := by
  induction operators with
  | nil => exact .pure none
  | cons first others ih =>
      refine (steady first List.mem_cons_self).bind fun found => ?_
      split
      · exact .pure _
      · exact ih fun o other => steady o (List.mem_cons_of_mem _ other)

theorem mapKey_steady : Steady mapKey := by
  refine string?_steady.bind fun found => ?_
  split
  · exact .pure _
  · exact name_steady

theorem tryKeywordWith_steady (word : String) : Steady (tryKeywordWith word) := by
  refine (tryKeyword_steady word).bind fun found => ?_
  split
  · exact (expectKeyword_steady _).bind fun _ => .pure _
  · exact .pure _

theorem mapEntries_twin (inside : Twin before after R nested nested) :
    Twin before after (EntriesPaired R) (mapEntries nested) (mapEntries nested) := by
  have entry : Twin before after (fun a b : String × Expression => a.1 = b.1 ∧ R a.2 b.2)
      (mapEntry nested) (mapEntry nested) :=
    .after_ mapKey_steady fun _ => .after_ (expectChar_steady ':') fun _ =>
      inside.bind fun _ _ related => .pure ⟨rfl, related⟩
  refine .after_ (tryChar_steady _) fun closed => ?_
  split
  · exact .pure .nil
  · exact entry.separated.bind fun _ _ related => .after_ (expectChar_steady _) fun _ =>
      .pure related

theorem itemsUntil_twin (close : Char) (inside : Twin before after R nested nested) :
    Twin before after (List.Forall₂ R) (itemsUntil close nested) (itemsUntil close nested) := by
  refine .after_ (tryChar_steady close) fun closed => ?_
  split
  · exact .pure .nil
  · exact inside.separated.bind fun _ _ related => .after_ (expectChar_steady close) fun _ =>
      .pure related

variable (mirrors : Mirrors before after R)

include mirrors

theorem chain_twin {operators : List (Parser Bool × BinaryOperator)}
    (between : ∀ o ∈ operators, Steady o.1) (operands : Twin before after R operand operand) :
    Twin before after R (chain operators operand) (chain operators operand) := by
  have from_ (fuel : Nat) (left left' : Expression) (related : R left left') :
      Twin before after R (chainFrom (firstOf operators) operand left fuel)
        (chainFrom (firstOf operators) operand left' fuel) := by
    induction fuel generalizing left left' with
    | zero => exact .pure related
    | succ fuel ih =>
        refine .after_ (firstOf_steady between) fun found => ?_
        cases found with
        | none => exact .pure related
        | some op =>
            exact operands.bind fun right right' relatedRight =>
              ih _ _ (mirrors.binary op related relatedRight)
  exact operands.bind fun left left' related => .of_get fun rest => from_ _ left left' related

/-- Behind its name a parameter is read, if it is there before and after. -/
theorem parameter_twin : Twin before after R parameter parameter := by
  refine .after_ name_steady fun key => .of_read fun _ _ => ?_
  dsimp only
  have both := mirrors.parameter key
  generalize Dictionary.get? key before = found, Dictionary.get? key after = found' at both
  cases both with
  | none => exact .throw _ _
  | some related => exact .pure related

theorem number_twin :
    Twin before after (fun v w => R (.literal v) (.literal w)) number number := by
  refine .after_ digits_steady fun whole => .after_ fraction_steady fun part =>
    .after_ exponent_steady fun power => ?_
  dsimp only
  split
  · split
    · exact .pure (mirrors.number _ rfl)
    · exact .throw _ _
  · split
    · exact .pure (mirrors.number _ rfl)
    · exact .throw _ _

variable (inside : Twin before after R nested nested)

include inside

theorem call_twin (name : String) : Twin before after R (call nested name) (call nested name) := by
  have arguments (name : String) : Twin before after R (do
      let distinct ← tryKeyword "DISTINCT"
      return Expression.call name distinct (← itemsUntil ')' nested)) (do
      let distinct ← tryKeyword "DISTINCT"
      return Expression.call name distinct (← itemsUntil ')' nested)) :=
    .after_ (tryKeyword_steady _) fun _ => (itemsUntil_twin ')' inside).bind fun _ _ related =>
      .pure (mirrors.call _ _ related)
  unfold call
  dsimp only
  split
  · refine .after_ (tryChar_steady '*') fun star => ?_
    split
    · exact .after_ (expectChar_steady ')') fun _ => .pure mirrors.countAll
    · exact arguments _
  · exact arguments _

theorem named_twin : Twin before after R (named nested) (named nested) := by
  refine .after_ atName_steady fun here => ?_
  split
  · refine .after_ name_steady fun word => ?_
    split
    · exact .throw _ _
    · next free =>
        refine .after_ (tryChar_steady _) fun opened => ?_
        split
        · exact call_twin mirrors inside word
        · refine .after_ (tryChar_steady _) fun point => ?_
          split
          · exact .after_ name_steady fun key =>
              .pure (mirrors.property word key (eq_false_of_ne_true free))
          · exact .pure (mirrors.reference word (eq_false_of_ne_true free))
  · exact .of_fails (.then_ fun _ => .then_ fun _ => .throw _)
      (.then_ fun _ => .then_ fun _ => .throw _)

theorem primary_twin : Twin before after R (primary nested) (primary nested) := by
  refine .after_ (tryChar_steady _) fun parenthesis => ?_
  split
  · exact inside.bind fun _ _ related => .after_ (expectChar_steady _) fun _ => .pure related
  refine .after_ (tryChar_steady _) fun bracket => ?_
  split
  · exact (itemsUntil_twin _ inside).bind fun _ _ related => .pure (mirrors.list related)
  refine .after_ (tryChar_steady _) fun brace => ?_
  split
  · exact (mapEntries_twin inside).bind fun _ _ related => .pure (mirrors.map related)
  refine .after_ (tryChar_steady _) fun dollar => ?_
  split
  · exact parameter_twin mirrors
  refine .after_ string?_steady fun found => ?_
  split
  · exact .pure (mirrors.string _)
  refine .after_ atDigit_steady fun digit => ?_
  split
  · exact (number_twin mirrors).bind fun _ _ related => .pure related
  refine .after_ (tryKeyword_steady _) fun true_ => ?_
  split
  · exact .pure (mirrors.bool true)
  refine .after_ (tryKeyword_steady _) fun false_ => ?_
  split
  · exact .pure (mirrors.bool false)
  refine .after_ (tryKeyword_steady _) fun null => ?_
  split
  · exact .pure mirrors.null
  · exact named_twin mirrors inside

theorem unary_twin : Twin before after R (unary nested) (unary nested) := by
  have signed_ (fuel : Nat) :
      Twin before after R (signed (primary nested) fuel) (signed (primary nested) fuel) := by
    induction fuel with
    | zero => exact primary_twin mirrors inside
    | succ fuel ih =>
        refine .after_ (tryChar_steady _) fun minus => ?_
        split
        · exact ih.bind fun _ _ related => .pure (mirrors.negated related)
        refine .after_ (tryChar_steady _) fun plus => ?_
        split
        · exact ih
        · exact primary_twin mirrors inside
  exact .of_get fun _ => signed_ _

theorem sum_twin : Twin before after R (sum nested) (sum nested) :=
  chain_twin mirrors (by simp [tryChar_steady])
    (chain_twin mirrors (by simp [tryChar_steady]) (unary_twin mirrors inside))

theorem comparison_twin : Twin before after R (comparison nested) (comparison nested) := by
  refine (sum_twin mirrors inside).bind fun left left' related =>
    .after_ (tryKeyword_steady _) fun is => ?_
  split
  · refine .after_ (tryKeyword_steady _) fun negative => .after_ (expectKeyword_steady _) fun _ => ?_
    cases negative
    · exact .pure (mirrors.isNull related)
    · exact .pure (mirrors.isNotNull related)
  refine .after_ (firstOf_steady ?_) fun found => ?_
  · simp [comparisons, tryMark_steady, tryChar_steady, tryKeyword_steady, tryKeywordWith_steady]
  · split
    · exact (sum_twin mirrors inside).bind fun _ _ relatedRight =>
        .pure (mirrors.binary _ related relatedRight)
    · exact .pure related

theorem condition_twin : Twin before after R (condition nested) (condition nested) := by
  have negation_ (fuel : Nat) : Twin before after R (negation (comparison nested) fuel)
      (negation (comparison nested) fuel) := by
    induction fuel with
    | zero => exact comparison_twin mirrors inside
    | succ fuel ih =>
        refine .after_ (tryKeyword_steady _) fun not => ?_
        split
        · exact ih.bind fun _ _ related => .pure (mirrors.not related)
        · exact comparison_twin mirrors inside
  exact .of_get fun _ => negation_ _

theorem connected_twin : Twin before after R (connected nested) (connected nested) :=
  chain_twin mirrors (by simp [tryKeyword_steady])
    (chain_twin mirrors (by simp [tryKeyword_steady])
      (chain_twin mirrors (by simp [tryKeyword_steady]) (condition_twin mirrors inside)))

omit inside in
theorem expression_twin : Twin before after R expression expression := by
  have within (depth : Nat) :
      Twin before after R (expressionWithin depth) (expressionWithin depth) := by
    induction depth with
    | zero =>
        exact .of_fails (.then_ fun _ => .then_ fun _ => .throw _)
          (.then_ fun _ => .then_ fun _ => .throw _)
    | succ depth ih => exact connected_twin mirrors ih
  exact .of_get fun _ => within _

end Expressions

section Clauses

theorem optionalName_steady : Steady optionalName := by
  refine skipBlanks_steady.bind fun _ => atName_steady.bind fun here => ?_
  split
  · exact name_steady.bind fun _ => .pure _
  · exact .pure _

theorem label?_steady : Steady label? := by
  refine (tryChar_steady ':').bind fun colon => ?_
  split
  · exact name_steady.bind fun _ => .pure _
  · exact .pure _

theorem optionalLength_steady : Steady optionalLength := by
  refine skipBlanks_steady.bind fun _ => atDigit_steady.bind fun here => ?_
  split
  · exact length_steady.bind fun _ => .pure _
  · exact .pure _

theorem pathLength_steady : Steady pathLength := by
  refine optionalLength_steady.bind fun least => (tryMark_steady _).bind fun open_ => ?_
  split
  · refine optionalLength_steady.bind fun greatest => ?_
    dsimp only
    split
    · exact .throw _
    · exact .pure _
  · split
    · exact .pure _
    · exact .pure _

theorem anotherType?_steady : Steady anotherType? := by
  refine (tryChar_steady '|').bind fun bar => ?_
  split
  · exact (tryChar_steady ':').bind fun _ => name_steady.bind fun _ => .pure _
  · exact .pure _

theorem directionOf_steady (left right : Bool) : Steady (directionOf left right) := by
  cases left <;> cases right <;> first | exact .pure _ | exact .throw _

theorem sortsDescending_steady : Steady sortsDescending := by
  refine (tryKeyword_steady _).bind fun descending => ?_
  split
  · exact .pure _
  refine (tryKeyword_steady _).bind fun desc => ?_
  split
  · exact .pure _
  refine (tryKeyword_steady _).bind fun ascending => ?_
  split
  · exact .pure _
  · exact (tryKeyword_steady _).bind fun _ => .pure _

theorem types_twin : Twin before after Eq types types := by
  refine .after_ (tryChar_steady ':') fun colon => ?_
  split
  · exact .after_ name_steady fun _ => (Twin.repeated_same anotherType?_steady).then_ fun _ =>
      .pure rfl
  · exact .pure rfl

theorem deleteClause?_twin : Twin before after Eq deleteClause? deleteClause? := by
  have named (detach : Bool) : Twin before after Eq
      (do return some (DeleteClause.mk detach (← separated name)))
      (do return some (DeleteClause.mk detach (← separated name))) :=
    (Twin.separated_same name_steady).then_ fun _ => .pure rfl
  have plain : Twin before after Eq
      (keyword? "DELETE" do return DeleteClause.mk false (← separated name))
      (keyword? "DELETE" do return DeleteClause.mk false (← separated name)) :=
    .keyword_same _ ((Twin.separated_same name_steady).then_ fun _ => .pure rfl)
  refine .after_ (tryKeyword_steady _) fun detach => ?_
  split
  · exact .after_ (expectKeyword_steady _) fun _ => named _
  · exact plain

/-- What is read behind MATCH. -/
def matchBody : Parser MatchClause := do
  let patterns ← patterns
  return ⟨patterns, ← keyword? "WHERE" expression⟩

/-- What is read behind the MATCH clauses. -/
def queryEnd (matches_ : List MatchClause) : Parser Query := do
  let create ← keyword? "CREATE" patterns
  let set ← keyword? "SET" (separated setItem)
  let delete ← deleteClause?
  let return_ ← keyword? "RETURN" returnClause
  let found : Query := ⟨matches_, create.getD [], set.getD [], delete, return_⟩
  if Query.isEmpty found then throw (.expectedClause (← snippet))
  return found

theorem query_eq : query = repeated matchClause? >>= queryEnd := rfl

theorem isEmpty_of_paired {α : Type} {S : α → α → Prop} {first second : List α}
    (related : List.Forall₂ S first second) : first.isEmpty = second.isEmpty := by
  cases related <;> rfl

theorem queryIsEmpty_of_paired {R : Expression → Expression → Prop} {q r : Query}
    (paired : q.Paired R r) : Query.isEmpty q = Query.isEmpty r := by
  obtain ⟨found, create, set, delete, return_⟩ := paired
  have returned : q.return_.isNone = r.return_.isNone := by
    generalize q.return_ = first, r.return_ = second at return_
    cases return_ <;> rfl
  rw [Query.isEmpty, Query.isEmpty, isEmpty_of_paired found, isEmpty_of_paired create,
    isEmpty_of_paired set, delete, returned]

/-- A relationship gets its direction last. -/
def UndirectedPaired (R : Expression → Expression → Prop) (body body' : Undirected) : Prop :=
  ∀ d, (body d).Paired R (body' d)

variable {R : Expression → Expression → Prop} (mirrors : Mirrors before after R)

include mirrors

theorem properties_twin : Twin before after (EntriesPaired R) properties properties := by
  refine .after_ (tryChar_steady _) fun opened => ?_
  split
  · exact mapEntries_twin (expression_twin mirrors)
  · exact .pure .nil

theorem nodePattern_twin : Twin before after (NodePattern.Paired R) nodePattern nodePattern :=
  .after_ (expectChar_steady '(') fun _ => .after_ optionalName_steady fun _ =>
    (Twin.repeated_same label?_steady).then_ fun _ => (properties_twin mirrors).bind fun _ _ related =>
    .after_ (expectChar_steady ')') fun _ => .pure ⟨rfl, rfl, related⟩

theorem relationshipBody_twin :
    Twin before after (UndirectedPaired R) relationshipBody relationshipBody := by
  have complete (name : Option String) (types : List String) (length : Option PathLength) :
      Twin before after (UndirectedPaired R) (do
        let properties ← properties
        expectChar ']'
        return fun direction => ⟨name, types, properties, direction, length⟩) (do
        let properties ← properties
        expectChar ']'
        return fun direction => ⟨name, types, properties, direction, length⟩) :=
    (properties_twin mirrors).bind fun _ _ related => .after_ (expectChar_steady ']') fun _ =>
      .pure fun _ => ⟨rfl, rfl, related, rfl, rfl⟩
  refine .after_ optionalName_steady fun name => types_twin.then_ fun types =>
    .after_ (tryChar_steady '*') fun star => ?_
  split
  · exact .after_ pathLength_steady.map fun length => complete name types length
  · exact complete name types none

theorem relationshipPattern_twin :
    Twin before after (RelationshipPattern.Paired R) relationshipPattern relationshipPattern := by
  have ended {body body' : Undirected} (related : UndirectedPaired R body body') (left : Bool) :
      Twin before after (RelationshipPattern.Paired R) (do
        let right ← tryMark ['-', '>']
        unless right do expectChar '-'
        return body (← directionOf left right)) (do
        let right ← tryMark ['-', '>']
        unless right do expectChar '-'
        return body' (← directionOf left right)) := by
    refine .after_ (tryMark_steady _) fun right => ?_
    split
    · exact .after_ (directionOf_steady left _) fun d => .pure (related d)
    · exact .after_ (expectChar_steady '-') fun _ => .after_ (directionOf_steady left _) fun d =>
        .pure (related d)
  have bare : UndirectedPaired R (fun d => ⟨none, [], [], d, none⟩)
      (fun d => ⟨none, [], [], d, none⟩) := fun _ => ⟨rfl, rfl, .nil, rfl, rfl⟩
  have opened (left : Bool) : Twin before after (RelationshipPattern.Paired R) (do
      let body ← if ← tryChar '[' then relationshipBody
        else pure fun direction => ⟨none, [], [], direction, none⟩
      let right ← tryMark ['-', '>']
      unless right do expectChar '-'
      return body (← directionOf left right)) (do
      let body ← if ← tryChar '[' then relationshipBody
        else pure fun direction => ⟨none, [], [], direction, none⟩
      let right ← tryMark ['-', '>']
      unless right do expectChar '-'
      return body (← directionOf left right)) := by
    refine .after_ (tryChar_steady '[') fun bracket => ?_
    split
    · exact (relationshipBody_twin mirrors).bind fun _ _ related => ended related left
    · exact ended bare left
  refine .after_ (tryMark_steady _) fun left => ?_
  split
  · exact opened _
  · exact .after_ (expectChar_steady '-') fun _ => opened _

theorem patterns_twin :
    Twin before after (List.Forall₂ (PathPattern.Paired R)) patterns patterns := by
  have link : Twin before after (Option.Rel (LinkPaired R)) chainLink? chainLink? := by
    refine .after_ skipBlanks_steady fun _ => .after_ peek_steady fun next => ?_
    split
    · exact (relationshipPattern_twin mirrors).bind fun _ _ relationship =>
        (nodePattern_twin mirrors).bind fun _ _ node => .pure (.some ⟨relationship, node⟩)
    · exact .pure .none
  have path : Twin before after (PathPattern.Paired R) pathPattern pathPattern :=
    (nodePattern_twin mirrors).bind fun _ _ start => link.repeated.bind fun _ _ chain =>
      .pure ⟨start, chain⟩
  exact path.separated

theorem matchBody_twin : Twin before after (MatchClause.Paired R) matchBody matchBody :=
  (patterns_twin mirrors).bind fun _ _ patterns =>
    ((expression_twin mirrors).keyword "WHERE").bind fun _ _ condition => .pure ⟨patterns, condition⟩

theorem setItem_twin : Twin before after (SetItem.Paired R) setItem setItem :=
  .after_ name_steady fun _ => .after_ (expectChar_steady '.') fun _ => .after_ name_steady fun _ =>
    .after_ (expectChar_steady '=') fun _ => (expression_twin mirrors).bind fun _ _ related =>
    .pure ⟨rfl, rfl, related⟩

/-- Only integers count rows, so an integer must be related to nothing else. -/
theorem rowCount_twin (counts : ∀ n e e', R e e' →
    (e = .literal (.int n) ↔ e' = .literal (.int n))) (clause : String) :
    Twin before after Eq (rowCount clause) (rowCount clause) := by
  refine (primary_twin mirrors (expression_twin mirrors)).bind fun e e' related => ?_
  split
  · next n =>
      cases (counts n _ _ related).mp rfl
      dsimp only
      split
      · exact .pure rfl
      · exact .throw _ _
  · next other =>
      split
      · next n => exact absurd ((counts n _ _ related).mpr rfl) (other n)
      · exact .throw _ _

theorem returnClause_twin (counts : ∀ n e e', R e e' →
    (e = .literal (.int n) ↔ e' = .literal (.int n))) :
    Twin before after (ReturnClause.Paired R) returnClause returnClause := by
  have item : Twin before after (ReturnItem.Paired R) returnItem returnItem :=
    (expression_twin mirrors).withText.bind fun _ _ read =>
      (Twin.keyword_same "AS" (.of_steady name_steady)).then_ fun _ =>
      .pure ⟨read.1, rfl, read.2⟩
  have sort : Twin before after (SortItem.Paired R) sortItem sortItem :=
    (expression_twin mirrors).withText.bind fun _ _ read => .after_ sortsDescending_steady fun _ =>
      .pure ⟨read.1, rfl, read.2⟩
  have order : Twin before after (Option.Rel (List.Forall₂ (SortItem.Paired R)))
      (keyword? "ORDER" do
        expectKeyword "BY"
        separated sortItem)
      (keyword? "ORDER" do
        expectKeyword "BY"
        separated sortItem) :=
    .keyword _ (.after_ (expectKeyword_steady _) fun _ => sort.separated)
  have count (clause : String) := (rowCount_twin mirrors counts clause).keyword_same clause
  refine .after_ (tryKeyword_steady _) fun _ => item.separated.bind fun _ _ items =>
    order.bind fun order order' sorted => (count "SKIP").then_ fun _ => (count "LIMIT").then_ fun _ =>
    .pure ⟨rfl, items, ?_, rfl, rfl⟩
  cases sorted with
  | none => exact .nil
  | some related => exact related

theorem queryEnd_twin (counts : ∀ n e e', R e e' →
    (e = .literal (.int n) ↔ e' = .literal (.int n))) {clauses clauses' : List MatchClause}
    (found : List.Forall₂ (MatchClause.Paired R) clauses clauses') :
    Twin before after (Query.Paired R) (queryEnd clauses) (queryEnd clauses') := by
  refine ((patterns_twin mirrors).keyword _).bind fun create create' created =>
    ((setItem_twin mirrors).separated.keyword _).bind fun set set' assigned =>
    deleteClause?_twin.then_ fun delete =>
    ((returnClause_twin mirrors counts).keyword _).bind fun return_ return_' returned => ?_
  have paired : Query.Paired R ⟨clauses, create.getD [], set.getD [], delete, return_⟩
      ⟨clauses', create'.getD [], set'.getD [], delete, return_'⟩ := by
    refine ⟨found, ?_, ?_, rfl, returned⟩
    · cases created with
      | none => exact .nil
      | some related => exact related
    · cases assigned with
      | none => exact .nil
      | some related => exact related
  dsimp only
  rw [← queryIsEmpty_of_paired paired]
  split
  · exact .of_fails (.then_ fun _ => .throw _) (.then_ fun _ => .throw _)
  · exact .pure paired

theorem query_twin (counts : ∀ n e e', R e e' →
    (e = .literal (.int n) ↔ e' = .literal (.int n))) :
    Twin before after (Query.Paired R) query query :=
  ((matchBody_twin mirrors).keyword "MATCH").repeated.bind fun _ _ found =>
    queryEnd_twin mirrors counts found

end Clauses

end PropertyGraph.Cypher
