import PropertyGraph.Proofs.Formula.Grammar

/-!
Formulas have a value exactly where they should. What derives from the grammar is read to its end,
as far as what follows does not go on with it; so a formula has a value if and only if its tokens
derive from the grammar and its variables are bound, and nothing else that is bound matters.
-/

namespace PropertyGraph.Formula

/-- The tokens that would go on with a part. -/
def Part.after : Part → List Token
  | .primary | .signed => [.open_]
  | .power => [.open_, .operator '^']
  | .chain .products | .more .products =>
      [.open_, .operator '^', .operator '*', .operator '/', .operator '%']
  | .chain .sums | .more .sums =>
      [.open_, .operator '^', .operator '*', .operator '/', .operator '%', .operator '+',
        .operator '-']

theorem Part.open_after (part : Part) : Token.open_ ∈ part.after := by
  cases part with
  | chain level | more level => cases level <;> decide
  | _ => decide

theorem Part.close_apart (part : Part) : Token.close ∉ part.after := by
  cases part with
  | chain level | more level => cases level <;> decide
  | _ => decide

/-- The operators of a chain go on with the chain, and not with an operand of it. -/
theorem Chain.operators_after (level : Chain) : ∀ c ∈ level.operators,
    Token.operator c ∈ (Part.more level).after ∧ Token.operator c ∉ level.operand.after := by
  cases level <;> simp [Chain.operators, Chain.operand, Part.after]

/-- What follows a part does not go on with it. -/
def Ends (part : Part) (rest : List Token) : Prop := ∀ token ∈ rest.head?, token ∉ part.after

namespace Ends

variable {part other : Part} {level : Chain} {rest : List Token} {token : Token} {c : Char}

theorem nil (part : Part) : Ends part [] := nofun

theorem cons (apart : token ∉ part.after) (rest : List Token) : Ends part (token :: rest) := by
  intro _ first
  cases first
  exact apart

theorem close (part : Part) (rest : List Token) : Ends part (.close :: rest) :=
  cons part.close_apart rest

theorem imp (ends : Ends part rest) (fewer : other.after ⊆ part.after) : Ends other rest :=
  fun token first listed => ends token first (fewer listed)

theorem operand (ends : Ends (.more level) rest) : Ends level.operand rest := by
  refine ends.imp ?_
  cases level <;> simp [Chain.operand, Part.after]

theorem operator (listed : c ∈ level.operators) (rest : List Token) :
    Ends level.operand (.operator c :: rest) :=
  cons (level.operators_after c listed).2 rest

theorem more (ends : Ends (.chain level) rest) : Ends (.more level) rest := by
  refine ends.imp ?_
  cases level <;> exact List.Subset.refl _

theorem front {others : List Token} {names : List String} (ends : Ends (.more level) rest)
    (derived : Derives (.more level) others names) : Ends level.operand (others ++ rest) := by
  cases derived with
  | noMore => exact ends.operand
  | more _ listed => exact .operator listed _

theorem not_open (ends : Ends part (token :: rest)) : token ≠ .open_ := by
  rintro rfl
  exact ends .open_ rfl part.open_after

end Ends

/-- Every text of so many tokens that derives from a part, with its variables bound, is read as one
where what follows does not go on with it. -/
def Accepts (part : Part) (bindings : Bindings) (size : Nat) (run : Evaluation) : Prop :=
  ∀ ⦃used rest : List Token⦄ ⦃names : List String⦄, Derives part used names →
    used.length ≤ size → (∀ name ∈ names, Dictionary.has name bindings = true) → Ends part rest →
      ∃ x, run (used ++ rest) = .ok (x, rest)

section

variable {bindings : Bindings} {size : Nat} {run : Evaluation} {level : Chain}

theorem lookup_bound {name : String} (bound : Dictionary.has name bindings = true) :
    ∃ x, lookup bindings name = .ok x := by
  obtain ⟨x, found⟩ := Option.isSome_iff_exists.mp bound
  exact ⟨x, by rw [lookup, found]⟩

theorem chainFrom_stops (combine : Char → Binary64 → Binary64 → Binary64) (left : Binary64)
    {rest : List Token} (ends : Ends (.more level) rest) (fuel : Nat) :
    chainFrom level.operators combine run left fuel rest = .ok (left, rest) := by
  cases fuel with
  | zero => rfl
  | succ fuel =>
      cases rest with
      | nil => rfl
      | cons token rest =>
          cases token with
          | operator c =>
              have other : level.operators.contains c ≠ true := fun listed =>
                ends _ rfl (level.operators_after c (List.contains_iff_mem.mp listed)).1
              rw [chainFrom, if_neg other]
          | _ => rfl

theorem chainFrom_accepts (combine : Char → Binary64 → Binary64 → Binary64)
    (operand : Accepts level.operand bindings size run) {used rest : List Token}
    {names : List String} (derived : Derives (.more level) used names) (small : used.length ≤ size)
    (bound : ∀ name ∈ names, Dictionary.has name bindings = true) (ends : Ends (.more level) rest)
    (left : Binary64) {fuel : Nat} (enough : used.length ≤ fuel) :
    ∃ x, chainFrom level.operators combine run left fuel (used ++ rest) = .ok (x, rest) := by
  generalize whole : Part.more level = part at derived
  induction derived generalizing left fuel with
  | noMore => exact ⟨left, chainFrom_stops combine left ends fuel⟩
  | @more _ c next others _ _ listed first more _ ih =>
      cases whole
      rw [List.length_cons, List.length_append] at small enough
      obtain ⟨fuel, rfl⟩ : ∃ k, fuel = k + 1 := ⟨fuel - 1, by omega⟩
      obtain ⟨x, taken⟩ := operand first (by omega)
        (fun name member => bound name (List.mem_append_left _ member)) (ends.front more)
      obtain ⟨y, read⟩ := ih (by omega)
        (fun name member => bound name (List.mem_append_right _ member))
        (combine c left x) (by omega : others.length ≤ fuel) rfl
      refine ⟨y, ?_⟩
      rw [List.cons_append, List.append_assoc, chainFrom,
        if_pos (List.contains_iff_mem.mpr listed), taken]
      exact read
  | _ => cases whole

theorem chain_accepts (level : Chain) (combine : Char → Binary64 → Binary64 → Binary64)
    (operand : Accepts level.operand bindings size run) :
    Accepts (.chain level) bindings size (chain level.operators combine run) := by
  intro used rest names derived small bound ends
  cases derived with
  | @chain _ first others _ _ starts more =>
      have ends := ends.more
      rw [List.length_append] at small
      obtain ⟨x, taken⟩ := operand starts (by omega)
        (fun name member => bound name (List.mem_append_left _ member)) (ends.front more)
      obtain ⟨y, read⟩ := chainFrom_accepts combine operand more (by omega)
        (fun name member => bound name (List.mem_append_right _ member)) ends x
        (List.length_append ▸ Nat.le_add_right _ _)
      refine ⟨y, ?_⟩
      rw [List.append_assoc, chain, taken]
      exact read

theorem primary_accepts (inner : Accepts (.chain .sums) bindings size run) :
    Accepts .primary bindings (size + 1) (primary bindings run) := by
  intro used rest names derived small bound ends
  cases derived with
  | number x => exact ⟨x, rfl⟩
  | variable_ name =>
      obtain ⟨x, found⟩ := lookup_bound (bound name List.mem_cons_self)
      refine ⟨x, ?_⟩
      cases rest with
      | nil => simp only [List.append_nil, primary, found]; rfl
      | cons token rest =>
          rw [List.singleton_append, primary, found]
          · rfl
          · intro _ same
            exact ends.not_open (List.cons.inj same).1
  | @group inside _ derived =>
      rw [List.length_cons, List.length_append] at small
      obtain ⟨x, read⟩ := inner derived (by omega) bound (.close _ rest)
      refine ⟨x, ?_⟩
      rw [List.cons_append, List.append_assoc, primary, List.singleton_append, read]
      rfl
  | @call name inside _ function derived =>
      rw [List.length_cons, List.length_cons, List.length_append] at small
      obtain ⟨x, read⟩ := inner derived (by omega) bound (.close _ rest)
      refine ⟨call name x, ?_⟩
      rw [List.cons_append, List.cons_append, List.append_assoc, primary, if_pos function,
        List.singleton_append, read]
      rfl

theorem Derives.begins {used : List Token} {names : List String}
    (derived : Derives .primary used names) :
    ∃ token rest, used = token :: rest ∧ token ≠ .operator '-' := by
  cases derived <;> exact ⟨_, _, rfl, nofun⟩

theorem unary_accepts (operand : Accepts .primary bindings size run) :
    Accepts .signed bindings size (unary run) := by
  intro used rest names derived small bound ends
  generalize whole : Part.signed = part at derived
  induction derived with
  | negated _ ih =>
      obtain ⟨x, read⟩ := ih (Nat.le_of_succ_le small) bound rfl
      exact ⟨x.neg, by rw [List.cons_append, unary, read]; rfl⟩
  | unsigned derived =>
      obtain ⟨token, others, rfl, other⟩ := derived.begins
      rw [List.cons_append, unary_other other]
      exact operand derived small bound ends
  | _ => cases whole

theorem power_stops {tokens rest : List Token} {x : Binary64} (read : run tokens = .ok (x, rest))
    (ends : Ends .power rest) (fuel : Nat) : power run fuel tokens = .ok (x, rest) := by
  cases fuel with
  | zero => exact read
  | succ fuel =>
      rw [power_succ, read]
      exact if_neg fun first => ends _ first (by decide)

theorem power_accepts (operand : Accepts .signed bindings size run) {used rest : List Token}
    {names : List String} (derived : Derives .power used names) (small : used.length ≤ size)
    (bound : ∀ name ∈ names, Dictionary.has name bindings = true) (ends : Ends .power rest)
    {fuel : Nat} (enough : used.length ≤ fuel) :
    ∃ x, power run fuel (used ++ rest) = .ok (x, rest) := by
  generalize whole : Part.power = part at derived
  induction derived generalizing fuel with
  | @base tokens names derived =>
      obtain ⟨x, read⟩ := operand derived small bound (ends.imp (by simp [Part.after]))
      exact ⟨x, power_stops read ends fuel⟩
  | @raised base exponent _ _ below above _ ih =>
      rw [List.length_append, List.length_cons] at small enough
      obtain ⟨fuel, rfl⟩ : ∃ k, fuel = k + 1 := ⟨fuel - 1, by omega⟩
      obtain ⟨x, taken⟩ := operand below (by omega)
        (fun name member => bound name (List.mem_append_left _ member))
        (show Ends .signed (.operator '^' :: (exponent ++ rest)) from
          .cons (by simp [Part.after]) _)
      obtain ⟨y, read⟩ := ih (by omega)
        (fun name member => bound name (List.mem_append_right _ member))
        (by omega : exponent.length ≤ fuel) rfl
      refine ⟨x.pow y, ?_⟩
      rw [List.append_assoc, List.cons_append]
      simp only [power, taken, read, bind, Except.bind]
  | _ => cases whole

end

theorem Derives.ne_nil {part : Part} {used : List Token} {names : List String}
    (derived : Derives part used names) (whole : ∀ level, part ≠ .more level) : used ≠ [] := by
  induction derived with
  | chain level _ _ first _ =>
      exact List.append_ne_nil_of_left_ne_nil (first (by cases level <;> nofun)) _
  | noMore level => exact absurd rfl (whole level)
  | raised _ _ below _ => exact List.append_ne_nil_of_left_ne_nil (below nofun) _
  | base _ ih => exact ih nofun
  | unsigned _ ih => exact ih nofun
  | _ => exact List.cons_ne_nil _ _

/-- Parentheses are at most as deep as there are tokens. -/
theorem expression_accepts (bindings : Bindings) (depth : Nat) :
    Accepts (.chain .sums) bindings depth (expression bindings depth) := by
  induction depth with
  | zero =>
      intro used rest names derived small
      exact absurd (List.length_eq_zero_iff.mp (Nat.le_zero.mp small)) (derived.ne_nil nofun)
  | succ depth ih =>
      have powers : Accepts .power bindings (depth + 1) fun tokens =>
          power (unary (primary bindings (expression bindings depth))) tokens.length tokens :=
        fun _ _ _ derived small bound ends =>
          power_accepts (unary_accepts (primary_accepts ih)) derived small bound ends
            (List.length_append ▸ Nat.le_add_right _ _)
      exact chain_accepts .sums combineSum (chain_accepts .products combineProduct powers)

theorem listed_once {known : List String} (distinct : known.Nodup) (s : String) :
    (if known.contains s then known else known ++ [s]).Nodup ∧
      ∀ name, name ∈ (if known.contains s then known else known ++ [s]) ↔
        name ∈ known ∨ name = s := by
  split
  · next listed =>
      refine ⟨distinct, fun name => ⟨.inl, ?_⟩⟩
      rintro (member | rfl)
      · exact member
      · exact List.contains_iff_mem.mp listed
  · next new =>
      have apart : s ∉ known := fun member => new (List.contains_iff_mem.mpr member)
      refine ⟨List.nodup_append.mpr ⟨distinct, List.nodup_singleton s, ?_⟩, by simp⟩
      rintro name member _ alone rfl
      exact apart (List.mem_singleton.mp alone ▸ member)

theorem variablesFrom_spec (known : List String) (found : List Token) (distinct : known.Nodup) :
    (variablesFrom known found).Nodup ∧
      ∀ name, name ∈ variablesFrom known found ↔ name ∈ known ∨ name ∈ uses found := by
  fun_induction variablesFrom known found with
  | case1 known => simpa [uses] using distinct
  | case2 known s rest ih =>
      by_cases function : isFunction s = true
      · simpa [uses, function] using ih (by simpa [function] using distinct)
      · obtain ⟨once, members⟩ := listed_once distinct s
        have known' : (if (isFunction s || known.contains s) = true then known
          else known ++ [s]) = if known.contains s then known else known ++ [s] := by
          simp [function]
        obtain ⟨nodup, spec⟩ := ih (known' ▸ once)
        refine ⟨nodup, fun name => ?_⟩
        rw [spec, known', members, uses, if_neg function, List.mem_cons, or_assoc]
  | case3 known s rest lone ih =>
      obtain ⟨once, members⟩ := listed_once distinct s
      obtain ⟨nodup, spec⟩ := ih once
      refine ⟨nodup, fun name => ?_⟩
      rw [spec, members, uses, List.mem_cons, or_assoc]
      exact lone
  | case4 known token rest _ other ih =>
      obtain ⟨nodup, spec⟩ := ih distinct
      refine ⟨nodup, fun name => ?_⟩
      rw [spec, uses]
      · exact fun _ _ same => absurd same (other _)
      · exact other

theorem Derives.ends {level : Chain} {used rest : List Token} {names : List String}
    (derived : Derives (.more level) used names) (ends : Ends .primary rest) :
    Ends .primary (used ++ rest) := by
  cases derived with
  | noMore => exact ends
  | more => exact .cons (by simp [Part.after]) _

/-- What derives from the grammar uses the names that a scan finds. -/
theorem Derives.uses_eq {part : Part} {used : List Token} {names : List String}
    (derived : Derives part used names) {rest : List Token} (ends : Ends .primary rest) :
    uses (used ++ rest) = names ++ uses rest := by
  induction derived generalizing rest with
  | chain level _ more first others =>
      rw [List.append_assoc, List.append_assoc, ← others ends]
      exact first (more.ends ends)
  | noMore => rfl
  | more level listed _ more first others =>
      rw [List.cons_append, uses, List.append_assoc, List.append_assoc, ← others ends]
      · exact first (more.ends ends)
      all_goals simp
  | base _ ih => exact ih ends
  | @raised _ exponent _ _ _ _ below above =>
      have boundary : Ends .primary (.operator '^' :: exponent ++ rest) :=
        .cons (by simp [Part.after]) _
      rw [List.append_assoc, List.append_assoc, ← above ends]
      exact below boundary
  | negated _ ih => exact ih ends
  | unsigned _ ih => exact ih ends
  | number => rfl
  | variable_ name =>
      cases rest with
      | nil => rfl
      | cons token rest =>
          have lone := ends.not_open
          rw [List.singleton_append, uses]
          · rfl
          · rintro _ same
            exact lone (List.cons.inj same).1
  | group _ ih =>
      rw [List.cons_append, List.append_assoc]
      exact ih (.close _ rest)
  | call function _ ih =>
      rw [List.cons_append, List.cons_append, List.append_assoc, uses, if_pos function]
      exact ih (.close _ rest)

theorem lookup_ok {bindings : Bindings} {name : String} {x : Binary64}
    (found : lookup bindings name = .ok x) : Dictionary.has name bindings = true := by
  unfold lookup at found
  split at found
  · next bound => rw [Dictionary.has, bound, Option.isSome_some]
  · cases found

theorem numbers_ok {bindings : Bindings} {names : List String} {xs : List Binary64}
    (found : numbers bindings names = .ok xs) :
    ∀ name ∈ names, Dictionary.has name bindings = true := by
  induction names generalizing xs with
  | nil => exact nofun
  | cons first names ih =>
      obtain ⟨x, ys, bound, rest, rfl⟩ := numbers_cons_ok found
      exact List.forall_mem_cons.mpr ⟨lookup_ok bound, ih rest⟩

theorem numbers_congr {bindings others : Bindings} {names : List String}
    (same : ∀ name ∈ names, Dictionary.get? name others = Dictionary.get? name bindings) :
    numbers others names = numbers bindings names := by
  induction names with
  | nil => rfl
  | cons first names ih =>
      rw [numbers_cons, numbers_cons, lookup, lookup, same first List.mem_cons_self,
        ih fun name member => same name (List.mem_cons_of_mem first member)]

/-- A name that is not bound is the fault, where all others are. -/
theorem numbers_unbound {bindings : Bindings} {names : List String} {name : String}
    (member : name ∈ names) (unbound : Dictionary.get? name bindings = none)
    (others : ∀ other ∈ names, other ≠ name → Dictionary.has other bindings = true) :
    numbers bindings names = .error (.unboundVariable name) := by
  induction names with
  | nil => cases member
  | cons first names ih =>
      rw [numbers_cons]
      by_cases same : first = name
      · subst same
        rw [lookup, unbound]
        rfl
      · obtain ⟨x, found⟩ := lookup_bound (others first List.mem_cons_self same)
        have later := ih ((List.mem_cons.mp member).resolve_left (Ne.symm same))
          fun other inside => others other (List.mem_cons_of_mem first inside)
        rw [found, later]
        rfl

section

variable {formula : String} {found : List Token}

theorem evaluate_unread {fault : Fault} (unread : tokens formula = .error fault)
    (bindings : Bindings) : evaluate formula bindings = .error fault := by
  rw [evaluate, unread]
  rfl

theorem evaluate_read (read : tokens formula = .ok found) (bindings : Bindings) :
    evaluate formula bindings =
      (expression bindings (found.length + 1) found >>= fun last =>
        if last.2.isEmpty then .ok last.1 else .error (.trailingInput formula)) := by
  rw [evaluate, read]
  rfl

/-- Either all tokens derive from the grammar, and the value is made of the numbers that the names
are bound to, or a fault is left when all names that are looked up are bound. -/
theorem evaluate_course (read : tokens formula = .ok found) :
    (∃ names value, Derives (.chain .sums) found names ∧
      ∀ bindings, evaluate formula bindings = value <$> numbers bindings names) ∨
    ∃ names fault, names ⊆ uses found ∧
      ∀ bindings, evaluate formula bindings = numbers bindings names >>= fun _ => .error fault := by
  have course : Course (Derives (.chain .sums)) found
      fun (_ : Unit) bindings => expression bindings (found.length + 1) found :=
    expression_reads (found.length + 1) found
  cases course with
  | @fails names fault within looks =>
      refine .inr ⟨names, fault, within, fun bindings => ?_⟩
      rw [evaluate_read read, looks ()]
      cases numbers bindings names <;> rfl
  | @ends used rest names value split derived within looks =>
      cases rest with
      | nil =>
          rw [List.append_nil] at split
          refine .inl ⟨names, value (), split ▸ derived, fun bindings => ?_⟩
          rw [evaluate_read read, looks ()]
          cases numbers bindings names <;> rfl
      | cons token rest =>
          refine .inr ⟨names, .trailingInput formula, within, fun bindings => ?_⟩
          rw [evaluate_read read, looks ()]
          cases numbers bindings names <;> rfl

theorem Derives.names_eq {names : List String} (derived : Derives (.chain .sums) found names) :
    names = uses found := by
  have whole := derived.uses_eq (.nil _)
  rw [List.append_nil] at whole
  exact (whole.trans (List.append_nil names)).symm

theorem evaluate_congr {bindings others : Bindings}
    (same : ∀ found, tokens formula = .ok found → ∀ name ∈ uses found,
      Dictionary.get? name others = Dictionary.get? name bindings) :
    evaluate formula others = evaluate formula bindings := by
  cases read : tokens formula with
  | error fault => rw [evaluate_unread read, evaluate_unread read]
  | ok found =>
      rcases evaluate_course read with ⟨names, value, derived, made⟩ | ⟨names, fault, within, made⟩
      · rw [made, made, numbers_congr fun name member =>
          same found read name (derived.names_eq ▸ member)]
      · rw [made, made, numbers_congr fun name member => same found read name (within member)]

theorem evaluate_parts {bindings : Bindings} {x : Binary64}
    (evaluated : evaluate formula bindings = .ok x) :
    ∃ found names value, tokens formula = .ok found ∧ Derives (.chain .sums) found names ∧
      (∀ name ∈ names, Dictionary.has name bindings = true) ∧
        ∀ others, evaluate formula others = value <$> numbers others names := by
  cases read : tokens formula with
  | error fault =>
      rw [evaluate_unread read] at evaluated
      cases evaluated
  | ok found =>
      rcases evaluate_course read with ⟨names, value, derived, made⟩ | ⟨names, fault, _, made⟩
      · refine ⟨found, names, value, rfl, derived, ?_, made⟩
        rw [made] at evaluated
        cases taken : numbers bindings names with
        | error fault =>
            rw [taken] at evaluated
            cases evaluated
        | ok xs => exact numbers_ok taken
      · rw [made] at evaluated
        cases taken : numbers bindings names with
        | error fault =>
            rw [taken] at evaluated
            cases evaluated
        | ok xs =>
            rw [taken] at evaluated
            cases evaluated

theorem evaluate_of_derives {bindings : Bindings} {names : List String}
    (read : tokens formula = .ok found) (derived : Derives (.chain .sums) found names)
    (bound : ∀ name ∈ names, Dictionary.has name bindings = true) :
    ∃ x, evaluate formula bindings = .ok x := by
  obtain ⟨x, taken⟩ := expression_accepts bindings (found.length + 1) derived (Nat.le_succ _) bound
    (.nil _)
  rw [List.append_nil] at taken
  refine ⟨x, ?_⟩
  rw [evaluate_read read, taken]
  rfl

end

theorem variableNames_read {formula : String} {found : List Token}
    (read : tokens formula = .ok found) :
    ∃ listed, variableNames formula = .ok listed ∧ listed.Nodup ∧
      ∀ name, name ∈ listed ↔ name ∈ uses found := by
  obtain ⟨distinct, members⟩ := variablesFrom_spec [] found .nil
  refine ⟨variablesFrom [] found, by rw [variableNames, read]; rfl, distinct, fun name => ?_⟩
  rw [members]
  exact or_iff_right List.not_mem_nil

theorem variableNames_unread {formula : String} {fault : Fault}
    (unread : tokens formula = .error fault) : variableNames formula = .error fault := by
  rw [variableNames, unread]
  rfl

/-- A formula has a value if and only if its tokens derive from the grammar and its variables are
bound. The variables are the names that do not stand as the name of a function before a parenthesis,
and they are listed once each. Nothing else that is bound matters, and each of them does. -/
theorem formulas_are_read_by_their_grammar (formula : String) (bindings : Bindings) :
    ((∃ x, evaluate formula bindings = .ok x) ↔
      ∃ found names, tokens formula = .ok found ∧ Derives (.chain .sums) found names ∧
        ∀ name ∈ names, Dictionary.has name bindings = true) ∧
    (∀ fault, tokens formula = .error fault →
      evaluate formula bindings = .error fault ∧ variableNames formula = .error fault) ∧
    ∀ found, tokens formula = .ok found →
      (∀ names, Derives (.chain .sums) found names → names = uses found) ∧
      ∃ listed, variableNames formula = .ok listed ∧ listed.Nodup ∧
        (∀ name, name ∈ listed ↔ name ∈ uses found) ∧
        (∀ others, (∀ name ∈ listed, Dictionary.get? name others = Dictionary.get? name bindings) →
          evaluate formula others = evaluate formula bindings) ∧
        ∀ x name others, evaluate formula bindings = .ok x →
          Dictionary.get? name others = none →
          (∀ other, other ≠ name →
            Dictionary.get? other others = Dictionary.get? other bindings) →
          (evaluate formula others = .error (.unboundVariable name) ↔ name ∈ listed) := by
  refine ⟨⟨?_, ?_⟩, fun fault unread =>
    ⟨evaluate_unread unread bindings, variableNames_unread unread⟩, fun found read => ?_⟩
  · rintro ⟨x, evaluated⟩
    obtain ⟨found, names, _, read, derived, bound, _⟩ := evaluate_parts evaluated
    exact ⟨found, names, read, derived, bound⟩
  · rintro ⟨found, names, read, derived, bound⟩
    exact evaluate_of_derives read derived bound
  · obtain ⟨listed, given, distinct, members⟩ := variableNames_read read
    have congr (others : Bindings) (same : ∀ name ∈ listed,
        Dictionary.get? name others = Dictionary.get? name bindings) :
        evaluate formula others = evaluate formula bindings := by
      refine evaluate_congr fun found' read' name used => same name ((members name).mpr ?_)
      cases Except.ok.inj (read.symm.trans read')
      exact used
    refine ⟨fun names derived => derived.names_eq, listed, given, distinct, members, congr,
      fun x name others evaluated unbound same => ⟨fun failed => ?_, fun member => ?_⟩⟩
    · by_contra absent
      have kept := congr others fun other inside =>
        same other fun equal => absent (equal ▸ inside)
      rw [failed, evaluated] at kept
      cases kept
    · obtain ⟨found', names, value, read', derived, bound, made⟩ := evaluate_parts evaluated
      cases Except.ok.inj (read.symm.trans read')
      have inside : name ∈ names := derived.names_eq ▸ (members name).mp member
      have lacking := numbers_unbound inside unbound fun other used apart => by
        rw [Dictionary.has, same other apart]
        exact bound other used
      rw [made, lacking]
      rfl

/-- Here `abs` is a function and a variable. -/
def mixedFormula : String := "-abs(x) ^ 2 + abs * (y % 3)"

def mixedTokens : List Token :=
  [.operator '-', .name "abs", .open_, .name "x", .close, .operator '^', .number (.ofInt 2),
    .operator '+', .name "abs", .operator '*', .open_, .name "y", .operator '%',
    .number (.ofInt 3), .close]

theorem mixedFormula_tokens : tokens mixedFormula = .ok mixedTokens := by
  have read : (tokens mixedFormula).toOption = some mixedTokens := by decide +kernel
  cases found : tokens mixedFormula with
  | error fault =>
      rw [found] at read
      cases read
  | ok given =>
      rw [found] at read
      cases read
      rfl

theorem mixedFormula_derives :
    Derives (.chain .sums) mixedTokens ["x", "abs", "y"] := by
  have one (name : String) : Derives (.chain .products) [.name name] [name] :=
    .chain .products (.base (.unsigned (.variable_ name))) (.noMore .products)
  have x : Derives .primary [.name "abs", .open_, .name "x", .close] ["x"] :=
    .call rfl (.chain .sums (one "x") (.noMore .sums))
  have remainder :
      Derives (.chain .products) [.name "y", .operator '%', .number (.ofInt 3)] ["y"] :=
    .chain .products (.base (.unsigned (.variable_ "y"))) (.more .products (by decide)
      (.base (.unsigned (.number _))) (.noMore .products))
  have y : Derives .primary [.open_, .name "y", .operator '%', .number (.ofInt 3), .close] ["y"] :=
    .group (.chain .sums remainder (.noMore .sums))
  exact .chain .sums
    (.chain .products (.raised (.negated (.unsigned x)) (.base (.unsigned (.number _))))
      (.noMore .products))
    (.more .sums (by decide) (.chain .products (.base (.unsigned (.variable_ "abs")))
      (.more .products (by decide) (.base (.unsigned y)) (.noMore .products))) (.noMore .sums))

theorem mixed_formula_needs_its_three_variables :
    let three : Bindings := [("abs", .ofInt 5), ("x", .ofInt 4), ("y", .ofInt 7)]
    (∃ listed, variableNames mixedFormula = .ok listed ∧
      ∀ name, name ∈ listed ↔ name ∈ ["x", "abs", "y"]) ∧
    (∃ value, evaluate mixedFormula three = .ok value) ∧
    evaluate mixedFormula (("z", .ofInt 1) :: three) = evaluate mixedFormula three ∧
    evaluate mixedFormula three.tail = .error (.unboundVariable "abs") := by
  intro three
  obtain ⟨value, _, scanned⟩ := formulas_are_read_by_their_grammar mixedFormula three
  obtain ⟨names, listed, given, _, members, same, lacks⟩ := scanned _ mixedFormula_tokens
  have used : ∀ name, name ∈ listed ↔ name ∈ ["x", "abs", "y"] := fun name => by
    rw [members, ← names _ mixedFormula_derives]
  have evaluated := value.mpr ⟨_, _, mixedFormula_tokens, mixedFormula_derives, by decide⟩
  refine ⟨⟨listed, given, used⟩, evaluated, same _ fun name member => ?_, ?_⟩
  · have other : "z" ≠ name := by
      rintro rfl
      exact absurd ((used _).mp member) (by decide)
    exact if_neg other
  · obtain ⟨x, found⟩ := evaluated
    refine (lacks x "abs" three.tail found rfl fun other apart => ?_).mpr ((used _).mpr (by decide))
    exact (if_neg (Ne.symm apart)).symm

end PropertyGraph.Formula
