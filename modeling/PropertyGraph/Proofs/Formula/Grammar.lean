import Mathlib.Data.List.Basic
import Mathlib.Data.List.Nodup
import PropertyGraph.Formula.Evaluate

/-!
The grammar of formulas. Reading and evaluating are one pass, so what it does is described for all
bindings at once: which names are looked up, in their order, and what their numbers come to, or the
fault that ends it. It succeeds exactly if all tokens derive from the grammar and the names among
them that are no calls are bound; these are the variables that a scan of the tokens lists.
-/

namespace PropertyGraph.Formula

/-- Levels of operators that group to the left. -/
inductive Chain where
  | sums
  | products

inductive Part where
  | chain (level : Chain)
  | more (level : Chain)
  | power
  | signed
  | primary

def Chain.operators : Chain → List Char
  | .sums => ['+', '-']
  | .products => ['*', '/', '%']

def Chain.operand : Chain → Part
  | .sums => .chain .products
  | .products => .power

/-- The grammar: tokens that make up a part of a formula, with the names that they use as variables.
A name before a parenthesis is the name of a function. -/
inductive Derives : Part → List Token → List String → Prop
  | chain (level : Chain) {first rest : List Token} {names others : List String} :
      Derives level.operand first names → Derives (.more level) rest others →
        Derives (.chain level) (first ++ rest) (names ++ others)
  | noMore (level : Chain) : Derives (.more level) [] []
  | more (level : Chain) {c : Char} {next rest : List Token} {names others : List String} :
      c ∈ level.operators → Derives level.operand next names → Derives (.more level) rest others →
        Derives (.more level) (.operator c :: (next ++ rest)) (names ++ others)
  | base {tokens : List Token} {names : List String} :
      Derives .signed tokens names → Derives .power tokens names
  | raised {base exponent : List Token} {names others : List String} :
      Derives .signed base names → Derives .power exponent others →
        Derives .power (base ++ .operator '^' :: exponent) (names ++ others)
  | negated {tokens : List Token} {names : List String} :
      Derives .signed tokens names → Derives .signed (.operator '-' :: tokens) names
  | unsigned {tokens : List Token} {names : List String} :
      Derives .primary tokens names → Derives .signed tokens names
  | number (x : Binary64) : Derives .primary [.number x] []
  | variable_ (name : String) : Derives .primary [.name name] [name]
  | group {tokens : List Token} {names : List String} :
      Derives (.chain .sums) tokens names → Derives .primary (.open_ :: (tokens ++ [.close])) names
  | call {function : String} {tokens : List Token} {names : List String} :
      isFunction function = true → Derives (.chain .sums) tokens names →
        Derives .primary (.name function :: .open_ :: (tokens ++ [.close])) names

def uses : List Token → List String
  | [] => []
  | .name s :: .open_ :: rest => if isFunction s then uses rest else s :: uses rest
  | .name s :: rest => s :: uses rest
  | _ :: rest => uses rest

theorem uses_subset_cons (token : Token) (rest : List Token) :
    uses rest ⊆ uses (token :: rest) := by
  cases token with
  | name s =>
      cases rest with
      | nil => exact List.nil_subset _
      | cons next rest =>
          cases next with
          | open_ =>
              rw [uses, uses]
              · split
                · exact List.Subset.refl _
                · exact List.subset_cons_self _ _
              all_goals simp
          | _ => exact List.subset_cons_self _ _
  | _ => exact List.Subset.refl _

theorem uses_subset_append (used rest : List Token) : uses rest ⊆ uses (used ++ rest) := by
  induction used with
  | nil => exact List.Subset.refl _
  | cons token used ih => exact List.Subset.trans ih (uses_subset_cons token (used ++ rest))

abbrev Bindings := Dictionary String Binary64

/-- The numbers that names are bound to, or the fault of the first that is not bound. -/
def numbers (bindings : Bindings) (names : List String) : Except Fault (List Binary64) :=
  names.mapM (lookup bindings)

theorem numbers_cons (bindings : Bindings) (name : String) (names : List String) :
    numbers bindings (name :: names) = do
      let x ← lookup bindings name
      let xs ← numbers bindings names
      return x :: xs :=
  List.mapM_cons

theorem numbers_cons_ok {bindings : Bindings} {name : String} {names : List String}
    {xs : List Binary64} (found : numbers bindings (name :: names) = .ok xs) :
    ∃ x ys, lookup bindings name = .ok x ∧ numbers bindings names = .ok ys ∧ xs = x :: ys := by
  rw [numbers_cons] at found
  cases first : lookup bindings name with
  | error fault => rw [first] at found; cases found
  | ok x =>
      cases others : numbers bindings names with
      | error fault => rw [first, others] at found; cases found
      | ok ys =>
          rw [first, others] at found
          cases found
          exact ⟨x, ys, rfl, rfl, rfl⟩

theorem numbers_append (bindings : Bindings) (names others : List String) :
    numbers bindings (names ++ others) = do
      let xs ← numbers bindings names
      let ys ← numbers bindings others
      return xs ++ ys :=
  List.mapM_append

theorem length_of_numbers {bindings : Bindings} {names : List String} {xs : List Binary64}
    (found : numbers bindings names = .ok xs) : xs.length = names.length := by
  induction names generalizing xs with
  | nil =>
      cases found
      rfl
  | cons name names ih =>
      obtain ⟨x, ys, _, others, rfl⟩ := numbers_cons_ok found
      exact congrArg (· + 1) (ih others)

/-- What reading tokens comes to under all bindings. The names that are looked up, and so the tokens
taken and the fault, are the same for all of them; only the number depends on theirs. The given
number is that of an operand on the left. -/
inductive Course (derives : List Token → List String → Prop) (tokens : List Token) {given : Type}
    (run : given → Bindings → Except Fault (Binary64 × List Token)) : Prop
  | ends {used rest : List Token} {names : List String} (value : given → List Binary64 → Binary64)
      (split : tokens = used ++ rest) (derived : derives used names)
      (within : names ⊆ uses tokens)
      (looks : ∀ left bindings, run left bindings = do
        let xs ← numbers bindings names
        return (value left xs, rest)) : Course derives tokens run
  | fails {names : List String} (fault : Fault) (within : names ⊆ uses tokens)
      (looks : ∀ left bindings, run left bindings = do
        let _ ← numbers bindings names
        throw fault) : Course derives tokens run

namespace Course

variable {derives derives' : List Token → List String → Prop} {tokens : List Token}
  {given : Type} {run : given → Bindings → Except Fault (Binary64 × List Token)}

theorem pure (value : given → Binary64) (nothing : derives [] []) :
    Course derives tokens (fun left _ => .ok (value left, tokens)) :=
  .ends (fun left _ => value left) rfl nothing (List.nil_subset _) fun _ _ => rfl

theorem throw (fault : Fault) :
    Course derives tokens fun (_ : given) (_ : Bindings) => .error fault :=
  .fails fault (List.nil_subset _) fun _ _ => rfl

theorem imp (course : Course derives tokens run)
    (implies : ∀ used names, derives used names → derives' used names) :
    Course derives' tokens run := by
  cases course with
  | ends value split derived within looks =>
      exact .ends value split (implies _ _ derived) within looks
  | fails fault within looks => exact .fails fault within looks

theorem behind (course : Course derives tokens run) (token : Token)
    (implies : ∀ used names, derives used names → derives' (token :: used) names) :
    Course derives' (token :: tokens) run := by
  have more := uses_subset_cons token tokens
  cases course with
  | ends value split derived within looks =>
      exact .ends value (congrArg (token :: ·) split) (implies _ _ derived)
        (List.Subset.trans within more) looks
  | fails fault within looks => exact .fails fault (List.Subset.trans within more) looks

/-- One reading after another, which is given the number of the first. -/
theorem bind {follows whole : List Token → List String → Prop} (course : Course derives tokens run)
    {next : given × Binary64 → List Token → Bindings → Except Fault (Binary64 × List Token)}
    (continues : ∀ rest, Course follows rest fun left bindings => next left rest bindings)
    (joins : ∀ used names rest others, derives used names → follows rest others →
      whole (used ++ rest) (names ++ others)) :
    Course whole tokens fun left bindings =>
      run left bindings >>= fun found => next (left, found.1) found.2 bindings := by
  cases course with
  | fails fault within looks =>
      refine .fails fault within fun left bindings => ?_
      rw [looks]
      cases numbers bindings _ <;> rfl
  | @ends used rest names value split derived within looks =>
      have inside : uses rest ⊆ uses tokens := split ▸ uses_subset_append used rest
      cases continues rest with
      | @fails others fault within' looks' =>
          have listed : names ++ others ⊆ uses tokens :=
            List.append_subset.mpr ⟨within, List.Subset.trans within' inside⟩
          refine .fails fault listed fun left bindings => ?_
          rw [looks, numbers_append]
          cases numbers bindings names with
          | error fault => rfl
          | ok xs =>
              change next (left, value left xs) rest bindings = _
              rw [looks' (left, value left xs)]
              cases numbers bindings others <;> rfl
      | @ends used' rest' others value' split' derived' within' looks' =>
          refine .ends (fun left zs => value' (left, value left (zs.take names.length))
            (zs.drop names.length)) (by rw [split, split', List.append_assoc])
            (joins _ _ _ _ derived derived')
            (List.append_subset.mpr ⟨within, List.Subset.trans within' inside⟩)
            fun left bindings => ?_
          rw [looks, numbers_append]
          cases found : numbers bindings names with
          | error fault => rfl
          | ok xs =>
              have length := length_of_numbers found
              change next (left, value left xs) rest bindings = _
              rw [looks' (left, value left xs)]
              cases numbers bindings others with
              | error fault => rfl
              | ok ys =>
                  change Except.ok _ = Except.ok _
                  rw [← length, List.take_left, List.drop_left]

theorem map (course : Course derives tokens run) (f : given → Binary64 → Binary64) :
    Course derives tokens fun left bindings =>
      run left bindings >>= fun found => .ok (f left found.1, found.2) := by
  have made (rest : List Token) : Course (fun used names => used = [] ∧ names = []) rest
      fun (left : given × Binary64) (_ : Bindings) => .ok (f left.1 left.2, rest) :=
    .pure (fun left : given × Binary64 => f left.1 left.2) ⟨rfl, rfl⟩
  refine course.bind made ?_
  rintro used names _ _ derived ⟨rfl, rfl⟩
  rwa [List.append_nil, List.append_nil]

theorem comap {other : Type} (course : Course derives tokens run) (f : other → given) :
    Course derives tokens (fun left => run (f left)) := by
  cases course with
  | ends value split derived within looks =>
      exact .ends (fun left => value (f left)) split derived within fun left => looks (f left)
  | fails fault within looks => exact .fails fault within fun left => looks (f left)

end Course

/-- The evaluation reads this part of a formula from any tokens. -/
def ReadsPart (part : Part) (run : Bindings → Evaluation) : Prop :=
  ∀ tokens, Course (Derives part) tokens fun (_ : Unit) bindings => run bindings tokens

section

variable {run : Bindings → Evaluation}

theorem chainFrom_reads {level : Chain} (combine : Char → Binary64 → Binary64 → Binary64)
    (operand : ReadsPart level.operand run) (fuel : Nat) (tokens : List Token) :
    Course (Derives (.more level)) tokens fun left bindings =>
      chainFrom level.operators combine (run bindings) left fuel tokens := by
  induction fuel generalizing tokens with
  | zero => exact .pure id (.noMore level)
  | succ fuel ih =>
      have stop : Course (Derives (.more level)) tokens
          fun (left : Binary64) (_ : Bindings) => .ok (left, tokens) := .pure id (.noMore level)
      cases tokens with
      | nil => exact stop
      | cons token rest =>
          cases token with
          | operator c =>
              simp only [chainFrom]
              split
              · next listed =>
                  have onward (rest : List Token) : Course (Derives (.more level)) rest
                      fun (left : Binary64 × Binary64) bindings => chainFrom level.operators combine
                        (run bindings) (combine c left.1 left.2) fuel rest :=
                    (ih rest).comap fun (left : Binary64 × Binary64) => combine c left.1 left.2
                  have operands : Course
                      (fun used names => Derives (.more level) (.operator c :: used) names) rest
                      fun left bindings => run bindings rest >>= fun found => chainFrom
                        level.operators combine (run bindings) (combine c left found.1) fuel
                        found.2 :=
                    ((operand rest).comap fun _ => ()).bind onward
                      fun _ _ _ _ => .more level (List.contains_iff_mem.mp listed)
                  exact operands.behind _ fun _ _ => id
              · exact stop
          | _ => exact stop

theorem chain_reads (level : Chain) (combine : Char → Binary64 → Binary64 → Binary64)
    (operand : ReadsPart level.operand run) :
    ReadsPart (.chain level) fun bindings => chain level.operators combine (run bindings) := by
  intro tokens
  have onward (rest : List Token) : Course (Derives (.more level)) rest
      fun (left : Unit × Binary64) bindings =>
        chainFrom level.operators combine (run bindings) left.2 rest.length rest :=
    (chainFrom_reads combine operand rest.length rest).comap Prod.snd
  exact (operand tokens).bind onward fun _ _ _ _ => .chain level

theorem close_reads (f : Binary64 → Binary64) (tokens : List Token) :
    Course (fun used names => used = [.close] ∧ names = []) tokens
      fun (left : Unit × Binary64) _ => close (f left.2) tokens := by
  cases tokens with
  | nil => exact .throw .missingClose
  | cons token rest =>
      cases token with
      | close =>
          have closed : Course (fun used names => used = [] ∧ names = []) rest
              fun (left : Unit × Binary64) _ => .ok (f left.2, rest) :=
            .pure (fun left : Unit × Binary64 => f left.2) ⟨rfl, rfl⟩
          exact closed.behind .close fun _ _ found => ⟨congrArg _ found.1, found.2⟩
      | _ => exact .throw .missingClose

theorem inside_reads (inner : ReadsPart (.chain .sums) run) (f : Binary64 → Binary64)
    (tokens : List Token) :
    Course (fun used names => ∃ inside, used = inside ++ [.close] ∧
      Derives (.chain .sums) inside names) tokens fun (_ : Unit) bindings =>
        run bindings tokens >>= fun found => close (f found.1) found.2 := by
  refine (inner tokens).bind (close_reads f) ?_
  rintro used names _ _ derived ⟨rfl, rfl⟩
  exact ⟨used, rfl, (List.append_nil names).symm ▸ derived⟩

theorem lookup_reads {name : String} {rest : List Token}
    (taken : name ∈ uses (.name name :: rest)) :
    Course (Derives .primary) (.name name :: rest) fun (_ : Unit) bindings => do
      return (← lookup bindings name, rest) := by
  refine .ends (fun _ xs => xs.headD (.ofInt 0)) List.singleton_append.symm (.variable_ name)
    (List.cons_subset.mpr ⟨taken, List.nil_subset _⟩) fun _ bindings => ?_
  rw [numbers, List.mapM_cons, List.mapM_nil]
  cases lookup bindings name <;> rfl

theorem primary_reads (inner : ReadsPart (.chain .sums) run) :
    ReadsPart .primary fun bindings => primary bindings (run bindings) := by
  intro tokens
  cases tokens with
  | nil => exact .throw _
  | cons token rest =>
      cases token with
      | number x =>
          have nothing : Course (fun used names => used = [] ∧ names = []) rest
              fun (_ : Unit) (_ : Bindings) => .ok (x, rest) := .pure (fun _ => x) ⟨rfl, rfl⟩
          refine nothing.behind (.number x) ?_
          rintro _ _ ⟨rfl, rfl⟩
          exact .number x
      | open_ =>
          refine (inside_reads inner id rest).behind .open_ ?_
          rintro _ names ⟨inside, rfl, derived⟩
          exact .group derived
      | name s =>
          cases rest with
          | nil => exact lookup_reads List.mem_cons_self
          | cons next rest =>
              cases next with
              | open_ =>
                  simp only [primary]
                  split
                  · next function =>
                      have arguments : Course (fun used names =>
                          Derives .primary (.name s :: used) names) (.open_ :: rest)
                          fun (_ : Unit) bindings => run bindings rest >>= fun found =>
                            close (call s found.1) found.2 := by
                        refine (inside_reads inner (call s) rest).behind .open_ ?_
                        rintro _ names ⟨inside, rfl, derived⟩
                        exact .call function derived
                      exact arguments.behind (.name s) fun _ _ => id
                  · next variable_ =>
                      exact lookup_reads (by rw [uses, if_neg variable_]; exact List.mem_cons_self)
              | _ => exact lookup_reads List.mem_cons_self
      | operator c => exact .throw _
      | close => exact .throw _

theorem unary_other {operand : Evaluation} {token : Token} (other : token ≠ .operator '-')
    (rest : List Token) : unary operand (token :: rest) = operand (token :: rest) := by
  rw [unary]
  rintro _ same
  exact other (List.cons.inj same).1

theorem unary_reads (operand : ReadsPart .primary run) :
    ReadsPart .signed fun bindings => unary (run bindings) := by
  intro tokens
  have plain (tokens : List Token) : Course (Derives .signed) tokens
      fun (_ : Unit) bindings => run bindings tokens :=
    (operand tokens).imp fun _ _ => .unsigned
  induction tokens with
  | nil => exact plain []
  | cons token rest ih =>
      by_cases minus : token = .operator '-'
      · subst minus
        exact (ih.map fun _ x => x.neg).behind _ fun _ _ => .negated
      · simp only [unary_other minus]
        exact plain (token :: rest)

theorem power_succ (operand : Evaluation) (fuel : Nat) (tokens : List Token) :
    power operand (fuel + 1) tokens = operand tokens >>= fun found =>
      if found.2.head? = some (.operator '^') then
        power operand fuel found.2.tail >>= fun exponent =>
          .ok (found.1.pow exponent.1, exponent.2)
      else .ok (found.1, found.2) := by
  rw [power]
  refine bind_congr fun found => ?_
  obtain ⟨base, rest⟩ := found
  dsimp only
  split
  · rfl
  · next other =>
      refine (if_neg fun first => ?_).symm
      cases rest with
      | nil => cases first
      | cons token rest =>
          cases Option.some.inj first
          exact other rest rfl

theorem power_reads (operand : ReadsPart .signed run) (fuel : Nat) :
    ReadsPart .power fun bindings => power (run bindings) fuel := by
  intro tokens
  induction fuel generalizing tokens with
  | zero => exact (operand tokens).imp fun _ _ => .base
  | succ fuel ih =>
      have raised (rest : List Token) : Course (fun used names => (used = [] ∧ names = []) ∨
          ∃ exponent, used = .operator '^' :: exponent ∧ Derives .power exponent names) rest
          fun (left : Unit × Binary64) bindings => if rest.head? = some (.operator '^') then
            power (run bindings) fuel rest.tail >>= fun found =>
              .ok (left.2.pow found.1, found.2)
            else .ok (left.2, rest) := by
        split
        · next first =>
            obtain ⟨exponent, rfl⟩ := List.head?_eq_some_iff.mp first
            exact (((ih exponent).comap fun _ => ()).map
              fun (left : Unit × Binary64) x => left.2.pow x).behind _
                fun _ _ derived => Or.inr ⟨_, rfl, derived⟩
        · exact .pure Prod.snd (.inl ⟨rfl, rfl⟩)
      simp only [power_succ]
      refine (operand tokens).bind raised ?_
      rintro used names _ _ base (⟨rfl, rfl⟩ | ⟨exponent, rfl, derived⟩)
      · rw [List.append_nil, List.append_nil]
        exact .base base
      · exact .raised base derived

end

theorem expression_reads (depth : Nat) :
    ReadsPart (.chain .sums) fun bindings => expression bindings depth := by
  induction depth with
  | zero => exact fun _ => .throw _
  | succ depth ih =>
      have powers : ReadsPart .power fun bindings tokens =>
          power (unary (primary bindings (expression bindings depth))) tokens.length tokens :=
        fun tokens => power_reads (unary_reads (primary_reads ih)) tokens.length tokens
      exact chain_reads .sums combineSum (chain_reads .products combineProduct powers)

end PropertyGraph.Formula
