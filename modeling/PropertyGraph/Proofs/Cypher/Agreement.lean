import PropertyGraph.Proofs.Cypher.Correspondence

/-!
Scripts of expressions that correspond: both expressions have a script that makes corresponding
programs, or neither has one, for the same reason.
-/

namespace PropertyGraph.Cypher

variable {before after : Properties} {b : Bindings}

theorem literalValue_corresponds {v w : Value} (same : v.Corresponds before after w) :
    (literalValue v).Corresponds before after (literalValue w) := by
  unfold literalValue
  rw [same.isNull_eq]
  split
  · exact .same _
  · exact same

theorem pairwise_agree (f : Function) {left left' right right' : Ops}
    (first : OpsAgree before after left left') (second : OpsAgree before after right right') :
    OpsAgree before after (pairwise f left right) (pairwise f left' right') :=
  .cons (.nested _ (.cons (.of first) (.cons (.of second) .nil)) _) (.refl _)

theorem choice_agrees {condition condition' yes no : Ops} (given : Ops)
    (tests : OpsAgree before after condition condition') (otherwise : OpsAgree before after yes no) :
    OpAgrees before after (choice condition given yes) (choice condition' given no) :=
  .nested _ (.cons (.of tests) (.cons (.of (.refl _)) (.cons (.of otherwise) .nil))) _

theorem truthOf_agrees {condition condition' : Ops}
    (tests : OpsAgree before after condition condition') :
    OpAgrees before after (truthOf condition) (truthOf condition') :=
  choice_agrees _ tests (.refl _)

theorem textOperand_alike {e e' : Expression} (same : e.Corresponds before after e') :
    Alike (fun s t => Value.Corresponds before after (.string s) (.string t)) (textOperand e)
      (textOperand e') := by
  have literals := same.literal?
  unfold textOperand
  generalize e.literal? = found, e'.literal? = found' at literals
  cases literals with
  | none => exact .error _
  | @some v _ same =>
      cases same with
      | same =>
          cases v with
          | string s => exact .ok (.same _)
          | _ => exact .error _
      | parameter earlier later => exact .ok (.parameter earlier later)
      | list => exact .error _
      | record => exact .error _

theorem listOperand_alike {e e' : Expression} (same : e.Corresponds before after e') :
    Alike (Predicate.Corresponds before after)
      (match e.literal? with
        | some (.list items) => .ok (.within items)
        | _ => .error CompileFault.membershipWithoutList)
      (match e'.literal? with
        | some (.list items) => .ok (.within items)
        | _ => .error CompileFault.membershipWithoutList) := by
  have literals := same.literal?
  generalize e.literal? = found, e'.literal? = found' at literals
  cases literals with
  | none => exact .error _
  | @some v _ same =>
      cases same with
      | same =>
          cases v with
          | list items => exact .ok (.same _)
          | _ => exact .error _
      | parameter => exact .error _
      | list items => exact .ok (.within items)
      | record => exact .error _

theorem membership_alike (op : BinaryOperator) {e e' : Expression}
    (same : e.Corresponds before after e') :
    Alike (Predicate.Corresponds before after) (membership op e) (membership op e') := by
  have texts := textOperand_alike same
  cases op with
  | startsWith => exact texts.map fun _ _ same => .startingWith same
  | endsWith => exact texts.map fun _ _ same => .endingWith same
  | contains => exact texts.map fun _ _ same => .containing same
  | _ => exact listOperand_alike same

mutual

/-- Corresponding expressions have scripts that agree, or fail alike. -/
theorem valueOps_agree : (e : Expression) → {e' : Expression} → e.Corresponds before after e' →
    Alike (OpsAgree before after) (valueOps b e) (valueOps b e')
  | .literal _, _, .literal same => .ok (.one (.constant (literalValue_corresponds same)))
  | .reference _, _, .reference _ => .refl (.refl ·) _
  | .property _ _, _, .property _ _ => .refl (.refl ·) _
  | .list items, _, .list same => (valueScripts_agree items same).bind fun _ _ scripts =>
      .pure (.cons (.nested _ scripts _) (.refl _))
  | .map entries, _, .map keys same => by
      rw [valueOps, valueOps, keys]
      exact (entryScripts_agree entries same).bind fun _ _ scripts =>
        .pure (.then_ _ (.bys scripts))
  | .binary left op right, _, .binary _ first second => by
      have left_ := valueOps_agree left first
      rw [valueOps, valueOps]
      split
      · next f _ =>
          exact left_.bind fun _ _ first => (valueOps_agree right second).bind fun _ _ second =>
            .pure (pairwise_agree f first second)
      · exact left_.bind fun _ _ operands => (membership_alike op second).bind fun _ _ tests =>
          .pure (.one (choice_agrees _ (operands.append (.refl _))
            (.one (truthOf_agrees (operands.append (.then_ _ (.one (.is_ tests))))))))
  | .not operand, _, .not same => by
      rw [valueOps, valueOps]
      exact (valueOps_agree operand same).bind fun _ _ agree => .pure (agree.append (.refl _))
  | .negate operand, _, .negate same => by
      rw [valueOps, valueOps]
      exact (valueOps_agree operand same).bind fun _ _ agree =>
        .pure (pairwise_agree _ (.refl _) agree)
  | .isNull operand, _, .isNull same => by
      rw [valueOps, valueOps]
      exact (valueOps_agree operand same).bind fun _ _ agree =>
        .pure (.one (truthOf_agrees (agree.append (.refl _))))
  | .isNotNull operand, _, .isNotNull same => by
      rw [valueOps, valueOps]
      exact (valueOps_agree operand same).bind fun _ _ agree =>
        .pure (.one (truthOf_agrees (agree.append (.refl _))))
  | .call name _ arguments, _, .call _ _ same => by
      match arguments, same with
      | [], .nil => exact .refl (.refl ·) _
      | [argument], .cons first .nil =>
          simp only [valueOps]
          split
          · exact .error _
          · exact (valueOps_agree argument first).bind fun _ _ agree =>
              (Alike.refl (.refl ·) (scalar name)).bind fun _ _ steps => .pure (agree.append steps)
      | _ :: _ :: _, .cons _ (.cons _ _) =>
          simp only [valueOps]
          split
          · exact .error _
          · exact .error _
  | .countAll, _, .countAll => .error _
termination_by structural e => e

theorem valueScripts_agree : (items : List Expression) → {others : List Expression} →
    List.Forall₂ (Expression.Corresponds before after) items others →
    Alike (List.Forall₂ (ScriptAgrees before after)) (valueScripts b items) (valueScripts b others)
  | [], _, .nil => .ok .nil
  | e :: rest, _, .cons first same =>
      ((valueOps_agree e first).map fun _ _ => .of).bind fun _ _ script =>
        (valueScripts_agree rest same).bind fun _ _ scripts => .pure (.cons script scripts)
termination_by structural items => items

theorem entryScripts_agree : (entries : List (String × Expression)) →
    {others : List (String × Expression)} →
    List.Forall₂ (Expression.Corresponds before after) (entries.map (·.2)) (others.map (·.2)) →
    Alike (List.Forall₂ (ScriptAgrees before after)) (entryScripts b entries)
      (entryScripts b others)
  | [], [], _ => .ok .nil
  | entry :: rest, _ :: _, .cons first same =>
      (entryScript_agrees entry first).bind fun _ _ script =>
        (entryScripts_agree rest same).bind fun _ _ scripts => .pure (.cons script scripts)
termination_by structural entries => entries

theorem entryScript_agrees : (entry : String × Expression) → {other : String × Expression} →
    entry.2.Corresponds before after other.2 →
    Alike (ScriptAgrees before after) (entryScript b entry) (entryScript b other)
  | (_, e), (_, _), same => (valueOps_agree e same).map fun _ _ => .of
termination_by structural entry => entry

end

theorem valueScript_agrees {e e' : Expression} (same : e.Corresponds before after e') :
    Alike (ScriptAgrees before after) (valueScript b e) (valueScript b e') :=
  (valueOps_agree e same).map fun _ _ => .of

theorem comparisonPredicate_corresponds (op : BinaryOperator) {v w : Value}
    (same : v.Corresponds before after w) :
    (comparisonPredicate op v).Corresponds before after (comparisonPredicate op w) := by
  cases op with
  | ne => exact .neq same
  | lt => exact .lt same
  | le => exact .lte same
  | gt => exact .gt same
  | ge => exact .gte same
  | _ => exact .eq same

theorem constant?_corresponds {e e' : Expression} (same : e.Corresponds before after e') :
    Option.Rel (Value.Corresponds before after) (constant? e) (constant? e') := by
  have literals := same.literal?
  unfold constant?
  generalize e.literal? = found, e'.literal? = found' at literals
  cases literals with
  | none => exact .none
  | @some v w same =>
      have known := same.isNull_eq
      dsimp only
      rw [known]
      split
      · exact .none
      · exact .some same

/-- Which side of a comparison is computed is the same. -/
theorem comparisonOps_agree (op : BinaryOperator) (f : Function)
    {left left' right right' : Expression} (first : left.Corresponds before after left') (second : right.Corresponds before after right') :
    Alike (OpsAgree before after) (comparisonOps b op f left right)
      (comparisonOps b op f left' right') := by
  have compared (op : BinaryOperator) {e e' : Expression} {v w : Value}
      (same : e.Corresponds before after e') (values : v.Corresponds before after w) :
      Alike (OpsAgree before after)
        (do return (← valueOps b e) ++ [isKnown, .is_ (comparisonPredicate op v)])
        (do return (← valueOps b e') ++ [isKnown, .is_ (comparisonPredicate op w)]) :=
    (valueOps_agree e same).bind fun _ _ agree => .pure (agree.append (.then_ _
      (.one (.is_ (comparisonPredicate_corresponds op values)))))
  have computed : Alike (OpsAgree before after)
      (do
        let left ← valueOps b left
        return pairwise f left (← valueOps b right) ++ [isTrue])
      (do
        let left ← valueOps b left'
        return pairwise f left (← valueOps b right') ++ [isTrue]) :=
    (valueOps_agree left first).bind fun _ _ left =>
      (valueOps_agree right second).bind fun _ _ right => .pure ((pairwise_agree f left right).append (.refl _))
  have leftLiteral := first.literal?
  have rightConstant := constant?_corresponds second
  have leftConstant := constant?_corresponds first
  have rightLiteral := second.literal?
  unfold comparisonOps
  generalize left.literal? = ll, left'.literal? = ll' at leftLiteral
  generalize constant? right = rc, constant? right' = rc' at rightConstant
  generalize constant? left = lc, constant? left' = lc' at leftConstant
  generalize right.literal? = rl, right'.literal? = rl' at rightLiteral
  cases leftLiteral with
  | none =>
      cases rightConstant with
      | some values => exact compared op first values
      | none =>
          cases leftConstant with
          | none => exact computed
          | some values =>
              cases rightLiteral with
              | none => exact compared (flipped op) second values
              | some _ => exact computed
  | some _ =>
      cases leftConstant with
      | none => exact computed
      | some values =>
          cases rightLiteral with
          | none => exact compared (flipped op) second values
          | some _ => exact computed

theorem conditionOps_agree : (e : Expression) → {e' : Expression} →
    e.Corresponds before after e' →
    Alike (OpsAgree before after) (conditionOps b e) (conditionOps b e')
  | .binary left op right, _, .binary _ first second => by
      have left_ := conditionOps_agree left first
      have right_ := conditionOps_agree right second
      have tested : Alike (OpsAgree before after)
          (do
            let p ← membership op right
            return (← valueOps b left) ++ [isKnown, .is_ p])
          (do
            let p ← membership op _
            return (← valueOps b _) ++ [isKnown, .is_ p]) :=
        (membership_alike op second).bind fun _ _ tests =>
          (valueOps_agree left first).bind fun _ _ agree => .pure (agree.append (.then_ _ (.one (.is_ tests))))
      have computed : Alike (OpsAgree before after)
          (do return (← valueOps b (.binary left op right)) ++ [isTrue])
          (do return (← valueOps b (.binary _ op _)) ++ [isTrue]) :=
        (valueOps_agree _ (.binary op first second)).bind fun _ _ agree =>
          .pure (agree.append (.refl _))
      cases op with
      | and => exact left_.bind fun _ _ left => right_.bind fun _ _ right =>
          .pure (.one (.nested _ (.cons (.of left) (.cons (.of right) .nil)) _))
      | or => exact left_.bind fun _ _ left => right_.bind fun _ _ right =>
          .pure (.one (.nested _ (.cons (.of left) (.cons (.of right) .nil)) _))
      | eq | ne | lt | le | gt | ge => exact comparisonOps_agree _ _ first second
      | in_ | startsWith | endsWith | contains => exact tested
      | xor | add | sub | mul | div | mod => exact computed
  | .not _, _, .not same => (valueOps_agree _ same).bind fun _ _ agree =>
      .pure (agree.append (.refl _))
  | .isNull _, _, .isNull same => (valueOps_agree _ same).bind fun _ _ agree =>
      .pure (agree.append (.refl _))
  | .isNotNull _, _, .isNotNull same => (valueOps_agree _ same).bind fun _ _ agree =>
      .pure (agree.append (.refl _))
  | .literal v, _, .literal same => by
      have valued := (valueOps_agree (b := b) (.literal v) (.literal same)).bind
        fun _ _ agree => .pure (agree.append (.refl [isTrue]))
      cases same with
      | same => exact .refl (.refl ·) _
      | parameter => exact valued
      | list => exact valued
      | record => exact valued
  | .reference name, _, .reference _ => .refl (.refl ·) _
  | .property owner key, _, .property _ _ => .refl (.refl ·) _
  | .list items, _, .list same => (valueOps_agree _ (.list same)).bind fun _ _ agree =>
      .pure (agree.append (.refl _))
  | .map entries, _, .map keys same => (valueOps_agree _ (.map keys same)).bind fun _ _ agree =>
      .pure (agree.append (.refl _))
  | .negate operand, _, .negate same => (valueOps_agree _ (.negate same)).bind fun _ _ agree =>
      .pure (agree.append (.refl _))
  | .call name distinct arguments, _, .call _ _ same =>
      (valueOps_agree _ (.call name distinct same)).bind fun _ _ agree =>
        .pure (agree.append (.refl _))
  | .countAll, _, .countAll => .refl (.refl ·) _

theorem conditionScript_agrees {e e' : Expression} (same : e.Corresponds before after e') :
    Alike (ScriptAgrees before after) (conditionScript b e) (conditionScript b e') :=
  (conditionOps_agree e same).map fun _ _ => .of

end PropertyGraph.Cypher
