import PropertyGraph.Cypher.QueryReader
import PropertyGraph.Proofs.Cypher.PatternSoundness

/-!
What is read from a text: every MATCH clause has a pattern, and every length fits 32 bits.
-/

namespace PropertyGraph

namespace Cypher

variable {α β : Type} {P : α → Prop} {Q : β → Prop}

/-- Whatever the parser reads is of this kind. -/
def Reads (P : α → Prop) (p : Parser α) : Prop :=
  ∀ source text a rest, (p.run source).run text = .ok (a, rest) → P a

namespace Reads

theorem any (p : Parser α) : Reads (fun _ => True) p := fun _ _ _ _ _ => trivial

theorem pure {a : α} (holds : P a) : Reads P (Pure.pure a : Parser α) := by
  rintro _ _ _ _ ⟨⟩
  exact holds

theorem throw (fault : ParseFault) : Reads P (MonadExcept.throw fault : Parser α) := nofun

theorem bind {p : Parser α} {next : α → Parser β} (first : Reads P p)
    (others : ∀ a, P a → Reads Q (next a)) : Reads Q (p >>= next) := by
  intro source text b rest read
  obtain ⟨⟨a, middle⟩, one, two⟩ := bind_eq_ok.mp read
  exact others a (first source text a middle one) source middle b rest two

theorem then_ {p : Parser α} {next : α → Parser β} (others : ∀ a, Reads Q (next a)) :
    Reads Q (p >>= next) :=
  (any p).bind fun a _ => others a

theorem map {f : α → β} {p : Parser α} (reads : Reads P p) (keeps : ∀ a, P a → Q (f a)) :
    Reads Q (f <$> p) := by
  rw [map_eq_pure_bind]
  exact reads.bind fun a holds => pure (keeps a holds)

theorem repeated {item? : Parser (Option α)} (item : Reads (∀ a ∈ ·, P a) item?) :
    Reads (∀ a ∈ ·, P a) (repeated item?) := by
  have from_ (fuel : Nat) : Reads (∀ a ∈ ·, P a) (repeatedFrom item? fuel) := by
    induction fuel with
    | zero => exact pure nofun
    | succ fuel ih =>
        refine item.bind fun found holds => ?_
        cases found with
        | none => exact pure nofun
        | some first =>
            exact ih.bind fun others all => pure (List.forall_mem_cons.mpr ⟨holds first rfl, all⟩)
  exact then_ fun _ => from_ _

theorem separated {item : Parser α} (reads : Reads P item) :
    Reads (fun items => items ≠ [] ∧ ∀ a ∈ items, P a) (separated item) := by
  have from_ (fuel : Nat) :
      Reads (fun items => items ≠ [] ∧ ∀ a ∈ items, P a) (separatedFrom item fuel) := by
    induction fuel with
    | zero =>
        exact reads.bind fun first holds =>
          pure ⟨List.cons_ne_nil _ _, List.forall_mem_singleton.mpr holds⟩
    | succ fuel ih =>
        refine reads.bind fun first holds => then_ fun more => ?_
        split
        · exact ih.bind fun others all =>
            pure ⟨List.cons_ne_nil _ _, List.forall_mem_cons.mpr ⟨holds, all.2⟩⟩
        · exact pure ⟨List.cons_ne_nil _ _, List.forall_mem_singleton.mpr holds⟩
  exact then_ fun _ => from_ _

theorem keyword {item : Parser α} (word : String) (reads : Reads P item) :
    Reads (∀ a ∈ ·, P a) (keyword? word item) := by
  refine then_ fun here => ?_
  split
  · exact reads.bind fun a holds => pure fun _ same => Option.some.inj same ▸ holds
  · exact pure nofun

end Reads

theorem length_fits : Reads (· < twoTo 32) length := by
  refine .then_ fun _ => .then_ fun text => ?_
  split
  · exact .throw _
  · next fits =>
      simp only [Bool.or_eq_true, not_or, decide_eq_true_eq] at fits
      exact .pure (Nat.lt_of_not_le fits.2)

theorem optionalLength_fits : Reads (∀ n ∈ ·, n < twoTo 32) optionalLength := by
  refine .then_ fun _ => .then_ fun here => ?_
  split
  · exact length_fits.bind fun n fits => .pure fun _ same => Option.some.inj same ▸ fits
  · exact .pure nofun

theorem pathLength_fits : Reads (fun range => ∀ n ∈ range.max, n < twoTo 32) pathLength := by
  refine optionalLength_fits.bind fun least fits => .then_ fun open_ => ?_
  split
  · refine optionalLength_fits.bind fun greatest fits => ?_
    dsimp only
    split
    · exact .throw _
    · exact .pure fits
  · split
    · next n => exact .pure fun _ same => Option.some.inj same ▸ fits n rfl
    · exact .pure nofun

theorem relationshipBody_fits : Reads (fun body => ∀ d, (body d).Fits) relationshipBody := by
  refine .then_ fun name => .then_ fun types => .then_ fun star => ?_
  have complete {length : Option PathLength}
      (fits : ∀ range ∈ length, ∀ n ∈ range.max, n < twoTo 32) :
      Reads (fun body : Undirected => ∀ d, (body d).Fits) (do
        let properties ← properties
        expectChar ']'
        return fun direction => ⟨name, types, properties, direction, length⟩) :=
    .then_ fun _ => .then_ fun _ => .pure fun _ => fits
  split
  · have some_ : Reads (fun length => ∀ range ∈ length, ∀ n ∈ range.max, n < twoTo 32)
        (some <$> pathLength) :=
      pathLength_fits.map fun range fits _ same => Option.some.inj same ▸ fits
    exact some_.bind fun _ fits => complete fits
  · exact complete nofun

theorem relationshipPattern_fits : Reads RelationshipPattern.Fits relationshipPattern := by
  have closed {body : Undirected} (fits : ∀ d, (body d).Fits) (left right : Bool) :
      Reads RelationshipPattern.Fits (do return body (← directionOf left right)) :=
    .then_ fun d => .pure (fits d)
  have ended {body : Undirected} (fits : ∀ d, (body d).Fits) (left : Bool) :
      Reads RelationshipPattern.Fits (do
        let right ← tryMark ['-', '>']
        unless right do expectChar '-'
        return body (← directionOf left right)) := by
    refine .then_ fun right => ?_
    dsimp only
    split
    · exact closed fits left _
    · exact .then_ fun _ => closed fits left _
  have opened (left : Bool) : Reads RelationshipPattern.Fits (do
      let body ← if ← tryChar '[' then relationshipBody
        else pure fun direction => ⟨none, [], [], direction, none⟩
      let right ← tryMark ['-', '>']
      unless right do expectChar '-'
      return body (← directionOf left right)) := by
    refine .then_ fun bracket => ?_
    dsimp only
    split
    · exact relationshipBody_fits.bind fun body fits => ended fits left
    · exact ended (fun _ _ given => by cases given) left
  refine .then_ fun left => ?_
  dsimp only
  split
  · exact opened _
  · exact .then_ fun _ => opened _

theorem pathPattern_fits : Reads PathPattern.Fits pathPattern := by
  have link : Reads (fun found => ∀ link ∈ found, link.1.Fits) chainLink? := by
    refine .then_ fun _ => .then_ fun next => ?_
    split
    · exact relationshipPattern_fits.bind fun r fits => .then_ fun node =>
        .pure fun _ same => Option.some.inj same ▸ fits
    · exact .pure nofun
  exact .then_ fun start => (Reads.repeated link).bind fun chain fits => .pure fits

theorem matchClause?_fits : Reads (∀ m ∈ ·, m.Fits) matchClause? :=
  .keyword "MATCH" ((Reads.separated pathPattern_fits).bind fun _ fits =>
    .then_ fun _ => .pure ⟨fits.1, fits.2⟩)

theorem query_fits : Reads (fun q : Query => ∀ m ∈ q.matches_, m.Fits) query := by
  refine (Reads.repeated matchClause?_fits).bind fun clauses fits => ?_
  refine .then_ fun create => .then_ fun set => .then_ fun delete => .then_ fun return_ => ?_
  dsimp only
  split
  · exact .then_ fun _ => .throw _
  · exact .pure fits

theorem statement_fits : Reads (fun s : Statement => ∀ m ∈ s.query.matches_, m.Fits) statement := by
  refine .then_ fun explain => query_fits.bind fun q fits => .then_ fun _ => .then_ fun _ => ?_
  refine .then_ fun rest => ?_
  dsimp only
  split
  · exact .pure fits
  · exact .then_ fun _ => .then_ fun _ => .throw _

end Cypher

/-- The lengths of the paths of a query that is read fit 32 bits. -/
theorem Statement.parse_fits {text : String} {parameters : Properties} {s : Statement}
    (parsed : Statement.parse text parameters = .ok s) : ∀ m ∈ s.query.matches_, m.Fits := by
  obtain ⟨⟨found, rest⟩, read, same⟩ := bind_eq_ok.mp parsed
  cases same
  exact Cypher.statement_fits _ _ _ rest read

end PropertyGraph
