import PropertyGraph.Cypher.Compiler
import PropertyGraph.Proofs.Cypher.PatternShape
import PropertyGraph.Proofs.Graph.Consistency

/-!
Scripts of clauses in scopes that bind all names but one alike. A clause that does not mention the
name has the same script in both, and the script is within the view that leaves the name out.
-/

namespace PropertyGraph

/-- All names of a path, variables and what its properties refer to. -/
def PathPattern.names (p : PathPattern) : List String :=
  p.start.names ++ p.chain.flatMap fun link => link.1.names ++ link.2.names

def MatchClause.names (m : MatchClause) : List String :=
  m.patterns.flatMap PathPattern.names ++ (m.condition.map Expression.names).getD []

def Query.names (q : Query) : List String :=
  q.matches_.flatMap MatchClause.names ++ q.create.flatMap PathPattern.names
    ++ Cypher.namesSet q.set ++ (q.delete.map DeleteClause.names).getD []
    ++ (q.return_.map ReturnClause.names).getD []

/-- A node of which nothing but the name is said. -/
def NodePattern.named (name : String) : NodePattern := ⟨some name, [], []⟩

/-- Edges of any type. -/
def RelationshipPattern.forward (length : Option PathLength) : RelationshipPattern :=
  ⟨none, [], [], .outgoing, length⟩

def ReturnItem.id (name : String) : ReturnItem :=
  ⟨.call "id" false [.reference name], none, "id(" ++ name ++ ")"⟩

def ReturnClause.ids (names : List String) : ReturnClause :=
  ⟨false, names.map .id, [], none, none⟩

namespace Cypher

open Scripting

variable {x : String} {kind kind' : Option NameKind} {s s' : Scope}

/-- Two scopes that bind all names but one alike, and what each of them binds this one to. -/
structure Scope.SameBut (x : String) (kind kind' : Option NameKind) (s s' : Scope) : Prop where
  bound : ∀ name, name ≠ x →
    Dictionary.get? name s.bindings = Dictionary.get? name s'.bindings
  here : Dictionary.get? x s.bindings = kind
  here' : Dictionary.get? x s'.bindings = kind'
  started : s.started = s'.started
  unnamed : s.unnamed = s'.unnamed

namespace Scope

theorem declared_away (s : Scope) (declaring : NameKind) {name : Option String}
    (away : x ∉ name.toList) :
    Dictionary.get? x (s.declared declaring name).bindings = Dictionary.get? x s.bindings := by
  cases name with
  | none => rfl
  | some name =>
      have other : x ≠ name := fun equal => away (equal ▸ List.mem_singleton_self x)
      rw [Scope.declared, Dictionary.get?_put, if_neg other]

namespace SameBut

theorem refl (s : Scope) (known : Dictionary.get? x s.bindings = kind) :
    s.SameBut x kind kind s := ⟨fun _ _ => rfl, known, known, rfl, rfl⟩

/-- Only one of the scopes declares the name. -/
theorem declares_one (s : Scope) (known : Dictionary.get? x s.bindings = kind)
    (declaring : NameKind) :
    s.SameBut x kind (some declaring) (s.declared declaring (some x)) where
  bound name other := by
    rw [Scope.declared, Dictionary.get?_put, if_neg other]
  here := known
  here' := by
    rw [Scope.declared, Dictionary.get?_put, if_pos rfl]
  started := rfl
  unnamed := rfl

theorem declared (same : s.SameBut x kind kind' s') (declaring : NameKind) {name : Option String}
    (away : x ∉ name.toList) :
    (s.declared declaring name).SameBut x kind kind' (s'.declared declaring name) where
  bound other apart := by
    cases name with
    | none => exact same.bound other apart
    | some name =>
        rw [Scope.declared, Scope.declared, Dictionary.get?_put, Dictionary.get?_put,
          same.bound other apart]
  here := (s.declared_away declaring away).trans same.here
  here' := (s'.declared_away declaring away).trans same.here'
  started := by cases name <;> exact same.started
  unnamed := by cases name <;> exact same.unnamed

theorem starts (same : s.SameBut x kind kind' s') :
    Scope.SameBut x kind kind' { s with started := true } { s' with started := true } :=
  ⟨same.bound, same.here, same.here', rfl, same.unnamed⟩

theorem boundKind (same : s.SameBut x kind kind' s') {name : Option String}
    (away : x ∉ name.toList) : boundKind? s.bindings name = boundKind? s'.bindings name := by
  cases name with
  | none => rfl
  | some name => exact same.bound name fun equal => away (equal ▸ List.mem_singleton_self _)

theorem knows (same : s.SameBut x kind kind' s') {names : List String} (fresh : x ∉ names) :
    ∀ name ∈ names, Knows (View.without x) s.bindings s'.bindings name := by
  intro name member
  have other : name ≠ x := fun equal => fresh (equal ▸ member)
  exact ⟨other, same.bound name other⟩

end SameBut

end Scope

theorem Scope.SameBut.map {ε α β : Type} {P : α → Prop} {Q : β → Prop} {f : α → β}
    {left right : Except ε α} (same : s.SameBut x kind kind' s') (yields : Yields P left right)
    (keeps : ∀ a, P a → Q (f a)) :
    Alike (fun left right => left.1 = right.1 ∧ Q left.1 ∧ left.2.SameBut x kind kind' right.2)
      ((fun a => (f a, s)) <$> left) ((fun a => (f a, s')) <$> right) := by
  rw [map_eq_pure_bind, map_eq_pure_bind]
  refine Alike.bind yields fun a _ related => ?_
  obtain ⟨rfl, holds⟩ := related
  exact .ok ⟨rfl, keeps a holds, same⟩

/-- From scopes that bind all names but one alike, the script is the same, something holds of it,
and the scopes after it are such scopes again. -/
def Ignores {α : Type} (x : String) (P : α → Prop) (m : Scripting α) : Prop :=
  ∀ (kind kind' : Option NameKind) (s s' : Scope), s.SameBut x kind kind' s' →
    Alike (fun left right => left.1 = right.1 ∧ P left.1 ∧ left.2.SameBut x kind kind' right.2)
      (m.run s) (m.run s')

namespace Ignores

variable {α β : Type} {P : α → Prop} {Q : β → Prop} {m : Scripting α}

theorem pure {a : α} (holds : P a) : Ignores x P (Pure.pure a) :=
  fun _ _ _ _ same => .ok ⟨rfl, holds, same⟩

theorem throw (fault : CompileFault) : Ignores x P (MonadExcept.throw fault) :=
  fun _ _ _ _ _ => .error fault

theorem bind {next : α → Scripting β} (first : Ignores x P m)
    (rest : ∀ a, P a → Ignores x Q (next a)) : Ignores x Q (m >>= next) := by
  intro kind kind' s s' same
  rw [StateT.run_bind, StateT.run_bind]
  refine (first kind kind' s s' same).bind fun left right related => ?_
  obtain ⟨a, after⟩ := left
  obtain ⟨a', after'⟩ := right
  obtain ⟨equal, holds, others⟩ := related
  cases (equal : a = a')
  exact rest a holds kind kind' after after' others

theorem map {f : α → β} (first : Ignores x P m) (keeps : ∀ a, P a → Q (f a)) :
    Ignores x Q (f <$> m) := by
  rw [map_eq_pure_bind]
  exact first.bind fun a holds => pure (keeps a holds)

theorem imp {P' : α → Prop} (first : Ignores x P m) (implies : ∀ a, P a → P' a) :
    Ignores x P' m := by
  have mapped := first.map (f := id) implies
  rwa [id_map] at mapped

theorem reading {f : Scope → Except CompileFault α} (run : ∀ s, m.run s = (·, s) <$> f s)
    (yields : ∀ {kind kind'} s s', s.SameBut x kind kind' s' → Yields P (f s) (f s')) :
    Ignores x P m := by
  intro kind kind' s s' same
  rw [run, run]
  exact same.map (yields s s' same) fun _ holds => holds

theorem modify {change : Scope → Scope}
    (keeps : ∀ {kind kind'} s s', s.SameBut x kind kind' s' →
      (change s).SameBut x kind kind' (change s')) :
    Ignores x (fun _ => True) (modify change : Scripting Unit) :=
  fun _ _ s s' same => .ok ⟨rfl, trivial, keeps s s' same⟩

end Ignores

section

variable {node : NodePattern} {r : RelationshipPattern}

theorem named_away {name : Option String} {others : List String}
    (fresh : x ∉ name.toList ++ others) :
    (x ∉ name.toList) ∧ ∀ given ∈ name, (View.without x).labels given := by
  refine ⟨fun member => fresh (List.mem_append_left _ member), fun given same equal => ?_⟩
  subst equal
  exact fresh (List.mem_append_left _ (Option.mem_toList.mpr same))

theorem constraints_yield (same : s.SameBut x kind kind' s') (fresh : x ∉ node.names) :
    Yields (Straight (View.without x) (node.labels.length + node.properties.length))
      (constraintOps s.bindings node) (constraintOps s'.bindings node) :=
  constraintOps_yields (same.knows fun member => fresh (List.mem_append_right _ member))

theorem matchStart_ignores (fresh : x ∉ node.names) :
    Ignores x (HasShape (View.without x) .plain) (matchStart node) := by
  intro kind kind' s s' same
  obtain ⟨away, labels⟩ := named_away fresh
  rw [matchStart_run, matchStart_run, same.boundKind away]
  cases known : boundKind? s'.bindings node.name with
  | none =>
      refine (same.starts.declared _ away).map (constraints_yield same fresh) ?_
      intro constraints straight
      have found := straight.append (labelOps_straight labels)
      have whole : Straight (View.without x) _ (.vertices :: constraints ++ labelOps node.name) :=
        .cons trivial rfl found
      exact .of_straight whole (Nat.succ_ne_zero _)
  | some kind =>
      cases kind with
      | node =>
          have reads : (View.without x).reads (node.name.getD "") := by
            obtain ⟨name, named, _⟩ := Option.bind_eq_some_iff.mp known
            rw [named]
            exact labels name named
          refine same.map (constraints_yield same fresh) fun constraints straight => ?_
          have whole := Straight.cons (Admits.selectOne reads) rfl straight
          exact .of_straight whole (Nat.succ_ne_zero _)
      | _ => exact .error _

/-- The steps of a node, of which a bare one has none. -/
theorem HasShape.of_node {n : Nat} {operations : Ops} (straight : Straight view n operations)
    (count : n = 0 ↔ node.isBare = true) : HasShape view node.shape operations := by
  unfold NodePattern.shape
  by_cases bare : node.isBare = true
  · have none_ : operations = [] :=
      List.length_eq_zero_iff.mp (straight.length.trans (count.mpr bare))
    rw [if_pos bare, none_]
    exact .nil
  · rw [if_neg bare]
    exact .of_straight straight fun zero => bare (count.mp zero)

theorem matchEnd_ignores (fresh : x ∉ node.names) :
    Ignores x (HasShape (View.without x) node.shape) (matchEnd node) := by
  intro kind kind' s s' same
  obtain ⟨away, labels⟩ := named_away fresh
  rw [matchEnd_run, matchEnd_run, same.boundKind away]
  cases known : boundKind? s'.bindings node.name with
  | none =>
      refine (same.declared _ away).map (constraints_yield same fresh) ?_
      intro constraints straight
      have found := straight.append (labelOps_straight labels)
      refine .of_node found ?_
      cases named : node.name <;> simp [NodePattern.isBare, named, and_comm]
  | some kind =>
      cases kind with
      | node =>
          obtain ⟨name, named, _⟩ := Option.bind_eq_some_iff.mp known
          have looks : (View.without x).AdmitsOp (sameAs (node.name.getD "")) := by
            refine ⟨trivial, fun _ other member => ?_, trivial⟩
            cases List.mem_singleton.mp member
            rw [named]
            exact labels name named
          refine same.map (constraints_yield same fresh) fun constraints straight => ?_
          refine .of_node (straight.append (.cons looks rfl .nil)) ?_
          simp [NodePattern.isBare, named]
      | _ => exact .error _

theorem matchRelationship_ignores (fresh : x ∉ r.names) :
    Ignores x (HasShape (View.without x) r.shape) (matchRelationship r) := by
  intro kind kind' s s' same
  obtain ⟨away, labels⟩ := named_away fresh
  have filters {kind kind' : Option NameKind} {s s' : Scope} (same : s.SameBut x kind kind' s') :
      Yields (Straight (View.without x) r.properties.length) (filterOps s.bindings r.properties)
        (filterOps s'.bindings r.properties) :=
    filterOps_yields (same.knows fun member => fresh (List.mem_append_right _ member))
  rw [matchRelationship_run, matchRelationship_run, same.boundKind away]
  unfold RelationshipPattern.shape
  cases boundKind? s'.bindings r.name with
  | some kind => exact .error _
  | none =>
      cases r.length with
      | none =>
          refine (same.declared _ away).map (filters same) fun found straight => ?_
          exact .of_straight (hop_straight labels straight) (Nat.succ_ne_zero _)
      | some range =>
          have declared := same.declared .relationships away
          dsimp only
          by_cases empty : range.max = some 0
          · rw [if_pos empty, if_pos empty, if_pos empty]
            exact .ok ⟨rfl, .nil, declared⟩
          · rw [if_neg empty, if_neg empty, if_neg empty]
            refine declared.map (filters declared) fun found straight => ?_
            exact pathLoop_shape labels trivial straight.admitted range

end

theorem matchChain_ignores {chain : List (RelationshipPattern × NodePattern)}
    (fresh : x ∉ chain.flatMap fun link => link.1.names ++ link.2.names) :
    Ignores x (HasShape (View.without x) (chainShape chain)) (matchChain chain) := by
  induction chain with
  | nil => exact .pure .nil
  | cons link rest ih =>
      obtain ⟨r, node⟩ := link
      simp only [List.flatMap_cons, List.mem_append, not_or] at fresh
      obtain ⟨⟨freshEdge, freshNode⟩, freshRest⟩ := fresh
      refine (matchRelationship_ignores freshEdge).bind fun edge shape => ?_
      refine (matchEnd_ignores freshNode).bind fun vertex shapeNode => ?_
      exact (ih freshRest).bind fun others more =>
        .pure ((shape.append shapeNode).append more)

theorem HasShape.follow {view : View} {shape : Shape} {operations : Ops}
    (found : HasShape view shape operations) (closed : shape.opens false = false) :
    Follow view operations := by
  have opening := found.opens false [] nofun
  rw [closed, List.append_nil] at opening
  exact ⟨found.admitted, opening⟩

theorem matchPath_ignores {p : PathPattern} (fresh : x ∉ p.names) :
    Ignores x (Follow (View.without x)) (matchPath p) := by
  rw [PathPattern.names, List.mem_append, not_or] at fresh
  refine (matchStart_ignores fresh.1).bind fun first shape => ?_
  exact (matchChain_ignores fresh.2).bind fun others more =>
    .pure ((shape.append more).follow rfl)

theorem matchPaths_ignores {paths : List PathPattern}
    (fresh : x ∉ paths.flatMap PathPattern.names) :
    Ignores x (Follow (View.without x)) (matchPaths paths) := by
  induction paths with
  | nil => exact .pure .nil
  | cons p rest ih =>
      rw [List.flatMap_cons, List.mem_append, not_or] at fresh
      refine (matchPath_ignores fresh.1).bind fun path first => ?_
      exact (ih fresh.2).bind fun others more => .pure (first.append more)

theorem condition_ignores {e : Expression} (fresh : x ∉ e.names) :
    Ignores x (Follow (View.without x))
      (do return [.nested .where_ [← conditionScript (← get).bindings e]] : Scripting Ops) := by
  have run (s : Scope) :
      (do return [.nested .where_ [← conditionScript (← get).bindings e]] : Scripting Ops).run s =
        (·, s) <$> (fun script => [.nested .where_ [script]]) <$>
          conditionScript s.bindings e := by
    simp
  refine .reading run fun s s' same => (conditionScript_yields (same.knows fresh)).map ?_
  intro script inside
  refine .cons (View.admitsOp_nested trivial fun _ member => ?_) rfl trivial
  exact List.mem_singleton.mp member ▸ inside

theorem matchClause_ignores {m : MatchClause} (fresh : x ∉ m.names) :
    Ignores x (Follow (View.without x)) (matchClause m) := by
  rw [MatchClause.names, List.mem_append, not_or] at fresh
  unfold matchClause
  refine (matchPaths_ignores fresh.1).bind fun paths first => ?_
  cases given : m.condition with
  | none => exact .pure first
  | some e =>
      rw [given] at fresh
      have filtered := (condition_ignores fresh.2).map fun _ follow => first.append follow
      simpa using filtered

theorem matchClauses_ignores {clauses : List MatchClause}
    (fresh : x ∉ clauses.flatMap MatchClause.names) :
    Ignores x (Follow (View.without x)) (matchClauses clauses) := by
  induction clauses with
  | nil => exact .pure .nil
  | cons m rest ih =>
      rw [List.flatMap_cons, List.mem_append, not_or] at fresh
      refine (matchClause_ignores fresh.1).bind fun clause first => ?_
      exact (ih fresh.2).bind fun others more => .pure (first.append more)

theorem isBound_ignores {name : Option String} (away : x ∉ name.toList) :
    Ignores x (fun known => known = true → ∃ given, name = some given ∧ given ≠ x)
      (isBound name) := by
  intro kind kind' s s' same
  rw [isBound_run, isBound_run, same.boundKind away]
  refine .ok ⟨rfl, fun known => ?_, same⟩
  cases name with
  | none => cases known
  | some given => exact ⟨given, rfl, fun equal => away (equal ▸ List.mem_singleton_self given)⟩

theorem expectNode_ignores {name : String} (away : name ≠ x) :
    Ignores x (fun _ => True) (expectNode name) := by
  intro kind kind' s s' same
  rw [expectNode_run, expectNode_run, same.bound name away]
  split
  · exact .error _
  · exact .ok ⟨rfl, trivial, same⟩
  · exact .error _

theorem declares_ignored {name : Option String} (away : x ∉ name.toList) (kind : NameKind) :
    Ignores x (fun _ => True) (name.forM (declare kind)) := by
  cases name with
  | none => exact .pure trivial
  | some name => exact .modify fun _ _ same => same.declared kind away

theorem bind_ignores {name : Option String} (kind : NameKind) (away : x ∉ name.toList) :
    Ignores x (Follow (View.without x)) (bind? name kind) := by
  refine (declares_ignored away kind).bind fun _ _ => .pure (labelOps_straight ?_).follow
  intro given same equal
  exact away (Option.mem_toList.mpr (equal ▸ same))

theorem newProperties_ignores (single : Bool) {properties : List (String × Expression)}
    (fresh : x ∉ Expression.namesOfEntries properties) :
    Ignores x (Follow (View.without x)) (newProperties single properties) := by
  induction properties with
  | nil => exact .pure .nil
  | cons entry rest ih =>
      obtain ⟨key, e⟩ := entry
      rw [Expression.namesOfEntries, List.mem_append, not_or] at fresh
      have written {value : Slot Script} (inside : (View.without x).AdmitsSlot .property value) :
          Follow (View.without x) [writeOps single key value] := by
        refine .cons (writeOps_admitted single key inside) ?_ trivial
        cases single <;> rfl
      have computed : Ignores x (View.without x).AdmitsScript (value e) :=
        .reading (fun _ => by simp [value]) fun _ _ same =>
          valueScript_yields (same.knows fresh.1)
      have followed {op : Ops} (first : Follow (View.without x) op) :
          Ignores x (Follow (View.without x))
            (do return op ++ (← newProperties single rest) : Scripting Ops) :=
        (ih fresh.2).bind fun others more => .pure (first.append more)
      unfold newProperties
      cases e.literal? with
      | some v =>
          have op : Follow (View.without x)
              (if v.isNull then [] else [writeOps single key (.literal v)]) := by
            split
            · exact .nil
            · exact written (literal_admitted v)
          exact followed op
      | none => exact computed.bind fun script inside => followed (written inside)

theorem newLabel_ignores {name : Option String} (away : x ∉ name.toList)
    (reserved : ∀ n, x ≠ unnamedLabel n) : Ignores x (· ≠ x) (newLabel name) := by
  cases name with
  | some name => exact .pure fun equal => away (equal ▸ List.mem_singleton_self name)
  | none =>
      intro kind kind' s s' same
      have counted : Scope.SameBut x kind kind' { s with unnamed := s.unnamed + 1 }
          { s' with unnamed := s'.unnamed + 1 } :=
        ⟨same.bound, same.here, same.here', same.started, congrArg (· + 1) same.unnamed⟩
      refine .ok ⟨?_, fun equal => reserved _ equal.symm, counted⟩
      exact congrArg (fun n => unnamedLabel (n + 1)) same.unnamed

theorem start_ignored : Ignores x (fun _ => True) Scripting.start :=
  .modify fun _ _ same => same.starts

/-- A label that is created, and what creates it. -/
def Creates (x : String) (created : String × Ops) : Prop :=
  created.1 ≠ x ∧ Follow (View.without x) created.2

theorem createNode_ignores {node : NodePattern} (fresh : x ∉ node.names)
    (reserved : ∀ n, x ≠ unnamedLabel n) : Ignores x (Creates x) (createNode node) := by
  obtain ⟨away, labels⟩ := named_away fresh
  have created {add : Op Script} {properties : Ops} {label : String}
      (adds : (View.without x).AdmitsOp add ∧ add.stands = true)
      (inside : Follow (View.without x) properties) (other : label ≠ x) :
      Creates x (label, add :: properties ++ [.labelled .as_ [label]]) := by
    have labelled : (View.without x).AdmitsOps [.labelled .as_ [label]] :=
      ⟨⟨trivial, ⟨nofun, fun _ => other⟩, trivial⟩, trivial⟩
    exact ⟨other, .cons adds.1 adds.2 (View.admitsOps_append.mpr ⟨inside.1, labelled⟩)⟩
  have adding : Ignores x (fun op => (View.without x).AdmitsOp op ∧ op.stands = true)
      (liftM (addVertexOp node.labels) : Scripting (Op Script)) := by
    refine .reading (fun s => rfl) fun s s' same => .of_eq rfl fun op made => ?_
    unfold addVertexOp at made
    split at made <;> cases made
    · exact ⟨trivial, rfl⟩
    · exact ⟨trivial, rfl⟩
  unfold createNode
  refine (isBound_ignores away).bind fun bound known => ?_
  split
  · next already =>
      obtain ⟨given, named, other⟩ := known already
      rw [named]
      dsimp only [Option.getD_some]
      split
      · exact (expectNode_ignores other).bind fun _ _ => .pure ⟨other, .nil⟩
      · exact .throw _
  · refine adding.bind fun add adds => start_ignored.bind fun _ _ => ?_
    have properties := newProperties_ignores true fun member =>
      fresh (List.mem_append_right _ member)
    refine properties.bind fun written inside => ?_
    refine (newLabel_ignores away reserved).bind fun label other => ?_
    exact (declares_ignored away .node).bind fun _ _ => .pure (created adds inside other)

theorem createNodes_ignores {nodes : List NodePattern}
    (fresh : x ∉ nodes.flatMap NodePattern.names) (reserved : ∀ n, x ≠ unnamedLabel n) :
    Ignores x (fun created => x ∉ created.1 ∧ Follow (View.without x) created.2)
      (createNodes nodes) := by
  induction nodes with
  | nil => exact .pure ⟨List.not_mem_nil, .nil⟩
  | cons node rest ih =>
      rw [List.flatMap_cons, List.mem_append, not_or] at fresh
      refine (createNode_ignores fresh.1 reserved).bind fun one first => ?_
      refine (ih fresh.2).bind fun several more => .pure ⟨?_, first.2.append more.2⟩
      exact List.not_mem_cons_of_ne_of_not_mem first.1.symm more.1

theorem directed_ignores {left right : String} {r : RelationshipPattern} (fresh : x ∉ r.names)
    (source : left ≠ x) (target : right ≠ x) :
    Ignores x (Follow (View.without x))
      (match r.types, r.length with
      | [label], none => do
          if ← isBound r.name then throw (.declared (r.name.getD ""))
          let properties ← newProperties false r.properties
          let bound ← bind? r.name .relationship
          return [.labelled .addE [label], .labelled .from_ [left], .labelled .to_ [right]]
            ++ properties ++ bound
      | _, _ => throw .createWithoutType : Scripting Ops) := by
  rw [RelationshipPattern.names, List.mem_append, not_or] at fresh
  obtain ⟨away, freshProperties⟩ := fresh
  have ends (kind : StepKind) (inner : kind.isEntry = false) (plain : kind ≠ .as_)
      (suits : (View.without x).AdmitsKind kind) {label : String} (other : label ≠ x) :
      (View.without x).AdmitsOp (.labelled kind [label] inner) :=
    View.admitsOp_labelled suits fun given member =>
      List.mem_singleton.mp member ▸ ⟨fun _ => other, fun same => absurd same plain⟩
  have added {properties bound : Ops} {label : String} (inside : Follow (View.without x) properties)
      (named : Follow (View.without x) bound) :
      Follow (View.without x) ([.labelled .addE [label], .labelled .from_ [left],
        .labelled .to_ [right]] ++ properties ++ bound) := by
    refine .append (.append (.cons (View.admitsOp_blind rfl _) rfl ?_) inside) named
    exact ⟨ends .from_ rfl (by decide) trivial source, ends .to_ rfl (by decide) trivial target,
      trivial⟩
  split
  · refine (isBound_ignores away).bind fun bound _ => ?_
    split
    · exact .throw _
    · refine (newProperties_ignores false freshProperties).bind fun properties inside => ?_
      exact (bind_ignores .relationship away).bind fun bound named => .pure (added inside named)
  · exact .throw _

theorem createRelationship_ignores {left right : String} {r : RelationshipPattern}
    (fresh : x ∉ r.names) (source : left ≠ x) (target : right ≠ x) :
    Ignores x (Follow (View.without x)) (createRelationship left right r) := by
  unfold createRelationship
  cases r.direction with
  | outgoing => exact directed_ignores fresh source target
  | incoming => exact directed_ignores fresh target source
  | both => exact .throw _

theorem createChain_ignores {labels : List String}
    {chain : List (RelationshipPattern × NodePattern)} (others : x ∉ labels)
    (fresh : x ∉ chain.flatMap fun link => link.1.names ++ link.2.names) :
    Ignores x (Follow (View.without x)) (createChain labels chain) := by
  fun_induction createChain labels chain with
  | case1 left right labels r node rest ih =>
      simp only [List.flatMap_cons, List.mem_append, List.mem_cons, not_or] at fresh others
      refine (createRelationship_ignores fresh.1.1 (Ne.symm others.1) (Ne.symm others.2.1)).bind ?_
      intro ops first
      have rest := ih (by simp [others.2]) fresh.2
      exact rest.bind fun _ more => .pure (first.append more)
  | case2 => exact .pure .nil

/-- Paths whose relationships are to be created between labels other than the name. -/
def Joins (x : String) (paths : List (List String × PathPattern)) : Prop :=
  ∀ path ∈ paths, x ∉ path.1 ∧ x ∉ path.2.names

theorem createPathNodes_ignores {paths : List PathPattern}
    (fresh : x ∉ paths.flatMap PathPattern.names) (reserved : ∀ n, x ≠ unnamedLabel n) :
    Ignores x (fun created => Joins x created.1 ∧ Follow (View.without x) created.2)
      (createPathNodes paths) := by
  induction paths with
  | nil => exact .pure ⟨nofun, .nil⟩
  | cons p rest ih =>
      rw [List.flatMap_cons, List.mem_append, not_or] at fresh
      have nodes : x ∉ (p.start :: p.chain.map (·.2)).flatMap NodePattern.names := by
        have own := fresh.1
        simp only [PathPattern.names, List.mem_append, List.mem_flatMap, not_or] at own
        rw [List.flatMap_cons, List.mem_append, not_or, List.flatMap_map, List.mem_flatMap]
        refine ⟨own.1, fun ⟨link, member, mentioned⟩ => own.2 ⟨link, member, .inr mentioned⟩⟩
      refine (createNodes_ignores nodes reserved).bind fun created first => ?_
      refine (ih fresh.2).bind fun others more => .pure ⟨?_, first.2.append more.2⟩
      exact List.forall_mem_cons.mpr ⟨⟨first.1, fresh.1⟩, more.1⟩

theorem createPathEdges_ignores {paths : List (List String × PathPattern)}
    (joins : Joins x paths) : Ignores x (Follow (View.without x)) (createPathEdges paths) := by
  induction paths with
  | nil => exact .pure .nil
  | cons path rest ih =>
      obtain ⟨labels, p⟩ := path
      obtain ⟨⟨others, fresh⟩, joinsRest⟩ := List.forall_mem_cons.mp joins
      rw [PathPattern.names, List.mem_append, not_or] at fresh
      refine (createChain_ignores others fresh.2).bind fun ops first => ?_
      exact (ih joinsRest).bind fun _ more => .pure (first.append more)

theorem createPaths_ignores {paths : List PathPattern}
    (fresh : x ∉ paths.flatMap PathPattern.names) (reserved : ∀ n, x ≠ unnamedLabel n) :
    Ignores x (Follow (View.without x)) (createPaths paths) := by
  refine (createPathNodes_ignores fresh reserved).bind fun created first => ?_
  exact (createPathEdges_ignores first.1).bind fun _ more => .pure (first.2.append more)

theorem startOps_run (s : Scope) : startOps.run s =
    if s.started then .ok ([], s)
    else .ok ([.append .inject [.literal (.string startText)]], { s with started := true }) := by
  obtain ⟨b, started, unnamed⟩ := s
  cases started <;> rfl

theorem inject_follows {view : View} :
    Follow view [.append .inject [.literal (.string startText)]] :=
  .cons (View.admitsOp_flat rfl (by simp [Slot.literal])) rfl trivial

theorem startOps_ignore : Ignores x (Follow (View.without x)) startOps := by
  intro kind kind' s s' same
  rw [startOps_run, startOps_run, ← same.started]
  split
  · exact .ok ⟨rfl, .nil, same⟩
  · exact .ok ⟨rfl, inject_follows, same.starts⟩

/-- What follows the patterns of a query: changes of what they found, and rows. -/
def closingOps (b : Bindings) (q : Query) : Except CompileFault Ops := do
  let set ← setAll b q.set
  let deleted ← (q.delete.map (deleteOps b)).getD (.ok [])
  let returned ← (q.return_.map (returnOps b)).getD (.ok [.append .barrier [], .limit 0])
  return set ++ (deleted ++ returned)

def closing (q : Query) : Scripting Ops := do closingOps (← get).bindings q

theorem closing_run (q : Query) (s : Scope) :
    (closing q).run s = (·, s) <$> closingOps s.bindings q := by
  simp [closing]

/-- The script of a query behind its MATCH clauses. -/
def laterOps (q : Query) : Scripting Ops := do
  let created ← createPaths q.create
  let started ← startOps
  return created ++ (started ++ (← closing q))

theorem queryOps_eq (q : Query) : queryOps q = do
    let found ← matchClauses q.matches_
    return found ++ (← laterOps q) := by
  simp [queryOps, laterOps, closing, closingOps]

theorem closingOps_yields {view : View} {b b' : Bindings} {q : Query}
    (set : ∀ name ∈ namesSet q.set, Knows view b b' name)
    (delete : ∀ name ∈ (q.delete.map DeleteClause.names).getD [], Knows view b b' name)
    (return_ : ∀ name ∈ (q.return_.map ReturnClause.names).getD [], Knows view b b' name) :
    Yields (Follow view) (closingOps b q) (closingOps b' q) := by
  have deletes : Yields (Follow view) ((q.delete.map (deleteOps b)).getD (.ok []))
      ((q.delete.map (deleteOps b')).getD (.ok [])) := by
    cases given : q.delete with
    | none => exact .ok .nil
    | some d =>
        rw [given] at delete
        exact deleteOps_yield delete
  have returns : Yields (Follow view)
      ((q.return_.map (returnOps b)).getD (.ok [.append .barrier [], .limit 0]))
      ((q.return_.map (returnOps b')).getD (.ok [.append .barrier [], .limit 0])) := by
    cases given : q.return_ with
    | none => exact .ok (.cons (View.admitsOp_bare rfl) rfl ⟨View.admitsOp_limit _, trivial⟩)
    | some r =>
        rw [given] at return_
        exact returnOps_yield (.of_names return_)
  refine (setAll_yields set).bind fun _ first => deletes.bind fun _ second => ?_
  exact returns.bind fun _ third => .ok (first.append (second.append third))

theorem laterOps_ignore {q : Query} (fresh : x ∉ q.names) (reserved : ∀ n, x ≠ unnamedLabel n) :
    Ignores x (Follow (View.without x)) (laterOps q) := by
  simp only [Query.names, List.mem_append, not_or] at fresh
  obtain ⟨⟨⟨⟨_, create⟩, set⟩, delete⟩, return_⟩ := fresh
  have closing : Ignores x (Follow (View.without x)) (closing q) :=
    .reading (closing_run q) fun s s' same =>
      closingOps_yields (same.knows set) (same.knows delete) (same.knows return_)
  refine (createPaths_ignores create reserved).bind fun created first => ?_
  refine startOps_ignore.bind fun started second => ?_
  exact closing.bind fun _ third => .pure (first.append (second.append third))

end Cypher

end PropertyGraph
