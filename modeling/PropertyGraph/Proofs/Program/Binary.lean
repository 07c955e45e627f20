import Mathlib.Algebra.Group.Nat.Defs
import PropertyGraph.Program.Binary
import PropertyGraph.Proofs.Cypher.Rows
import PropertyGraph.Proofs.Program.Contents

/-!
The binary form of a program reads back, whatever follows it, and no shorter input is a program.

`Reads` says that a decoder takes given bytes off the front of any input; it composes along the
binds of a decoder. `Extends` compares what two decoders make of an input and of a longer one, which
is why an input that lacks its end is refused: what was read from it would be read from the whole
one as well, and leave the rest.
-/

namespace PropertyGraph.Binary

/-! ### Taking bytes off the front -/

/-- A decoder that takes these bytes, whatever follows, for this. -/
def Reads {α : Type} (d : Decoder α) (bytes : List Byte) (a : α) : Prop :=
  ∀ rest, d.run (bytes ++ rest) = some (a, rest)

namespace Reads

variable {α β : Type} {d : Decoder α} {bytes more : List Byte} {a : α}

theorem pure (a : α) : Reads (pure a) [] a := fun _ => rfl

theorem bind {next : α → Decoder β} {b : β} (first : Reads d bytes a)
    (later : Reads (next a) more b) : Reads (d >>= next) (bytes ++ more) b := by
  intro rest
  rw [StateT.run_bind, List.append_assoc, first]
  exact later rest

theorem map (f : α → β) (first : Reads d bytes a) : Reads (f <$> d) bytes (f a) := by
  intro rest
  rw [StateT.run_map, first]
  rfl

theorem last {next : α → Decoder β} {b : β} (first : Reads d bytes a)
    (later : Reads (next a) [] b) : Reads (d >>= next) bytes b := by
  simpa using first.bind later

end Reads

theorem takeBytes_reads (bytes : List Byte) : Reads (takeBytes bytes.length) bytes bytes := by
  intro rest
  simp [takeBytes, StateT.run]

@[simp]
theorem littleEndian_length (width n : Nat) : (littleEndian width n).length = width := by
  induction width generalizing n with
  | zero => rfl
  | succ width ih => rw [littleEndian, List.length_cons, ih]

theorem ofLittleEndian_littleEndian (width n : Nat) :
    ofLittleEndian (littleEndian width n) = n % 256 ^ width := by
  induction width generalizing n with
  | zero => simp [littleEndian, ofLittleEndian, Nat.mod_one]
  | succ width ih =>
      rw [littleEndian, ofLittleEndian, ih, Nat.pow_succ', Nat.mod_mul]
      simp

theorem decodeNat_reads {width n : Nat} (fits : n < 256 ^ width) :
    Reads (decodeNat width) (littleEndian width n) n := by
  have taken : Reads (takeBytes width) (littleEndian width n) (littleEndian width n) := by
    simpa using takeBytes_reads (littleEndian width n)
  have value := taken.map ofLittleEndian
  rwa [ofLittleEndian_littleEndian, Nat.mod_eq_of_lt fits] at value

theorem length_reads {n : Nat} (fits : n < twoTo 64) :
    Reads (decodeNat 8) (encodeLength n) n :=
  decodeNat_reads (by simpa using fits)

/-- A variant number is taken first, and what it stands for then. -/
theorem variant_reads {α : Type} {number : Nat} {next : Nat → Decoder α} {bytes : List Byte} {a : α}
    (fits : number < 256 ^ 4) (later : Reads (next number) bytes a) :
    Reads (decodeNat 4 >>= next) (encodeVariant number ++ bytes) a :=
  (decodeNat_reads fits).bind later

theorem bool_reads (b : Bool) : Reads decodeBool (encodeBool b) b := by
  have byte : Reads (decodeNat 1) (encodeBool b) b.toNat := by
    have number : Reads (decodeNat 1) (littleEndian 1 b.toNat) b.toNat :=
      decodeNat_reads (by cases b <;> decide)
    cases b <;> exact number
  refine byte.last ?_
  cases b <;> exact .pure _

theorem int64_reads (i : Int64) : Reads decodeInt64 (encodeInt64 i) i := by
  refine (decodeNat_reads i.toUInt64.toNat_lt).last ?_
  rw [UInt64.ofNat_toNat, Int64.toInt64_toUInt64]
  exact .pure i

theorem float_reads (x : Binary64) : Reads decodeFloat (encodeFloat x) x := by
  refine (decodeNat_reads x.bits.toNat_lt).last ?_
  rw [UInt64.ofNat_toNat]
  exact .pure x

theorem member_reads {α : Type} [Family α] [DecidableEq α] [LawfulFamily α] (a : α) :
    Reads (decodeMember α) (encodeMember a) a := by
  refine (decodeNat_reads (Family.number_lt a)).last ?_
  rw [Family.ofNumber?_number]
  exact .pure a

theorem string_reads {s : String} (fits : s.utf8ByteSize < twoTo 64) :
    Reads decodeString (encodeString s) s := by
  have size : s.toUTF8.data.toList.length = s.utf8ByteSize := String.size_toByteArray
  refine (length_reads (size ▸ fits)).bind ((takeBytes_reads _).last ?_)
  have whole : String.fromUTF8? ⟨s.toUTF8.data.toList.toArray⟩ = some s :=
    dif_pos s.isValidUTF8
  rw [whole]
  exact .pure s

section

variable {α : Type} {item : Decoder α} {bytes more : List Byte} {a : α} {items : List α}

theorem many_cons (first : Reads item bytes a)
    (others : Reads (decodeMany item items.length) more items) :
    Reads (decodeMany item (a :: items).length) (bytes ++ more) (a :: items) :=
  first.bind (others.last (.pure _))

theorem list_reads (fits : items.length < twoTo 64)
    (many : Reads (decodeMany item items.length) bytes items) :
    Reads (decodeList item) (encodeLength items.length ++ bytes) items :=
  (length_reads fits).bind many

end

/-! ### Values -/

theorem vertexId_reads {id : VertexId} (fits : id.toNat < twoTo 64) :
    Reads decodeVertexId (encodeVertexId id) id :=
  (length_reads fits).map VertexId.mk

theorem edgeId_reads {id : EdgeId} (fits : id.toNat < twoTo 64) :
    Reads decodeEdgeId (encodeEdgeId id) id :=
  (length_reads fits).map EdgeId.mk

theorem vertexRef_reads {v : VertexRef} (fits : ∀ c ∈ v.contents, c.fitsBinary = true) :
    Reads decodeVertexRef (encodeVertexRef v) v := by
  simp only [VertexRef.contents, List.forall_mem_cons, Content.fitsBinary,
    decide_eq_true_eq] at fits
  exact (vertexId_reads fits.1).bind ((string_reads fits.2.1).last (.pure _))

theorem edgeRef_reads {e : EdgeRef} (fits : ∀ c ∈ e.contents, c.fitsBinary = true) :
    Reads decodeEdgeRef (encodeEdgeRef e) e := by
  simp only [EdgeRef.contents, List.forall_mem_cons, Content.fitsBinary,
    decide_eq_true_eq] at fits
  obtain ⟨id, label, source, target, -⟩ := fits
  simp only [encodeEdgeRef, List.append_assoc]
  exact (edgeId_reads id).bind ((string_reads label).bind
    ((vertexId_reads source).bind ((vertexId_reads target).last (.pure _))))

theorem owner_reads {o : Owner} (fits : ∀ c ∈ o.contents, c.fitsBinary = true) :
    Reads decodeOwner (encodeOwner o) o := by
  cases o with
  | vertex id =>
      exact variant_reads (by decide)
        ((vertexId_reads (by simpa [Owner.contents, Content.fitsBinary] using fits)).map Owner.vertex)
  | edge id =>
      exact variant_reads (by decide)
        ((edgeId_reads (by simpa [Owner.contents, Content.fitsBinary] using fits)).map Owner.edge)

@[simp]
theorem encodeVariant_length (n : Nat) : (encodeVariant n).length = 4 := littleEndian_length 4 n

mutual

/-- The bytes of a value are also enough fuel for it. -/
theorem value_reads : (v : Value) → (∀ c ∈ v.contents, c.fitsBinary = true) → ∀ {fuel : Nat},
    (encodeValue v).length ≤ fuel → Reads (decodeValue fuel) (encodeValue v) v
  | v, _, 0, enough => by cases v <;> simp [encodeValue] at enough
  | .null, _, _ + 1, _ => (decodeNat_reads (by decide)).last (.pure _)
  | .bool b, _, _ + 1, _ => variant_reads (by decide) ((bool_reads b).map Value.bool)
  | .int i, _, _ + 1, _ => variant_reads (by decide) ((int64_reads i).map Value.int)
  | .float x, _, _ + 1, _ => variant_reads (by decide) ((float_reads x).map Value.float)
  | .string s, fits, _ + 1, _ => by
      have short : s.utf8ByteSize < twoTo 64 :=
        of_decide_eq_true (fits (.text s) (List.mem_singleton_self _))
      exact variant_reads (by decide) ((string_reads short).map Value.string)
  | .list items, fits, fuel + 1, enough => by
      obtain ⟨count, inside⟩ := List.forall_mem_cons.mp fits
      simp only [encodeValue, List.append_assoc, List.length_append, encodeVariant_length]
        at enough ⊢
      exact variant_reads (by decide) ((list_reads (of_decide_eq_true count)
        (items_read items inside (by omega))).map Value.list)
  | .map entries, fits, fuel + 1, enough => by
      obtain ⟨count, fits⟩ := List.forall_mem_cons.mp fits
      obtain ⟨distinct, inside⟩ := List.forall_mem_cons.mp fits
      simp only [encodeValue, List.append_assoc, List.length_append, encodeVariant_length]
        at enough ⊢
      refine variant_reads (by decide) ((list_reads (of_decide_eq_true count)
        (entries_read entries inside (by omega))).last ?_)
      rw [Dictionary.ofEntries_distinct (of_decide_eq_true distinct)]
      exact .pure _
  | .vertex v, fits, _ + 1, _ => variant_reads (by decide) ((vertexRef_reads fits).map Value.vertex)
  | .edge e, fits, _ + 1, _ => variant_reads (by decide) ((edgeRef_reads fits).map Value.edge)
  | .property owner key value, fits, fuel + 1, enough => by
      obtain ⟨ownerFits, fits⟩ := List.forall_mem_append.mp fits
      obtain ⟨keyFits, inside⟩ := List.forall_mem_cons.mp fits
      simp only [encodeValue, List.append_assoc, List.length_append, encodeVariant_length]
        at enough ⊢
      exact variant_reads (by decide) ((owner_reads ownerFits).bind
        ((string_reads (of_decide_eq_true keyFits)).bind
          ((value_reads value inside (by omega)).last (.pure _))))
termination_by structural v => v

theorem items_read : (items : List Value) →
    (∀ c ∈ Value.itemContents items, c.fitsBinary = true) → ∀ {fuel : Nat},
    (encodeItems items).length ≤ fuel →
      Reads (decodeMany (decodeValue fuel) items.length) (encodeItems items) items
  | [], _, _, _ => .pure []
  | item :: rest, fits, fuel, enough => by
      obtain ⟨first, others⟩ := List.forall_mem_append.mp fits
      rw [encodeItems, List.length_append] at enough
      exact many_cons (value_reads item first (by omega)) (items_read rest others (by omega))
termination_by structural items => items

theorem entries_read : (entries : List (Value × Value)) →
    (∀ c ∈ Value.entriesContents entries, c.fitsBinary = true) → ∀ {fuel : Nat},
    (encodeEntries entries).length ≤ fuel →
      Reads
        (decodeMany (do
          let key ← decodeValue fuel
          let value ← decodeValue fuel
          pure (key, value)) entries.length)
        (encodeEntries entries) entries
  | [], _, _, _ => .pure []
  | entry :: rest, fits, fuel, enough => by
      obtain ⟨first, others⟩ := List.forall_mem_append.mp fits
      rw [encodeEntries, List.length_append] at enough
      exact many_cons (entry_reads entry first (by omega)) (entries_read rest others (by omega))
termination_by structural entries => entries

theorem entry_reads : (entry : Value × Value) →
    (∀ c ∈ Value.entryContents entry, c.fitsBinary = true) → ∀ {fuel : Nat},
    (encodeEntry entry).length ≤ fuel →
      Reads
        (do
          let key ← decodeValue fuel
          let value ← decodeValue fuel
          pure (key, value))
        (encodeEntry entry) entry
  | (key, value), fits, fuel, enough => by
      obtain ⟨first, second⟩ := List.forall_mem_append.mp fits
      rw [encodeEntry, List.length_append] at enough
      exact (value_reads key first (by omega)).bind
        ((value_reads value second (by omega)).last (.pure _))
termination_by structural entry => entry

end

/-! ### Predicates -/

theorem values_read {vs : List Value} {fuel : Nat} (count : vs.length < twoTo 64)
    (inside : ∀ c ∈ Value.itemContents vs, c.fitsBinary = true)
    (enough : (encodeValues vs).length ≤ fuel) :
    Reads (decodeList (decodeValue fuel)) (encodeValues vs) vs := by
  rw [encodeValues, List.length_append] at enough
  exact list_reads count (items_read vs inside (by omega))

theorem predicate_reads (p : Predicate) (fits : ∀ c ∈ p.contents, c.fitsBinary = true) {fuel : Nat}
    (enough : (encodePredicate p).length ≤ fuel) :
    Reads (decodePredicate fuel) (encodePredicate p) p := by
  induction p generalizing fuel with
  | eq v | neq v | lt v | lte v | gt v | gte v =>
      obtain _ | fuel := fuel
      · simp [encodePredicate] at enough
      rw [encodePredicate, List.length_append, encodeVariant_length] at enough
      exact variant_reads (by decide) ((value_reads v fits (by omega)).map _)
  | within vs | without vs =>
      obtain _ | fuel := fuel
      · simp [encodePredicate] at enough
      rw [encodePredicate, List.length_append, encodeVariant_length] at enough
      obtain ⟨count, inside⟩ := List.forall_mem_cons.mp fits
      exact variant_reads (by decide)
        ((values_read (of_decide_eq_true count) inside (by omega)).map _)
  | between low high =>
      obtain _ | fuel := fuel
      · simp [encodePredicate] at enough
      obtain ⟨first, second⟩ := List.forall_mem_append.mp fits
      simp only [encodePredicate, List.append_assoc, List.length_append, encodeVariant_length]
        at enough ⊢
      exact variant_reads (by decide) ((value_reads low first (by omega)).bind
        ((value_reads high second (by omega)).last (.pure _)))
  | startingWith s | endingWith s | containing s =>
      obtain _ | fuel := fuel
      · simp [encodePredicate] at enough
      have short : s.utf8ByteSize < twoTo 64 :=
        of_decide_eq_true (fits (.text s) (List.mem_singleton_self _))
      exact variant_reads (by decide) ((string_reads short).map _)
  | and a b ihA ihB | or a b ihA ihB =>
      obtain _ | fuel := fuel
      · simp [encodePredicate] at enough
      obtain ⟨first, second⟩ := List.forall_mem_append.mp fits
      simp only [encodePredicate, List.append_assoc, List.length_append, encodeVariant_length]
        at enough ⊢
      exact variant_reads (by decide)
        ((ihA first (by omega)).bind ((ihB second (by omega)).last (.pure _)))
  | not a ih =>
      obtain _ | fuel := fuel
      · simp [encodePredicate] at enough
      rw [encodePredicate, List.length_append, encodeVariant_length] at enough
      exact variant_reads (by decide) ((ih fits (by omega)).map _)

/-! ### Programs -/

mutual

theorem argument_reads : (a : Argument) → (∀ c ∈ a.contents, c.fitsBinary = true) → ∀ {fuel : Nat},
    (encodeArgument a).length ≤ fuel → Reads (decodeArgument fuel) (encodeArgument a) a
  | a, _, 0, enough => by cases a <;> simp [encodeArgument] at enough
  | .literal v, fits, fuel + 1, enough => by
      rw [encodeArgument, List.length_append, encodeVariant_length] at enough
      exact variant_reads (by decide) ((value_reads v fits (by omega)).map Argument.literal)
  | .predicate p, fits, fuel + 1, enough => by
      rw [encodeArgument, List.length_append, encodeVariant_length] at enough
      exact variant_reads (by decide) ((predicate_reads p fits (by omega)).map Argument.predicate)
  | .program steps, fits, fuel + 1, enough => by
      obtain ⟨count, inside⟩ := List.forall_mem_cons.mp fits
      simp only [encodeArgument, List.append_assoc, List.length_append, encodeVariant_length]
        at enough ⊢
      exact variant_reads (by decide) ((list_reads (of_decide_eq_true count)
        (steps_read steps inside (by omega))).map Argument.program)
  | .label s, fits, _ + 1, _ => by
      have short : s.utf8ByteSize < twoTo 64 :=
        of_decide_eq_true (fits (.text s) (List.mem_singleton_self _))
      exact variant_reads (by decide) ((string_reads short).map Argument.label)
  | .scope s, _, _ + 1, _ => variant_reads (by decide) ((member_reads s).map Argument.scope)
  | .order o, _, _ + 1, _ => variant_reads (by decide) ((member_reads o).map Argument.order)
  | .pop p, _, _ + 1, _ => variant_reads (by decide) ((member_reads p).map Argument.pop)
  | .column c, _, _ + 1, _ => variant_reads (by decide) ((member_reads c).map Argument.column)
  | .cardinality c, _, _ + 1, _ =>
      variant_reads (by decide) ((member_reads c).map Argument.cardinality)
  | .token t, _, _ + 1, _ => variant_reads (by decide) ((member_reads t).map Argument.token)
  | .function f, _, _ + 1, _ => variant_reads (by decide) ((member_reads f).map Argument.function)
termination_by structural a => a

theorem arguments_read : (arguments : List Argument) →
    (∀ c ∈ Argument.argumentsContents arguments, c.fitsBinary = true) → ∀ {fuel : Nat},
    (encodeArguments arguments).length ≤ fuel →
      Reads (decodeMany (decodeArgument fuel) arguments.length) (encodeArguments arguments) arguments
  | [], _, _, _ => .pure []
  | argument :: rest, fits, fuel, enough => by
      obtain ⟨first, others⟩ := List.forall_mem_append.mp fits
      rw [encodeArguments, List.length_append] at enough
      exact many_cons (argument_reads argument first (by omega))
        (arguments_read rest others (by omega))
termination_by structural arguments => arguments

theorem step_reads : (step : Step) → (∀ c ∈ step.contents, c.fitsBinary = true) → ∀ {fuel : Nat},
    (encodeStep step).length ≤ fuel →
      Reads (decodeStepOf (decodeArgument fuel)) (encodeStep step) step
  | .mk kind arguments, fits, fuel, enough => by
      obtain ⟨count, inside⟩ := List.forall_mem_cons.mp fits
      simp only [encodeStep, List.append_assoc, List.length_append] at enough ⊢
      exact (member_reads kind).bind ((list_reads (of_decide_eq_true count)
        (arguments_read arguments inside (by omega))).last (.pure _))
termination_by structural step => step

theorem steps_read : (steps : List Step) →
    (∀ c ∈ Step.stepsContents steps, c.fitsBinary = true) → ∀ {fuel : Nat},
    (encodeSteps steps).length ≤ fuel →
      Reads (decodeMany (decodeStepOf (decodeArgument fuel)) steps.length) (encodeSteps steps) steps
  | [], _, _, _ => .pure []
  | step :: rest, fits, fuel, enough => by
      obtain ⟨first, others⟩ := List.forall_mem_append.mp fits
      rw [encodeSteps, List.length_append] at enough
      exact many_cons (step_reads step first (by omega)) (steps_read rest others (by omega))
termination_by structural steps => steps

end

theorem decode_run (input : List Byte) :
    decode.run input =
      (decodeList (decodeStepOf (decodeArgument (input.length + 1)))).run input := by
  rw [decode, StateT.run_bind, StateT.run_get, pure_bind]

theorem decode_reads {p : Program} (fits : ∀ c ∈ p.contents, c.fitsBinary = true) :
    Reads decode (encode p) p := by
  intro rest
  obtain ⟨count, inside⟩ := List.forall_mem_cons.mp fits
  rw [decode_run]
  refine list_reads (of_decide_eq_true count) (steps_read p inside ?_) rest
  rw [encode, List.length_append, List.length_append]
  omega

/-! ### Inputs that lack their end -/

/-- What the first decoder makes of an input, the second makes of any longer one, and what is added
is left with the rest. -/
def Extends {α : Type} (d e : Decoder α) : Prop :=
  ∀ (input rest : List Byte) (a : α), d.run input = some (a, rest) →
    ∀ more, e.run (input ++ more) = some (a, rest ++ more)

namespace Extends

variable {α β : Type} {d e : Decoder α}

theorem pure (a : α) : Extends (pure a) (pure a) := by
  intro input rest b taken more
  cases taken
  rfl

theorem failure : Extends (failure : Decoder α) e := by
  intro input rest a taken
  cases taken

theorem bind {f g : α → Decoder β} (first : Extends d e) (later : ∀ a, Extends (f a) (g a)) :
    Extends (d >>= f) (e >>= g) := by
  intro input rest b taken more
  rw [StateT.run_bind, Option.bind_eq_bind, Option.bind_eq_some_iff] at taken
  obtain ⟨⟨a, between⟩, start, finish⟩ := taken
  rw [StateT.run_bind, first _ _ _ start more]
  exact later a _ _ _ finish more

theorem map (f : α → β) (first : Extends d e) : Extends (f <$> d) (f <$> e) := by
  simpa only [map_eq_pure_bind] using first.bind fun a => .pure (f a)

theorem takeBytes (count : Nat) : Extends (takeBytes count) (takeBytes count) := by
  intro input rest bytes taken more
  simp only [StateT.run, Binary.takeBytes, List.length_take] at taken ⊢
  split at taken
  · next full =>
      cases taken
      have within : count ≤ input.length := by omega
      rw [List.take_append_of_le_length within, List.drop_append_of_le_length within, if_pos]
      rw [List.length_append]
      omega
  · cases taken

theorem nat (width : Nat) : Extends (decodeNat width) (decodeNat width) :=
  (takeBytes width).map ofLittleEndian

theorem bool : Extends decodeBool decodeBool :=
  (nat 1).bind fun n => match n with
    | 0 => .pure false
    | 1 => .pure true
    | _ + 2 => .failure

theorem int64 : Extends decodeInt64 decodeInt64 := (nat 8).bind fun _ => .pure _

theorem float : Extends decodeFloat decodeFloat := (nat 8).bind fun _ => .pure _

theorem string : Extends decodeString decodeString := by
  refine (nat 8).bind fun n => (takeBytes n).bind fun bytes => ?_
  split
  · exact .pure _
  · exact .failure

theorem many (item : Extends d e) (count : Nat) :
    Extends (decodeMany d count) (decodeMany e count) := by
  induction count with
  | zero => exact .pure []
  | succ count ih => exact item.bind fun _ => ih.bind fun _ => .pure _

theorem list (item : Extends d e) : Extends (decodeList d) (decodeList e) := (nat 8).bind item.many

theorem member (α : Type) [Family α] [DecidableEq α] :
    Extends (decodeMember α) (decodeMember α) := by
  refine (nat 4).bind fun n => ?_
  split
  · exact .pure _
  · exact .failure

theorem vertexId : Extends decodeVertexId decodeVertexId := (nat 8).map _

theorem edgeId : Extends decodeEdgeId decodeEdgeId := (nat 8).map _

theorem vertexRef : Extends decodeVertexRef decodeVertexRef :=
  vertexId.bind fun _ => string.bind fun _ => .pure _

theorem edgeRef : Extends decodeEdgeRef decodeEdgeRef :=
  edgeId.bind fun _ => string.bind fun _ => vertexId.bind fun _ => vertexId.bind fun _ => .pure _

theorem owner : Extends decodeOwner decodeOwner :=
  (nat 4).bind fun n => match n with
    | 0 => vertexId.map _
    | 1 => edgeId.map _
    | _ + 2 => .failure

theorem value {fuel more : Nat} (within : fuel ≤ more) :
    Extends (decodeValue fuel) (decodeValue more) := by
  induction fuel generalizing more with
  | zero => exact .failure
  | succ fuel ih =>
      obtain _ | more := more
      · cases within
      have inside := ih (Nat.le_of_succ_le_succ within)
      exact (nat 4).bind fun n => match n with
        | 0 => .pure _
        | 1 => bool.map _
        | 2 => int64.map _
        | 3 => float.map _
        | 4 => string.map _
        | 5 => inside.list.map _
        | 6 => (inside.bind fun _ => inside.bind fun _ => .pure _).list.bind fun _ => .pure _
        | 7 => vertexRef.map _
        | 8 => edgeRef.map _
        | 9 => owner.bind fun _ => string.bind fun _ => inside.bind fun _ => .pure _
        | _ + 10 => .failure

theorem predicate {fuel more : Nat} (within : fuel ≤ more) :
    Extends (decodePredicate fuel) (decodePredicate more) := by
  induction fuel generalizing more with
  | zero => exact .failure
  | succ fuel ih =>
      obtain _ | more := more
      · cases within
      have inside := ih (Nat.le_of_succ_le_succ within)
      have operand := value (Nat.le_of_succ_le_succ within)
      exact (nat 4).bind fun n => match n with
        | 0 => operand.map _
        | 1 => operand.map _
        | 2 => operand.map _
        | 3 => operand.map _
        | 4 => operand.map _
        | 5 => operand.map _
        | 6 => operand.list.map _
        | 7 => operand.list.map _
        | 8 => operand.bind fun _ => operand.bind fun _ => .pure _
        | 9 => string.map _
        | 10 => string.map _
        | 11 => string.map _
        | 12 => inside.bind fun _ => inside.bind fun _ => .pure _
        | 13 => inside.bind fun _ => inside.bind fun _ => .pure _
        | 14 => inside.map _
        | _ + 15 => .failure

theorem stepOf {d e : Decoder Argument} (argument : Extends d e) :
    Extends (decodeStepOf d) (decodeStepOf e) :=
  (member StepKind).bind fun _ => argument.list.bind fun _ => .pure _

theorem argument {fuel more : Nat} (within : fuel ≤ more) :
    Extends (decodeArgument fuel) (decodeArgument more) := by
  induction fuel generalizing more with
  | zero => exact .failure
  | succ fuel ih =>
      obtain _ | more := more
      · cases within
      have inside := ih (Nat.le_of_succ_le_succ within)
      exact (nat 4).bind fun n => match n with
        | 0 => (value (Nat.le_of_succ_le_succ within)).map _
        | 1 => (predicate (Nat.le_of_succ_le_succ within)).map _
        | 2 => inside.stepOf.list.map _
        | 3 => string.map _
        | 4 => (member Scope).map _
        | 5 => (member SortOrder).map _
        | 6 => (member Pop).map _
        | 7 => (member Column).map _
        | 8 => (member Cardinality).map _
        | 9 => (member ElementToken).map _
        | 10 => (member Function).map _
        | _ + 11 => .failure

theorem program : Extends decode decode := by
  intro input rest p taken more
  rw [decode_run] at taken ⊢
  exact (argument (by simp)).stepOf.list _ _ _ taken more

end Extends

end PropertyGraph.Binary

namespace PropertyGraph

/-- A program reads back from its binary form with anything behind it, and not from less than that
form. -/
theorem Program.binary_form_delimits_itself (p : Program)
    (fits : ∀ c ∈ p.contents, c.fitsBinary = true) :
    (∀ rest, Program.ofBytes? (p.toBytes ++ rest) = some p) ∧
      ∀ part, part <+: p.toBytes → part ≠ p.toBytes → Program.ofBytes? part = none := by
  have reads := Binary.decode_reads fits
  refine ⟨fun rest => ?_, fun part before proper => ?_⟩
  · rw [Program.ofBytes?, Program.toBytes, reads rest, Option.map_some]
  · obtain ⟨missing, whole⟩ := before
    rw [Program.ofBytes?, Option.map_eq_none_iff, Option.eq_none_iff_forall_ne_some]
    rintro ⟨q, rest⟩ taken
    -- the whole form would leave what is missing as well, but it leaves nothing
    have longer := Binary.Extends.program _ _ _ taken missing
    have exact_ := reads []
    rw [List.append_nil, ← Program.toBytes, ← whole, longer] at exact_
    have none_missing : rest ++ missing = [] := congrArg Prod.snd (Option.some.inj exact_)
    rw [(List.append_eq_nil_iff.mp none_missing).2, List.append_nil] at whole
    exact proper whole

/-- A text of several bytes a letter, a number that is none, a map, and a program inside. -/
theorem nested_program_delimits_itself :
    let p : Program :=
      [.mk .v [], .mk .has [.label "größe", .predicate (.and (.neq (.float ⟨0xfff8000000000001⟩))
        (.not (.within [.null, .map [(.int (-1), .bool true), (.string "", .list [])]])))],
        .mk .by_ [.program [.mk .select [.label "n", .pop .last]], .order .desc]]
    (∀ c ∈ p.contents, c.fitsBinary = true) ∧
      (∀ rest, Program.ofBytes? (p.toBytes ++ rest) = some p) ∧
      ∀ part, part <+: p.toBytes → part ≠ p.toBytes → Program.ofBytes? part = none := by
  intro p
  have fits : ∀ c ∈ p.contents, c.fitsBinary = true := by decide +kernel
  exact ⟨fits, p.binary_form_delimits_itself fits⟩

example : Program.toBytes [.mk .as_ [.label "né"]] =
    [1, 0, 0, 0, 0, 0, 0, 0] ++ [6, 0, 0, 0] ++ [1, 0, 0, 0, 0, 0, 0, 0] ++ [3, 0, 0, 0] ++
      [3, 0, 0, 0, 0, 0, 0, 0] ++ [0x6e, 0xc3, 0xa9] := by decide +kernel

end PropertyGraph
