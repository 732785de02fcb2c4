import ItemStore.Key
import ItemStore.Proofs.Codec.Nesting
import ItemStore.Proofs.Codec.ReadBack

/-!
The numbers of a key or item that was built. What is built is put together attribute by attribute,
and a number in it can be read unless a text was declared a number without being one, or an
undeclared text overflows.
-/
namespace ItemStore

open List

namespace Value

theorem readable_iff_of_encodeAt {v : Value} {depth : Nat} {w : Tagged}
    (h : v.encodeAt depth = .ok w) : w.Readable ↔ v.InRange := by
  rw [← exists_decodeAt_iff h, Tagged.exists_decodeAt_iff]
  exact (and_iff_left (add_nesting_le_of_encodeAt h)).symm

/-! What an attribute with a declared type is put under it as. -/

theorem declareAs_number_eq_ok_iff {v : Value} {name : String} {w : Tagged} :
    v.declareAs .number name = .ok w ↔
      ∃ l, w = .number l ∧ (v = .text l ∨ ∃ n, v = .number n ∧ n.literal = .ok l) := by
  cases v with
  | number n => cases hl : n.literal <;> simp [declareAs, hl, eq_comm]
  | text s => simp [declareAs, eq_comm]
  | _ => simp [declareAs]

theorem declareAs_text_eq_ok_iff {v : Value} {name : String} {w : Tagged} :
    v.declareAs .text name = .ok w ↔
      ∃ l, w = .text l ∧ (v = .text l ∨ ∃ n, v = .number n ∧ n.literal = .ok l) := by
  cases v with
  | number n => cases hl : n.literal <;> simp [declareAs, hl, eq_comm]
  | text s => simp [declareAs, eq_comm]
  | _ => simp [declareAs]

theorem declareAs_binary_eq_ok_iff {v : Value} {name : String} {w : Tagged} :
    v.declareAs .binary name = .ok w ↔
      ∃ bytes, w = .binary bytes ∧
        (v = .binary bytes ∨ ∃ s, v = .text s ∧ Base64.ofText? s = some bytes) := by
  cases v with
  | binary bytes => simp [declareAs, eq_comm]
  | text s => cases hb : Base64.ofText? s <;> simp [declareAs, hb, eq_comm]
  | _ => simp [declareAs]

end Value

namespace Schema

variable {schema : Schema} {item : Item} {wire : TaggedItem} {name : String} {v : Value}
  {w : Tagged}

theorem buildKey_eq_ok_iff :
    schema.buildKey item = .ok wire ↔
      (∃ name, schema.partitionKey? = some name ∧ (item.lookup name).isSome = true) ∧
        Forall₂ (fun e f => e.1 = f.1 ∧ schema.encodeAttribute e.1 e.2 = .ok f.2) item wire := by
  rw [← Entries.mapM_eq_ok_iff]
  unfold buildKey
  cases schema.partitionKey? with
  | none => simp
  | some name =>
    simp only [Option.some.injEq, exists_eq_left']
    by_cases hi : (item.lookup name).isSome = true
    · rw [if_pos hi, and_iff_right hi]
    · rw [if_neg hi]
      exact iff_of_false (by simp) fun h => hi h.1

/-- The numbers of an attribute can be read from what it is written as: a text that is declared a
number has to be one, and no text without a declaration may overflow. -/
def ReadsBack (schema : Schema) (name : String) (v : Value) : Prop :=
  match schema.typeOf? name with
  | some .number => ∀ s, v = .text s → ∃ n, Number.ofText? s = some n
  | some _ => True
  | none => v.InRange

theorem readable_iff_of_encodeAttribute (h : schema.encodeAttribute name v = .ok w) :
    w.Readable ↔ schema.ReadsBack name v := by
  unfold encodeAttribute at h
  unfold ReadsBack
  split at h
  · rename_i type htype
    rw [htype]
    cases type with
    | number =>
      obtain ⟨l, rfl, hl⟩ := Value.declareAs_number_eq_ok_iff.1 h
      rw [Tagged.Readable, Tagged.everywhere_iff_of_nodes rfl, Tagged.ReadableNode]
      rcases hl with rfl | ⟨n, rfl, hl⟩
      · simp
      · obtain ⟨m, hm, -⟩ := Number.decodes_literal hl
        exact iff_of_true ⟨m, Number.ofLiteral_eq_ok_iff.1 hm⟩ (by simp)
    | text =>
      obtain ⟨l, rfl, -⟩ := Value.declareAs_text_eq_ok_iff.1 h
      exact iff_of_true ((Tagged.everywhere_iff_of_nodes rfl).2 trivial) trivial
    | binary =>
      obtain ⟨bytes, rfl, -⟩ := Value.declareAs_binary_eq_ok_iff.1 h
      exact iff_of_true ((Tagged.everywhere_iff_of_nodes rfl).2 trivial) trivial
  · rename_i htype
    rw [htype]
    exact Value.readable_iff_of_encodeAt (mapError_eq_ok.1 h)

theorem nesting_le_of_encodeAttribute (h : schema.encodeAttribute name v = .ok w) :
    w.nesting ≤ CodecError.maxDepth := by
  unfold encodeAttribute at h
  split at h
  · rename_i type _
    cases type with
    | number =>
      obtain ⟨l, rfl, -⟩ := Value.declareAs_number_eq_ok_iff.1 h
      exact Nat.zero_le _
    | text =>
      obtain ⟨l, rfl, -⟩ := Value.declareAs_text_eq_ok_iff.1 h
      exact Nat.zero_le _
    | binary =>
      obtain ⟨bytes, rfl, -⟩ := Value.declareAs_binary_eq_ok_iff.1 h
      exact Nat.zero_le _
  · exact Value.nesting_le_of_encode (mapError_eq_ok.1 h)

/-- What was built holds only numbers that can be read exactly if no attribute spoils one: a text
that is declared a number without being one, or a numeric literal that overflows without a
declaration. Attributes with readable numbers are decoded, and the others are malformed. -/
theorem readable_buildKey_iff (h : schema.buildKey item = .ok wire) :
    ((∀ f ∈ wire, f.2.Readable) ↔ ∀ e ∈ item, schema.ReadsBack e.1 e.2) ∧
      ∀ f ∈ wire, (f.2.Readable → ∃ v, f.2.decode = .ok v) ∧
        (¬f.2.Readable → ∃ fault, f.2.decode = .error (.malformed fault)) := by
  obtain ⟨-, hw⟩ := buildKey_eq_ok_iff.1 h
  refine ⟨forall_mem_iff_of_forall₂ hw fun e _ f hf => readable_iff_of_encodeAttribute hf.2,
    fun f hf => ?_⟩
  obtain ⟨e, -, -, he⟩ := Forall₂.exists_of_mem_right hw hf
  exact Tagged.decode_of_nesting_le (nesting_le_of_encodeAttribute he)

def counted : Schema := ⟨"t", [⟨"id", .partition⟩], [⟨"n", .number⟩]⟩

/-- Leading zeros are read, under a declared number as in a set. -/
theorem readable_buildKey_iff_of_counted :
    ∃ item wire, item = [("id", .text "a"), ("n", .text "0042"), ("ns", .list [.text "007"])] ∧
      counted.buildKey item = .ok wire ∧ (∀ e ∈ item, counted.ReadsBack e.1 e.2) ∧
      (∀ f ∈ wire, f.2.Readable) ∧ ∀ f ∈ wire, ∃ v, f.2.decode = .ok v := by
  have hw : counted.buildKey
      [("id", .text "a"), ("n", .text "0042"), ("ns", .list [.text "007"])] = .ok _ := rfl
  obtain ⟨hr, hd⟩ := readable_buildKey_iff hw
  have hplain : ¬IsOverflowing "a" := fun h => Bool.false_ne_true h.isNumericLiteral
  have hseven : ¬IsOverflowing "007" := (Number.exists_ofText?_iff rfl).1 ⟨.int 7, rfl⟩
  have hi : ∀ e ∈ [("id", Value.text "a"), ("n", .text "0042"), ("ns", .list [.text "007"])],
      counted.ReadsBack e.1 e.2 := by
    refine forall_mem_cons.2 ⟨?_, forall_mem_cons.2 ⟨?_, forall_mem_singleton.2 ?_⟩⟩
    · exact Value.inRange_text.2 hplain
    · rintro _ ⟨⟩
      exact ⟨.int 42, rfl⟩
    · exact Value.inRange_list.2 (forall_mem_singleton.2 (Value.inRange_text.2 hseven))
  exact ⟨_, _, rfl, hw, hi, hr.2 hi, fun f hf => (hd f hf).1 (hr.2 hi f hf)⟩

/-- A text under a declared number is written unchecked. -/
theorem exists_buildKey_not_readable :
    ∃ wire, counted.buildKey [("id", .text "a"), ("n", .text "abc")] = .ok wire ∧
      ("n", .number "abc") ∈ wire ∧ Number.ofText? "abc" = none ∧
      (Tagged.number "abc").decode = .error (.malformed (.numberText "abc")) := by
  refine ⟨[("id", .text "a"), ("n", .number "abc")], rfl, by simp, rfl, rfl⟩

end Schema
end ItemStore
