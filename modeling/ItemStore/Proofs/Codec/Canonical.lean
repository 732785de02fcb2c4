import ItemStore.Proofs.Codec.Members
import ItemStore.Proofs.Number
import ItemStore.Proofs.Tagged.Node

/-!
The tagged values that are written back as they were read. Each value has one tagged form that it
is encoded to, and the canonical tagged values are these forms.
-/
namespace ItemStore

open List

namespace Number

/-- A text that is read as a number is the text of that number. -/
def IsOwnText (literal : String) : Prop := ∃ n, ofText? literal = some n ∧ n.text = literal

theorem ofLiteral_eq_ok_iff {s : String} {n : Number} :
    ofLiteral s = .ok n ↔ ofText? s = some n := by
  unfold ofLiteral
  cases ofText? s <;> simp

theorem literal_eq_ok_iff {n : Number} {s : String} :
    n.literal = .ok s ↔ n.isFinite = true ∧ n.text = s := by
  unfold literal
  split <;> simp [*]

theorem literal_eq_ok_iff_isOwnText {s : String} {n : Number} (h : ofLiteral s = .ok n) :
    n.literal = .ok s ↔ IsOwnText s := by
  have hn := ofLiteral_eq_ok_iff.1 h
  rw [literal_eq_ok_iff, isFinite_of_ofText? hn, IsOwnText, hn]
  simp

end Number

namespace Tagged

def CanonicalNode : Tagged → Prop
  | .number literal => Number.IsOwnText literal
  | .text s => isNumericLiteral s = false
  | .binary _ => False
  | .numbers literals => ∀ l ∈ literals, Number.IsOwnText l
  | .binaries _ => False
  | .list items =>
    items ≠ [] → ¬(∀ w ∈ items, w.tag = .number) ∧ ¬∀ w ∈ items, w.tag = .text
  | _ => True

/-- No bytes, numbers as their own text, no numeric literal under the text tag, and no list that a
set stands for. -/
def Canonical (w : Tagged) : Prop := w.Everywhere CanonicalNode

theorem canonical_iff_of_nodes {w : Tagged} (h : w.nodes = [w]) :
    w.Canonical ↔ w.CanonicalNode := everywhere_iff_of_nodes h

@[simp] theorem canonical_null (marker : Bool) : (Tagged.null marker).Canonical :=
  (canonical_iff_of_nodes rfl).2 trivial

@[simp] theorem canonical_bool (b : Bool) : (Tagged.bool b).Canonical :=
  (canonical_iff_of_nodes rfl).2 trivial

@[simp] theorem canonical_number {literal : String} :
    (Tagged.number literal).Canonical ↔ Number.IsOwnText literal := canonical_iff_of_nodes rfl

@[simp] theorem canonical_text {s : String} :
    (Tagged.text s).Canonical ↔ isNumericLiteral s = false := canonical_iff_of_nodes rfl

@[simp] theorem not_canonical_binary (bytes : List UInt8) : ¬(Tagged.binary bytes).Canonical :=
  (canonical_iff_of_nodes rfl).1

@[simp] theorem canonical_numbers {literals : List String} :
    (Tagged.numbers literals).Canonical ↔ ∀ l ∈ literals, Number.IsOwnText l :=
  canonical_iff_of_nodes rfl

@[simp] theorem canonical_texts (ss : List String) : (Tagged.texts ss).Canonical :=
  (canonical_iff_of_nodes rfl).2 trivial

@[simp] theorem not_canonical_binaries (bs : List (List UInt8)) : ¬(Tagged.binaries bs).Canonical :=
  (canonical_iff_of_nodes rfl).1

@[simp] theorem canonical_list {items : List Tagged} :
    (Tagged.list items).Canonical ↔
      (items ≠ [] → ¬(∀ w ∈ items, w.tag = .number) ∧ ¬∀ w ∈ items, w.tag = .text) ∧
        ∀ w ∈ items, w.Canonical := everywhere_list

@[simp] theorem canonical_map {entries : List (String × Tagged)} :
    (Tagged.map entries).Canonical ↔ ∀ e ∈ entries, e.2.Canonical := by
  rw [Canonical, everywhere_map]
  exact and_iff_right trivial

theorem countsAs_of_decodeAt {w : Tagged} {depth : Nat} {v : Value} (h : w.decodeAt depth = .ok v)
    (hc : w.Canonical) : v.CountsAs w := by
  intro t ht
  obtain ⟨-, h⟩ := decodeAt_eq_ok_iff.1 h
  cases w with
  | null marker => cases h; cases marker <;> simp [Value.scalarTag?, tag]
  | bool b => cases h; simp [Value.scalarTag?, tag]
  | number literal =>
    obtain ⟨n, -, rfl⟩ := h
    simp [Value.scalarTag?, tag]
  | text s =>
    cases h
    simp [Value.scalarTag?, tag, canonical_text.1 hc]
  | binary bytes => exact absurd hc (not_canonical_binary bytes)
  | numbers literals =>
    obtain ⟨ns, -, rfl⟩ := h
    rcases ht with rfl | rfl <;> simp [Value.scalarTag?, tag]
  | texts ss => cases h; rcases ht with rfl | rfl <;> simp [Value.scalarTag?, tag]
  | binaries bs => exact absurd hc (not_canonical_binaries bs)
  | list items =>
    obtain ⟨vs, -, rfl⟩ := h
    rcases ht with rfl | rfl <;> simp [Value.scalarTag?, tag]
  | map entries =>
    obtain ⟨es, -, rfl⟩ := h
    rcases ht with rfl | rfl <;> simp [Value.scalarTag?, tag]

theorem encodeAt_eq_ok_iff_canonical {w : Tagged} {depth : Nat} {v : Value}
    (h : w.decodeAt depth = .ok v) : v.encodeAt depth = .ok w ↔ w.Canonical := by
  induction w generalizing depth v with
    (obtain ⟨hd, h⟩ := decodeAt_eq_ok_iff.1 h; rw [Value.encodeAt_eq_ok_iff, and_iff_right hd])
  | null marker =>
    cases h
    cases marker <;> exact iff_of_true rfl (canonical_null _)
  | bool b =>
    cases h
    exact iff_of_true rfl (canonical_bool b)
  | number literal =>
    obtain ⟨n, hn, rfl⟩ := h
    rw [canonical_number, ← Number.literal_eq_ok_iff_isOwnText hn]
    simp [Value.EncodesTo]
  | text s =>
    cases h
    rw [canonical_text, Value.EncodesTo]
    cases isNumericLiteral s <;> simp
  | binary bytes =>
    cases h
    exact iff_of_false id (not_canonical_binary bytes)
  | numbers literals =>
    obtain ⟨ns, hns, rfl⟩ := h
    have hl : ns.mapM Number.literal = .ok literals ↔ ∀ l ∈ literals, Number.IsOwnText l := by
      rw [mapM_eq_ok_iff]
      exact forall₂_flip_iff_of_forall₂ (mapM_eq_ok_iff.1 hns) fun _ _ _ hn =>
        Number.literal_eq_ok_iff_isOwnText hn
    rw [canonical_numbers, ← hl]
    simp [Value.EncodesTo]
  | texts ss =>
    cases h
    exact iff_of_true rfl (canonical_texts ss)
  | binaries bs =>
    cases h
    exact iff_of_false id (not_canonical_binaries bs)
  | list items ih =>
    obtain ⟨vs, hvs, rfl⟩ := h
    rw [Value.encodesTo_list_list, canonical_list,
      forall₂_flip_iff_of_forall₂ hvs fun w hw _ => ih w hw]
    refine and_congr_left fun hc => Value.not_makeSet_iff ?_
    have hm := (forall₂_and_left items vs).2 ⟨hc, hvs⟩
    exact hm.flip.imp fun _ _ h => countsAs_of_decodeAt h.2 h.1
  | map entries ih =>
    obtain ⟨es, hes, rfl⟩ := h
    have he : Entries.Match (fun v w => Value.encodeAt (depth + 1) v = .ok w) es entries ↔
        ∀ e ∈ entries, e.2.Canonical := by
      refine forall₂_flip_iff_of_forall₂ hes ?_
      rintro e he f ⟨hk, hf⟩
      exact (and_iff_right hk.symm).trans (ih e he hf)
    rw [canonical_map, ← he]
    simp [Value.EncodesTo]

/-- A tagged value that is read as a value is written back as it was exactly if it is canonical. -/
theorem encode_eq_ok_iff_canonical {w : Tagged} {v : Value} (h : w.decode = .ok v) :
    v.encode = .ok w ↔ w.Canonical := encodeAt_eq_ok_iff_canonical h

/-- Texts in a set may look like numbers, but a list of numbers alone comes back as a set. -/
theorem encode_eq_ok_iff_canonical_sets :
    (∃ w : Tagged, ∃ v, w = .map [("L", .list []),
        ("N", .list [.number "-7", .null false, .text "x"]), ("SS", .texts ["007"])] ∧
        w.decode = .ok v ∧ v.encode = .ok w) ∧
      ∃ w : Tagged, ∃ v, w = .list [.number "-7"] ∧ w.decode = .ok v ∧ v.encode ≠ .ok w := by
  have hn : Number.IsOwnText "-7" :=
    ⟨.int (-7), rfl, by simp [Number.text, Digits.ofInt, Digits.ofNat]; decide⟩
  refine ⟨⟨_, _, rfl, rfl, (encode_eq_ok_iff_canonical rfl).2 ?_⟩,
    ⟨_, _, rfl, rfl, fun h => ?_⟩⟩
  · have hm : isNumericLiteral "x" = false := rfl
    simp [tag, hn, hm]
  · have hc := (canonical_list.1 ((encode_eq_ok_iff_canonical rfl).1 h)).1
    simp [tag] at hc

end Tagged
end ItemStore
