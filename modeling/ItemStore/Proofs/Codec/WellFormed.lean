import ItemStore.Proofs.Codec.Nesting
import ItemStore.Proofs.Number.Literal

/-!
The tagged values that values are encoded to. Each has a numeric literal under every number tag and
nowhere under a text tag, holds no bytes, and has no list that a set stands for; and what looks like
this and fits the depth limit is what some value is encoded to.
-/
namespace ItemStore

open List

namespace Tagged

/-- What a well-formed tagged value looks like, its members apart. A set may hold any texts. -/
def WellFormedNode : Tagged → Prop
  | .number literal => isNumericLiteral literal = true
  | .text s => isNumericLiteral s = false
  | .binary _ => False
  | .numbers literals => ∀ l ∈ literals, isNumericLiteral l = true
  | .binaries _ => False
  | .list items =>
    items ≠ [] → ¬(∀ w ∈ items, w.tag = .number) ∧ ¬∀ w ∈ items, w.tag = .text
  | _ => True

def WellFormed (w : Tagged) : Prop := w.Everywhere WellFormedNode

theorem wellFormed_iff_of_nodes {w : Tagged} (h : w.nodes = [w]) :
    w.WellFormed ↔ w.WellFormedNode := everywhere_iff_of_nodes h

theorem wellFormed_list {items : List Tagged} :
    (Tagged.list items).WellFormed ↔
      (items ≠ [] → ¬(∀ w ∈ items, w.tag = .number) ∧ ¬∀ w ∈ items, w.tag = .text) ∧
        ∀ w ∈ items, w.WellFormed := everywhere_list

theorem wellFormed_map {entries : List (String × Tagged)} :
    (Tagged.map entries).WellFormed ↔ ∀ e ∈ entries, e.2.WellFormed := by
  rw [WellFormed, everywhere_map]
  exact and_iff_right trivial

end Tagged

theorem Number.isNumericLiteral_of_literal {n : Number} {l : String} (h : n.literal = .ok l) :
    isNumericLiteral l = true := by
  unfold literal at h
  split at h
  · rename_i hn
    cases h
    exact isNumericLiteral_text hn
  · cases h

namespace Value

theorem tag_of_encodeAt {v : Value} {depth : Nat} {w : Tagged} (h : v.encodeAt depth = .ok w) :
    (∀ t, v.scalarTag? = some t → w.tag = t) ∧
      (v.scalarTag? = none → w.tag ∈ [Tag.list, .map, .numbers, .texts]) := by
  obtain ⟨-, h⟩ := encodeAt_eq_ok_iff.1 h
  cases v with
  | number n =>
    obtain ⟨l, -, rfl⟩ := h
    simp [scalarTag?, Tagged.tag]
  | text s =>
    cases h
    cases hs : isNumericLiteral s <;> simp [scalarTag?, Tagged.tag, hs]
  | list items =>
    obtain ⟨-, ls, -, rfl⟩ | ⟨-, ws, -, rfl⟩ := h
    · split <;> simp [scalarTag?, Tagged.tag]
    · simp [scalarTag?, Tagged.tag]
  | map entries =>
    obtain ⟨ws, -, rfl⟩ := h
    simp [scalarTag?, Tagged.tag]
  | numbers ns =>
    obtain ⟨ls, -, rfl⟩ := h
    simp [scalarTag?, Tagged.tag]
  | binary bytes => cases h
  | binaries bs => cases h
  | _ =>
    cases h
    simp [scalarTag?, Tagged.tag]

theorem countsAs_of_encodeAt {v : Value} {depth : Nat} {w : Tagged} (h : v.encodeAt depth = .ok w) :
    v.CountsAs w := by
  intro t ht
  obtain ⟨hs, hn⟩ := tag_of_encodeAt h
  refine ⟨hs t, ?_⟩
  rintro rfl
  cases hv : v.scalarTag? with
  | some t => rw [hs t hv]
  | none =>
    have hm := hn hv
    rcases ht with ht | ht <;> simp [ht] at hm

theorem isNumericLiteral_of_literal {v : Value} (ht : v.scalarTag? = some .number) {l : String}
    (h : v.literal = .ok l) : isNumericLiteral l = true := by
  cases v with
  | number n => exact Number.isNumericLiteral_of_literal h
  | text s =>
    cases h
    by_contra hs
    simp [scalarTag?, hs] at ht
  | _ => cases ht

theorem wellFormed_of_encodeAt {v : Value} {depth : Nat} {w : Tagged}
    (h : v.encodeAt depth = .ok w) : w.WellFormed := by
  induction v generalizing depth w with (obtain ⟨-, h⟩ := encodeAt_eq_ok_iff.1 h)
  | number n =>
    obtain ⟨l, hl, rfl⟩ := h
    exact (Tagged.wellFormed_iff_of_nodes rfl).2 (Number.isNumericLiteral_of_literal hl)
  | text s =>
    cases h
    split
    · exact (Tagged.wellFormed_iff_of_nodes rfl).2 ‹_›
    · exact (Tagged.wellFormed_iff_of_nodes rfl).2 (eq_false_of_ne_true ‹_›)
  | list items ih =>
    obtain ⟨-, ls, hls, rfl⟩ | ⟨hs, ws, hws, rfl⟩ := h
    · split
      · rename_i hn
        refine (Tagged.wellFormed_iff_of_nodes rfl).2 fun l hl => ?_
        obtain ⟨v, hv, hvl⟩ := Forall₂.exists_of_mem_right (mapM_eq_ok_iff.1 hls) hl
        exact isNumericLiteral_of_literal (scalarTag?_of_allTagged hn v hv) hvl
      · exact (Tagged.wellFormed_iff_of_nodes rfl).2 trivial
    · have hc : Forall₂ CountsAs items ws := hws.imp fun _ _ h => countsAs_of_encodeAt h
      refine Tagged.wellFormed_list.2 ⟨(not_makeSet_iff hc).1 hs, fun w hw => ?_⟩
      obtain ⟨v, hv, hvw⟩ := Forall₂.exists_of_mem_right hws hw
      exact ih v hv hvw
  | map entries ih =>
    obtain ⟨ws, hws, rfl⟩ := h
    refine Tagged.wellFormed_map.2 fun f hf => ?_
    obtain ⟨e, he, -, hef⟩ := Forall₂.exists_of_mem_right hws hf
    exact ih e he hef
  | numbers ns =>
    obtain ⟨ls, hls, rfl⟩ := h
    refine (Tagged.wellFormed_iff_of_nodes rfl).2 fun l hl => ?_
    obtain ⟨n, -, hn⟩ := Forall₂.exists_of_mem_right (mapM_eq_ok_iff.1 hls) hl
    exact Number.isNumericLiteral_of_literal hn
  | binary bytes => cases h
  | binaries bs => cases h
  | _ =>
    cases h
    exact (Tagged.wellFormed_iff_of_nodes rfl).2 trivial

/-- Whatever is well formed and fits the levels that are left, some value is encoded to. -/
theorem exists_encodeAt_iff {w : Tagged} {depth : Nat} :
    (∃ v : Value, v.encodeAt depth = .ok w) ↔
      w.WellFormed ∧ depth + w.nesting ≤ CodecError.maxDepth := by
  constructor
  · rintro ⟨v, hv⟩
    exact ⟨wellFormed_of_encodeAt hv, add_nesting_le_of_encodeAt hv⟩
  rintro ⟨hw, hn⟩
  induction w generalizing depth with
    (obtain ⟨hd, hm⟩ := Tagged.add_nesting_le_iff.1 hn; rw [← Nat.not_lt] at hd
     simp only [encodeAt_eq_ok_iff, and_iff_right hd])
  | null marker =>
    cases marker with
    | true => exact ⟨.null, rfl⟩
    | false => exact ⟨.sentinel, rfl⟩
  | bool b => exact ⟨.bool b, rfl⟩
  | number literal =>
    have hl : isNumericLiteral literal = true := (Tagged.wellFormed_iff_of_nodes rfl).1 hw
    exact ⟨.text literal, if_pos hl⟩
  | text s =>
    have hs : isNumericLiteral s = false := (Tagged.wellFormed_iff_of_nodes rfl).1 hw
    exact ⟨.text s, by simp [EncodesTo, hs]⟩
  | binary bytes => exact ((Tagged.wellFormed_iff_of_nodes rfl).1 hw).elim
  | binaries bs => exact ((Tagged.wellFormed_iff_of_nodes rfl).1 hw).elim
  | numbers literals =>
    by_cases he : literals = []
    · exact ⟨.numbers [], [], rfl, he ▸ rfl⟩
    · have hl : ∀ l ∈ literals, isNumericLiteral l = true :=
        (Tagged.wellFormed_iff_of_nodes rfl).1 hw
      have ht : allTagged .number (literals.map .text) = true := by
        simpa [allTagged, scalarTag?] using hl
      have hls : (literals.map Value.text).mapM literal = .ok literals := by
        rw [mapM_eq_ok_iff, forall₂_map_left_iff]
        exact forall₂_same.2 fun _ _ => rfl
      have hs : MakeSet (literals.map .text) := ⟨by simpa using he, .inl ht⟩
      exact ⟨.list (literals.map .text), .inl ⟨hs, literals, hls, if_pos ht⟩⟩
  | texts ss => exact ⟨.texts ss, rfl⟩
  | list items ih =>
    obtain ⟨hs, hi⟩ := Tagged.wellFormed_list.1 hw
    obtain ⟨vs, hvs⟩ := exists_forall₂_iff.2 fun w hw => ih w hw (hi w hw) (hm w hw)
    have hc : Forall₂ CountsAs vs items := hvs.flip.imp fun _ _ h => countsAs_of_encodeAt h
    exact ⟨.list vs, encodesTo_list_list.2 ⟨(not_makeSet_iff hc).2 hs, hvs.flip⟩⟩
  | map entries ih =>
    have hi := Tagged.wellFormed_map.1 hw
    have he : ∀ f ∈ entries, ∃ v : Value, v.encodeAt (depth + 1) = .ok f.2 :=
      fun f hf => ih f hf (hi f hf) (hm f.2 (mem_map_of_mem hf))
    obtain ⟨es, hes⟩ :=
      (Entries.exists_match_iff (R := fun w v => encodeAt (depth + 1) v = .ok w)).2 he
    exact ⟨.map es, entries, hes.flip.imp fun _ _ h => ⟨h.1.symm, h.2⟩, rfl⟩

/-- What a value is encoded to is well formed everywhere, and its own tag is the one that the value
is classified under. -/
theorem wellFormed_and_tag_of_encode {v : Value} {w : Tagged} (h : v.encode = .ok w) :
    w.WellFormed ∧ (∀ t, v.scalarTag? = some t → w.tag = t) ∧
      (v.scalarTag? = none → w.tag ∈ [Tag.list, .map, .numbers, .texts]) :=
  ⟨wellFormed_of_encodeAt h, tag_of_encodeAt h⟩

/-- Literals become numbers alone, in a set and next to other members; a set of texts that was built
as one keeps them. -/
theorem wellFormed_and_tag_of_encode_document :
    ∃ v w, v = map [("a", .list [.text "007", .number (.int 5)]),
        ("b", .list [.text "-1.", .null, .texts ["8"]]), ("c", .list [])] ∧ v.encode = .ok w ∧
      w = .map [("a", .numbers ["007", "5"]),
        ("b", .list [.number "-1.", .null true, .texts ["8"]]), ("c", .list [])] ∧
      w.WellFormed ∧ w.tag = .map := by
  have h5 : (Number.int 5).text = "5" := by
    simp [Number.text, Digits.ofInt, Digits.ofNat]
    decide
  have hw : encode (map [("a", .list [.text "007", .number (.int 5)]),
      ("b", .list [.text "-1.", .null, .texts ["8"]]), ("c", .list [])]) =
        .ok (.map [("a", .numbers ["007", (Number.int 5).text]),
          ("b", .list [.number "-1.", .null true, .texts ["8"]]), ("c", .list [])]) := rfl
  exact ⟨_, _, rfl, hw, by rw [h5], (wellFormed_and_tag_of_encode hw).1, rfl⟩

end Value
end ItemStore
