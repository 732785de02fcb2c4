import ItemStore.Codec.Decoding
import ItemStore.Codec.Encoding
import ItemStore.Codec.Response
import ItemStore.Proofs.Traversal

/-!
One level of encoding and decoding. A list is encoded or decoded member by member, and a map under
the keys that it has; everything else stands for itself.
-/
namespace ItemStore

open List

namespace Value

theorem encodeItems_eq_ok_iff {depth : Nat} {vs : List Value} {ws : List Tagged} :
    encodeItems depth vs = .ok ws ↔ Forall₂ (fun v w => v.encodeAt depth = .ok w) vs ws :=
  eq_ok_iff_forall₂ (encodeItems depth) rfl fun _ _ => rfl

theorem encodeEntries_eq_ok_iff {depth : Nat} {es : List (String × Value)}
    {ws : List (String × Tagged)} :
    encodeEntries depth es = .ok ws ↔ Entries.Match (fun v w => v.encodeAt depth = .ok w) es ws :=
  Entries.eq_ok_iff_match (encodeEntries depth) rfl fun _ _ _ => rfl

theorem scalarTag?_of_allTagged {t : Tag} {items : List Value} (h : allTagged t items = true) :
    ∀ v ∈ items, v.scalarTag? = some t := by
  simpa [allTagged] using h

/-- Whether a list travels as a set. An empty list does not. -/
def MakeSet (items : List Value) : Prop :=
  items ≠ [] ∧ (allTagged .number items = true ∨ allTagged .text items = true)

/-- A tagged value is a number, or a text, exactly if the value is one. -/
def CountsAs (v : Value) (w : Tagged) : Prop :=
  ∀ t, t = .number ∨ t = .text → (v.scalarTag? = some t ↔ w.tag = t)

theorem allTagged_iff {vs : List Value} {ws : List Tagged} (h : Forall₂ CountsAs vs ws) {t : Tag}
    (ht : t = .number ∨ t = .text) : allTagged t vs = true ↔ ∀ w ∈ ws, w.tag = t := by
  have hm := forall_mem_iff_of_forall₂ h fun _ _ _ hw => (hw t ht).symm
  rw [allTagged, all_eq_true, hm]
  simp

theorem not_makeSet_iff {vs : List Value} {ws : List Tagged} (h : Forall₂ CountsAs vs ws) :
    ¬MakeSet vs ↔
      (ws ≠ [] → ¬(∀ w ∈ ws, w.tag = .number) ∧ ¬∀ w ∈ ws, w.tag = .text) := by
  have he : vs = [] ↔ ws = [] := by
    rw [← length_eq_zero_iff, h.length_eq, length_eq_zero_iff]
  rw [MakeSet, allTagged_iff h (.inl rfl), allTagged_iff h (.inr rfl), ne_eq, he, not_and, not_or]

/-- What a value is encoded to at a level that is not too deep. -/
def EncodesTo (depth : Nat) : Value → Tagged → Prop
  | .null, w => .null true = w
  | .sentinel, w => .null false = w
  | .bool b, w => .bool b = w
  | .number n, w => ∃ l, n.literal = .ok l ∧ .number l = w
  | .text s, w => (if isNumericLiteral s then .number s else .text s) = w
  | .list items, w =>
    (MakeSet items ∧ ∃ ls, items.mapM literal = .ok ls ∧
        (if allTagged .number items then .numbers ls else .texts ls) = w) ∨
      ¬MakeSet items ∧
        ∃ ws, Forall₂ (fun v w => v.encodeAt (depth + 1) = .ok w) items ws ∧ .list ws = w
  | .map entries, w =>
    ∃ ws, Entries.Match (fun v w => v.encodeAt (depth + 1) = .ok w) entries ws ∧ .map ws = w
  | .numbers ns, w => ∃ ls, ns.mapM Number.literal = .ok ls ∧ .numbers ls = w
  | .texts ss, w => .texts ss = w
  | .binary _, _ => False
  | .binaries _, _ => False

theorem encodesTo_list_list {depth : Nat} {vs : List Value} {ws : List Tagged} :
    (Value.list vs).EncodesTo depth (.list ws) ↔
      ¬MakeSet vs ∧ Forall₂ (fun v w => v.encodeAt (depth + 1) = .ok w) vs ws := by
  rw [EncodesTo, or_iff_right]
  · simp
  · rintro ⟨-, ls, -, h⟩
    split at h <;> cases h

theorem encodeAt_eq_ok_iff {depth : Nat} {v : Value} {w : Tagged} :
    v.encodeAt depth = .ok w ↔ ¬CodecError.maxDepth < depth ∧ v.EncodesTo depth w := by
  rw [encodeAt.eq_def, ite_error_eq_ok]
  refine and_congr_right' ?_
  cases v with
  | list items =>
    dsimp only [EncodesTo]
    by_cases he : items = []
    · have hm : ¬MakeSet items := fun hm => hm.1 he
      rw [or_iff_right fun h => hm h.1, and_iff_right hm, he]
      simp
    have he' : ¬items.isEmpty = true := mt List.isEmpty_iff.1 he
    by_cases hn : allTagged .number items = true
    · have hm : MakeSet items := ⟨he, .inl hn⟩
      rw [or_iff_left fun h => h.1 hm, and_iff_right hm, if_neg he', if_pos hn, bind_pure_eq_ok]
      simp only [if_pos hn]
    by_cases ht : allTagged .text items = true
    · have hm : MakeSet items := ⟨he, .inr ht⟩
      rw [or_iff_left fun h => h.1 hm, and_iff_right hm, if_neg he', if_neg hn, if_pos ht,
        bind_pure_eq_ok]
      simp only [if_neg hn]
    · have hm : ¬MakeSet items := fun hm => hm.2.elim hn ht
      rw [or_iff_right fun h => hm h.1, and_iff_right hm, if_neg he', if_neg hn, if_neg ht,
        bind_pure_eq_ok]
      simp only [encodeItems_eq_ok_iff]
  | map entries => simp only [EncodesTo, bind_pure_eq_ok, encodeEntries_eq_ok_iff]
  | number n => exact bind_pure_eq_ok
  | numbers ns => exact bind_pure_eq_ok
  | _ => simp [EncodesTo]

end Value

namespace Tagged

theorem decodeItems_eq_ok_iff {depth : Nat} {ws : List Tagged} {us : List Value} :
    decodeItems depth ws = .ok us ↔ Forall₂ (fun w u => w.decodeAt depth = .ok u) ws us :=
  eq_ok_iff_forall₂ (decodeItems depth) rfl fun _ _ => rfl

theorem decodeEntries_eq_ok_iff {depth : Nat} {es : List (String × Tagged)}
    {us : List (String × Value)} :
    decodeEntries depth es = .ok us ↔ Entries.Match (fun w u => w.decodeAt depth = .ok u) es us :=
  Entries.eq_ok_iff_match (decodeEntries depth) rfl fun _ _ _ => rfl

/-- What a tagged value is decoded to at a level that is not too deep. -/
def DecodesTo (depth : Nat) : Tagged → Value → Prop
  | .null marker, v => (if marker then .null else .sentinel) = v
  | .bool b, v => .bool b = v
  | .number literal, v => ∃ n, Number.ofLiteral literal = .ok n ∧ .number n = v
  | .text s, v => .text s = v
  | .binary bytes, v => .binary bytes = v
  | .numbers literals, v => ∃ ns, literals.mapM Number.ofLiteral = .ok ns ∧ .numbers ns = v
  | .texts ss, v => .texts ss = v
  | .binaries bs, v => .binaries bs = v
  | .list items, v =>
    ∃ vs, Forall₂ (fun w v => w.decodeAt (depth + 1) = .ok v) items vs ∧ .list vs = v
  | .map entries, v =>
    ∃ es, Entries.Match (fun w v => w.decodeAt (depth + 1) = .ok v) entries es ∧ .map es = v

theorem decodeAt_eq_ok_iff {depth : Nat} {w : Tagged} {v : Value} :
    w.decodeAt depth = .ok v ↔ ¬CodecError.maxDepth < depth ∧ w.DecodesTo depth v := by
  rw [decodeAt.eq_def, ite_error_eq_ok]
  refine and_congr_right' ?_
  cases w with
  | list items => simp only [DecodesTo, bind_pure_eq_ok, decodeItems_eq_ok_iff]
  | map entries => simp only [DecodesTo, bind_pure_eq_ok, decodeEntries_eq_ok_iff]
  | number literal => exact bind_pure_eq_ok
  | numbers literals => exact bind_pure_eq_ok
  | _ => simp [DecodesTo]

end Tagged

namespace Response

theorem decodeItems_eq_ok_iff {depth : Nat} {vs : List Json} {us : List Value} :
    decodeItems depth vs = .ok us ↔ Forall₂ (fun v u => decodeAt depth v = .ok u) vs us :=
  eq_ok_iff_forall₂ (decodeItems depth) rfl fun _ _ => rfl

theorem decodeMembers_eq_ok_iff {depth : Nat} {ms : List (String × Json)}
    {us : List (String × Value)} :
    decodeMembers depth ms = .ok us ↔ Entries.Match (fun v u => decodeAt depth v = .ok u) ms us :=
  Entries.eq_ok_iff_match (decodeMembers depth) rfl fun _ _ _ => rfl

end Response
end ItemStore
