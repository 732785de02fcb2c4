import ItemStore.Proofs.Codec.Readable
import ItemStore.Proofs.Value.Nesting

/-!
The depth limit. What is read at a level does not reach below the last one, and neither encoding
nor decoding is too deep for what fits the levels that are left.
-/
namespace ItemStore

open List

theorem Number.literal_ne_tooDeep (n : Number) : n.literal ≠ .error .tooDeep := by
  unfold literal
  split <;> simp

namespace Value

/-- A reader that counts the levels gives nothing that reaches below the last one. -/
theorem add_nesting_le_of_reader {α : Type} {read : Nat → α → Except CodecError Value}
    (hr : ∀ {depth a v}, read depth a = .ok v →
      depth ≤ CodecError.maxDepth ∧ ∀ u ∈ v.members, ∃ b, read (depth + 1) b = .ok u)
    {depth : Nat} {a : α} {v : Value} (h : read depth a = .ok v) :
    depth + v.nesting ≤ CodecError.maxDepth := by
  induction v using members_induction generalizing depth a with
  | _ v ih =>
    obtain ⟨hd, hm⟩ := hr h
    refine add_nesting_le_iff.2 ⟨hd, fun u hu => ?_⟩
    obtain ⟨b, hb⟩ := hm u hu
    exact ih u hu hb

theorem members_of_ofJsonAt {depth : Nat} {x : Json} {v : Value} (h : ofJsonAt depth x = .ok v) :
    depth ≤ CodecError.maxDepth ∧ ∀ u ∈ v.members, ∃ y, ofJsonAt (depth + 1) y = .ok u := by
  rw [ofJsonAt.eq_def, ite_error_eq_ok, Nat.not_lt] at h
  refine ⟨h.1, ?_⟩
  replace h := h.2
  cases x with
  | array items =>
    obtain ⟨us, hus, rfl⟩ := bind_pure_eq_ok.1 h
    intro u hu
    obtain ⟨y, -, hy⟩ := Forall₂.exists_of_mem_right (ofItemsAt_eq_ok_iff.1 hus) hu
    exact ⟨y, hy⟩
  | object members =>
    obtain ⟨us, hus, rfl⟩ := bind_pure_eq_ok.1 h
    exact forall_mem_map.2 fun e he => by
      obtain ⟨m, -, -, hm⟩ := Forall₂.exists_of_mem_right (ofMembersAt_eq_ok_iff.1 hus)
        (Entries.mem_of_mem_ofList he)
      exact ⟨m.2, hm⟩
  | _ =>
    cases h
    exact forall_mem_nil _

theorem nesting_le_of_ofJson? {x : Json} {v : Value} (h : ofJson? x = .ok v) :
    v.nesting ≤ CodecError.maxDepth := by
  simpa using add_nesting_le_of_reader members_of_ofJsonAt h

theorem literal_ne_tooDeep (v : Value) : v.literal ≠ .error .tooDeep := by
  cases v with
  | number n => exact n.literal_ne_tooDeep
  | _ => simp [literal]

theorem encodeAt_eq_tooDeep {v : Value} {depth : Nat} (h : v.encodeAt depth = .error .tooDeep) :
    CodecError.maxDepth < depth ∨ ∃ u ∈ v.members, u.encodeAt (depth + 1) = .error .tooDeep := by
  rw [encodeAt.eq_def] at h
  by_cases hd : CodecError.maxDepth < depth
  · exact .inl hd
  rw [if_neg hd] at h
  refine .inr ?_
  have hl : ∀ {items : List Value}, items.mapM literal ≠ .error .tooDeep := by
    intro items hi
    obtain ⟨u, -, hu⟩ := (mapM_eq_error_iff.1 hi).exists_mem
    exact u.literal_ne_tooDeep hu
  cases v with
  | list items =>
    dsimp only at h
    split at h
    · cases h
    split at h
    · exact absurd (bind_pure_eq_error.1 h) hl
    split at h
    · exact absurd (bind_pure_eq_error.1 h) hl
    · rw [bind_pure_eq_error, encodeItems_eq_mapM, mapM_eq_error_iff] at h
      exact h.exists_mem
  | map entries =>
    rw [bind_pure_eq_error, encodeEntries_eq_mapM, mapM_eq_error_iff] at h
    obtain ⟨e, he, h⟩ := h.exists_mem
    exact ⟨e.2, mem_map_of_mem he, bind_pure_eq_error.1 h⟩
  | number n => exact absurd (bind_pure_eq_error.1 h) n.literal_ne_tooDeep
  | numbers ns =>
    obtain ⟨n, -, hn⟩ := (mapM_eq_error_iff.1 (bind_pure_eq_error.1 h)).exists_mem
    exact absurd hn n.literal_ne_tooDeep
  | _ => cases h

theorem encodeAt_ne_tooDeep {v : Value} {depth : Nat}
    (h : depth + v.nesting ≤ CodecError.maxDepth) : v.encodeAt depth ≠ .error .tooDeep := by
  induction v using members_induction generalizing depth with
  | _ v ih =>
    obtain ⟨hd, hm⟩ := add_nesting_le_iff.1 h
    intro he
    rcases encodeAt_eq_tooDeep he with hl | ⟨u, hu, he⟩
    · exact Nat.not_lt.2 hd hl
    · exact ih u hu (hm u hu) he

theorem encode_ne_tooDeep {v : Value} (h : v.nesting ≤ CodecError.maxDepth) :
    v.encode ≠ .error .tooDeep :=
  encodeAt_ne_tooDeep (by rwa [Nat.zero_add])

/-- What is encoded at one level is encoded alike at every level that leaves room for it. -/
theorem encodeAt_eq_ok_iff_of_encodeAt {v : Value} {depth : Nat} {w : Tagged}
    (h : v.encodeAt depth = .ok w) {d : Nat} :
    v.encodeAt d = .ok w ↔ d + w.nesting ≤ CodecError.maxDepth := by
  induction v generalizing depth w d with
    (obtain ⟨-, h⟩ := encodeAt_eq_ok_iff.1 h; rw [encodeAt_eq_ok_iff, Nat.not_lt])
  | list items ih =>
    obtain ⟨hs, ls, hls, rfl⟩ | ⟨hs, ws, hws, rfl⟩ := h
    · have hn : (if allTagged .number items then Tagged.numbers ls else .texts ls).nesting = 0 := by
        split <;> rfl
      rw [hn, Nat.add_zero]
      exact and_iff_left (.inl ⟨hs, ls, hls, rfl⟩)
    · rw [encodesTo_list_list, and_iff_right hs, Tagged.add_nesting_le_iff]
      exact and_congr_right' (forall₂_iff_forall_mem_right hws fun v hv _ hw => ih v hv hw)
  | map entries ih =>
    obtain ⟨ws, hws, rfl⟩ := h
    have hm : Entries.Match (fun v w => Value.encodeAt (d + 1) v = .ok w) entries ws ↔
        ∀ e ∈ ws, d + 1 + e.2.nesting ≤ CodecError.maxDepth := by
      refine forall₂_iff_forall_mem_right hws ?_
      rintro e he f ⟨hk, hf⟩
      exact (and_iff_right hk).trans (ih e he hf)
    rw [Tagged.add_nesting_le_iff, Tagged.members, forall_mem_map, ← hm]
    simp [EncodesTo]
  | number n =>
    obtain ⟨l, hl, rfl⟩ := h
    exact and_iff_left ⟨l, hl, rfl⟩
  | numbers ns =>
    obtain ⟨ls, hls, rfl⟩ := h
    exact and_iff_left ⟨ls, hls, rfl⟩
  | text s =>
    have hn : w.nesting = 0 := by
      rw [← (h : (if isNumericLiteral s then Tagged.number s else .text s) = w)]
      split <;> rfl
    rw [hn, Nat.add_zero]
    exact and_iff_left h
  | binary bytes => cases h
  | binaries bs => cases h
  | _ =>
    cases h
    exact and_iff_left rfl

theorem add_nesting_le_of_encodeAt {v : Value} {depth : Nat} {w : Tagged}
    (h : v.encodeAt depth = .ok w) : depth + w.nesting ≤ CodecError.maxDepth :=
  (encodeAt_eq_ok_iff_of_encodeAt h).1 h

theorem nesting_le_of_encode {v : Value} {w : Tagged} (h : v.encode = .ok w) :
    w.nesting ≤ CodecError.maxDepth := by
  simpa using add_nesting_le_of_encodeAt h

end Value

namespace Tagged

theorem members_of_decodeAt {depth : Nat} {w : Tagged} {v : Value} (h : w.decodeAt depth = .ok v) :
    depth ≤ CodecError.maxDepth ∧ ∀ u ∈ v.members, ∃ x, decodeAt (depth + 1) x = .ok u := by
  obtain ⟨hd, h⟩ := decodeAt_eq_ok_iff.1 h
  refine ⟨Nat.not_lt.1 hd, ?_⟩
  cases w with
  | list items =>
    obtain ⟨vs, hvs, rfl⟩ := h
    intro u hu
    obtain ⟨x, -, hx⟩ := Forall₂.exists_of_mem_right hvs hu
    exact ⟨x, hx⟩
  | map entries =>
    obtain ⟨es, hes, rfl⟩ := h
    exact forall_mem_map.2 fun e he => by
      obtain ⟨f, -, -, hf⟩ := Forall₂.exists_of_mem_right hes he
      exact ⟨f.2, hf⟩
  | number literal =>
    obtain ⟨n, -, rfl⟩ := h
    exact forall_mem_nil _
  | numbers literals =>
    obtain ⟨ns, -, rfl⟩ := h
    exact forall_mem_nil _
  | null marker =>
    cases h
    cases marker <;> exact forall_mem_nil _
  | _ =>
    cases h
    exact forall_mem_nil _

theorem nesting_le_of_decode {w : Tagged} {v : Value} (h : w.decode = .ok v) :
    v.nesting ≤ CodecError.maxDepth := by
  simpa using Value.add_nesting_le_of_reader (fun h => members_of_decodeAt h) h

theorem decode_ne_tooDeep {w : Tagged} (h : w.nesting ≤ CodecError.maxDepth) :
    w.decode ≠ .error .tooDeep :=
  decodeAt_ne_tooDeep (by rwa [Nat.zero_add])

end Tagged

namespace Response

theorem exists_decodeAt_of_decodeItems {depth : Nat} {xs : List Json} {us : List Value}
    (h : decodeItems depth xs = .ok us) : ∀ u ∈ us, ∃ y, decodeAt depth y = .ok u := by
  intro u hu
  obtain ⟨y, -, hy⟩ := Forall₂.exists_of_mem_right (decodeItems_eq_ok_iff.1 h) hu
  exact ⟨y, hy⟩

theorem exists_decodeAt_of_decodeMembers {depth : Nat} {ms : List (String × Json)}
    {us : List (String × Value)} (h : decodeMembers depth ms = .ok us) :
    ∀ u ∈ (Value.map (Entries.ofList us)).members, ∃ y, decodeAt depth y = .ok u := by
  refine forall_mem_map.2 fun e he => ?_
  obtain ⟨m, -, -, hm⟩ := Forall₂.exists_of_mem_right (decodeMembers_eq_ok_iff.1 h)
    (Entries.mem_of_mem_ofList he)
  exact ⟨m.2, hm⟩

theorem members_of_decodeAt {depth : Nat} {x : Json} {v : Value} (h : decodeAt depth x = .ok v) :
    depth ≤ CodecError.maxDepth ∧ ∀ u ∈ v.members, ∃ y, decodeAt (depth + 1) y = .ok u := by
  rw [decodeAt.eq_def, ite_error_eq_ok, Nat.not_lt] at h
  refine ⟨h.1, ?_⟩
  replace h := h.2
  split at h
  case h_1 items =>
    obtain ⟨us, hus, rfl⟩ := bind_pure_eq_ok.1 h
    exact exists_decodeAt_of_decodeItems hus
  case h_2 name payload =>
    cases ht : Tag.ofName? name with simp only [ht] at h
    | none =>
      split at h
      · obtain ⟨u, hu, rfl⟩ := bind_pure_eq_ok.1 h
        exact forall_mem_singleton.2 ⟨_, hu⟩
      · obtain ⟨u, hu, rfl⟩ := bind_pure_eq_ok.1 h
        exact forall_mem_singleton.2 ⟨_, hu⟩
      · cases h
    | some t =>
      cases t with
      | null =>
        cases h
        split <;> exact forall_mem_nil _
      | text =>
        cases h
        exact forall_mem_nil _
      | numbers | binaries =>
        obtain ⟨_, -, h⟩ := bind_eq_ok.1 h
        obtain ⟨_, -, rfl⟩ := bind_pure_eq_ok.1 h
        exact forall_mem_nil _
      | list =>
        dsimp only at h
        split at h
        · obtain ⟨us, hus, rfl⟩ := bind_pure_eq_ok.1 h
          exact exists_decodeAt_of_decodeItems hus
        · cases h
      | map =>
        dsimp only at h
        split at h
        · obtain ⟨us, hus, rfl⟩ := bind_pure_eq_ok.1 h
          exact exists_decodeAt_of_decodeMembers hus
        · cases h
      | _ =>
        obtain ⟨_, -, rfl⟩ := bind_pure_eq_ok.1 h
        exact forall_mem_nil _
  case h_3 members _ =>
    obtain ⟨us, hus, rfl⟩ := bind_pure_eq_ok.1 h
    exact exists_decodeAt_of_decodeMembers hus
  case h_4 => cases h

theorem nesting_le_of_decode {x : Json} {v : Value} (h : decode x = .ok v) :
    v.nesting ≤ CodecError.maxDepth := by
  simpa using Value.add_nesting_le_of_reader members_of_decodeAt h

theorem decode_toJson_ne_tooDeep {w : Tagged} (h : w.nesting ≤ CodecError.maxDepth) :
    decode w.toJson ≠ .error .tooDeep :=
  mt decodeAt_toJson_eq_error_iff.1 (Tagged.decode_ne_tooDeep h)

end Response
end ItemStore
