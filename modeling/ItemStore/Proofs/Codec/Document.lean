import ItemStore.Proofs.Codec.Members
import ItemStore.Proofs.Value.Nesting

/-!
Documents can be encoded. No number of a document is infinite and nothing in it is binary, and
encoding goes no deeper than reading did. So the limit on the levels of a document is all that
stands between it and its tagged form.
-/
namespace ItemStore

open List

theorem Number.literal_ofJson (n : Json.Number) :
    (Number.ofJson n).literal = .ok (Number.ofJson n).text := by
  refine if_pos ?_
  cases n with
  | integer n _ => simp only [Number.ofJson]; split <;> rfl
  | float x => rfl

namespace Value

theorem exists_literal_ofJson {v : Json} {t : Tag} (h : (ofJson v).scalarTag? = some t)
    (ht : t = .number ∨ t = .text) : ∃ l, (ofJson v).literal = .ok l := by
  cases v with
  | number n => exact ⟨_, Number.literal_ofJson n⟩
  | string s => exact ⟨s, rfl⟩
  | null =>
    cases h
    rcases ht with ht | ht <;> cases ht
  | bool b =>
    cases h
    rcases ht with ht | ht <;> cases ht
  | array items => cases h
  | object members => cases h

/-- What is read at a level can be encoded at that level. -/
theorem exists_encodeAt_ofJson {v : Json} {depth : Nat}
    (h : depth + v.nesting ≤ CodecError.maxDepth) : ∃ w, (ofJson v).encodeAt depth = .ok w := by
  induction v generalizing depth with simp only [encodeAt_eq_ok_iff]
  | array items ih =>
    obtain ⟨hd, hn⟩ := Json.add_nesting_array_le_iff.1 h
    rw [ofJson, ofItems_eq_map]
    by_cases hs : MakeSet (items.map ofJson)
    · have ht : ∃ t, (t = .number ∨ t = .text) ∧ allTagged t (items.map ofJson) = true := by
        rcases hs.2 with ha | ha
        · exact ⟨_, .inl rfl, ha⟩
        · exact ⟨_, .inr rfl, ha⟩
      obtain ⟨t, ht, ha⟩ := ht
      have hl : ∀ u ∈ items.map ofJson, ∃ l, u.literal = .ok l := by
        intro u hu
        have hut := scalarTag?_of_allTagged ha u hu
        obtain ⟨v, -, rfl⟩ := mem_map.1 hu
        exact exists_literal_ofJson hut ht
      obtain ⟨ls, hls⟩ := exists_forall₂_iff.2 hl
      exact ⟨_, Nat.not_lt.2 hd, .inl ⟨hs, ls, mapM_eq_ok_iff.2 hls, rfl⟩⟩
    · have hm : ∀ u ∈ items.map ofJson, ∃ w, u.encodeAt (depth + 1) = .ok w :=
        forall_mem_map.2 fun v hv => ih v hv (hn v hv)
      obtain ⟨ws, hws⟩ := exists_forall₂_iff.2 hm
      exact ⟨_, Nat.not_lt.2 hd, .inr ⟨hs, ws, hws, rfl⟩⟩
  | object members ih =>
    obtain ⟨hd, hn⟩ := Json.add_nesting_object_le_iff.1 h
    have hm : ∃ ws, Entries.Match (fun v w => v.encodeAt (depth + 1) = .ok w)
        (Entries.ofList (ofMembers members)) ws := by
      refine Entries.exists_match_iff.2 fun e he => ?_
      rw [ofMembers_eq_map] at he
      obtain ⟨m, hm, rfl⟩ := mem_map.1 (Entries.mem_of_mem_ofList he)
      exact ih m hm (hn m hm)
    obtain ⟨ws, hws⟩ := hm
    exact ⟨_, Nat.not_lt.2 hd, ws, hws, rfl⟩
  | number n => exact ⟨_, Nat.not_lt.2 h, _, Number.literal_ofJson n, rfl⟩
  | _ => exact ⟨_, Nat.not_lt.2 h, rfl⟩

theorem exists_encode_ofJson {v : Json} (h : v.nesting ≤ CodecError.maxDepth) :
    ∃ w, (ofJson v).encode = .ok w :=
  exists_encodeAt_ofJson (by rwa [Nat.zero_add])

theorem exists_encode_ofJson_of_isScalar {v : Json} (h : v.isScalar = true) :
    ∃ w, (ofJson v).encode = .ok w := by
  refine exists_encode_ofJson ?_
  rw [Json.nesting_of_isScalar h]
  exact Nat.zero_le _

/-- Within the limit a document is read as the value that it is without one, and this value can be
encoded. Beyond the limit it is refused, whatever it holds. -/
theorem ofJson?_cut_off_at_maxDepth (v : Json) :
    (v.nesting ≤ CodecError.maxDepth →
      ofJson? v = .ok (ofJson v) ∧ ∃ w, (ofJson v).encode = .ok w) ∧
      (CodecError.maxDepth < v.nesting → ofJson? v = .error .tooDeep) :=
  ⟨fun h => ⟨ofJson?_eq_ok_iff.2 ⟨h, rfl⟩, exists_encode_ofJson h⟩, ofJson?_eq_tooDeep_iff.2⟩

def nestedBlocks (n : Nat) : Json :=
  Nat.repeat (fun v => Json.array [.null, .object [("a", v)]]) n (.array [])

theorem nesting_nestedBlocks (n : Nat) : (nestedBlocks n).nesting = n * 2 := by
  have hf : ∀ v, (Json.array [.null, .object [("a", v)]]).nesting = v.nesting + 2 := by
    intro v
    simp only [Json.nesting, Json.itemsNesting, Json.membersNesting]
    omega
  rw [nestedBlocks, Json.nesting_repeat hf]
  exact Nat.zero_add _

/-- At the last level an empty array may stand, and with one level more the document is refused. -/
theorem ofJson?_cut_off_at_maxDepth_of_blocks :
    (nestedBlocks 16).nesting ≤ CodecError.maxDepth ∧
      ofJson? (nestedBlocks 16) = .ok (ofJson (nestedBlocks 16)) ∧
      (∃ w, (ofJson (nestedBlocks 16)).encode = .ok w) ∧
      CodecError.maxDepth < (Json.array [nestedBlocks 16]).nesting ∧
      ofJson? (.array [nestedBlocks 16]) = .error .tooDeep := by
  have hn : (nestedBlocks 16).nesting = CodecError.maxDepth := nesting_nestedBlocks 16
  generalize nestedBlocks 16 = v at hn ⊢
  have hd : CodecError.maxDepth < (Json.array [v]).nesting := by
    rw [← hn]
    exact Nat.lt_of_lt_of_le (Nat.lt_succ_self _) (Nat.le_max_left _ _)
  obtain ⟨hread, hencode⟩ := (ofJson?_cut_off_at_maxDepth v).1 (Nat.le_of_eq hn)
  exact ⟨Nat.le_of_eq hn, hread, hencode, hd, (ofJson?_cut_off_at_maxDepth _).2 hd⟩

end Value
end ItemStore
