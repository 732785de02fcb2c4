import ItemStore.Proofs.Codec.Members
import ItemStore.Proofs.Tagged.Json

/-!
A document that is a tagged value is decoded as the tagged value that it is. None of the looser
forms that a response may have shadows a well-formed one, and the levels are counted alike.
-/
namespace ItemStore

open List

namespace Response

theorem bytesOf_string {s : String} {bytes : List UInt8} (h : Base64.ofText? s = some bytes) :
    bytesOf (.string s) = .ok bytes := by
  rw [bytesOf, h]

theorem mapM_numberOf_strings (literals : List String) :
    (literals.map Json.string).mapM numberOf = literals.mapM Number.ofLiteral := by
  rw [List.mapM_map]
  rfl

theorem textsOf_strings (ss : List String) : textsOf (.strings ss) = .ok ss :=
  mapM_eq_ok_iff.2 (forall₂_map_left_iff.2 (forall₂_same.2 fun _ _ => rfl))

/-- What a document decodes to is what the tagged value it is read as decodes to, at every level. -/
theorem decodeAt_eq_ok_iff {v : Json} {w : Tagged} (hv : v.Distinct)
    (hw : Tagged.ofJson? v = some w) {depth : Nat} {u : Value} :
    decodeAt depth v = .ok u ↔ w.decodeAt depth = .ok u := by
  induction w generalizing v depth u with
  | binary bytes =>
    obtain ⟨_, rfl, s, rfl, hs⟩ := Tagged.ofJson?_eq_some_iff.1 hw
    show (if _ then _ else do return Value.binary (← bytesOf (.string s))) = _ ↔ _
    rw [bytesOf_string hs]
    rfl
  | numbers literals =>
    obtain ⟨_, rfl, rfl⟩ := Tagged.ofJson?_eq_some_iff.1 hw
    show (if _ then _ else do return Value.numbers (← (literals.map Json.string).mapM numberOf)) =
      _ ↔ _
    rw [mapM_numberOf_strings]
    rfl
  | texts ss =>
    obtain ⟨_, rfl, rfl⟩ := Tagged.ofJson?_eq_some_iff.1 hw
    show (if _ then _ else do return Value.texts (← textsOf (.strings ss))) = _ ↔ _
    rw [textsOf_strings]
    rfl
  | binaries bs =>
    obtain ⟨_, rfl, ss, rfl, hs⟩ := Tagged.ofJson?_eq_some_iff.1 hw
    have hb : (ss.map Json.string).mapM bytesOf = .ok bs :=
      mapM_eq_ok_iff.2 (forall₂_map_left_iff.2 (hs.imp fun _ _ => bytesOf_string))
    show (if _ then _ else do return Value.binaries (← (ss.map Json.string).mapM bytesOf)) = _ ↔ _
    rw [hb]
    rfl
  | list items ih =>
    obtain ⟨_, rfl, vs, rfl, hvs⟩ := Tagged.ofJson?_eq_some_iff.1 hw
    rw [Json.distinct_entry, Json.distinct_array] at hv
    have hi : ∀ us, decodeItems (depth + 1) vs = .ok us ↔
        Tagged.decodeItems (depth + 1) items = .ok us := by
      intro us
      rw [decodeItems_eq_ok_iff, Tagged.decodeItems_eq_ok_iff]
      refine forall₂_iff_of_forall₂ hvs ?_
      intro v hm w hn hvw u
      exact ih w hn (hv v hm) hvw
    show (if _ then _ else do return Value.list (← decodeItems (depth + 1) vs)) = _ ↔
      (if _ then _ else do return Value.list (← Tagged.decodeItems (depth + 1) items)) = _
    split
    · rfl
    · simp only [bind_pure_eq_ok, hi]
  | map entries ih =>
    obtain ⟨_, rfl, ms, es, rfl, hes, rfl⟩ := Tagged.ofJson?_eq_some_iff.1 hw
    rw [Json.distinct_entry, Json.distinct_object] at hv
    obtain ⟨hn, hv⟩ := hv
    have hk : (es.map Prod.fst).Nodup := hes.keys ▸ hn
    have hm : ∀ us, Tagged.decodeEntries (depth + 1) (Entries.ofList es) = .ok us ↔
        ∃ fs, decodeMembers (depth + 1) ms = .ok fs ∧ us = Entries.ofList fs := by
      intro us
      simp only [Tagged.decodeEntries_eq_ok_iff, decodeMembers_eq_ok_iff]
      rw [Entries.match_ofList_iff (fun _ _ _ h h' => Except.ok.inj (h.symm.trans h')) hk]
      refine exists_congr fun fs => and_congr_left' (Iff.symm ?_)
      refine forall₂_iff_of_forall₂ hes ?_
      rintro ⟨k, v⟩ hm ⟨_, w⟩ he ⟨rfl, hvw⟩ ⟨l, u⟩
      exact and_congr_right' (ih _ ((Entries.ofList_perm hk).mem_iff.2 he) (hv _ hm) hvw)
    show (if _ then _ else do return Value.map (Entries.ofList (← decodeMembers (depth + 1) ms))) =
      _ ↔ (if _ then _ else do
        return Value.map (← Tagged.decodeEntries (depth + 1) (Entries.ofList es))) = _
    split
    · rfl
    · simp only [bind_pure_eq_ok, hm]
      constructor
      · rintro ⟨fs, hfs, rfl⟩
        exact ⟨_, ⟨fs, hfs, rfl⟩, rfl⟩
      · rintro ⟨_, ⟨fs, hfs, rfl⟩, rfl⟩
        exact ⟨fs, hfs, rfl⟩
  | _ =>
    obtain ⟨_, rfl, rfl⟩ := Tagged.ofJson?_eq_some_iff.1 hw
    rfl

theorem decodeAt_document_eq_ok_iff (w : OrderedTagged) {depth : Nat} {u : Value} :
    decodeAt depth w.document.json = .ok u ↔ w.tagged.decodeAt depth = .ok u :=
  decodeAt_eq_ok_iff w.document.distinct (Tagged.ofJson?_toJson w.ordered)

/-- A document that is a tagged value decodes to a value exactly if the tagged value does. -/
theorem decode_eq_ok_iff {v : Json} {w : Tagged} (hv : v.Distinct)
    (hw : Tagged.ofJson? v = some w) (u : Value) : decode v = .ok u ↔ w.decode = .ok u :=
  decodeAt_eq_ok_iff hv hw

/-- A member's key that is a tag's name is no tag, and members may be in any order. -/
theorem decode_eq_ok_iff_of_tag_name :
    ∃ v w, v = .entry "M" (.object [("b", .entry "BS" (.strings ["AQI="])),
        ("a", .entry "M" (.entry "S" (.entry "L" (.array [.entry "NULL" (.bool false)]))))]) ∧
      v.Distinct ∧ Tagged.ofJson? v = some w ∧
      w = .map [("a", .map [("S", .list [.null false])]), ("b", .binaries [[1, 2]])] ∧
      decode v = .ok (.map [("a", .map [("S", .list [.sentinel])]), ("b", .binaries [[1, 2]])]) := by
  refine ⟨_, _, rfl, ?_, rfl, rfl, (decode_eq_ok_iff ?_ rfl _).2 rfl⟩
  · simp [Json.strings]
  · simp [Json.strings]

end Response
end ItemStore
