import ItemStore.Proofs.Base64
import ItemStore.Proofs.Json.Reordering
import ItemStore.Proofs.Tagged.Json

/-!
The documents of tagged values. Each tagged value has one document, up to the order in which the
members of its maps are written, and every document that is read is one of these.
-/
namespace ItemStore

open List

/-- The documents that are tagged values: one known tag over a payload of its shape, at every
level. Bytes are written in base64. -/
inductive Json.IsTagged : Json → Prop
  | null (marker : Bool) : IsTagged (.entry "NULL" (.bool marker))
  | bool (b : Bool) : IsTagged (.entry "BOOL" (.bool b))
  | number (literal : String) : IsTagged (.entry "N" (.string literal))
  | text (s : String) : IsTagged (.entry "S" (.string s))
  | binary (bytes : List UInt8) : IsTagged (.entry "B" (.string (Base64.text bytes)))
  | numbers (literals : List String) : IsTagged (.entry "NS" (.strings literals))
  | texts (ss : List String) : IsTagged (.entry "SS" (.strings ss))
  | binaries (bs : List (List UInt8)) : IsTagged (.entry "BS" (.strings (bs.map Base64.text)))
  | list {items : List Json} (h : ∀ v ∈ items, IsTagged v) : IsTagged (.entry "L" (.array items))
  | map {members : List (String × Json)} (h : ∀ m ∈ members, IsTagged m.2) :
    IsTagged (.entry "M" (.object members))

theorem Base64.forall₂_ofText?_iff {ss : List String} {bs : List (List UInt8)} :
    Forall₂ (fun s bytes => ofText? s = some bytes) ss bs ↔ ss = bs.map text := by
  simp only [ofText?_eq_some_iff]
  rw [← @forall₂_eq_eq_eq String, forall₂_map_right_iff]

namespace Tagged

theorem hasPayload_binary_iff {bytes : List UInt8} {payload : Json} :
    (Tagged.binary bytes).HasPayload payload ↔ payload = .string (Base64.text bytes) := by
  simp only [HasPayload, Base64.ofText?_eq_some_iff, exists_eq_right]

theorem hasPayload_binaries_iff {bs : List (List UInt8)} {payload : Json} :
    (Tagged.binaries bs).HasPayload payload ↔ payload = .strings (bs.map Base64.text) := by
  simp only [HasPayload, Base64.forall₂_ofText?_iff, exists_eq_right]

theorem isTagged_of_ofJson? {j : Json} {w : Tagged} (h : ofJson? j = some w) : j.IsTagged := by
  obtain ⟨payload, hj, hp⟩ := ofJson?_eq_some_iff.1 h
  rw [hj]
  cases w with
  | list items =>
    obtain ⟨vs, rfl, hvs⟩ := hp
    refine .list fun v hv => ?_
    obtain ⟨w, -, hvw⟩ := Forall₂.exists_of_mem_left hvs hv
    exact isTagged_of_ofJson? hvw
  | map entries =>
    obtain ⟨ms, es, rfl, hes, -⟩ := hp
    refine .map fun m hm => ?_
    obtain ⟨e, -, -, hme⟩ := Forall₂.exists_of_mem_left hes hm
    exact isTagged_of_ofJson? hme
  | binary bytes =>
    cases hasPayload_binary_iff.1 hp
    exact .binary bytes
  | binaries bs =>
    cases hasPayload_binaries_iff.1 hp
    exact .binaries bs
  | null marker => cases hp; exact .null marker
  | bool b => cases hp; exact .bool b
  | number literal => cases hp; exact .number literal
  | text s => cases hp; exact .text s
  | numbers literals => cases hp; exact .numbers literals
  | texts ss => cases hp; exact .texts ss
termination_by sizeOf j
decreasing_by
  · have := sizeOf_lt_of_mem hv
    simp [hj, Json.entry]
    omega
  · have := sizeOf_lt_of_mem hm
    obtain ⟨k, v⟩ := m
    simp [hj, Json.entry] at *
    omega

theorem exists_ofJson?_iff {j : Json} : (∃ w, ofJson? j = some w) ↔ j.IsTagged := by
  constructor
  · rintro ⟨w, hw⟩
    exact isTagged_of_ofJson? hw
  · intro h
    induction h with
    | list h ih =>
      obtain ⟨ws, hws⟩ := exists_forall₂_iff.2 ih
      exact ⟨.list ws, ofJson?_eq_some_iff.2 ⟨_, rfl, _, rfl, hws⟩⟩
    | map h ih =>
      obtain ⟨es, hes⟩ := (Entries.exists_match_iff (R := fun v w => ofJson? v = some w)).2 ih
      exact ⟨.map (Entries.ofList es), ofJson?_eq_some_iff.2 ⟨_, rfl, _, es, rfl, hes, rfl⟩⟩
    | binary bytes =>
      exact ⟨.binary bytes, ofJson?_eq_some_iff.2 ⟨_, rfl, hasPayload_binary_iff.2 rfl⟩⟩
    | binaries bs =>
      exact ⟨.binaries bs, ofJson?_eq_some_iff.2 ⟨_, rfl, hasPayload_binaries_iff.2 rfl⟩⟩
    | null marker => exact ⟨.null marker, rfl⟩
    | bool b => exact ⟨.bool b, rfl⟩
    | number literal => exact ⟨.number literal, rfl⟩
    | text s => exact ⟨.text s, rfl⟩
    | numbers literals => exact ⟨.numbers literals, ofJson?_eq_some_iff.2 ⟨_, rfl, rfl⟩⟩
    | texts ss => exact ⟨.texts ss, ofJson?_eq_some_iff.2 ⟨_, rfl, rfl⟩⟩

theorem eq_entry_iff_of_payload {w : Tagged} {j p : Json}
    (hw : w.toJson = .entry w.tag.name p) (ho : w.Ordered)
    (hp : ∀ v, w.HasPayload v ↔ v.Reordered p) :
    (∃ payload, j = .entry w.tag.name payload ∧ w.HasPayload payload) ↔
      w.Ordered ∧ j.Reordered w.toJson := by
  rw [hw, Json.reordered_entry_iff, and_iff_right ho]
  simp only [hp]

/-- A document is read as a tagged value exactly if it is that value's document up to the order of
members. -/
theorem ofJson?_eq_some_iff_reordered {j : Json} (hj : j.Distinct) {w : Tagged} :
    ofJson? j = some w ↔ w.Ordered ∧ j.Reordered w.toJson := by
  rw [ofJson?_eq_some_iff]
  induction w generalizing j with
  | list items ih =>
    have hi : ∀ vs, (Json.array vs).Distinct →
        (Forall₂ (fun v w => ofJson? v = some w) vs items ↔ (∀ w ∈ items, w.Ordered) ∧
          Forall₂ (fun v w => v.Reordered w.toJson) vs items) := fun vs hvs =>
      forall₂_iff_and_forall_mem fun v hv w hw =>
        ofJson?_eq_some_iff.trans (ih w hw (Json.distinct_array.1 hvs v hv))
    rw [toJson, Json.reordered_entry_iff, itemsToJson_eq_map, ordered_list]
    simp only [HasPayload, Json.reordered_array_iff, forall₂_map_right_iff]
    constructor
    · rintro ⟨_, rfl, vs, rfl, hvs⟩
      obtain ⟨ho, hr⟩ := (hi vs (Json.distinct_entry.1 hj)).1 hvs
      exact ⟨ho, _, rfl, vs, rfl, hr⟩
    · rintro ⟨ho, _, rfl, vs, rfl, hr⟩
      exact ⟨_, rfl, vs, rfl, (hi vs (Json.distinct_entry.1 hj)).2 ⟨ho, hr⟩⟩
  | map entries ih =>
    have hm : ∀ ms es, (Json.object ms).Distinct → es.Perm entries →
        (Entries.Match (fun v w => ofJson? v = some w) ms es ↔ (∀ e ∈ es, e.2.Ordered) ∧
          Entries.Match (fun v w => v.Reordered w.toJson) ms es) := by
      intro ms es hms hes
      refine forall₂_iff_and_forall_mem fun m hm e he => ?_
      dsimp only
      rw [ofJson?_eq_some_iff, ih e (hes.mem_iff.1 he) ((Json.distinct_object.1 hms).2 m hm),
        and_left_comm]
    rw [toJson, Json.reordered_entry_iff, entriesToJson_eq_map, ordered_map]
    simp only [HasPayload, Json.reordered_object_map_iff]
    constructor
    · rintro ⟨_, rfl, ms, es, rfl, hes, rfl⟩
      have hd := Json.distinct_entry.1 hj
      have hp : es.Perm (Entries.ofList es) :=
        (Entries.ofList_perm (hes.keys ▸ (Json.distinct_object.1 hd).1)).symm
      obtain ⟨ho, hr⟩ := (hm ms es hd hp).1 hes
      exact ⟨⟨Entries.sorted_ofList es, fun e he => ho e (hp.mem_iff.2 he)⟩, _, rfl, ms, es, rfl,
        hr, hp⟩
    · rintro ⟨⟨hs, ho⟩, _, rfl, ms, es, rfl, hr, hp⟩
      have hes := (hm ms es (Json.distinct_entry.1 hj) hp).2
        ⟨fun e he => ho e (hp.mem_iff.1 he), hr⟩
      exact ⟨_, rfl, ms, es, rfl, hes, (Entries.ofList_eq_of_perm ⟨_, hs⟩ hp).symm⟩
  | binary bytes =>
    exact eq_entry_iff_of_payload rfl (by simp) fun v =>
      hasPayload_binary_iff.trans (Json.reordered_scalar_iff rfl).symm
  | binaries bs =>
    exact eq_entry_iff_of_payload rfl (by simp) fun v =>
      hasPayload_binaries_iff.trans Json.reordered_strings_iff.symm
  | numbers literals =>
    exact eq_entry_iff_of_payload rfl (by simp) fun v => Json.reordered_strings_iff.symm
  | texts ss => exact eq_entry_iff_of_payload rfl (by simp) fun v => Json.reordered_strings_iff.symm
  | _ => exact eq_entry_iff_of_payload rfl (by simp) fun v => (Json.reordered_scalar_iff rfl).symm

/-- What is written is read back. A document that is read as a tagged value is the one that the
value is written as, up to the order of members; and those documents are read that have one known
tag over a payload of its shape, at every level, and no others. -/
theorem ofJson?_toJson_and_reordered :
    (∀ w : Tagged, w.Ordered → ofJson? w.toJson = some w) ∧
      (∀ j : Json, j.Distinct → ∀ w, ofJson? j = some w ↔ w.Ordered ∧ j.Reordered w.toJson) ∧
      ∀ j : Json, (∃ w, ofJson? j = some w) ↔ j.IsTagged :=
  ⟨fun _ => ofJson?_toJson, fun _ hj _ => ofJson?_eq_some_iff_reordered hj,
    fun _ => exists_ofJson?_iff⟩

/-- Members at two levels out of order, one of them named like a tag. -/
theorem ofJson?_toJson_and_reordered_nested :
    ∃ j w, j = .entry "M" (.object [("b", .entry "L" (.array [.entry "NULL" (.bool false),
          .entry "M" (.object [("S", .entry "N" (.string "1")),
            ("B", .entry "B" (.string "/w=="))])])),
        ("a", .entry "BS" (.strings ["", "AQI="]))]) ∧
      w = .map [("a", .binaries [[], [1, 2]]),
        ("b", .list [.null false, .map [("B", .binary [255]), ("S", .number "1")]])] ∧
      j.Distinct ∧ ofJson? j = some w ∧ w.Ordered ∧ j.Reordered w.toJson ∧
      ofJson? w.toJson = some w ∧ j.IsTagged := by
  obtain ⟨hback, hread, htag⟩ := ofJson?_toJson_and_reordered
  refine ⟨_, _, rfl, rfl, ?_⟩
  have hj : (Json.entry "M" (.object [("b", .entry "L" (.array [.entry "NULL" (.bool false),
      .entry "M" (.object [("S", .entry "N" (.string "1")), ("B", .entry "B" (.string "/w=="))])])),
      ("a", .entry "BS" (.strings ["", "AQI="]))])).Distinct := by
    simp [Json.strings]
  have hw := (hread _ hj _).1 rfl
  exact ⟨hj, rfl, hw.1, hw.2, hback _ hw.1, (htag _).1 ⟨_, rfl⟩⟩

end Tagged
end ItemStore
