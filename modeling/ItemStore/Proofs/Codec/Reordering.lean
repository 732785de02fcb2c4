import ItemStore.Command.Run
import ItemStore.Proofs.Codec.Document
import ItemStore.Proofs.Json.Reordering

/-!
The order in which the members of objects are written does not matter. A document nests as deep and
is read as the same value in any order, so all that is made of the value is the same: its tagged
form, the key that is built from it, and the error if there is none.
-/
namespace ItemStore

open List

namespace Json

theorem Reordered.add_nesting_le_iff {v u : Json} (h : v.Reordered u) {depth n : Nat} :
    depth + u.nesting ≤ n ↔ depth + v.nesting ≤ n := by
  induction v generalizing u depth with
  | array items ih =>
    cases h with
    | scalar h => cases h
    | array hi =>
      rw [add_nesting_array_le_iff, add_nesting_array_le_iff]
      exact and_congr_right' (forall_mem_iff_of_forall₂ hi fun v hv _ h => ih v hv h)
  | object members ih =>
    cases h with
    | scalar h => cases h
    | object _ hv order =>
      rw [add_nesting_object_le_iff, add_nesting_object_le_iff]
      have hm := forall_mem_iff_of_forall₂ (C := fun m => depth + 1 + m.2.nesting ≤ n) hv
        fun m hm _ h => ih m hm h
      exact and_congr_right' ((forall_congr' fun m => by rw [order.mem_iff]).trans hm)
  | _ =>
    cases h
    rfl

end Json

namespace Value

theorem ofMembers_eq_of_match {ms ns : List (String × Json)}
    (h : Entries.Match (fun v u => ofJson u = ofJson v) ms ns) : ofMembers ns = ofMembers ms := by
  rw [ofMembers_eq_map, ofMembers_eq_map]
  exact (map_eq_map_iff_forall₂.2 (h.imp fun m n h => Prod.ext h.1 h.2.symm)).symm

theorem ofJson_eq_of_reordered {v u : Json} (hd : v.Distinct) (h : v.Reordered u) :
    ofJson u = ofJson v := by
  induction v generalizing u with
  | array items ih =>
    have hd := Json.distinct_array.1 hd
    cases h with
    | scalar h => cases h
    | array hi =>
      have hm := (forall₂_and_left _ _).2 ⟨fun v hv u => @ih v hv u (hd v hv), hi⟩
      have he := map_eq_map_iff_forall₂.2 (hm.imp fun v u h => (h.1 u h.2).symm)
      rw [ofJson, ofJson, ofItems_eq_map, ofItems_eq_map, he]
  | object members ih =>
    obtain ⟨hn, hd⟩ := Json.distinct_object.1 hd
    cases h with
    | scalar h => cases h
    | @object _ ns ns' hk hv order =>
      have hm := (forall₂_and_left _ _).2 ⟨fun m hm u => @ih m hm u (hd m hm), hv⟩
      have he : ofMembers ns = ofMembers members :=
        ofMembers_eq_of_match <|
          Entries.match_iff_keys_and_values.2 ⟨hk, hm.imp fun _ n h => h.1 n.2 h.2⟩
      have hkeys : ((ofMembers ns).map Prod.fst).Nodup := by
        rw [he, ofMembers_eq_map, map_map]
        exact hn
      have hp : (ofMembers ns).Perm (ofMembers ns') := by
        rw [ofMembers_eq_map, ofMembers_eq_map]
        exact order.map _
      rw [ofJson, ofJson, ← Entries.ofList_eq_ofList_of_perm hp hkeys, he]
  | _ =>
    cases h
    rfl

theorem ofJson?_eq_of_reordered (d : Json.Document) {u : Json} (h : d.json.Reordered u) :
    ofJson? u = ofJson? d.json := by
  obtain ⟨v, hd⟩ := d
  have hn : u.nesting ≤ CodecError.maxDepth ↔ v.nesting ≤ CodecError.maxDepth := by
    simpa only [Nat.zero_add] using @Json.Reordered.add_nesting_le_iff v u h 0 CodecError.maxDepth
  rcases Nat.lt_or_ge CodecError.maxDepth v.nesting with hlt | hle
  · have hlt' : CodecError.maxDepth < u.nesting := by omega
    rw [ofJson?_eq_tooDeep_iff.2 hlt, ofJson?_eq_tooDeep_iff.2 hlt']
  · rw [ofJson?_eq_ok_iff.2 ⟨hle, rfl⟩,
      ofJson?_eq_ok_iff.2 ⟨hn.2 hle, (ofJson_eq_of_reordered hd h).symm⟩]

theorem exists_encode_or_tooDeep (v : Json) :
    (∃ w, (ofJson? v >>= encode) = .ok w) ∨ (ofJson? v >>= encode) = .error .tooDeep := by
  rcases Nat.lt_or_ge CodecError.maxDepth v.nesting with hlt | hle
  · rw [ofJson?_eq_tooDeep_iff.2 hlt]
    exact .inr rfl
  · rw [ofJson?_eq_ok_iff.2 ⟨hle, rfl⟩]
    exact .inl (exists_encode_ofJson hle)

end Value

/-- Documents that differ in the order of their objects' members have one tagged form, with one
document, or both nest too deep. Under every schema the same item is built from them, or they are
refused with the same error. -/
theorem encode_and_buildKey_of_reordered {v u : Json} (hd : v.Distinct) (h : v.Reordered u) :
    (Value.ofJson? u >>= Value.encode) = (Value.ofJson? v >>= Value.encode) ∧
      ((∃ w, (Value.ofJson? v >>= Value.encode) = .ok w) ∨
        (Value.ofJson? v >>= Value.encode) = .error .tooDeep) ∧
      Command.encode u = Command.encode v ∧
      ∀ schema : Schema, schema.buildKeyOfJson u = schema.buildKeyOfJson v := by
  have he := Value.ofJson?_eq_of_reordered ⟨v, hd⟩ h
  refine ⟨by rw [he], Value.exists_encode_or_tooDeep v, ?_, fun schema => ?_⟩
  · rw [Command.encode, Command.encode, he]
  · rw [Schema.buildKeyOfJson, Schema.buildKeyOfJson, he]

theorem Json.Reordered.swapped {k l : String} {v v' u u' : Json} (hv : v.Reordered v')
    (hu : u.Reordered u') :
    Reordered (.object [(k, v), (l, u)]) (.object [(l, u'), (k, v')]) :=
  @Reordered.object _ [(k, v'), (l, u')] _ rfl (.cons hv (.cons hu .nil)) (.swap _ _ _)

/-- The items of an array keep their places, but the members of an object among them do not. Of two
attributes that are refused, the error names the first by name, wherever it is written. -/
theorem encode_and_buildKey_of_reordered_nested :
    ∃ v u a b : Json, v = .object [("id", .string "7"), ("doc", .array [.string "1",
        .object [("y", .null), ("x", .strings ["2", "03"])]])] ∧
      u = .object [("doc", .array [.string "1",
        .object [("x", .strings ["2", "03"]), ("y", .null)]]), ("id", .string "7")] ∧
      a = .object [("n", .null), ("id", .bool true)] ∧
      b = .object [("id", .bool true), ("n", .null)] ∧
      v.Distinct ∧ v.Reordered u ∧ a.Distinct ∧ a.Reordered b ∧
      (Value.ofJson? u >>= Value.encode) = .ok (.map [("doc", .list [.number "1",
        .map [("x", .numbers ["2", "03"]), ("y", .null true)]]), ("id", .number "7")]) ∧
      Schema.buildKeyOfJson ⟨"t", [⟨"id", .partition⟩], [⟨"n", .number⟩, ⟨"id", .text⟩]⟩ b =
        .error (.schema (.typeMismatch "id" .text .boolean)) := by
  have hx : (Json.strings ["2", "03"]).Reordered (.strings ["2", "03"]) :=
    Json.reordered_strings_iff.2 rfl
  have hdoc := Json.Reordered.array (.cons (.scalar (v := .string "1") rfl)
    (.cons (.swapped (k := "y") (l := "x") (.scalar (v := .null) rfl) hx) .nil))
  have hvu := Json.Reordered.swapped (k := "id") (l := "doc") (.scalar (v := .string "7") rfl) hdoc
  have hab := Json.Reordered.swapped (k := "n") (l := "id") (.scalar (v := .null) rfl)
    (.scalar (v := .bool true) rfl)
  have hv : Json.Distinct (.object [("id", .string "7"), ("doc", .array [.string "1",
      .object [("y", .null), ("x", .strings ["2", "03"])]])]) := by simp [Json.strings]
  have ha : Json.Distinct (.object [("n", .null), ("id", .bool true)]) := by simp
  obtain ⟨he, -, -, -⟩ := encode_and_buildKey_of_reordered hv hvu
  obtain ⟨-, -, -, hb⟩ := encode_and_buildKey_of_reordered ha hab
  exact ⟨_, _, _, _, rfl, rfl, rfl, rfl, hv, hvu, ha, hab, he.trans rfl, (hb _).trans rfl⟩

end ItemStore
