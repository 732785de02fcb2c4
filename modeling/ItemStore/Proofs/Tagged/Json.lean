import ItemStore.Proofs.Tagged.Node
import ItemStore.Proofs.Traversal

/-!
Which documents are read as a tagged value: one entry, under the name of its tag, with a payload of
the tag's shape. What is written is read back.
-/
namespace ItemStore

open List

theorem Tag.ofName?_eq_some_iff {name : String} {t : Tag} :
    Tag.ofName? name = some t ↔ name = t.name := by
  constructor
  · intro h
    unfold Tag.ofName? at h
    have hb := find?_some h
    exact (beq_iff_eq.1 hb).symm
  · rintro rfl
    exact Tag.ofName?_name t

theorem Tag.name_injective : Function.Injective Tag.name := by
  intro s t h
  exact Option.some_inj.1 ((Tag.ofName?_name s).symm.trans (Tag.ofName?_eq_some_iff.2 h))

theorem Json.strings?_eq_some_iff {items : List Json} {ss : List String} :
    Json.strings? items = some ss ↔ items = ss.map .string := by
  induction items generalizing ss with
  | nil => simp [Json.strings?, eq_comm]
  | cons v vs ih =>
    cases v with
    | string s =>
      cases ss with
      | nil => simp [Json.strings?]
      | cons t ts => simp [Json.strings?, ih, and_comm]
    | _ => cases ss <;> simp [Json.strings?]

namespace Tagged

/-- The payloads that a tagged value is read from. The members of a map may be in any order, and
of those with one key the last counts. -/
def HasPayload : Tagged → Json → Prop
  | .null marker, payload => payload = .bool marker
  | .bool b, payload => payload = .bool b
  | .number literal, payload => payload = .string literal
  | .text s, payload => payload = .string s
  | .binary bytes, payload => ∃ s, payload = .string s ∧ Base64.ofText? s = some bytes
  | .numbers literals, payload => payload = .strings literals
  | .texts ss, payload => payload = .strings ss
  | .binaries bs, payload =>
    ∃ ss, payload = .strings ss ∧ Forall₂ (fun s bytes => Base64.ofText? s = some bytes) ss bs
  | .list items, payload => ∃ vs, payload = .array vs ∧ Forall₂ (fun v w => ofJson? v = some w) vs items
  | .map entries, payload =>
    ∃ ms es, payload = .object ms ∧ Entries.Match (fun v w => ofJson? v = some w) ms es ∧
      entries = Entries.ofList es

theorem itemsOfJson?_eq_some_iff {vs : List Json} {ws : List Tagged} :
    itemsOfJson? vs = some ws ↔ Forall₂ (fun v w => ofJson? v = some w) vs ws :=
  eq_some_iff_forall₂ itemsOfJson? rfl fun _ _ => rfl

theorem entriesOfJson?_eq_some_iff {ms : List (String × Json)} {es : List (String × Tagged)} :
    entriesOfJson? ms = some es ↔ Entries.Match (fun v w => ofJson? v = some w) ms es :=
  Entries.eq_some_iff_match entriesOfJson? rfl fun _ _ _ => rfl

theorem ofJson?_eq_some_iff {v : Json} {w : Tagged} :
    ofJson? v = some w ↔ ∃ payload, v = .entry w.tag.name payload ∧ w.HasPayload payload := by
  constructor
  · intro h
    unfold ofJson? at h
    split at h
    · split at h
      case h_11 => cases h
      all_goals
        rename_i ht
        obtain rfl := Tag.ofName?_eq_some_iff.1 ht
      case h_1 | h_2 | h_3 | h_4 =>
        cases h
        exact ⟨_, rfl, rfl⟩
      case h_5 s =>
        obtain ⟨bytes, hb, rfl⟩ := Option.map_eq_some_iff.1 h
        exact ⟨_, rfl, s, rfl, hb⟩
      case h_6 | h_7 =>
        obtain ⟨ss, hs, rfl⟩ := Option.map_eq_some_iff.1 h
        exact ⟨_, rfl, congrArg Json.array (Json.strings?_eq_some_iff.1 hs)⟩
      case h_8 =>
        obtain ⟨ss, hs, h⟩ := Option.bind_eq_some_iff.1 h
        obtain ⟨bs, hb, rfl⟩ := Option.map_eq_some_iff.1 h
        exact ⟨_, rfl, ss, congrArg Json.array (Json.strings?_eq_some_iff.1 hs),
          mapM_eq_some_iff.1 hb⟩
      case h_9 vs =>
        obtain ⟨ws, hw, rfl⟩ := Option.map_eq_some_iff.1 h
        exact ⟨_, rfl, vs, rfl, itemsOfJson?_eq_some_iff.1 hw⟩
      case h_10 ms =>
        obtain ⟨es, he, rfl⟩ := Option.map_eq_some_iff.1 h
        exact ⟨_, rfl, ms, es, rfl, entriesOfJson?_eq_some_iff.1 he, rfl⟩
    · cases h
  · rintro ⟨payload, rfl, h⟩
    cases w with
    | null marker => cases h; rfl
    | bool b => cases h; rfl
    | number literal => cases h; rfl
    | text s => cases h; rfl
    | binary bytes =>
      obtain ⟨s, rfl, hb⟩ := h
      show (Base64.ofText? s).map binary = _
      rw [hb, Option.map_some]
    | numbers literals =>
      cases h
      show (Json.strings? _).map numbers = _
      rw [Json.strings?_eq_some_iff.2 rfl, Option.map_some]
    | texts ss =>
      cases h
      show (Json.strings? _).map texts = _
      rw [Json.strings?_eq_some_iff.2 rfl, Option.map_some]
    | binaries bs =>
      obtain ⟨ss, rfl, hb⟩ := h
      show ((Json.strings? _).bind fun ss => (ss.mapM Base64.ofText?).map binaries) = _
      rw [Json.strings?_eq_some_iff.2 rfl, Option.bind_some, mapM_eq_some_iff.2 hb, Option.map_some]
    | list items =>
      obtain ⟨vs, rfl, hv⟩ := h
      show (itemsOfJson? vs).map list = _
      rw [itemsOfJson?_eq_some_iff.2 hv, Option.map_some]
    | map entries =>
      obtain ⟨ms, es, rfl, he, rfl⟩ := h
      show (entriesOfJson? ms).map (fun es => map (Entries.ofList es)) = _
      rw [entriesOfJson?_eq_some_iff.2 he, Option.map_some]

theorem ofJson?_toJson {w : Tagged} (h : w.Ordered) : ofJson? w.toJson = some w := by
  induction w with
  | binary bytes =>
    exact ofJson?_eq_some_iff.2 ⟨_, rfl, _, rfl, Base64.ofText?_text bytes⟩
  | binaries bs =>
    have hb : Forall₂ (fun s bytes => Base64.ofText? s = some bytes) (bs.map Base64.text) bs :=
      forall₂_map_left_iff.2 (forall₂_same.2 fun bytes _ => Base64.ofText?_text bytes)
    exact ofJson?_eq_some_iff.2 ⟨_, rfl, _, rfl, hb⟩
  | list items ih =>
    have hi : Forall₂ (fun v w => ofJson? v = some w) (itemsToJson items) items := by
      rw [itemsToJson_eq_map]
      exact forall₂_map_left_iff.2 (forall₂_same.2 fun w hw => ih w hw (ordered_list.1 h w hw))
    exact ofJson?_eq_some_iff.2 ⟨_, rfl, _, rfl, hi⟩
  | map entries ih =>
    obtain ⟨hs, ho⟩ := ordered_map.1 h
    have he : Entries.Match (fun v w => ofJson? v = some w) (entriesToJson entries) entries := by
      rw [entriesToJson_eq_map]
      exact forall₂_map_left_iff.2 (forall₂_same.2 fun e he => ⟨rfl, ih e he (ho e he)⟩)
    exact ofJson?_eq_some_iff.2 ⟨_, rfl, _, _, rfl, he, (Entries.ofList_of_sorted hs).symm⟩
  | _ => exact ofJson?_eq_some_iff.2 ⟨_, rfl, rfl⟩

theorem distinct_toJson {w : Tagged} (h : w.Ordered) : w.toJson.Distinct := by
  induction w with
  | list items ih =>
    rw [toJson, Json.distinct_entry, Json.distinct_array, itemsToJson_eq_map, forall_mem_map]
    exact fun w hw => ih w hw (ordered_list.1 h w hw)
  | map entries ih =>
    obtain ⟨hs, ho⟩ := ordered_map.1 h
    rw [toJson, Json.distinct_entry, Json.distinct_object, map_fst_entriesToJson,
      entriesToJson_eq_map, forall_mem_map]
    exact ⟨Entries.nodup_of_sorted ⟨_, hs⟩, fun e he => ih e he (ho e he)⟩
  | _ => simp [toJson, Json.strings]

end Tagged

def OrderedTagged.document (w : OrderedTagged) : Json.Document :=
  ⟨w.tagged.toJson, Tagged.distinct_toJson w.ordered⟩

end ItemStore
