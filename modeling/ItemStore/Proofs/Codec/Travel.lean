import ItemStore.Proofs.Codec.Document
import ItemStore.Proofs.Number.Travel

/-!
The trip of a value through its tagged form, seen in JSON. Without numeric literals among its texts
a value comes back with the same shape and the same texts, so JSON shows a change exactly if it
shows one of a number.
-/
namespace ItemStore

attribute [local instance (high)] instPowNat

open List

theorem Number.exists_ofLiteral_toJson {n : Number} {l : String} (h : n.literal = .ok l) :
    ∃ m, ofLiteral l = .ok m ∧ (m.toJson = n.toJson ↔ n.Travels) := by
  unfold literal at h
  split at h
  · rename_i hn
    cases h
    obtain ⟨m, hm, hj⟩ := exists_ofText?_text_toJson hn
    exact ⟨m, by rw [ofLiteral, hm], hj⟩
  · cases h

/-- No text in a document is a numeric literal. -/
def Json.Plain (v : Json) : Prop :=
  v.Everywhere fun
    | .string s => isNumericLiteral s = false
    | _ => True

def Json.scaled (negative : Bool) (k e : Nat) (hk : k < 2 ^ (53 : Nat)) (he : e ≤ 971) : Json :=
  .number (.float (.scaled negative k e hk he))

namespace Value

def Plain (v : Value) : Prop :=
  v.Everywhere fun
    | .text s => isNumericLiteral s = false
    | _ => True

@[simp] theorem plain_list {items : List Value} :
    (Value.list items).Plain ↔ ∀ v ∈ items, v.Plain := by
  simp [Plain, everywhere_list]

@[simp] theorem plain_map {entries : List (String × Value)} :
    (Value.map entries).Plain ↔ ∀ e ∈ entries, e.2.Plain := by
  simp [Plain, everywhere_map]

@[simp] theorem plain_text {s : String} : (Value.text s).Plain ↔ isNumericLiteral s = false :=
  everywhere_iff_of_nodes rfl

/-- Every number in a value travels, alone and in sets. -/
def Travels (v : Value) : Prop :=
  v.Everywhere fun
    | .number n => n.Travels
    | .numbers ns => ∀ n ∈ ns, n.Travels
    | _ => True

@[simp] theorem travels_list {items : List Value} :
    (Value.list items).Travels ↔ ∀ v ∈ items, v.Travels := by
  simp [Travels, everywhere_list]

@[simp] theorem travels_map {entries : List (String × Value)} :
    (Value.map entries).Travels ↔ ∀ e ∈ entries, e.2.Travels := by
  simp [Travels, everywhere_map]

@[simp] theorem travels_number {n : Number} : (Value.number n).Travels ↔ n.Travels :=
  everywhere_iff_of_nodes rfl

@[simp] theorem travels_numbers {ns : List Number} :
    (Value.numbers ns).Travels ↔ ∀ n ∈ ns, n.Travels :=
  everywhere_iff_of_nodes rfl

@[simp] theorem travels_text {s : String} : (Value.text s).Travels :=
  (everywhere_iff_of_nodes rfl).2 trivial

theorem map_toJson_eq_iff {α β : Type} {f : α → Json} {g : β → Json} {C : α → Prop} {xs : List α}
    {ys : List β} (h : Forall₂ (fun x y => g y = f x ↔ C x) xs ys) :
    Json.array (ys.map g) = .array (xs.map f) ↔ ∀ x ∈ xs, C x := by
  rw [Json.array.injEq, map_eq_map_iff_forall₂]
  exact forall₂_flip_iff_of_forall₂ h fun _ _ _ hxy => hxy

theorem exists_mapM_ofLiteral {α : Type} {f : α → Except CodecError String} {g : α → Json}
    {C : α → Prop} {xs : List α} {ls : List String}
    (hc : ∀ x ∈ xs, ∀ l, f x = .ok l → ∃ m, Number.ofLiteral l = .ok m ∧ (m.toJson = g x ↔ C x))
    (h : xs.mapM f = .ok ls) : ∃ ms, ls.mapM Number.ofLiteral = .ok ms ∧
      (Json.array (ms.map Number.toJson) = .array (xs.map g) ↔ ∀ x ∈ xs, C x) := by
  obtain ⟨ms, hms, hj⟩ := exists_forall₂_of_forall₂ (mapM_eq_ok_iff.1 h) hc
  exact ⟨ms, mapM_eq_ok_iff.2 hms, map_toJson_eq_iff hj⟩

theorem exists_ofLiteral_of_scalarTag? {v : Value} (ht : v.scalarTag? = some .number)
    (hv : v.Plain) {l : String} (h : v.literal = .ok l) :
    ∃ m, Number.ofLiteral l = .ok m ∧ (m.toJson = v.toJson ↔ v.Travels) := by
  cases v with
  | number n =>
    rw [travels_number]
    exact Number.exists_ofLiteral_toJson h
  | text s =>
    rw [scalarTag?, plain_text.1 hv] at ht
    cases ht
  | _ => cases ht

theorem toJson_of_scalarTag? {v : Value} (ht : v.scalarTag? = some .text) {l : String}
    (h : v.literal = .ok l) : Json.string l = v.toJson ↔ v.Travels := by
  cases v with
  | text s =>
    cases h
    exact iff_of_true rfl travels_text
  | _ => cases ht

/-- What a value is encoded to is decoded, and JSON shows the same of it exactly if every number
travels. -/
theorem exists_decodeAt_toJson {v : Value} {depth : Nat} {w : Tagged}
    (h : v.encodeAt depth = .ok w) (hv : v.Plain) :
    ∃ u, w.decodeAt depth = .ok u ∧ (u.toJson = v.toJson ↔ v.Travels) := by
  induction v generalizing depth w with
    (obtain ⟨hd, h⟩ := encodeAt_eq_ok_iff.1 h; simp only [Tagged.decodeAt_eq_ok_iff])
  | number n =>
    obtain ⟨l, hl, rfl⟩ := h
    obtain ⟨m, hm, hj⟩ := Number.exists_ofLiteral_toJson hl
    exact ⟨_, ⟨hd, m, hm, rfl⟩, hj.trans travels_number.symm⟩
  | text s =>
    cases h
    rw [if_neg (by rw [plain_text.1 hv]; exact Bool.false_ne_true)]
    exact ⟨_, ⟨hd, rfl⟩, iff_of_true rfl travels_text⟩
  | list items ih =>
    rw [plain_list] at hv
    rw [travels_list, toJson, itemsToJson_eq_map]
    obtain ⟨hs, ls, hls, rfl⟩ | ⟨-, ws, hws, rfl⟩ := h
    · by_cases hn : allTagged .number items = true
      · have hc : ∀ v ∈ items, ∀ l, v.literal = .ok l →
            ∃ m, Number.ofLiteral l = .ok m ∧ (m.toJson = v.toJson ↔ v.Travels) :=
          fun v hm l => exists_ofLiteral_of_scalarTag? (scalarTag?_of_allTagged hn v hm) (hv v hm)
        obtain ⟨ms, hms, hj⟩ := exists_mapM_ofLiteral hc hls
        rw [if_pos hn]
        exact ⟨.numbers ms, ⟨hd, ms, hms, rfl⟩, hj⟩
      · have ht := scalarTag?_of_allTagged (hs.2.resolve_left hn)
        have hl := (forall₂_and_left items ls).2 ⟨ht, mapM_eq_ok_iff.1 hls⟩
        have hj : Forall₂ (fun v l => Json.string l = v.toJson ↔ v.Travels) items ls :=
          hl.imp fun _ _ h => toJson_of_scalarTag? h.1 h.2
        rw [if_neg hn]
        exact ⟨.texts ls, ⟨hd, rfl⟩, map_toJson_eq_iff hj⟩
    · obtain ⟨us, hus, hj⟩ :=
        exists_forall₂_of_forall₂ hws fun v hm w hw => ih v hm hw (hv v hm)
      refine ⟨.list us, ⟨hd, us, hus, rfl⟩, ?_⟩
      rw [toJson, itemsToJson_eq_map]
      exact map_toJson_eq_iff hj
  | map entries ih =>
    rw [plain_map] at hv
    rw [travels_map, toJson, entriesToJson_eq_map]
    obtain ⟨ws, hws, rfl⟩ := h
    have hc : ∀ e ∈ entries, ∀ f : String × Tagged, e.1 = f.1 ∧ e.2.encodeAt (depth + 1) = .ok f.2 →
        ∃ g : String × Value, (f.1 = g.1 ∧ f.2.decodeAt (depth + 1) = .ok g.2) ∧
          ((g.1, g.2.toJson) = (e.1, e.2.toJson) ↔ e.2.Travels) := by
      rintro e hm f ⟨hk, hw⟩
      obtain ⟨u, hu, hj⟩ := ih e hm hw (hv e hm)
      exact ⟨(f.1, u), ⟨rfl, hu⟩, by rw [Prod.mk.injEq, and_iff_right hk.symm, hj]⟩
    obtain ⟨us, hus, hj⟩ := exists_forall₂_of_forall₂ hws hc
    refine ⟨.map us, ⟨hd, us, hus, rfl⟩, ?_⟩
    rw [toJson, entriesToJson_eq_map, Json.object.injEq, map_eq_map_iff_forall₂]
    exact forall₂_flip_iff_of_forall₂ hj fun _ _ _ h => h
  | numbers ns =>
    obtain ⟨ls, hls, rfl⟩ := h
    obtain ⟨ms, hms, hj⟩ := exists_mapM_ofLiteral (fun _ _ _ => Number.exists_ofLiteral_toJson) hls
    exact ⟨_, ⟨hd, ms, hms, rfl⟩, hj.trans travels_numbers.symm⟩
  | binary bytes => cases h
  | binaries bs => cases h
  | _ =>
    cases h
    exact ⟨_, ⟨hd, rfl⟩, iff_of_true rfl ((everywhere_iff_of_nodes rfl).2 trivial)⟩

theorem plain_ofJson {v : Json} (h : v.Plain) : (ofJson v).Plain := by
  induction v with
  | string s => exact plain_text.2 (h _ (mem_singleton_self _))
  | array items ih =>
    have hi := (Json.everywhere_array.1 h).2
    rw [ofJson, plain_list, ofItems_eq_map, forall_mem_map]
    exact fun v hv => ih v hv (hi v hv)
  | object members ih =>
    have hm := (Json.everywhere_object.1 h).2
    rw [ofJson, plain_map]
    intro e he
    rw [ofMembers_eq_map] at he
    obtain ⟨m, hm', rfl⟩ := mem_map.1 (Entries.mem_of_mem_ofList he)
    exact ih m hm' (hm m hm')
  | _ => exact (everywhere_iff_of_nodes rfl).2 trivial

/-- A document whose texts are no numeric literals is encoded and decoded again, and what comes back
shows the same in JSON exactly if every number of the document travels. -/
theorem toJson_decode_encode_eq_iff {x : Json} {v : Value} (hx : x.Plain) (hv : ofJson? x = .ok v) :
    ∃ w u, v.encode = .ok w ∧ w.decode = .ok u ∧ (u.toJson = v.toJson ↔ v.Travels) := by
  obtain ⟨hn, rfl⟩ := ofJson?_eq_ok_iff.1 hv
  obtain ⟨w, hw⟩ := exists_encode_ofJson hn
  obtain ⟨u, hu, hj⟩ := exists_decodeAt_toJson hw (plain_ofJson hx)
  exact ⟨w, u, hw, hu, hj⟩

def travelling : Json :=
  .array [.scaled true 3 0 (by decide) (by decide), .scaled false 1 64 (by decide) (by decide),
    .ofInt64 7, .string "u"]

theorem toJson_decode_encode_eq_of_travelling :
    ∃ v w u, travelling.Plain ∧ ofJson? travelling = .ok v ∧ v.encode = .ok w ∧
      w.decode = .ok u ∧ u.toJson = v.toJson := by
  have hx : travelling.Plain := by
    have hu : isNumericLiteral "u" = false := rfl
    simp [travelling, Json.scaled, Json.Plain, Json.Everywhere, Json.nodes, Json.itemsNodes,
      Json.ofInt64, hu]
  have hv : ofJson? travelling = .ok _ := rfl
  obtain ⟨w, u, hw, hu, hj⟩ := toJson_decode_encode_eq_iff hx hv
  refine ⟨_, w, u, hx, hv, hw, hu, hj.2 ?_⟩
  simp only [travels_list, forall_mem_cons, travels_number]
  refine ⟨?_, ?_, trivial, travels_text, forall_mem_nil _⟩
  · exact Binary64.Finite.travels_of_lt Binary64.Finite.toInt?_scaled (by decide)
  · exact Binary64.Finite.travels_of_ge Binary64.Finite.toInt?_scaled (by decide)

/-- The double `10^19` comes back as an integer. -/
theorem exists_toJson_decode_encode_ne :
    ∃ x v w u, x = Json.scaled false (5 ^ (19 : Nat)) 19 (by decide) (by decide) ∧ x.Plain ∧
      ofJson? x = .ok v ∧ v.encode = .ok w ∧ w.decode = .ok u ∧ u.toJson ≠ v.toJson := by
  have hx : (Json.scaled false (5 ^ (19 : Nat)) 19 (by decide) (by decide)).Plain := by
    simp [Json.scaled, Json.Plain, Json.Everywhere, Json.nodes]
  have hw : (ofJson (Json.scaled false (5 ^ (19 : Nat)) 19 (by decide) (by decide))).encode =
      .ok _ := rfl
  obtain ⟨u, hu, hj⟩ := exists_decodeAt_toJson hw (plain_ofJson hx)
  refine ⟨_, _, _, u, rfl, hx, rfl, hw, hu, fun h => ?_⟩
  have ht := travels_number.1 (hj.1 h)
  exact Binary64.Finite.not_travels Binary64.Finite.toInt?_scaled (by decide) ht

end Value
end ItemStore
