import ItemStore.Proofs.Codec.Coercion
import ItemStore.Proofs.Codec.Response
import ItemStore.Proofs.Number.Literal
import ItemStore.Proofs.Value.Nesting

/-!
What was encoded can be decoded again, unless some text in it is a numeric literal that overflows.
Such a text travels as a number although no number is read from it.
-/
namespace ItemStore

open List

theorem Decodes.exists_ok_iff {α : Type} {eq : α → α → Bool} {expected : Option α}
    {r : Except CodecError α} (h : Decodes eq expected r) :
    (∃ a, r = .ok a) ↔ ∃ a, expected = some a := by
  cases expected with
  | none =>
    obtain ⟨fault, rfl⟩ := h
    simp
  | some a =>
    obtain ⟨b, rfl, -⟩ := h
    simp

namespace Value

theorem coercedItems?_eq_some_iff {vs us : List Value} :
    coercedItems? vs = some us ↔ Forall₂ (fun v u => v.coerced? = some u) vs us :=
  eq_some_iff_forall₂ coercedItems? rfl fun _ _ => rfl

theorem coercedEntries?_eq_some_iff {es us : List (String × Value)} :
    coercedEntries? es = some us ↔ Entries.Match (fun v u => v.coerced? = some u) es us :=
  Entries.eq_some_iff_match coercedEntries? rfl fun _ _ _ => rfl

/-- No text in a value is a numeric literal that overflows. -/
def InRange (v : Value) : Prop :=
  v.Everywhere fun
    | .text s => ¬IsOverflowing s
    | _ => True

@[simp] theorem inRange_list {items : List Value} :
    (Value.list items).InRange ↔ ∀ v ∈ items, v.InRange := by
  simp [InRange, everywhere_list]

@[simp] theorem inRange_map {entries : List (String × Value)} :
    (Value.map entries).InRange ↔ ∀ e ∈ entries, e.2.InRange := by
  simp [InRange, everywhere_map]

@[simp] theorem inRange_text {s : String} : (Value.text s).InRange ↔ ¬IsOverflowing s :=
  everywhere_iff_of_nodes rfl

theorem exists_number?_iff {v : Value} (h : v.scalarTag? = some .number) :
    (∃ n, v.number? = some n) ↔ ∃ u, v.coerced? = some u := by
  cases v with
  | number n => exact iff_of_true ⟨n, rfl⟩ ⟨_, rfl⟩
  | text s =>
    have hs : isNumericLiteral s = true := by
      by_contra hs
      simp [scalarTag?, hs] at h
    simp [number?, coerced?, hs]
  | _ => cases h

theorem exists_text?_iff {v : Value} (h : v.scalarTag? = some .text) :
    (∃ s, v.text? = some s) ↔ ∃ u, v.coerced? = some u := by
  cases v with
  | text s =>
    have hs : isNumericLiteral s = false := by
      by_contra hs
      simp [scalarTag?, hs] at h
    exact iff_of_true ⟨s, rfl⟩ ⟨.text s, by simp [coerced?, hs]⟩
  | _ => cases h

theorem exists_coerced?_list {items : List Value} :
    (∃ u, (Value.list items).coerced? = some u) ↔ ∀ v ∈ items, ∃ u, v.coerced? = some u := by
  rw [coerced?]
  by_cases he : items.isEmpty = true
  · rw [if_pos he, isEmpty_iff.1 he]
    exact iff_of_true ⟨_, rfl⟩ (forall_mem_nil _)
  by_cases hn : allTagged .number items = true
  · rw [if_neg he, if_pos hn, exists_map_eq_some]
    simp only [mapM_eq_some_iff, exists_forall₂_iff]
    exact forall₂_congr fun v hv => exists_number?_iff (scalarTag?_of_allTagged hn v hv)
  by_cases ht : allTagged .text items = true
  · rw [if_neg he, if_neg hn, if_pos ht, exists_map_eq_some]
    simp only [mapM_eq_some_iff, exists_forall₂_iff]
    exact forall₂_congr fun v hv => exists_text?_iff (scalarTag?_of_allTagged ht v hv)
  · rw [if_neg he, if_neg hn, if_neg ht, exists_map_eq_some]
    simp only [coercedItems?_eq_some_iff, exists_forall₂_iff]

theorem exists_coerced?_map {entries : List (String × Value)} :
    (∃ u, (Value.map entries).coerced? = some u) ↔ ∀ e ∈ entries, ∃ u, e.2.coerced? = some u := by
  rw [coerced?, exists_map_eq_some]
  simp only [coercedEntries?_eq_some_iff, Entries.exists_match_iff]

theorem exists_coerced?_iff {v : Value} : (∃ u, v.coerced? = some u) ↔ v.InRange := by
  induction v with
  | text s =>
    rw [inRange_text, coerced?]
    by_cases hs : isNumericLiteral s = true
    · rw [if_pos hs, exists_map_eq_some, Number.exists_ofText?_iff hs]
    · rw [if_neg hs]
      exact iff_of_true ⟨_, rfl⟩ fun ho => hs ho.isNumericLiteral
  | list items ih =>
    rw [exists_coerced?_list, inRange_list]
    exact forall₂_congr ih
  | map entries ih =>
    rw [exists_coerced?_map, inRange_map]
    exact forall₂_congr ih
  | _ => exact iff_of_true ⟨_, rfl⟩ ((everywhere_iff_of_nodes rfl).2 trivial)

/-- What a value is encoded to is decoded exactly if no text in the value overflows. -/
theorem exists_decodeAt_iff {v : Value} {depth : Nat} {w : Tagged} (h : v.encodeAt depth = .ok w) :
    (∃ d, w.decodeAt depth = .ok d) ↔ v.InRange :=
  (decodes_encodeAt v h).exists_ok_iff.trans exists_coerced?_iff

theorem ordered_of_encodeAt {v : Value} {depth : Nat} {w : Tagged} (h : v.encodeAt depth = .ok w)
    (hv : v.Ordered) : w.Ordered := by
  induction v generalizing depth w with (obtain ⟨-, h⟩ := encodeAt_eq_ok_iff.1 h)
  | list items ih =>
    rw [ordered_list] at hv
    obtain ⟨-, ls, -, rfl⟩ | ⟨-, ws, hws, rfl⟩ := h
    · split <;> simp
    · rw [Tagged.ordered_list]
      intro w hw
      obtain ⟨v, hm, hvw⟩ := Forall₂.exists_of_mem_right hws hw
      exact ih v hm hvw (hv v hm)
  | map entries ih =>
    rw [ordered_map] at hv
    obtain ⟨ws, hws, rfl⟩ := h
    rw [Tagged.ordered_map]
    refine ⟨hws.sorted hv.1, fun w hw => ?_⟩
    obtain ⟨e, he, -, hew⟩ := Forall₂.exists_of_mem_right hws hw
    exact ih e he hew (hv.2 e he)
  | number n =>
    obtain ⟨l, -, rfl⟩ := h
    simp
  | numbers ns =>
    obtain ⟨ls, -, rfl⟩ := h
    simp
  | text s =>
    cases h
    split <;> simp
  | binary bytes => cases h
  | binaries bs => cases h
  | _ =>
    cases h
    simp

end Value

def OrderedValue.encoded (v : OrderedValue) {depth : Nat} {w : Tagged}
    (h : v.value.encodeAt depth = .ok w) : OrderedTagged := ⟨w, Value.ordered_of_encodeAt h v.ordered⟩

namespace Json

def InRange (v : Json) : Prop :=
  v.Everywhere fun
    | .string s => ¬IsOverflowing s
    | _ => True

@[simp] theorem inRange_array {items : List Json} :
    (Json.array items).InRange ↔ ∀ v ∈ items, v.InRange := by
  simp [InRange, everywhere_array]

@[simp] theorem inRange_object {members : List (String × Json)} :
    (Json.object members).InRange ↔ ∀ m ∈ members, m.2.InRange := by
  simp [InRange, everywhere_object]

@[simp] theorem inRange_string {s : String} : (Json.string s).InRange ↔ ¬IsOverflowing s :=
  everywhere_iff_of_nodes rfl

theorem inRange_iff_ofJson {v : Json} (h : v.Distinct) : (Value.ofJson v).InRange ↔ v.InRange := by
  induction v with
  | string s => simp [Value.ofJson]
  | array items ih =>
    rw [distinct_array] at h
    rw [Value.ofJson, Value.inRange_list, inRange_array, Value.ofItems_eq_map, forall_mem_map]
    exact forall₂_congr fun v hv => ih v hv (h v hv)
  | object members ih =>
    rw [distinct_object] at h
    have hk : ((Value.ofMembers members).map Prod.fst).Nodup := by
      rw [Value.ofMembers_eq_map, map_map]
      exact h.1
    rw [Value.ofJson, Value.inRange_map, inRange_object]
    simp only [(Entries.ofList_perm hk).mem_iff]
    rw [Value.ofMembers_eq_map, forall_mem_map]
    exact forall₂_congr fun m hm => ih m hm (h.2 m hm)
  | _ =>
    exact iff_of_true ((Value.everywhere_iff_of_nodes rfl).2 trivial)
      ((everywhere_iff_of_nodes rfl).2 trivial)

end Json

namespace Response

/-- What a document was encoded to, the response decoder reads exactly if nothing overflows. -/
theorem exists_decodeAt_toJson_iff (v : OrderedValue) {depth : Nat} {w : Tagged}
    (hw : v.value.encodeAt depth = .ok w) :
    (∃ d, decodeAt depth w.toJson = .ok d) ↔ v.value.InRange := by
  rw [← Value.exists_decodeAt_iff hw]
  exact exists_congr fun d => decodeAt_document_eq_ok_iff (v.encoded hw)

/-- A document that is encoded is read back exactly if no text in it is a numeric literal that
overflows, however long its other texts and however deep it nests. -/
theorem exists_decode_toJson_iff {x : Json} {v : Value} {w : Tagged} (hx : x.Distinct)
    (hv : Value.ofJson? x = .ok v) (hw : v.encode = .ok w) :
    (∃ d, decode w.toJson = .ok d) ↔ x.InRange := by
  have he := Value.eq_ofJson_of_ofJsonAt hv
  subst he
  rw [← Json.inRange_iff_ofJson hx]
  exact exists_decodeAt_toJson_iff (.ofJson x) hw

theorem exists_decode_toJson_iff_of_set :
    (∃ x v w d, x = .object [("b", .array [.string "12", .string "x"]), ("a", .string "-75")] ∧
        x.Distinct ∧ Value.ofJson? x = .ok v ∧ v.encode = .ok w ∧ decode w.toJson = .ok d) ∧
      ∃ x v, x = .array [.string "12", .string (powerOfTen 309)] ∧ x.Distinct ∧
        Value.ofJson? x = .ok v ∧ v.encode = .ok (.numbers ["12", powerOfTen 309]) ∧
        ¬∃ d, decode (Tagged.numbers ["12", powerOfTen 309]).toJson = .ok d := by
  have hread : ∀ {s : String} {n : Number}, isNumericLiteral s = true →
      Number.ofText? s = some n → ¬IsOverflowing s :=
    fun hs hn => (Number.exists_ofText?_iff hs).1 ⟨_, hn⟩
  have hplain : ¬IsOverflowing "x" := fun h => Bool.false_ne_true h.isNumericLiteral
  have hlarge := isOverflowing_powerOfTen (Nat.le_refl 309)
  constructor
  · have hx : (Json.object [("b", .array [.string "12", .string "x"]),
        ("a", .string "-75")]).Distinct := by simp
    obtain ⟨d, hd⟩ := (exists_decode_toJson_iff hx rfl rfl).2 (by
      simp [hplain, @hread "12" (.int 12) rfl rfl, @hread "-75" (.int (-75)) rfl rfl])
    exact ⟨_, _, _, d, rfl, hx, rfl, rfl, hd⟩
  · have hx : (Json.array [.string "12", .string (powerOfTen 309)]).Distinct := by simp
    have hw : (Value.list [.text "12", .text (powerOfTen 309)]).encode =
        .ok (.numbers ["12", powerOfTen 309]) := by
      have h12 : isNumericLiteral "12" = true := rfl
      have ht : Value.allTagged .number [.text "12", .text (powerOfTen 309)] = true := by
        simp [Value.allTagged, Value.scalarTag?, h12, hlarge.isNumericLiteral]
      exact Value.encodeAt_eq_ok_iff.2
        ⟨by decide, .inl ⟨⟨cons_ne_nil _ _, .inl ht⟩, _, rfl, if_pos ht⟩⟩
    refine ⟨_, _, rfl, hx, rfl, hw, fun h => ?_⟩
    have hr := (exists_decode_toJson_iff hx rfl hw).1 h
    simp [hlarge] at hr

/-- A text that is written as a number is not read again. -/
theorem exists_encode_not_decode : ∃ x v w, x = .string (powerOfTen 309) ∧ x.Distinct ∧
    Value.ofJson? x = .ok v ∧ v.encode = .ok w ∧ ¬∃ d, decode w.toJson = .ok d := by
  refine ⟨_, _, _, rfl, Json.distinct_string _, rfl, rfl, fun h => ?_⟩
  have hr := (exists_decodeAt_toJson_iff (.ofJson (.string (powerOfTen 309))) rfl).1 h
  exact Value.inRange_text.1 hr (isOverflowing_powerOfTen (Nat.le_refl _))

end Response
end ItemStore
