import ItemStore.Proofs.Key.Readable

/-!
Items of tables that declare no types. Their attributes are encoded as values of their own, and in
an item they stand one level deeper. So what is built for an attribute that nests to the last level
is neither what the item is encoded to nor what can be decoded as an item.
-/
namespace ItemStore

open List

namespace Value

theorem cutOff_encodeAt (v : Value) (depth : Nat) :
    CutOff .tooDeep (v.encodeAt (depth + 1)) (v.encodeAt depth) := by
  induction v generalizing depth with
    (rw [encodeAt.eq_def (depth + 1), encodeAt.eq_def depth]
     by_cases hd : CodecError.maxDepth < depth + 1
     · rw [if_pos hd]
       exact .inl rfl
     rw [if_neg hd, if_neg (by omega)])
  | list items ih =>
    dsimp only
    split
    · exact .refl _
    split
    · exact .refl _
    split
    · exact .refl _
    · rw [encodeItems_eq_mapM, encodeItems_eq_mapM]
      exact (cutOff_mapM fun v hv => ih v hv (depth + 1)).bind_pure _
  | map entries ih =>
    dsimp only
    rw [encodeEntries_eq_mapM, encodeEntries_eq_mapM]
    exact (cutOff_mapM fun e he => (ih e he (depth + 1)).bind_pure _).bind_pure _
  | _ => exact .refl _

end Value

namespace Item

theorem cutOff_encode (item : Item) : CutOff .tooDeep item.encode (Value.encodeEntries 0 item) := by
  rw [encode, Value.encodeEntries_eq_mapM, Value.encodeEntries_eq_mapM]
  exact cutOff_mapM fun e _ => (e.2.cutOff_encodeAt 0).bind_pure _

theorem encode_ne_tooDeep {item : Item} (h : ∀ e ∈ item, e.2.nesting < CodecError.maxDepth) :
    item.encode ≠ .error .tooDeep := by
  intro he
  rw [encode, Value.encodeEntries_eq_mapM, mapM_eq_error_iff] at he
  obtain ⟨e, hm, he⟩ := he.exists_mem
  exact Value.encodeAt_ne_tooDeep (by have := h e hm; omega) (bind_pure_eq_error.1 he)

end Item

namespace TaggedItem

/-- An item is decoded exactly if its numbers can be read and each attribute leaves a level. -/
theorem exists_decode_iff {wire : TaggedItem} :
    (∃ item, wire.decode = .ok item) ↔
      (∀ f ∈ wire, f.2.Readable) ∧ ∀ f ∈ wire, f.2.nesting < CodecError.maxDepth := by
  have hm : (∃ item, wire.decode = .ok item) ↔ ∀ f ∈ wire, ∃ v, f.2.decodeAt 1 = .ok v := by
    rw [← Entries.exists_match_iff (R := fun w v => Tagged.decodeAt 1 w = .ok v)]
    exact exists_congr fun _ => Tagged.decodeEntries_eq_ok_iff
  rw [hm, ← forall₂_and]
  refine forall₂_congr fun f _ => Tagged.exists_decodeAt_iff.trans ?_
  rw [Nat.add_comm, Nat.lt_iff_add_one_le]

theorem decode_eq_tooDeep {wire : TaggedItem} (hr : ∀ f ∈ wire, f.2.Readable)
    (hd : ¬∀ f ∈ wire, f.2.nesting < CodecError.maxDepth) : wire.decode = .error .tooDeep := by
  cases he : wire.decode with
  | ok item => exact absurd (exists_decode_iff.1 ⟨item, he⟩).2 hd
  | error e =>
    rw [decode, Tagged.decodeEntries_eq_mapM, mapM_eq_error_iff] at he
    obtain ⟨f, hf, he⟩ := he.exists_mem
    rcases Tagged.decodeAt_eq_error (bind_pure_eq_error.1 he) with ⟨rfl, -⟩ | ⟨-, hn⟩
    · rfl
    · exact absurd (hr f hf) hn

end TaggedItem

namespace Schema

variable {schema : Schema} {item : Item}

theorem buildKey_eq_of_undeclared (hd : schema.declarations = [])
    (hk : ∃ name, schema.partitionKey? = some name ∧ (item.lookup name).isSome = true) :
    schema.buildKey item = (Value.encodeEntries 0 item).mapError .codec := by
  obtain ⟨name, hk, hi⟩ := hk
  have ha : ∀ e : String × Value, (do return (e.1, ← schema.encodeAttribute e.1 e.2)) =
      (do return (e.1, ← e.2.encodeAt 0)).mapError Error.codec := by
    rintro ⟨k, v⟩
    have ht : schema.typeOf? k = none := by simp [typeOf?, hd]
    simp only [encodeAttribute, ht, Value.encode]
    cases v.encodeAt 0 <;> rfl
  simp only [buildKey, hk, if_pos hi, ha, mapM_mapError]
  rw [Value.encodeEntries_eq_mapM]

theorem encode_eq_ok_iff_of_encodeEntries {wire : TaggedItem}
    (h : Value.encodeEntries 0 item = .ok wire) :
    item.encode = .ok wire ↔ ∀ f ∈ wire, f.2.nesting < CodecError.maxDepth := by
  rw [Item.encode, Value.encodeEntries_eq_ok_iff]
  refine forall₂_iff_forall_mem_right (Value.encodeEntries_eq_ok_iff.1 h) ?_
  rintro e - f ⟨hk, hf⟩
  refine (and_iff_right hk).trans ((Value.encodeAt_eq_ok_iff_of_encodeAt hf).trans ?_)
  rw [Nat.add_comm, Nat.lt_iff_add_one_le]

/-- Without declared types an item is built and encoded alike, success and failure, unless the
encoding nests too deep and the building does not. Attributes that leave a level are never in the
way; and what was built from others is neither what the item is encoded to nor what can be decoded,
although it was accepted. -/
theorem buildKey_eq_encode_iff (hd : schema.declarations = [])
    (hk : ∃ name, schema.partitionKey? = some name ∧ (item.lookup name).isSome = true) :
    (schema.buildKey item = item.encode.mapError .codec ↔
        (item.encode = .error .tooDeep → schema.buildKey item = .error (.codec .tooDeep))) ∧
      ((∀ e ∈ item, e.2.nesting < CodecError.maxDepth) →
        schema.buildKey item = item.encode.mapError .codec) ∧
      ∀ wire, schema.buildKey item = .ok wire →
        (item.encode = .ok wire ↔ ∀ f ∈ wire, f.2.nesting < CodecError.maxDepth) ∧
        ((∃ i, TaggedItem.decode wire = .ok i) ↔
          (∀ f ∈ wire, f.2.Readable) ∧ ∀ f ∈ wire, f.2.nesting < CodecError.maxDepth) := by
  have hb := buildKey_eq_of_undeclared hd hk
  have hsame : item.encode ≠ .error .tooDeep →
      schema.buildKey item = item.encode.mapError .codec := by
    intro hn
    rw [hb, (item.cutOff_encode).resolve_left hn]
  refine ⟨⟨fun h he => ?_, fun h => ?_⟩, fun h => hsame (Item.encode_ne_tooDeep h),
    fun wire h => ⟨?_, TaggedItem.exists_decode_iff⟩⟩
  · rw [h, he]
    rfl
  · by_cases he : item.encode = .error .tooDeep
    · rw [h he, he]
      rfl
    · exact hsame he
  · rw [hb] at h
    exact encode_eq_ok_iff_of_encodeEntries (mapError_eq_ok.1 h)

def untyped : Schema := ⟨"t", [⟨"id", .partition⟩], []⟩

def maps : Nat → Value
  | 0 => .null
  | n + 1 => .map [("a", maps n)]

def taggedMaps : Nat → Tagged
  | 0 => .null true
  | n + 1 => .map [("a", taggedMaps n)]

def itemOfMaps (n : Nat) : Item := [("doc", maps n), ("id", .text "a")]

def taggedItemOfMaps (n : Nat) : TaggedItem := [("doc", taggedMaps n), ("id", .text "a")]

@[simp] theorem nesting_maps (n : Nat) : (maps n).nesting = n := by
  induction n with
  | zero => rfl
  | succ n ih =>
    rw [maps, Value.nesting, Value.entriesNesting, Value.entriesNesting, ih, Nat.max_zero]

@[simp] theorem nesting_taggedMaps (n : Nat) : (taggedMaps n).nesting = n := by
  induction n with
  | zero => rfl
  | succ n ih =>
    rw [taggedMaps, Tagged.nesting, Tagged.entriesNesting, Tagged.entriesNesting, ih, Nat.max_zero]

theorem readable_taggedMaps (n : Nat) : (taggedMaps n).Readable := by
  induction n with
  | zero => exact (Tagged.everywhere_iff_of_nodes rfl).2 trivial
  | succ n ih => exact Tagged.everywhere_map.2 ⟨trivial, forall_mem_singleton.2 ih⟩

theorem encodeAt_maps {n depth : Nat} (h : depth + n ≤ CodecError.maxDepth) :
    (maps n).encodeAt depth = .ok (taggedMaps n) := by
  induction n generalizing depth with
  | zero => exact Value.encodeAt_eq_ok_iff.2 ⟨by omega, rfl⟩
  | succ n ih =>
    have hn : (maps n).encodeAt (depth + 1) = .ok (taggedMaps n) := ih (by omega)
    exact Value.encodeAt_eq_ok_iff.2 ⟨by omega, _, .cons ⟨rfl, hn⟩ .nil, rfl⟩

theorem encodeEntries_itemOfMaps {n depth : Nat} (h : depth + n ≤ CodecError.maxDepth) :
    Value.encodeEntries depth (itemOfMaps n) = .ok (taggedItemOfMaps n) := by
  have hid : (Value.text "a").encodeAt depth = .ok (.text "a") :=
    Value.encodeAt_eq_ok_iff.2 ⟨by omega, rfl⟩
  exact Value.encodeEntries_eq_ok_iff.2 (.cons ⟨rfl, encodeAt_maps h⟩ (.cons ⟨rfl, hid⟩ .nil))

theorem buildKey_eq_encode_iff_of_maps :
    untyped.declarations = [] ∧
      (∃ name, untyped.partitionKey? = some name ∧ ((itemOfMaps 31).lookup name).isSome = true) ∧
      untyped.buildKey (itemOfMaps 31) = (itemOfMaps 31).encode.mapError .codec ∧
      (itemOfMaps 31).encode = .ok (taggedItemOfMaps 31) := by
  have hk : ∃ name, untyped.partitionKey? = some name ∧
      ((itemOfMaps 31).lookup name).isSome = true := ⟨"id", rfl, rfl⟩
  obtain ⟨-, hsame, -⟩ := @buildKey_eq_encode_iff untyped (itemOfMaps 31) rfl hk
  refine ⟨rfl, hk, hsame ?_, encodeEntries_itemOfMaps (by decide)⟩
  simp [itemOfMaps, Value.nesting, CodecError.maxDepth]

/-- With one level more the item is built, and it is neither encoded nor decoded. -/
theorem exists_buildKey_ne_encode :
    ∃ item wire, item = itemOfMaps 32 ∧ untyped.buildKey item = .ok wire ∧
      item.encode = .error .tooDeep ∧ TaggedItem.decode wire = .error .tooDeep := by
  have hw : Value.encodeEntries 0 (itemOfMaps 32) = .ok (taggedItemOfMaps 32) :=
    encodeEntries_itemOfMaps (by decide)
  have hb : untyped.buildKey (itemOfMaps 32) = .ok (taggedItemOfMaps 32) := by
    rw [buildKey_eq_of_undeclared rfl ⟨"id", rfl, rfl⟩, hw]
    rfl
  have hdeep : ¬∀ f ∈ taggedItemOfMaps 32, f.2.nesting < CodecError.maxDepth := by
    simp [taggedItemOfMaps, CodecError.maxDepth]
  have he : (itemOfMaps 32).encode = .error .tooDeep := by
    refine (Item.cutOff_encode _).resolve_right fun h => hdeep ?_
    exact (encode_eq_ok_iff_of_encodeEntries hw).1 (h.trans hw)
  have hread : ∀ f ∈ taggedItemOfMaps 32, f.2.Readable :=
    forall_mem_cons.2 ⟨readable_taggedMaps 32,
      forall_mem_singleton.2 ((Tagged.everywhere_iff_of_nodes rfl).2 trivial)⟩
  exact ⟨_, _, rfl, hb, he, TaggedItem.decode_eq_tooDeep hread hdeep⟩

end Schema
end ItemStore
