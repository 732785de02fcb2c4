import ItemStore.Proofs.Codec.Response

/-!
The attributes of an item come back as an object without a tag. It is decoded as the map of these
attributes, unless it has a single attribute with the name of a tag and is taken for a tagged value.
-/
namespace ItemStore

open List

/-- Whether a map whose entries stand in an object of their own is taken for something else. Under
the name of the map tag an object of entries is expected again. -/
def Tagged.misread : Tagged → Bool
  | .map [(name, w)] =>
    match Tag.ofName? name with
    | none => false
    | some .map => w.misread
    | some _ => true
  | .map _ => false
  | _ => true
termination_by structural w => w

theorem Tagged.toJson_eq_entry (w : Tagged) : ∃ payload, w.toJson = .entry w.tag.name payload := by
  cases w <;> exact ⟨_, rfl⟩

namespace Response

theorem decodeAt_unknown {name : String} (hn : Tag.ofName? name = none) (depth : Nat)
    (ms : List (String × Json)) :
    decodeAt depth (.object [(name, .object ms)]) =
      decodeAt depth (.entry "M" (.object [(name, .object ms)])) := by
  rw [decodeAt.eq_def]
  simp only [hn]
  show (if _ then _ else do return Value.map [(name, ← decodeAt (depth + 1) (.object ms))]) =
    (if _ then _ else do return Value.map (Entries.ofList
      (← decodeMembers (depth + 1) [(name, .object ms)])))
  rw [decodeMembers, decodeMembers]
  cases decodeAt (depth + 1) (.object ms) <;> rfl

theorem decodeAt_object {ms : List (String × Json)} (h : ∀ m, ms ≠ [m]) (depth : Nat) :
    decodeAt depth (.object ms) = decodeAt depth (.entry "M" (.object ms)) := by
  match ms with
  | [] => rfl
  | [m] => exact absurd rfl (h m)
  | _ :: _ :: _ => rfl

theorem decodeAt_map_entry {depth : Nat} {name : String} {v : Json} {u : Value} :
    decodeAt depth (.entry "M" (.entry name v)) = .ok u ↔
      ¬CodecError.maxDepth < depth ∧
        ∃ a, decodeAt (depth + 1) v = .ok a ∧ .map [(name, a)] = u := by
  show (if _ then _ else do
    return Value.map (Entries.ofList (← decodeMembers (depth + 1) [(name, v)]))) = _ ↔ _
  simp [ite_error_eq_ok, decodeMembers, Entries.ofList, Entries.add]

theorem decodeAt_map_singleton {depth : Nat} {name : String} {w : Tagged} {u : Value} :
    (Tagged.map [(name, w)]).decodeAt depth = .ok u ↔
      ¬CodecError.maxDepth < depth ∧
        ∃ a, w.decodeAt (depth + 1) = .ok a ∧ .map [(name, a)] = u := by
  show (if _ then _ else do
    return Value.map (← Tagged.decodeEntries (depth + 1) [(name, w)])) = _ ↔ _
  simp [ite_error_eq_ok, Tagged.decodeEntries]

/-- The object of a map's entries decodes as the map, if it is not taken for something else. -/
theorem decodeAt_entries {w : Tagged} {es : List (String × Tagged)} (hw : w = .map es)
    (ho : w.Ordered) (hm : w.misread = false) {depth : Nat} {u : Value} :
    decodeAt depth (.object (Tagged.entriesToJson es)) = .ok u ↔ w.decodeAt depth = .ok u := by
  fun_induction Tagged.misread w generalizing es depth u with
  | case1 name w hn =>
    cases hw
    obtain ⟨payload, hp⟩ := w.toJson_eq_entry
    rw [← decodeAt_document_eq_ok_iff ⟨_, ho⟩]
    show decodeAt depth (.object [(name, w.toJson)]) = _ ↔
      decodeAt depth (.entry "M" (.object [(name, w.toJson)])) = _
    rw [hp, Json.entry, decodeAt_unknown hn]
  | case2 name w hn ih =>
    cases hw
    obtain rfl := Tag.ofName?_eq_some_iff.1 hn
    obtain ⟨entries, rfl⟩ : ∃ entries, w = .map entries := by
      cases w <;> first | exact ⟨_, rfl⟩ | cases hm
    have ho' : (Tagged.map entries).Ordered := (Tagged.ordered_map.1 ho).2 _ (mem_singleton.2 rfl)
    show decodeAt depth (.entry "M" (.entry "M" (.object (Tagged.entriesToJson entries)))) = _ ↔
      (Tagged.map [("M", .map entries)]).decodeAt depth = _
    simp only [decodeAt_map_entry, decodeAt_map_singleton, ih rfl ho' hm]
  | case3 => cases hm
  | case4 entries h =>
    cases hw
    have hs : ∀ m, Tagged.entriesToJson entries ≠ [m] := by
      intro m he
      have hl : entries.length = 1 := by
        simpa [Tagged.entriesToJson_eq_map] using congrArg List.length he
      obtain ⟨⟨name, w⟩, rfl⟩ := List.length_eq_one_iff.1 hl
      exact h name w rfl
    rw [decodeAt_object hs, ← decodeAt_document_eq_ok_iff ⟨_, ho⟩]
    rfl
  | case5 => cases hm

theorem decodeAt_tag_object_ne {t : Tag} (ht : t ≠ .map) {depth : Nat} {ms : List (String × Json)}
    {us : List (String × Value)} : decodeAt depth (.entry t.name (.object ms)) ≠ .ok (.map us) := by
  intro h
  rw [Json.entry, decodeAt.eq_def, ite_error_eq_ok] at h
  simp only [Tag.ofName?_name] at h
  cases t with
  | map => exact ht rfl
  | _ => cases h.2

/-- An object that is taken for something else never decodes as the map of its entries. -/
theorem decodeAt_entries_ne {w : Tagged} {es : List (String × Tagged)} (hw : w = .map es)
    (hm : w.misread = true) {depth : Nat} {u : Value} (h : w.decodeAt depth = .ok u) :
    decodeAt depth (.object (Tagged.entriesToJson es)) ≠ .ok u := by
  fun_induction Tagged.misread w generalizing es depth u with
  | case1 => cases hm
  | case2 name w hn ih =>
    cases hw
    obtain rfl := Tag.ofName?_eq_some_iff.1 hn
    obtain ⟨-, a, ha, rfl⟩ := decodeAt_map_singleton.1 h
    obtain ⟨payload, hp⟩ := w.toJson_eq_entry
    intro hj
    have hj : decodeAt depth (.entry "M" w.toJson) = .ok (.map [("M", a)]) := hj
    rw [hp, decodeAt_map_entry] at hj
    obtain ⟨-, b, hb, he⟩ := hj
    simp only [Value.map.injEq, cons.injEq, Prod.mk.injEq, and_true] at he
    obtain ⟨hn, rfl⟩ := he
    have ht : w.tag = .map := Tag.name_injective hn
    cases w with
    | map entries =>
      cases hp
      exact ih rfl hm ha hb
    | _ => cases ht
  | case3 name w t ht hn =>
    cases hw
    obtain rfl := Tag.ofName?_eq_some_iff.1 hn
    obtain ⟨-, a, -, rfl⟩ := decodeAt_map_singleton.1 h
    obtain ⟨payload, hp⟩ := w.toJson_eq_entry
    show decodeAt depth (.entry t.name w.toJson) ≠ _
    rw [hp]
    exact decodeAt_tag_object_ne ht
  | case4 => cases hm
  | case5 w _ hw' => exact absurd hw (hw' es)

theorem decodeAt_map_zero {item : TaggedItem} {m : Item} :
    (Tagged.map item).decodeAt 0 = .ok (.map m) ↔ item.decode = .ok m := by
  show (if _ then _ else do return Value.map (← item.decode)) = _ ↔ _
  rw [ite_error_eq_ok, bind_pure_eq_ok]
  simp

/-- The attributes of an item are not always decoded: a number under the name of the text tag
becomes the text of its JSON. -/
theorem exists_attributes_ne_item :
    ¬ ∀ item : TaggedItem, (Tagged.map item).Ordered →
      ∀ m : Item, decode item.toJson = .ok (.map m) ↔ item.decode = .ok m := by
  intro h
  have ho : (Tagged.map [("S", .number "1")]).Ordered := by
    simp [Entries.Sorted]
  have hd := (h [("S", .number "1")] ho [("S", .number (.int 1))]).2 rfl
  cases hd

/-- An item is decoded from its attributes as it is by itself, whatever they are, unless it has a
single one that is named like a tag; then what is decoded is never the item. -/
theorem decode_attributes {item : TaggedItem} (h : (Tagged.map item).Ordered) :
    ((Tagged.map item).misread = false →
        ∀ m : Item, decode item.toJson = .ok (.map m) ↔ item.decode = .ok m) ∧
      ((Tagged.map item).misread = true →
        ∀ m : Item, item.decode = .ok m → decode item.toJson ≠ .ok (.map m)) := by
  constructor
  · intro hm m
    exact (decodeAt_entries rfl h hm).trans decodeAt_map_zero
  · intro hm m hd
    exact decodeAt_entries_ne rfl hm (decodeAt_map_zero.2 hd)

/-- Under the map tag two names of tags are attributes, and one alone is a tag. -/
theorem decode_attributes_named_like_tags :
    decode (TaggedItem.toJson [("M", .map [("N", .text "a"), ("S", .number "1")])]) =
        .ok (.map [("M", .map [("N", .text "a"), ("S", .number (.int 1))])]) ∧
      decode (TaggedItem.toJson [("M", .map [("S", .number "1")])]) ≠
        .ok (.map [("M", .map [("S", .number (.int 1))])]) := by
  have hs : Entries.Sorted [("N", Tagged.text "a"), ("S", .number "1")] :=
    pairwise_pair.2 (by decide)
  have h : (Tagged.map [("M", .map [("N", .text "a"), ("S", .number "1")])]).Ordered :=
    Tagged.ordered_map.2 ⟨pairwise_singleton _ _, by simp [hs]⟩
  have h' : (Tagged.map [("M", .map [("S", .number "1")])]).Ordered := by
    simp [Entries.Sorted]
  exact ⟨((decode_attributes h).1 rfl _).2 rfl, (decode_attributes h').2 rfl _ rfl⟩

end Response
end ItemStore
