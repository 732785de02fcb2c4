import ItemStore.Proofs.Base64
import ItemStore.Proofs.Codec.Canonical
import ItemStore.Proofs.Codec.Encodable
import ItemStore.Proofs.Key.Inference
import ItemStore.Proofs.Key.Readable
import ItemStore.Proofs.Schema.Lookup

/-!
Which items a table takes, what is written for each attribute of one, and what another is refused
with. A declaration decides what is written, whatever the value would be encoded as; without one the
value is encoded by what it is. The first attribute that cannot be written decides the error, once
the partition key is known to be there.
-/
namespace ItemStore

open List

namespace ScalarType

variable {type : ScalarType} {name : String} {v : Value} {w : Tagged}

/-- What is written for a value under a declared type: a text that is declared a number or a text is
kept as it is, a number becomes its text, and a text that is declared binary its bytes. -/
inductive Writes : ScalarType → Value → Tagged → Prop
  | number {n : Number} (hn : n.isFinite = true) : Writes .number (.number n) (.number n.text)
  | numberText (s : String) : Writes .number (.text s) (.number s)
  | text (s : String) : Writes .text (.text s) (.text s)
  | textNumber {n : Number} (hn : n.isFinite = true) : Writes .text (.number n) (.text n.text)
  | binary (bytes : List UInt8) : Writes .binary (.binary bytes) (.binary bytes)
  | base64 (bytes : List UInt8) : Writes .binary (.text (Base64.text bytes)) (.binary bytes)

theorem Writes.tag (h : type.Writes v w) : w.tag = type.tag := by
  cases h <;> rfl

def kinds : ScalarType → List Kind
  | .number => [.number, .string]
  | .text => [.string, .number]
  | .binary => [.binary, .string]

/-- Why nothing is written for a value under a declared type. -/
inductive Refuses (name : String) : ScalarType → Value → Error → Prop
  | notFinite {type : ScalarType} {n : Number} (ht : type ≠ .binary) (hn : n.isFinite = false) :
      Refuses name type (.number n) (.codec (.unclassifiable .nonFiniteNumber))
  | notBase64 {s : String} (hs : ∀ bytes, s ≠ Base64.text bytes) :
      Refuses name .binary (.text s) (.schema (.typeMismatch name .binary .nonBase64String))
  | kind {type : ScalarType} {v : Value} (hv : v.kind ∉ type.kinds) :
      Refuses name type v (.schema (.typeMismatch name type v.kind))

theorem kind_mem_kinds_iff : v.kind ∈ type.kinds ↔
    (∃ s, v = .text s) ∨ (type ≠ .binary ∧ ∃ n, v = .number n) ∨
      (type = .binary ∧ ∃ bytes, v = .binary bytes) := by
  cases type <;> cases v <;> simp [kinds, Value.kind]

theorem exists_writes_or_refuses (type : ScalarType) (name : String) (v : Value) :
    (∃ w, type.Writes v w) ∨ ∃ e, type.Refuses name v e := by
  by_cases hk : v.kind ∈ type.kinds
  · rcases kind_mem_kinds_iff.1 hk with ⟨s, rfl⟩ | ⟨ht, n, rfl⟩ | ⟨rfl, bytes, rfl⟩
    · cases type with
      | number => exact .inl ⟨_, .numberText s⟩
      | text => exact .inl ⟨_, .text s⟩
      | binary =>
        by_cases hs : ∃ bytes, s = Base64.text bytes
        · obtain ⟨bytes, rfl⟩ := hs
          exact .inl ⟨_, .base64 bytes⟩
        · exact .inr ⟨_, .notBase64 fun bytes h => hs ⟨bytes, h⟩⟩
    · cases hn : n.isFinite with
      | false => exact .inr ⟨_, .notFinite ht hn⟩
      | true =>
        cases type with
        | number => exact .inl ⟨_, .number hn⟩
        | text => exact .inl ⟨_, .textNumber hn⟩
        | binary => exact absurd rfl ht
    · exact .inl ⟨_, .binary bytes⟩
  · exact .inr ⟨_, .kind hk⟩

end ScalarType

namespace Value

variable {type : ScalarType} {name : String} {v : Value} {w : Tagged} {e : Error}

theorem declareAs_eq_ok_iff : v.declareAs type name = .ok w ↔ type.Writes v w := by
  constructor
  · intro h
    cases type with
    | number =>
      obtain ⟨l, rfl, rfl | ⟨n, rfl, hl⟩⟩ := declareAs_number_eq_ok_iff.1 h
      · exact .numberText l
      · obtain ⟨hn, rfl⟩ := Number.literal_eq_ok_iff.1 hl
        exact .number hn
    | text =>
      obtain ⟨l, rfl, rfl | ⟨n, rfl, hl⟩⟩ := declareAs_text_eq_ok_iff.1 h
      · exact .text l
      · obtain ⟨hn, rfl⟩ := Number.literal_eq_ok_iff.1 hl
        exact .textNumber hn
    | binary =>
      obtain ⟨bytes, rfl, rfl | ⟨s, rfl, hs⟩⟩ := declareAs_binary_eq_ok_iff.1 h
      · exact .binary bytes
      · cases Base64.ofText?_eq_some_iff.1 hs
        exact .base64 bytes
  · intro h
    cases h with
    | number hn =>
      have hl := Number.literal_eq_ok_iff.2 ⟨hn, rfl⟩
      exact declareAs_number_eq_ok_iff.2 ⟨_, rfl, .inr ⟨_, rfl, hl⟩⟩
    | numberText s => rfl
    | text s => rfl
    | textNumber hn =>
      have hl := Number.literal_eq_ok_iff.2 ⟨hn, rfl⟩
      exact declareAs_text_eq_ok_iff.2 ⟨_, rfl, .inr ⟨_, rfl, hl⟩⟩
    | binary bytes => rfl
    | base64 bytes =>
      exact declareAs_binary_eq_ok_iff.2 ⟨_, rfl, .inr ⟨_, rfl, Base64.ofText?_text bytes⟩⟩

theorem declareAs_of_refuses (h : type.Refuses name v e) : v.declareAs type name = .error e := by
  cases h with
  | @notFinite _ n ht hn =>
    have hl : n.literal = .error _ := Number.literal_eq_error_iff.2 ⟨hn, rfl⟩
    cases type with
    | number => simp only [declareAs, hl]
    | text => simp only [declareAs, hl]
    | binary => exact absurd rfl ht
  | @notBase64 s hs =>
    have hb : Base64.ofText? s = none :=
      Option.eq_none_iff_forall_ne_some.2 fun bytes h => hs bytes (Base64.ofText?_eq_some_iff.1 h)
    simp only [declareAs, hb]
  | kind hv =>
    rw [ScalarType.kind_mem_kinds_iff] at hv
    cases v with
    | text s => exact absurd (.inl ⟨s, rfl⟩) hv
    | number n =>
      cases type with
      | binary => rfl
      | _ => simp at hv
    | binary bytes =>
      cases type with
      | binary => simp at hv
      | _ => rfl
    | _ => cases type <;> rfl

theorem declareAs_eq_error_iff : v.declareAs type name = .error e ↔ type.Refuses name v e := by
  refine ⟨fun h => ?_, declareAs_of_refuses⟩
  rcases type.exists_writes_or_refuses name v with ⟨w, hw⟩ | ⟨f, hf⟩
  · rw [declareAs_eq_ok_iff.2 hw] at h
    cases h
  · rw [declareAs_of_refuses hf] at h
    cases h
    exact hf

end Value

namespace Schema

variable {schema : Schema} {item : Item} {wire : TaggedItem} {name : String} {v : Value}
  {w : Tagged} {e : Error}

/-- What is written for an attribute: what its type makes of it if it is declared with one, and
otherwise what it is encoded as. -/
inductive Writes (schema : Schema) (name : String) (v : Value) (w : Tagged) : Prop
  | declared {type : ScalarType} (ht : schema.Declares name type) (hw : type.Writes v w)
  | undeclared (ht : schema.Undeclared name) (hw : v.encode = .ok w)

inductive RefusesAttribute (schema : Schema) (name : String) (v : Value) : Error → Prop
  | declared {type : ScalarType} {e : Error} (ht : schema.Declares name type)
      (he : type.Refuses name v e) : RefusesAttribute schema name v e
  | undeclared {e : CodecError} (ht : schema.Undeclared name) (he : v.encode = .error e) :
      RefusesAttribute schema name v (.codec e)

/-- Why nothing is built from an item. The partition key comes first, and then the attributes in the
order of their names. -/
inductive Refuses (schema : Schema) (item : Item) : Error → Prop
  | keyless (hk : ∀ k ∈ schema.keys, k.role ≠ .partition) :
      Refuses schema item (.schema (.partitionKeyRequired schema.table))
  | missing {key : String} (hk : schema.KeyNamed .partition key) (hi : key ∉ item.keys) :
      Refuses schema item (.schema (.missingPartitionKey key))
  | unwritten {key name : String} {v : Value} {e : Error} (hk : schema.KeyNamed .partition key)
      (hi : key ∈ item.keys) (hm : (name, v) ∈ item)
      (hb : ∀ a ∈ item, a.1 < name → ∃ w, schema.Writes a.1 a.2 w)
      (he : schema.RefusesAttribute name v e) : Refuses schema item e

theorem writes_iff_of_declares {type : ScalarType} (hd : schema.Declares name type) :
    schema.Writes name v w ↔ type.Writes v w := by
  refine ⟨fun h => ?_, .declared hd⟩
  cases h with
  | declared hd' hw => exact hd.unique hd' ▸ hw
  | undeclared hu _ => exact absurd hu hd.not_undeclared

theorem writes_iff_of_undeclared (hu : schema.Undeclared name) :
    schema.Writes name v w ↔ v.encode = .ok w := by
  refine ⟨fun h => ?_, .undeclared hu⟩
  cases h with
  | declared hd _ => exact absurd hu hd.not_undeclared
  | undeclared _ hw => exact hw

theorem refusesAttribute_iff_of_declares {type : ScalarType} (hd : schema.Declares name type) :
    schema.RefusesAttribute name v e ↔ type.Refuses name v e := by
  refine ⟨fun h => ?_, .declared hd⟩
  cases h with
  | declared hd' he => exact hd.unique hd' ▸ he
  | undeclared hu _ => exact absurd hu hd.not_undeclared

theorem refusesAttribute_iff_of_undeclared (hu : schema.Undeclared name) :
    schema.RefusesAttribute name v e ↔ ∃ f, v.encode = .error f ∧ .codec f = e := by
  constructor
  · intro h
    cases h with
    | declared hd _ => exact absurd hu hd.not_undeclared
    | undeclared _ he => exact ⟨_, he, rfl⟩
  · rintro ⟨f, hf, rfl⟩
    exact .undeclared hu hf

theorem RefusesAttribute.ne_partitionKeyRequired (h : schema.RefusesAttribute name v e)
    (table : String) : e ≠ .schema (.partitionKeyRequired table) := by
  rintro rfl
  cases h with
  | declared _ he => cases he

theorem encodeAttribute_of_declares {type : ScalarType} (hd : schema.Declares name type) :
    schema.encodeAttribute name v = v.declareAs type name := by
  rw [encodeAttribute, typeOf?_eq_some_iff.2 hd]

theorem encodeAttribute_of_undeclared (hu : schema.Undeclared name) :
    schema.encodeAttribute name v = v.encode.mapError .codec := by
  rw [encodeAttribute, typeOf?_eq_none_iff.2 hu]

theorem encodeAttribute_eq_ok_iff :
    schema.encodeAttribute name v = .ok w ↔ schema.Writes name v w := by
  rcases schema.declares_or_undeclared name with ⟨type, hd⟩ | hu
  · rw [encodeAttribute_of_declares hd, writes_iff_of_declares hd, Value.declareAs_eq_ok_iff]
  · rw [encodeAttribute_of_undeclared hu, writes_iff_of_undeclared hu, mapError_eq_ok]

theorem encodeAttribute_eq_error_iff :
    schema.encodeAttribute name v = .error e ↔ schema.RefusesAttribute name v e := by
  rcases schema.declares_or_undeclared name with ⟨type, hd⟩ | hu
  · rw [encodeAttribute_of_declares hd, refusesAttribute_iff_of_declares hd,
      Value.declareAs_eq_error_iff]
  · rw [encodeAttribute_of_undeclared hu, refusesAttribute_iff_of_undeclared hu, mapError_eq_error]

theorem exists_writes_iff :
    (∃ w, schema.Writes name v w) ↔
      (∀ type, schema.Declares name type → ∃ w, type.Writes v w) ∧
        (schema.Undeclared name → ∃ w, v.encode = .ok w) := by
  rcases schema.declares_or_undeclared name with ⟨type, hd⟩ | hu
  · simp only [writes_iff_of_declares hd, hd.not_undeclared, false_implies, and_true]
    exact ⟨fun h type' hd' => hd.unique hd' ▸ h, fun h => h type hd⟩
  · simp only [writes_iff_of_undeclared hu, hu, true_implies]
    exact ⟨fun h => ⟨fun type hd => absurd hu hd.not_undeclared, h⟩, And.right⟩

theorem exists_partitionKey_iff :
    (∃ key, schema.partitionKey? = some key ∧ (item.lookup key).isSome = true) ↔
      ∃ key, schema.KeyNamed .partition key ∧ key ∈ item.keys := by
  simp only [partitionKey?, keyOf?_eq_some_iff, Entries.isSome_lookup_iff]

theorem buildKey_eq_ok_iff_writes :
    schema.buildKey item = .ok wire ↔
      (∃ key, schema.KeyNamed .partition key ∧ key ∈ item.keys) ∧
        Forall₂ (fun a f => a.1 = f.1 ∧ schema.Writes a.1 a.2 f.2) item wire := by
  simp only [buildKey_eq_ok_iff, exists_partitionKey_iff, encodeAttribute_eq_ok_iff]

theorem exists_buildKey_iff :
    (∃ wire, schema.buildKey item = .ok wire) ↔
      (∃ key, schema.KeyNamed .partition key ∧ key ∈ item.keys) ∧
        ∀ a ∈ item, ∃ w, schema.Writes a.1 a.2 w := by
  simp only [buildKey_eq_ok_iff_writes, exists_and_left, exists_forall₂_iff]
  refine and_congr_right fun _ => forall₂_congr fun a _ => ⟨?_, ?_⟩
  · rintro ⟨f, -, hf⟩
    exact ⟨f.2, hf⟩
  · rintro ⟨w, hw⟩
    exact ⟨(a.1, w), rfl, hw⟩

theorem buildKey_ne_partitionKeyRequired {key : String} (hk : schema.KeyNamed .partition key)
    (item : Item) (table : String) :
    schema.buildKey item ≠ .error (.schema (.partitionKeyRequired table)) := by
  intro h
  simp only [buildKey, partitionKey?, keyOf?_eq_some_iff.2 hk] at h
  split at h
  · obtain ⟨a, -, ha⟩ := (mapM_eq_error_iff.1 h).exists_mem
    have he := encodeAttribute_eq_error_iff.1 (bind_pure_eq_error.1 ha)
    exact he.ne_partitionKeyRequired table rfl
  · cases h

theorem mapM_encodeAttribute_eq_error_iff (item : SortedEntries Value) :
    (item.entries.mapM fun (k, v) => do return (k, ← schema.encodeAttribute k v)) = .error e ↔
      ∃ a ∈ item.entries, (∀ b ∈ item.entries, b.1 < a.1 → ∃ w, schema.Writes b.1 b.2 w) ∧
        schema.RefusesAttribute a.1 a.2 e := by
  have hok : ∀ b : String × Value, (∃ f w, schema.Writes b.1 b.2 w ∧ (b.1, w) = f) ↔
      ∃ w, schema.Writes b.1 b.2 w :=
    fun b => ⟨fun ⟨_, w, hw, _⟩ => ⟨w, hw⟩, fun ⟨w, hw⟩ => ⟨_, w, hw, rfl⟩⟩
  simp only [mapM_eq_error_iff, firstFails_iff_append, bind_pure_eq_error, bind_pure_eq_ok,
    encodeAttribute_eq_error_iff, encodeAttribute_eq_ok_iff, hok]
  constructor
  · rintro ⟨before, a, after, hi, hb, he⟩
    obtain ⟨hm, hb⟩ := (Entries.exists_append_iff_of_sorted item).1 ⟨before, after, hi, hb⟩
    exact ⟨a, hm, hb, he⟩
  · rintro ⟨a, hm, hb, he⟩
    obtain ⟨before, after, hi, hb⟩ := (Entries.exists_append_iff_of_sorted item).2 ⟨hm, hb⟩
    exact ⟨before, a, after, hi, hb, he⟩

theorem refuses_iff_of_keyless (hn : ∀ k ∈ schema.keys, k.role ≠ .partition) :
    schema.Refuses item e ↔ .schema (.partitionKeyRequired schema.table) = e := by
  have hnamed : ∀ key, ¬schema.KeyNamed .partition key := fun key hk =>
    have ⟨k, hm, hr⟩ := hk.exists_mem
    hn k hm hr
  constructor
  · intro h
    cases h with
    | keyless => rfl
    | missing hk => exact absurd hk (hnamed _)
    | unwritten hk => exact absurd hk (hnamed _)
  · rintro rfl
    exact .keyless hn

theorem refuses_iff_of_keyNamed {key : String} (hk : schema.KeyNamed .partition key) :
    schema.Refuses item e ↔
      key ∉ item.keys ∧ .schema (.missingPartitionKey key) = e ∨
        key ∈ item.keys ∧ ∃ a ∈ item, (∀ b ∈ item, b.1 < a.1 → ∃ w, schema.Writes b.1 b.2 w) ∧
          schema.RefusesAttribute a.1 a.2 e := by
  constructor
  · intro h
    cases h with
    | keyless hn =>
      obtain ⟨k, hm, hr⟩ := hk.exists_mem
      exact absurd hr (hn k hm)
    | missing hk' hi =>
      cases hk.unique hk'
      exact .inl ⟨hi, rfl⟩
    | unwritten hk' hi hm hb he =>
      cases hk.unique hk'
      exact .inr ⟨hi, _, hm, hb, he⟩
  · rintro (⟨hi, rfl⟩ | ⟨hi, a, hm, hb, he⟩)
    · exact .missing hk hi
    · exact .unwritten hk hi hm hb he

theorem buildKey_eq_error_iff (item : SortedEntries Value) :
    schema.buildKey item.entries = .error e ↔ schema.Refuses item.entries e := by
  unfold buildKey
  cases hk : schema.partitionKey? with
  | none =>
    rw [refuses_iff_of_keyless (keyOf?_eq_none_iff.1 hk)]
    dsimp only
    rw [Except.error.injEq]
  | some key =>
    rw [refuses_iff_of_keyNamed (keyOf?_eq_some_iff.1 hk)]
    dsimp only
    split
    · rename_i hi
      rw [Entries.isSome_lookup_iff] at hi
      simp only [hi, mapM_encodeAttribute_eq_error_iff item, not_true_eq_false, false_and, false_or,
        true_and]
    · rename_i hi
      rw [Entries.isSome_lookup_iff] at hi
      simp only [hi, not_false_eq_true, true_and, false_and, or_false, Except.error.injEq]

/-- An item is built exactly if the table has a partition key, the item has that attribute, each
attribute that is declared holds what its type takes, and any other can be encoded. Then it is built
of the same names, and each attribute is under the tag that it is declared with. Any other item is
refused for want of a partition key, of its attribute, or of a form for an attribute, the first of
them in the order of the names. -/
theorem buildKey_writes_or_refuses (hs : Entries.Sorted item) :
    ((∃ wire, schema.buildKey item = .ok wire) ↔
        (∃ key, schema.KeyNamed .partition key ∧ key ∈ item.keys) ∧
          ∀ a ∈ item, (∀ type, schema.Declares a.1 type → ∃ w, type.Writes a.2 w) ∧
            (schema.Undeclared a.1 → ∃ w, a.2.encode = .ok w)) ∧
      (∀ wire, schema.buildKey item = .ok wire →
        wire.keys = item.keys ∧ Forall₂ (fun a f => schema.Writes a.1 a.2 f.2) item wire ∧
          ∀ f ∈ wire, ∀ type, schema.Declares f.1 type → f.2.tag = type.tag) ∧
      ∀ e, schema.buildKey item = .error e ↔ schema.Refuses item e := by
  refine ⟨?_, fun wire h => ?_, fun e => buildKey_eq_error_iff ⟨item, hs⟩⟩
  · simp only [exists_buildKey_iff, exists_writes_iff]
  · obtain ⟨-, hw⟩ := buildKey_eq_ok_iff_writes.1 h
    refine ⟨?_, hw.imp fun _ _ h => h.2, fun f hf type hd => ?_⟩
    · exact map_eq_map_iff_forall₂.2 (hw.imp fun _ _ h => h.1) |>.symm
    · obtain ⟨a, -, hk, ha⟩ := Forall₂.exists_of_mem_right hw hf
      exact ((writes_iff_of_declares (hk ▸ hd)).1 ha).tag

/-- A table with two partition keys and an attribute that is declared twice. -/
def repeated : Schema :=
  ⟨"t", [⟨"id", .partition⟩, ⟨"key", .partition⟩], [⟨"id", .text⟩, ⟨"n", .number⟩, ⟨"n", .binary⟩]⟩

theorem buildKey_writes_or_refuses_of_repeated :
    ∃ item other : Item, Entries.Sorted item ∧ Entries.Sorted other ∧
      repeated.buildKey item = .ok [("id", .text "42"), ("n", .number "abc"), ("x", .number "7")] ∧
      (∀ type, repeated.Declares "n" type → Tag.number = type.tag) ∧
      repeated.Refuses other (.schema (.typeMismatch "id" .text .null)) := by
  have hb : repeated.buildKey [("id", .text "42"), ("n", .text "abc"), ("x", .text "7")] =
      .ok [("id", .text "42"), ("n", .number "abc"), ("x", .number "7")] := rfl
  have he : repeated.buildKey [("id", .null), ("n", .null)] =
      .error (.schema (.typeMismatch "id" .text .null)) := rfl
  have hs : Entries.Sorted [("id", Value.text "42"), ("n", .text "abc"), ("x", .text "7")] := by
    unfold Entries.Sorted
    decide
  have ht : Entries.Sorted [("id", Value.null), ("n", .null)] := by
    unfold Entries.Sorted
    decide
  obtain ⟨-, hw, -⟩ := @buildKey_writes_or_refuses repeated _ hs
  obtain ⟨-, -, hr⟩ := @buildKey_writes_or_refuses repeated _ ht
  exact ⟨_, _, hs, ht, hb, (hw _ hb).2.2 ("n", .number "abc") (by simp), (hr _).1 he⟩

end Schema
end ItemStore
