import ItemStore.Command.Run
import ItemStore.Proofs.Value.Nesting

/-!
Batches. The keys of several documents are built together or not at all, and the first document
that is refused decides the error. Documents that are objects may be read as items before any key is
built, and the outcome is the same.
-/
namespace ItemStore

open List

namespace Schema

/-- What becomes of a batch: a key for each document, in order, or the error of the first document
that none is built from. -/
def IsBatch (schema : Schema) (items : List Json) : Except Error (List TaggedItem) → Prop
  | .ok keys => Forall₂ (fun v key => schema.buildKeyOfJson v = .ok key) items keys
  | .error e => ∃ before v after, items = before ++ v :: after ∧
      (∀ u ∈ before, ∃ key, schema.buildKeyOfJson u = .ok key) ∧ schema.buildKeyOfJson v = .error e

variable {schema : Schema} {items : List Json}

theorem isBatch_iff {r : Except Error (List TaggedItem)} :
    schema.IsBatch items r ↔ items.mapM schema.buildKeyOfJson = r := by
  cases r with
  | ok keys => exact mapM_eq_ok_iff.symm
  | error e => exact firstFails_iff_append.symm.trans mapM_eq_error_iff.symm

theorem exists_items (h : ∀ v ∈ items, (∃ ms, v = .object ms) ∧ v.nesting ≤ CodecError.maxDepth) :
    ∃ read : List Item, Forall₂ (fun v item => Value.ofJson? v = .ok (.map item)) items read := by
  apply exists_forall₂_iff.2
  intro v hv
  obtain ⟨⟨ms, rfl⟩, hn⟩ := h v hv
  exact ⟨_, Value.ofJson?_eq_ok_iff.2 ⟨hn, rfl⟩⟩

theorem buildKeyOfJson_of_ofJson? {v : Json} {item : Item}
    (h : Value.ofJson? v = .ok (.map item)) : schema.buildKeyOfJson v = schema.buildKey item := by
  rw [buildKeyOfJson, h]

theorem buildItems_eq_mapM {read : List Item}
    (h : Forall₂ (fun v item => Value.ofJson? v = .ok (.map item)) items read) :
    schema.buildItems read = items.mapM schema.buildKeyOfJson := by
  unfold buildItems
  induction h with
  | nil => rfl
  | cons hv _ ih => rw [mapM_cons, mapM_cons, buildKeyOfJson_of_ofJson? hv, ih]

end Schema

namespace Command

theorem buildKeys_array (schema : Schema) (items : List Json) :
    buildKeys schema (.array items) =
      (items.mapM schema.buildKeyOfJson).map fun keys => .array (keys.map TaggedItem.toJson) := by
  rw [buildKeys, mapM_bind_pure]
  cases items.mapM schema.buildKeyOfJson <;> rfl

end Command

namespace Outcome

/-- One line with the whole array, or nothing but the error. -/
def ofBatch (pretty : Bool) : Except Error (List TaggedItem) → Outcome
  | .ok keys =>
    let v := Json.array (keys.map TaggedItem.toJson)
    ⟨0, (if pretty then v.pretty 0 else v.compact) ++ "\n", ""⟩
  | .error e => ⟨1, "", "error: " ++ e.message ++ "\n"⟩

theorem ofCommand_key {sources : Sources} {path : String} {input : Option String} {schema : Schema}
    {items : List Json} (pretty : Bool) (hs : Command.readSchema sources path = .ok schema)
    (hi : Command.readInput sources input = .ok (.array items)) :
    ofCommand ⟨.key path, pretty, input⟩ sources =
      ofBatch pretty (items.mapM schema.buildKeyOfJson) := by
  have ha : Command.answer ⟨.key path, pretty, input⟩ sources =
      (Command.buildKeys schema (.array items)).mapError .failed := by
    unfold Command.answer
    dsimp only
    rw [hs, hi]
    rfl
  rw [ofCommand, ha, Command.buildKeys_array]
  cases items.mapM schema.buildKeyOfJson <;> rfl

end Outcome

/-- A batch is built as a whole, or refused with the error of its first document that is refused.
The command prints the array of the keys, or that error and no key. Where the documents are objects
within the depth limit, the items that they are read as are built alike. -/
theorem exists_isBatch (schema : Schema) (items : List Json) :
    ∃ r, schema.IsBatch items r ∧
      Command.buildKeys schema (.array items) =
        (r.map fun keys => .array (keys.map TaggedItem.toJson)) ∧
      (∀ (sources : Sources) (path : String) (pretty : Bool) (input : Option String),
        Command.readSchema sources path = .ok schema →
        Command.readInput sources input = .ok (.array items) →
        Outcome.ofCommand ⟨.key path, pretty, input⟩ sources = Outcome.ofBatch pretty r) ∧
      ((∀ v ∈ items, (∃ ms, v = .object ms) ∧ v.nesting ≤ CodecError.maxDepth) →
        ∃ read, Forall₂ (fun v item => Value.ofJson? v = .ok (.map item)) items read ∧
          schema.buildItems read = r) := by
  refine ⟨items.mapM schema.buildKeyOfJson, Schema.isBatch_iff.2 rfl,
    Command.buildKeys_array schema items, ?_, ?_⟩
  · intro sources path pretty input hs hi
    exact Outcome.ofCommand_key pretty hs hi
  · intro h
    obtain ⟨read, hread⟩ := Schema.exists_items h
    exact ⟨read, hread, Schema.buildItems_eq_mapM hread⟩

/-- A table with a key of text, and three items: one that is built, one without its key, and one
with a key of another type. -/
def refusedBatch : Sources where
  file _ := .ok "[\"t\",[[\"id\",\"HASH\"]],[[\"id\",\"S\"]]]"
  input := .ok "[\x7b\"id\":\"a\"\x7d,\x7b\"n\":null\x7d,\x7b\"id\":true\x7d]"

def builtBatch : Sources :=
  { refusedBatch with
    input := .ok "[\x7b\"id\":\"a\",\"on\":true\x7d,\x7b\"on\":null,\"id\":\"b\"\x7d]" }

/-- The keys are printed in the order of the documents. Of a batch that is refused the first error
is printed, and no key that was built before it. -/
theorem exists_isBatch_of_built_and_refused :
    (∃ (schema : Schema) (items : List Json) (keys : List TaggedItem),
      Command.readSchema builtBatch "s" = .ok schema ∧
      Command.readInput builtBatch none = .ok (.array items) ∧
      (∀ v ∈ items, (∃ ms, v = .object ms) ∧ v.nesting ≤ CodecError.maxDepth) ∧
      schema.IsBatch items (.ok keys) ∧
      Outcome.ofCommand ⟨.key "s", false, none⟩ builtBatch =
        ⟨0, "[\x7b\"id\":\x7b\"S\":\"a\"\x7d,\"on\":\x7b\"BOOL\":true\x7d\x7d," ++
          "\x7b\"id\":\x7b\"S\":\"b\"\x7d,\"on\":\x7b\"NULL\":true\x7d\x7d]\n", ""⟩ ∧
      ∃ read, Forall₂ (fun v item => Value.ofJson? v = .ok (.map item)) items read ∧
        schema.buildItems read = .ok keys) ∧
    ∃ (schema : Schema) (items : List Json), Command.readSchema refusedBatch "s" = .ok schema ∧
      Command.readInput refusedBatch none = .ok (.array items) ∧
      (∀ v ∈ items, (∃ ms, v = .object ms) ∧ v.nesting ≤ CodecError.maxDepth) ∧
      schema.IsBatch items (.error (.schema (.missingPartitionKey "id"))) ∧
      Outcome.ofCommand ⟨.key "s", false, none⟩ refusedBatch =
        ⟨1, "", "error: missing partition key attribute: id\n"⟩ ∧
      ∃ read, Forall₂ (fun v item => Value.ofJson? v = .ok (.map item)) items read ∧
        schema.buildItems read = .error (.schema (.missingPartitionKey "id")) := by
  have hs : Command.readSchema refusedBatch "s" =
      .ok ⟨"t", [⟨"id", .partition⟩], [⟨"id", .text⟩]⟩ := by cbv
  constructor
  · have hi : Command.readInput builtBatch none =
        .ok (.array [.object [("id", .string "a"), ("on", .bool true)],
          .object [("on", .null), ("id", .string "b")]]) := by cbv
    have ho : ∀ v ∈ [Json.object [("id", .string "a"), ("on", .bool true)],
        .object [("on", .null), ("id", .string "b")]],
        (∃ ms, v = .object ms) ∧ v.nesting ≤ CodecError.maxDepth :=
      forall_mem_cons.2 ⟨⟨⟨_, rfl⟩, by decide⟩, forall_mem_singleton.2 ⟨⟨_, rfl⟩, by decide⟩⟩
    obtain ⟨r, hr, -, hout, hread⟩ := exists_isBatch ⟨"t", [⟨"id", .partition⟩], [⟨"id", .text⟩]⟩
      [.object [("id", .string "a"), ("on", .bool true)],
        .object [("on", .null), ("id", .string "b")]]
    have hk : r = .ok [[("id", .text "a"), ("on", .bool true)],
        [("id", .text "b"), ("on", .null true)]] := (Schema.isBatch_iff.1 hr).symm.trans rfl
    subst hk
    exact ⟨_, _, _, hs, hi, ho, hr, (hout builtBatch _ _ _ hs hi).trans (by cbv), hread ho⟩
  · have hi : Command.readInput refusedBatch none =
        .ok (.array [.object [("id", .string "a")], .object [("n", .null)],
          .object [("id", .bool true)]]) := by cbv
    have ho : ∀ v ∈ [Json.object [("id", .string "a")], .object [("n", .null)],
        .object [("id", .bool true)]],
        (∃ ms, v = .object ms) ∧ v.nesting ≤ CodecError.maxDepth :=
      forall_mem_cons.2 ⟨⟨⟨_, rfl⟩, by decide⟩, forall_mem_cons.2 ⟨⟨⟨_, rfl⟩, by decide⟩,
        forall_mem_singleton.2 ⟨⟨_, rfl⟩, by decide⟩⟩⟩
    obtain ⟨r, hr, -, hout, hread⟩ := exists_isBatch ⟨"t", [⟨"id", .partition⟩], [⟨"id", .text⟩]⟩
      [.object [("id", .string "a")], .object [("n", .null)], .object [("id", .bool true)]]
    cases Schema.isBatch_iff.1 hr
    exact ⟨_, _, hs, hi, ho, hr, hout _ _ _ _ hs hi, hread ho⟩

end ItemStore
