import ItemStore.Proofs.Key.Building
import ItemStore.Schema.Builder
import ItemStore.Schema.Description

/-!
A table's description is read as the schema that it was written from, whatever the schema's lists
hold, as long as one of its keys is a partition key. So no schema that was described or put together
is without one.
-/
namespace ItemStore

open List

theorem Json.listOf?_map {α : Type} {read? : Json → Option α} {write : α → Json}
    (h : ∀ x, read? (write x) = some x) (xs : List α) :
    (Json.array (xs.map write)).listOf? read? = some xs := by
  rw [listOf?, mapM_eq_some_iff, forall₂_map_left_iff]
  exact forall₂_same.2 fun x _ => h x

theorem KeyElement.ofJson?_toJson (k : KeyElement) : ofJson? k.toJson = some k := by
  obtain ⟨name, role⟩ := k
  cases role <;> rfl

theorem Declaration.ofJson?_toJson (d : Declaration) : ofJson? d.toJson = some d := by
  obtain ⟨name, type⟩ := d
  cases type <;> rfl

namespace Schema

variable {schema : Schema} {d : Json} {table : String}

theorem ofJson?_toJson (schema : Schema) : ofJson? schema.toJson = some schema := by
  have hfields : ofJson? schema.toJson = ofFields? (.string schema.table)
      (some (.array (schema.keys.map KeyElement.toJson)))
      (some (.array (schema.declarations.map Declaration.toJson))) := rfl
  have hkeys := Json.listOf?_map KeyElement.ofJson?_toJson schema.keys
  have hdeclarations := Json.listOf?_map Declaration.ofJson?_toJson schema.declarations
  simp only [hfields, ofFields?, Option.getD_some, hkeys, hdeclarations]
  rfl

theorem unwrapped_toJson (schema : Schema) : unwrapped schema.toJson = schema.toJson := rfl

theorem unwrapped_entry (d : Json) : unwrapped (.entry "Table" d) = d := rfl

theorem ofDescription_of_ofJson? (h : ofJson? (unwrapped d) = some schema) :
    ((∃ k ∈ schema.keys, k.role = .partition) → ofDescription d = .ok schema) ∧
      ((∀ k ∈ schema.keys, k.role ≠ .partition) →
        ofDescription d = .error (.partitionKeyRequired schema.table)) := by
  simp only [ofDescription, h]
  refine ⟨fun hk => if_pos (isSome_partitionKey?_iff.2 hk), fun hn => if_neg fun hk => ?_⟩
  obtain ⟨k, hm, hr⟩ := isSome_partitionKey?_iff.1 hk
  exact hn k hm hr

theorem exists_partition_of_ofDescription (h : ofDescription d = .ok schema) :
    ∃ k ∈ schema.keys, k.role = .partition := by
  unfold ofDescription at h
  split at h
  · cases h
  · split at h
    · rename_i hk
      cases h
      exact isSome_partitionKey?_iff.1 hk
    · cases h

end Schema

theorem SchemaBuilder.exists_partition_of_build {b : SchemaBuilder} {schema : Schema}
    (h : b.build = .ok schema) : ∃ k ∈ schema.keys, k.role = .partition := by
  unfold build at h
  split at h
  · cases h
  · split at h <;> cases h <;> exact ⟨_, mem_cons_self .., rfl⟩

namespace Schema

/-- A schema with a partition key is read back from its description, in its envelope or without, and
one without a partition key from neither. Every schema that was described or put together has a
partition key, and so nothing that is built with it fails for want of one. -/
theorem ofDescription_toJson (schema : Schema) :
    ((∃ k ∈ schema.keys, k.role = .partition) →
        ofDescription schema.toJson = .ok schema ∧
          ofDescription (.entry "Table" schema.toJson) = .ok schema) ∧
      ((∀ k ∈ schema.keys, k.role ≠ .partition) →
        ofDescription schema.toJson = .error (.partitionKeyRequired schema.table) ∧
          ofDescription (.entry "Table" schema.toJson) =
            .error (.partitionKeyRequired schema.table)) ∧
      ((∃ d, ofDescription d = .ok schema) ∨ (∃ b : SchemaBuilder, b.build = .ok schema) →
        (∃ key, schema.partitionKey? = some key) ∧ ∀ item table,
          schema.buildKey item ≠ .error (.schema (.partitionKeyRequired table))) := by
  have hbare : ofJson? (unwrapped schema.toJson) = some schema := by
    rw [unwrapped_toJson, ofJson?_toJson]
  have henvelope : ofJson? (unwrapped (.entry "Table" schema.toJson)) = some schema := by
    rw [unwrapped_entry, ofJson?_toJson]
  obtain ⟨hok, hkeyless⟩ := ofDescription_of_ofJson? hbare
  obtain ⟨hok', hkeyless'⟩ := ofDescription_of_ofJson? henvelope
  refine ⟨fun hk => ⟨hok hk, hok' hk⟩, fun hn => ⟨hkeyless hn, hkeyless' hn⟩, fun h => ?_⟩
  have hp : ∃ k ∈ schema.keys, k.role = .partition := by
    rcases h with ⟨d, h⟩ | ⟨b, h⟩
    · exact exists_partition_of_ofDescription h
    · exact SchemaBuilder.exists_partition_of_build h
  obtain ⟨key, hk⟩ := Option.isSome_iff_exists.1 (isSome_partitionKey?_iff.2 hp)
  exact ⟨⟨key, hk⟩, buildKey_ne_partitionKeyRequired (keyOf?_eq_some_iff.1 hk)⟩

def sortOnly : Schema := ⟨"t", [⟨"at", .sort⟩], []⟩

theorem ofDescription_toJson_of_repeated :
    (∃ k ∈ repeated.keys, k.role = .partition) ∧ (∀ k ∈ sortOnly.keys, k.role ≠ .partition) ∧
      ofDescription (.entry "Table" repeated.toJson) = .ok repeated ∧
      ofDescription sortOnly.toJson = .error (.partitionKeyRequired "t") ∧
      ∃ built, (SchemaBuilder.mk "t" (some ("id", .text)) none []).build = .ok built ∧
        ∀ item table, built.buildKey item ≠ .error (.schema (.partitionKeyRequired table)) := by
  have hk : ∃ k ∈ repeated.keys, k.role = .partition := ⟨_, mem_cons_self .., rfl⟩
  have hn : ∀ k ∈ sortOnly.keys, k.role ≠ .partition := forall_mem_singleton.2 (by decide)
  have hb : (SchemaBuilder.mk "t" (some ("id", .text)) none []).build =
      .ok ⟨"t", [⟨"id", .partition⟩], [⟨"id", .text⟩]⟩ := rfl
  exact ⟨hk, hn, ((ofDescription_toJson repeated).1 hk).2,
    ((ofDescription_toJson sortOnly).2.1 hn).1, _, hb,
    ((ofDescription_toJson _).2.2 (.inr ⟨_, hb⟩)).2⟩

end Schema
end ItemStore
