import ItemStore.Schema.Basic

/-! Schemas put together step by step. -/
namespace ItemStore

/-- A schema in the making. Of several partition keys the last counts, and likewise for sort keys;
declarations of other attributes add up. -/
structure SchemaBuilder where
  table : String
  partition : Option (String × ScalarType) := none
  sort : Option (String × ScalarType) := none
  others : List Declaration := []

namespace SchemaBuilder

def partitionKey (b : SchemaBuilder) (name : String) (type : ScalarType) : SchemaBuilder :=
  { b with partition := some (name, type) }

def sortKey (b : SchemaBuilder) (name : String) (type : ScalarType) : SchemaBuilder :=
  { b with sort := some (name, type) }

def declare (b : SchemaBuilder) (name : String) (type : ScalarType) : SchemaBuilder :=
  { b with others := b.others ++ [⟨name, type⟩] }

/-- The keys' own declarations come first, so that they win over others of the same attribute. -/
def build (b : SchemaBuilder) : Except SchemaError Schema :=
  match b.partition with
  | none => .error (.partitionKeyRequired b.table)
  | some (p, t) =>
    match b.sort with
    | none => .ok ⟨b.table, [⟨p, .partition⟩], ⟨p, t⟩ :: b.others⟩
    | some (s, u) =>
      .ok ⟨b.table, [⟨p, .partition⟩, ⟨s, .sort⟩], ⟨p, t⟩ :: ⟨s, u⟩ :: b.others⟩

end SchemaBuilder
end ItemStore
