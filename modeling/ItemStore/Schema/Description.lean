import ItemStore.Schema.Basic

/-!
Descriptions of tables in JSON. A record is an object whose unknown members are ignored, or an
array of its fields in order; lists that are absent are empty, but the table's name is required.
-/
namespace ItemStore

namespace Json

def string? : Json → Option String
  | .string s => some s
  | _ => none

def listOf? {α : Type} (read? : Json → Option α) : Json → Option (List α)
  | .array items => items.mapM read?
  | _ => none

/-- A name, by itself or as the key of an object that holds null. -/
def symbol? : Json → Option String
  | .string s => some s
  | .object [(s, .null)] => some s
  | _ => none

end Json

def Role.ofJson? (v : Json) : Option Role := v.symbol?.bind ofName?

def ScalarType.ofJson? (v : Json) : Option ScalarType := v.symbol?.bind ofName?

namespace KeyElement

def ofFields? (name role : Json) : Option KeyElement := do
  return ⟨← name.string?, ← Role.ofJson? role⟩

def ofJson? : Json → Option KeyElement
  | .array [name, role] => ofFields? name role
  | .object ms => do ofFields? (← ms.lookup "AttributeName") (← ms.lookup "KeyType")
  | _ => none

def toJson (k : KeyElement) : Json :=
  .object [("AttributeName", .string k.name), ("KeyType", .string k.role.name)]

end KeyElement

namespace Declaration

def ofFields? (name type : Json) : Option Declaration := do
  return ⟨← name.string?, ← ScalarType.ofJson? type⟩

def ofJson? : Json → Option Declaration
  | .array [name, type] => ofFields? name type
  | .object ms => do ofFields? (← ms.lookup "AttributeName") (← ms.lookup "AttributeType")
  | _ => none

def toJson (d : Declaration) : Json :=
  .object [("AttributeName", .string d.name), ("AttributeType", .string d.type.name)]

end Declaration

namespace Schema

def ofFields? (table : Json) (keys declarations : Option Json) : Option Schema := do
  return ⟨← table.string?, ← (keys.getD (.array [])).listOf? KeyElement.ofJson?,
    ← (declarations.getD (.array [])).listOf? Declaration.ofJson?⟩

def ofJson? : Json → Option Schema
  | .array [table] => ofFields? table none none
  | .array [table, keys] => ofFields? table keys none
  | .array [table, keys, declarations] => ofFields? table keys declarations
  | .object ms => do
    ofFields? (← ms.lookup "TableName") (ms.lookup "KeySchema") (ms.lookup "AttributeDefinitions")
  | _ => none

def toJson (schema : Schema) : Json :=
  .object [("TableName", .string schema.table),
    ("KeySchema", .array (schema.keys.map KeyElement.toJson)),
    ("AttributeDefinitions", .array (schema.declarations.map Declaration.toJson))]

/-- The description itself, without the envelope that a store may put around it. -/
def unwrapped (description : Json) : Json :=
  match description with
  | .object ms => (ms.lookup "Table").getD description
  | _ => description

def ofDescription (description : Json) : Except SchemaError Schema :=
  match ofJson? (unwrapped description) with
  | none => .error .invalidDescription
  | some schema =>
    if schema.partitionKey?.isSome then .ok schema else .error (.partitionKeyRequired schema.table)

end Schema
end ItemStore
