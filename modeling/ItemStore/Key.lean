import ItemStore.Codec.Encoding
import ItemStore.Error
import ItemStore.Value.Json

/-!
Keys and items in the form that the store takes. An attribute whose type the table declares is put
under that tag, and any other is encoded by what it is.
-/
namespace ItemStore

/-- A number has the same text under both textual tags, and text declared binary is base64. -/
def Value.declareAs (v : Value) (type : ScalarType) (name : String) : Except Error Tagged :=
  match type, v with
  | .number, .number n => match n.literal with
    | .ok literal => .ok (.number literal)
    | .error e => .error e
  | .number, .text s => .ok (.number s)
  | .text, .text s => .ok (.text s)
  | .text, .number n => match n.literal with
    | .ok literal => .ok (.text literal)
    | .error e => .error e
  | .binary, .binary bytes => .ok (.binary bytes)
  | .binary, .text s =>
    match Base64.ofText? s with
    | some bytes => .ok (.binary bytes)
    | none => .error (SchemaError.typeMismatch name .binary .nonBase64String)
  | _, _ => .error (SchemaError.typeMismatch name type v.kind)

namespace Schema

def encodeAttribute (schema : Schema) (name : String) (v : Value) : Except Error Tagged :=
  match schema.typeOf? name with
  | some type => v.declareAs type name
  | none => v.encode.mapError .codec

/-- Every attribute in order; the partition key has to be there, and the sort key may be left out. -/
def buildKey (schema : Schema) (item : Item) : Except Error TaggedItem :=
  match schema.partitionKey? with
  | none => .error (SchemaError.partitionKeyRequired schema.table)
  | some name =>
    if (item.lookup name).isSome then
      item.mapM fun (k, v) => do return (k, ← schema.encodeAttribute k v)
    else .error (SchemaError.missingPartitionKey name)

def buildKeyOfJson (schema : Schema) (v : Json) : Except Error TaggedItem :=
  match Value.ofJson? v with
  | .error e => .error e
  | .ok (.map item) => schema.buildKey item
  | .ok v => .error (SchemaError.notAnObject v.kind)

def buildItems (schema : Schema) (items : List Item) : Except Error (List TaggedItem) :=
  items.mapM schema.buildKey

end Schema
end ItemStore
