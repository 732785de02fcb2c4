import ItemStore.Value.Basic

/-! Schemas of tables: which attributes are keys, and which have a declared type. -/
namespace ItemStore

inductive Role where
  | partition | sort
deriving DecidableEq

inductive ScalarType where
  | text | number | binary
deriving DecidableEq

structure KeyElement where
  name : String
  role : Role
deriving DecidableEq

structure Declaration where
  name : String
  type : ScalarType
deriving DecidableEq

structure Schema where
  table : String
  keys : List KeyElement
  declarations : List Declaration
deriving DecidableEq

namespace Role

def name : Role → String
  | .partition => "HASH"
  | .sort => "RANGE"

def ofName? (name : String) : Option Role := [partition, sort].find? (·.name == name)

@[simp] theorem ofName?_name (r : Role) : ofName? r.name = some r := by cases r <;> rfl

end Role

namespace ScalarType

def name : ScalarType → String
  | .text => "S"
  | .number => "N"
  | .binary => "B"

def ofName? (name : String) : Option ScalarType := [text, number, binary].find? (·.name == name)

@[simp] theorem ofName?_name (t : ScalarType) : ofName? t.name = some t := by cases t <;> rfl

end ScalarType

inductive SchemaError where
  | missingPartitionKey (name : String)
  | partitionKeyRequired (table : String)
  | typeMismatch (name : String) (expected : ScalarType) (actual : Kind)
  | invalidDescription
  | notAnObject (kind : Kind)

def SchemaError.message : SchemaError → String
  | .missingPartitionKey name => "missing partition key attribute: " ++ name
  | .partitionKeyRequired table => "table '" ++ table ++ "' declares no partition key"
  | .typeMismatch name expected actual =>
    "attribute '" ++ name ++ "' is declared as " ++ expected.name ++ " but got a " ++
      actual.name ++ " value"
  | .invalidDescription => "invalid table description"
  | .notAnObject kind => "item must be an object, got a " ++ kind.name ++ " value"

namespace Schema

def keyOf? (schema : Schema) (role : Role) : Option String :=
  (schema.keys.find? (·.role == role)).map KeyElement.name

def partitionKey? (schema : Schema) : Option String := schema.keyOf? .partition

def sortKey? (schema : Schema) : Option String := schema.keyOf? .sort

/-- The type that an attribute is first declared with. -/
def typeOf? (schema : Schema) (name : String) : Option ScalarType :=
  (schema.declarations.find? (·.name == name)).map Declaration.type

end Schema
end ItemStore
