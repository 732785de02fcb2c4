import ItemStore.Codec.Error
import ItemStore.Schema.Basic

/-! All that can go wrong between a document and a request. -/
namespace ItemStore

inductive FilterFault where
  | notAnObject (v : Json)
  | limit (v : Json)
  | offset (v : Json)
  | unknownGroup (key : String)
  | group (key : String) (v : Json)
  | member (key : String) (v : Json)
  | unknownOperator (name field : String)

def FilterFault.message : FilterFault → String
  | .notAnObject v => "filter must be an object, got " ++ v.compact
  | .limit v => "invalid limit " ++ v.compact
  | .offset v => "offset must be a token string, got " ++ v.compact
  | .unknownGroup key => "unknown logical operator '" ++ key ++ "'"
  | .group key v => "'" ++ key ++ "' expects an object or a list of objects, got " ++ v.compact
  | .member key v => "'" ++ key ++ "' members must be objects, got " ++ v.compact
  | .unknownOperator name field => "unknown operator '" ++ name ++ "' on field '" ++ field ++ "'"

inductive FilterError where
  | malformed (fault : FilterFault)
  | tooDeep

namespace FilterError

/-- The deepest level at which the operand of a group may stand. -/
def maxDepth : Nat := 16

def message : FilterError → String
  | .malformed fault => "filter syntax error: " ++ fault.message
  | .tooDeep => "filter nesting exceeds maximum depth of " ++ String.ofList (Digits.ofNat maxDepth)

end FilterError

inductive Error where
  | codec (e : CodecError)
  | schema (e : SchemaError)
  | filter (e : FilterError)

namespace Error

def message : Error → String
  | .codec e => e.message
  | .schema e => e.message
  | .filter e => e.message

instance : Coe CodecError Error := ⟨.codec⟩
instance : Coe SchemaError Error := ⟨.schema⟩
instance : Coe FilterError Error := ⟨.filter⟩

end Error
end ItemStore
