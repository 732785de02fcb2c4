import ItemStore.Json.Printer
import ItemStore.Tagged.Basic
import ItemStore.Value.Basic

/-! What can go wrong between values and tagged values. -/
namespace ItemStore

inductive WireFault where
  | numberText (text : String)
  | untagged (v : Json)
  | payload (tag : Tag) (v : Json)
  | unknownTag (name : String) (v : Json)
  | notNumber (v : Json)
  | base64 (text : String)
  | byte (v : Json)
  | notBinary (v : Json)

def WireFault.message : WireFault → String
  | .numberText text => "invalid number literal '" ++ text ++ "'"
  | .untagged v => "expected a tagged object, got " ++ v.compact
  | .payload tag v => "bad " ++ tag.name ++ " payload: " ++ v.compact
  | .unknownTag name v => "unknown tag '" ++ name ++ "' with scalar payload " ++ v.compact
  | .notNumber v => "expected number literal, got " ++ v.compact
  | .base64 text => "bad base64 payload '" ++ text ++ "'"
  | .byte v => "bad byte " ++ v.compact
  | .notBinary v => "expected binary payload, got " ++ v.compact

inductive CodecError where
  | unclassifiable (kind : Kind)
  | malformed (fault : WireFault)
  | tooDeep

namespace CodecError

/-- The deepest level at which a value may stand, when it is read, encoded and decoded. -/
def maxDepth : Nat := 32

def message : CodecError → String
  | .unclassifiable kind => "cannot encode a " ++ kind.name ++ " value"
  | .malformed fault => "malformed wire value: " ++ fault.message
  | .tooDeep => "value nesting exceeds maximum depth of " ++ String.ofList (Digits.ofNat maxDepth)

end CodecError
end ItemStore
