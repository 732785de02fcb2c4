import ItemStore.Entries
import ItemStore.Number

/-! Values as an application sees them. -/
namespace ItemStore

inductive Value where
  | null
  | bool (b : Bool)
  | number (n : Number)
  | text (s : String)
  | binary (bytes : List UInt8)
  | list (items : List Value)
  | map (entries : List (String × Value))
  | numbers (ns : List Number)
  | texts (ss : List String)
  | binaries (bs : List (List UInt8))
  /-- What a null with a false marker decodes to, kept apart from null. -/
  | sentinel

abbrev Item := Entries Value

inductive Kind where
  | null | boolean | number | string | binary | list | map | numberSet | stringSet | binarySet
  | nullSentinel | nonFiniteNumber | nonBase64String
deriving DecidableEq

def Kind.name : Kind → String
  | .null => "null"
  | .boolean => "boolean"
  | .number => "number"
  | .string => "string"
  | .binary => "binary"
  | .list => "list"
  | .map => "map"
  | .numberSet => "number set"
  | .stringSet => "string set"
  | .binarySet => "binary set"
  | .nullSentinel => "null sentinel"
  | .nonFiniteNumber => "non-finite number"
  | .nonBase64String => "non-base64 string"

namespace Value

def kind : Value → Kind
  | .null => .null
  | .bool _ => .boolean
  | .number _ => .number
  | .text _ => .string
  | .binary _ => .binary
  | .list _ => .list
  | .map _ => .map
  | .numbers _ => .numberSet
  | .texts _ => .stringSet
  | .binaries _ => .binarySet
  | .sentinel => .nullSentinel

/-- Null, false, zero and the empty text are falsy, everything else is truthy. -/
def isTruthy : Value → Bool
  | .null => false
  | .bool b => b
  | .number n => !n.isZero
  | .text s => s != ""
  | _ => true

def text? : Value → Option String
  | .text s => some s
  | _ => none

def map? : Value → Option Item
  | .map entries => some entries
  | _ => none

mutual

/-- Equal member by member, with numbers compared as numbers. -/
def same : Value → Value → Bool
  | .null, .null => true
  | .sentinel, .sentinel => true
  | .bool a, .bool b => a == b
  | .number m, .number n => m == n
  | .text s, .text t => s == t
  | .binary a, .binary b => a == b
  | .list vs, .list ws => sameItems vs ws
  | .map es, .map fs => sameEntries es fs
  | .numbers ms, .numbers ns => ms == ns
  | .texts ss, .texts ts => ss == ts
  | .binaries as, .binaries bs => as == bs
  | _, _ => false

def sameItems : List Value → List Value → Bool
  | [], [] => true
  | v :: vs, w :: ws => v.same w && sameItems vs ws
  | _, _ => false

def sameEntries : List (String × Value) → List (String × Value) → Bool
  | [], [] => true
  | (k, v) :: es, (l, w) :: fs => k == l && v.same w && sameEntries es fs
  | _, _ => false

end

instance : BEq Value := ⟨same⟩

end Value
end ItemStore
