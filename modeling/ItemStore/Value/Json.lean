import ItemStore.Codec.Error

/-! Values in JSON. Sets are written as arrays and bytes as arrays of numbers. -/
namespace ItemStore

def Json.isTruthy : Json → Bool
  | .null => false
  | .bool b => b
  | .number n => !(Number.ofJson n).isZero
  | .string s => s != ""
  | .array _ => true
  | .object _ => true

namespace Value

mutual

def ofJson : Json → Value
  | .null => .null
  | .bool b => .bool b
  | .number n => .number (.ofJson n)
  | .string s => .text s
  | .array items => .list (ofItems items)
  | .object members => .map (Entries.ofList (ofMembers members))

def ofItems : List Json → List Value
  | [] => []
  | v :: vs => ofJson v :: ofItems vs

def ofMembers : List (String × Json) → List (String × Value)
  | [] => []
  | (k, v) :: ms => (k, ofJson v) :: ofMembers ms

end

mutual

def ofJsonAt (depth : Nat) (v : Json) : Except CodecError Value :=
  if CodecError.maxDepth < depth then .error .tooDeep
  else
    match v with
    | .null => .ok .null
    | .bool b => .ok (.bool b)
    | .number n => .ok (.number (.ofJson n))
    | .string s => .ok (.text s)
    | .array items => do return .list (← ofItemsAt (depth + 1) items)
    | .object members => do return .map (Entries.ofList (← ofMembersAt (depth + 1) members))

def ofItemsAt (depth : Nat) : List Json → Except CodecError (List Value)
  | [] => .ok []
  | v :: vs => do return (← ofJsonAt depth v) :: (← ofItemsAt depth vs)

def ofMembersAt (depth : Nat) : List (String × Json) → Except CodecError (List (String × Value))
  | [] => .ok []
  | (k, v) :: ms => do return (k, ← ofJsonAt depth v) :: (← ofMembersAt depth ms)

end

def ofJson? (v : Json) : Except CodecError Value := ofJsonAt 0 v

def bytesToJson (bytes : List UInt8) : Json := .array (bytes.map fun b => .ofUInt64 b.toUInt64)

mutual

/-- The sentinel is written as a placeholder text. -/
def toJson : Value → Json
  | .null => .null
  | .bool b => .bool b
  | .number n => n.toJson
  | .text s => .string s
  | .binary bytes => bytesToJson bytes
  | .list items => .array (itemsToJson items)
  | .map entries => .object (entriesToJson entries)
  | .numbers ns => .array (ns.map Number.toJson)
  | .texts ss => .strings ss
  | .binaries bs => .array (bs.map bytesToJson)
  | .sentinel => .string "1"

def itemsToJson : List Value → List Json
  | [] => []
  | v :: vs => v.toJson :: itemsToJson vs

def entriesToJson : List (String × Value) → List (String × Json)
  | [] => []
  | (k, v) :: es => (k, v.toJson) :: entriesToJson es

end

end Value
end ItemStore
