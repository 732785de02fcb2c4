import ItemStore.Codec.Decoding
import ItemStore.Value.Json

/-!
Untyped documents as they come back from the store. What is a tagged value is decoded as one. An
array is decoded member by member, an object with no key or several is a map of attributes, and a
lone key that is no tag is an attribute's name if its payload is an array or an object. Payloads
may be looser than those of tagged values.
-/
namespace ItemStore.Response

/-- A payload that is not a text stands for its JSON text. -/
def textOf : Json → String
  | .string s => s
  | payload => payload.compact

def numberOf : Json → Except CodecError Number
  | .string literal => Number.ofLiteral literal
  | .number n => .ok (.ofJson n)
  | payload => .error (.malformed (.notNumber payload))

def byteOf : Json → Except CodecError UInt8
  | .number (.integer n h) =>
    if 0 ≤ n ∧ n < 256 then .ok (UInt8.ofNat n.toNat)
    else .error (.malformed (.byte (.number (.integer n h))))
  | v => .error (.malformed (.byte v))

/-- Bytes as base64 text or as an array of numbers. -/
def bytesOf : Json → Except CodecError (List UInt8)
  | .string s =>
    match Base64.ofText? s with
    | some bytes => .ok bytes
    | none => .error (.malformed (.base64 s))
  | .array items => items.mapM byteOf
  | payload => .error (.malformed (.notBinary payload))

def boolOf : Json → Except CodecError Bool
  | .bool b => .ok b
  | payload => .error (.malformed (.payload .bool payload))

def membersOf (tag : Tag) : Json → Except CodecError (List Json)
  | .array items => .ok items
  | payload => .error (.malformed (.payload tag payload))

def textsOf (payload : Json) : Except CodecError (List String) := do
  (← membersOf .texts payload).mapM fun
    | .string s => .ok s
    | _ => .error (.malformed (.payload .texts payload))

mutual

def decodeAt (depth : Nat) (v : Json) : Except CodecError Value :=
  if CodecError.maxDepth < depth then .error .tooDeep
  else
    match v with
    | .array items => do return .list (← decodeItems (depth + 1) items)
    | .object [(name, payload)] =>
      match Tag.ofName? name with
      | some .null => .ok (if payload.isTruthy then .null else .sentinel)
      | some .bool => do return .bool (← boolOf payload)
      | some .number => do return .number (← numberOf payload)
      | some .text => .ok (.text (textOf payload))
      | some .binary => do return .binary (← bytesOf payload)
      | some .numbers => do return .numbers (← (← membersOf .numbers payload).mapM numberOf)
      | some .texts => do return .texts (← textsOf payload)
      | some .binaries => do return .binaries (← (← membersOf .binaries payload).mapM bytesOf)
      | some .list =>
        match payload with
        | .array items => do return .list (← decodeItems (depth + 1) items)
        | payload => .error (.malformed (.payload .list payload))
      | some .map =>
        match payload with
        | .object members => do return .map (Entries.ofList (← decodeMembers (depth + 1) members))
        | payload => .error (.malformed (.payload .map payload))
      | none =>
        match payload with
        | .array _ => do return .map [(name, ← decodeAt (depth + 1) payload)]
        | .object _ => do return .map [(name, ← decodeAt (depth + 1) payload)]
        | _ => .error (.malformed (.unknownTag name payload))
    | .object members => do return .map (Entries.ofList (← decodeMembers (depth + 1) members))
    | v => .error (.malformed (.untagged v))

def decodeItems (depth : Nat) : List Json → Except CodecError (List Value)
  | [] => .ok []
  | v :: vs => do return (← decodeAt depth v) :: (← decodeItems depth vs)

def decodeMembers (depth : Nat) : List (String × Json) → Except CodecError (List (String × Value))
  | [] => .ok []
  | (k, v) :: ms => do return (k, ← decodeAt depth v) :: (← decodeMembers depth ms)

end

def decode (v : Json) : Except CodecError Value := decodeAt 0 v

end ItemStore.Response
