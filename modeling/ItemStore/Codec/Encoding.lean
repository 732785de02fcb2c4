import ItemStore.Codec.Error

/-!
Values become tagged values. A text that is a numeric literal travels as a number, and a list of
which all members are numbers, or all are texts, travels as a set.
-/
namespace ItemStore

def Value.scalarTag? : Value → Option Tag
  | .null => some .null
  | .sentinel => some .null
  | .bool _ => some .bool
  | .number _ => some .number
  | .text s => some (if isNumericLiteral s then .number else .text)
  | _ => none

def Number.literal (n : Number) : Except CodecError String :=
  if n.isFinite then .ok n.text else .error (.unclassifiable .nonFiniteNumber)

namespace Value

/-- The text of a set's member. -/
def literal : Value → Except CodecError String
  | .number n => n.literal
  | .text s => .ok s
  | v => .error (.unclassifiable v.kind)

def allTagged (t : Tag) (items : List Value) : Bool := items.all fun v => v.scalarTag? == some t

mutual

/-- The tagged form of a value that stands at a level. -/
def encodeAt (depth : Nat) (v : Value) : Except CodecError Tagged :=
  if CodecError.maxDepth < depth then .error .tooDeep
  else
    match v with
    | .null => .ok (.null true)
    | .sentinel => .ok (.null false)
    | .bool b => .ok (.bool b)
    | .number n => do return .number (← n.literal)
    | .text s => .ok (if isNumericLiteral s then .number s else .text s)
    | .list items =>
      if items.isEmpty then .ok (.list [])
      else if allTagged .number items then do return .numbers (← items.mapM literal)
      else if allTagged .text items then do return .texts (← items.mapM literal)
      else do return .list (← encodeItems (depth + 1) items)
    | .map entries => do return .map (← encodeEntries (depth + 1) entries)
    | .numbers ns => do return .numbers (← ns.mapM Number.literal)
    | .texts ss => .ok (.texts ss)
    | .binary _ => .error (.unclassifiable .binary)
    | .binaries _ => .error (.unclassifiable .binarySet)

def encodeItems (depth : Nat) : List Value → Except CodecError (List Tagged)
  | [] => .ok []
  | v :: vs => do return (← encodeAt depth v) :: (← encodeItems depth vs)

def encodeEntries (depth : Nat) : List (String × Value) → Except CodecError (List (String × Tagged))
  | [] => .ok []
  | (k, v) :: es => do return (k, ← encodeAt depth v) :: (← encodeEntries depth es)

end

def encode (v : Value) : Except CodecError Tagged := encodeAt 0 v

end Value

def Item.encode (item : Item) : Except CodecError TaggedItem := Value.encodeEntries 1 item

end ItemStore
