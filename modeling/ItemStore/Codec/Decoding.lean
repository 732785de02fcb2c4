import ItemStore.Codec.Error

/-! Tagged values become values. Numbers are read from their text, alone and in sets. -/
namespace ItemStore

def Number.ofLiteral (s : String) : Except CodecError Number :=
  match Number.ofText? s with
  | some n => .ok n
  | none => .error (.malformed (.numberText s))

namespace Tagged

mutual

def decodeAt (depth : Nat) (w : Tagged) : Except CodecError Value :=
  if CodecError.maxDepth < depth then .error .tooDeep
  else
    match w with
    | .null marker => .ok (if marker then .null else .sentinel)
    | .bool b => .ok (.bool b)
    | .number literal => do return .number (← Number.ofLiteral literal)
    | .text s => .ok (.text s)
    | .binary bytes => .ok (.binary bytes)
    | .numbers literals => do return .numbers (← literals.mapM Number.ofLiteral)
    | .texts ss => .ok (.texts ss)
    | .binaries bs => .ok (.binaries bs)
    | .list items => do return .list (← decodeItems (depth + 1) items)
    | .map entries => do return .map (← decodeEntries (depth + 1) entries)

def decodeItems (depth : Nat) : List Tagged → Except CodecError (List Value)
  | [] => .ok []
  | w :: ws => do return (← decodeAt depth w) :: (← decodeItems depth ws)

def decodeEntries (depth : Nat) : List (String × Tagged) → Except CodecError (List (String × Value))
  | [] => .ok []
  | (k, w) :: es => do return (k, ← decodeAt depth w) :: (← decodeEntries depth es)

end

def decode (w : Tagged) : Except CodecError Value := decodeAt 0 w

end Tagged

def TaggedItem.decode (item : TaggedItem) : Except CodecError Item := Tagged.decodeEntries 1 item

end ItemStore
