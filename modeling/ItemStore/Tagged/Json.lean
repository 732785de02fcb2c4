import ItemStore.Tagged.Basic

/-! Tagged values in JSON: an object with the tag as its only key. Bytes are base64 text. -/
namespace ItemStore.Tagged

mutual

def toJson : Tagged → Json
  | .null marker => .entry "NULL" (.bool marker)
  | .bool b => .entry "BOOL" (.bool b)
  | .number literal => .entry "N" (.string literal)
  | .text s => .entry "S" (.string s)
  | .binary bytes => .entry "B" (.string (Base64.text bytes))
  | .numbers literals => .entry "NS" (.strings literals)
  | .texts ss => .entry "SS" (.strings ss)
  | .binaries bs => .entry "BS" (.strings (bs.map Base64.text))
  | .list items => .entry "L" (.array (itemsToJson items))
  | .map entries => .entry "M" (.object (entriesToJson entries))

def itemsToJson : List Tagged → List Json
  | [] => []
  | w :: ws => w.toJson :: itemsToJson ws

def entriesToJson : List (String × Tagged) → List (String × Json)
  | [] => []
  | (k, w) :: es => (k, w.toJson) :: entriesToJson es

end

mutual

/-- One known tag over a payload of its shape; the members of a map are put in order. -/
def ofJson? : Json → Option Tagged
  | .object [(name, payload)] =>
    match Tag.ofName? name, payload with
    | some .null, .bool marker => some (.null marker)
    | some .bool, .bool b => some (.bool b)
    | some .number, .string literal => some (.number literal)
    | some .text, .string s => some (.text s)
    | some .binary, .string s => (Base64.ofText? s).map .binary
    | some .numbers, .array items => (Json.strings? items).map .numbers
    | some .texts, .array items => (Json.strings? items).map .texts
    | some .binaries, .array items =>
      (Json.strings? items).bind fun ss => (ss.mapM Base64.ofText?).map .binaries
    | some .list, .array items => (itemsOfJson? items).map .list
    | some .map, .object members => (entriesOfJson? members).map fun es => .map (Entries.ofList es)
    | _, _ => none
  | _ => none

def itemsOfJson? : List Json → Option (List Tagged)
  | [] => some []
  | v :: vs => do return (← ofJson? v) :: (← itemsOfJson? vs)

def entriesOfJson? : List (String × Json) → Option (List (String × Tagged))
  | [] => some []
  | (k, v) :: ms => do return (k, ← ofJson? v) :: (← entriesOfJson? ms)

end

end ItemStore.Tagged

namespace ItemStore.TaggedItem

def toJson (item : TaggedItem) : Json := .object (Tagged.entriesToJson item)

def ofJson? : Json → Option TaggedItem
  | .object members => (Tagged.entriesOfJson? members).map Entries.ofList
  | _ => none

end ItemStore.TaggedItem
