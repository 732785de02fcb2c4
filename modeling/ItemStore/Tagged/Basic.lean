import ItemStore.Base64
import ItemStore.Entries
import ItemStore.Json.Basic

/-! Values as they travel on the wire, each under the tag of its type. -/
namespace ItemStore

inductive Tag where
  | null | bool | number | text | binary | numbers | texts | binaries | list | map
deriving DecidableEq

namespace Tag

def all : List Tag :=
  [.null, .bool, .number, .text, .binary, .numbers, .texts, .binaries, .list, .map]

def name : Tag → String
  | .null => "NULL"
  | .bool => "BOOL"
  | .number => "N"
  | .text => "S"
  | .binary => "B"
  | .numbers => "NS"
  | .texts => "SS"
  | .binaries => "BS"
  | .list => "L"
  | .map => "M"

def ofName? (name : String) : Option Tag := all.find? (·.name == name)

@[simp] theorem ofName?_name (t : Tag) : ofName? t.name = some t := by cases t <;> rfl

end Tag

/-- Numbers travel as their text. -/
inductive Tagged where
  | null (marker : Bool)
  | bool (b : Bool)
  | number (literal : String)
  | text (s : String)
  | binary (bytes : List UInt8)
  | numbers (literals : List String)
  | texts (ss : List String)
  | binaries (bs : List (List UInt8))
  | list (items : List Tagged)
  | map (entries : List (String × Tagged))

abbrev TaggedItem := Entries Tagged

def Tagged.tag : Tagged → Tag
  | .null _ => .null
  | .bool _ => .bool
  | .number _ => .number
  | .text _ => .text
  | .binary _ => .binary
  | .numbers _ => .numbers
  | .texts _ => .texts
  | .binaries _ => .binaries
  | .list _ => .list
  | .map _ => .map

end ItemStore
