import ItemStore.Binary64.Text
import ItemStore.Json.Basic

/-! JSON text, on one line or indented. -/
namespace ItemStore.Json

/-- Positional and always with a fraction from `10^-5` up to `10^16`, otherwise with an exponent. -/
def floatText (d : Decimal) : List Char :=
  if -5 ≤ d.magnitude ∧ d.magnitude < 16 then
    d.positional ++ (if 0 ≤ d.exponent then ['.', '0'] else [])
  else d.scientific

/-- Floats have the fewest digits that read back; of two equally near the even is taken. -/
def Number.text : Number → List Char
  | .integer n _ => Digits.ofInt n
  | .float x => Binary64.signed x.negative (floatText (Binary64.shortest .even x.units))

def hexDigit (n : Nat) : Char := if n < 10 then Digits.char n else Char.ofNat (87 + n)

def escape (c : Char) : List Char :=
  match c with
  | '"' => ['\\', '"']
  | '\\' => ['\\', '\\']
  | '\n' => ['\\', 'n']
  | '\r' => ['\\', 'r']
  | '\t' => ['\\', 't']
  | '\x08' => ['\\', 'b']
  | '\x0c' => ['\\', 'f']
  | c =>
    if c.toNat < 32 then ['\\', 'u', '0', '0', hexDigit (c.toNat / 16), hexDigit (c.toNat % 16)]
    else [c]

def quoted (s : String) : String := String.ofList ('"' :: s.toList.flatMap escape ++ ['"'])

mutual

def compact : Json → String
  | .null => "null"
  | .bool b => if b then "true" else "false"
  | .number n => String.ofList n.text
  | .string s => quoted s
  | .array items => "[" ++ ",".intercalate (compactItems items) ++ "]"
  | .object members => "\x7b" ++ ",".intercalate (compactMembers members) ++ "\x7d"

def compactItems : List Json → List String
  | [] => []
  | v :: vs => v.compact :: compactItems vs

def compactMembers : List (String × Json) → List String
  | [] => []
  | (k, v) :: ms => (quoted k ++ ":" ++ v.compact) :: compactMembers ms

end

def indentation (level : Nat) : String := String.ofList (List.replicate (2 * level) ' ')

def block (level : Nat) (opening closing : String) (lines : List String) : String :=
  if lines.isEmpty then opening ++ closing
  else
    opening ++ "\n" ++ ",\n".intercalate (lines.map (indentation (level + 1) ++ ·)) ++ "\n" ++
      indentation level ++ closing

mutual

def pretty (level : Nat) : Json → String
  | .array items => block level "[" "]" (prettyItems (level + 1) items)
  | .object members => block level "\x7b" "\x7d" (prettyMembers (level + 1) members)
  | .null => compact .null
  | .bool b => compact (.bool b)
  | .number n => compact (.number n)
  | .string s => compact (.string s)

def prettyItems (level : Nat) : List Json → List String
  | [] => []
  | v :: vs => pretty level v :: prettyItems level vs

def prettyMembers (level : Nat) : List (String × Json) → List String
  | [] => []
  | (k, v) :: ms => (quoted k ++ ": " ++ pretty level v) :: prettyMembers level ms

end

end ItemStore.Json
