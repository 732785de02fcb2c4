import ItemStore.Json.Numeral

/-! The tokens of JSON text. -/
namespace ItemStore.Json

inductive Token where
  | openArray | closeArray | openObject | closeObject | comma | colon
  | null
  | bool (b : Bool)
  | number (n : Number)
  | string (s : String)

namespace Token

def hexValue? (c : Char) : Option Nat :=
  if c.isDigit then some (Digits.digit c)
  else if 'a' ≤ c ∧ c ≤ 'f' then some (c.toNat - 87)
  else if 'A' ≤ c ∧ c ≤ 'F' then some (c.toNat - 55)
  else none

def hexCode? (a b c d : Char) : Option Nat := do
  return 4096 * (← hexValue? a) + 256 * (← hexValue? b) + 16 * (← hexValue? c) + (← hexValue? d)

def escaped? : Char → Option Char
  | '"' => some '"'
  | '\\' => some '\\'
  | '/' => some '/'
  | 'b' => some '\x08'
  | 'f' => some '\x0c'
  | 'n' => some '\n'
  | 'r' => some '\r'
  | 't' => some '\t'
  | _ => none

/-- The characters up to the closing quote, and what follows it. A character outside the basic
plane is escaped as a pair of surrogates, and a surrogate without the other is refused. -/
def string? : List Char → Option (List Char × List Char)
  | [] => none
  | '"' :: rest => some ([], rest)
  | '\\' :: 'u' :: a :: b :: c :: d :: rest =>
    match hexCode? a b c d with
    | none => none
    | some n =>
      if 0xDC00 ≤ n ∧ n < 0xE000 then none
      else if 0xD800 ≤ n ∧ n < 0xDC00 then
        match rest with
        | '\\' :: 'u' :: a :: b :: c :: d :: rest =>
          match hexCode? a b c d with
          | none => none
          | some m =>
            if 0xDC00 ≤ m ∧ m < 0xE000 then
              (string? rest).map fun (s, r) =>
                (Char.ofNat (0x10000 + 0x400 * (n - 0xD800) + (m - 0xDC00)) :: s, r)
            else none
        | _ => none
      else (string? rest).map fun (s, r) => (Char.ofNat n :: s, r)
  | '\\' :: e :: rest =>
    match escaped? e with
    | none => none
    | some c => (string? rest).map fun (s, r) => (c :: s, r)
  | c :: rest =>
    if c.toNat < 32 ∨ c = '\\' then none else (string? rest).map fun (s, r) => (c :: s, r)

def inNumber (c : Char) : Bool := c.isDigit || c == '-' || c == '+' || c == '.' || c == 'e' || c == 'E'

/-- The token at the head of a text, and what follows it. A number reaches as far as characters of
numbers do. -/
def scan? : List Char → Option (Token × List Char)
  | '[' :: cs => some (.openArray, cs)
  | ']' :: cs => some (.closeArray, cs)
  | '\x7b' :: cs => some (.openObject, cs)
  | '\x7d' :: cs => some (.closeObject, cs)
  | ',' :: cs => some (.comma, cs)
  | ':' :: cs => some (.colon, cs)
  | 'n' :: 'u' :: 'l' :: 'l' :: cs => some (.null, cs)
  | 't' :: 'r' :: 'u' :: 'e' :: cs => some (.bool true, cs)
  | 'f' :: 'a' :: 'l' :: 's' :: 'e' :: cs => some (.bool false, cs)
  | '"' :: cs => (string? cs).map fun (s, rest) => (.string (String.ofList s), rest)
  | [] => none
  | c :: cs => (Numeral.ofText? (c :: cs.takeWhile inNumber)).map (.number ·, cs.dropWhile inNumber)

theorem length_string? {cs s rest : List Char} (h : string? cs = some (s, rest)) :
    rest.length < cs.length := by
  fun_induction string? cs generalizing s <;> simp_all <;> grind

theorem length_scan? {cs rest : List Char} {t : Token} (h : scan? cs = some (t, rest)) :
    rest.length < cs.length := by
  unfold scan? at h
  split at h <;> simp_all <;> try grind
  · obtain ⟨_, hs, _⟩ := h
    have hl := length_string? hs
    omega
  · obtain ⟨_, _, _, rfl⟩ := h
    have hl : ∀ ds : List Char, (ds.dropWhile inNumber).length ≤ ds.length :=
      fun ds => (List.dropWhile_sublist _).length_le
    grind

def isSpace (c : Char) : Bool := c == ' ' || c == '\t' || c == '\n' || c == '\r'

def ofText? : List Char → Option (List Token)
  | [] => some []
  | c :: cs =>
    if isSpace c then ofText? cs
    else
      match _h : scan? (c :: cs) with
      | none => none
      | some (t, rest) => (ofText? rest).map (t :: ·)
termination_by cs => cs.length
decreasing_by
  · simp
  · exact length_scan? _h

end Token
end ItemStore.Json
