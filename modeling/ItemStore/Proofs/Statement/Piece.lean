import ItemStore.Proofs.Identifier.Quoted

/-!
Text in which quoted names are single pieces. A quote opens a name, which ends at the next quote
that is not doubled; every other character is a piece of its own.
-/
namespace ItemStore

inductive Piece where
  | char (c : Char)
  | quoted (name : List Char)
deriving DecidableEq

namespace Piece

mutual

def outside : List Char → Option (List Piece)
  | [] => some []
  | c :: cs =>
    if c = '"' then (inside cs).map fun (name, ps) => .quoted name :: ps
    else (outside cs).map (.char c :: ·)

/-- The rest of a name up to its closing quote, and the pieces after it. -/
def inside : List Char → Option (List Char × List Piece)
  | [] => none
  | [c] => if c = '"' then some ([], []) else none
  | c :: d :: cs =>
    if c = '"' then
      if d = '"' then (inside cs).map fun (name, ps) => ('"' :: name, ps)
      else (outside (d :: cs)).map ([], ·)
    else (inside (d :: cs)).map fun (name, ps) => (c :: name, ps)

end

def ofText? (s : String) : Option (List Piece) := outside s.toList

/-- Placeholders outside of quotes. -/
def placeholders (ps : List Piece) : Nat := ps.count (.char '?')

@[simp] theorem placeholders_append (ps qs : List Piece) :
    placeholders (ps ++ qs) = placeholders ps + placeholders qs := List.count_append

theorem outside_append {cs : List Char} (h : '"' ∉ cs) (rest : List Char) :
    outside (cs ++ rest) = (outside rest).map (cs.map .char ++ ·) := by
  induction cs with
  | nil => simp
  | cons c cs ih =>
    simp only [List.mem_cons, not_or] at h
    rw [List.cons_append, outside, if_neg (Ne.symm h.1), ih h.2, Option.map_map]
    rfl

/-- A name in a text is read as it is by itself. -/
theorem inside_eq (cs : List Char) :
    inside cs =
      (Identifier.scanName? cs).bind fun (name, rest) => (outside rest).map (name, ·) := by
  fun_induction Identifier.scanName? cs with
  | case1 => rfl
  | case2 => rfl
  | case3 c hc => simp [inside, hc]
  | case4 cs ih =>
    rw [inside, if_pos rfl, if_pos rfl, ih]
    cases Identifier.scanName? cs <;> simp [Function.comp_def]
  | case5 d cs hd => simp [inside, hd]
  | case6 c d cs hc ih =>
    rw [inside, if_neg hc, ih]
    cases Identifier.scanName? (d :: cs) <;> simp [Function.comp_def]

theorem inside_doubled (name : List Char) {rest : List Char} (h : rest.head? ≠ some '"') :
    inside (Identifier.doubled name ++ '"' :: rest) = (outside rest).map (name, ·) := by
  rw [inside_eq, Identifier.scanName?_doubled name h]
  rfl

/-- A quoted name is one piece in front of anything but another quote. -/
theorem outside_quoted (name : List Char) {rest : List Char} (h : rest.head? ≠ some '"') :
    outside (Identifier.quoted name ++ rest) = (outside rest).map (.quoted name :: ·) := by
  have hi := inside_doubled name h
  simp only [Identifier.quoted, List.cons_append, List.append_assoc, List.nil_append]
  rw [outside, if_pos rfl, hi, Option.map_map]
  rfl

theorem outside_append_quoted {cs : List Char} (h : '"' ∉ cs) (name : List Char)
    {rest : List Char} (hr : rest.head? ≠ some '"') :
    outside (cs ++ Identifier.quoted name ++ rest) =
      (outside rest).map (cs.map .char ++ [.quoted name] ++ ·) := by
  rw [List.append_assoc, outside_append h, outside_quoted name hr, Option.map_map]
  simp [Function.comp_def]

end Piece
end ItemStore
