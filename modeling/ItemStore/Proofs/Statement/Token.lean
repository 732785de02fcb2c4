import ItemStore.Proofs.Statement.Piece

/-!
Tokens of statements. Words and comparison signs are as long as they can be, a quoted name is one
token, and placeholders are numbered from left to right.
-/
namespace ItemStore

inductive Token where
  | word (cs : List Char)
  | sign (cs : List Char)
  | quoted (name : List Char)
  | placeholder (n : Nat)
  | opening | closing | comma | star
deriving DecidableEq

namespace Token

def isWordChar (c : Char) : Bool := c.isAlphanum || c == '_' || c == '.'

def isSignChar (c : Char) : Bool := c == '=' || c == '<' || c == '>'

def beginsWith (p : Char → Bool) : List Piece → Bool
  | .char c :: _ => p c
  | _ => false

/-- A character stands before a word, which it begins if the word goes on, or is one by itself. -/
def consWord (c : Char) (goesOn : Bool) (ts : List Token) : List Token :=
  match goesOn, ts with
  | true, .word w :: ts => .word (c :: w) :: ts
  | _, ts => .word [c] :: ts

def consSign (c : Char) (goesOn : Bool) (ts : List Token) : List Token :=
  match goesOn, ts with
  | true, .sign s :: ts => .sign (c :: s) :: ts
  | _, ts => .sign [c] :: ts

/-- The tokens of a text, of which the first placeholder has the number `n`. -/
def ofPieces? (n : Nat) : List Piece → Option (List Token)
  | [] => some []
  | .quoted name :: ps => (ofPieces? n ps).map (.quoted name :: ·)
  | .char c :: ps =>
    if c = ' ' then ofPieces? n ps
    else if c = '?' then (ofPieces? (n + 1) ps).map (.placeholder n :: ·)
    else if c = '(' then (ofPieces? n ps).map (.opening :: ·)
    else if c = ')' then (ofPieces? n ps).map (.closing :: ·)
    else if c = ',' then (ofPieces? n ps).map (.comma :: ·)
    else if c = '*' then (ofPieces? n ps).map (.star :: ·)
    else if isWordChar c then (ofPieces? n ps).map (consWord c (beginsWith isWordChar ps))
    else if isSignChar c then (ofPieces? n ps).map (consSign c (beginsWith isSignChar ps))
    else none

def ofText? (s : String) : Option (List Token) := (Piece.ofText? s).bind (ofPieces? 0)

theorem ofPieces?_wordChar {c : Char} (h : isWordChar c = true) (n : Nat) (ps : List Piece) :
    ofPieces? n (.char c :: ps) =
      (ofPieces? n ps).map (consWord c (beginsWith isWordChar ps)) := by
  have hb : c ≠ ' ' ∧ c ≠ '?' ∧ c ≠ '(' ∧ c ≠ ')' ∧ c ≠ ',' ∧ c ≠ '*' := by
    refine ⟨?_, ?_, ?_, ?_, ?_, ?_⟩ <;> rintro rfl <;> revert h <;> decide
  rw [ofPieces?, if_neg hb.1, if_neg hb.2.1, if_neg hb.2.2.1, if_neg hb.2.2.2.1,
    if_neg hb.2.2.2.2.1, if_neg hb.2.2.2.2.2, if_pos h]

theorem ofPieces?_word {w : List Char} (hw : ∀ c ∈ w, isWordChar c = true) (hne : w ≠ [])
    {ps : List Piece} (hp : beginsWith isWordChar ps = false) (n : Nat) :
    ofPieces? n (w.map .char ++ ps) = (ofPieces? n ps).map (.word w :: ·) := by
  induction w with
  | nil => exact absurd rfl hne
  | cons c w ih =>
    rw [List.map_cons, List.cons_append, ofPieces?_wordChar (hw c (List.mem_cons_self ..))]
    cases w with
    | nil => simp only [List.map_nil, List.nil_append, hp]; rfl
    | cons d w =>
      have hb : beginsWith isWordChar ((d :: w).map .char ++ ps) = true := hw d (by simp)
      rw [ih (fun a ha => hw a (List.mem_cons_of_mem _ ha)) (by simp), hb, Option.map_map]
      rfl

/-- Whether no word and no sign that the pieces end in can go on after them. -/
def isClosed : List Piece → Bool
  | [] => true
  | [.char c] => !isWordChar c && !isSignChar c
  | _ :: ps => isClosed ps

theorem isClosed_of_cons {p : Piece} {ps : List Piece} (h : isClosed (p :: ps) = true) :
    isClosed ps = true := by
  cases ps with
  | nil => rfl
  | cons q ps => cases p <;> exact h

theorem consWord_ne_nil (c : Char) (goesOn : Bool) (ts : List Token) :
    consWord c goesOn ts ≠ [] := by
  unfold consWord
  split <;> simp

theorem consSign_ne_nil (c : Char) (goesOn : Bool) (ts : List Token) :
    consSign c goesOn ts ≠ [] := by
  unfold consSign
  split <;> simp

theorem consWord_append (c : Char) {goesOn : Bool} {ts : List Token}
    (h : goesOn = true → ts ≠ []) (us : List Token) :
    consWord c goesOn (ts ++ us) = consWord c goesOn ts ++ us := by
  cases goesOn with
  | false => rfl
  | true =>
    cases ts with
    | nil => exact absurd rfl (h rfl)
    | cons t ts => cases t <;> rfl

theorem consSign_append (c : Char) {goesOn : Bool} {ts : List Token}
    (h : goesOn = true → ts ≠ []) (us : List Token) :
    consSign c goesOn (ts ++ us) = consSign c goesOn ts ++ us := by
  cases goesOn with
  | false => rfl
  | true =>
    cases ts with
    | nil => exact absurd rfl (h rfl)
    | cons t ts => cases t <;> rfl

theorem ne_nil_of_ofPieces? {p : Char → Bool} (hp : p ' ' = false) {n : Nat} {ps : List Piece}
    {ts : List Token} (h : ofPieces? n ps = some ts) (hb : beginsWith p ps = true) : ts ≠ [] := by
  rintro rfl
  cases ps with
  | nil => cases hb
  | cons q ps =>
    cases q with
    | quoted name => simp [beginsWith] at hb
    | char c =>
      have hc : c ≠ ' ' := by
        rintro rfl
        rw [beginsWith, hp] at hb
        cases hb
      rw [ofPieces?, if_neg hc] at h
      repeat' split at h
      all_goals first
        | cases h
        | obtain ⟨us, -, hu⟩ := Option.map_eq_some_iff.1 h
          first
            | cases hu
            | exact consWord_ne_nil c _ us hu
            | exact consSign_ne_nil c _ us hu

theorem map_bind_append {x y : Option (List Token)} {f : List Token → List Token}
    (hf : ∀ ts, x = some ts → ∀ us, f (ts ++ us) = f ts ++ us) :
    (x.bind fun ts => y.map (ts ++ ·)).map f = (x.map f).bind fun ts => y.map (ts ++ ·) := by
  cases x with
  | none => rfl
  | some ts => cases y <;> simp [hf ts rfl]

theorem placeholders_cons_of_ne {c : Char} (h : c ≠ '?') (ps : List Piece) :
    Piece.placeholders (.char c :: ps) = Piece.placeholders ps := by
  refine List.count_cons_of_ne ?_
  rintro ⟨⟩
  exact h rfl

/-- Pieces that nothing can go on after have their tokens whatever follows. -/
theorem ofPieces?_append {ps : List Piece} (h : isClosed ps = true) (n : Nat) (qs : List Piece) :
    ofPieces? n (ps ++ qs) =
      (ofPieces? n ps).bind fun ts =>
        (ofPieces? (n + Piece.placeholders ps) qs).map (ts ++ ·) := by
  induction ps generalizing n with
  | nil => simp [ofPieces?, Piece.placeholders]
  | cons p ps ih =>
    have hps := isClosed_of_cons h
    cases p with
    | quoted name =>
      have hz : Piece.placeholders (.quoted name :: ps) = Piece.placeholders ps := by
        simp [Piece.placeholders]
      rw [List.cons_append, ofPieces?, ofPieces?, ih hps, hz]
      exact map_bind_append fun _ _ _ => rfl
    | char c =>
      have hb : ∀ p : Char → Bool, (p c = true → (!isWordChar c && !isSignChar c) = false) →
          p c = true → beginsWith p (ps ++ qs) = beginsWith p ps := by
        intro p hp hc
        cases ps with
        | nil =>
          have hn : (!isWordChar c && !isSignChar c) = true := h
          rw [hp hc] at hn
          cases hn
        | cons q ps => cases q <;> rfl
      rw [List.cons_append, ofPieces?, ofPieces?]
      by_cases hq : c = '?'
      · subst hq
        have ho : Piece.placeholders (.char '?' :: ps) = Piece.placeholders ps + 1 :=
          List.count_cons_self
        have hs : ('?' : Char) ≠ ' ' := by decide
        rw [if_neg hs, if_pos rfl, if_neg hs, if_pos rfl, ih hps, ho,
          Nat.add_comm (Piece.placeholders ps) 1, ← Nat.add_assoc]
        exact map_bind_append fun _ _ _ => rfl
      · rw [placeholders_cons_of_ne hq, if_neg hq, if_neg hq, ih hps]
        split
        · rfl
        iterate 4
          split
          · exact map_bind_append fun _ _ _ => rfl
        split
        · rename_i hc
          rw [hb isWordChar (fun hc => by simp [hc]) hc]
          exact map_bind_append fun ts hts us =>
            consWord_append c (ne_nil_of_ofPieces? rfl hts) us
        split
        · rename_i hc
          rw [hb isSignChar (fun hc => by simp [hc]) hc]
          exact map_bind_append fun ts hts us =>
            consSign_append c (ne_nil_of_ofPieces? rfl hts) us
        · rfl

/-- A text with `n` placeholders before it and `m` before what follows it has these tokens,
whatever follows. -/
def Lexes (n m : Nat) (cs : List Char) (ts : List Token) : Prop :=
  ∃ ps, (∀ rest, Piece.outside (cs ++ rest) = (Piece.outside rest).map (ps ++ ·)) ∧
    (∀ qs, ofPieces? n (ps ++ qs) = (ofPieces? m qs).map (ts ++ ·)) ∧
    m = n + Piece.placeholders ps

theorem Lexes.nil (n : Nat) : Lexes n n [] [] :=
  ⟨[], fun _ => by simp, fun _ => by simp, rfl⟩

theorem Lexes.append {n m k : Nat} {as bs : List Char} {ts us : List Token}
    (h : Lexes n m as ts) (h' : Lexes m k bs us) : Lexes n k (as ++ bs) (ts ++ us) := by
  obtain ⟨ps, hp, ht, hm⟩ := h
  obtain ⟨qs, hq, hu, hk⟩ := h'
  refine ⟨ps ++ qs, fun rest => ?_, fun rs => ?_, ?_⟩
  · rw [List.append_assoc, hp, hq, Option.map_map]
    simp [Function.comp_def]
  · rw [List.append_assoc, ht, hu, Option.map_map]
    simp [Function.comp_def]
  · rw [hk, hm, Piece.placeholders_append, Nat.add_assoc]

theorem Lexes.of_chars {n m : Nat} {cs : List Char} {ts : List Token} (hq : '"' ∉ cs)
    (hc : isClosed (cs.map .char) = true) (ht : ofPieces? n (cs.map .char) = some ts)
    (hm : m = n + Piece.placeholders (cs.map .char)) : Lexes n m cs ts :=
  ⟨_, Piece.outside_append hq, fun qs => by rw [ofPieces?_append hc, ht, hm]; rfl, hm⟩

end Token
end ItemStore
