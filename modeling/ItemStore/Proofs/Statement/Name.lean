import ItemStore.Proofs.Statement.Token

/-! A name in a statement is one token, with or without quotes. -/
namespace ItemStore

namespace Identifier

theorem isWordChar_of_isPlain {s : List Char} (h : isPlain s = true) :
    ∀ c ∈ s, Token.isWordChar c = true := by
  cases s with
  | nil => simp
  | cons d s =>
    simp only [isPlain, Bool.and_eq_true, List.all_eq_true] at h
    intro c hc
    rcases List.mem_cons.1 hc with rfl | hc
    · have hd := h.1
      simp only [Bool.or_eq_true] at hd
      rcases hd with hd | hd <;> simp [Token.isWordChar, Char.isAlphanum, hd]
    · have hd := h.2 c hc
      simp only [Bool.or_eq_true] at hd
      rcases hd with hd | hd <;> simp [Token.isWordChar, hd]

theorem mem_segments {c : Char} {name : List Char} (h : c ∈ name) :
    c = '.' ∨ ∃ s ∈ segments name, c ∈ s := by
  induction name with
  | nil => cases h
  | cons d name ih =>
    by_cases hd : d = '.'
    · rcases List.mem_cons.1 h with rfl | h
      · exact .inl hd
      · rcases ih h with h | ⟨s, hs, hc⟩
        · exact .inl h
        · exact .inr ⟨s, by simp [segments, hd, hs], hc⟩
    · simp only [segments, if_neg hd]
      rcases List.mem_cons.1 h with rfl | h
      · cases segments name <;> exact .inr ⟨_, List.mem_cons_self .., List.mem_cons_self ..⟩
      · refine (ih h).imp_right ?_
        rintro ⟨s, hs, hc⟩
        cases hn : segments name with
        | nil => simp [hn] at hs
        | cons r rs =>
          rw [hn] at hs
          rcases List.mem_cons.1 hs with rfl | hs
          · exact ⟨_, List.mem_cons_self .., List.mem_cons_of_mem _ hc⟩
          · exact ⟨s, List.mem_cons_of_mem _ hs, hc⟩

/-- A name that stands without quotes has word characters only. -/
theorem isWordChar_of_segments {name : List Char} (h : (segments name).all isPlain = true) :
    ∀ c ∈ name, Token.isWordChar c = true := by
  intro c hc
  rcases mem_segments hc with rfl | ⟨s, hs, hc⟩
  · rfl
  · exact isWordChar_of_isPlain (List.all_eq_true.1 h s hs) c hc

end Identifier

namespace Token

open Identifier

def ofName (name : List Char) : Token :=
  if (segments name).all isPlain then .word name else .quoted name

theorem not_mem_of_isWordChar {cs : List Char} {c : Char} (h : ∀ c ∈ cs, isWordChar c = true)
    (hc : isWordChar c = false) : c ∉ cs := fun hm => by
  rw [h c hm] at hc
  cases hc

section

variable {n m : Nat} {c : Char} {cs : List Char} {ts : List Token}

theorem Lexes.quoted (name : List Char) (hq : '"' ≠ c) (h : Lexes n m (c :: cs) ts) :
    Lexes n m (Identifier.quoted name ++ c :: cs) (.quoted name :: ts) := by
  obtain ⟨ps, hp, ht, hm⟩ := h
  refine ⟨.quoted name :: ps, fun rest => ?_, fun qs => ?_, ?_⟩
  · have hh : (c :: cs ++ rest).head? ≠ some '"' := by
      rintro ⟨⟩
      exact hq rfl
    rw [List.append_assoc, Piece.outside_quoted name hh, hp, Option.map_map]
    rfl
  · rw [List.cons_append, ofPieces?, ht, Option.map_map]
    rfl
  · rw [hm]
    simp [Piece.placeholders]

theorem Lexes.word {w : List Char} (hw : ∀ d ∈ w, isWordChar d = true) (hne : w ≠ [])
    (hc : isWordChar c = false) (hq : '"' ≠ c) (h : Lexes n m (c :: cs) ts) :
    Lexes n m (w ++ c :: cs) (.word w :: ts) := by
  obtain ⟨ps, hp, ht, hm⟩ := h
  obtain ⟨qs, rfl⟩ : ∃ qs, ps = .char c :: qs := by
    have hs : Piece.outside (c :: cs) = some ps := by simpa [Piece.outside] using hp []
    rw [Piece.outside, if_neg hq.symm] at hs
    obtain ⟨qs, -, rfl⟩ := Option.map_eq_some_iff.1 hs
    exact ⟨qs, rfl⟩
  refine ⟨w.map .char ++ .char c :: qs, fun rest => ?_, fun rs => ?_, ?_⟩
  · rw [List.append_assoc, Piece.outside_append (not_mem_of_isWordChar hw (by decide)), hp,
      Option.map_map]
    simp [Function.comp_def]
  · have hb : beginsWith isWordChar (.char c :: qs ++ rs) = false := hc
    rw [List.append_assoc, ofPieces?_word hw hne hb, ht, Option.map_map]
    rfl
  · have hz : Piece.placeholders (w.map .char) = 0 := by
      refine List.count_eq_zero.2 fun hp => ?_
      obtain ⟨d, hd, he⟩ := List.mem_map.1 hp
      cases he
      exact not_mem_of_isWordChar hw (by decide) hd
    rw [hm, Piece.placeholders_append, hz, Nat.zero_add]

theorem Lexes.path (name : List Char) (hc : isWordChar c = false) (hq : '"' ≠ c)
    (h : Lexes n m (c :: cs) ts) :
    Lexes n m (Identifier.path name ++ c :: cs) (ofName name :: ts) := by
  unfold Identifier.path ofName
  split
  · rename_i hs
    have hne : name ≠ [] := by rintro rfl; cases hs
    exact .word (isWordChar_of_segments hs) hne hc hq h
  · exact .quoted name hq h

end

end Token
end ItemStore
