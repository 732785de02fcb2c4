import Mathlib.Computability.RegularExpressions
import ItemStore.Proofs.Number.Literal

/-!
The grammar of numeric literals as a regular expression over characters. Its digits are the ten of
ASCII and no others, and it leaves no room for a second sign or point, nor for white space.
-/
namespace ItemStore

namespace NumericLiteral

open RegularExpression

def digits : List Char := ['0', '1', '2', '3', '4', '5', '6', '7', '8', '9']

theorem mem_digits_iff {c : Char} : c ∈ digits ↔ c.isDigit = true := by
  constructor
  · have hd : ∀ d ∈ digits, d.isDigit = true := by simp [digits]
    exact hd c
  · intro h
    simp only [Char.isDigit, Bool.and_eq_true, decide_eq_true_eq] at h
    have hlow : 48 ≤ c.toNat := h.1
    have hhigh : c.toNat ≤ 57 := h.2
    have hd : ∀ k < 10, Char.ofNat (48 + k) ∈ digits := by decide
    have hk := hd (c.toNat - 48) (by omega)
    rwa [Nat.add_sub_cancel' hlow, Char.ofNat_toNat] at hk

def oneOf (cs : List Char) : RegularExpression Char := cs.foldr (fun c e => char c + e) 0

def wholeExpression : RegularExpression Char := oneOf digits * star (oneOf digits)

/-- `-?[0-9]+(\.[0-9]*)?` -/
def expression : RegularExpression Char :=
  (1 + char '-') * wholeExpression * (1 + char '.' * star (oneOf digits))

theorem mem_oneOf_iff {cs ds : List Char} :
    ds ∈ (oneOf cs).matches' ↔ ∃ c ∈ cs, ds = [c] := by
  induction cs with
  | nil => simp [oneOf, Language.notMem_zero]
  | cons c cs ih =>
    rw [oneOf, List.foldr_cons, matches'_add, Language.mem_add]
    change _ ∨ ds ∈ (oneOf cs).matches' ↔ _
    rw [ih, List.exists_mem_cons_iff]
    rfl

theorem mem_star_oneOf_iff {cs ds : List Char} :
    ds ∈ (star (oneOf cs)).matches' ↔ ∀ d ∈ ds, d ∈ cs := by
  rw [matches'_star, Language.mem_kstar]
  constructor
  · rintro ⟨parts, rfl, hp⟩ d hd
    obtain ⟨p, hpm, hd⟩ := List.mem_flatten.1 hd
    obtain ⟨c, hc, rfl⟩ := mem_oneOf_iff.1 (hp p hpm)
    rwa [List.mem_singleton.1 hd]
  · intro h
    refine ⟨ds.map ([·]), by simp [← List.flatMap_def], ?_⟩
    exact List.forall_mem_map.2 fun d hd => mem_oneOf_iff.2 ⟨d, h d hd, rfl⟩

theorem mem_star_digits_iff {ds : List Char} :
    ds ∈ (star (oneOf digits)).matches' ↔ ∀ d ∈ ds, d.isDigit = true := by
  simp only [mem_star_oneOf_iff, mem_digits_iff]

theorem mem_wholeExpression_iff {ds : List Char} :
    ds ∈ wholeExpression.matches' ↔ ds ≠ [] ∧ ∀ d ∈ ds, d.isDigit = true := by
  rw [wholeExpression, matches'_mul, Language.mem_mul]
  constructor
  · rintro ⟨as, ha, bs, hb, rfl⟩
    obtain ⟨c, hc, rfl⟩ := mem_oneOf_iff.1 ha
    exact ⟨by simp, List.forall_mem_cons.2 ⟨mem_digits_iff.1 hc, mem_star_digits_iff.1 hb⟩⟩
  · rintro ⟨hne, hd⟩
    obtain ⟨c, cs, rfl⟩ := List.exists_cons_of_ne_nil hne
    obtain ⟨hc, hcs⟩ := List.forall_mem_cons.1 hd
    have hone : [c] ∈ (oneOf digits).matches' := mem_oneOf_iff.2 ⟨c, mem_digits_iff.2 hc, rfl⟩
    exact ⟨[c], hone, cs, mem_star_digits_iff.2 hcs, rfl⟩

theorem mem_optional_iff {e : RegularExpression Char} {cs : List Char} :
    cs ∈ (1 + e).matches' ↔ cs = [] ∨ cs ∈ e.matches' := Iff.rfl

theorem mem_fractionExpression_iff {cs : List Char} :
    cs ∈ (1 + char '.' * star (oneOf digits)).matches' ↔
      ∃ fraction? : Option (List Char), (∀ ds ∈ fraction?, ∀ d ∈ ds, d.isDigit = true) ∧
        cs = (fraction?.map ('.' :: ·)).getD [] := by
  rw [mem_optional_iff, matches'_mul, Language.mem_mul]
  constructor
  · rintro (rfl | ⟨_, rfl, ds, hd, rfl⟩)
    · exact ⟨none, by simp, rfl⟩
    · exact ⟨some ds, by simpa using mem_star_digits_iff.1 hd, rfl⟩
  · rintro ⟨fraction?, hd, rfl⟩
    cases fraction? with
    | none => exact .inl rfl
    | some ds => exact .inr ⟨['.'], rfl, ds, mem_star_digits_iff.2 (hd ds rfl), rfl⟩

theorem chars_eq_append (l : NumericLiteral) :
    l.chars = (if l.negative then ['-'] else []) ++ l.whole ++
      (l.fraction?.map ('.' :: ·)).getD [] := by
  have hu : l.unsigned = l.whole ++ (l.fraction?.map ('.' :: ·)).getD [] := by
    unfold unsigned
    cases l.fraction? <;> simp
  rw [chars, hu]
  cases l.negative <;> rfl

theorem mem_expression_iff {cs : List Char} :
    cs ∈ expression.matches' ↔ ∃ l : NumericLiteral, cs = l.chars := by
  rw [expression, matches'_mul, matches'_mul, Language.mem_mul]
  constructor
  · rintro ⟨_, ⟨sign, hs, whole, hw, rfl⟩, rest, hr, rfl⟩
    obtain ⟨hne, hd⟩ := mem_wholeExpression_iff.1 hw
    obtain ⟨fraction?, hf, rfl⟩ := mem_fractionExpression_iff.1 hr
    have hl := fun negative => chars_eq_append ⟨negative, whole, fraction?, hne, hd, hf⟩
    rcases mem_optional_iff.1 hs with rfl | rfl
    · exact ⟨_, (hl false).symm⟩
    · exact ⟨_, (hl true).symm⟩
  · rintro ⟨l, rfl⟩
    have hw : l.whole ∈ wholeExpression.matches' :=
      mem_wholeExpression_iff.2 ⟨l.whole_ne_nil, l.isDigit_of_mem_whole⟩
    have hr := mem_fractionExpression_iff.2 ⟨l.fraction?, l.isDigit_of_mem_fraction, rfl⟩
    have hs : (if l.negative then ['-'] else []) ∈ (1 + char '-').matches' := by
      cases l.negative
      · exact .inl rfl
      · exact .inr rfl
    rw [chars_eq_append]
    exact ⟨_, ⟨_, hs, _, hw, rfl⟩, _, hr, rfl⟩

end NumericLiteral

/-- The texts that count as numeric literals are those that the expression matches as a whole. -/
theorem isNumericLiteral_iff_mem_matches (s : String) :
    isNumericLiteral s = true ↔ s.toList ∈ NumericLiteral.expression.matches' := by
  rw [isNumericLiteral_iff, NumericLiteral.mem_expression_iff]

example : "-007.".toList ∈ NumericLiteral.expression.matches' ∧
    "1.2.3".toList ∉ NumericLiteral.expression.matches' := by decide

end ItemStore
