import Mathlib.Data.List.Induction
import Mathlib.Data.List.TakeWhile
import ItemStore.Proofs.Number

/-!
Integers in text. White space may stand around an integer, and a sign and zeros in front of its
digits. Every integer of 64 bits is read exactly from each of these texts, and from no other.
-/
namespace ItemStore

attribute [local instance (high)] instPowNat

namespace Text

theorem trim_append {before cs after : List Char} (hb : ∀ c ∈ before, isBlank c = true)
    (ha : ∀ c ∈ after, isBlank c = true) (hc : ∀ c ∈ cs, isBlank c = false) :
    trim (before ++ cs ++ after) = cs := by
  have hback : (after.reverse ++ cs.reverse).dropWhile isBlank = cs.reverse := by
    rw [List.dropWhile_append_of_pos fun c hm => ha c (List.mem_reverse.1 hm)]
    exact dropWhile_of_not_blank fun c hm => hc c (List.mem_reverse.1 hm)
  rw [trim, List.append_assoc, List.dropWhile_append_of_pos hb]
  cases cs with
  | nil =>
    have hfront : after.dropWhile isBlank = [] := List.dropWhile_eq_nil_iff.2 ha
    rw [List.nil_append, hfront]
    rfl
  | cons c cs =>
    have hfront : (c :: cs ++ after).dropWhile isBlank = c :: cs ++ after := by
      simp [hc c (List.mem_cons_self ..)]
    rw [hfront, List.reverse_append, hback, List.reverse_reverse]

theorem exists_eq_append_trim (cs : List Char) :
    ∃ before after, (∀ c ∈ before, isBlank c = true) ∧ (∀ c ∈ after, isBlank c = true) ∧
      cs = before ++ trim cs ++ after := by
  have hb : ∀ ds : List Char, ∀ c ∈ ds.takeWhile isBlank, isBlank c = true :=
    fun _ => List.all_eq_true.1 List.all_takeWhile
  have hback := congrArg List.reverse
    (List.takeWhile_append_dropWhile (p := isBlank) (l := (cs.dropWhile isBlank).reverse))
  rw [List.reverse_append, List.reverse_reverse] at hback
  refine ⟨cs.takeWhile isBlank, ((cs.dropWhile isBlank).reverse.takeWhile isBlank).reverse, hb cs,
    fun c hc => hb _ c (List.mem_reverse.1 hc), ?_⟩
  rw [trim, List.append_assoc, hback, List.takeWhile_append_dropWhile]

end Text

namespace Digits

theorem char_digit {c : Char} (h : c.isDigit = true) : char (digit c) = c := by
  simp only [Char.isDigit, Bool.and_eq_true, decide_eq_true_eq] at h
  have hlow : 48 ≤ c.toNat := h.1
  rw [char, digit, Nat.add_sub_cancel' hlow, Char.ofNat_toNat]

theorem ofNat_of_lt_ten {n : Nat} (h : n < 10) : ofNat n = [char n] := by rw [ofNat, if_pos h]

theorem ofNat_ten_mul_add {m d : Nat} (hm : 0 < m) (hd : d < 10) :
    ofNat (10 * m + d) = ofNat m ++ [char d] := by
  have hdiv : (10 * m + d) / 10 = m := by omega
  have hmod : (10 * m + d) % 10 = d := by omega
  rw [ofNat, if_neg (by omega), hdiv, hmod]

theorem ofNat_eq_toDigits (n : Nat) : ofNat n = Nat.toDigits 10 n := by
  have hc : ∀ d < 10, char d = d.digitChar := by decide
  fun_induction ofNat n with
  | case1 n hn => rw [Nat.toDigits_of_lt_base hn, hc n hn]
  | case2 n hn ih =>
    rw [Nat.toDigits_eq_if (by decide), if_neg hn, ih, hc _ (Nat.mod_lt n (by decide))]

theorem value_append_singleton (ds : List Char) (c : Char) :
    value (ds ++ [c]) = 10 * value ds + digit c := by
  rw [value_append]
  rfl

/-- A row of digits has zeros in front of the digits of its number. -/
theorem exists_eq_zeros_append {ds : List Char} (hne : ds ≠ []) (hd : ∀ c ∈ ds, c.isDigit = true) :
    ∃ k, ds = List.replicate k '0' ++ ofNat (value ds) := by
  induction ds using List.reverseRecOn with
  | nil => exact absurd rfl hne
  | append_singleton ds c ih =>
    obtain ⟨hds, hc⟩ := List.forall_mem_append.1 hd
    have hc : c.isDigit = true := hc c (List.mem_singleton_self c)
    have hlt := digit_lt_ten hc
    rw [value_append_singleton]
    by_cases hnil : ds = []
    · have hv : 10 * value ds + digit c = digit c := by
        rw [hnil]
        exact Nat.zero_add _
      refine ⟨0, ?_⟩
      rw [hv, ofNat_of_lt_ten hlt, char_digit hc, hnil]
      rfl
    · obtain ⟨k, hk⟩ := ih hnil hds
      by_cases hz : value ds = 0
      · have hs : ds = List.replicate (k + 1) '0' := by
          rw [hk, hz, ofNat_of_lt_ten (by decide), List.replicate_succ']
          rfl
        refine ⟨k + 1, ?_⟩
        rw [hz, Nat.mul_zero, Nat.zero_add, ofNat_of_lt_ten hlt, char_digit hc, ← hs]
      · refine ⟨k, ?_⟩
        rw [ofNat_ten_mul_add (Nat.pos_of_ne_zero hz) hlt, char_digit hc, ← List.append_assoc, ← hk]

theorem nat?_eq_some_iff_zeros {cs : List Char} {n : Nat} :
    nat? cs = some n ↔ ∃ k, cs = List.replicate k '0' ++ Nat.toDigits 10 n := by
  rw [nat?_eq_some_iff, ← ofNat_eq_toDigits]
  constructor
  · rintro ⟨hne, hd, rfl⟩
    exact exists_eq_zeros_append hne hd
  · rintro ⟨k, rfl⟩
    refine ⟨List.append_ne_nil_of_right_ne_nil _ (ofNat_ne_nil n), ?_, ?_⟩
    · exact List.forall_mem_append.2
        ⟨fun _ => Binary64.isDigit_of_mem_zeros, fun _ => isDigit_of_mem_ofNat⟩
    · rw [value_zeros_append, value_ofNat]

/-- The signs that an integer may have; zero may have each of them. -/
inductive IsSign : Int → List Char → Prop
  | minus {z : Int} : z ≤ 0 → IsSign z ['-']
  | plus {z : Int} : 0 ≤ z → IsSign z ['+']
  | none {z : Int} : 0 ≤ z → IsSign z []

theorem int?_minus_eq_some_iff {cs : List Char} {z : Int} :
    int? ('-' :: cs) = some z ↔ ∃ n, nat? cs = some n ∧ -(n : Int) = z := by
  cases hn : nat? cs <;> simp [int?, hn]

theorem int?_plus_eq_some_iff {cs : List Char} {z : Int} :
    int? ('+' :: cs) = some z ↔ ∃ n, nat? cs = some n ∧ (n : Int) = z := by
  cases hn : nat? cs <;> simp [int?, hn]

theorem int?_of_nat? {cs : List Char} {n : Nat} (h : nat? cs = some n) : int? cs = some (n : Int) := by
  obtain ⟨hne, hd, -⟩ := nat?_eq_some_iff.1 h
  obtain ⟨c, ds, rfl⟩ := List.exists_cons_of_ne_nil hne
  rw [int?_of_isDigit (hd c (List.mem_cons_self ..)), h]
  rfl

theorem int?_eq_some_iff {cs : List Char} {z : Int} :
    int? cs = some z ↔ ∃ sign k, IsSign z sign ∧
      cs = sign ++ (List.replicate k '0' ++ Nat.toDigits 10 z.natAbs) := by
  constructor
  · intro h
    by_cases hminus : ∃ ds, cs = '-' :: ds
    · obtain ⟨ds, rfl⟩ := hminus
      obtain ⟨n, hn, rfl⟩ := int?_minus_eq_some_iff.1 h
      obtain ⟨k, rfl⟩ := nat?_eq_some_iff_zeros.1 hn
      exact ⟨['-'], k, .minus (by omega), by rw [Int.natAbs_neg, Int.natAbs_natCast]; rfl⟩
    by_cases hplus : ∃ ds, cs = '+' :: ds
    · obtain ⟨ds, rfl⟩ := hplus
      obtain ⟨n, hn, rfl⟩ := int?_plus_eq_some_iff.1 h
      obtain ⟨k, rfl⟩ := nat?_eq_some_iff_zeros.1 hn
      exact ⟨['+'], k, .plus (Int.natCast_nonneg n), rfl⟩
    have hunsigned : int? cs = (nat? cs).map Int.ofNat := by
      unfold int?
      split
      · exact absurd ⟨_, rfl⟩ hminus
      · exact absurd ⟨_, rfl⟩ hplus
      · rfl
    obtain ⟨n, hn, rfl⟩ := Option.map_eq_some_iff.1 (hunsigned.symm.trans h)
    obtain ⟨k, rfl⟩ := nat?_eq_some_iff_zeros.1 hn
    exact ⟨[], k, .none (Int.natCast_nonneg n), rfl⟩
  · rintro ⟨sign, k, hs, rfl⟩
    have hn : nat? (List.replicate k '0' ++ Nat.toDigits 10 z.natAbs) = some z.natAbs :=
      nat?_eq_some_iff_zeros.2 ⟨k, rfl⟩
    cases hs with
    | minus hz => exact int?_minus_eq_some_iff.2 ⟨_, hn, by omega⟩
    | plus hz => exact int?_plus_eq_some_iff.2 ⟨_, hn, by omega⟩
    | none hz =>
      rw [List.nil_append, int?_of_nat? hn]
      exact congrArg some (by omega)

theorem isDigit_or_sign_of_mem {cs : List Char} {z : Int} (h : int? cs = some z) {c : Char}
    (hc : c ∈ cs) : c.isDigit = true ∨ c = '-' ∨ c = '+' := by
  obtain ⟨sign, k, hs, rfl⟩ := int?_eq_some_iff.1 h
  rcases List.mem_append.1 hc with hc | hc
  · cases hs with
    | minus _ => exact .inr (.inl (List.mem_singleton.1 hc))
    | plus _ => exact .inr (.inr (List.mem_singleton.1 hc))
    | none _ => cases hc
  · exact .inl ((nat?_eq_some_iff.1 (nat?_eq_some_iff_zeros.2 ⟨k, rfl⟩)).2.1 c hc)

theorem not_isBlank_of_int? {cs : List Char} {z : Int} (h : int? cs = some z) :
    ∀ c ∈ cs, Text.isBlank c = false := by
  intro c hc
  rcases isDigit_or_sign_of_mem h hc with hd | rfl | rfl
  · exact not_isBlank_of_isNumeral (isNumeral_of_isDigit hd)
  · rfl
  · rfl

end Digits

namespace Number

/-- A text is an integer with any white space around it, a sign that it may have and any zeros in
front of its decimal digits. -/
def Spells (z : Int) (s : String) : Prop :=
  ∃ before sign k after, (∀ c ∈ before, Text.isBlank c = true) ∧
    (∀ c ∈ after, Text.isBlank c = true) ∧ Digits.IsSign z sign ∧
    s.toList = before ++ (sign ++ (List.replicate k '0' ++ Nat.toDigits 10 z.natAbs)) ++ after

theorem int?_trim_eq_some_iff {s : String} {z : Int} :
    Digits.int? (Text.trim s.toList) = some z ↔ Spells z s := by
  constructor
  · intro h
    obtain ⟨sign, k, hs, ht⟩ := Digits.int?_eq_some_iff.1 h
    obtain ⟨before, after, hb, ha, hcs⟩ := Text.exists_eq_append_trim s.toList
    exact ⟨before, sign, k, after, hb, ha, hs, by rw [← ht, ← hcs]⟩
  · rintro ⟨before, sign, k, after, hb, ha, hs, ht⟩
    have hi := Digits.int?_eq_some_iff.2 ⟨sign, k, hs, rfl⟩
    rwa [ht, Text.trim_append hb ha (Digits.not_isBlank_of_int? hi)]

theorem toInt?_of_ofBinary64? {x : Binary64} {n : Number} (h : ofBinary64? x = some n) :
    n.toInt? = none := by
  unfold ofBinary64? at h
  split at h
  · cases h
    rfl
  · cases h

/-- Where an integer fits 64 bits, the number that holds it is read from the texts that spell it and
from no other: what is read as a float holds no integer. -/
theorem ofText?_eq_some_iff_of_ofInt? {s : String} {z : Int} {n : Number} (hn : ofInt? z = some n) :
    ofText? s = some n ↔ Spells z s := by
  rw [← int?_trim_eq_some_iff]
  have hz := toInt?_of_ofInt? hn
  constructor
  · intro h
    unfold ofText? at h
    dsimp only at h
    split at h
    · rename_i m hm
      cases h
      obtain ⟨y, hy, hm⟩ := Option.bind_eq_some_iff.1 hm
      rw [hy, ← hz, ← toInt?_of_ofInt? hm]
    · obtain ⟨x, -, hx⟩ := Option.bind_eq_some_iff.1 h
      rw [toInt?_of_ofBinary64? hx] at hz
      cases hz
  · intro h
    simp only [ofText?, h, Option.bind_some, hn]

theorem ofInt?_of_bounds {z : Int} (hl : -2 ^ (63 : Nat) ≤ z) (hu : z < 2 ^ (64 : Nat)) :
    ofInt? z = some (if z < 2 ^ (63 : Nat) then .int (Int64.ofInt z)
      else .uint (UInt64.ofNat z.toNat)) := by
  unfold ofInt?
  by_cases hz : z < 2 ^ (63 : Nat)
  · rw [if_pos ⟨hl, hz⟩, if_pos hz]
  · rw [if_neg fun h => hz h.2, if_pos (by omega), if_neg hz]

/-- An integer of 64 bits is what is read exactly from the texts that spell it, signed where it can
be. The text of an integer is read as an equal number. -/
theorem ofText?_eq_some_iff_spells :
    (∀ z : Int, -2 ^ (63 : Nat) ≤ z → z < 2 ^ (64 : Nat) → ∀ s : String,
      ofText? s = some (if z < 2 ^ (63 : Nat) then .int (Int64.ofInt z)
        else .uint (UInt64.ofNat z.toNat)) ↔ Spells z s) ∧
    ∀ (n : Number) (z : Int), n.toInt? = some z →
      ∃ m, ofText? n.text = some m ∧ (m == n) = true :=
  ⟨fun _ hl hu _ => ofText?_eq_some_iff_of_ofInt? (ofInt?_of_bounds hl hu),
    fun _ _ h => ofText?_text (isFinite_of_toInt? h)⟩

/-- The largest integer, of which a double would keep only some of the digits, and the least one. An
unsigned number that has no need to be is read as a signed one. -/
theorem ofText?_eq_some_iff_spells_of_bounds :
    -2 ^ (63 : Nat) ≤ (18446744073709551615 : Int) ∧
      (18446744073709551615 : Int) < 2 ^ (64 : Nat) ∧
      Spells 18446744073709551615 "\u00a0+00018446744073709551615\n" ∧
      ofText? "\u00a0+00018446744073709551615\n" = some (.uint 18446744073709551615) ∧
      ofText? "-9223372036854775808" = some (.int Int64.minValue) ∧
      (uint 7).toInt? = some 7 ∧ ∃ m, ofText? (uint 7).text = some m ∧ (m == uint 7) = true := by
  obtain ⟨hread, htext⟩ := ofText?_eq_some_iff_spells
  have hmax : Spells 18446744073709551615 "\u00a0+00018446744073709551615\n" :=
    ⟨['\u00a0'], ['+'], 3, ['\n'], List.forall_mem_singleton.2 (by decide),
      List.forall_mem_singleton.2 (by decide), .plus (by decide), by decide⟩
  have hmin : Spells (-9223372036854775808) "-9223372036854775808" :=
    ⟨[], ['-'], 0, [], List.forall_mem_nil _, List.forall_mem_nil _, .minus (by decide), by decide⟩
  exact ⟨by decide, by decide, hmax, (hread _ (by decide) (by decide) _).2 hmax,
    (hread _ (by decide) (by decide) _).2 hmin, rfl, htext _ 7 rfl⟩

end Number
end ItemStore
