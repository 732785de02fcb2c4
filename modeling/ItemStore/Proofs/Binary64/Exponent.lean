import ItemStore.Json.Printer
import ItemStore.Proofs.Binary64.Whole

/-!
Decimal text with an exponent. The reader keeps the exponent within bounds, and nothing is lost by
it: beyond the bounds a number is infinite or zero. So a double is read from its text in JSON, in
either notation.
-/
namespace ItemStore

attribute [local instance (high)] instPowNat

namespace Digits

theorem value_lt {ds : List Char} (h : ∀ c ∈ ds, c.isDigit = true) :
    value ds < 10 ^ ds.length := by
  have hf : ∀ n, ds.foldl (fun n c => 10 * n + digit c) n < (n + 1) * 10 ^ ds.length := by
    induction ds with
    | nil => simp
    | cons c ds ih =>
      intro n
      obtain ⟨hc, hds⟩ := List.forall_mem_cons.1 h
      have hd := digit_lt_ten hc
      calc ds.foldl (fun n c => 10 * n + digit c) (10 * n + digit c)
          < (10 * n + digit c + 1) * 10 ^ ds.length := ih hds _
        _ ≤ 10 * (n + 1) * 10 ^ ds.length := Nat.mul_le_mul_right _ (by omega)
        _ = (n + 1) * 10 ^ (ds.length + 1) := by rw [Nat.pow_succ]; ac_rfl
  have h0 := hf 0
  rwa [Nat.zero_add, Nat.one_mul] at h0

end Digits

namespace Binary64

/-! Decimals that are zero or infinite, and powers of ten that move to the exponent. -/

def Finite.zero (negative : Bool) : Finite := ⟨negative, 0, Nat.two_pow_pos _, Nat.dvd_zero _⟩

theorem ofUnits_eq_zero {negative : Bool} {n d : Nat} (h : 2 * n < d) :
    ofUnits negative n d = .finite (.zero negative) := by
  have hq : n / d = 0 := Nat.div_eq_of_lt (by omega)
  have hs : spacing 0 = 1 := rfl
  refine ofUnits_of_roundUnits rfl ?_
  unfold roundUnits
  rw [hq, hs, Nat.mul_one, Nat.mul_one, nearestEven, Nat.mod_eq_of_lt (by omega), if_pos (.inl h),
    hq]
  rfl

theorem ofUnits_eq_infinity {negative : Bool} {n d : Nat} (hd : 0 < d)
    (h : overflow * one * d ≤ n) : ofUnits negative n d = .infinity negative := by
  refine dif_neg ?_
  rw [roundUnits_lt_limit_iff hd]
  exact Nat.not_lt.2 h

theorem ofUnits_congr {negative : Bool} {n d m e : Nat} (h : roundUnits n d = roundUnits m e) :
    ofUnits negative n d = ofUnits negative m e := by
  unfold ofUnits
  simp only [h]

theorem ofDecimal_zero {negative : Bool} {x : Int} :
    ofDecimal negative 0 x = .finite (.zero negative) := by
  refine ofUnits_eq_zero ?_
  rw [Nat.zero_mul, Nat.zero_mul]
  exact Nat.pow_pos (by decide)

theorem ofDecimal_eq_zero {negative : Bool} {c k : Nat} {x : Int} (hc : c < 10 ^ k)
    (hx : x ≤ -(k + 324 : Nat)) : ofDecimal negative c x = .finite (.zero negative) := by
  obtain ⟨e, he, hone⟩ : ∃ e, k + e ≤ (-x).toNat ∧ 2 * one ≤ 10 ^ e :=
    ⟨324, by omega, by unfold one places; decide +kernel⟩
  have hz : x.toNat = 0 := by omega
  have hp : 0 < 2 * one := Nat.mul_pos (by decide) (Nat.two_pow_pos _)
  refine ofUnits_eq_zero ?_
  rw [hz, Nat.pow_zero, Nat.mul_one]
  calc 2 * (c * one) = c * (2 * one) := Nat.mul_left_comm ..
    _ < 10 ^ k * (2 * one) := Nat.mul_lt_mul_of_pos_right hc hp
    _ ≤ 10 ^ k * 10 ^ e := Nat.mul_le_mul_left _ hone
    _ = 10 ^ (k + e) := (Nat.pow_add ..).symm
    _ ≤ 10 ^ (-x).toNat := Nat.pow_le_pow_right (by decide) he

theorem ofDecimal_eq_infinity {negative : Bool} {c : Nat} {x : Int} (hc : 0 < c)
    (hx : 309 ≤ x) : ofDecimal negative c x = .infinity negative := by
  have hz : (-x).toNat = 0 := by omega
  have ho : overflow ≤ 10 ^ x.toNat := overflow_le_ten_pow (by omega)
  rw [ofDecimal, hz]
  refine ofUnits_eq_infinity Nat.one_pos ?_
  rw [Nat.pow_zero, Nat.mul_one]
  exact Nat.mul_le_mul_right _ (Nat.le_trans ho (Nat.le_mul_of_pos_left _ hc))

theorem ofDecimal_mul_pow {negative : Bool} {c k : Nat} {x : Int} :
    ofDecimal negative (c * 10 ^ k) x = ofDecimal negative c (x + k) := by
  refine ofUnits_congr (roundUnits_congr (Nat.pow_pos (by decide)) (Nat.pow_pos (by decide)) ?_)
  have hp : 10 ^ k * 10 ^ x.toNat * 10 ^ (-(x + k)).toNat =
      10 ^ (x + k).toNat * 10 ^ (-x).toNat := by
    rw [← Nat.pow_add, ← Nat.pow_add, ← Nat.pow_add]
    congr 1
    omega
  calc c * 10 ^ k * 10 ^ x.toNat * one * 10 ^ (-(x + k)).toNat
      = c * one * (10 ^ k * 10 ^ x.toNat * 10 ^ (-(x + k)).toNat) := by ac_rfl
    _ = c * one * (10 ^ (x + k).toNat * 10 ^ (-x).toNat) := by rw [hp]
    _ = c * 10 ^ (x + k).toNat * one * 10 ^ (-x).toNat := by ac_rfl

/-! Reading. -/

/-- Digits are read as the double nearest to their number, whatever the exponent is. -/
theorem Numeral.toBinary64_eq {t : Numeral} (h : ∀ c ∈ t.digits, c.isDigit = true)
    (negative : Bool) : t.toBinary64 negative =
      ofDecimal negative (Digits.value t.digits) (t.exponent - t.fraction.length) := by
  have hv := Digits.value_lt h
  rw [toBinary64]
  rcases Nat.eq_zero_or_pos (Digits.value t.digits) with h0 | h0
  · rw [h0, ofDecimal_zero, ofDecimal_zero]
  -- beyond a bound the number is infinite or zero with the exponent as well as with the bound
  rcases Int.lt_or_le 400 (t.exponent - t.fraction.length) with hx | hx
  · have hl : t.lastExponent = 400 := by
      unfold lastExponent
      omega
    rw [hl, ofDecimal_eq_infinity h0 (by decide), ofDecimal_eq_infinity h0 (by omega)]
  rcases Int.lt_or_le (t.exponent - t.fraction.length) (-(t.digits.length + 400 : Nat))
    with hx' | hx'
  · have hl : t.lastExponent = -(t.digits.length + 400 : Nat) := by
      unfold lastExponent
      omega
    rw [hl, ofDecimal_eq_zero hv (by omega), ofDecimal_eq_zero hv (by omega)]
  · have hl : t.lastExponent = t.exponent - t.fraction.length := by
      unfold lastExponent
      omega
    rw [hl]

theorem ofText?_exponent {whole fraction r : List Char} (hw : ∀ c ∈ whole, c.isDigit = true)
    (hf : ∀ c ∈ fraction, c.isDigit = true) (hne : whole ≠ []) :
    Numeral.ofText? (whole ++ (if fraction.isEmpty then [] else '.' :: fraction) ++ 'e' :: r) =
      (Digits.int? r).map (⟨whole, fraction, ·⟩) := by
  rw [List.append_assoc]
  cases fraction with
  | nil =>
    have h := takeWhile_isDigit ('e' :: r) hw rfl
    simp [Numeral.ofText?, h.1, h.2, hne]
  | cons d ds =>
    have h := takeWhile_isDigit ('.' :: (d :: ds ++ 'e' :: r)) hw rfl
    have hr := takeWhile_isDigit ('e' :: r) hf rfl
    rw [List.isEmpty_cons, if_neg Bool.false_ne_true]
    simp only [Numeral.ofText?, List.cons_append] at h hr ⊢
    simp [h.1, h.2, hr.1, hr.2]

end Binary64

namespace Decimal

open Binary64

theorem int?_magnitude (d : Decimal) :
    Digits.int? ((if d.magnitude < 0 then '-' else '+') :: Digits.ofNat d.magnitude.natAbs) =
      some d.magnitude := by
  split
  · rename_i h
    have hn : -(d.magnitude.natAbs : Int) = d.magnitude := by omega
    rw [Digits.int?, Digits.nat?_ofNat]
    exact congrArg some hn
  · rename_i h
    have hn : (d.magnitude.natAbs : Int) = d.magnitude := by omega
    rw [Digits.int?, Digits.nat?_ofNat]
    exact congrArg some hn

theorem ofText?_scientific (d : Decimal) (negative : Bool) :
    (Numeral.ofText? d.scientific).map (·.toBinary64 negative) =
      some (ofDecimal negative d.coefficient d.exponent) := by
  have hd : ∀ c ∈ Digits.ofNat d.coefficient, c.isDigit = true :=
    fun _ => Digits.isDigit_of_mem_ofNat
  have hl := Digits.length_ofNat d.coefficient
  have hv := Digits.value_ofNat d.coefficient
  obtain ⟨c, cs, hc⟩ := List.exists_cons_of_ne_nil (Digits.ofNat_ne_nil d.coefficient)
  rw [hc] at hd hl hv
  obtain ⟨hc', hcs⟩ := List.forall_mem_cons.1 hd
  have hr := ofText?_exponent (r := (if d.magnitude < 0 then '-' else '+') ::
    Digits.ofNat d.magnitude.natAbs) (List.forall_mem_singleton.2 hc') hcs (List.cons_ne_nil c [])
  have hx : d.magnitude - cs.length = d.exponent := by
    rw [List.length_cons] at hl
    unfold magnitude
    omega
  have ht : Numeral.toBinary64 ⟨[c], cs, d.magnitude⟩ negative =
      ofDecimal negative d.coefficient d.exponent := by
    rw [Numeral.toBinary64_eq (t := ⟨[c], cs, d.magnitude⟩) hd, hx]
    exact congrArg (ofDecimal negative · d.exponent) hv
  rw [int?_magnitude] at hr
  rw [scientific, hc]
  refine (congrArg _ hr).trans ?_
  exact congrArg some ht

theorem ofText?_positional_append {d : Decimal} (h : 0 ≤ d.exponent) (negative : Bool) :
    (Numeral.ofText? (d.positional ++ ['.', '0'])).map (·.toBinary64 negative) =
      some (ofDecimal negative d.coefficient d.exponent) := by
  obtain ⟨e, he⟩ := Int.eq_ofNat_of_zero_le h
  obtain ⟨hne, hd, hv⟩ := Digits.nat?_eq_some_iff.1 (nat?_positional he)
  have hz : ∀ c ∈ ['0'], c.isDigit = true := List.forall_mem_singleton.2 rfl
  have hvz : Digits.value (d.positional ++ ['0']) = d.coefficient * 10 ^ e * 10 ^ (1 : Nat) := by
    rw [← hv]
    exact Digits.value_append_zeros d.positional 1
  have ht : Numeral.toBinary64 ⟨d.positional, ['0'], 0⟩ negative =
      ofDecimal negative d.coefficient d.exponent := by
    rw [Numeral.toBinary64_point, hvz, ofDecimal_mul_pow, ofDecimal_mul_pow, he]
    exact congrArg (ofDecimal negative d.coefficient) (by rw [List.length_singleton]; omega)
  rw [ofText?_point hd hz hne]
  exact congrArg some ht

theorem ofText?_floatText (d : Decimal) (negative : Bool) :
    (Numeral.ofText? (Json.floatText d)).map (·.toBinary64 negative) =
      some (ofDecimal negative d.coefficient d.exponent) := by
  unfold Json.floatText
  split
  · split
    · rename_i h
      exact ofText?_positional_append h negative
    · rw [List.append_nil]
      exact ofText?_positional d negative
  · exact ofText?_scientific d negative

theorem head_scientific (d : Decimal) : ∃ c cs, d.scientific = c :: cs ∧ c.isDigit = true := by
  obtain ⟨c, cs, hc⟩ := List.exists_cons_of_ne_nil (Digits.ofNat_ne_nil d.coefficient)
  have hd : c.isDigit = true := Digits.isDigit_of_mem_ofNat (hc ▸ List.mem_cons_self ..)
  rw [scientific, hc]
  exact ⟨c, _, rfl, hd⟩

theorem head_floatText (d : Decimal) : ∃ c cs, Json.floatText d = c :: cs ∧ c.isDigit = true := by
  unfold Json.floatText
  split
  · obtain ⟨c, cs, hc, hd⟩ := head_positional d
    rw [hc]
    exact ⟨c, _, rfl, hd⟩
  · exact head_scientific d

end Decimal

/-- The text of a double in JSON reads back. -/
theorem Binary64.ofText?_jsonText (x : Finite) :
    ofText? (Json.Number.text (.float x)) = some (.finite x) := by
  have h := Decimal.ofText?_floatText (shortest .even x.units) x.negative
  rw [ofDecimal_shortest] at h
  obtain ⟨c, cs, hc, hd⟩ := Decimal.head_floatText (shortest .even x.units)
  rw [hc] at h
  rw [Json.Number.text, hc]
  exact ofText?_signed hd h

end ItemStore
