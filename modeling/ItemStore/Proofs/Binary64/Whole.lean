import ItemStore.Proofs.Binary64.Overflow
import ItemStore.Proofs.Number

/-!
Whole doubles and their text. A double is whole exactly if its text is an integer. This integer
need not be the double, of which it has the first digits only, but it lies on the same side of the
bounds of the integers of 64 bits.
-/
namespace ItemStore

attribute [local instance (high)] instPowNat

namespace Digits

theorem lt_count {n k : Nat} (h : 10 ^ k ≤ n) : k < count n := by
  induction k generalizing n with
  | zero =>
    unfold count
    split <;> omega
  | succ k ih =>
    have hp : 0 < 10 ^ k := Nat.pow_pos (by decide)
    have hn : ¬n < 10 := by
      rw [Nat.pow_succ] at h
      omega
    have hd : 10 ^ k ≤ n / 10 := by
      rw [Nat.pow_succ] at h
      omega
    rw [count, if_neg hn]
    exact Nat.succ_lt_succ (ih hd)

theorem count_le {n k : Nat} (h : n < 10 ^ (k + 1)) : count n ≤ k + 1 := by
  induction k generalizing n with
  | zero =>
    have hc : count n = 1 := by rw [count, if_pos h]
    exact Nat.le_of_eq hc
  | succ k ih =>
    unfold count
    split
    · omega
    · have hd : n / 10 < 10 ^ (k + 1) := by
        rw [Nat.pow_succ] at h
        omega
      exact Nat.succ_le_succ (ih hd)

theorem count_eq {n k : Nat} (hl : 10 ^ k ≤ n) (hu : n < 10 ^ (k + 1)) : count n = k + 1 :=
  Nat.le_antisymm (count_le hu) (lt_count hl)

def signedInt (negative : Bool) (n : Nat) : Int := if negative then -n else n

theorem natAbs_signedInt (negative : Bool) (n : Nat) : (signedInt negative n).natAbs = n := by
  unfold signedInt
  split <;> omega

theorem int?_signed {cs : List Char} {n : Nat} (h : nat? cs = some n) (negative : Bool) :
    int? (Binary64.signed negative cs) = some (signedInt negative n) := by
  cases negative with
  | true =>
    rw [Binary64.signed, if_pos rfl, int?, h]
    rfl
  | false =>
    have hd : ∃ c ds, cs = c :: ds ∧ c.isDigit = true := by
      cases cs with
      | nil => cases h
      | cons c ds =>
        refine ⟨c, ds, rfl, ?_⟩
        unfold nat? at h
        split at h
        · rename_i hc
          simp at hc
          exact hc.1
        · cases h
    obtain ⟨c, ds, rfl, hc⟩ := hd
    show int? (c :: ds) = _
    rw [int?_of_isDigit hc, h]
    rfl

end Digits

theorem Decimal.nat?_positional {d : Decimal} {e : Nat} (h : d.exponent = e) :
    Digits.nat? d.positional = some (d.coefficient * 10 ^ e) := by
  have hp : d.positional = Digits.ofNat d.coefficient ++ List.replicate e '0' := by
    rw [positional, h]
  have hd : ∀ c ∈ d.positional, c.isDigit = true := by
    rw [hp]
    exact fun c hc => (List.mem_append.1 hc).elim Digits.isDigit_of_mem_ofNat
      Binary64.isDigit_of_mem_zeros
  have hne : d.positional ≠ [] := by
    rw [hp]
    simp [Digits.ofNat_ne_nil]
  have hv : Digits.value d.positional = d.coefficient * 10 ^ e := by
    rw [hp, Digits.value_append_zeros, Digits.value_ofNat]
  rw [← hv]
  exact if_pos (by simpa [hne] using hd)

namespace Binary64

theorem one_pos : 0 < one := Nat.two_pow_pos _

/-! Rounding. -/

theorem roundUnits_le_two_pow {n d e : Nat} (hd : 0 < d) (h : n ≤ 2 ^ e * d) :
    roundUnits n d ≤ 2 ^ e := by
  rcases Nat.lt_or_eq_of_le h with h | rfl
  · have hq : n / d < 2 ^ e := (Nat.div_lt_iff_lt_mul hd).2 h
    have hs : spacing (n / d) ∣ 2 ^ e := by
      refine Nat.pow_dvd_pow 2 ?_
      rcases Nat.eq_zero_or_pos (n / d) with h0 | h0
      · simp [h0]
      · have := (Nat.log2_lt (Nat.ne_of_gt h0)).2 hq
        omega
    obtain ⟨k, hk⟩ := hs
    have hlt : n / d / spacing (n / d) < k := Nat.div_lt_of_lt_mul (hk ▸ hq)
    have hle : nearestEven n (d * spacing (n / d)) ≤ k := by
      refine Nat.le_trans (nearestEven_le _ _) ?_
      rw [← Nat.div_div_eq_div_mul]
      exact hlt
    unfold roundUnits
    rw [hk, Nat.mul_comm (spacing _)]
    exact Nat.mul_le_mul_right _ hle
  · have hs : spacing (2 ^ e) ∣ 2 ^ e := by
      simpa using spacing_dvd_mul (k := 1) (e := e) (by decide)
    exact Nat.le_of_eq (roundUnits_mul_self hs hd)

theorem roundUnits_mul_one {n : Nat} (h : n ≤ 2 ^ (53 : Nat)) :
    roundUnits (n * one) 1 = n * one := by
  have hr : roundUnits (n * one * 1) 1 = n * one :=
    roundUnits_mul_self (spacing_dvd_mul h) Nat.one_pos
  rwa [Nat.mul_one] at hr

theorem one_dvd_roundUnits (n : Nat) : one ∣ roundUnits (n * one) 1 := by
  rcases Nat.le_total n (2 ^ (53 : Nat)) with h | h
  · exact ⟨n, by rw [roundUnits_mul_one h, Nat.mul_comm]⟩
  · have hu : n * one ≠ 0 := by
      have := one_pos
      exact Nat.mul_ne_zero (by omega) (by omega)
    have hl : 53 + places ≤ (n * one).log2 := by
      rw [Nat.le_log2 hu, Nat.pow_add]
      exact Nat.mul_le_mul_right _ h
    have hs : one ∣ spacing (n * one / 1) := by
      rw [Nat.div_one]
      exact Nat.pow_dvd_pow 2 (by omega)
    unfold roundUnits
    exact Nat.dvd_trans hs (Nat.dvd_mul_left _ _)

theorem two_pow_mul_one (e : Nat) : 2 ^ (e + places) = 2 ^ e * one := Nat.pow_add 2 e places

theorem two_pow_le_of_roundUnits {n k e : Nat} (hr : roundUnits (n * one) 1 = k * one)
    (h : 2 ^ e ≤ n) : 2 ^ e ≤ k := by
  have hb : 52 ≤ e + places := by
    unfold places
    omega
  have hu : 2 ^ (e + places) ≤ n * one / 1 := by
    rw [Nat.div_one, two_pow_mul_one]
    exact Nat.mul_le_mul_right one h
  have hk := two_pow_le_roundUnits hb hu
  rw [hr, two_pow_mul_one] at hk
  exact Nat.le_of_mul_le_mul_right hk one_pos

theorem le_two_pow_of_roundUnits {n k e : Nat} (hr : roundUnits (n * one) 1 = k * one)
    (h : n ≤ 2 ^ e) : k ≤ 2 ^ e := by
  have hu : n * one ≤ 2 ^ (e + places) * 1 := by
    rw [Nat.mul_one, two_pow_mul_one]
    exact Nat.mul_le_mul_right one h
  have hk := roundUnits_le_two_pow Nat.one_pos hu
  rw [hr, two_pow_mul_one] at hk
  exact Nat.le_of_mul_le_mul_right hk one_pos

/-! The text of a whole double. -/

theorem steps_mul_one (k : Nat) : steps (k * one) = k * 10 ^ places := by
  rw [steps, ← one_mul_stepsPerUnit]
  ac_rfl

theorem nearestWith_mul_self (tie : Tie) {ok : Nat → Bool} {k d : Nat} (hd : 0 < d)
    (h : ok k = true) : nearestWith tie ok (k * d) d = some k := by
  rw [nearestWith, Nat.mul_div_cancel k hd, h, Nat.mul_mod_left]
  cases ok (k + 1) <;> simp [hd]

theorem onGrid_places (tie : Tie) {k : Nat} (h : spacing (k * one) ∣ k * one) :
    onGrid tie (k * one) places = some k := by
  have hp : 0 < 10 ^ places := Nat.pow_pos (by decide)
  have hm : 10 ^ places * k = k * one * stepsPerUnit := by
    rw [← one_mul_stepsPerUnit]
    ac_rfl
  have hr : readsBack (k * one) k places = true := by
    rw [readsBack, hm, roundUnits_mul_self h stepsPerUnit_pos, beq_iff_eq]
  rw [onGrid, steps_mul_one]
  exact nearestWith_mul_self tie hp hr

theorem exists_exponent_coarsest (tie : Tie) {k : Nat} (h : spacing (k * one) ∣ k * one) (j : Nat) :
    ∃ e : Nat, (coarsest tie (k * one) (places + j)).exponent = e := by
  induction j with
  | zero =>
    -- the search ends on the grid of the integers, because the value lies on it
    obtain ⟨p, hp⟩ : ∃ p, places = p + 1 := ⟨1073, by unfold places; rfl⟩
    have hg := onGrid_places tie h
    rw [hp] at hg
    refine ⟨0, ?_⟩
    rw [Nat.add_zero, hp, coarsest, hg, hp]
    simp
  | succ j ih =>
    rw [← Nat.add_assoc, coarsest]
    cases onGrid tie (k * one) (places + j + 1) with
    | none => exact ih
    | some c => exact ⟨j + 1, by simp; omega⟩

/-- A whole double needs no decimals. -/
theorem exists_exponent_shortest (tie : Tie) {k : Nat} (h : spacing (k * one) ∣ k * one) :
    ∃ e : Nat, (shortest tie (k * one)).exponent = e := by
  unfold shortest
  split
  · exact ⟨0, rfl⟩
  · rename_i hu
    have hk : 0 < k := Nat.pos_of_ne_zero fun h0 => hu (by rw [h0, Nat.zero_mul])
    have hc : places < Digits.count (steps (k * one)) := by
      refine Digits.lt_count ?_
      rw [steps_mul_one]
      exact Nat.le_mul_of_pos_left _ hk
    obtain ⟨j, hj⟩ := Nat.exists_eq_add_of_le (Nat.le_of_lt hc)
    rw [hj]
    exact exists_exponent_coarsest tie h j

theorem Finite.toInt?_eq_some_iff {x : Finite} {z : Int} :
    x.toInt? = some z ↔ ∃ k, x.units = k * one ∧ z = Digits.signedInt x.negative k := by
  unfold toInt?
  constructor
  · intro h
    split at h
    · rename_i hm
      refine ⟨x.units / one, (Nat.div_mul_cancel (Nat.dvd_of_mod_eq_zero hm)).symm, ?_⟩
      exact (Option.some_inj.1 h).symm
    · cases h
  · rintro ⟨k, hk, rfl⟩
    rw [hk, if_pos (Nat.mul_mod_left k one), Nat.mul_div_cancel k one_pos]
    rfl

/-- The double `k · 2^e`, or its negative. -/
def Finite.scaled (negative : Bool) (k e : Nat) (hk : k < 2 ^ (53 : Nat)) (he : e ≤ 971) :
    Finite where
  negative := negative
  units := k * 2 ^ (e + places)
  units_lt := by
    have hl : limit = 2 ^ (53 : Nat) * 2 ^ (971 + places) := by
      rw [limit, ← Nat.pow_add, ← Nat.add_assoc]
    rw [hl]
    exact Nat.lt_of_lt_of_le (Nat.mul_lt_mul_of_pos_right hk (Nat.two_pow_pos _))
      (Nat.mul_le_mul_left _ (Nat.pow_le_pow_right (by decide) (Nat.add_le_add_right he _)))
  spacing_dvd := spacing_dvd_mul (Nat.le_of_lt hk)

theorem Finite.toInt?_scaled {negative : Bool} {k e : Nat} {hk : k < 2 ^ (53 : Nat)}
    {he : e ≤ 971} :
    (scaled negative k e hk he).toInt? = some (Digits.signedInt negative (k * 2 ^ e)) := by
  refine toInt?_eq_some_iff.2 ⟨k * 2 ^ e, ?_, rfl⟩
  show k * 2 ^ (e + places) = k * 2 ^ e * one
  rw [one, Nat.mul_assoc, ← Nat.pow_add]

theorem roundUnits_of_int?_text {x : Finite} {z : Int}
    (h : Digits.int? (text (.finite x)) = some z) : roundUnits (z.natAbs * one) 1 = x.units := by
  obtain ⟨negative, hx, -⟩ := ofText?_of_int? h
  rw [ofText?_text, Option.some_inj, ofUnits] at hx
  split at hx
  · cases hx
    rfl
  · cases hx

theorem exists_toInt?_of_int?_text {x : Finite} {z : Int}
    (h : Digits.int? (text (.finite x)) = some z) : ∃ y, x.toInt? = some y := by
  have hd : one ∣ x.units := roundUnits_of_int?_text h ▸ one_dvd_roundUnits _
  obtain ⟨k, hk⟩ := hd
  exact ⟨_, Finite.toInt?_eq_some_iff.2 ⟨k, by rw [hk, Nat.mul_comm], rfl⟩⟩

/-- The integer that is written for a whole number of ones. -/
def written (k : Nat) : Nat :=
  (shortest .upper (k * one)).coefficient * 10 ^ (shortest .upper (k * one)).exponent.toNat

theorem int?_text_of_units {x : Finite} {k : Nat} (h : x.units = k * one) :
    Digits.int? (text (.finite x)) = some (Digits.signedInt x.negative (written k)) := by
  obtain ⟨e, he⟩ := exists_exponent_shortest .upper (h ▸ x.spacing_dvd)
  have hn := Decimal.nat?_positional he
  have hw : written k = (shortest .upper (k * one)).coefficient * 10 ^ e := by
    rw [written, he, Int.toNat_natCast]
  rw [text, h, hw]
  exact Digits.int?_signed hn x.negative

theorem roundUnits_written {x : Finite} {k : Nat} (h : x.units = k * one) :
    roundUnits (written k * one) 1 = k * one := by
  have hr := roundUnits_of_int?_text (int?_text_of_units h)
  rwa [Digits.natAbs_signedInt, h] at hr

theorem written_of_lt {x : Finite} {k : Nat} (h : x.units = k * one) (hk : k < 2 ^ (53 : Nat)) :
    written k = k := by
  have hr := roundUnits_written h
  have hw : written k ≤ 2 ^ (53 : Nat) :=
    Nat.le_of_not_lt fun hw =>
      Nat.not_lt.2 (two_pow_le_of_roundUnits hr (Nat.le_of_lt hw)) hk
  rw [roundUnits_mul_one hw] at hr
  exact Nat.eq_of_mul_eq_mul_right one_pos hr

/-! The bounds of the integers of 64 bits. -/

/-- A power of two that is written with a larger integer separates the whole doubles as it separates
the integers that are written for them. -/
theorem written_lt_two_pow_iff {x : Finite} {k e : Nat} (h : x.units = k * one)
    (he : 2 ^ e < written (2 ^ e)) :
    (written k < 2 ^ e ↔ k < 2 ^ e) ∧ written k ≠ 2 ^ e := by
  have hr := roundUnits_written h
  have hge : 2 ^ e ≤ written k → 2 ^ e ≤ k := two_pow_le_of_roundUnits hr
  have hlt : written k ≤ 2 ^ e → k < 2 ^ e := by
    intro hw
    refine Nat.lt_of_le_of_ne (le_two_pow_of_roundUnits hr hw) ?_
    rintro rfl
    exact Nat.not_lt.2 hw he
  constructor
  · exact ⟨fun hw => hlt (Nat.le_of_lt hw), fun hk => Nat.lt_of_not_le fun hw =>
      Nat.not_lt.2 (hge hw) hk⟩
  · intro hw
    exact Nat.not_lt.2 (hge (Nat.le_of_eq hw.symm)) (hlt (Nat.le_of_eq hw))

theorem shortest_eq_coarsest {tie : Tie} {k j : Nat} (hl : 10 ^ j ≤ k) (hu : k < 10 ^ (j + 1)) :
    shortest tie (k * one) = coarsest tie (k * one) (j + places + 1) := by
  have hp : 0 < 10 ^ j := Nat.pow_pos (by decide)
  have hk : k * one ≠ 0 := Nat.mul_ne_zero (by omega) (Nat.ne_of_gt one_pos)
  have hc : Digits.count (steps (k * one)) = j + places + 1 := by
    rw [steps_mul_one]
    refine Digits.count_eq ?_ ?_
    · rw [Nat.pow_add]
      exact Nat.mul_le_mul_right _ hl
    · rw [Nat.add_right_comm, Nat.pow_add]
      exact Nat.mul_lt_mul_of_pos_right hu (Nat.pow_pos (by decide))
  rw [shortest, if_neg hk, hc]

theorem written_two_pow_63 : written (2 ^ (63 : Nat)) = 9223372036854776000 := by
  have hc : coarsest .upper (2 ^ (63 : Nat) * one) (18 + places + 1) = ⟨9223372036854776, 3⟩ := by
    decide +kernel
  rw [written, shortest_eq_coarsest (j := 18) (by decide) (by decide), hc]
  rfl

theorem written_two_pow_64 : written (2 ^ (64 : Nat)) = 18446744073709552000 := by
  have hc : coarsest .upper (2 ^ (64 : Nat) * one) (19 + places + 1) = ⟨18446744073709552, 3⟩ := by
    decide +kernel
  rw [written, shortest_eq_coarsest (j := 19) (by decide) (by decide), hc]
  rfl

end Binary64
end ItemStore
