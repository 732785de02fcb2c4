import ItemStore.Binary64.Basic

/-!
Which numbers overflow. Halfway between the largest double and the next power of two a tie goes to
the power of two, so this is the first number that is rounded to infinity.
-/
namespace ItemStore.Binary64

attribute [local instance (high)] instPowNat

/-- The first number that is rounded to infinity, which is `2^1024 - 2^970`. -/
@[irreducible] def overflow : Nat := (2 ^ (54 : Nat) - 1) * 2 ^ (970 : Nat)

theorem two_pow_le_overflow {e : Nat} (h : e ≤ 970) : 2 ^ e ≤ overflow := by
  unfold overflow
  generalize 970 = k at h ⊢
  exact Nat.le_trans (Nat.pow_le_pow_right (by decide) h) (Nat.le_mul_of_pos_left _ (by decide))

theorem overflow_le_ten_pow {k : Nat} (h : 309 ≤ k) : overflow ≤ 10 ^ k := by
  obtain ⟨e, he, ho⟩ : ∃ e, e ≤ k ∧ overflow ≤ 10 ^ e :=
    ⟨309, h, by unfold overflow; decide +kernel⟩
  exact Nat.le_trans ho (Nat.pow_le_pow_right (by decide) he)

/-- Half the distance between the largest doubles, in units. -/
@[irreducible] def halfStep : Nat := 2 ^ (970 + places)

theorem halfStep_pos : 0 < halfStep := by
  unfold halfStep
  exact Nat.two_pow_pos _

theorem overflow_mul_one : overflow * one = (2 ^ (54 : Nat) - 1) * halfStep := by
  unfold overflow one halfStep
  generalize 970 = e
  rw [Nat.mul_assoc, Nat.pow_add]

theorem two_pow_eq_mul_halfStep {a b : Nat} (h : a = 970 + b) :
    2 ^ (a + places) = 2 ^ b * halfStep := by
  unfold halfStep
  rw [← Nat.pow_add, h, Nat.add_left_comm, Nat.add_assoc]

theorem limit_eq : limit = 2 ^ (54 : Nat) * halfStep := two_pow_eq_mul_halfStep rfl

theorem div_le_nearestEven (n d : Nat) : n / d ≤ nearestEven n d := by
  unfold nearestEven; split <;> omega

theorem nearestEven_lt_iff {n d k : Nat} (hd : 0 < d) (hk : 0 < k) :
    nearestEven n d < 2 * k ↔ 2 * n < (4 * k - 1) * d := by
  have hn := Nat.div_add_mod n d
  have hr := Nat.mod_lt n hd
  have hm : (4 * k - 1) * d = 2 * (d * (2 * k - 1)) + d := by
    rw [show 4 * k - 1 = 2 * (2 * k - 1) + 1 by omega, Nat.add_mul, Nat.one_mul, Nat.mul_assoc,
      Nat.mul_comm d]
  rw [hm]
  unfold nearestEven
  rcases Nat.lt_trichotomy (n / d) (2 * k - 1) with h | h | h
  · have hq : d * (n / d) + d ≤ d * (2 * k - 1) := Nat.mul_le_mul_left d h
    split <;> omega
  · rw [h] at hn ⊢
    split <;> omega
  · have hq : d * (2 * k - 1) + d ≤ d * (n / d) := Nat.mul_le_mul_left d h
    split <;> omega

theorem spacing_le_halfStep {u : Nat} (h : u < 2 ^ (53 : Nat) * halfStep) :
    spacing u ≤ halfStep := by
  unfold spacing halfStep
  refine Nat.pow_le_pow_right (by decide) ?_
  rcases Nat.eq_zero_or_pos u with rfl | hu
  · simp
  · rw [← two_pow_eq_mul_halfStep (a := 1023) rfl] at h
    have := (Nat.log2_lt (Nat.ne_of_gt hu)).2 h
    omega

theorem spacing_of_last {u : Nat} (h : 2 ^ (53 : Nat) * halfStep ≤ u) (hl : u < limit) :
    spacing u = 2 * halfStep := by
  have hu : u ≠ 0 := Nat.ne_of_gt (Nat.lt_of_lt_of_le (Nat.mul_pos (by decide) halfStep_pos) h)
  rw [← two_pow_eq_mul_halfStep (a := 1023) rfl, ← Nat.le_log2 hu] at h
  rw [limit, ← Nat.log2_lt hu] at hl
  rw [show 2 * halfStep = 2 ^ (1 : Nat) * halfStep from rfl,
    ← two_pow_eq_mul_halfStep (a := 971) rfl, spacing]
  congr 1
  omega

theorem two_pow_le_roundUnits {n d e : Nat} (he : 52 ≤ e) (h : 2 ^ e ≤ n / d) :
    2 ^ e ≤ roundUnits n d := by
  have hu : n / d ≠ 0 := Nat.ne_of_gt (Nat.lt_of_lt_of_le (Nat.two_pow_pos e) h)
  have hlog : e ≤ (n / d).log2 := (Nat.le_log2 hu).2 h
  have hs : 2 ^ (52 : Nat) * spacing (n / d) = 2 ^ (n / d).log2 := by
    rw [spacing, ← Nat.pow_add]
    congr 1
    omega
  have hq : 2 ^ (52 : Nat) ≤ nearestEven n (d * spacing (n / d)) := by
    refine Nat.le_trans ?_ (div_le_nearestEven _ _)
    rw [← Nat.div_div_eq_div_mul, Nat.le_div_iff_mul_le (spacing_pos _), hs]
    exact Nat.log2_self_le hu
  unfold roundUnits
  calc 2 ^ e ≤ 2 ^ (n / d).log2 := Nat.pow_le_pow_right (by decide) hlog
    _ = 2 ^ (52 : Nat) * spacing (n / d) := hs.symm
    _ ≤ nearestEven n (d * spacing (n / d)) * spacing (n / d) := Nat.mul_le_mul_right _ hq

/-- The numbers that stay below the limit are those below the first one that overflows. -/
theorem roundUnits_lt_limit_iff {n d : Nat} (hd : 0 < d) :
    roundUnits n d < limit ↔ n < overflow * one * d := by
  have hdiv := Nat.div_add_mod n d
  have hmod := Nat.mod_lt n hd
  rw [overflow_mul_one]
  rcases Nat.lt_or_ge (n / d) (2 ^ (53 : Nat) * halfStep) with hs | hs
  · have hp := spacing_le_halfStep hs
    have hq := nearestEven_le n (d * spacing (n / d))
    rw [← Nat.div_div_eq_div_mul] at hq
    refine iff_of_true ?_ ?_
    · unfold roundUnits
      rw [limit_eq]
      calc nearestEven n (d * spacing (n / d)) * spacing (n / d)
          ≤ (n / d / spacing (n / d) + 1) * spacing (n / d) := Nat.mul_le_mul_right _ hq
        _ = n / d / spacing (n / d) * spacing (n / d) + spacing (n / d) := Nat.succ_mul ..
        _ ≤ n / d + halfStep := Nat.add_le_add (Nat.div_mul_le_self ..) hp
        _ < 2 ^ (54 : Nat) * halfStep := by omega
    · calc n < (n / d + 1) * d := by rw [Nat.add_mul, Nat.one_mul, Nat.mul_comm]; omega
        _ ≤ (2 ^ (54 : Nat) - 1) * halfStep * d := Nat.mul_le_mul_right d (by omega)
  rcases Nat.lt_or_ge (n / d) limit with hl | hl
  · have hp : 0 < 2 * halfStep := Nat.mul_pos (by decide) halfStep_pos
    have hk : limit = 2 * 2 ^ (52 : Nat) * (2 * halfStep) := by
      rw [limit_eq]
      omega
    have hm : (4 * 2 ^ (52 : Nat) - 1) * (d * (2 * halfStep)) =
        2 * ((2 ^ (54 : Nat) - 1) * halfStep * d) := by
      rw [show 4 * 2 ^ (52 : Nat) = 2 ^ (54 : Nat) from rfl]
      ac_rfl
    unfold roundUnits
    rw [spacing_of_last hs hl, hk, Nat.mul_lt_mul_right hp,
      nearestEven_lt_iff (Nat.mul_pos hd hp) (Nat.two_pow_pos _), hm,
      Nat.mul_lt_mul_left (by decide)]
  · refine iff_of_false (Nat.not_lt.2 (two_pow_le_roundUnits (by omega) hl)) (Nat.not_lt.2 ?_)
    rw [limit_eq] at hl
    calc (2 ^ (54 : Nat) - 1) * halfStep * d ≤ n / d * d := Nat.mul_le_mul_right d (by omega)
      _ ≤ n := Nat.div_mul_le_self n d

end ItemStore.Binary64
