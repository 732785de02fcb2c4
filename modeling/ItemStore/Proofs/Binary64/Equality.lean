import ItemStore.Proofs.Binary64.Whole

/-!
Doubles by their values. Two finite doubles are equal if they have the same units with the same
sign, where zero has no sign; an integer is the value of a double if its ones are these units.
-/
namespace ItemStore

attribute [local instance (high)] instPowNat

namespace Digits

theorem signedInt_mul (negative : Bool) (n m : Nat) :
    signedInt negative (n * m) = signedInt negative n * m := by
  cases negative with
  | true => exact (congrArg Neg.neg (Int.natCast_mul n m)).trans (Int.neg_mul _ _).symm
  | false => exact Int.natCast_mul n m

theorem signedInt_natAbs (z : Int) : signedInt (decide (z < 0)) z.natAbs = z := by
  unfold signedInt
  by_cases hz : z < 0
  · rw [if_pos (decide_eq_true hz)]
    omega
  · rw [if_neg (by simpa using hz)]
    omega

end Digits

namespace Binary64

/-- The units of a double with its sign, which zero does not have. -/
def Finite.signedUnits (x : Finite) : Int := Digits.signedInt x.negative x.units

def Finite.IsInt (x : Finite) (z : Int) : Prop := x.signedUnits = z * one

/-! Equality. -/

theorem same_finite_iff {x y : Finite} :
    same (.finite x) (.finite y) = true ↔ x.signedUnits = y.signedUnits := by
  have hs : same (.finite x) (.finite y) = true ↔
      x.units = y.units ∧ (x.units = 0 ∨ x.negative = y.negative) := by
    simp [same]
  rw [hs]
  unfold Finite.signedUnits Digits.signedInt
  cases x.negative <;> cases y.negative <;> simp <;> omega

theorem same_symm {x y : Binary64} (h : same x y = true) : same y x = true := by
  cases x with
  | nan => cases y <;> cases h
  | infinity a =>
    cases y with
    | infinity b =>
      have hab : a = b := beq_iff_eq.1 h
      exact beq_iff_eq.2 hab.symm
    | _ => cases h
  | finite x =>
    cases y with
    | finite y => exact same_finite_iff.2 (same_finite_iff.1 h).symm
    | _ => cases h

theorem same_trans {x y z : Binary64} (hxy : same x y = true) (hyz : same y z = true) :
    same x z = true := by
  cases y with
  | nan => cases z <;> cases hyz
  | infinity b =>
    cases x with
    | infinity a =>
      have hab : a = b := beq_iff_eq.1 hxy
      exact hab ▸ hyz
    | _ => cases hxy
  | finite y =>
    cases x with
    | finite x =>
      cases z with
      | finite z =>
        exact same_finite_iff.2 ((same_finite_iff.1 hxy).trans (same_finite_iff.1 hyz))
      | _ => cases hyz
    | _ => cases hxy

/-! Integers as doubles. -/

theorem natAbs_eq_of_isInt {x : Finite} {z : Int} (h : x.IsInt z) : z.natAbs * one = x.units := by
  have hn : x.signedUnits.natAbs = z.natAbs * one := by rw [h, Int.natAbs_mul, Int.natAbs_natCast]
  rw [← hn]
  exact Digits.natAbs_signedInt _ _

theorem mul_one_inj {m n : Int} : m * one = n * one ↔ m = n :=
  Int.mul_eq_mul_right_iff (Int.natCast_ne_zero.2 (Nat.ne_of_gt one_pos))

theorem Finite.toInt?_eq_some_iff_isInt {x : Finite} {z : Int} : x.toInt? = some z ↔ x.IsInt z := by
  have hs : ∀ k, x.units = k * one → x.signedUnits = Digits.signedInt x.negative k * one := by
    intro k hk
    rw [signedUnits, hk, Digits.signedInt_mul]
  rw [toInt?_eq_some_iff]
  constructor
  · rintro ⟨k, hk, rfl⟩
    exact hs k hk
  · intro h
    have hk := (natAbs_eq_of_isInt h).symm
    exact ⟨z.natAbs, hk, mul_one_inj.1 (h.symm.trans (hs _ hk))⟩

theorem exists_ofInt_of_spacing_dvd {z : Int} (hs : spacing (z.natAbs * one) ∣ z.natAbs * one)
    (hl : z.natAbs * one < limit) : ∃ x, ofInt z = .finite x ∧ x.IsInt z := by
  have hr : roundUnits (z.natAbs * one) 1 = z.natAbs * one := by
    simpa only [Nat.mul_one] using roundUnits_mul_self hs Nat.one_pos
  refine ⟨⟨decide (z < 0), z.natAbs * one, hl, hs⟩, ofUnits_of_roundUnits rfl hr, ?_⟩
  unfold Finite.IsInt Finite.signedUnits
  rw [Digits.signedInt_mul, Digits.signedInt_natAbs]

theorem same_ofInt_of_isInt {x : Finite} {z : Int} (h : x.IsInt z) :
    same (ofInt z) (.finite x) = true := by
  have hu := natAbs_eq_of_isInt h
  obtain ⟨y, hy, hz⟩ := exists_ofInt_of_spacing_dvd (hu ▸ x.spacing_dvd) (hu ▸ x.units_lt)
  rw [hy]
  exact same_finite_iff.2 (hz.trans h.symm)

theorem exists_ofInt_of_lt {z : Int} (hz : z.natAbs < 2 ^ (53 : Nat)) :
    ∃ x, ofInt z = .finite x ∧ x.IsInt z := by
  refine exists_ofInt_of_spacing_dvd (spacing_dvd_mul (Nat.le_of_lt hz)) ?_
  have hp : 2 ^ (53 : Nat) * one ≤ limit := by
    rw [← two_pow_mul_one]
    exact Nat.pow_le_pow_right (by decide) (Nat.add_le_add_right (by decide) places)
  exact Nat.lt_of_lt_of_le (Nat.mul_lt_mul_of_pos_right hz one_pos) hp

theorem roundUnits_of_ofInt {x : Finite} {z : Int} (h : ofInt z = .finite x) :
    roundUnits (z.natAbs * one) 1 = x.units := by
  unfold ofInt ofUnits at h
  split at h
  · cases h
    rfl
  · cases h

theorem same_ofInt_self (z : Int) : same (ofInt z) (ofInt z) = true := by
  unfold ofInt ofUnits
  split
  · exact same_self _
  · exact beq_self_eq_true _

theorem eq_of_same_ofInt {m n : Int} (h : same (ofInt m) (ofInt n) = true)
    (hm : m.natAbs < 2 ^ (53 : Nat)) : m = n := by
  obtain ⟨x, hx, hxm⟩ := exists_ofInt_of_lt hm
  rw [hx] at h
  have hn : n.natAbs < 2 ^ (53 : Nat) := by
    cases hy : ofInt n with
    | finite y =>
      rw [hy, same_finite_iff] at h
      have hym : y.IsInt m := h.symm.trans hxm
      have hr : roundUnits (n.natAbs * one) 1 = m.natAbs * one := by
        rw [roundUnits_of_ofInt hy, natAbs_eq_of_isInt hym]
      exact Nat.lt_of_not_le fun hn => Nat.not_lt.2 (two_pow_le_of_roundUnits hr hn) hm
    | _ =>
      rw [hy] at h
      cases h
  obtain ⟨y, hy, hyn⟩ := exists_ofInt_of_lt hn
  rw [hy, same_finite_iff] at h
  exact mul_one_inj.1 (hxm.symm.trans (h.trans hyn))

end Binary64
end ItemStore
