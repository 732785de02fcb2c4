/-!
Binary floating point of double precision, in exact arithmetic. Every finite double is a whole
number of units of `2^-1074`, and a number of units is a double exactly when at most 53 of its
bits are significant and its value stays below `2^1024`.
-/
namespace ItemStore

-- Powers are those of the core library, whatever else is in scope.
attribute [local instance (high)] instPowNat

namespace Binary64

/-- The binary places behind the point of a finite double, which are as many decimal ones. -/
@[irreducible] def places : Nat := 1074

/-- The number of units in one. -/
def one : Nat := 2 ^ places

/-- The first number of units that is too large to be finite. -/
def limit : Nat := 2 ^ (1024 + places)

/-- The distance, in units, between neighbouring doubles near `u` units. -/
def spacing (u : Nat) : Nat := 2 ^ (u.log2 - 52)

structure Finite where
  negative : Bool
  units : Nat
  units_lt : units < limit
  spacing_dvd : spacing units ∣ units
deriving DecidableEq

end Binary64

inductive Binary64 where
  | nan
  | infinity (negative : Bool)
  | finite (x : Binary64.Finite)
deriving DecidableEq

namespace Binary64

/-- `n / d` as a whole number, a half going to the even neighbour. -/
def nearestEven (n d : Nat) : Nat :=
  if 2 * (n % d) < d ∨ 2 * (n % d) = d ∧ n / d % 2 = 0 then n / d else n / d + 1

/-- `n / d` units on the grid of the doubles, of which an overflowing number may lie beyond the
largest. -/
@[irreducible] def roundUnits (n d : Nat) : Nat :=
  nearestEven n (d * spacing (n / d)) * spacing (n / d)

theorem nearestEven_le (n d : Nat) : nearestEven n d ≤ n / d + 1 := by
  unfold nearestEven; split <;> omega

theorem nearestEven_mul_self (k d : Nat) (h : 0 < d) : nearestEven (k * d) d = k := by
  simp [nearestEven, Nat.mul_div_cancel k h, h]

theorem spacing_pos (u : Nat) : 0 < spacing u := Nat.two_pow_pos _

theorem lt_spacing_mul (u : Nat) : u < spacing u * 2 ^ (53 : Nat) := by
  rw [spacing, ← Nat.pow_add]
  exact Nat.lt_of_lt_of_le Nat.lt_log2_self (Nat.pow_le_pow_right (by decide) (by omega))

theorem spacing_dvd_mul {k e : Nat} (h : k ≤ 2 ^ (53 : Nat)) :
    spacing (k * 2 ^ e) ∣ k * 2 ^ e := by
  rcases Nat.eq_zero_or_pos k with rfl | hk
  · simp
  have hne : k * 2 ^ e ≠ 0 := Nat.mul_ne_zero (by omega) (Nat.ne_of_gt (Nat.two_pow_pos e))
  rcases Nat.lt_or_eq_of_le h with h | rfl
  · refine Nat.dvd_trans (Nat.pow_dvd_pow 2 ?_) (Nat.dvd_mul_left _ k)
    have : (k * 2 ^ e).log2 < 53 + e := by
      rw [Nat.log2_lt hne, Nat.pow_add]
      exact Nat.mul_lt_mul_of_pos_right h (Nat.two_pow_pos e)
    omega
  · rw [spacing, ← Nat.pow_add, Nat.log2_two_pow]
    exact Nat.pow_dvd_pow 2 (by omega)

theorem spacing_dvd_roundUnits (n d : Nat) : spacing (roundUnits n d) ∣ roundUnits n d := by
  unfold roundUnits
  refine spacing_dvd_mul ?_
  refine Nat.le_trans (nearestEven_le _ _) ?_
  rw [← Nat.div_div_eq_div_mul]
  have := Nat.div_lt_of_lt_mul (lt_spacing_mul (n / d))
  omega

theorem nearestEven_mul_right (n d : Nat) {m : Nat} (hm : 0 < m) :
    nearestEven (n * m) (d * m) = nearestEven n d := by
  have hlt : 2 * (n % d * m) < d * m ↔ 2 * (n % d) < d := by
    rw [← Nat.mul_assoc]; exact Nat.mul_lt_mul_right hm
  have heq : 2 * (n % d * m) = d * m ↔ 2 * (n % d) = d := by
    rw [← Nat.mul_assoc]; exact Nat.mul_left_inj (Nat.ne_of_gt hm)
  simp only [nearestEven, Nat.mul_mod_mul_right, Nat.mul_div_mul_right _ _ hm, hlt, heq]

theorem roundUnits_mul_right (n d : Nat) {m : Nat} (hm : 0 < m) :
    roundUnits (n * m) (d * m) = roundUnits n d := by
  unfold roundUnits
  rw [Nat.mul_div_mul_right _ _ hm, Nat.mul_right_comm, nearestEven_mul_right _ _ hm]

theorem roundUnits_congr {n d m e : Nat} (hd : 0 < d) (he : 0 < e) (h : n * e = m * d) :
    roundUnits n d = roundUnits m e := by
  rw [← roundUnits_mul_right n d he, h, Nat.mul_comm d, roundUnits_mul_right m e hd]

theorem roundUnits_mul_self {u d : Nat} (h : spacing u ∣ u) (hd : 0 < d) :
    roundUnits (u * d) d = u := by
  obtain ⟨k, hk⟩ := h
  have hp := spacing_pos u
  unfold roundUnits
  rw [Nat.mul_div_cancel u hd]
  have : u * d = k * (d * spacing u) :=
    calc u * d = spacing u * k * d := congrArg (· * d) hk
      _ = k * (d * spacing u) := by ac_rfl
  rw [this, nearestEven_mul_self _ _ (Nat.mul_pos hd hp), Nat.mul_comm, ← hk]

/-- The double nearest to `n / d` units, with the given sign. -/
def ofUnits (negative : Bool) (n d : Nat) : Binary64 :=
  if h : roundUnits n d < limit then .finite ⟨negative, roundUnits n d, h, spacing_dvd_roundUnits n d⟩
  else .infinity negative

def ofInt (z : Int) : Binary64 := ofUnits (z < 0) (z.natAbs * one) 1

/-- The double nearest to `c · 10^x`. -/
def ofDecimal (negative : Bool) (c : Nat) (x : Int) : Binary64 :=
  ofUnits negative (c * 10 ^ x.toNat * one) (10 ^ (-x).toNat)

def isFinite : Binary64 → Bool
  | .finite _ => true
  | _ => false

def isZero : Binary64 → Bool
  | .finite x => x.units == 0
  | _ => false

/-- Numerical equality: the two zeros are equal, and `nan` differs from all. -/
def same : Binary64 → Binary64 → Bool
  | .finite x, .finite y => x.units == y.units && (x.units == 0 || x.negative == y.negative)
  | .infinity a, .infinity b => a == b
  | _, _ => false

def Finite.toInt? (x : Finite) : Option Int :=
  if x.units % one = 0 then
    some (if x.negative then -(x.units / one : Nat) else (x.units / one : Nat))
  else none

end Binary64
end ItemStore
