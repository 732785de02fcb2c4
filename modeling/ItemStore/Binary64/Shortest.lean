import ItemStore.Binary64.Basic
import ItemStore.Digits

/-!
The shortest decimal that reads back as a given double. The decimal grids are searched from the
coarse to the fine; on each only the two neighbours of the value can read back before all others,
and on the grid of `10^-places` the value itself lies, so the search ends there.
-/
namespace ItemStore

attribute [local instance (high)] instPowNat

/-- The number `coefficient · 10^exponent`. -/
structure Decimal where
  coefficient : Nat
  exponent : Int
deriving DecidableEq

namespace Binary64

/-- Which of two neighbours that are equally near is taken. -/
inductive Tie
  | upper | even
deriving DecidableEq

/-- The number of steps of `10^-places` in one unit. -/
@[irreducible] def stepsPerUnit : Nat := 5 ^ places

def steps (u : Nat) : Nat := stepsPerUnit * u

/-- Whether `c · 10^k` steps are read as `u` units. -/
def readsBack (u c k : Nat) : Bool := roundUnits (10 ^ k * c) stepsPerUnit == u

/-- The nearer neighbour of `n / d` among its whole neighbours for which `ok` holds. -/
def nearestWith (tie : Tie) (ok : Nat → Bool) (n d : Nat) : Option Nat :=
  let c := n / d
  match ok c, ok (c + 1) with
  | false, false => none
  | true, false => some c
  | false, true => some (c + 1)
  | true, true =>
    if 2 * (n % d) < d ∨ 2 * (n % d) = d ∧ tie = .even ∧ c % 2 = 0 then some c else some (c + 1)

def onGrid (tie : Tie) (u k : Nat) : Option Nat :=
  nearestWith tie (fun c => readsBack u c k) (steps u) (10 ^ k)

def coarsest (tie : Tie) (u : Nat) : Nat → Decimal
  | 0 => ⟨steps u, -places⟩
  | k + 1 => ((onGrid tie u (k + 1)).map (⟨·, (k + 1 : Nat) - places⟩)).getD (coarsest tie u k)

theorem ok_of_nearestWith {tie : Tie} {ok : Nat → Bool} {n d c : Nat}
    (h : nearestWith tie ok n d = some c) : ok c = true := by
  unfold nearestWith at h
  grind

theorem readsBack_of_onGrid {tie : Tie} {u k c : Nat} (h : onGrid tie u k = some c) :
    readsBack u c k = true :=
  @ok_of_nearestWith tie (fun c => readsBack u c k) (steps u) (10 ^ k) c h

theorem stepsPerUnit_pos : 0 < stepsPerUnit := by
  unfold stepsPerUnit; exact Nat.pow_pos (by decide)

theorem readsBack_coarsest (tie : Tie) {u : Nat} (h : spacing u ∣ u) (k : Nat) :
    ∃ j : Nat, (coarsest tie u k).exponent = (j : Int) - places ∧
      readsBack u (coarsest tie u k).coefficient j = true := by
  induction k with
  | zero =>
    refine ⟨0, by simp [coarsest], ?_⟩
    rw [coarsest, readsBack, beq_iff_eq, Nat.pow_zero, Nat.one_mul, steps, Nat.mul_comm]
    exact roundUnits_mul_self h stepsPerUnit_pos
  | succ k ih =>
    rw [coarsest]
    cases hc : onGrid tie u (k + 1) with
    | none => exact ih
    | some c => exact ⟨k + 1, rfl, readsBack_of_onGrid hc⟩

/-- The shortest decimal for `u` units, and of several shortest the nearest. -/
def shortest (tie : Tie) (u : Nat) : Decimal :=
  if u = 0 then ⟨0, 0⟩ else coarsest tie u (Digits.count (steps u))

end Binary64
end ItemStore
