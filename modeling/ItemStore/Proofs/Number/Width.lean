import ItemStore.Proofs.Binary64.Equality
import ItemStore.Proofs.Binary64.Exponent
import ItemStore.Proofs.Number.Integer

/-!
The bounds of 64 bits. Digits that are taken up one by one while their number fits are those of a
number that fits, so an integer is read alike whether a signed and an unsigned number are tried in
turn or the integer is put to the bounds at the end. The largest integers of 64 bits are rounded to
the powers of two above them, and as doubles these bound the whole doubles as the integers do.
-/
namespace ItemStore

attribute [local instance (high)] instPowNat

namespace Digits

/-- Digits taken up behind those of `n`, as long as the number does not exceed the bound. -/
def takeUp? (bound n : Nat) (cs : List Char) : Option Nat :=
  cs.foldlM (fun n c => if 10 * n + digit c ≤ bound then some (10 * n + digit c) else none) n

def upTo? (bound : Nat) (cs : List Char) : Option Nat :=
  if !cs.isEmpty && cs.all Char.isDigit then takeUp? bound 0 cs else none

def unsignedUpTo? (bound : Nat) : List Char → Option Nat
  | '+' :: cs => upTo? bound cs
  | cs => upTo? bound cs

/-- There is one more integer of 64 bits with a minus than with a plus. -/
def signed64? : List Char → Option Int
  | '-' :: cs => (upTo? (2 ^ (63 : Nat)) cs).map fun n : Nat => -(n : Int)
  | cs => (unsignedUpTo? (2 ^ (63 : Nat) - 1) cs).map Int.ofNat

def unsigned64? (cs : List Char) : Option Nat := unsignedUpTo? (2 ^ (64 : Nat) - 1) cs

variable {bound n : Nat} {cs : List Char} {z : Int}

theorem le_foldl_digit (n : Nat) (cs : List Char) :
    n ≤ cs.foldl (fun n c => 10 * n + digit c) n := by
  induction cs generalizing n with
  | nil => exact Nat.le_refl n
  | cons c cs ih =>
    have hn := ih (10 * n + digit c)
    rw [List.foldl_cons]
    omega

theorem takeUp?_eq_some_iff {m : Nat} (hn : n ≤ bound) :
    takeUp? bound n cs = some m ↔
      cs.foldl (fun n c => 10 * n + digit c) n = m ∧ m ≤ bound := by
  induction cs generalizing n with
  | nil =>
    constructor
    · rintro ⟨⟩
      exact ⟨rfl, hn⟩
    · rintro ⟨rfl, -⟩
      rfl
  | cons c cs ih =>
    rw [takeUp?, List.foldlM_cons, List.foldl_cons]
    by_cases hc : 10 * n + digit c ≤ bound
    · rw [if_pos hc]
      exact ih hc
    · rw [if_neg hc]
      refine iff_of_false (by rintro ⟨⟩) ?_
      rintro ⟨rfl, hm⟩
      exact hc (Nat.le_trans (le_foldl_digit _ cs) hm)

theorem upTo?_eq_some_iff : upTo? bound cs = some n ↔ nat? cs = some n ∧ n ≤ bound := by
  unfold upTo? nat?
  split
  · rw [takeUp?_eq_some_iff (Nat.zero_le bound), Option.some_inj]
    rfl
  · simp

theorem unsignedUpTo?_eq_some_iff : unsignedUpTo? bound cs = some n ↔ unsigned? cs = some n ∧ n ≤ bound := by
  by_cases hplus : ∃ ds, cs = '+' :: ds
  · obtain ⟨ds, rfl⟩ := hplus
    exact upTo?_eq_some_iff
  · have hc : unsignedUpTo? bound cs = upTo? bound cs := by
      unfold unsignedUpTo?
      split
      · exact absurd ⟨_, rfl⟩ hplus
      · rfl
    have hu : unsigned? cs = nat? cs := by
      unfold unsigned?
      split
      · exact absurd ⟨_, rfl⟩ hplus
      · rfl
    rw [hc, hu]
    exact upTo?_eq_some_iff

theorem int?_of_no_minus (h : ¬∃ ds, cs = '-' :: ds) : int? cs = (unsigned? cs).map Int.ofNat := by
  unfold int?
  split
  · exact absurd ⟨_, rfl⟩ h
  · rfl
  · rename_i hplus
    unfold unsigned?
    split
    · exact absurd rfl (hplus _)
    · rfl

theorem signed64?_of_no_minus (h : ¬∃ ds, cs = '-' :: ds) :
    signed64? cs = (unsignedUpTo? (2 ^ (63 : Nat) - 1) cs).map Int.ofNat := by
  unfold signed64?
  split
  · exact absurd ⟨_, rfl⟩ h
  · rfl

/-- The digits fit one by one exactly if the integer does. -/
theorem signed64?_eq_some_iff :
    signed64? cs = some z ↔ int? cs = some z ∧ -2 ^ (63 : Nat) ≤ z ∧ z < 2 ^ (63 : Nat) := by
  by_cases hminus : ∃ ds, cs = '-' :: ds
  · obtain ⟨ds, rfl⟩ := hminus
    rw [int?_minus_eq_some_iff, signed64?, Option.map_eq_some_iff]
    constructor
    · rintro ⟨n, hn, rfl⟩
      obtain ⟨hn, hb⟩ := upTo?_eq_some_iff.1 hn
      exact ⟨⟨n, hn, rfl⟩, by omega, by omega⟩
    · rintro ⟨⟨n, hn, rfl⟩, hl, -⟩
      exact ⟨n, upTo?_eq_some_iff.2 ⟨hn, by omega⟩, rfl⟩
  · rw [int?_of_no_minus hminus, signed64?_of_no_minus hminus, Option.map_eq_some_iff,
      Option.map_eq_some_iff]
    constructor
    · rintro ⟨n, hn, rfl⟩
      obtain ⟨hn, hb⟩ := unsignedUpTo?_eq_some_iff.1 hn
      rw [Int.ofNat_eq_natCast]
      exact ⟨⟨n, hn, rfl⟩, by omega, by omega⟩
    · rintro ⟨⟨n, hn, rfl⟩, -, hu⟩
      rw [Int.ofNat_eq_natCast] at hu
      exact ⟨n, unsignedUpTo?_eq_some_iff.2 ⟨hn, by omega⟩, rfl⟩

theorem signed64?_eq_filter (cs : List Char) : signed64? cs =
    (int? cs).filter fun z => -2 ^ (63 : Nat) ≤ z ∧ z < 2 ^ (63 : Nat) := by
  ext z
  rw [signed64?_eq_some_iff, Option.filter_eq_some_iff, decide_eq_true_iff]

theorem unsigned64?_eq_filter (cs : List Char) :
    unsigned64? cs = (unsigned? cs).filter (· < 2 ^ (64 : Nat)) := by
  ext n
  rw [unsigned64?, unsignedUpTo?_eq_some_iff, Option.filter_eq_some_iff, decide_eq_true_iff,
    Nat.le_sub_one_iff_lt (Nat.two_pow_pos 64)]

theorem int?_of_unsigned? (h : unsigned? cs = some n) : int? cs = some (n : Int) := by
  by_cases hminus : ∃ ds, cs = '-' :: ds
  · obtain ⟨ds, rfl⟩ := hminus
    cases h
  · rw [int?_of_no_minus hminus, h]
    rfl

/-- A positive integer has no minus. -/
theorem unsigned?_of_int? (h : int? cs = some z) (hz : 0 < z) : unsigned? cs = some z.toNat := by
  by_cases hminus : ∃ ds, cs = '-' :: ds
  · obtain ⟨ds, rfl⟩ := hminus
    obtain ⟨n, -, hn⟩ := int?_minus_eq_some_iff.1 h
    omega
  · rw [int?_of_no_minus hminus, Option.map_eq_some_iff] at h
    obtain ⟨n, hn, rfl⟩ := h
    exact hn

end Digits

namespace Number

theorem bind_ofInt?_eq (cs : List Char) :
    (Digits.int? cs).bind ofInt? =
      ((Digits.signed64? cs).map fun z => int (Int64.ofInt z)).or
        ((Digits.unsigned64? cs).map fun n => uint (UInt64.ofNat n)) := by
  rw [Digits.signed64?_eq_filter, Digits.unsigned64?_eq_filter]
  cases hi : Digits.int? cs with
  | none =>
    have hu : Digits.unsigned? cs = none := by
      refine Option.eq_none_iff_forall_ne_some.2 fun n hn => ?_
      cases hi.symm.trans (Digits.int?_of_unsigned? hn)
    rw [hu]
    rfl
  | some z =>
    rw [Option.bind_some, ofInt?, Option.filter_some]
    by_cases hs : -2 ^ (63 : Nat) ≤ z ∧ z < 2 ^ (63 : Nat)
    · rw [if_pos hs, if_pos (decide_eq_true hs)]
      rfl
    rw [if_neg hs, if_neg (mt of_decide_eq_true hs)]
    by_cases hz : 0 < z
    · rw [Digits.unsigned?_of_int? hi hz, Option.filter_some]
      by_cases hu : z < 2 ^ (64 : Nat)
      · rw [if_pos ⟨Int.le_of_lt hz, hu⟩, if_pos (decide_eq_true (by omega))]
        rfl
      · have hn : ¬z.toNat < 2 ^ (64 : Nat) := by omega
        rw [if_neg fun h => hu h.2, if_neg (mt of_decide_eq_true hn)]
        rfl
    · have hu : Digits.unsigned? cs = none := by
        refine Option.eq_none_iff_forall_ne_some.2 fun n hn => ?_
        cases hi.symm.trans (Digits.int?_of_unsigned? hn)
        omega
      rw [if_neg (by omega), hu]
      rfl

/-- A signed number of 64 bits is tried first, then an unsigned one, then a double. -/
theorem ofText?_eq_or (s : String) :
    ofText? s =
      let cs := Text.trim s.toList
      (((Digits.signed64? cs).map fun z => int (Int64.ofInt z)).or
        ((Digits.unsigned64? cs).map fun n => uint (UInt64.ofNat n))).or
          ((Binary64.ofText? cs).bind ofBinary64?) := by
  dsimp only
  rw [← bind_ofInt?_eq, ofText?]
  cases (Digits.int? (Text.trim s.toList)).bind ofInt? <;> rfl

end Number

namespace Binary64

/-- Just below `2^e` the doubles lie `2^(e - 53)` apart. -/
theorem spacing_two_pow_sub_one {e : Nat} (h : 53 ≤ e) :
    spacing ((2 ^ e - 1) * one) = 2 ^ (e - 53) * one := by
  have hp := one_pos
  have hhalf : 2 ^ (e - 1) + 2 ^ (e - 1) = 2 ^ e := by
    rw [← Nat.two_mul, ← Nat.pow_succ', Nat.succ_eq_add_one, Nat.sub_add_cancel (by omega)]
  have hpos := Nat.two_pow_pos (e - 1)
  have hlog : ((2 ^ e - 1) * one).log2 = e - 1 + places := by
    refine (Nat.log2_eq_iff (Nat.mul_ne_zero (by omega) (by omega))).2 ⟨?_, ?_⟩
    · rw [two_pow_mul_one]
      exact Nat.mul_le_mul_right one (by omega)
    · rw [Nat.add_right_comm, Nat.sub_add_cancel (by omega), two_pow_mul_one]
      exact Nat.mul_lt_mul_of_pos_right (by omega) hp
  have hexp : e - 1 + places - 52 = e - 53 + places := by omega
  rw [spacing, hlog, hexp, two_pow_mul_one]

/-- From `2^54` on the integer below a power of two is rounded to it. -/
theorem roundUnits_two_pow_sub_one {e : Nat} (h : 54 ≤ e) :
    roundUnits ((2 ^ e - 1) * one) 1 = 2 ^ e * one := by
  have hs := spacing_two_pow_sub_one (e := e) (by omega)
  have hgrid : 2 ^ (53 : Nat) * 2 ^ (e - 53) = 2 ^ e := by
    rw [← Nat.pow_add, Nat.add_sub_cancel' (by omega)]
  have htwo : 2 ≤ 2 ^ (e - 53) := Nat.le_self_pow (by omega) 2
  have hq : 2 ^ (53 : Nat) ≤ nearestEven (2 ^ e - 1) (2 ^ (e - 53)) := by
    refine Nat.le_of_not_lt fun hlt => ?_
    have := (nearestEven_lt_iff (k := 2 ^ (52 : Nat)) (by omega) (by decide)).1 hlt
    omega
  refine Nat.le_antisymm ?_ ?_
  · rw [← two_pow_mul_one]
    refine roundUnits_le_two_pow Nat.one_pos ?_
    rw [Nat.mul_one, two_pow_mul_one]
    exact Nat.mul_le_mul_right one (Nat.sub_le _ 1)
  · unfold roundUnits
    rw [Nat.div_one, Nat.one_mul, hs, nearestEven_mul_right _ _ one_pos, ← Nat.mul_assoc, ← hgrid]
    exact Nat.mul_le_mul_right one (Nat.mul_le_mul_right _ (hgrid ▸ hq))

theorem spacing_two_pow_dvd (e : Nat) : spacing (2 ^ e * one) ∣ 2 ^ e * one := by
  rw [← two_pow_mul_one, ← Nat.one_mul (2 ^ (e + places))]
  exact spacing_dvd_mul (by decide)

theorem ofInt_two_pow_sub_one {e : Nat} (h : 54 ≤ e) :
    ofInt ((2 ^ e - 1 : Nat) : Int) = ofInt ((2 ^ e : Nat) : Int) := by
  have hr : roundUnits (2 ^ e * one) 1 = 2 ^ e * one := by
    simpa only [Nat.mul_one] using roundUnits_mul_self (spacing_two_pow_dvd e) Nat.one_pos
  have hn : ∀ n : Nat, decide ((n : Int) < 0) = false := fun n => decide_eq_false (by omega)
  rw [ofInt, ofInt, hn, hn, Int.natAbs_natCast, Int.natAbs_natCast]
  exact ofUnits_congr ((roundUnits_two_pow_sub_one h).trans hr.symm)

/-- The double of the largest integer of so many bits bounds the whole doubles as the power of two
does. -/
theorem exists_ofInt_two_pow_sub_one {e : Nat} (h : 54 ≤ e) (hu : e < 1024) :
    ∃ y : Finite, ofInt ((2 ^ e - 1 : Nat) : Int) = .finite y ∧
      ∀ (x : Finite) (z : Int), x.toInt? = some z → (x.units < y.units ↔ z.natAbs < 2 ^ e) := by
  have hl : 2 ^ e * one < limit := by
    rw [← two_pow_mul_one]
    exact Nat.pow_lt_pow_right (by decide) (by omega)
  obtain ⟨y, hy, hi⟩ := exists_ofInt_of_spacing_dvd (z := ((2 ^ e : Nat) : Int))
    (spacing_two_pow_dvd e) hl
  refine ⟨y, (ofInt_two_pow_sub_one h).trans hy, fun x z hx => ?_⟩
  obtain ⟨k, hk, rfl⟩ := Finite.toInt?_eq_some_iff.1 hx
  rw [hk, ← natAbs_eq_of_isInt hi, Int.natAbs_natCast, Digits.natAbs_signedInt]
  exact Nat.mul_lt_mul_right one_pos

end Binary64

/-- A whole double becomes an integer below the double of the largest signed number. -/
theorem Number.toJson_float_eq :
    ∃ y : Binary64.Finite, Binary64.ofInt ((2 ^ (63 : Nat) - 1 : Nat) : Int) = .finite y ∧
      ∀ (x : Binary64.Finite) (z : Int), x.toInt? = some z → (float (.finite x)).toJson =
        if x.units < y.units then .ofInt64 (Int64.ofInt z) else .number (.float x) := by
  obtain ⟨y, hy, hlt⟩ := Binary64.exists_ofInt_two_pow_sub_one (e := 63) (by decide) (by decide)
  refine ⟨y, hy, fun x z hx => ?_⟩
  simp only [toJson, hx, hlt x z hx]

end ItemStore
