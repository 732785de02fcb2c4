import ItemStore.Proofs.Binary64.Equality

/-!
Equality of numbers across their forms. Two integers are compared as they are, and any other two
numbers as doubles, for which an integer is rounded. Equality is reflexive and symmetric, but it is
transitive only up to rounding: from `2^53` on integers that differ may be equal to one double.
-/
namespace ItemStore.Number

attribute [local instance (high)] instPowNat

variable {a b c : Number}

theorem beq_iff_of_toInt? {m n : Int} (ha : a.toInt? = some m) (hb : b.toInt? = some n) :
    (a == b) = true ↔ m = n := by
  have hs : same a b = true ↔ m = n := by simp [same, ha, hb]
  exact hs

theorem beq_iff_of_float (h : a.toInt? = none ∨ b.toInt? = none) :
    (a == b) = true ↔ a.toBinary64.same b.toBinary64 = true := by
  have hs : same a b = a.toBinary64.same b.toBinary64 := by
    unfold same
    rcases h with h | h <;> simp [h]
  exact iff_of_eq (congrArg (· = true) hs)

/-- Equal numbers are the same integer, or else they are equal as doubles. -/
theorem beq_iff : (a == b) = true ↔
    (∃ z, a.toInt? = some z ∧ b.toInt? = some z) ∨
      (a.toInt? = none ∨ b.toInt? = none) ∧ a.toBinary64.same b.toBinary64 = true := by
  cases ha : a.toInt? with
  | none => simp [beq_iff_of_float (.inl ha)]
  | some m =>
    cases hb : b.toInt? with
    | none => simp [beq_iff_of_float (.inr hb)]
    | some n =>
      rw [beq_iff_of_toInt? ha hb]
      constructor
      · rintro rfl
        exact .inl ⟨m, rfl, rfl⟩
      · rintro (⟨z, hm, hn⟩ | ⟨hn, -⟩)
        · exact Option.some_inj.1 (hm.trans hn.symm)
        · rcases hn with hn | hn <;> cases hn

theorem same_toBinary64_of_beq (h : (a == b) = true) : a.toBinary64.same b.toBinary64 = true := by
  rcases beq_iff.1 h with ⟨z, ha, hb⟩ | ⟨-, hs⟩
  · rw [toBinary64_of_toInt? ha, toBinary64_of_toInt? hb]
    exact Binary64.same_ofInt_self z
  · exact hs

theorem beq_symm (h : (a == b) = true) : (b == a) = true := by
  rcases beq_iff.1 h with ⟨z, ha, hb⟩ | ⟨hn, hs⟩
  · exact (beq_iff_of_toInt? hb ha).2 rfl
  · exact (beq_iff_of_float hn.symm).2 (Binary64.same_symm hs)

/-- Two integers that differ, with a double between them. Neither of the integers is smaller than
`2^53`, below which no two are rounded to one double. -/
def Merged (a b c : Number) : Prop :=
  ∃ (m n : Int) (x : Binary64), a.toInt? = some m ∧ b = .float x ∧ c.toInt? = some n ∧ m ≠ n ∧
    2 ^ (53 : Nat) ≤ m.natAbs ∧ 2 ^ (53 : Nat) ≤ n.natAbs

/-- What is equal to the same integer is equal, and so is what is equal to the same double if one of
the two is a double itself. -/
theorem beq_trans (hab : (a == b) = true) (hbc : (b == c) = true)
    (h : a.toInt? = none ∨ c.toInt? = none ∨ b.toInt? ≠ none) : (a == c) = true := by
  have hs := Binary64.same_trans (same_toBinary64_of_beq hab) (same_toBinary64_of_beq hbc)
  cases ha : a.toInt? with
  | none => exact (beq_iff_of_float (.inl ha)).2 hs
  | some m =>
    cases hc : c.toInt? with
    | none => exact (beq_iff_of_float (.inr hc)).2 hs
    | some n =>
      obtain ⟨k, hb⟩ : ∃ k, b.toInt? = some k :=
        Option.ne_none_iff_exists'.1 (by simpa [ha, hc] using h)
      have hmk : m = k := (beq_iff_of_toInt? ha hb).1 hab
      have hkn : k = n := (beq_iff_of_toInt? hb hc).1 hbc
      exact (beq_iff_of_toInt? ha hc).2 (hmk.trans hkn)

theorem merged_of_beq (hab : (a == b) = true) (hbc : (b == c) = true) (hac : (a == c) ≠ true) :
    Merged a b c := by
  have hn : ¬(a.toInt? = none ∨ c.toInt? = none ∨ b.toInt? ≠ none) :=
    fun h => hac (beq_trans hab hbc h)
  simp only [not_or, Decidable.not_not] at hn
  obtain ⟨ha, hc, hb⟩ := hn
  obtain ⟨m, ha⟩ := Option.ne_none_iff_exists'.1 ha
  obtain ⟨n, hc⟩ := Option.ne_none_iff_exists'.1 hc
  obtain ⟨x, hb⟩ : ∃ x, b = .float x := by
    cases b with
    | float x => exact ⟨x, rfl⟩
    | _ => cases hb
  have hmn : m ≠ n := fun h => hac ((beq_iff_of_toInt? ha hc).2 h)
  have hs := Binary64.same_trans (same_toBinary64_of_beq hab) (same_toBinary64_of_beq hbc)
  rw [toBinary64_of_toInt? ha, toBinary64_of_toInt? hc] at hs
  have hm : 2 ^ (53 : Nat) ≤ m.natAbs :=
    Nat.le_of_not_lt fun h => hmn (Binary64.eq_of_same_ofInt hs h)
  have hl : 2 ^ (53 : Nat) ≤ n.natAbs :=
    Nat.le_of_not_lt fun h => hmn (Binary64.eq_of_same_ofInt (Binary64.same_symm hs) h).symm
  exact ⟨m, n, x, ha, hb, hc, hmn, hm, hl⟩

theorem not_beq_of_merged (h : Merged a b c) : (a == c) ≠ true := by
  obtain ⟨m, n, -, ha, -, hc, hmn, -⟩ := h
  exact fun hac => hmn ((beq_iff_of_toInt? ha hc).1 hac)

/-- Equality of finite numbers is reflexive and symmetric, and it is transitive exactly up to
rounding. -/
theorem beq_equivalence_up_to_rounding (a b c : Number) :
    (a.isFinite = true → (a == a) = true) ∧ ((a == b) = true → (b == a) = true) ∧
      ((a == b) = true → (b == c) = true → ((a == c) = true ↔ ¬Merged a b c)) := by
  refine ⟨beq_self, beq_symm, fun hab hbc => ⟨fun hac hm => not_beq_of_merged hm hac, fun hm => ?_⟩⟩
  by_cases hac : (a == c) = true
  · exact hac
  · exact absurd (merged_of_beq hab hbc hac) hm

theorem one_lt_two_pow : 1 < 2 ^ (53 : Nat) := by decide

def powerOfTwo (e : Nat) (he : e ≤ 971) : Number :=
  .float (.finite (.scaled false 1 e one_lt_two_pow he))

/-- The largest signed integer is equal to the double `2^63`, which is equal to an unsigned integer,
and between a signed and an unsigned three stands a double without merging them. -/
theorem beq_equivalence_up_to_rounding_of_powers :
    ∃ a b c : Number, a = .int 9223372036854775807 ∧ b = powerOfTwo 63 (by decide) ∧
      c = .uint 9223372036854775808 ∧ a.isFinite = true ∧ (a == a) = true ∧
      (a == b) = true ∧ (b == a) = true ∧ (b == c) = true ∧ Merged a b c ∧ (a == c) ≠ true ∧
      (int 4 == powerOfTwo 2 (by decide)) = true ∧ (powerOfTwo 2 (by decide) == uint 4) = true ∧
      (int 4 == uint 4) = true := by
  have hab : (int 9223372036854775807 == powerOfTwo 63 (by decide)) = true := by decide +kernel
  have hbc : (powerOfTwo 63 (by decide) == uint 9223372036854775808) = true := by decide +kernel
  have hm : Merged (int 9223372036854775807) (powerOfTwo 63 (by decide))
      (uint 9223372036854775808) := ⟨_, _, _, rfl, rfl, rfl, by decide, by decide, by decide⟩
  have hab' : (int 4 == powerOfTwo 2 (by decide)) = true := by decide +kernel
  have hbc' : (powerOfTwo 2 (by decide) == uint 4) = true := by decide +kernel
  have hm' : ¬Merged (int 4) (powerOfTwo 2 (by decide)) (uint 4) := by
    rintro ⟨m, n, x, hm, -, hn, hmn, -⟩
    cases hm
    cases hn
    exact hmn rfl
  obtain ⟨hrefl, hsymm, htrans⟩ := beq_equivalence_up_to_rounding (int 9223372036854775807)
    (powerOfTwo 63 (by decide)) (uint 9223372036854775808)
  obtain ⟨-, -, htrans'⟩ :=
    beq_equivalence_up_to_rounding (int 4) (powerOfTwo 2 (by decide)) (uint 4)
  exact ⟨_, _, _, rfl, rfl, rfl, rfl, hrefl rfl, hab, hsymm hab, hbc, hm,
    fun hac => (htrans hab hbc).1 hac hm, hab', hbc', (htrans' hab' hbc').2 hm'⟩

/-- The integers `2^53` and `2^53 + 1` are equal to one double, but not to each other. -/
theorem exists_beq_and_beq_and_not_beq :
    ∃ a b c : Number, a.isFinite = true ∧ b.isFinite = true ∧ c.isFinite = true ∧
      (a == b) = true ∧ (b == c) = true ∧ (a == c) ≠ true := by
  have hab : (int 9007199254740992 == powerOfTwo 53 (by decide)) = true := by decide +kernel
  have hbc : (powerOfTwo 53 (by decide) == int 9007199254740993) = true := by decide +kernel
  exact ⟨_, _, _, rfl, rfl, rfl, hab, hbc, by decide⟩

end ItemStore.Number
