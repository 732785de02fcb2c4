import ItemStore.Proofs.Binary64.Whole

/-!
What JSON shows of a number after its text was read again. Only whole doubles can change: a double
below `2^63` is shown as an integer of which the text may have the first digits only, and from there
up to `2^64` the text is read as an integer although the double is shown as a double.
-/
namespace ItemStore

attribute [local instance (high)] instPowNat

open Binary64 (written_lt_two_pow_iff written_two_pow_63 written_two_pow_64 int?_text_of_units)

/-- If a double is whole, then below `2^63` its text is exact, and from there on it lies above all
integers of 64 bits. -/
def Binary64.Finite.Travels (x : Binary64.Finite) : Prop :=
  ∀ z, x.toInt? = some z →
    (z.natAbs < 2 ^ (63 : Nat) → Digits.int? (Binary64.text (.finite x)) = some z) ∧
      ¬(2 ^ (63 : Nat) ≤ z ∧ z < 2 ^ (64 : Nat))

namespace Binary64.Finite

variable {x : Binary64.Finite} {z : Int}

theorem travels_of_lt (hx : x.toInt? = some z) (hz : z.natAbs < 2 ^ (53 : Nat)) : x.Travels := by
  obtain ⟨k, hk, rfl⟩ := toInt?_eq_some_iff.1 hx
  rw [Digits.natAbs_signedInt] at hz
  have ht := int?_text_of_units hk
  rw [written_of_lt hk hz] at ht
  intro y hy
  cases hx.symm.trans hy
  refine ⟨fun _ => ht, ?_⟩
  unfold Digits.signedInt
  split <;> omega

theorem travels_of_ge (hx : x.toInt? = some z) (hz : 2 ^ (64 : Nat) ≤ z.natAbs) : x.Travels := by
  intro y hy
  cases hx.symm.trans hy
  exact ⟨fun h => by omega, by omega⟩

theorem not_travels (hx : x.toInt? = some z) (hz : 2 ^ (63 : Nat) ≤ z ∧ z < 2 ^ (64 : Nat)) :
    ¬x.Travels :=
  fun h => (h z hx).2 hz

end Binary64.Finite

namespace Number

def Travels : Number → Prop
  | .float (.finite x) => x.Travels
  | _ => True

variable {m n : Number}

theorem toJson_of_toInt? {z : Int} (h : n.toInt? = some z) :
    ∃ hz, n.toJson = .number (.integer z hz) := by
  cases n with
  | int i =>
    cases h
    exact ⟨_, rfl⟩
  | uint i =>
    cases h
    exact ⟨_, rfl⟩
  | float x => cases h

theorem toJson_eq_iff_of_toInt? {y z : Int} (hm : m.toInt? = some y) (hn : n.toInt? = some z) :
    m.toJson = n.toJson ↔ y = z := by
  obtain ⟨hy, hm⟩ := toJson_of_toInt? hm
  obtain ⟨hz, hn⟩ := toJson_of_toInt? hn
  rw [hm, hn, Json.number.injEq, Json.Number.integer.injEq]

theorem exists_ofInt?_iff {z : Int} :
    (∃ n, ofInt? z = some n) ↔ -2 ^ (63 : Nat) ≤ z ∧ z < 2 ^ (64 : Nat) := by
  unfold ofInt?
  split
  · exact iff_of_true ⟨_, rfl⟩ (by omega)
  · split
    · exact iff_of_true ⟨_, rfl⟩ (by omega)
    · exact iff_of_false (by simp) (by omega)

/-! What is read from the text of a number, whichever of the two readers takes it. -/

theorem ofText?_text_of_ofInt? (hn : n.isFinite = true) {z : Int}
    (hz : Digits.int? n.text.toList = some z) (hm : ofInt? z = some m) :
    ofText? n.text = some m := by
  simp only [ofText?, trim_text hn, hz, Option.bind_some, hm]

theorem ofText?_text_of_not_ofInt? {x : Binary64.Finite}
    (h : (Digits.int? (Binary64.text (.finite x))).bind ofInt? = none) :
    ofText? (text (.float (.finite x))) = some (.float (.finite x)) := by
  have ht := trim_text (n := .float (.finite x)) rfl
  have hx : (text (.float (.finite x))).toList = Binary64.text (.finite x) := String.toList_ofList
  unfold ofText?
  dsimp only
  rw [ht, hx, h, Binary64.ofText?_text]
  rfl

/-! What JSON shows of a double. -/

variable {x : Binary64.Finite} {z : Int}

theorem toInt?_int_ofInt (h : z.natAbs < 2 ^ (63 : Nat)) :
    (int (Int64.ofInt z)).toInt? = some z := by
  rw [toInt?, Int64.toInt_ofInt_of_le (by omega) (by omega)]

theorem toJson_float_of_lt (hx : x.toInt? = some z) (hz : z.natAbs < 2 ^ (63 : Nat)) :
    (float (.finite x)).toJson = (int (Int64.ofInt z)).toJson := by
  simp only [toJson, hx]
  rw [if_pos hz]

theorem toJson_float_of_ge (hx : x.toInt? = some z) (hz : 2 ^ (63 : Nat) ≤ z.natAbs) :
    (float (.finite x)).toJson = .number (.float x) := by
  simp only [toJson, hx]
  rw [if_neg (Nat.not_lt.2 hz)]

theorem exists_int?_text (hx : x.toInt? = some z) :
    ∃ t, Digits.int? (Binary64.text (.finite x)) = some t ∧
      (-2 ^ (63 : Nat) ≤ t ∧ t < 2 ^ (64 : Nat) ↔
        z.natAbs < 2 ^ (63 : Nat) ∨ 2 ^ (63 : Nat) ≤ z ∧ z < 2 ^ (64 : Nat)) := by
  obtain ⟨k, hk, hz⟩ := Binary64.Finite.toInt?_eq_some_iff.1 hx
  have h63 := written_lt_two_pow_iff (e := 63) hk (by rw [written_two_pow_63]; decide)
  have h64 := written_lt_two_pow_iff (e := 64) hk (by rw [written_two_pow_64]; decide)
  refine ⟨_, int?_text_of_units hk, ?_⟩
  rw [hz, Digits.natAbs_signedInt]
  unfold Digits.signedInt
  split <;> omega

theorem exists_ofText?_float (x : Binary64.Finite) :
    ∃ m, ofText? (text (.float (.finite x))) = some m ∧
      (m.toJson = (float (.finite x)).toJson ↔ x.Travels) := by
  cases hx : x.toInt? with
  | none =>
    have ht : Digits.int? (Binary64.text (.finite x)) = none := by
      refine Option.eq_none_iff_forall_ne_some.2 fun t ht => ?_
      obtain ⟨y, hy⟩ := Binary64.exists_toInt?_of_int?_text ht
      cases hx.symm.trans hy
    refine ⟨_, ofText?_text_of_not_ofInt? (by rw [ht]; rfl), iff_of_true rfl ?_⟩
    intro y hy
    cases hx.symm.trans hy
  | some z =>
    obtain ⟨t, ht, hr⟩ := exists_int?_text hx
    have hT : x.Travels ↔ (z.natAbs < 2 ^ (63 : Nat) → t = z) ∧
        ¬(2 ^ (63 : Nat) ≤ z ∧ z < 2 ^ (64 : Nat)) := by
      simp [Binary64.Finite.Travels, hx, ht]
    have hread : ∀ m, ofInt? t = some m → ofText? (text (.float (.finite x))) = some m :=
      fun m => ofText?_text_of_ofInt? rfl (by rwa [text, String.toList_ofList])
    rw [hT]
    by_cases hs : z.natAbs < 2 ^ (63 : Nat)
    · obtain ⟨m, hm⟩ := exists_ofInt?_iff.2 (hr.2 (.inl hs))
      refine ⟨m, hread m hm, ?_⟩
      have hj := toJson_float_of_lt hx hs
      rw [hj, toJson_eq_iff_of_toInt? (toInt?_of_ofInt? hm) (toInt?_int_ofInt hs)]
      constructor
      · exact fun h => ⟨fun _ => h, by omega⟩
      · exact fun h => h.1 hs
    · have hj := toJson_float_of_ge hx (Nat.not_lt.1 hs)
      by_cases hu : 2 ^ (63 : Nat) ≤ z ∧ z < 2 ^ (64 : Nat)
      · obtain ⟨m, hm⟩ := exists_ofInt?_iff.2 (hr.2 (.inr hu))
        obtain ⟨_, hi⟩ := toJson_of_toInt? (toInt?_of_ofInt? hm)
        exact ⟨m, hread m hm, iff_of_false (by rw [hi, hj]; rintro ⟨⟩) fun h => h.2 hu⟩
      · have hn : ofInt? t = none := by
          refine Option.eq_none_iff_forall_ne_some.2 fun m hm => ?_
          exact (hr.1 (exists_ofInt?_iff.1 ⟨m, hm⟩)).elim hs hu
        have hb : (Digits.int? (Binary64.text (.finite x))).bind ofInt? = none := by
          rw [ht, Option.bind_some, hn]
        exact ⟨_, ofText?_text_of_not_ofInt? hb, iff_of_true rfl ⟨fun h => (hs h).elim, hu⟩⟩

/-- A number is read from its text, and JSON shows the same of it exactly if it travels. -/
theorem exists_ofText?_text_toJson (h : n.isFinite = true) :
    ∃ m, ofText? n.text = some m ∧ (m.toJson = n.toJson ↔ n.Travels) := by
  cases hn : n.toInt? with
  | some z =>
    obtain ⟨m, hm⟩ := exists_ofInt?_of_toInt? hn
    refine ⟨m, ofText?_text_of_ofInt? h (int?_text hn) hm, iff_of_true ?_ ?_⟩
    · exact (toJson_eq_iff_of_toInt? (toInt?_of_ofInt? hm) hn).2 rfl
    · cases n with
      | float x => cases hn
      | _ => trivial
  | none =>
    obtain ⟨x, rfl⟩ := eq_float_of_toInt? h hn
    exact exists_ofText?_float x

end Number
end ItemStore
