import ItemStore.Binary64.ReadBack
import ItemStore.Number

/-! The text of a finite number is read as an equal number, which may have another form. -/
namespace ItemStore

namespace Text

theorem dropWhile_of_not_blank {cs : List Char} (h : ∀ c ∈ cs, isBlank c = false) :
    cs.dropWhile isBlank = cs := by
  cases cs with
  | nil => rfl
  | cons c cs => simp [h c (List.mem_cons_self ..)]

theorem trim_of_not_blank {cs : List Char} (h : ∀ c ∈ cs, isBlank c = false) : trim cs = cs := by
  have hr : ∀ c ∈ cs.reverse, isBlank c = false := fun c hc => h c (List.mem_reverse.1 hc)
  rw [trim, dropWhile_of_not_blank h, dropWhile_of_not_blank hr, List.reverse_reverse]

end Text

namespace Digits

theorem digit_lt_ten {c : Char} (h : c.isDigit = true) : digit c < 10 := by
  simp only [Char.isDigit, Bool.and_eq_true, decide_eq_true_eq] at h
  have hhigh : c.toNat ≤ 57 := h.2
  rw [digit]
  omega

/-- The characters that the text of a finite number has. -/
def isNumeral (c : Char) : Bool := c.isDigit || c == '-' || c == '.'

theorem not_isBlank_of_isNumeral {c : Char} (h : isNumeral c = true) : Text.isBlank c = false := by
  have hn : 45 ≤ c.toNat ∧ c.toNat ≤ 57 := by
    simp only [isNumeral, Bool.or_eq_true, beq_iff_eq] at h
    rcases h with (h | rfl) | rfl
    · simp only [Char.isDigit, Bool.and_eq_true, decide_eq_true_eq] at h
      have h1 : 48 ≤ c.toNat := h.1
      have h2 : c.toNat ≤ 57 := h.2
      omega
    · decide
    · decide
  simp [Text.isBlank]
  omega

theorem isNumeral_of_isDigit {c : Char} (h : c.isDigit = true) : isNumeral c = true := by
  simp [isNumeral, h]

theorem isNumeral_of_mem_ofInt {z : Int} {c : Char} (h : c ∈ ofInt z) : isNumeral c = true := by
  unfold ofInt at h
  split at h
  · rcases List.mem_cons.1 h with rfl | h
    · rfl
    · exact isNumeral_of_isDigit (isDigit_of_mem_ofNat h)
  · exact isNumeral_of_isDigit (isDigit_of_mem_ofNat h)

theorem nat?_eq_some_iff {cs : List Char} {n : Nat} :
    nat? cs = some n ↔ cs ≠ [] ∧ (∀ c ∈ cs, c.isDigit = true) ∧ value cs = n := by
  unfold nat?
  split
  · rename_i h
    simp only [Bool.and_eq_true, Bool.not_eq_true', List.isEmpty_eq_false_iff,
      List.all_eq_true] at h
    rw [Option.some_inj, and_iff_right h.1, and_iff_right h.2]
  · rename_i h
    refine iff_of_false (by rintro ⟨⟩) ?_
    rintro ⟨hne, hd, -⟩
    exact h (by simpa [hne] using hd)

/-- An optional plus and digits, with the number that these denote. -/
def Count (cs : List Char) (n : Nat) : Prop :=
  ∃ ds, (cs = ds ∨ cs = '+' :: ds) ∧ ds ≠ [] ∧ (∀ c ∈ ds, c.isDigit = true) ∧ value ds = n

theorem unsigned?_eq_some_iff {cs : List Char} {n : Nat} : unsigned? cs = some n ↔ Count cs n := by
  unfold unsigned? Count
  split
  · rename_i ds
    rw [nat?_eq_some_iff]
    constructor
    · intro h
      exact ⟨ds, .inr rfl, h⟩
    · rintro ⟨_, rfl | ⟨⟨⟩⟩, hne, hd, hv⟩
      · have hp := hd '+' (List.mem_cons_self ..)
        cases hp
      · exact ⟨hne, hd, hv⟩
  · rename_i hplus
    rw [nat?_eq_some_iff]
    constructor
    · intro h
      exact ⟨cs, .inl rfl, h⟩
    · rintro ⟨ds, rfl | rfl, h⟩
      · exact h
      · exact absurd rfl (hplus ds)

theorem int?_of_isDigit {c : Char} {cs : List Char} (h : c.isDigit = true) :
    int? (c :: cs) = (nat? (c :: cs)).map Int.ofNat := by
  unfold int?
  split <;> simp_all

theorem int?_ofNat (n : Nat) : int? (ofNat n) = some (n : Int) := by
  obtain ⟨c, cs, hc⟩ := List.exists_cons_of_ne_nil (ofNat_ne_nil n)
  have hd : c.isDigit = true := isDigit_of_mem_ofNat (hc ▸ List.mem_cons_self ..)
  rw [hc, int?_of_isDigit hd, ← hc, nat?_ofNat]
  rfl

@[simp] theorem int?_ofInt (z : Int) : int? (ofInt z) = some z := by
  by_cases hz : z < 0
  · have hn : -(z.natAbs : Int) = z := by omega
    rw [ofInt, if_pos hz, int?, nat?_ofNat]
    exact congrArg some hn
  · have hn : (z.natAbs : Int) = z := by omega
    rw [ofInt, if_neg hz, int?_ofNat, hn]

end Digits

namespace Binary64

theorem same_self (x : Finite) : same (.finite x) (.finite x) = true := by simp [same]

theorem same_ofUnits {a b : Bool} {n d : Nat} {x : Finite} (h : ofUnits a n d = .finite x)
    (hs : a = b ∨ x.units = 0) : same (ofUnits b n d) (.finite x) = true := by
  unfold ofUnits at h ⊢
  by_cases hl : roundUnits n d < limit
  · rw [dif_pos hl] at h ⊢
    cases h
    rcases hs with rfl | hs
    · simp [same]
    · have hz : roundUnits n d = 0 := hs
      simp [same, hz]
  · rw [dif_neg hl] at h
    cases h

theorem roundUnits_zero : roundUnits 0 1 = 0 := by
  simpa using roundUnits_mul_self (u := 0) (Nat.dvd_zero _) Nat.one_pos

theorem ofUnsignedText?_of_nat? {negative : Bool} {cs : List Char} {n : Nat}
    (h : Digits.nat? cs = some n) :
    ofUnsignedText? negative cs = some (ofUnits negative (n * one) 1) := by
  obtain ⟨hne, hd, rfl⟩ := Digits.nat?_eq_some_iff.1 h
  rw [ofUnsignedText?, ofText?_digits hd hne]
  simp [Numeral.toBinary64_point, ofDecimal]

theorem ofText?_of_int? {cs : List Char} {z : Int} (h : Digits.int? cs = some z) :
    ∃ negative, ofText? cs = some (ofUnits negative (z.natAbs * one) 1) ∧
      (negative = decide (z < 0) ∨ z = 0) := by
  unfold Digits.int? at h
  split at h
  · rename_i ds
    cases hn : Digits.nat? ds with
    | none => simp [hn] at h
    | some n =>
      have hz : -(n : Int) = z := by simpa [hn] using h
      subst hz
      refine ⟨true, ?_, ?_⟩
      · rw [ofText?, ofUnsignedText?_of_nat? hn, Int.natAbs_neg, Int.natAbs_natCast]
      · by_cases hz : n = 0
        · exact .inr (by omega)
        · exact .inl (by simp; omega)
  · rename_i ds
    obtain ⟨n, hn, rfl⟩ := Option.map_eq_some_iff.1 h
    exact ⟨false, ofUnsignedText?_of_nat? hn, .inl (by simp)⟩
  · rename_i hm hp
    obtain ⟨n, hn, rfl⟩ := Option.map_eq_some_iff.1 h
    refine ⟨false, ?_, .inl (by simp)⟩
    rw [ofText?.eq_3 cs hm hp]
    exact ofUnsignedText?_of_nat? hn

/-- A text that is read as an integer and as a finite double is read as equal numbers. -/
theorem same_ofInt_of_ofText? {cs : List Char} {z : Int} {x : Finite}
    (hz : Digits.int? cs = some z) (hx : ofText? cs = some (.finite x)) :
    same (ofInt z) (.finite x) = true := by
  obtain ⟨negative, hn, hs⟩ := ofText?_of_int? hz
  have hu : ofUnits negative (z.natAbs * one) 1 = .finite x := Option.some_inj.1 (hn.symm.trans hx)
  refine same_ofUnits hu (hs.imp_right fun h => ?_)
  subst h
  simp only [Int.natAbs_zero, Nat.zero_mul] at hu
  unfold ofUnits at hu
  split at hu
  · cases hu
    exact roundUnits_zero
  · cases hu

end Binary64

namespace Decimal

theorem isNumeral_of_mem_positional {d : Decimal} {c : Char} (h : c ∈ d.positional) :
    Digits.isNumeral c = true := by
  have hd : ∀ a ∈ Digits.ofNat d.coefficient, a.isDigit = true :=
    fun _ => Digits.isDigit_of_mem_ofNat
  unfold positional at h
  cases he : d.exponent with
  | ofNat x =>
    simp only [he, List.mem_append] at h
    refine Digits.isNumeral_of_isDigit ?_
    exact h.elim (hd c) Binary64.isDigit_of_mem_zeros
  | negSucc x =>
    simp only [he] at h
    split at h
    · rcases List.mem_append.1 h with h | h
      · exact Digits.isNumeral_of_isDigit (hd c (List.mem_of_mem_take h))
      · rcases List.mem_cons.1 h with rfl | h
        · rfl
        · exact Digits.isNumeral_of_isDigit (hd c (List.mem_of_mem_drop h))
    · simp only [List.mem_cons, List.mem_append] at h
      rcases h with rfl | rfl | h | h
      · rfl
      · rfl
      · exact Digits.isNumeral_of_isDigit (Binary64.isDigit_of_mem_zeros h)
      · exact Digits.isNumeral_of_isDigit (hd c h)

end Decimal

namespace Number

variable {n : Number}

theorem toInt?_of_ofInt? {z : Int} (h : ofInt? z = some n) : n.toInt? = some z := by
  unfold ofInt? at h
  split at h
  · rename_i hz
    cases h
    rw [toInt?, Int64.toInt_ofInt_of_le hz.1 hz.2]
  · split at h
    · rename_i hz
      cases h
      have hn : z.toNat < UInt64.size := by
        have : UInt64.size = 2 ^ 64 := rfl
        omega
      rw [toInt?, UInt64.toNat_ofNat_of_lt' hn, Int.toNat_of_nonneg hz.1]
    · cases h

theorem exists_ofInt?_of_toInt? {z : Int} (h : n.toInt? = some z) : ∃ m, ofInt? z = some m := by
  have hz : -2 ^ 63 ≤ z ∧ z < 2 ^ 64 := by
    cases n with
    | int i =>
      cases h
      have h1 := i.le_toInt
      have h2 := i.toInt_lt
      omega
    | uint i =>
      cases h
      have h1 := i.toNat_lt
      omega
    | float x => cases h
  unfold ofInt?
  split
  · exact ⟨_, rfl⟩
  · rw [if_pos (by omega)]
    exact ⟨_, rfl⟩

theorem isNumeral_of_mem_text (h : n.isFinite = true) {c : Char} (hc : c ∈ n.text.toList) :
    Digits.isNumeral c = true := by
  cases n with
  | int i => exact Digits.isNumeral_of_mem_ofInt (by simpa [text] using hc)
  | uint i =>
    exact Digits.isNumeral_of_isDigit (Digits.isDigit_of_mem_ofNat (by simpa [text] using hc))
  | float x =>
    cases x with
    | nan => cases h
    | infinity negative => cases h
    | finite x =>
      simp only [text, Binary64.text, Binary64.signed, String.toList_ofList] at hc
      split at hc
      · rcases List.mem_cons.1 hc with rfl | hc
        · rfl
        · exact Decimal.isNumeral_of_mem_positional hc
      · exact Decimal.isNumeral_of_mem_positional hc

theorem trim_text (h : n.isFinite = true) : Text.trim n.text.toList = n.text.toList :=
  Text.trim_of_not_blank fun _ hc => Digits.not_isBlank_of_isNumeral (isNumeral_of_mem_text h hc)

theorem isFinite_of_toInt? {z : Int} (h : n.toInt? = some z) : n.isFinite = true := by
  cases n with
  | float x => cases h
  | _ => rfl

theorem toBinary64_of_toInt? {z : Int} (h : n.toInt? = some z) : n.toBinary64 = .ofInt z := by
  cases n <;> cases h <;> rfl

theorem int?_text {z : Int} (h : n.toInt? = some z) : Digits.int? n.text.toList = some z := by
  cases n with
  | int i =>
    cases h
    rw [text, String.toList_ofList, Digits.int?_ofInt]
  | uint i =>
    cases h
    rw [text, String.toList_ofList, Digits.int?_ofNat]
  | float x => cases h

theorem same_of_toInt? {a b : Number} {z : Int} (ha : a.toInt? = some z) (hb : b.toInt? = some z) :
    (a == b) = true := by
  have hs : same a b = true := by simp [same, ha, hb]
  exact hs

theorem eq_float_of_toInt? (h : n.isFinite = true) (hn : n.toInt? = none) :
    ∃ x, n = .float (.finite x) := by
  cases n with
  | float x =>
    cases x with
    | finite x => exact ⟨x, rfl⟩
    | _ => cases h
  | _ => cases hn

/-- The text of a finite number is read as an equal number. -/
theorem ofText?_text (h : n.isFinite = true) : ∃ m, ofText? n.text = some m ∧ (m == n) = true := by
  have ht := trim_text h
  have hx : ∀ x, Binary64.ofText? (text (.float (.finite x))).toList = some (.finite x) := by
    intro x
    rw [text, String.toList_ofList, Binary64.ofText?_text]
  cases hi : (Digits.int? n.text.toList).bind ofInt? with
  | some m =>
    refine ⟨m, by simp only [ofText?, ht, hi], ?_⟩
    obtain ⟨z, hz, hm⟩ := Option.bind_eq_some_iff.1 hi
    have hmz := toInt?_of_ofInt? hm
    cases hn : n.toInt? with
    | some y =>
      have hy : y = z := Option.some_inj.1 ((int?_text hn).symm.trans hz)
      exact same_of_toInt? hmz (hy ▸ hn)
    | none =>
      obtain ⟨x, rfl⟩ := eq_float_of_toInt? h hn
      have hs : same m (.float (.finite x)) = true := by
        simp only [same, hmz, hn, toBinary64_of_toInt? hmz]
        exact Binary64.same_ofInt_of_ofText? hz (hx x)
      exact hs
  | none =>
    cases hn : n.toInt? with
    | some z =>
      obtain ⟨m, hm⟩ := exists_ofInt?_of_toInt? hn
      simp [int?_text hn, hm] at hi
    | none =>
      obtain ⟨x, rfl⟩ := eq_float_of_toInt? h hn
      refine ⟨.float (.finite x), ?_, Binary64.same_self x⟩
      simp only [ofText?, ht, hi, hx]
      rfl

theorem isFinite_of_ofText? {s : String} (h : ofText? s = some n) : n.isFinite = true := by
  simp only [ofText?] at h
  split at h
  · rename_i m hi
    cases h
    obtain ⟨z, -, hm⟩ := Option.bind_eq_some_iff.1 hi
    exact isFinite_of_toInt? (toInt?_of_ofInt? hm)
  · obtain ⟨x, -, hx⟩ := Option.bind_eq_some_iff.1 h
    unfold ofBinary64? at hx
    split at hx
    · cases hx
      assumption
    · cases hx

theorem beq_self (h : n.isFinite = true) : (n == n) = true := by
  cases hn : n.toInt? with
  | some z => exact same_of_toInt? hn hn
  | none =>
    obtain ⟨x, rfl⟩ := eq_float_of_toInt? h hn
    exact Binary64.same_self x

end Number
end ItemStore
