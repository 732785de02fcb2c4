import Mathlib.Data.List.TakeWhile
import ItemStore.Proofs.Binary64.Overflow
import ItemStore.Proofs.Number

/-!
Numeric literals as data, with the number that each of them denotes. Of the texts that travel as
numbers these are the ones that an application wrote, and not all of them are read as numbers again.
-/
namespace ItemStore

attribute [local instance (high)] instPowNat

/-- An optional minus, digits, and then optionally a point and more digits. -/
structure NumericLiteral where
  negative : Bool
  whole : List Char
  fraction? : Option (List Char)
  whole_ne_nil : whole ≠ []
  isDigit_of_mem_whole : ∀ c ∈ whole, c.isDigit = true
  isDigit_of_mem_fraction : ∀ ds ∈ fraction?, ∀ c ∈ ds, c.isDigit = true

namespace NumericLiteral

variable (l : NumericLiteral)

def fraction : List Char := l.fraction?.getD []

def unsigned : List Char :=
  match l.fraction? with
  | none => l.whole
  | some ds => l.whole ++ '.' :: ds

def chars : List Char := if l.negative then '-' :: l.unsigned else l.unsigned

/-- All digits as one number; as many of them are decimals as the fraction has. -/
def coefficient : Nat := Digits.value (l.whole ++ l.fraction)

/-- The literal is a number that is rounded to infinity, whatever its sign. -/
def Overflows : Prop := Binary64.overflow * 10 ^ l.fraction.length ≤ l.coefficient

theorem exists_unsigned_eq_cons : ∃ c cs, l.unsigned = c :: cs ∧ c.isDigit = true := by
  obtain ⟨c, cs, hc⟩ := List.exists_cons_of_ne_nil l.whole_ne_nil
  have hd := l.isDigit_of_mem_whole c (hc ▸ List.mem_cons_self ..)
  unfold unsigned
  rw [hc]
  cases l.fraction? with
  | none => exact ⟨c, cs, rfl, hd⟩
  | some ds => exact ⟨c, _, rfl, hd⟩

theorem isNumeral_of_mem_chars {c : Char} (h : c ∈ l.chars) : Digits.isNumeral c = true := by
  have hu : ∀ c ∈ l.unsigned, Digits.isNumeral c = true := by
    intro c hc
    unfold unsigned at hc
    cases hf : l.fraction? with
    | none =>
      rw [hf] at hc
      exact Digits.isNumeral_of_isDigit (l.isDigit_of_mem_whole c hc)
    | some ds =>
      simp only [hf, List.mem_append, List.mem_cons] at hc
      rcases hc with hc | rfl | hc
      · exact Digits.isNumeral_of_isDigit (l.isDigit_of_mem_whole c hc)
      · rfl
      · exact Digits.isNumeral_of_isDigit (l.isDigit_of_mem_fraction ds hf c hc)
  unfold chars at h
  split at h
  · rcases List.mem_cons.1 h with rfl | h
    · rfl
    · exact hu c h
  · exact hu c h

theorem trim_chars : Text.trim l.chars = l.chars :=
  Text.trim_of_not_blank fun _ hc => Digits.not_isBlank_of_isNumeral (l.isNumeral_of_mem_chars hc)

theorem numeral_ofText?_unsigned :
    Binary64.Numeral.ofText? l.unsigned = some ⟨l.whole, l.fraction, 0⟩ := by
  unfold unsigned fraction
  cases hf : l.fraction? with
  | none => exact Binary64.ofText?_digits l.isDigit_of_mem_whole l.whole_ne_nil
  | some ds =>
    exact Binary64.ofText?_point l.isDigit_of_mem_whole (l.isDigit_of_mem_fraction ds hf)
      l.whole_ne_nil

theorem ofText?_chars : Binary64.ofText? l.chars =
    some (.ofUnits l.negative (l.coefficient * Binary64.one) (10 ^ l.fraction.length)) := by
  have hu : ∀ negative, Binary64.ofUnsignedText? negative l.unsigned =
      some (.ofUnits negative (l.coefficient * Binary64.one) (10 ^ l.fraction.length)) := by
    intro negative
    rw [Binary64.ofUnsignedText?, numeral_ofText?_unsigned]
    simp [Binary64.Numeral.toBinary64_point, Binary64.ofDecimal, coefficient]
  unfold chars
  cases l.negative with
  | true => exact hu true
  | false =>
    obtain ⟨c, cs, hc, hd⟩ := l.exists_unsigned_eq_cons
    rw [if_neg Bool.false_ne_true, ← hu false, hc, Binary64.ofText?_of_isDigit hd]

theorem isUnsignedLiteral_unsigned : isUnsignedLiteral l.unsigned = true := by
  unfold unsigned
  cases hf : l.fraction? with
  | none =>
    have h := Binary64.takeWhile_isDigit [] l.isDigit_of_mem_whole rfl
    rw [List.append_nil] at h
    simp [isUnsignedLiteral, h.1, h.2, l.whole_ne_nil]
  | some ds =>
    have h := Binary64.takeWhile_isDigit ('.' :: ds) l.isDigit_of_mem_whole rfl
    simpa [isUnsignedLiteral, h.1, h.2, l.whole_ne_nil] using l.isDigit_of_mem_fraction ds hf

theorem isDigit_of_mem_decimals {c : Char} (h : c ∈ l.fraction) : c.isDigit = true := by
  unfold fraction at h
  cases hf : l.fraction? with
  | none =>
    rw [hf] at h
    cases h
  | some ds =>
    rw [hf] at h
    exact l.isDigit_of_mem_fraction ds hf c h

theorem unsigned_split : l.unsigned.takeWhile (· != '.') = l.whole ∧
    (l.unsigned.dropWhile (· != '.')).tail = l.fraction := by
  have hp : ∀ c ∈ l.whole, (c != '.') = true := by
    intro c hc
    refine bne_iff_ne.2 ?_
    rintro rfl
    cases l.isDigit_of_mem_whole _ hc
  unfold unsigned fraction
  cases l.fraction? with
  | none =>
    dsimp only
    rw [List.takeWhile_eq_self_iff.2 hp, List.dropWhile_eq_nil_iff.2 hp]
    exact ⟨rfl, rfl⟩
  | some ds =>
    dsimp only
    rw [List.takeWhile_append_of_pos hp, List.dropWhile_append_of_pos hp]
    exact ⟨List.append_nil _, rfl⟩

theorem exists_unsigned_eq {cs : List Char} (h : isUnsignedLiteral cs = true) (negative : Bool) :
    ∃ l : NumericLiteral, l.negative = negative ∧ l.unsigned = cs := by
  have hw : ∀ c ∈ cs.takeWhile Char.isDigit, c.isDigit = true :=
    List.all_eq_true.1 List.all_takeWhile
  have hcs := List.takeWhile_append_dropWhile (p := Char.isDigit) (l := cs)
  simp only [isUnsignedLiteral, Bool.and_eq_true, Bool.or_eq_true, Bool.not_eq_true',
    List.isEmpty_eq_false_iff, beq_iff_eq] at h
  obtain ⟨hne, h⟩ := h
  cases hr : cs.dropWhile Char.isDigit with
  | nil =>
    rw [hr, List.append_nil] at hcs
    exact ⟨⟨negative, _, none, hne, hw, by simp⟩, rfl, hcs⟩
  | cons c ds =>
    rw [hr] at h hcs
    simp only [List.isEmpty_cons, Bool.false_eq_true, List.head?_cons, Option.some.injEq,
      List.tail_cons, List.all_eq_true, false_or] at h
    obtain ⟨rfl, hd⟩ := h
    exact ⟨⟨negative, _, some ds, hne, hw, by simpa using hd⟩, rfl, hcs⟩

end NumericLiteral

/-- The texts that count as numeric literals are the texts of literals. -/
theorem isNumericLiteral_iff {s : String} :
    isNumericLiteral s = true ↔ ∃ l : NumericLiteral, s.toList = l.chars := by
  constructor
  · intro h
    unfold isNumericLiteral at h
    split at h
    · rename_i cs hs
      obtain ⟨l, hn, rfl⟩ := NumericLiteral.exists_unsigned_eq h true
      exact ⟨l, by rw [hs, NumericLiteral.chars, if_pos hn]⟩
    · obtain ⟨l, hn, hu⟩ := NumericLiteral.exists_unsigned_eq h false
      exact ⟨l, by rw [NumericLiteral.chars, hn, if_neg Bool.false_ne_true, hu]⟩
  · rintro ⟨l, hl⟩
    have hu := l.isUnsignedLiteral_unsigned
    unfold isNumericLiteral
    rw [hl, NumericLiteral.chars]
    cases l.negative with
    | true => exact hu
    | false =>
      obtain ⟨c, cs, hc, hd⟩ := l.exists_unsigned_eq_cons
      rw [if_neg Bool.false_ne_true]
      split
      · rename_i ds hds
        rw [hc] at hds
        obtain ⟨rfl, -⟩ := List.cons.inj hds
        cases hd
      · exact hu

theorem isUnsignedLiteral_iff_split {cs : List Char} :
    isUnsignedLiteral cs = true ↔
      cs.takeWhile (· != '.') ≠ [] ∧ (∀ c ∈ cs.takeWhile (· != '.'), c.isDigit = true) ∧
        ∀ c ∈ (cs.dropWhile (· != '.')).tail, c.isDigit = true := by
  constructor
  · intro h
    obtain ⟨l, -, rfl⟩ := NumericLiteral.exists_unsigned_eq h false
    obtain ⟨hw, hf⟩ := l.unsigned_split
    rw [hw, hf]
    exact ⟨l.whole_ne_nil, l.isDigit_of_mem_whole, fun _ => l.isDigit_of_mem_decimals⟩
  · rintro ⟨hne, hw, hf⟩
    have hcs := List.takeWhile_append_dropWhile (p := (· != '.')) (l := cs)
    cases hr : cs.dropWhile (· != '.') with
    | nil =>
      rw [hr, List.append_nil] at hcs
      have hl := NumericLiteral.isUnsignedLiteral_unsigned ⟨false, _, none, hne, hw, by simp⟩
      rwa [← hcs]
    | cons c ds =>
      have hc : c = '.' := by
        have hh := List.head?_dropWhile_not (· != '.') cs
        rw [hr] at hh
        simpa using hh
      rw [hr] at hcs hf
      subst hc
      have hl := NumericLiteral.isUnsignedLiteral_unsigned
        ⟨false, _, some ds, hne, hw, by simpa using hf⟩
      rwa [← hcs]

/-- Behind an optional minus, what stands before the first point is digits, and so is what stands
behind it. -/
theorem isNumericLiteral_iff_split {s : String} :
    isNumericLiteral s = true ↔
      ∃ cs, cs = (if s.toList.head? = some '-' then s.toList.tail else s.toList) ∧
        cs.takeWhile (· != '.') ≠ [] ∧ (∀ c ∈ cs.takeWhile (· != '.'), c.isDigit = true) ∧
        ∀ c ∈ (cs.dropWhile (· != '.')).tail, c.isDigit = true := by
  simp only [exists_eq_left, ← isUnsignedLiteral_iff_split]
  unfold isNumericLiteral
  split
  · rename_i cs hs
    simp [hs]
  · rename_i hs
    rw [if_neg]
    intro hh
    obtain ⟨cs, hc⟩ := List.head?_eq_some_iff.1 hh
    exact hs cs hc

/-! What is written for a number is a literal. -/

namespace NumericLiteral

theorem exists_unsigned_eq_ofNat (negative : Bool) (k : Nat) :
    ∃ l : NumericLiteral, l.negative = negative ∧ l.unsigned = Digits.ofNat k :=
  ⟨⟨negative, _, none, Digits.ofNat_ne_nil k, fun _ => Digits.isDigit_of_mem_ofNat, by simp⟩,
    rfl, rfl⟩

theorem exists_unsigned_eq_positional (negative : Bool) (d : Decimal) :
    ∃ l : NumericLiteral, l.negative = negative ∧ l.unsigned = d.positional := by
  have hd : ∀ c ∈ Digits.ofNat d.coefficient, c.isDigit = true :=
    fun _ => Digits.isDigit_of_mem_ofNat
  have hz : ∀ {k}, ∀ c ∈ List.replicate k '0', c.isDigit = true :=
    fun _ => Binary64.isDigit_of_mem_zeros
  unfold Decimal.positional
  generalize hds : Digits.ofNat d.coefficient = ds at hd
  have hne : ds ≠ [] := hds ▸ Digits.ofNat_ne_nil _
  cases d.exponent with
  | ofNat x =>
    exact ⟨⟨negative, ds ++ List.replicate x '0', none, List.append_ne_nil_of_left_ne_nil hne _,
      List.forall_mem_append.2 ⟨hd, hz⟩, by simp⟩, rfl, rfl⟩
  | negSucc x =>
    dsimp only
    split
    · rename_i hx
      refine ⟨⟨negative, ds.take (ds.length - (x + 1)), some (ds.drop (ds.length - (x + 1))), ?_,
        fun c hc => hd c (List.mem_of_mem_take hc), ?_⟩, rfl, rfl⟩
      · simp only [ne_eq, List.take_eq_nil_iff, hne, or_false]
        omega
      · simpa using fun c hc => hd c (List.mem_of_mem_drop hc)
    · refine ⟨⟨negative, ['0'], some (List.replicate (x + 1 - ds.length) '0' ++ ds),
        List.cons_ne_nil _ _, ?_, ?_⟩, rfl, rfl⟩
      · simp
      · simpa using List.forall_mem_append.2 ⟨hz, hd⟩

end NumericLiteral

theorem Number.isNumericLiteral_text {n : Number} (h : n.isFinite = true) :
    isNumericLiteral n.text = true := by
  have hof : ∀ {negative cs}, (∃ l : NumericLiteral, l.negative = negative ∧ l.unsigned = cs) →
      isNumericLiteral (String.ofList (if negative then '-' :: cs else cs)) = true := by
    rintro _ _ ⟨l, rfl, rfl⟩
    exact isNumericLiteral_iff.2 ⟨l, String.toList_ofList⟩
  cases n with
  | int i =>
    have hi := hof (NumericLiteral.exists_unsigned_eq_ofNat (decide (i.toInt < 0)) i.toInt.natAbs)
    simpa only [text, Digits.ofInt, decide_eq_true_eq] using hi
  | uint i =>
    have hi := hof (NumericLiteral.exists_unsigned_eq_ofNat false i.toNat)
    simpa only [text, if_neg Bool.false_ne_true] using hi
  | float x =>
    cases x with
    | finite x =>
      have hx := hof (NumericLiteral.exists_unsigned_eq_positional x.negative
        (Binary64.shortest .upper x.units))
      simpa only [text, Binary64.text, Binary64.signed] using hx
    | _ => cases h

/-- A text is a numeric literal of a number that is rounded to infinity. -/
def IsOverflowing (s : String) : Prop := ∃ l : NumericLiteral, s.toList = l.chars ∧ l.Overflows

theorem IsOverflowing.isNumericLiteral {s : String} (h : IsOverflowing s) :
    isNumericLiteral s = true := by
  obtain ⟨l, hl, -⟩ := h
  exact isNumericLiteral_iff.2 ⟨l, hl⟩

namespace Binary64

theorem isFinite_ofUnits_iff {negative : Bool} {m d : Nat} (hd : 0 < d) :
    (ofUnits negative (m * one) d).isFinite = true ↔ m < overflow * d := by
  have hone : 0 < one := Nat.two_pow_pos _
  have hm : overflow * one * d = overflow * d * one := Nat.mul_right_comm ..
  rw [← Nat.mul_lt_mul_right hone, ← hm, ← roundUnits_lt_limit_iff hd]
  unfold ofUnits
  split <;> simp [isFinite, *]

end Binary64

namespace Number

theorem lt_overflow_of_ofInt? {z : Int} {n : Number} (h : ofInt? z = some n) :
    z.natAbs < Binary64.overflow := by
  have hz : z.natAbs < 2 ^ (65 : Nat) := by
    unfold ofInt? at h
    split at h
    · omega
    · split at h
      · omega
      · cases h
  exact Nat.lt_of_lt_of_le hz (Binary64.two_pow_le_overflow (by decide))

theorem exists_ofText?_iff_of_chars {s : String} {l : NumericLiteral} (h : s.toList = l.chars) :
    (∃ n, ofText? s = some n) ↔ ¬l.Overflows := by
  have hp : 0 < 10 ^ l.fraction.length := Nat.pow_pos (by decide)
  have hx := l.ofText?_chars
  rw [NumericLiteral.Overflows, Nat.not_le,
    ← @Binary64.isFinite_ofUnits_iff l.negative l.coefficient _ hp]
  generalize Binary64.ofUnits l.negative (l.coefficient * Binary64.one) (10 ^ l.fraction.length) = x
    at hx
  cases hi : (Digits.int? l.chars).bind ofInt? with
  | some n =>
    obtain ⟨z, hz, hn⟩ := Option.bind_eq_some_iff.1 hi
    obtain ⟨negative, hb, -⟩ := Binary64.ofText?_of_int? hz
    have ho := lt_overflow_of_ofInt? hn
    refine iff_of_true ⟨n, ?_⟩ ?_
    · simp only [ofText?, h, l.trim_chars, hi]
    · rwa [Option.some_inj.1 (hx.symm.trans hb), Binary64.isFinite_ofUnits_iff Nat.one_pos,
        Nat.mul_one]
  | none =>
    have ht : ofText? s = ofBinary64? x := by
      unfold ofText?
      dsimp only
      rw [h, l.trim_chars, hi, hx]
      dsimp only
      rw [Option.bind_some]
    rw [ht, ofBinary64?]
    split <;> simp [*]

/-- A numeric literal is read as a number exactly if it does not overflow. -/
theorem exists_ofText?_iff {s : String} (h : isNumericLiteral s = true) :
    (∃ n, ofText? s = some n) ↔ ¬IsOverflowing s := by
  obtain ⟨l, hl⟩ := isNumericLiteral_iff.1 h
  constructor
  · rintro hn ⟨l', hl', ho⟩
    exact (exists_ofText?_iff_of_chars hl').1 hn ho
  · intro ho
    exact (exists_ofText?_iff_of_chars hl).2 fun hl' => ho ⟨l, hl, hl'⟩

end Number

def powerOfTen (k : Nat) : String := String.ofList ('1' :: List.replicate k '0')

theorem isOverflowing_powerOfTen {k : Nat} (h : 309 ≤ k) : IsOverflowing (powerOfTen k) := by
  have hd : ∀ c ∈ '1' :: List.replicate k '0', c.isDigit = true := by
    intro c hc
    rcases List.mem_cons.1 hc with rfl | hc
    · rfl
    · exact Binary64.isDigit_of_mem_zeros hc
  have hv : Digits.value ('1' :: List.replicate k '0') = 10 ^ k := by
    rw [← List.singleton_append, Digits.value_append_zeros]
    exact Nat.one_mul _
  refine ⟨⟨false, _, none, List.cons_ne_nil _ _, hd, by simp⟩, String.toList_ofList, ?_⟩
  show Binary64.overflow * 10 ^ 0 ≤ Digits.value (_ ++ [])
  rw [List.append_nil, hv, Nat.pow_zero, Nat.mul_one]
  exact Binary64.overflow_le_ten_pow h
end ItemStore
