/-! Decimal digits: how a natural number is written, and the number that a row of digits denotes. -/
namespace ItemStore.Digits

attribute [local instance (high)] instPowNat

def char (d : Nat) : Char := Char.ofNat (48 + d)

def digit (c : Char) : Nat := c.toNat - 48

def ofNat (n : Nat) : List Char :=
  if n < 10 then [char n] else ofNat (n / 10) ++ [char (n % 10)]

def count (n : Nat) : Nat := if n < 10 then 1 else count (n / 10) + 1

/-- The number that a row of digits denotes; leading zeros do not matter. -/
def value (ds : List Char) : Nat := ds.foldl (fun n c => 10 * n + digit c) 0

def ofInt (z : Int) : List Char :=
  if z < 0 then '-' :: ofNat z.natAbs else ofNat z.natAbs

/-- The number that one or more digits denote. -/
def nat? (cs : List Char) : Option Nat :=
  if !cs.isEmpty && cs.all Char.isDigit then some (value cs) else none

def unsigned? : List Char → Option Nat
  | '+' :: cs => nat? cs
  | cs => nat? cs

def int? : List Char → Option Int
  | '-' :: cs => (nat? cs).map fun n => -n
  | '+' :: cs => (nat? cs).map Int.ofNat
  | cs => (nat? cs).map Int.ofNat

theorem char_toNat {d : Nat} (h : d < 10) : (char d).toNat = 48 + d := by
  have : ∀ e < 10, (char e).toNat = 48 + e := by decide
  exact this d h

@[simp] theorem digit_char {d : Nat} (h : d < 10) : digit (char d) = d := by
  simp [digit, char_toNat h]

theorem isDigit_char {d : Nat} (h : d < 10) : (char d).isDigit = true := by
  have : ∀ e < 10, (char e).isDigit = true := by decide
  exact this d h

theorem isDigit_of_mem_ofNat {n : Nat} {c : Char} (h : c ∈ ofNat n) : c.isDigit = true := by
  fun_induction ofNat n with
  | case1 n hn => simp only [List.mem_singleton] at h; exact h ▸ isDigit_char hn
  | case2 n _ ih =>
    rcases List.mem_append.1 h with h | h
    · exact ih h
    · simp only [List.mem_singleton] at h; exact h ▸ isDigit_char (Nat.mod_lt _ (by decide))

@[simp] theorem length_ofNat (n : Nat) : (ofNat n).length = count n := by
  fun_induction ofNat n with
  | case1 n hn => simp [count, hn]
  | case2 n hn ih => rw [count, if_neg hn, List.length_append, ih]; rfl

theorem ofNat_ne_nil (n : Nat) : ofNat n ≠ [] := by
  unfold ofNat; split <;> simp

theorem value_append (ds es : List Char) :
    value (ds ++ es) = es.foldl (fun n c => 10 * n + digit c) (value ds) := by
  simp [value]

@[simp] theorem value_ofNat (n : Nat) : value (ofNat n) = n := by
  fun_induction ofNat n with
  | case1 n hn => simp [value, digit_char hn]
  | case2 n _ ih =>
    rw [value_append, ih]
    simp only [List.foldl_cons, List.foldl_nil, digit_char (Nat.mod_lt n (by decide : 0 < 10))]
    omega

theorem value_zeros_append (k : Nat) (ds : List Char) :
    value (List.replicate k '0' ++ ds) = value ds := by
  induction k with
  | zero => rfl
  | succ k ih => rw [← ih]; rfl

theorem value_append_zeros (ds : List Char) (k : Nat) :
    value (ds ++ List.replicate k '0') = value ds * 10 ^ k := by
  induction k with
  | zero => simp
  | succ k ih =>
    rw [List.replicate_succ', ← List.append_assoc, value_append, ih, Nat.pow_succ]
    simp only [List.foldl_cons, List.foldl_nil]
    rw [show digit '0' = 0 from rfl, Nat.add_zero, Nat.mul_comm 10, Nat.mul_assoc]

@[simp] theorem nat?_ofNat (n : Nat) : nat? (ofNat n) = some n := by
  have hne : (ofNat n).isEmpty = false := by simp [ofNat_ne_nil]
  have hall : (ofNat n).all Char.isDigit = true :=
    List.all_eq_true.2 fun _ => isDigit_of_mem_ofNat
  simp [nat?, hne, hall]

end ItemStore.Digits
