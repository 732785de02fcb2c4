import ItemStore.Filter.Reader
import ItemStore.Proofs.Number

/-! What a filter document may say about the page of results, and what is read from it. -/
namespace ItemStore

attribute [local instance (high)] instPowNat

namespace Binary64.Finite

theorem units_eq_zero_iff {x : Finite} : x.units = 0 ↔ x.toInt? = some 0 := by
  have hu := Nat.div_add_mod x.units one
  unfold toInt?
  constructor
  · intro h
    simp [h]
  · intro h
    split at h
    · rename_i hm
      have hz : x.units / one = 0 := by
        have := Option.some_inj.1 h
        split at this <;> omega
      rw [← hu, hz, hm, Nat.mul_zero]
    · cases h

end Binary64.Finite

def Json.Number.toInt? : Json.Number → Option Int
  | .integer n _ => some n
  | .float x => x.toInt?

theorem Number.isZero_ofJson_iff {n : Json.Number} :
    (ofJson n).isZero = true ↔ n.toInt? = some 0 := by
  cases n with
  | integer n h =>
    rw [Json.Number.toInt?, Option.some_inj]
    unfold ofJson
    dsimp only
    split
    · rename_i hn
      rw [isZero, beq_iff_eq, ← Int64.toInt_inj, Int64.toInt_ofInt_of_le h.1 hn, Int64.toInt_zero]
    · rename_i hn
      have hs : n.toNat < UInt64.size := by
        have : UInt64.size = 2 ^ 64 := rfl
        omega
      rw [isZero, beq_iff_eq, ← UInt64.toNat_inj, UInt64.toNat_ofNat_of_lt' hs, UInt64.toNat_zero]
      omega
  | float x =>
    rw [ofJson, isZero, Binary64.isZero, beq_iff_eq, x.units_eq_zero_iff, Json.Number.toInt?]

theorem Json.isTruthy_number_eq_false_iff {n : Json.Number} :
    (Json.number n).isTruthy = false ↔ n.toInt? = some 0 := by
  rw [isTruthy, Bool.not_eq_false', Number.isZero_ofJson_iff]

namespace Query

/-- The limit that a number sets; zero sets none. -/
def rows (n : Int) : Option UInt64 := if n = 0 then none else some (UInt64.ofNat n.toNat)

/-- What may be given as a limit, with the limit that it sets. -/
inductive IsLimit : Json → Option UInt64 → Prop
  | null : IsLimit .null none
  | off : IsLimit (.bool false) none
  | empty : IsLimit (.string "") none
  | number {n : Json.Number} {z : Int} (h : n.toInt? = some z) (hz : 0 ≤ z ∧ z < 2 ^ (64 : Nat)) :
    IsLimit (.number n) (rows z)
  | text {s : String} {n : Nat} (h : Digits.unsigned? (Text.trim s.toList) = some n)
    (hn : n < 2 ^ (64 : Nat)) : IsLimit (.string s) (some (UInt64.ofNat n))

inductive IsToken : Json → Option String → Prop
  | null : IsToken .null none
  | empty : IsToken (.string "") none
  | text {s : String} (h : s ≠ "") : IsToken (.string s) (some s)

def number? : Json → Option Int
  | .number n => n.toInt?
  | .string s => (Digits.unsigned? (Text.trim s.toList)).map Int.ofNat
  | _ => none

theorem limitOfJson_eq (v : Json) : limitOfJson v =
    if !v.isTruthy then .ok none else
      match number? v with
      | some n =>
        if 0 ≤ n ∧ n < 2 ^ (64 : Nat) then .ok (some (UInt64.ofNat n.toNat))
        else .error (.malformed (.limit v))
      | none => .error (.malformed (.limit v)) := by
  cases v with
  | number n => cases n <;> rfl
  | _ => rfl

theorem isLimit_none_of_not_isTruthy {v : Json} (h : v.isTruthy = false) : IsLimit v none := by
  cases v with
  | null => exact .null
  | bool b =>
    cases h
    exact .off
  | number n =>
    have hz := Json.isTruthy_number_eq_false_iff.1 h
    exact .number hz ⟨Int.le_refl 0, Int.pow_pos (by decide)⟩
  | string s =>
    rw [Json.isTruthy, bne_eq_false_iff_eq] at h
    exact h ▸ .empty
  | array items => cases h
  | object members => cases h

theorem rows_of_isTruthy {n : Json.Number} {z : Int} (ht : (Json.number n).isTruthy = true)
    (h : n.toInt? = some z) : rows z = some (UInt64.ofNat z.toNat) := by
  refine if_neg fun hz => ?_
  rw [Json.isTruthy_number_eq_false_iff.2 (hz ▸ h)] at ht
  cases ht

theorem isLimit_some_of_isTruthy {v : Json} {z : Int} (ht : v.isTruthy = true)
    (h : number? v = some z) (hz : 0 ≤ z ∧ z < 2 ^ (64 : Nat)) :
    IsLimit v (some (UInt64.ofNat z.toNat)) := by
  cases v with
  | number n => exact rows_of_isTruthy ht h ▸ .number h hz
  | string s =>
    obtain ⟨n, hn, rfl⟩ := Option.map_eq_some_iff.1 h
    exact .text hn (Int.ofNat_lt.1 hz.2)
  | _ => cases h

theorem limitOfJson_eq_ok_iff {v : Json} {limit : Option UInt64} :
    limitOfJson v = .ok limit ↔ IsLimit v limit := by
  rw [limitOfJson_eq]
  constructor
  · intro h
    cases ht : v.isTruthy with
    | false =>
      rw [ht] at h
      cases h
      exact isLimit_none_of_not_isTruthy ht
    | true =>
      rw [ht, Bool.not_true, if_neg Bool.false_ne_true] at h
      split at h
      · rename_i z hn
        split at h
        · rename_i hz
          cases h
          exact isLimit_some_of_isTruthy ht hn hz
        · cases h
      · cases h
  · intro h
    cases h with
    | null => rfl
    | off => rfl
    | empty => rfl
    | @number n z h hz =>
      cases ht : (Json.number n).isTruthy with
      | false =>
        have h0 : z = 0 := Option.some_inj.1 (h.symm.trans (Json.isTruthy_number_eq_false_iff.1 ht))
        rw [h0]
        rfl
      | true =>
        simp only [number?, h, Bool.not_true, if_neg Bool.false_ne_true, if_pos hz,
          rows_of_isTruthy ht h]
    | @text s n h hn =>
      have hs : s ≠ "" := by
        rintro rfl
        cases h
      have hz : (0 : Int) ≤ n ∧ (n : Int) < 2 ^ (64 : Nat) :=
        ⟨Int.natCast_nonneg n, Int.ofNat_lt.2 hn⟩
      rw [if_neg (by simp [Json.isTruthy, hs]), number?, h]
      exact if_pos hz

theorem tokenOfJson_eq_ok_iff {v : Json} {token : Option String} :
    tokenOfJson v = .ok token ↔ IsToken v token := by
  constructor
  · intro h
    unfold tokenOfJson at h
    split at h
    · cases h
      exact .null
    · rename_i s
      split at h
      · rename_i hs
        cases h
        exact hs ▸ .empty
      · rename_i hs
        cases h
        exact .text hs
    · cases h
  · rintro (_ | _ | hs)
    · rfl
    · rfl
    · rw [tokenOfJson, if_neg hs]

end Query
end ItemStore
