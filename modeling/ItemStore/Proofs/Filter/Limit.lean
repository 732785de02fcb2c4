import ItemStore.Proofs.Binary64.Equality
import ItemStore.Proofs.Filter.Grammar
import ItemStore.Proofs.Number.Width

/-!
The limit on the rows of a page. It is the integer that the document gives, as a number or as a
text. Zero as a number asks for all rows, but zero as a text asks for none. What is no such integer
is refused, before anything else in the document is looked at.
-/
namespace ItemStore

attribute [local instance (high)] instPowNat

namespace Query

/-- The integer that a document gives: as a number that is whole, or as a text of digits with white
space around them. -/
inductive Denotes : Json → Int → Prop
  | integer {z : Int} {inRange : -2 ^ (63 : Nat) ≤ z ∧ z < 2 ^ (64 : Nat)} :
    Denotes (.number (.integer z inRange)) z
  | float {x : Binary64.Finite} {z : Int} (h : x.IsInt z) : Denotes (.number (.float x)) z
  | text {s : String} {n : Nat} (h : Digits.Count (Text.trim s.toList) n) : Denotes (.string s) n

/-- What asks for all rows. -/
inductive IsUnlimited : Json → Prop
  | null : IsUnlimited .null
  | off : IsUnlimited (.bool false)
  | empty : IsUnlimited (.string "")
  | zero {n : Json.Number} (h : Denotes (.number n) 0) : IsUnlimited (.number n)

/-- What may not be given as a limit. -/
inductive IsRefused : Json → Prop
  | negative {v : Json} {z : Int} (h : Denotes v z) (hz : z < 0) : IsRefused v
  | tooLarge {v : Json} {z : Int} (h : Denotes v z) (hz : 2 ^ (64 : Nat) ≤ z) : IsRefused v
  | fraction {x : Binary64.Finite} (h : ∀ z, ¬x.IsInt z) : IsRefused (.number (.float x))
  | text {s : String} (hs : s ≠ "") (h : ∀ z, ¬Denotes (.string s) z) : IsRefused (.string s)
  | on : IsRefused (.bool true)
  | array {items : List Json} : IsRefused (.array items)
  | object {members : List (String × Json)} : IsRefused (.object members)

theorem denotes_iff_number? {v : Json} {z : Int} : Denotes v z ↔ number? v = some z := by
  constructor
  · intro h
    cases h with
    | integer => rfl
    | float h => exact Binary64.Finite.toInt?_eq_some_iff_isInt.2 h
    | text h =>
      rw [number?, Digits.unsigned?_eq_some_iff.2 h]
      rfl
  · intro h
    cases v with
    | number n =>
      cases n with
      | integer n _ =>
        cases h
        exact .integer
      | float x => exact .float (Binary64.Finite.toInt?_eq_some_iff_isInt.1 h)
    | string s =>
      obtain ⟨n, hn, rfl⟩ := Option.map_eq_some_iff.1 h
      exact .text (Digits.unsigned?_eq_some_iff.1 hn)
    | _ => cases h

theorem denotes_number_iff {n : Json.Number} {z : Int} :
    Denotes (.number n) z ↔ n.toInt? = some z := denotes_iff_number?

theorem isTruthy_eq_false_iff {v : Json} : v.isTruthy = false ↔ IsUnlimited v := by
  constructor
  · intro h
    cases v with
    | null => exact .null
    | bool b =>
      cases h
      exact .off
    | number n => exact .zero (denotes_number_iff.2 (Json.isTruthy_number_eq_false_iff.1 h))
    | string s =>
      rw [Json.isTruthy, bne_eq_false_iff_eq] at h
      exact h ▸ .empty
    | array items => cases h
    | object members => cases h
  · intro h
    cases h with
    | zero h => exact Json.isTruthy_number_eq_false_iff.2 (denotes_number_iff.1 h)
    | _ => rfl

/-! What is accepted. -/

theorem exists_toNat_eq {z : Int} (hz : 0 ≤ z ∧ z < 2 ^ (64 : Nat)) :
    ∃ n : UInt64, z = n.toNat := by
  have hs : z.toNat < UInt64.size := by
    have : UInt64.size = 2 ^ 64 := rfl
    omega
  refine ⟨UInt64.ofNat z.toNat, ?_⟩
  rw [UInt64.toNat_ofNat_of_lt' hs, Int.toNat_of_nonneg hz.1]

theorem rows_toNat (n : UInt64) : rows n.toNat = if n = 0 then none else some n := by
  have hz : (n.toNat : Int) = 0 ↔ n = 0 := by
    rw [← UInt64.toNat_inj, UInt64.toNat_zero, Int.natCast_eq_zero]
  simp only [rows, hz, Int.toNat_natCast, UInt64.ofNat_toNat]

theorem isLimit_number_iff {n : Json.Number} {limit : Option UInt64} :
    IsLimit (.number n) limit ↔
      ∃ k : UInt64, Denotes (.number n) k.toNat ∧ limit = if k = 0 then none else some k := by
  constructor
  · intro h
    cases h with
    | number h hz =>
      obtain ⟨k, rfl⟩ := exists_toNat_eq hz
      exact ⟨k, denotes_number_iff.2 h, rows_toNat k⟩
  · rintro ⟨k, h, rfl⟩
    have hk : (0 : Int) ≤ k.toNat ∧ (k.toNat : Int) < 2 ^ (64 : Nat) :=
      ⟨Int.natCast_nonneg _, Int.ofNat_lt.2 k.toNat_lt⟩
    exact rows_toNat k ▸ .number (denotes_number_iff.1 h) hk

theorem isLimit_string_iff {s : String} {limit : Option UInt64} :
    IsLimit (.string s) limit ↔
      s = "" ∧ limit = none ∨ ∃ k : UInt64, Denotes (.string s) k.toNat ∧ limit = some k := by
  constructor
  · intro h
    cases h with
    | empty => exact .inl ⟨rfl, rfl⟩
    | @text _ n h hn =>
      have hk : (UInt64.ofNat n).toNat = n := UInt64.toNat_ofNat_of_lt' hn
      refine .inr ⟨UInt64.ofNat n, ?_, rfl⟩
      rw [hk]
      exact .text (Digits.unsigned?_eq_some_iff.1 h)
  · rintro (⟨rfl, rfl⟩ | ⟨k, hd, rfl⟩)
    · exact .empty
    · obtain ⟨n, h, hk⟩ := Option.map_eq_some_iff.1 (denotes_iff_number?.1 hd)
      rw [Int.ofNat.inj hk] at h
      have hl := IsLimit.text h k.toNat_lt
      rwa [UInt64.ofNat_toNat] at hl

theorem isLimit_none_iff {v : Json} : IsLimit v none ↔ IsUnlimited v := by
  constructor
  · intro h
    cases v with
    | null => exact .null
    | bool b =>
      cases h
      exact .off
    | number n =>
      obtain ⟨k, hk, hn⟩ := isLimit_number_iff.1 h
      split at hn
      · rename_i h0
        subst h0
        exact .zero hk
      · cases hn
    | string s =>
      rcases isLimit_string_iff.1 h with ⟨rfl, -⟩ | ⟨k, -, hn⟩
      · exact .empty
      · cases hn
    | _ => cases h
  · exact fun h => isLimit_none_of_not_isTruthy (isTruthy_eq_false_iff.2 h)

theorem isLimit_some_iff {v : Json} {n : UInt64} :
    IsLimit v (some n) ↔ Denotes v n.toNat ∧ (n = 0 → ∃ s, v = .string s) := by
  cases v with
  | number m =>
    rw [isLimit_number_iff]
    constructor
    · rintro ⟨k, hk, hn⟩
      split at hn
      · cases hn
      · rename_i h0
        cases hn
        exact ⟨hk, fun h => absurd h h0⟩
    · rintro ⟨hd, h0⟩
      refine ⟨n, hd, (if_neg fun h => ?_).symm⟩
      obtain ⟨_, ⟨⟩⟩ := h0 h
  | string s =>
    rw [isLimit_string_iff]
    constructor
    · rintro (⟨-, hn⟩ | ⟨k, hk, hn⟩)
      · cases hn
      · cases hn
        exact ⟨hk, fun _ => ⟨s, rfl⟩⟩
    · rintro ⟨hd, -⟩
      exact .inr ⟨n, hd, rfl⟩
  | _ => exact iff_of_false (by rintro ⟨⟩) (by rintro ⟨⟨⟩, -⟩)

/-! What is refused. -/

theorem isRefused_iff_of_denotes {v : Json} {z : Int} (h : Denotes v z) :
    IsRefused v ↔ ¬(0 ≤ z ∧ z < 2 ^ (64 : Nat)) := by
  have hu : ∀ y, Denotes v y → y = z := fun y hy =>
    Option.some_inj.1 ((denotes_iff_number?.1 hy).symm.trans (denotes_iff_number?.1 h))
  constructor
  · intro hr hz
    cases hr with
    | negative hy hneg => exact absurd hz.1 (Int.not_le.2 (hu _ hy ▸ hneg))
    | tooLarge hy hge => exact absurd hz.2 (Int.not_lt.2 (hu _ hy ▸ hge))
    | fraction hx =>
      cases h with
      | float h => exact hx _ h
    | text _ ht => exact ht _ h
    | _ => cases h
  · intro hz
    by_cases hneg : z < 0
    · exact .negative h hneg
    · exact .tooLarge h (Int.not_lt.1 fun hlt => hz ⟨Int.not_lt.1 hneg, hlt⟩)

theorem not_isRefused_of_isUnlimited {v : Json} (h : IsUnlimited v) : ¬IsRefused v := by
  intro hr
  cases h with
  | zero h => exact (isRefused_iff_of_denotes h).1 hr ⟨Int.le_refl 0, Int.pow_pos (by decide)⟩
  | empty =>
    cases hr with
    | negative h _ => cases denotes_iff_number?.1 h
    | tooLarge h _ => cases denotes_iff_number?.1 h
    | text hs _ => exact hs rfl
  | _ =>
    cases hr with
    | negative h _ => cases h
    | tooLarge h _ => cases h

theorem isRefused_of_not_denotes {v : Json} (ht : v.isTruthy = true) (h : ∀ z, ¬Denotes v z) :
    IsRefused v := by
  cases v with
  | null => cases ht
  | bool b =>
    cases ht
    exact .on
  | number n =>
    cases n with
    | integer z _ => exact absurd .integer (h z)
    | float x => exact .fraction fun z hz => h z (.float hz)
  | string s => exact .text (by simpa [Json.isTruthy] using ht) h
  | array items => exact .array
  | object members => exact .object

theorem limitOfJson_eq_error_iff {v : Json} {e : FilterError} :
    limitOfJson v = .error e ↔ IsRefused v ∧ .malformed (.limit v) = e := by
  rw [limitOfJson_eq]
  cases ht : v.isTruthy with
  | false =>
    have hr := not_isRefused_of_isUnlimited (isTruthy_eq_false_iff.1 ht)
    exact iff_of_false (by rintro ⟨⟩) fun h => hr h.1
  | true =>
    rw [Bool.not_true, if_neg Bool.false_ne_true]
    cases hn : number? v with
    | none =>
      have hd : ∀ z, ¬Denotes v z := by
        intro z hz
        cases hn.symm.trans (denotes_iff_number?.1 hz)
      simp [isRefused_of_not_denotes ht hd]
    | some z =>
      have hr := isRefused_iff_of_denotes (denotes_iff_number?.2 hn)
      dsimp only
      by_cases hz : 0 ≤ z ∧ z < 2 ^ (64 : Nat)
      · rw [if_pos hz]
        exact iff_of_false (by rintro ⟨⟩) fun h => hr.1 h.1 hz
      · rw [if_neg hz, Except.error.injEq, and_iff_right (hr.2 hz)]

/-! The bound of 64 bits, where a text is read and where a double is compared. -/

theorem limitOfJson_string {s : String} (hs : s ≠ "") : limitOfJson (.string s) =
    match Digits.unsigned64? (Text.trim s.toList) with
    | some n => .ok (some (UInt64.ofNat n))
    | none => .error (.malformed (.limit (.string s))) := by
  have ht : (Json.string s).isTruthy = true := by simpa [Json.isTruthy] using hs
  rw [limitOfJson_eq, ht, Bool.not_true, if_neg Bool.false_ne_true, number?,
    Digits.unsigned64?_eq_filter]
  cases Digits.unsigned? (Text.trim s.toList) with
  | none => rfl
  | some n =>
    rw [Option.filter_some]
    by_cases hn : n < 2 ^ (64 : Nat)
    · rw [if_pos (decide_eq_true hn)]
      exact if_pos ⟨Int.natCast_nonneg n, Int.ofNat_lt.2 hn⟩
    · rw [if_neg (mt of_decide_eq_true hn)]
      exact if_neg fun h => hn (Int.ofNat_lt.1 h.2)

theorem limitOfJson_float :
    ∃ y : Binary64.Finite, Binary64.ofInt ((2 ^ (64 : Nat) - 1 : Nat) : Int) = .finite y ∧
      ∀ (x : Binary64.Finite) (z : Int), x.toInt? = some z → z ≠ 0 →
        limitOfJson (.number (.float x)) =
          if 0 ≤ z ∧ x.units < y.units then .ok (some (UInt64.ofNat z.toNat))
          else .error (.malformed (.limit (.number (.float x)))) := by
  obtain ⟨y, hy, hlt⟩ := Binary64.exists_ofInt_two_pow_sub_one (e := 64) (by decide) (by decide)
  refine ⟨y, hy, fun x z hx hz => ?_⟩
  have ht : (Json.number (.float x)).isTruthy = true := by
    rw [← Bool.not_eq_false, Json.isTruthy_number_eq_false_iff]
    exact fun h => hz (Option.some_inj.1 (hx.symm.trans h))
  have hn : number? (.number (.float x)) = some z := hx
  have hb : 0 ≤ z ∧ x.units < y.units ↔ 0 ≤ z ∧ z < 2 ^ (64 : Nat) := by
    rw [hlt x z hx]
    omega
  rw [limitOfJson_eq, ht, Bool.not_true, if_neg Bool.false_ne_true, hn]
  simp only [hb]

/-! The limit of a document. -/

theorem limit_eq_iff {members : List (String × Json)} {q : Query}
    (h : ofJson (.object members) = .ok q) {limit : Option UInt64} :
    q.limit = limit ↔ Optionally IsLimit (members.lookup "limit") limit := by
  have hq : Optionally IsLimit (members.lookup "limit") q.limit := by
    cases isQuery_of_ofJson h with
    | intro hl _ _ => exact hl
  constructor
  · intro hl
    rwa [hl] at hq
  · intro hl
    have h1 := (optional_eq_ok_iff fun _ _ => limitOfJson_eq_ok_iff).2 hq
    have h2 := (optional_eq_ok_iff fun _ _ => limitOfJson_eq_ok_iff).2 hl
    exact Except.ok.inj (h1.symm.trans h2)

theorem limit_eq_some_iff {members : List (String × Json)} {q : Query}
    (h : ofJson (.object members) = .ok q) {n : UInt64} :
    q.limit = some n ↔
      ∃ v, members.lookup "limit" = some v ∧ Denotes v n.toNat ∧
        (n = 0 → ∃ s, v = .string s) := by
  rw [limit_eq_iff h]
  cases members.lookup "limit" with
  | none => exact iff_of_false (by rintro ⟨⟩) (by rintro ⟨_, ⟨⟩, -⟩)
  | some v =>
    rw [Optionally, isLimit_some_iff]
    constructor
    · intro hd
      exact ⟨v, rfl, hd⟩
    · rintro ⟨_, ⟨⟩, hd⟩
      exact hd

theorem limit_eq_none_iff {members : List (String × Json)} {q : Query}
    (h : ofJson (.object members) = .ok q) :
    q.limit = none ↔ ∀ v, members.lookup "limit" = some v → IsUnlimited v := by
  rw [limit_eq_iff h]
  cases members.lookup "limit" with
  | none => exact iff_of_true rfl (by rintro _ ⟨⟩)
  | some v =>
    rw [Optionally, isLimit_none_iff]
    constructor
    · rintro hu _ ⟨⟩
      exact hu
    · intro hu
      exact hu v rfl

theorem ofJson_of_isRefused {members : List (String × Json)} {v : Json}
    (hv : members.lookup "limit" = some v) (h : IsRefused v) :
    ofJson (.object members) = .error (.filter (.malformed (.limit v))) := by
  have he : limitOfJson v = .error (.malformed (.limit v)) := limitOfJson_eq_error_iff.2 ⟨h, rfl⟩
  rw [ofJson_object, hv, optional, he]
  rfl

/-- The limit of an accepted document is the integer that it gives, which is zero for a text of zero
only; without a limit, the document gives none or asks for all rows. All else is refused. -/
theorem limit_of_ofJson (members : List (String × Json)) :
    (∀ q, ofJson (.object members) = .ok q →
      (∀ n, q.limit = some n ↔
        ∃ v, members.lookup "limit" = some v ∧ Denotes v n.toNat ∧
          (n = 0 → ∃ s, v = .string s)) ∧
      (q.limit = none ↔ ∀ v, members.lookup "limit" = some v → IsUnlimited v)) ∧
    ∀ v, members.lookup "limit" = some v → IsRefused v →
      ofJson (.object members) = .error (.filter (.malformed (.limit v))) := by
  refine ⟨fun q hq => ⟨fun n => ?_, ?_⟩, fun v hv h => ?_⟩
  · exact limit_eq_some_iff hq
  · exact limit_eq_none_iff hq
  · exact ofJson_of_isRefused hv h

theorem limit_of_ofJson_of_texts :
    (∃ q, ofJson (.object [("limit", .string " +025 ")]) = .ok q ∧ q.limit = some 25) ∧
      ofJson (.object [("limit", .string "18446744073709551616")]) =
        .error (.filter (.malformed (.limit (.string "18446744073709551616")))) := by
  constructor
  · have hd : Denotes (.string " +025 ") 25 := denotes_iff_number?.2 (by decide)
    have hq : ofJson (.object [("limit", .string " +025 ")]) = .ok ⟨[], some 25, none⟩ := by rfl
    refine ⟨_, hq, ?_⟩
    exact (((limit_of_ofJson _).1 _ hq).1 25).2 ⟨_, rfl, hd, fun h => by cases h⟩
  · have hd : Denotes (.string "18446744073709551616") (2 ^ (64 : Nat)) :=
      denotes_iff_number?.2 (by decide)
    exact (limit_of_ofJson _).2 _ rfl (.tooLarge hd (Int.le_refl _))

/-- A text of zero is a limit, and no page has a row then. -/
theorem exists_ofJson_limit_eq_zero :
    ∃ q, ofJson (.object [("limit", .string "0")]) = .ok q ∧ q.limit = some 0 :=
  ⟨⟨[], some 0, none⟩, by rfl, rfl⟩

end Query
end ItemStore
