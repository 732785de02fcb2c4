import ItemStore.Proofs.Binary64.Exponent
import ItemStore.Proofs.Codec.Response
import ItemStore.Proofs.Number.Integer

/-!
Numbers in responses. A number may stand there as itself or as its JSON text, and it is decoded as
the same number. The text of a float has a point or an exponent, so it is not taken for an integer,
even if the float is whole.
-/
namespace ItemStore

attribute [local instance (high)] instPowNat

namespace Decimal

theorem point_mem_positional {d : Decimal} (h : d.exponent < 0) : '.' ∈ d.positional := by
  obtain ⟨x, hx⟩ := Int.eq_negSucc_of_lt_zero h
  unfold positional
  rw [hx]
  dsimp only
  split <;> simp

theorem point_or_exponent_mem_floatText (d : Decimal) :
    '.' ∈ Json.floatText d ∨ 'e' ∈ Json.floatText d := by
  unfold Json.floatText
  split
  · refine .inl ?_
    split
    · simp
    · rename_i h
      rw [List.append_nil]
      exact point_mem_positional (Int.not_le.1 h)
  · exact .inr (by simp [scientific])

theorem not_isBlank_of_mem_scientific {d : Decimal} {c : Char} (h : c ∈ d.scientific) :
    Text.isBlank c = false := by
  have hd : ∀ {n : Nat}, c ∈ Digits.ofNat n → Text.isBlank c = false := fun hc =>
    Digits.not_isBlank_of_isNumeral (Digits.isNumeral_of_isDigit (Digits.isDigit_of_mem_ofNat hc))
  simp only [scientific, List.mem_append, List.mem_cons] at h
  rcases h with (h | h) | rfl | rfl | h
  · exact hd (List.mem_of_mem_take h)
  · split at h
    · cases h
    · rcases List.mem_cons.1 h with rfl | h
      · rfl
      · exact hd (List.mem_of_mem_tail h)
  · rfl
  · split <;> rfl
  · exact hd h

theorem not_isBlank_of_mem_floatText {d : Decimal} {c : Char} (h : c ∈ Json.floatText d) :
    Text.isBlank c = false := by
  unfold Json.floatText at h
  split at h
  · rcases List.mem_append.1 h with h | h
    · exact Digits.not_isBlank_of_isNumeral (isNumeral_of_mem_positional h)
    · split at h
      · have hb : ∀ a ∈ ['.', '0'], Text.isBlank a = false :=
          List.forall_mem_cons.2 ⟨rfl, List.forall_mem_singleton.2 rfl⟩
        exact hb c h
      · cases h
  · exact not_isBlank_of_mem_scientific h

end Decimal

namespace Number

theorem ofInt?_eq_ofJson {z : Int} (h : -2 ^ (63 : Nat) ≤ z ∧ z < 2 ^ (64 : Nat)) :
    ofInt? z = some (ofJson (.integer z h)) := ofInt?_of_bounds h.1 h.2

theorem trim_jsonText (n : Json.Number) : Text.trim n.text = n.text := by
  refine Text.trim_of_not_blank fun c hc => ?_
  cases n with
  | integer z h => exact Digits.not_isBlank_of_isNumeral (Digits.isNumeral_of_mem_ofInt hc)
  | float x =>
    rw [Json.Number.text, Binary64.signed] at hc
    split at hc
    · rcases List.mem_cons.1 hc with rfl | hc
      · rfl
      · exact Decimal.not_isBlank_of_mem_floatText hc
    · exact Decimal.not_isBlank_of_mem_floatText hc

theorem int?_jsonText_float (x : Binary64.Finite) :
    Digits.int? (Json.Number.text (.float x)) = none := by
  have hm : ∀ c ∈ Json.floatText (Binary64.shortest .even x.units),
      c ∈ Json.Number.text (.float x) := by
    intro c hc
    rw [Json.Number.text, Binary64.signed]
    split
    · exact List.mem_cons_of_mem _ hc
    · exact hc
  refine Option.eq_none_iff_forall_ne_some.2 fun z hz => ?_
  rcases Decimal.point_or_exponent_mem_floatText (Binary64.shortest .even x.units) with hc | hc
  · exact absurd (Digits.isDigit_or_sign_of_mem hz (hm _ hc)) (by decide)
  · exact absurd (Digits.isDigit_or_sign_of_mem hz (hm _ hc)) (by decide)

/-- The JSON text of a number is read as what the number is read as. -/
theorem ofText?_compact (n : Json.Number) : ofText? (Json.number n).compact = some (ofJson n) := by
  have ht : (Json.number n).compact.toList = n.text := String.toList_ofList
  unfold ofText?
  dsimp only
  rw [ht, trim_jsonText]
  cases n with
  | integer z h => rw [Json.Number.text, Digits.int?_ofInt, Option.bind_some, ofInt?_eq_ofJson h]
  | float x =>
    rw [int?_jsonText_float, Option.bind_none]
    dsimp only
    rw [Binary64.ofText?_jsonText]
    rfl

theorem isFinite_ofJson (n : Json.Number) : (ofJson n).isFinite = true := by
  cases n with
  | integer z h =>
    unfold ofJson
    dsimp only
    split <;> rfl
  | float x => rfl

end Number

namespace Response

theorem numberOf_text (n : Json.Number) :
    numberOf (.string (Json.number n).compact) = .ok (.ofJson n) := by
  rw [numberOf, Number.ofLiteral, Number.ofText?_compact]

theorem mapM_numberOf {f : Json.Number → Json} (hf : ∀ n, numberOf (f n) = .ok (.ofJson n))
    (ns : List Json.Number) : (ns.map f).mapM numberOf = .ok (ns.map Number.ofJson) := by
  rw [mapM_eq_ok_iff, List.forall₂_map_left_iff, List.forall₂_map_right_iff, List.forall₂_same]
  exact fun n _ => hf n

theorem decode_number {v : Json} {n : Number} (h : numberOf v = .ok n) :
    decode (.entry "N" v) = .ok (.number n) := by
  show (do return Value.number (← numberOf v)) = _
  rw [h]
  rfl

theorem decode_numbers {vs : List Json} {ns : List Number} (h : vs.mapM numberOf = .ok ns) :
    decode (.entry "NS" (.array vs)) = .ok (.numbers ns) := by
  show (do return Value.numbers (← vs.mapM numberOf)) = _
  rw [h]
  rfl

theorem numbers_beq_self {ns : List Number} (h : ∀ n ∈ ns, n.isFinite = true) :
    (Value.numbers ns == Value.numbers ns) = true := by
  have hb : (ns == ns) = true := by
    induction ns with
    | nil => rfl
    | cons n ns ih =>
      obtain ⟨hn, hns⟩ := List.forall_mem_cons.1 h
      exact Bool.and_eq_true_iff.2 ⟨Number.beq_self hn, ih hns⟩
  exact hb

/-- Numbers and their JSON texts are decoded as equal values, in a set and alone. -/
theorem decode_numbers_and_texts :
    (∀ ns : List Json.Number,
      decode (.entry "NS" (.array (ns.map .number))) = .ok (.numbers (ns.map .ofJson)) ∧
      decode (.entry "NS" (.strings (ns.map fun n => (Json.number n).compact))) =
        .ok (.numbers (ns.map .ofJson)) ∧
      (Value.numbers (ns.map .ofJson) == .numbers (ns.map .ofJson)) = true) ∧
    ∀ n : Json.Number, decode (.entry "N" (.number n)) = .ok (.number (.ofJson n)) ∧
      decode (.entry "N" (.string (Json.number n).compact)) = .ok (.number (.ofJson n)) ∧
      (Value.number (.ofJson n) == .number (.ofJson n)) = true := by
  constructor
  · intro ns
    have hf : ∀ n ∈ ns.map Number.ofJson, n.isFinite = true :=
      List.forall_mem_map.2 fun n _ => Number.isFinite_ofJson n
    refine ⟨decode_numbers (mapM_numberOf (fun _ => rfl) ns), ?_, numbers_beq_self hf⟩
    rw [Json.strings, List.map_map]
    exact decode_numbers (mapM_numberOf numberOf_text ns)
  · intro n
    exact ⟨decode_number rfl, decode_number (numberOf_text n),
      Number.beq_self (Number.isFinite_ofJson n)⟩

end Response
end ItemStore
