import ItemStore.Proofs.Codec.Travel
import ItemStore.Proofs.Number.Equality

/-!
Documents that were read as values and are written again. Nothing is lost: only the order of members
may change, and a whole double below `2^63` is written as the integer that it is. What is read from
the new document is equal to what was read from the old one.
-/
namespace ItemStore

attribute [local instance (high)] instPowNat

open List

namespace Json

/-- A number as it is written again. A double that is an integer of less than `2^63` becomes this
integer, and any other number keeps its form. -/
inductive Number.Rewritten : Number → Number → Prop
  | whole {x : Binary64.Finite} {z : Int} {inRange : -2 ^ (63 : Nat) ≤ z ∧ z < 2 ^ (64 : Nat)}
    (hx : x.IsInt z) (hz : z.natAbs < 2 ^ (63 : Nat)) : Rewritten (.float x) (.integer z inRange)
  | kept {n : Number}
    (h : ∀ x z, n = .float x → Binary64.Finite.IsInt x z → 2 ^ (63 : Nat) ≤ z.natAbs) :
    Rewritten n n

/-- A document as it is written again: up to its numbers it is the same, with its objects' members
in some order. -/
inductive Rewritten : Json → Json → Prop
  | null : Rewritten .null .null
  | bool {b : Bool} : Rewritten (.bool b) (.bool b)
  | number {m n : Number} (h : m.Rewritten n) : Rewritten (.number m) (.number n)
  | string {s : String} : Rewritten (.string s) (.string s)
  | array {vs us : List Json} (items : Forall₂ Rewritten vs us) :
    Rewritten (.array vs) (.array us)
  | object {ms ns ns' : List (String × Json)} (keys : ms.map Prod.fst = ns.map Prod.fst)
    (values : Forall₂ (fun m n => Rewritten m.2 n.2) ms ns) (order : ns.Perm ns') :
    Rewritten (.object ms) (.object ns')

end Json

namespace Number

theorem toInt?_ofJson_integer {z : Int} {h : -2 ^ (63 : Nat) ≤ z ∧ z < 2 ^ (64 : Nat)} :
    (ofJson (.integer z h)).toInt? = some z := by
  unfold ofJson
  dsimp only
  split
  · rename_i hz
    rw [toInt?, Int64.toInt_ofInt_of_le h.1 hz]
  · rename_i hz
    have hs : z.toNat < UInt64.size := by
      have : UInt64.size = 2 ^ 64 := rfl
      omega
    rw [toInt?, UInt64.toNat_ofNat_of_lt' hs, Int.toNat_of_nonneg (by omega)]

theorem toJson_float_of_none {x : Binary64.Finite} (hx : x.toInt? = none) :
    (float (.finite x)).toJson = .number (.float x) := by
  simp only [toJson, hx]

theorem exists_toJson_ofJson (n : Json.Number) :
    ∃ m, (ofJson n).toJson = .number m ∧ n.Rewritten m ∧ (ofJson m == ofJson n) = true := by
  cases n with
  | integer z h =>
    have hz := @toInt?_ofJson_integer z h
    obtain ⟨_, hj⟩ := toJson_of_toInt? hz
    exact ⟨.integer z h, hj, .kept (by rintro _ _ ⟨⟩), same_of_toInt? hz hz⟩
  | float x =>
    have hself : (ofJson (.float x) == ofJson (.float x)) = true := beq_self rfl
    cases hx : x.toInt? with
    | none =>
      have hk : ∀ z, ¬x.IsInt z := by
        intro z hz
        cases hx.symm.trans (Binary64.Finite.toInt?_eq_some_iff_isInt.2 hz)
      refine ⟨.float x, toJson_float_of_none hx, .kept ?_, hself⟩
      rintro _ z ⟨⟩ hz
      exact absurd hz (hk z)
    | some z =>
      have hz := Binary64.Finite.toInt?_eq_some_iff_isInt.1 hx
      by_cases hlt : z.natAbs < 2 ^ (63 : Nat)
      · obtain ⟨hr, hj⟩ := toJson_of_toInt? (toInt?_int_ofInt hlt)
        refine ⟨.integer z hr, (toJson_float_of_lt hx hlt).trans hj, .whole hz hlt, ?_⟩
        rw [beq_iff_of_float (.inr rfl), toBinary64_of_toInt? toInt?_ofJson_integer]
        exact Binary64.same_ofInt_of_isInt hz
      · have hge := Nat.not_lt.1 hlt
        refine ⟨.float x, toJson_float_of_ge hx hge, .kept ?_, hself⟩
        rintro _ y ⟨⟩ hy
        have hyz : y = z := Option.some_inj.1 <|
          (Binary64.Finite.toInt?_eq_some_iff_isInt.2 hy).symm.trans hx
        exact hyz ▸ hge

end Number

namespace Value

/-! Equality, member by member. -/

theorem sameItems_iff {vs ws : List Value} :
    sameItems vs ws = true ↔ Forall₂ (fun v w => (v == w) = true) vs ws := by
  induction vs generalizing ws with
  | nil => cases ws <;> simp [sameItems]
  | cons v vs ih =>
    cases ws with
    | nil => simp [sameItems]
    | cons w ws =>
      rw [sameItems, Bool.and_eq_true, ih, forall₂_cons]
      rfl

theorem sameEntries_iff {es fs : List (String × Value)} :
    sameEntries es fs = true ↔ Entries.Match (fun v w => (v == w) = true) es fs := by
  induction es generalizing fs with
  | nil => cases fs <;> simp [sameEntries]
  | cons e es ih =>
    obtain ⟨k, v⟩ := e
    cases fs with
    | nil => simp [sameEntries]
    | cons f fs =>
      obtain ⟨l, w⟩ := f
      simp only [sameEntries, Bool.and_eq_true, beq_iff_eq, ih, forall₂_cons]
      rfl

theorem ofJson_toJson_ofJson_beq (v : Json) : (ofJson (ofJson v).toJson == ofJson v) = true := by
  induction v with
  | null => rfl
  | bool b => exact beq_self_eq_true b
  | string s => exact beq_self_eq_true s
  | number n =>
    obtain ⟨m, hm, -, hb⟩ := Number.exists_toJson_ofJson n
    rw [ofJson, toJson, hm]
    exact hb
  | array items ih =>
    have hs : Forall₂ (fun v w => (v == w) = true)
        (items.map fun v => ofJson (ofJson v).toJson) (items.map ofJson) :=
      forall₂_map_left_iff.2 (forall₂_map_right_iff.2 (forall₂_same.2 ih))
    rw [ofJson, toJson, ofJson, itemsToJson_eq_map, ofItems_eq_map, ofItems_eq_map, map_map,
      map_map]
    exact sameItems_iff.2 hs
  | object members ih =>
    generalize hes : Entries.ofList (ofMembers members) = es
    have hsorted : Entries.Sorted es := hes ▸ Entries.sorted_ofList _
    have hm : Entries.Match (fun v w => (v == w) = true)
        (es.map fun e => (e.1, ofJson e.2.toJson)) es := by
      refine forall₂_map_left_iff.2 (forall₂_same.2 fun e he => ⟨rfl, ?_⟩)
      rw [← hes, ofMembers_eq_map] at he
      obtain ⟨m, hm, rfl⟩ := mem_map.1 (Entries.mem_of_mem_ofList he)
      exact ih m hm
    have hw : Entries.ofList (ofMembers (entriesToJson es)) =
        es.map fun e => (e.1, ofJson e.2.toJson) := by
      rw [entriesToJson_eq_map, ofMembers_eq_map, map_map]
      exact Entries.ofList_of_sorted (pairwise_map.2 hsorted)
    rw [ofJson, hes, toJson, ofJson, hw]
    exact sameEntries_iff.2 hm

theorem rewritten_toJson_ofJson {v : Json} (h : v.Distinct) : v.Rewritten (ofJson v).toJson := by
  induction v with
  | null => exact .null
  | bool b => exact .bool
  | string s => exact .string
  | number n =>
    obtain ⟨m, hm, hr, -⟩ := Number.exists_toJson_ofJson n
    rw [ofJson, toJson, hm]
    exact .number hr
  | array items ih =>
    have hd := Json.distinct_array.1 h
    have hs : Forall₂ Json.Rewritten items (items.map fun v => (ofJson v).toJson) :=
      forall₂_map_right_iff.2 (forall₂_same.2 fun v hv => ih v hv (hd v hv))
    rw [ofJson, toJson, itemsToJson_eq_map, ofItems_eq_map, map_map]
    exact .array hs
  | object members ih =>
    obtain ⟨hn, hd⟩ := Json.distinct_object.1 h
    have hs : Forall₂ (fun m n => m.2.Rewritten n.2) members
        (members.map fun m => (m.1, (ofJson m.2).toJson)) :=
      forall₂_map_right_iff.2 (forall₂_same.2 fun m hm => ih m hm (hd m hm))
    have hp : (members.map fun m => (m.1, (ofJson m.2).toJson)).Perm
        (entriesToJson (Entries.ofList (ofMembers members))) := by
      have hk : ((ofMembers members).map Prod.fst).Nodup := by
        rw [ofMembers_eq_map, map_map]
        exact hn
      have ho := ((Entries.ofList_perm hk).map fun e => (e.1, e.2.toJson)).symm
      rw [ofMembers_eq_map, map_map] at ho
      rw [entriesToJson_eq_map, ofMembers_eq_map]
      exact ho
    rw [ofJson, toJson]
    exact .object (by rw [map_map]; rfl) hs hp

/-- A document that is read as a value and written again loses nothing: what is read from the result
is equal, and only the order of members and the form of small whole doubles may have changed. -/
theorem ofJson_toJson_ofJson_and_rewritten (v : Json) :
    (ofJson (ofJson v).toJson == ofJson v) = true ∧
      (v.Distinct → v.Rewritten (ofJson v).toJson) :=
  ⟨ofJson_toJson_ofJson_beq v, rewritten_toJson_ofJson⟩

/-- Zero with a minus and `-2^62` as doubles become integers, `2^63` and `-2^63` stay doubles, and
the members change their places. -/
theorem ofJson_toJson_ofJson_and_rewritten_of_powers :
    ∃ v, v = Json.object [("b", .array [.scaled true 0 0 (by decide) (by decide),
        .scaled true 1 62 (by decide) (by decide), .scaled false 1 63 (by decide) (by decide),
        .scaled true 1 63 (by decide) (by decide)]), ("a", .ofUInt64 18446744073709551615)] ∧
      v.Distinct ∧ (ofJson (ofJson v).toJson == ofJson v) = true ∧
      v.Rewritten (ofJson v).toJson := by
  generalize hv : Json.object [("b", .array [.scaled true 0 0 (by decide) (by decide),
    .scaled true 1 62 (by decide) (by decide), .scaled false 1 63 (by decide) (by decide),
    .scaled true 1 63 (by decide) (by decide)]), ("a", .ofUInt64 18446744073709551615)] = v
  have hd : v.Distinct := by
    rw [← hv]
    simp [Json.scaled, Json.ofUInt64]
  obtain ⟨hb, hr⟩ := ofJson_toJson_ofJson_and_rewritten v
  exact ⟨v, rfl, hd, hb, hr hd⟩

end Value
end ItemStore
