import ItemStore.Codec.Encoding
import ItemStore.Proofs.Codec.Failure
import ItemStore.Proofs.Value.Node

/-!
Which values can be encoded, and what the others fail with. Bytes and numbers that are not finite
have no tagged form, and nothing may stand too deep; the members of a list that travels as a set are
no values of their own on the wire, so they have no level there. What comes first in a value decides
the error.
-/
namespace ItemStore

open List

/-- A value where it stands within another: how many lists and maps lie around it, and whether it is
a member of a list that travels as a set. -/
structure Place where
  depth : Nat
  inSet : Bool
  value : Value

namespace Value

mutual

/-- A value and all that lie within it, each at its place. A value comes before its members, and
they come in their order. -/
def placesAt (depth : Nat) (inSet : Bool) : Value → List Place
  | .list items =>
    ⟨depth, inSet, .list items⟩ ::
      itemsPlacesAt (depth + 1) (allTagged .number items || allTagged .text items) items
  | .map entries => ⟨depth, inSet, .map entries⟩ :: entriesPlacesAt (depth + 1) entries
  | v => [⟨depth, inSet, v⟩]

def itemsPlacesAt (depth : Nat) (inSet : Bool) : List Value → List Place
  | [] => []
  | v :: vs => v.placesAt depth inSet ++ itemsPlacesAt depth inSet vs

def entriesPlacesAt (depth : Nat) : List (String × Value) → List Place
  | [] => []
  | (_, v) :: es => v.placesAt depth false ++ entriesPlacesAt depth es

end

def places (v : Value) : List Place := v.placesAt 0 false

theorem placesAt_list (depth : Nat) (inSet : Bool) (items : List Value) :
    (Value.list items).placesAt depth inSet = ⟨depth, inSet, .list items⟩ ::
      items.flatMap (placesAt (depth + 1) (allTagged .number items || allTagged .text items)) := by
  rw [placesAt, eq_flatMap (itemsPlacesAt _ _) rfl fun _ _ => rfl]

theorem placesAt_map (depth : Nat) (inSet : Bool) (entries : List (String × Value)) :
    (Value.map entries).placesAt depth inSet =
      ⟨depth, inSet, .map entries⟩ :: entries.flatMap fun e => e.2.placesAt (depth + 1) false := by
  rw [placesAt, eq_flatMap (entriesPlacesAt _) rfl fun _ _ => rfl]

theorem map_value_placesAt (v : Value) (depth : Nat) (inSet : Bool) :
    (v.placesAt depth inSet).map Place.value = v.nodes := by
  induction v generalizing depth inSet with
  | list items ih =>
    rw [placesAt_list, nodes_list, map_cons, map_flatMap]
    exact congrArg _ (flatMap_congr fun v hv => ih v hv _ _)
  | map entries ih =>
    rw [placesAt_map, nodes_map, map_cons, map_flatMap]
    exact congrArg _ (flatMap_congr fun e he => ih e he _ _)
  | _ => rfl

def Representable : Value → Prop
  | .binary _ => False
  | .binaries _ => False
  | .number n => n.isFinite = true
  | .numbers ns => ∀ n ∈ ns, n.isFinite = true
  | _ => True

def unrepresentable? : Value → Option Kind
  | .binary _ => some .binary
  | .binaries _ => some .binarySet
  | .number n => if n.isFinite then none else some .nonFiniteNumber
  | .numbers ns => if ns.all Number.isFinite then none else some .nonFiniteNumber
  | _ => none

theorem unrepresentable?_eq_none_iff {v : Value} : v.unrepresentable? = none ↔ v.Representable := by
  cases v <;> simp [unrepresentable?, Representable]

end Value

namespace Place

def TooDeep (p : Place) : Prop := p.inSet = false ∧ CodecError.maxDepth < p.depth

instance (p : Place) : Decidable p.TooDeep := inferInstanceAs (Decidable (_ ∧ _))

def fault? (p : Place) : Option CodecError :=
  if p.TooDeep then some .tooDeep else p.value.unrepresentable?.map .unclassifiable

theorem fault?_eq_none_iff {p : Place} : p.fault? = none ↔ p.value.Representable ∧ ¬p.TooDeep := by
  unfold fault?
  split <;> simp [*, Value.unrepresentable?_eq_none_iff]

theorem findSome?_fault?_cons {p : Place} {ps : List Place} (hd : ¬p.TooDeep)
    (hv : p.value.Representable) : (p :: ps).findSome? fault? = ps.findSome? fault? :=
  findSome?_cons_of_isNone (Option.isNone_iff_eq_none.2 (fault?_eq_none_iff.2 ⟨hv, hd⟩))

end Place

theorem Number.literal_eq_error_iff {n : Number} {e : CodecError} :
    n.literal = .error e ↔ n.isFinite = false ∧ .unclassifiable .nonFiniteNumber = e := by
  unfold literal
  split <;> simp [*]

theorem Number.mapM_literal_eq_error_iff {ns : List Number} {e : CodecError} :
    ns.mapM literal = .error e ↔
      ns.all isFinite = false ∧ .unclassifiable .nonFiniteNumber = e := by
  induction ns with
  | nil => simp [pure, Except.pure]
  | cons n ns ih =>
    rw [mapM_cons, bind_eq_error, literal_eq_error_iff]
    simp only [bind_pure_eq_error, ih]
    cases hn : n.isFinite <;> simp [literal, hn]

namespace Value

theorem findSome?_fault?_of_placesAt {v : Value} {depth : Nat} {inSet : Bool} {e : CodecError}
    (h : v.placesAt depth inSet = [⟨depth, inSet, v⟩])
    (hd : ¬(⟨depth, inSet, v⟩ : Place).TooDeep) :
    (v.placesAt depth inSet).findSome? Place.fault? = some e ↔
      v.unrepresentable?.map .unclassifiable = some e := by
  rw [h, findSome?_singleton, Place.fault?, if_neg hd]

theorem literal_eq_error_iff {v : Value} {t : Tag} (hv : v.scalarTag? = some t)
    (ht : t = .number ∨ t = .text) {depth : Nat} {e : CodecError} :
    v.literal = .error e ↔ (v.placesAt depth true).findSome? Place.fault? = some e := by
  have hd : ¬(⟨depth, true, v⟩ : Place).TooDeep := by simp [Place.TooDeep]
  cases v with
  | number n =>
    rw [findSome?_fault?_of_placesAt rfl hd, literal, Number.literal_eq_error_iff]
    cases hn : n.isFinite <;> simp [unrepresentable?, hn]
  | text s =>
    rw [findSome?_fault?_of_placesAt rfl hd]
    simp [literal, unrepresentable?]
  | _ =>
    rcases ht with rfl | rfl <;> cases hv

/-- A list that travels as a set fails as the first of its members does, whatever their level. -/
theorem mapM_literal_eq_error_iff {items : List Value} {t : Tag} (h : allTagged t items = true)
    (ht : t = .number ∨ t = .text) {depth : Nat} {e : CodecError} :
    items.mapM literal = .error e ↔
      (items.flatMap (placesAt depth true)).findSome? Place.fault? = some e := by
  rw [mapM_eq_error_iff]
  exact firstFails_iff_findSome? fun v hv _ =>
    literal_eq_error_iff (scalarTag?_of_allTagged h v hv) ht

/-- A value fails at a level as the first place that is faulty says. -/
theorem encodeAt_eq_error_iff {v : Value} {depth : Nat} {e : CodecError} :
    v.encodeAt depth = .error e ↔ (v.placesAt depth false).findSome? Place.fault? = some e := by
  induction v generalizing depth e with
    (rw [encodeAt.eq_def]
     by_cases hd : CodecError.maxDepth < depth
     · rw [if_pos hd]
       simp [placesAt, Place.fault?, Place.TooDeep, hd]
     rw [if_neg hd]
     have hp : ∀ v, ¬(⟨depth, false, v⟩ : Place).TooDeep := fun _ h => hd h.2)
  | list items ih =>
    rw [placesAt_list, Place.findSome?_fault?_cons (hp (.list items)) trivial]
    dsimp only
    split
    · rename_i he
      simp [List.isEmpty_iff.1 he]
    split
    · rename_i hn
      rw [bind_pure_eq_error, mapM_literal_eq_error_iff hn (.inl rfl), hn, Bool.true_or]
    split
    · rename_i ht
      rw [bind_pure_eq_error, mapM_literal_eq_error_iff ht (.inr rfl), ht, Bool.or_true]
    · rename_i hn ht
      rw [bind_pure_eq_error, encodeItems_eq_mapM, mapM_eq_error_iff, eq_false_of_ne_true hn,
        eq_false_of_ne_true ht, Bool.or_false]
      exact firstFails_iff_findSome? fun v hv _ => ih v hv
  | map entries ih =>
    rw [placesAt_map, Place.findSome?_fault?_cons (hp (.map entries)) trivial,
      bind_pure_eq_error, encodeEntries_eq_mapM, mapM_eq_error_iff]
    refine firstFails_iff_findSome? fun f hf _ => ?_
    rw [bind_pure_eq_error]
    exact ih f hf
  | number n =>
    rw [findSome?_fault?_of_placesAt rfl (hp _), bind_pure_eq_error,
      Number.literal_eq_error_iff]
    cases hn : n.isFinite <;> simp [unrepresentable?, hn]
  | numbers ns =>
    rw [findSome?_fault?_of_placesAt rfl (hp _), bind_pure_eq_error,
      Number.mapM_literal_eq_error_iff]
    cases hn : ns.all Number.isFinite <;> simp [unrepresentable?, hn]
  | _ =>
    rw [findSome?_fault?_of_placesAt rfl (hp _)]
    simp [unrepresentable?]

/-- Exactly those values can be encoded that hold nothing without a tagged form and nothing below
the last level; any other fails as the first place in it that is faulty says. -/
theorem encode_fails_at_first_fault (v : Value) :
    ((∃ w, v.encode = .ok w) ↔ v.Everywhere Representable ∧ ∀ p ∈ v.places, ¬p.TooDeep) ∧
      ∀ e, v.encode = .error e ↔ v.places.findSome? Place.fault? = some e := by
  refine ⟨?_, fun e => encodeAt_eq_error_iff⟩
  have hn : (∃ w, v.encode = .ok w) ↔ ∀ p ∈ v.places, p.fault? = none := by
    rw [exists_eq_ok_iff, ← findSome?_eq_none_iff, Option.eq_none_iff_forall_ne_some]
    exact forall_congr' fun e => not_congr encodeAt_eq_error_iff
  have hv : v.Everywhere Representable ↔ ∀ p ∈ v.places, p.value.Representable := by
    rw [Everywhere, ← map_value_placesAt v 0 false, forall_mem_map, places]
  simp only [hn, hv, Place.fault?_eq_none_iff, forall₂_and]

/-- The set's member comes before the bytes. -/
example : (map [("a", .list [.text "1", .number (.float .nan)]), ("b", .binary [0])]).encode =
    .error (.unclassifiable .nonFiniteNumber) := rfl

end Value
end ItemStore
