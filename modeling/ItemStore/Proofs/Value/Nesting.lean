import ItemStore.Proofs.Failure
import ItemStore.Proofs.Value.Json

/-!
The levels of lists and maps within a value, and documents within the depth limit. The reader that
counts levels gives what the one without a limit gives, exactly where the levels of a document and
the levels around it fit the limit together; it fails for nothing else.
-/
namespace ItemStore

open List

namespace Json

theorem nesting_of_isScalar {v : Json} (h : v.isScalar = true) : v.nesting = 0 := by
  cases v <;> first | rfl | cases h

theorem add_nesting_array_le_iff {items : List Json} {depth n : Nat} :
    depth + (Json.array items).nesting ≤ n ↔
      depth ≤ n ∧ ∀ v ∈ items, depth + 1 + v.nesting ≤ n :=
  add_le_iff_of_max itemsNesting rfl fun _ _ => rfl

theorem add_nesting_object_le_iff {members : List (String × Json)} {depth n : Nat} :
    depth + (Json.object members).nesting ≤ n ↔
      depth ≤ n ∧ ∀ m ∈ members, depth + 1 + m.2.nesting ≤ n :=
  add_le_iff_of_max membersNesting rfl fun _ _ => rfl

theorem nesting_repeat {f : Json → Json} {k : Nat} (h : ∀ v, (f v).nesting = v.nesting + k)
    (n : Nat) (v : Json) : (Nat.repeat f n v).nesting = v.nesting + n * k := by
  induction n with
  | zero => rw [Nat.repeat, Nat.zero_mul, Nat.add_zero]
  | succ n ih => rw [Nat.repeat, h, ih, Nat.succ_mul, Nat.add_assoc]

end Json

namespace Value

mutual

/-- The levels of lists and maps that lie within one another inside a value, counted as in a
document; a set has none. -/
def nesting : Value → Nat
  | .list items => itemsNesting items
  | .map entries => entriesNesting entries
  | _ => 0

def itemsNesting : List Value → Nat
  | [] => 0
  | v :: vs => max (v.nesting + 1) (itemsNesting vs)

def entriesNesting : List (String × Value) → Nat
  | [] => 0
  | (_, v) :: es => max (v.nesting + 1) (entriesNesting es)

end

def members : Value → List Value
  | .list items => items
  | .map entries => entries.map Prod.snd
  | _ => []

theorem members_induction {motive : Value → Prop}
    (h : ∀ v, (∀ u ∈ v.members, motive u) → motive v) (v : Value) : motive v := by
  induction v with
  | list items ih => exact h _ ih
  | map entries ih => exact h _ (forall_mem_map.2 ih)
  | _ => exact h _ (forall_mem_nil _)

/-- A value fits the levels that are left if each of its members fits one level less. -/
theorem add_nesting_le_iff {v : Value} {depth n : Nat} :
    depth + v.nesting ≤ n ↔ depth ≤ n ∧ ∀ u ∈ v.members, depth + 1 + u.nesting ≤ n := by
  cases v with
  | list items => exact add_le_iff_of_max itemsNesting rfl fun _ _ => rfl
  | map entries =>
    rw [members, forall_mem_map]
    exact add_le_iff_of_max entriesNesting rfl fun _ _ => rfl
  | _ => simp [nesting, members]

theorem ofItemsAt_eq_ok_iff {depth : Nat} {vs : List Json} {us : List Value} :
    ofItemsAt depth vs = .ok us ↔ Forall₂ (fun v u => ofJsonAt depth v = .ok u) vs us :=
  eq_ok_iff_forall₂ (ofItemsAt depth) rfl fun _ _ => rfl

theorem ofMembersAt_eq_ok_iff {depth : Nat} {ms : List (String × Json)}
    {us : List (String × Value)} :
    ofMembersAt depth ms = .ok us ↔ Entries.Match (fun v u => ofJsonAt depth v = .ok u) ms us :=
  Entries.eq_ok_iff_match (ofMembersAt depth) rfl fun _ _ _ => rfl

/-- A document is read at a level if it does not reach below the last one, and then it is the value
that it is without a limit. -/
theorem ofJsonAt_eq_ok_iff {v : Json} {depth : Nat} {u : Value} :
    ofJsonAt depth v = .ok u ↔ depth + v.nesting ≤ CodecError.maxDepth ∧ u = ofJson v := by
  induction v generalizing depth u with
    (rw [ofJsonAt.eq_def, ite_error_eq_ok, Nat.not_lt])
  | array items ih =>
    have hi : ∀ us, ofItemsAt (depth + 1) items = .ok us ↔
        (∀ v ∈ items, depth + 1 + v.nesting ≤ CodecError.maxDepth) ∧ us = items.map ofJson :=
      fun us => ofItemsAt_eq_ok_iff.trans (forall₂_iff_eq_map fun v hv _ => ih v hv)
    simp only [bind_pure_eq_ok, hi, Json.add_nesting_array_le_iff, ofJson, ofItems_eq_map]
    constructor
    · rintro ⟨hd, us, ⟨hn, rfl⟩, rfl⟩
      exact ⟨⟨hd, hn⟩, rfl⟩
    · rintro ⟨⟨hd, hn⟩, rfl⟩
      exact ⟨hd, _, ⟨hn, rfl⟩, rfl⟩
  | object members ih =>
    have hm := fun us => (@ofMembersAt_eq_ok_iff (depth + 1) members us).trans <|
      Entries.match_iff_eq_map (P := fun v => depth + 1 + v.nesting ≤ CodecError.maxDepth)
        fun m hm _ => ih m hm
    simp only [bind_pure_eq_ok, hm, Json.add_nesting_object_le_iff, ofJson, ofMembers_eq_map]
    constructor
    · rintro ⟨hd, us, ⟨hn, rfl⟩, rfl⟩
      exact ⟨⟨hd, hn⟩, rfl⟩
    · rintro ⟨⟨hd, hn⟩, rfl⟩
      exact ⟨hd, _, ⟨hn, rfl⟩, rfl⟩
  | _ => simp [Json.nesting, ofJson, eq_comm]

theorem eq_ofJson_of_ofJsonAt {depth : Nat} {v : Json} {u : Value} (h : ofJsonAt depth v = .ok u) :
    u = ofJson v := (ofJsonAt_eq_ok_iff.1 h).2

theorem ofJson?_eq_ok_iff {v : Json} {u : Value} :
    ofJson? v = .ok u ↔ v.nesting ≤ CodecError.maxDepth ∧ u = ofJson v := by
  rw [ofJson?, ofJsonAt_eq_ok_iff, Nat.zero_add]

theorem ofItemsAt_eq_mapM (depth : Nat) (vs : List Json) :
    ofItemsAt depth vs = vs.mapM (ofJsonAt depth) :=
  eq_mapM (ofItemsAt depth) rfl (fun _ _ => rfl) vs

theorem ofMembersAt_eq_mapM (depth : Nat) (ms : List (String × Json)) :
    ofMembersAt depth ms = ms.mapM fun (k, v) => do return (k, ← ofJsonAt depth v) :=
  Entries.eq_mapM (ofMembersAt depth) rfl (fun _ _ _ => rfl) ms

theorem eq_tooDeep_of_ofJsonAt {v : Json} {depth : Nat} {e : CodecError}
    (h : ofJsonAt depth v = .error e) : e = .tooDeep := by
  induction v generalizing depth with
    (rw [ofJsonAt.eq_def] at h; by_cases hd : CodecError.maxDepth < depth
     · rw [if_pos hd] at h
       exact (Except.error.inj h).symm
     rw [if_neg hd] at h)
  | array items ih =>
    rw [bind_pure_eq_error, ofItemsAt_eq_mapM, mapM_eq_error_iff] at h
    obtain ⟨v, hv, h⟩ := h.exists_mem
    exact ih v hv h
  | object members ih =>
    rw [bind_pure_eq_error, ofMembersAt_eq_mapM, mapM_eq_error_iff] at h
    obtain ⟨m, hm, h⟩ := h.exists_mem
    exact ih m hm (bind_pure_eq_error.1 h)
  | _ => cases h

theorem ofJson?_eq_tooDeep_iff {v : Json} :
    ofJson? v = .error .tooDeep ↔ CodecError.maxDepth < v.nesting := by
  cases hv : ofJson? v with
  | ok u => exact iff_of_false (by simp) (Nat.not_lt.2 (ofJson?_eq_ok_iff.1 hv).1)
  | error e =>
    cases eq_tooDeep_of_ofJsonAt hv
    refine iff_of_true rfl (Nat.lt_of_not_le fun hn => ?_)
    cases hv.symm.trans (ofJson?_eq_ok_iff.2 ⟨hn, rfl⟩)

end Value
end ItemStore
