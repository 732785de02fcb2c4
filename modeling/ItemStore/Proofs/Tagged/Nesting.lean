import ItemStore.Proofs.Tagged.Node

/-! The levels of lists and maps within a tagged value. -/
namespace ItemStore.Tagged

open List

mutual

/-- The levels of lists and maps that lie within one another inside a tagged value: none for a
scalar, a set and an empty container, and one more than the deepest member otherwise. -/
def nesting : Tagged → Nat
  | .list items => itemsNesting items
  | .map entries => entriesNesting entries
  | _ => 0

def itemsNesting : List Tagged → Nat
  | [] => 0
  | w :: ws => max (w.nesting + 1) (itemsNesting ws)

def entriesNesting : List (String × Tagged) → Nat
  | [] => 0
  | (_, w) :: es => max (w.nesting + 1) (entriesNesting es)

end

def members : Tagged → List Tagged
  | .list items => items
  | .map entries => entries.map Prod.snd
  | _ => []

theorem members_induction {motive : Tagged → Prop}
    (h : ∀ w, (∀ x ∈ w.members, motive x) → motive w) (w : Tagged) : motive w := by
  induction w with
  | list items ih => exact h _ ih
  | map entries ih => exact h _ (forall_mem_map.2 ih)
  | _ => exact h _ (forall_mem_nil _)

theorem everywhere_iff_members {P : Tagged → Prop} {w : Tagged} :
    w.Everywhere P ↔ P w ∧ ∀ x ∈ w.members, x.Everywhere P := by
  cases w with
  | list items => exact everywhere_list
  | map entries =>
    rw [everywhere_map, members, forall_mem_map]
  | _ => exact (everywhere_iff_of_nodes rfl).trans (and_iff_left (forall_mem_nil _)).symm

/-- A tagged value fits the levels that are left if each of its members fits one level less. -/
theorem add_nesting_le_iff {w : Tagged} {depth n : Nat} :
    depth + w.nesting ≤ n ↔ depth ≤ n ∧ ∀ x ∈ w.members, depth + 1 + x.nesting ≤ n := by
  cases w with
  | list items => exact add_le_iff_of_max itemsNesting rfl fun _ _ => rfl
  | map entries =>
    rw [members, forall_mem_map]
    exact add_le_iff_of_max entriesNesting rfl fun _ _ => rfl
  | _ => simp [nesting, members]

end ItemStore.Tagged
