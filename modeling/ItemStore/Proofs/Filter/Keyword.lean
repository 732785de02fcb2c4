import Mathlib.Data.List.Forall2
import ItemStore.Filter.Basic

/-! The words of a filter: which keys open a group, and which names are comparisons. -/
namespace ItemStore

open List

theorem toNat_toLower (c : Char) :
    c.toLower.toNat = if 65 ≤ c.toNat ∧ c.toNat ≤ 90 then c.toNat + 32 else c.toNat := by
  have h : (c.val ≥ 'A'.val ∧ c.val ≤ 'Z'.val) ↔ 65 ≤ c.toNat ∧ c.toNat ≤ 90 := by
    simp [UInt32.le_iff_toNat_le]
  unfold Char.toLower
  split
  · rename_i hc
    rw [if_pos (h.1 hc)]
    have := (h.1 hc).2
    show (c.val + 32).toNat = _
    rw [UInt32.toNat_add]
    show (c.toNat + 32) % 2 ^ 32 = _
    omega
  · rename_i hc
    rw [if_neg (mt h.2 hc)]

theorem toLower_eq_toLower_iff {c k : Char} (hk : k.isUpper = true) :
    c.toLower = k.toLower ↔ c = k ∨ c = k.toLower := by
  have hv : 'A'.val ≤ k.val ∧ k.val ≤ 'Z'.val := of_decide_eq_true hk
  have h : 65 ≤ k.toNat ∧ k.toNat ≤ 90 :=
    ⟨UInt32.le_iff_toNat_le.1 hv.1, UInt32.le_iff_toNat_le.1 hv.2⟩
  simp only [← Char.toNat_inj, toNat_toLower, if_pos h]
  split <;> omega

namespace Connective

/-- A dollar sign and the keyword, of which each letter may be small. -/
def Spells (op : Connective) (key : String) : Prop :=
  ∃ name, key.toList = '$' :: name ∧
    Forall₂ (fun c k => c = k ∨ c = k.toLower) name op.keyword.toList

theorem spells_iff {cs ks : List Char} (hk : ∀ k ∈ ks, k.isUpper = true) :
    Forall₂ (fun c k => c = k ∨ c = k.toLower) cs ks ↔
      cs.map Char.toLower = ks.map Char.toLower := by
  induction ks generalizing cs with
  | nil => simp
  | cons k ks ih =>
    have ⟨hu, hus⟩ := forall_mem_cons.1 hk
    cases cs with
    | nil => simp
    | cons c cs =>
      rw [forall₂_cons, ih hus, map_cons, map_cons, cons.injEq, toLower_eq_toLower_iff hu]

theorem ofKey?_eq_some_iff {key : String} {op : Connective} :
    ofKey? key = some op ↔ op.Spells key := by
  unfold ofKey?
  split
  · rename_i name hk
    have hs : op.Spells key ↔ String.ofList (name.map Char.toLower) =
        String.ofList (op.keyword.toList.map Char.toLower) := by
      have hu : ∀ k ∈ op.keyword.toList, k.isUpper = true :=
        all_eq_true.1 (by cases op <;> rfl)
      rw [String.ofList_inj, ← spells_iff hu]
      constructor
      · rintro ⟨_, hn, h⟩
        cases hk.symm.trans hn
        exact h
      · exact fun h => ⟨name, hk, h⟩
    rw [hs]
    generalize String.ofList (name.map Char.toLower) = t
    have ha : String.ofList (Connective.and.keyword.toList.map Char.toLower) = "and" := rfl
    have ho : String.ofList (Connective.or.keyword.toList.map Char.toLower) = "or" := rfl
    have hn : String.ofList (Connective.not.keyword.toList.map Char.toLower) = "not" := rfl
    cases op <;> grind
  · rename_i hk
    refine iff_of_false (by simp) ?_
    rintro ⟨name, hn, -⟩
    exact hk name hn

end Connective

namespace Comparison

def names : Comparison → List String
  | .ge => ["ge", "gte"]
  | .le => ["le", "lte"]
  | op => [op.name]

theorem ofName?_eq_some_iff {name : String} {op : Comparison} :
    ofName? name = some op ↔ name ∈ op.names := by
  unfold ofName?
  constructor
  · intro h
    split at h
    · cases h; simp [names, *]
    split at h
    · cases h; simp [names, *]
    · have hs := List.find?_some h
      rw [beq_iff_eq] at hs
      subst hs
      cases op <;> simp [names, Comparison.name]
  · intro h
    cases op <;> simp only [names, mem_cons, not_mem_nil, or_false] at h
    case ge => rcases h with rfl | rfl <;> rfl
    case le => rcases h with rfl | rfl <;> rfl
    all_goals
      subst h
      rfl

end Comparison
end ItemStore
