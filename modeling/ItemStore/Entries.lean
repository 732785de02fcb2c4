/-!
Entries by key, in the order of their keys. The order compares code points, which is the order of
the keys' UTF-8 bytes as well.
-/
namespace ItemStore

abbrev Entries (α : Type) := List (String × α)

namespace Entries

variable {α : Type}

/-- Keys ascend, so that none occurs twice. -/
def Sorted (es : Entries α) : Prop := es.Pairwise fun a b => a.1 < b.1

/-- An entry whose key is there already is not added. -/
def add (key : String) (value : α) : Entries α → Entries α
  | [] => [(key, value)]
  | (k, v) :: es =>
    if key < k then (key, value) :: (k, v) :: es
    else if key = k then (k, v) :: es
    else (k, v) :: add key value es

/-- The entries in order; of those with one key the last is kept. -/
def ofList : List (String × α) → Entries α
  | [] => []
  | (k, v) :: es => add k v (ofList es)

theorem sorted_cons {e : String × α} {es : Entries α} :
    Sorted (e :: es) ↔ (∀ f ∈ es, e.1 < f.1) ∧ Sorted es := List.pairwise_cons

theorem key_of_mem_add {key : String} {value : α} {es : Entries α} {f : String × α}
    (h : f ∈ es.add key value) : f.1 = key ∨ f ∈ es := by
  induction es with
  | nil => simp only [add, List.mem_singleton] at h; simp [h]
  | cons e es ih =>
    obtain ⟨k, v⟩ := e
    simp only [add] at h
    split at h
    · rcases List.mem_cons.1 h with rfl | h
      · exact .inl rfl
      · exact .inr h
    · split at h
      · exact .inr h
      · rcases List.mem_cons.1 h with rfl | h
        · exact .inr (List.mem_cons_self ..)
        · exact (ih h).imp_right (List.mem_cons_of_mem _)

theorem sorted_add {key : String} {value : α} {es : Entries α} (h : Sorted es) :
    Sorted (es.add key value) := by
  induction es with
  | nil => simp [add, Sorted]
  | cons e es ih =>
    obtain ⟨k, v⟩ := e
    have ⟨hk, hs⟩ := sorted_cons.1 h
    simp only [add]
    split
    · rename_i hlt
      refine sorted_cons.2 ⟨fun f hf => ?_, h⟩
      rcases List.mem_cons.1 hf with rfl | hf
      · exact hlt
      · exact String.lt_trans hlt (hk f hf)
    · rename_i hge
      split
      · exact h
      · rename_i hne
        refine sorted_cons.2 ⟨fun f hf => ?_, ih hs⟩
        rcases key_of_mem_add hf with hf | hf
        · rw [hf]
          exact Std.lt_of_le_of_ne (String.not_lt.1 hge) (Ne.symm hne)
        · exact hk f hf

theorem sorted_ofList (es : List (String × α)) : Sorted (ofList es) := by
  induction es with
  | nil => exact List.Pairwise.nil
  | cons e es ih => exact sorted_add ih

theorem ofList_of_sorted {es : Entries α} (h : Sorted es) : ofList es = es := by
  induction es with
  | nil => rfl
  | cons e es ih =>
    have ⟨hk, hs⟩ := sorted_cons.1 h
    rw [ofList, ih hs]
    cases es with
    | nil => rfl
    | cons f es => simp [add, hk f (List.mem_cons_self ..)]

def keys (es : Entries α) : List String := es.map Prod.fst

end Entries
end ItemStore
