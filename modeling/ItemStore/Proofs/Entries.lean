import ItemStore.Entries
import ItemStore.Proofs.Success

/-! Entries are looked up where they were put, and a step on each entry keeps them there. -/
namespace ItemStore

structure SortedEntries (α : Type) where
  entries : Entries α
  sorted : entries.Sorted

def SortedEntries.ofList {α : Type} (es : List (String × α)) : SortedEntries α :=
  ⟨Entries.ofList es, Entries.sorted_ofList es⟩

namespace Entries

variable {ε α β : Type}

theorem isSome_lookup_iff {es : List (String × α)} {key : String} :
    (es.lookup key).isSome = true ↔ key ∈ keys es := by
  rw [List.lookup_isSome_iff, keys, List.mem_map]
  simp only [beq_iff_eq, @eq_comm _ key]

theorem exists_append_iff_of_sorted (es : SortedEntries α) {e : String × α}
    {P : String × α → Prop} :
    (∃ before after, es.entries = before ++ e :: after ∧ ∀ f ∈ before, P f) ↔
      e ∈ es.entries ∧ ∀ f ∈ es.entries, f.1 < e.1 → P f := by
  obtain ⟨es, hs⟩ := es
  constructor
  · rintro ⟨before, after, rfl, hb⟩
    refine ⟨List.mem_append_right _ (List.mem_cons_self ..), fun f hf hlt => ?_⟩
    rcases List.mem_append.1 hf with hf | hf
    · exact hb f hf
    rcases List.mem_cons.1 hf with rfl | hf
    · exact absurd hlt (String.lt_irrefl _)
    · have hgt := (sorted_cons.1 (List.pairwise_append.1 hs).2.1).1 f hf
      exact absurd (String.lt_trans hlt hgt) (String.lt_irrefl _)
  · rintro ⟨he, hb⟩
    obtain ⟨before, after, rfl⟩ := List.append_of_mem he
    refine ⟨before, after, rfl, fun f hf => hb f (List.mem_append_left _ hf) ?_⟩
    exact (List.pairwise_append.1 hs).2.2 f hf e (List.mem_cons_self ..)

theorem nodup_of_sorted (es : SortedEntries α) : (es.entries.map Prod.fst).Nodup :=
  List.pairwise_map.2 (es.sorted.imp fun hlt => String.ne_of_lt hlt)

theorem mem_of_mem_add {key : String} {value : α} {es : Entries α} {f : String × α}
    (h : f ∈ es.add key value) : f = (key, value) ∨ f ∈ es := by
  induction es with
  | nil => exact .inl (List.mem_singleton.1 h)
  | cons e es ih =>
    obtain ⟨k, v⟩ := e
    simp only [add] at h
    split at h
    · exact List.mem_cons.1 h
    · split at h
      · exact .inr h
      · rcases List.mem_cons.1 h with rfl | h
        · exact .inr (List.mem_cons_self ..)
        · exact (ih h).imp_right (List.mem_cons_of_mem _)

theorem mem_of_mem_ofList {es : List (String × α)} {f : String × α} (h : f ∈ ofList es) :
    f ∈ es := by
  induction es with
  | nil => cases h
  | cons e es ih =>
    rcases mem_of_mem_add h with rfl | h
    · exact List.mem_cons_self ..
    · exact List.mem_cons_of_mem _ (ih h)

theorem add_perm {key : String} {value : α} {es : Entries α} (h : key ∉ es.map Prod.fst) :
    (es.add key value).Perm ((key, value) :: es) := by
  induction es with
  | nil => exact List.Perm.refl _
  | cons e es ih =>
    obtain ⟨k, v⟩ := e
    simp only [List.map_cons, List.mem_cons, not_or] at h
    simp only [add]
    split
    · exact List.Perm.refl _
    · rw [if_neg h.1]
      exact ((ih h.2).cons (k, v)).trans (List.Perm.swap _ _ _)

theorem ofList_perm {es : List (String × α)} (h : (es.map Prod.fst).Nodup) :
    (ofList es).Perm es := by
  induction es with
  | nil => exact List.Perm.refl _
  | cons e es ih =>
    have ⟨hk, hn⟩ := List.nodup_cons.1 h
    have hp := ih hn
    refine (add_perm fun hm => hk ?_).trans (hp.cons e)
    exact (hp.map Prod.fst).mem_iff.1 hm

theorem ofList_eq_of_perm {es : Entries α} (fs : SortedEntries α) (h : es.Perm fs.entries) :
    ofList es = fs.entries := by
  have hn : (es.map Prod.fst).Nodup := (h.map Prod.fst).nodup_iff.2 (nodup_of_sorted fs)
  refine ((ofList_perm hn).trans h).eq_of_pairwise (fun a b _ _ hab hba => ?_) (sorted_ofList es)
    fs.sorted
  exact absurd (String.lt_trans hab hba) (String.lt_irrefl _)

/-- The order in which entries with different keys are given does not matter. -/
theorem ofList_eq_ofList_of_perm {es fs : List (String × α)} (h : es.Perm fs)
    (hn : (es.map Prod.fst).Nodup) : ofList es = ofList fs := by
  have hf : (fs.map Prod.fst).Nodup := (h.map Prod.fst).nodup_iff.1 hn
  exact ofList_eq_of_perm (.ofList fs) (h.trans (ofList_perm hf).symm)

theorem lookup_of_mem {es : List (String × α)} (h : (es.map Prod.fst).Nodup) {key : String}
    {value : α} (hm : (key, value) ∈ es) : es.lookup key = some value := by
  induction es with
  | nil => cases hm
  | cons e es ih =>
    obtain ⟨k, v⟩ := e
    have ⟨hk, hn⟩ := List.nodup_cons.1 h
    rcases List.mem_cons.1 hm with he | hm
    · cases he
      exact List.lookup_cons_self
    · have hne : key ≠ k := fun he => hk (List.mem_map.2 ⟨_, hm, he⟩)
      rw [List.lookup_cons, beq_eq_false_iff_ne.2 hne]
      exact ih hn hm

theorem lookup_ofList {es : List (String × α)} (h : (es.map Prod.fst).Nodup) {key : String}
    {value : α} (hm : (key, value) ∈ es) : (ofList es).lookup key = some value := by
  have hp := ofList_perm h
  exact lookup_of_mem ((hp.map Prod.fst).nodup_iff.2 h) (hp.mem_iff.2 hm)

theorem lookup_mapM {f : String → α → Except ε β} {es : Entries α} {fs : Entries β}
    (h : (es.mapM fun (k, v) => do return (k, ← f k v)) = .ok fs) {key : String} {value : α}
    (hv : es.lookup key = some value) : ∃ w, f key value = .ok w ∧ fs.lookup key = some w := by
  induction es generalizing fs with
  | nil => cases hv
  | cons e es ih =>
    obtain ⟨k, v⟩ := e
    obtain ⟨_, gs, he, hgs, rfl⟩ := mapM_cons_eq_ok.1 h
    obtain ⟨w, hw, he⟩ := bind_eq_ok.1 he
    cases pure_eq_ok.1 he
    rw [List.lookup_cons] at hv ⊢
    by_cases hk : key = k
    · subst hk
      simp only [beq_self_eq_true, Option.some.injEq] at hv ⊢
      exact ⟨w, hv ▸ hw, rfl⟩
    · simp only [beq_eq_false_iff_ne.2 hk] at hv ⊢
      exact ih hgs hv

end Entries
end ItemStore
