import Mathlib.Data.List.Perm.Basic
import ItemStore.Proofs.Json.Node

/-!
Documents up to the order in which the members of their objects are written. The items of arrays
keep theirs.
-/
namespace ItemStore.Json

open List

/-- The second document is the first with its objects' members, at any level, in some order. -/
inductive Reordered : Json → Json → Prop
  | scalar {v : Json} (h : v.isScalar = true) : Reordered v v
  | array {vs us : List Json} (items : Forall₂ Reordered vs us) : Reordered (.array vs) (.array us)
  | object {ms ns ns' : List (String × Json)} (keys : ms.map Prod.fst = ns.map Prod.fst)
    (values : Forall₂ (fun m n => Reordered m.2 n.2) ms ns) (order : ns.Perm ns') :
    Reordered (.object ms) (.object ns')

theorem reordered_scalar_iff {v u : Json} (h : u.isScalar = true) : v.Reordered u ↔ v = u := by
  constructor
  · rintro (_ | _ | _)
    · rfl
    · cases h
    · cases h
  · rintro rfl
    exact .scalar h

theorem reordered_array_iff {v : Json} {us : List Json} :
    v.Reordered (.array us) ↔ ∃ vs, v = .array vs ∧ Forall₂ Reordered vs us := by
  constructor
  · rintro (h | items | _)
    · cases h
    · exact ⟨_, rfl, items⟩
  · rintro ⟨vs, rfl, items⟩
    exact .array items

theorem reordered_object_iff {v : Json} {ns : List (String × Json)} :
    v.Reordered (.object ns) ↔
      ∃ ms ns', v = .object ms ∧ Entries.Match Reordered ms ns' ∧ ns'.Perm ns := by
  constructor
  · rintro (h | _ | ⟨keys, values, order⟩)
    · cases h
    · exact ⟨_, _, rfl, Entries.match_iff_keys_and_values.2 ⟨keys, values⟩, order⟩
  · rintro ⟨ms, ns', rfl, h, order⟩
    obtain ⟨keys, values⟩ := Entries.match_iff_keys_and_values.1 h
    exact .object keys values order

theorem reordered_object_map_iff {α : Type} {f : α → Json} {v : Json} {es : List (String × α)} :
    v.Reordered (.object (es.map fun e => (e.1, f e.2))) ↔
      ∃ ms fs, v = .object ms ∧ Entries.Match (fun u a => u.Reordered (f a)) ms fs ∧
        fs.Perm es := by
  rw [reordered_object_iff]
  constructor
  · rintro ⟨ms, ns, rfl, h, order⟩
    obtain ⟨fs, rfl, hfs⟩ := (congrFun₂ (eq_map_comp_perm _) ns es).mpr order
    exact ⟨ms, fs, rfl, forall₂_map_right_iff.1 h, hfs⟩
  · rintro ⟨ms, fs, rfl, h, order⟩
    exact ⟨ms, _, rfl, forall₂_map_right_iff.2 h, order.map _⟩

theorem reordered_entry_iff {v u : Json} {key : String} :
    v.Reordered (.entry key u) ↔ ∃ v', v = .entry key v' ∧ v'.Reordered u := by
  rw [Json.entry, reordered_object_iff]
  constructor
  · rintro ⟨ms, ns, rfl, h, order⟩
    cases perm_singleton.1 order
    obtain ⟨⟨k, v'⟩, _, ⟨rfl, hv⟩, h', rfl⟩ := forall₂_cons_right_iff.1 h
    cases forall₂_nil_right_iff.1 h'
    exact ⟨v', rfl, hv⟩
  · rintro ⟨v', rfl, hv⟩
    exact ⟨[(key, v')], [(key, u)], rfl, .cons ⟨rfl, hv⟩ .nil, .refl _⟩

theorem reordered_strings_iff {v : Json} {ss : List String} :
    v.Reordered (.strings ss) ↔ v = .strings ss := by
  have hs : ∀ vs, Forall₂ Reordered vs (ss.map string) ↔ vs = ss.map string := by
    intro vs
    rw [forall₂_map_right_iff, ← @forall₂_eq_eq_eq Json, forall₂_map_right_iff]
    exact ⟨fun h => h.imp fun _ _ => (reordered_scalar_iff rfl).1,
      fun h => h.imp fun _ _ => (reordered_scalar_iff rfl).2⟩
  simp only [strings, reordered_array_iff, hs, exists_eq_right]

end ItemStore.Json
