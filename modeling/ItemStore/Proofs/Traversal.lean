import Mathlib.Data.List.Forall2
import ItemStore.Proofs.Entries

/-!
One step on each member of a list, or on the value of each entry. All of them succeed exactly if
each does, so the results stand to the members pair by pair; and entries that stand to each other
like this still do when both are put in order.
-/
namespace ItemStore

open List

section

variable {ε α β γ : Type}

theorem eq_map {f : α → β} (g : List α → List β) (hn : g [] = [])
    (hc : ∀ x xs, g (x :: xs) = f x :: g xs) (xs : List α) : g xs = xs.map f := by
  induction xs with
  | nil => exact hn
  | cons x xs ih => rw [hc, ih, map_cons]

theorem eq_flatMap {f : α → List β} (g : List α → List β) (hn : g [] = [])
    (hc : ∀ x xs, g (x :: xs) = f x ++ g xs) (xs : List α) : g xs = xs.flatMap f := by
  induction xs with
  | nil => exact hn
  | cons x xs ih => rw [hc, ih, flatMap_cons]

/-- A measure that is one more than the largest of the members'. -/
theorem add_le_iff_of_max {f : α → Nat} (g : List α → Nat) (hn : g [] = 0)
    (hc : ∀ x xs, g (x :: xs) = max (f x + 1) (g xs)) {xs : List α} {m n : Nat} :
    m + g xs ≤ n ↔ m ≤ n ∧ ∀ x ∈ xs, m + 1 + f x ≤ n := by
  induction xs with
  | nil => simp [hn]
  | cons x xs ih =>
    have hx : m + (f x + 1) = m + 1 + f x := by omega
    rw [hc, ← Nat.add_max_add_left, Nat.max_le, ih, forall_mem_cons, hx, and_left_comm]

/-- A recursion that makes one step on each member. -/
theorem eq_mapM {f : α → Except ε β} (g : List α → Except ε (List β)) (hn : g [] = .ok [])
    (hc : ∀ x xs, g (x :: xs) = do return (← f x) :: (← g xs)) (xs : List α) :
    g xs = xs.mapM f := by
  induction xs with
  | nil => exact hn
  | cons x xs ih => rw [hc, ih, mapM_cons]

theorem mapM_eq_ok_iff {f : α → Except ε β} {xs : List α} {ys : List β} :
    xs.mapM f = .ok ys ↔ Forall₂ (fun x y => f x = .ok y) xs ys := by
  induction xs generalizing ys with
  | nil => rw [mapM_nil, pure_eq_ok, forall₂_nil_left_iff, eq_comm]
  | cons x xs ih =>
    simp only [mapM_cons, bind_eq_ok, pure_eq_ok, forall₂_cons_left_iff, ← ih]
    constructor
    · rintro ⟨y, hy, ys, hys, rfl⟩
      exact ⟨y, ys, hy, hys, rfl⟩
    · rintro ⟨y, ys, hy, hys, rfl⟩
      exact ⟨y, hy, ys, hys, rfl⟩

theorem eq_ok_iff_forall₂ {f : α → Except ε β} (g : List α → Except ε (List β))
    (hn : g [] = .ok []) (hc : ∀ x xs, g (x :: xs) = do return (← f x) :: (← g xs)) {xs : List α}
    {ys : List β} : g xs = .ok ys ↔ Forall₂ (fun x y => f x = .ok y) xs ys := by
  rw [eq_mapM g hn hc, mapM_eq_ok_iff]

theorem eq_some_iff_forall₂ {f : α → Option β} (g : List α → Option (List β))
    (hn : g [] = some []) (hc : ∀ x xs, g (x :: xs) = do return (← f x) :: (← g xs)) {xs : List α}
    {ys : List β} : g xs = some ys ↔ Forall₂ (fun x y => f x = some y) xs ys := by
  induction xs generalizing ys with
  | nil => simp [hn, eq_comm]
  | cons x xs ih =>
    simp only [hc, Option.bind_eq_bind, Option.bind_eq_some_iff, Option.pure_def, Option.some_inj,
      forall₂_cons_left_iff, ← ih]
    constructor
    · rintro ⟨y, hy, ys, hys, rfl⟩
      exact ⟨y, ys, hy, hys, rfl⟩
    · rintro ⟨y, ys, hy, hys, rfl⟩
      exact ⟨y, hy, ys, hys, rfl⟩

theorem mapM_eq_some_iff {f : α → Option β} {xs : List α} {ys : List β} :
    xs.mapM f = some ys ↔ Forall₂ (fun x y => f x = some y) xs ys :=
  eq_some_iff_forall₂ (List.mapM f) mapM_nil fun _ _ => mapM_cons

theorem forall₂_iff_of_forall₂ {P : α → β → Prop} {R : α → γ → Prop} {S : β → γ → Prop}
    {xs : List α} {ys : List β} (h : Forall₂ P xs ys)
    (hc : ∀ x ∈ xs, ∀ y ∈ ys, P x y → ∀ z, R x z ↔ S y z) {zs : List γ} :
    Forall₂ R xs zs ↔ Forall₂ S ys zs := by
  induction h generalizing zs with
  | nil => simp
  | @cons x y xs ys hxy _ ih =>
    have hhead := hc x (mem_cons_self ..) y (mem_cons_self ..) hxy
    have htail := fun zs => @ih (fun x hx y hy =>
      hc x (mem_cons_of_mem _ hx) y (mem_cons_of_mem _ hy)) zs
    simp only [forall₂_cons_left_iff, hhead, htail]

theorem forall_mem_iff_of_forall₂ {P : α → β → Prop} {C : α → Prop} {D : β → Prop} {xs : List α}
    {ys : List β} (h : Forall₂ P xs ys) (hc : ∀ x ∈ xs, ∀ y, P x y → (D y ↔ C x)) :
    (∀ y ∈ ys, D y) ↔ ∀ x ∈ xs, C x := by
  induction h with
  | nil => simp
  | @cons x y xs ys hxy _ ih =>
    have hhead := hc x (mem_cons_self ..) y hxy
    have htail := ih fun x hx => hc x (mem_cons_of_mem _ hx)
    rw [forall_mem_cons, forall_mem_cons, hhead, htail]

theorem forall₂_flip_iff_of_forall₂ {P : α → β → Prop} {R : β → α → Prop} {C : α → Prop}
    {xs : List α} {ys : List β} (h : Forall₂ P xs ys)
    (hc : ∀ x ∈ xs, ∀ y, P x y → (R y x ↔ C x)) : Forall₂ R ys xs ↔ ∀ x ∈ xs, C x := by
  induction h with
  | nil => simp
  | @cons x y xs ys hxy _ ih =>
    have hhead := hc x (mem_cons_self ..) y hxy
    have htail := ih fun x hx => hc x (mem_cons_of_mem _ hx)
    rw [forall₂_cons, hhead, htail, forall_mem_cons]

theorem forall₂_iff_forall_mem_right {P R : α → β → Prop} {D : β → Prop} {xs : List α} {ys : List β}
    (h : Forall₂ P xs ys) (hc : ∀ x ∈ xs, ∀ y, P x y → (R x y ↔ D y)) :
    Forall₂ R xs ys ↔ ∀ y ∈ ys, D y := by
  induction h with
  | nil => simp
  | @cons x y xs ys hxy _ ih =>
    have hhead := hc x (mem_cons_self ..) y hxy
    have htail := ih fun x hx => hc x (mem_cons_of_mem _ hx)
    rw [forall₂_cons, hhead, htail, forall_mem_cons]

theorem forall₂_iff_and_forall_mem {R S : α → β → Prop} {D : β → Prop} {xs : List α} {ys : List β}
    (h : ∀ x ∈ xs, ∀ y ∈ ys, R x y ↔ D y ∧ S x y) :
    Forall₂ R xs ys ↔ (∀ y ∈ ys, D y) ∧ Forall₂ S xs ys := by
  induction xs generalizing ys with
  | nil => cases ys <;> simp
  | cons x xs ih =>
    cases ys with
    | nil => simp
    | cons y ys =>
      have hhead := h x (mem_cons_self ..) y (mem_cons_self ..)
      have htail := @ih ys fun x hx y hy => h x (mem_cons_of_mem _ hx) y (mem_cons_of_mem _ hy)
      rw [forall₂_cons, forall₂_cons, forall_mem_cons, hhead, htail, and_and_and_comm]

theorem map_eq_map_iff_forall₂ {f : α → γ} {g : β → γ} {xs : List α} {ys : List β} :
    ys.map g = xs.map f ↔ Forall₂ (fun y x => g y = f x) ys xs := by
  rw [← forall₂_eq_eq_eq, forall₂_map_left_iff, forall₂_map_right_iff]

theorem exists_forall₂_of_forall₂ {P : α → β → Prop} {Q : β → γ → Prop} {R : α → γ → Prop}
    {xs : List α} {ys : List β} (h : Forall₂ P xs ys)
    (hc : ∀ x ∈ xs, ∀ y, P x y → ∃ z, Q y z ∧ R x z) :
    ∃ zs, Forall₂ Q ys zs ∧ Forall₂ R xs zs := by
  induction h with
  | nil => exact ⟨[], .nil, .nil⟩
  | @cons x y xs ys hxy _ ih =>
    obtain ⟨z, hq, hr⟩ := hc x (mem_cons_self ..) y hxy
    obtain ⟨zs, hqs, hrs⟩ := ih fun x hx => hc x (mem_cons_of_mem _ hx)
    exact ⟨z :: zs, .cons hq hqs, .cons hr hrs⟩

theorem Forall₂.exists_of_mem_left {R : α → β → Prop} {xs : List α} {ys : List β}
    (h : Forall₂ R xs ys) {x : α} (hx : x ∈ xs) : ∃ y ∈ ys, R x y := by
  induction h with
  | nil => cases hx
  | cons hr _ ih =>
    rcases mem_cons.1 hx with rfl | hx
    · exact ⟨_, mem_cons_self .., hr⟩
    · obtain ⟨y, hy, hr⟩ := ih hx
      exact ⟨y, mem_cons_of_mem _ hy, hr⟩

theorem Forall₂.exists_of_mem_right {R : α → β → Prop} {xs : List α} {ys : List β}
    (h : Forall₂ R xs ys) {y : β} (hy : y ∈ ys) : ∃ x ∈ xs, R x y :=
  Forall₂.exists_of_mem_left (R := flip R) h.flip hy

theorem exists_forall₂_iff {R : α → β → Prop} {xs : List α} :
    (∃ ys, Forall₂ R xs ys) ↔ ∀ x ∈ xs, ∃ y, R x y := by
  constructor
  · rintro ⟨ys, h⟩ x hx
    obtain ⟨y, -, hy⟩ := Forall₂.exists_of_mem_left h hx
    exact ⟨y, hy⟩
  · intro h
    induction xs with
    | nil => exact ⟨[], .nil⟩
    | cons x xs ih =>
      obtain ⟨y, hy⟩ := h x (mem_cons_self ..)
      obtain ⟨ys, hys⟩ := ih fun x hx => h x (mem_cons_of_mem _ hx)
      exact ⟨y :: ys, .cons hy hys⟩

/-- Where each member that is allowed has one result, all members are allowed and have theirs. -/
theorem forall₂_iff_eq_map {R : α → β → Prop} {P : α → Prop} {f : α → β} {xs : List α}
    {ys : List β} (h : ∀ x ∈ xs, ∀ y, R x y ↔ P x ∧ y = f x) :
    Forall₂ R xs ys ↔ (∀ x ∈ xs, P x) ∧ ys = xs.map f := by
  induction xs generalizing ys with
  | nil => simp
  | cons x xs ih =>
    have hhead := h x (mem_cons_self ..)
    have htail := fun ys => @ih ys fun x hx => h x (mem_cons_of_mem _ hx)
    simp only [forall₂_cons_left_iff, hhead, htail, forall_mem_cons, map_cons]
    constructor
    · rintro ⟨_, _, ⟨hx, rfl⟩, ⟨hxs, rfl⟩, rfl⟩
      exact ⟨⟨hx, hxs⟩, rfl⟩
    · rintro ⟨⟨hx, hxs⟩, rfl⟩
      exact ⟨_, _, ⟨hx, rfl⟩, ⟨hxs, rfl⟩, rfl⟩

end

namespace Entries

variable {ε α β : Type} {R : α → β → Prop} {es : List (String × α)} {fs : List (String × β)}

/-- The same keys in the same places, and under each of them related values. -/
abbrev Match (R : α → β → Prop) : List (String × α) → List (String × β) → Prop :=
  Forall₂ fun e f => e.1 = f.1 ∧ R e.2 f.2

theorem Match.keys (h : Match R es fs) : es.map Prod.fst = fs.map Prod.fst := by
  induction h with
  | nil => rfl
  | cons h _ ih => rw [map_cons, map_cons, h.1, ih]

theorem match_iff_keys_and_values :
    Match R es fs ↔ es.map Prod.fst = fs.map Prod.fst ∧ Forall₂ (fun e f => R e.2 f.2) es fs := by
  constructor
  · intro h
    exact ⟨h.keys, h.imp fun _ _ h => h.2⟩
  · rintro ⟨hk, hv⟩
    induction hv with
    | nil => exact .nil
    | cons hr _ ih =>
      obtain ⟨hkey, hk⟩ := cons.inj hk
      exact .cons ⟨hkey, hr⟩ (ih hk)

theorem Match.sorted (h : Match R es fs) (hs : Sorted es) : Sorted fs := by
  have hk : (es.map Prod.fst).Pairwise (· < ·) := pairwise_map.2 hs
  exact pairwise_map.1 (h.keys ▸ hk)

theorem exists_match_iff : (∃ fs, Match R es fs) ↔ ∀ e ∈ es, ∃ b, R e.2 b := by
  rw [exists_forall₂_iff]
  refine forall₂_congr fun e _ => ⟨?_, ?_⟩
  · rintro ⟨⟨_, b⟩, -, hb⟩
    exact ⟨b, hb⟩
  · rintro ⟨b, hb⟩
    exact ⟨(e.1, b), rfl, hb⟩

theorem match_iff_eq_map {P : α → Prop} {f : α → β}
    (h : ∀ e ∈ es, ∀ b, R e.2 b ↔ P e.2 ∧ b = f e.2) :
    Match R es fs ↔ (∀ e ∈ es, P e.2) ∧ fs = es.map fun (k, a) => (k, f a) := by
  refine forall₂_iff_eq_map fun e he g => ?_
  obtain ⟨k, a⟩ := e
  obtain ⟨l, b⟩ := g
  rw [h _ he, Prod.mk.injEq, and_left_comm, @eq_comm _ k]

theorem Match.add (h : Match R es fs) {key : String} {a : α} {b : β} (hr : R a b) :
    Match R (Entries.add key a es) (Entries.add key b fs) := by
  induction h with
  | nil => exact .cons ⟨rfl, hr⟩ .nil
  | @cons e f es fs h hs ih =>
    obtain ⟨k, v⟩ := e
    obtain ⟨_, w⟩ := f
    obtain ⟨rfl, hw⟩ := h
    simp only [Entries.add]
    split
    · exact .cons ⟨rfl, hr⟩ (.cons ⟨rfl, hw⟩ hs)
    · split
      · exact .cons ⟨rfl, hw⟩ hs
      · exact .cons ⟨rfl, hw⟩ ih

theorem Match.ofList (h : Match R es fs) : Match R (Entries.ofList es) (Entries.ofList fs) := by
  induction h with
  | nil => exact .nil
  | @cons e f es fs h _ ih =>
    obtain ⟨k, v⟩ := e
    obtain ⟨_, w⟩ := f
    obtain ⟨rfl, hw⟩ := h
    exact ih.add hw

/-- Entries with different keys match as they stand exactly if they match in order. -/
theorem match_ofList_iff (hr : Relator.RightUnique R) (hn : (es.map Prod.fst).Nodup)
    {gs : List (String × β)} :
    Match R (ofList es) gs ↔ ∃ fs, Match R es fs ∧ gs = ofList fs := by
  constructor
  · intro h
    -- the same entries stand on both sides of `ofList`, so each has its partner
    have hp := exists_match_iff.1 ⟨gs, h⟩
    obtain ⟨fs, hfs⟩ := exists_match_iff.2 fun e he => hp e ((ofList_perm hn).mem_iff.2 he)
    have hu : Relator.RightUnique fun (e : String × α) (f : String × β) => e.1 = f.1 ∧ R e.2 f.2 :=
      fun _ _ _ h h' => Prod.ext (h.1.symm.trans h'.1) (hr h.2 h'.2)
    exact ⟨fs, hfs, right_unique_forall₂' hu h (Match.ofList hfs)⟩
  · rintro ⟨fs, h, rfl⟩
    exact h.ofList

theorem eq_mapM {f : α → Except ε β}
    (g : List (String × α) → Except ε (List (String × β))) (hn : g [] = .ok [])
    (hc : ∀ k v es, g ((k, v) :: es) = do return (k, ← f v) :: (← g es)) (es : List (String × α)) :
    g es = es.mapM fun (k, v) => do return (k, ← f v) := by
  refine ItemStore.eq_mapM g hn (fun e es => ?_) es
  obtain ⟨k, v⟩ := e
  rw [hc]
  dsimp only
  cases f v <;> rfl

theorem mapM_eq_ok_iff {f : String → α → Except ε β} :
    (es.mapM fun (k, a) => do return (k, ← f k a)) = .ok fs ↔
      Forall₂ (fun e g => e.1 = g.1 ∧ f e.1 e.2 = .ok g.2) es fs := by
  have hstep : ∀ (e : String × α) (g : String × β),
      (do return (e.1, ← f e.1 e.2)) = Except.ok g ↔ e.1 = g.1 ∧ f e.1 e.2 = .ok g.2 := by
    rintro ⟨k, a⟩ ⟨l, b⟩
    rw [bind_pure_eq_ok]
    constructor
    · rintro ⟨_, h, he⟩
      cases he
      exact ⟨rfl, h⟩
    · rintro ⟨rfl, h⟩
      exact ⟨b, h, rfl⟩
  rw [ItemStore.mapM_eq_ok_iff]
  exact ⟨fun h => h.imp fun e g => (hstep e g).1, fun h => h.imp fun e g => (hstep e g).2⟩

theorem eq_ok_iff_match {f : α → Except ε β}
    (g : List (String × α) → Except ε (List (String × β))) (hn : g [] = .ok [])
    (hc : ∀ k v es, g ((k, v) :: es) = do return (k, ← f v) :: (← g es)) :
    g es = .ok fs ↔ Match (fun v w => f v = .ok w) es fs := by
  rw [eq_mapM g hn hc]
  exact mapM_eq_ok_iff (f := fun _ => f)

theorem eq_some_iff_match {f : α → Option β} (g : List (String × α) → Option (List (String × β)))
    (hn : g [] = some []) (hc : ∀ k v es, g ((k, v) :: es) = do return (k, ← f v) :: (← g es)) :
    g es = some fs ↔ Match (fun v w => f v = some w) es fs := by
  induction es generalizing fs with
  | nil => simp [hn, eq_comm]
  | cons e es ih =>
    obtain ⟨k, v⟩ := e
    simp only [hc, Option.bind_eq_bind, Option.bind_eq_some_iff, Option.pure_def, Option.some_inj,
      forall₂_cons_left_iff, ← ih]
    constructor
    · rintro ⟨w, hw, fs, hfs, rfl⟩
      exact ⟨(k, w), fs, ⟨rfl, hw⟩, hfs, rfl⟩
    · rintro ⟨⟨_, w⟩, fs, ⟨rfl, hw⟩, hfs, rfl⟩
      exact ⟨w, hw, fs, hfs, rfl⟩

end Entries
end ItemStore
