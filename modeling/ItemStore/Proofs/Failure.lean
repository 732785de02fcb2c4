import ItemStore.Proofs.Traversal

/-!
Where a chain of steps fails. A step on each member of a list fails as it does on the first member
that it fails on.
-/
namespace ItemStore

open List

variable {ε α β γ δ : Type}

theorem bind_eq_error {x : Except ε α} {f : α → Except ε β} {e : ε} :
    (x >>= f) = .error e ↔ x = .error e ∨ ∃ a, x = .ok a ∧ f a = .error e := by
  cases x <;> simp [bind, Except.bind]

theorem bind_pure_eq_error {x : Except ε α} {f : α → β} {e : ε} :
    (x >>= fun a => pure (f a)) = .error e ↔ x = .error e := by
  cases x <;> simp [bind, Except.bind, pure, Except.pure]

theorem mapError_eq_error {g : ε → γ} {x : Except ε α} {e : γ} :
    x.mapError g = .error e ↔ ∃ f, x = .error f ∧ g f = e := by
  cases x <;> simp [Except.mapError]

theorem exists_eq_ok_iff {x : Except ε α} : (∃ a, x = .ok a) ↔ ∀ e, x ≠ .error e := by
  cases x <;> simp

/-- A step that fails on some member of a list fails like this on the first of them. -/
def FirstFails (f : α → Except ε β) (e : ε) : List α → Prop
  | [] => False
  | x :: xs => f x = .error e ∨ (∃ y, f x = .ok y) ∧ FirstFails f e xs

theorem mapM_eq_error_iff {f : α → Except ε β} {e : ε} {xs : List α} :
    xs.mapM f = .error e ↔ FirstFails f e xs := by
  induction xs with
  | nil => simp [FirstFails, pure, Except.pure]
  | cons x xs ih =>
    rw [mapM_cons, bind_eq_error, FirstFails, ← ih]
    simp only [bind_pure_eq_error, exists_and_right]

theorem eq_error_iff_firstFails {f : α → Except ε (List β)} (g : List α → Except ε (List β))
    (hn : g [] = .ok []) (hc : ∀ x xs, g (x :: xs) = do return (← f x) ++ (← g xs)) {e : ε}
    {xs : List α} : g xs = .error e ↔ FirstFails f e xs := by
  induction xs with
  | nil => simp [hn, FirstFails]
  | cons x xs ih =>
    rw [hc, bind_eq_error, FirstFails, ← ih]
    simp only [bind_pure_eq_error, exists_and_right]

theorem FirstFails.exists_mem {f : α → Except ε β} {e : ε} {xs : List α} (h : FirstFails f e xs) :
    ∃ x ∈ xs, f x = .error e := by
  induction xs with
  | nil => exact h.elim
  | cons x xs ih =>
    rcases h with h | ⟨-, h⟩
    · exact ⟨x, mem_cons_self .., h⟩
    · obtain ⟨y, hy, he⟩ := ih h
      exact ⟨y, mem_cons_of_mem _ hy, he⟩

theorem firstFails_iff_append {f : α → Except ε β} {e : ε} {xs : List α} :
    FirstFails f e xs ↔ ∃ before x after, xs = before ++ x :: after ∧
      (∀ y ∈ before, ∃ z, f y = .ok z) ∧ f x = .error e := by
  induction xs with
  | nil => simp [FirstFails]
  | cons x xs ih =>
    rw [FirstFails, ih]
    constructor
    · rintro (h | ⟨hx, before, y, after, rfl, hb, hy⟩)
      · exact ⟨[], x, xs, rfl, forall_mem_nil _, h⟩
      · exact ⟨x :: before, y, after, rfl, forall_mem_cons.2 ⟨hx, hb⟩, hy⟩
    · rintro ⟨before, y, after, h, hb, hy⟩
      cases before with
      | nil =>
        cases h
        exact .inl hy
      | cons z before =>
        cases h
        obtain ⟨hx, hb⟩ := forall_mem_cons.1 hb
        exact .inr ⟨hx, before, y, after, rfl, hb, hy⟩

/-- Where a step fails as the first faulty part of its member says, the step on a whole list fails
as the first faulty part of all the members. -/
theorem firstFails_iff_findSome? {f : α → Except ε β} {parts : α → List γ} {fault? : γ → Option ε}
    {e : ε} {xs : List α}
    (h : ∀ x ∈ xs, ∀ e, f x = .error e ↔ (parts x).findSome? fault? = some e) :
    FirstFails f e xs ↔ (xs.flatMap parts).findSome? fault? = some e := by
  induction xs with
  | nil => simp [FirstFails]
  | cons x xs ih =>
    have hx := h x (mem_cons_self ..)
    have hxs := ih fun y hy => h y (mem_cons_of_mem _ hy)
    rw [FirstFails, hx, hxs, flatMap_cons, findSome?_append, Option.or_eq_some_iff,
      Option.eq_none_iff_forall_ne_some]
    simp only [exists_eq_ok_iff, ne_eq, hx]

theorem firstFails_map_iff {t : α → γ} {f : γ → Except ε β} {g : α → Except ε δ} {e : ε}
    {xs : List α} (h : ∀ x ∈ xs, ∀ e, f (t x) = .error e ↔ g x = .error e) :
    FirstFails f e (xs.map t) ↔ FirstFails g e xs := by
  induction xs with
  | nil => exact Iff.rfl
  | cons x xs ih =>
    have hhead := h x (mem_cons_self ..)
    have htail := ih fun x hx => h x (mem_cons_of_mem _ hx)
    simp only [map_cons, FirstFails, exists_eq_ok_iff, ne_eq, hhead, htail]

theorem mapM_mapError {g : ε → γ} {f : α → Except ε β} {xs : List α} :
    (xs.mapM fun x => (f x).mapError g) = (xs.mapM f).mapError g := by
  induction xs with
  | nil => rfl
  | cons x xs ih =>
    rw [mapM_cons, mapM_cons, ih]
    cases f x with
    | error e => rfl
    | ok y => cases xs.mapM f <;> rfl

theorem mapM_bind_pure {g : β → γ} {f : α → Except ε β} {xs : List α} :
    (xs.mapM fun x => do return g (← f x)) = (xs.mapM f).map (List.map g) := by
  induction xs with
  | nil => rfl
  | cons x xs ih =>
    rw [mapM_cons, mapM_cons, ih]
    cases f x with
    | error e => rfl
    | ok y => cases xs.mapM f <;> rfl

/-- The same outcome, unless the first is that error. -/
def CutOff (e : ε) (x y : Except ε α) : Prop := x = .error e ∨ x = y

theorem CutOff.refl {e : ε} (x : Except ε α) : CutOff e x x := .inr rfl

theorem CutOff.bind_pure {e : ε} {x y : Except ε α} (h : CutOff e x y) (f : α → β) :
    CutOff e (x >>= fun a => pure (f a)) (y >>= fun a => pure (f a)) := by
  rcases h with rfl | rfl
  · exact .inl rfl
  · exact .inr rfl

theorem cutOff_mapM {f g : α → Except ε β} {e : ε} {xs : List α}
    (h : ∀ x ∈ xs, CutOff e (f x) (g x)) : CutOff e (xs.mapM f) (xs.mapM g) := by
  induction xs with
  | nil => exact .refl _
  | cons x xs ih =>
    rw [mapM_cons, mapM_cons]
    rcases h x (mem_cons_self ..) with hx | hx
    · rw [hx]
      exact .inl rfl
    rw [hx]
    cases g x with
    | error e => exact .refl _
    | ok y => exact (ih fun x hx => h x (mem_cons_of_mem _ hx)).bind_pure (y :: ·)

end ItemStore
