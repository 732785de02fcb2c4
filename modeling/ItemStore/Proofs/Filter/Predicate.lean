import ItemStore.Proofs.Statement.Clause

/-!
The predicate of a filter has the filter's literals as its placeholders, in the same order and in
the same clauses, and it is true exactly if the filter is.
-/
namespace ItemStore

open Predicate

variable {σ : Atom → Bool}

/-! Placeholders. -/

theorem slots_chain {f : Predicate → Predicate → Predicate}
    (hf : ∀ p q, (f p q).slots = p.slots ++ q.slots) (p : Predicate) (ps : List Predicate) :
    (chain f p ps).slots = (p :: ps).flatMap slots := by
  induction ps generalizing p with
  | nil => simp [chain]
  | cons q qs ih =>
    have hc : (chain f p (q :: qs)).slots = p.slots ++ (chain f q qs).slots := hf p _
    rw [hc, ih]
    rfl

theorem slots_join (op : Connective) (ps : List Predicate) :
    (op.join ps).flatMap slots = ps.flatMap slots := by
  cases ps with
  | nil => rfl
  | cons p ps =>
    cases op <;> simp only [Connective.join, List.flatMap_cons, List.flatMap_nil, List.append_nil,
      slots, slots_chain (f := .and) (fun _ _ => rfl), slots_chain (f := .or) (fun _ _ => rfl)]

theorem Condition.slots_atoms (condition : Condition) (name : String) (n : Nat) :
    (condition.atoms name n).flatMap Atom.slots =
      ((condition.literals name).map Prod.fst).zipIdx n := by
  cases condition with
  | equals v => rfl
  | among vs =>
    cases vs with
    | nil => rfl
    | cons v vs =>
      have hs : ∀ (us : List Value) (n : Nat),
          (List.range' n us.length).map (fun i => (Clause.membership name (vs.length + 1), i)) =
            (us.map fun _ => Clause.membership name (vs.length + 1)).zipIdx n := by
        intro us
        induction us with
        | nil => intro n; rfl
        | cons u us ih => intro n; simpa [List.range'_succ] using ih (n + 1)
      simpa [atoms, literals, Atom.slots, Function.comp_def] using hs (v :: vs) n
  | compare pairs =>
    induction pairs generalizing n with
    | nil => rfl
    | cons p pairs ih => simpa [atoms, literals, Atom.slots] using ih (n + 1)

mutual

theorem FilterEntry.slots_predicates (e : FilterEntry) (n : Nat) :
    (e.predicates n).flatMap slots = (e.literals.map Prod.fst).zipIdx n := by
  cases e with
  | field name condition =>
    rw [FilterEntry.predicates, FilterEntry.literals, ← condition.slots_atoms, List.flatMap_map]
    rfl
  | group op operands =>
    rw [FilterEntry.predicates, FilterEntry.literals, slots_join]
    exact slots_operandPredicates operands n

theorem slots_entryPredicates (es : List FilterEntry) (n : Nat) :
    (entryPredicates n es).flatMap slots = ((entryLiterals es).map Prod.fst).zipIdx n := by
  cases es with
  | nil => rfl
  | cons e es =>
    rw [entryPredicates, entryLiterals, List.flatMap_append, List.map_append, List.zipIdx_append,
      List.length_map, e.slots_predicates, slots_entryPredicates es]

theorem slots_operandPredicates (fs : List (List FilterEntry)) (n : Nat) :
    (operandPredicates n fs).flatMap slots = ((operandLiterals fs).map Prod.fst).zipIdx n := by
  cases fs with
  | nil => rfl
  | cons f fs =>
    rw [operandPredicates, operandLiterals, List.flatMap_append, List.map_append,
      List.zipIdx_append, List.length_map, slots_join, slots_entryPredicates f,
      slots_operandPredicates fs]

end

/-! Truth. -/

theorem Connective.truth?_append (bs cs : List Bool) :
    Connective.and.truth? (bs ++ cs) =
      Connective.and.truth?
        ((Connective.and.truth? bs).toList ++ (Connective.and.truth? cs).toList) := by
  cases bs with
  | nil => cases cs <;> simp [truth?]
  | cons b bs => cases cs <;> simp [truth?, Bool.and_assoc]

theorem Connective.truth?_toList (b? : Option Bool) : Connective.and.truth? b?.toList = b? := by
  cases b? <;> simp [truth?]

theorem eval_chain_and (p : Predicate) (ps : List Predicate) :
    (chain .and p ps).eval σ = ((p :: ps).map (eval σ)).all id := by
  induction ps generalizing p with
  | nil => simp [chain]
  | cons q qs ih => simp [chain, eval, ih]

theorem eval_chain_or (p : Predicate) (ps : List Predicate) :
    (chain .or p ps).eval σ = ((p :: ps).map (eval σ)).any id := by
  induction ps generalizing p with
  | nil => simp [chain]
  | cons q qs ih => simp [chain, eval, ih]

theorem eval_join (op : Connective) (ps : List Predicate) :
    (op.join ps).map (eval σ) = (op.truth? (ps.map (eval σ))).toList := by
  cases ps with
  | nil => rfl
  | cons p ps =>
    cases op <;> simp only [Connective.join, List.map_cons, List.map_nil, eval, eval_chain_and,
      eval_chain_or] <;> rfl

mutual

theorem FilterEntry.eval_predicates (e : FilterEntry) (n : Nat) :
    Connective.and.truth? ((e.predicates n).map (eval σ)) = e.truth? σ n := by
  cases e with
  | field name condition =>
    rw [FilterEntry.predicates, FilterEntry.truth?, List.map_map]
    rfl
  | group op operands =>
    rw [FilterEntry.predicates, FilterEntry.truth?, eval_join, eval_operandPredicates operands,
      Connective.truth?_toList]

theorem eval_entryPredicates (es : List FilterEntry) (n : Nat) :
    Connective.and.truth? ((entryPredicates n es).map (eval σ)) =
      Connective.and.truth? (entryTruths σ n es) := by
  cases es with
  | nil => rfl
  | cons e es =>
    rw [entryPredicates, entryTruths, List.map_append, Connective.truth?_append,
      e.eval_predicates, eval_entryPredicates es,
      Connective.truth?_append (e.truth? σ n).toList (entryTruths σ _ es), Connective.truth?_toList]

theorem eval_operandPredicates (fs : List (List FilterEntry)) (n : Nat) :
    (operandPredicates n fs).map (eval σ) = operandTruths σ n fs := by
  cases fs with
  | nil => rfl
  | cons f fs =>
    rw [operandPredicates, operandTruths, List.map_append, eval_join, eval_entryPredicates f,
      eval_operandPredicates fs]

end

end ItemStore
