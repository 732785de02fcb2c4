import ItemStore.Proofs.Statement.Failure

/-!
Entries that ask nothing: they are the entries without literals, and the entries without clauses.
Whether they stand in a filter or not, at any level, the statement is the same.
-/
namespace ItemStore

open List

def Condition.isVacuous : Condition → Bool
  | .equals _ => false
  | .among vs => vs.isEmpty
  | .compare pairs => pairs.isEmpty

mutual

/-- Whether an entry asks nothing, as a group does of which no operand asks anything. -/
def FilterEntry.isVacuous : FilterEntry → Bool
  | .field _ condition => condition.isVacuous
  | .group _ operands => operandsVacuous operands

def entriesVacuous : List FilterEntry → Bool
  | [] => true
  | e :: es => e.isVacuous && entriesVacuous es

def operandsVacuous : List (List FilterEntry) → Bool
  | [] => true
  | f :: fs => entriesVacuous f && operandsVacuous fs

end

mutual

/-- An entry without the operands and entries within it that ask nothing. -/
def FilterEntry.pruned : FilterEntry → FilterEntry
  | .field name condition => .field name condition
  | .group op operands => .group op (prunedOperands operands)

def prunedEntries : List FilterEntry → List FilterEntry
  | [] => []
  | e :: es => if e.isVacuous then prunedEntries es else e.pruned :: prunedEntries es

def prunedOperands : List (List FilterEntry) → List (List FilterEntry)
  | [] => []
  | f :: fs =>
    if entriesVacuous f then prunedOperands fs else prunedEntries f :: prunedOperands fs

end

def Filter.pruned (f : Filter) : Filter := prunedEntries f

theorem entriesVacuous_iff {es : List FilterEntry} :
    entriesVacuous es = true ↔ ∀ e ∈ es, e.isVacuous = true := by
  induction es with
  | nil => simp [entriesVacuous]
  | cons e es ih => rw [entriesVacuous, Bool.and_eq_true, ih, forall_mem_cons]

theorem operandsVacuous_iff {fs : List (List FilterEntry)} :
    operandsVacuous fs = true ↔ ∀ f ∈ fs, entriesVacuous f = true := by
  induction fs with
  | nil => simp [operandsVacuous]
  | cons f fs ih => rw [operandsVacuous, Bool.and_eq_true, ih, forall_mem_cons]

/-! What asks nothing has no clauses and no literals, and everything else has both. -/

theorem Condition.clauses_eq_nil_iff {condition : Condition} {name : String} :
    condition.clauses name = [] ↔ condition.isVacuous = true := by
  cases condition with
  | equals v => simp [clauses, isVacuous]
  | among vs => cases vs <;> simp [clauses, isVacuous]
  | compare pairs => simp [clauses, isVacuous]

theorem Condition.literals_eq_nil_iff {condition : Condition} {name : String} :
    condition.literals name = [] ↔ condition.isVacuous = true := by
  cases condition <;> simp [literals, isVacuous]

theorem FilterEntry.clauses_eq_nil_iff {e : FilterEntry} :
    e.clauses = [] ↔ e.isVacuous = true := by
  induction e with
  | field name condition => exact condition.clauses_eq_nil_iff
  | group op operands ih =>
    have hg : (FilterEntry.group op operands).clauses = [] ↔ operandClauses operands = [] := by
      rw [clauses]
      cases operandClauses operands <;> simp
    rw [hg, operandClauses_eq_flatMap, flatMap_eq_nil_iff, isVacuous, operandsVacuous_iff]
    refine forall₂_congr fun f hf => ?_
    rw [entriesVacuous_iff, ← forall₂_congr (ih f hf), ← flatMap_eq_nil_iff,
      ← entryClauses_eq_flatMap]
    simp

theorem FilterEntry.literals_eq_nil_iff {e : FilterEntry} :
    e.literals = [] ↔ e.isVacuous = true := by
  induction e with
  | field name condition => exact condition.literals_eq_nil_iff
  | group op operands ih =>
    rw [literals, operandLiterals_eq_flatMap, flatMap_eq_nil_iff, isVacuous, operandsVacuous_iff]
    refine forall₂_congr fun f hf => ?_
    rw [entriesVacuous_iff, ← forall₂_congr (ih f hf), ← flatMap_eq_nil_iff,
      ← entryLiterals_eq_flatMap]

theorem entryClauses_eq_nil_iff {es : List FilterEntry} :
    entryClauses es = [] ↔ entriesVacuous es = true := by
  rw [entryClauses_eq_flatMap, flatMap_eq_nil_iff, entriesVacuous_iff]
  exact forall₂_congr fun e _ => e.clauses_eq_nil_iff

theorem entryLiterals_eq_nil_iff {es : List FilterEntry} :
    entryLiterals es = [] ↔ entriesVacuous es = true := by
  rw [entryLiterals_eq_flatMap, flatMap_eq_nil_iff, entriesVacuous_iff]
  exact forall₂_congr fun e _ => e.literals_eq_nil_iff

theorem Filter.clauses_eq_nil_iff {f : Filter} : f.clauses = [] ↔ f.literals = [] :=
  entryClauses_eq_nil_iff.trans entryLiterals_eq_nil_iff.symm

/-! Pruning. -/

section

variable {α β : Type}

theorem flatMap_map_filter {p : α → Bool} {t : α → α} {g : α → List β} {xs : List α}
    (hp : ∀ x ∈ xs, p x = true → g x = []) (ht : ∀ x ∈ xs, g (t x) = g x) :
    ((xs.filter fun x => !p x).map t).flatMap g = xs.flatMap g := by
  induction xs with
  | nil => rfl
  | cons x xs ih =>
    have hxs := ih (fun y hy => hp y (mem_cons_of_mem _ hy)) fun y hy => ht y (mem_cons_of_mem _ hy)
    rw [filter_cons, flatMap_cons, ← hxs]
    cases hx : p x with
    | true => simp [hp x (mem_cons_self ..) hx]
    | false => simp [ht x (mem_cons_self ..)]

theorem sublist_flatMap_map_filter {p : α → Bool} {t : α → α} {g : α → List β} {xs : List α}
    (ht : ∀ x ∈ xs, g (t x) <+ g x) :
    ((xs.filter fun x => !p x).map t).flatMap g <+ xs.flatMap g := by
  induction xs with
  | nil => exact .slnil
  | cons x xs ih =>
    have hxs := ih fun y hy => ht y (mem_cons_of_mem _ hy)
    rw [filter_cons, flatMap_cons]
    split
    · exact (ht x (mem_cons_self ..)).append hxs
    · exact hxs.trans (sublist_append_right ..)

end

theorem prunedEntries_eq_map (es : List FilterEntry) :
    prunedEntries es = (es.filter fun e => !e.isVacuous).map FilterEntry.pruned := by
  induction es with
  | nil => rfl
  | cons e es ih =>
    rw [prunedEntries, filter_cons, ih]
    cases e.isVacuous <;> rfl

theorem prunedOperands_eq_map (fs : List (List FilterEntry)) :
    prunedOperands fs = (fs.filter fun f => !entriesVacuous f).map prunedEntries := by
  induction fs with
  | nil => rfl
  | cons f fs ih =>
    rw [prunedOperands, filter_cons, ih]
    cases entriesVacuous f <;> rfl

theorem entryClauses_prunedEntries {es : List FilterEntry}
    (h : ∀ e ∈ es, e.pruned.clauses = e.clauses) :
    entryClauses (prunedEntries es) = entryClauses es := by
  rw [entryClauses_eq_flatMap, entryClauses_eq_flatMap, prunedEntries_eq_map]
  exact flatMap_map_filter (fun e _ => FilterEntry.clauses_eq_nil_iff.2) h

theorem entryLiterals_prunedEntries {es : List FilterEntry}
    (h : ∀ e ∈ es, e.pruned.literals = e.literals) :
    entryLiterals (prunedEntries es) = entryLiterals es := by
  rw [entryLiterals_eq_flatMap, entryLiterals_eq_flatMap, prunedEntries_eq_map]
  exact flatMap_map_filter (fun e _ => FilterEntry.literals_eq_nil_iff.2) h

theorem entryPartsAt_prunedEntries {es : List FilterEntry} {groups : Nat}
    (h : ∀ e ∈ es, e.pruned.partsAt groups <+ e.partsAt groups) :
    entryPartsAt groups (prunedEntries es) <+ entryPartsAt groups es := by
  rw [entryPartsAt_eq_flatMap, entryPartsAt_eq_flatMap, prunedEntries_eq_map]
  exact sublist_flatMap_map_filter h

namespace FilterEntry

theorem clauses_pruned (e : FilterEntry) : e.pruned.clauses = e.clauses := by
  induction e with
  | field name condition => rfl
  | group op operands ih =>
    have ho : operandClauses (prunedOperands operands) = operandClauses operands := by
      rw [operandClauses_eq_flatMap, operandClauses_eq_flatMap, prunedOperands_eq_map]
      refine flatMap_map_filter (fun f _ hv => ?_) fun f hf => ?_
      · rw [entryClauses_eq_nil_iff.2 hv]
        rfl
      · rw [entryClauses_prunedEntries (ih f hf)]
    rw [pruned, clauses, clauses, ho]

theorem literals_pruned (e : FilterEntry) : e.pruned.literals = e.literals := by
  induction e with
  | field name condition => rfl
  | group op operands ih =>
    rw [pruned, literals, literals, operandLiterals_eq_flatMap, operandLiterals_eq_flatMap,
      prunedOperands_eq_map]
    exact flatMap_map_filter (fun f _ => entryLiterals_eq_nil_iff.2) fun f hf =>
      entryLiterals_prunedEntries (ih f hf)

theorem partsAt_pruned (e : FilterEntry) (groups : Nat) :
    e.pruned.partsAt groups <+ e.partsAt groups := by
  induction e generalizing groups with
  | field name condition => exact .refl _
  | group op operands ih =>
    rw [pruned, partsAt, partsAt, operandPartsAt_eq_flatMap, operandPartsAt_eq_flatMap,
      prunedOperands_eq_map]
    exact sublist_flatMap_map_filter fun f hf =>
      (entryPartsAt_prunedEntries fun e he => ih f hf e he _).cons_cons _

end FilterEntry

namespace Filter

theorem clauses_pruned (f : Filter) : f.pruned.clauses = f.clauses :=
  entryClauses_prunedEntries fun e _ => e.clauses_pruned

theorem literals_pruned (f : Filter) : f.pruned.literals = f.literals :=
  entryLiterals_prunedEntries fun e _ => e.literals_pruned

theorem parameters_pruned {f : Filter} {ps : List Tagged} (h : f.parameters = .ok ps) :
    f.pruned.parameters = .ok ps := by
  have hf : ∀ p ∈ f.parts, p.fault? = none := exists_parameters_iff.1 ⟨ps, h⟩
  have hs : f.pruned.parts <+ f.parts :=
    entryPartsAt_prunedEntries fun e _ => e.partsAt_pruned 0
  obtain ⟨qs, hq⟩ := exists_parameters_iff.2 fun p hp => hf p (hs.subset hp)
  have hm := map_ok_of_parameters hq
  rw [literals_pruned, ← map_ok_of_parameters h] at hm
  rw [hq, map_injective_iff.2 (fun _ _ => Except.ok.inj) hm]

end Filter

namespace Statement

variable {schema : Schema} {query : Query} {s : Statement}

/-- A query that can be compiled gives the same statement without all that asks nothing in it. -/
theorem ofQuery_pruned (h : ofQuery schema query = .ok s) :
    ofQuery schema { query with filter := query.filter.pruned } = .ok s := by
  simp only [ofQuery, bind_pure_eq_ok] at h
  obtain ⟨ps, hp, rfl⟩ := h
  rw [ofQuery, Filter.parameters_pruned hp, Filter.clauses_pruned]
  rfl

def vacuousQuery : Query where
  filter := [.field "a" (.among []),
    .group .or [[], [.field "b" (.compare []), .group .not [[], [.field "c" (.among [])]]],
      [.field "d" (.equals (.text "u")), .group .and []]],
    .group .not [[.group .or []]]]
  limit := some 5
  token := some "next"

theorem ofQuery_pruned_vacuous :
    vacuousQuery.filter.pruned = [.group .or [[.field "d" (.equals (.text "u"))]]] ∧
      ∃ s, ofQuery ⟨"t", [⟨"id", .partition⟩], []⟩ vacuousQuery = .ok s ∧
        ofQuery ⟨"t", [⟨"id", .partition⟩], []⟩
          ⟨[.group .or [[.field "d" (.equals (.text "u"))]]], some 5, some "next"⟩ = .ok s := by
  have h : ofQuery ⟨"t", [⟨"id", .partition⟩], []⟩ vacuousQuery = .ok _ := rfl
  exact ⟨rfl, _, h, ofQuery_pruned h⟩

end Statement
end ItemStore
