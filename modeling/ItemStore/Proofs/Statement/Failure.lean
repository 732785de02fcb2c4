import ItemStore.Proofs.Failure
import ItemStore.Proofs.Filter.Node
import ItemStore.Proofs.Statement.Query

/-!
Which queries can be compiled, and what the others fail with. No operand may lie in too many groups,
whether it asks anything or not, and every literal has to be encodable. What comes first in a filter
decides the error.
-/
namespace ItemStore

open List

/-- What a filter is made of: the operands of its groups, each with the number of groups that it
lies in, and the literals that it compares with. -/
inductive FilterPart where
  | operand (groups : Nat)
  | literal (v : Value)

mutual

/-- The parts of an entry from left to right. An operand comes before its own entries. -/
def FilterEntry.partsAt (groups : Nat) : FilterEntry → List FilterPart
  | .field _ condition => condition.values.map .literal
  | .group _ operands => operandPartsAt (groups + 1) operands

def entryPartsAt (groups : Nat) : List FilterEntry → List FilterPart
  | [] => []
  | e :: es => e.partsAt groups ++ entryPartsAt groups es

def operandPartsAt (groups : Nat) : List (List FilterEntry) → List FilterPart
  | [] => []
  | f :: fs => .operand groups :: entryPartsAt groups f ++ operandPartsAt groups fs

end

def Filter.parts (f : Filter) : List FilterPart := entryPartsAt 0 f

theorem entryPartsAt_eq_flatMap (groups : Nat) (es : List FilterEntry) :
    entryPartsAt groups es = es.flatMap (FilterEntry.partsAt groups) :=
  eq_flatMap (entryPartsAt groups) rfl (fun _ _ => rfl) es

theorem operandPartsAt_eq_flatMap (groups : Nat) (fs : List (List FilterEntry)) :
    operandPartsAt groups fs = fs.flatMap fun f => .operand groups :: entryPartsAt groups f :=
  eq_flatMap (operandPartsAt groups) rfl (fun _ _ => rfl) fs

namespace FilterPart

def fault? : FilterPart → Option Error
  | .operand groups => if FilterError.maxDepth < groups then some (.filter .tooDeep) else none
  | .literal v =>
    match v.encode with
    | .ok _ => none
    | .error e => some (.codec e)

def literal? : FilterPart → Option Value
  | .operand _ => none
  | .literal v => some v

theorem fault?_literal_eq_some_iff {v : Value} {e : Error} :
    (literal v).fault? = some e ↔ v.encode.mapError .codec = .error e := by
  unfold fault?
  cases h : v.encode <;> simp [h, Except.mapError]

theorem fault?_eq_none_iff {p : FilterPart} :
    p.fault? = none ↔ (∀ n, p = .operand n → n ≤ FilterError.maxDepth) ∧
      ∀ v, p.literal? = some v → ∃ w, v.encode = .ok w := by
  cases p with
  | operand n => simp [fault?, literal?]
  | literal v =>
    unfold fault?
    cases h : v.encode <;> simp [literal?, h]

end FilterPart

namespace FilterEntry

theorem filterMap_partsAt (e : FilterEntry) (groups : Nat) :
    (e.partsAt groups).filterMap FilterPart.literal? = e.literals.map Prod.snd := by
  induction e generalizing groups with
  | field name condition =>
    have hl : FilterPart.literal? ∘ FilterPart.literal = some := rfl
    rw [partsAt, filterMap_map, hl, filterMap_some, literals, condition.map_snd_literals]
  | group op operands ih =>
    rw [partsAt, operandPartsAt_eq_flatMap, filterMap_flatMap, literals,
      operandLiterals_eq_flatMap, map_flatMap]
    refine flatMap_congr fun f hf => ?_
    rw [filterMap_cons_none rfl, entryPartsAt_eq_flatMap, filterMap_flatMap,
      entryLiterals_eq_flatMap, map_flatMap]
    exact flatMap_congr fun e he => ih f hf e he (groups + 1)

end FilterEntry

theorem Filter.filterMap_parts (f : Filter) :
    f.parts.filterMap FilterPart.literal? = f.literals.map Prod.snd := by
  rw [parts, literals, entryPartsAt_eq_flatMap, filterMap_flatMap, entryLiterals_eq_flatMap,
    map_flatMap]
  exact flatMap_congr fun e _ => e.filterMap_partsAt 0

theorem encodeValues_eq_error_iff {vs : List Value} {e : Error} :
    encodeValues vs = .error e ↔
      (vs.map FilterPart.literal).findSome? FilterPart.fault? = some e := by
  rw [encodeValues, mapM_eq_error_iff, map_eq_flatMap]
  refine firstFails_iff_findSome? fun v _ e => ?_
  rw [findSome?_singleton, FilterPart.fault?_literal_eq_some_iff]

theorem entryParameters_eq_error_iff {es : List FilterEntry} {groups : Nat} {e : Error}
    (h : ∀ g ∈ es, ∀ e, g.parametersAt groups = .error e ↔
      (g.partsAt groups).findSome? FilterPart.fault? = some e) :
    entryParameters groups es = .error e ↔
      (entryPartsAt groups es).findSome? FilterPart.fault? = some e := by
  rw [eq_error_iff_firstFails (entryParameters groups) rfl fun _ _ => rfl,
    entryPartsAt_eq_flatMap]
  exact firstFails_iff_findSome? h

def operandParametersAt (groups : Nat) (f : List FilterEntry) : Except Error (List Tagged) :=
  if FilterError.maxDepth < groups then .error FilterError.tooDeep else entryParameters groups f

theorem operandParameters_cons (groups : Nat) (f : List FilterEntry)
    (fs : List (List FilterEntry)) : operandParameters groups (f :: fs) = do
      return (← operandParametersAt groups f) ++ (← operandParameters groups fs) := by
  rw [operandParameters, operandParametersAt]
  split <;> rfl

theorem FilterEntry.parametersAt_eq_error_iff (entry : FilterEntry) {groups : Nat} {e : Error} :
    entry.parametersAt groups = .error e ↔
      (entry.partsAt groups).findSome? FilterPart.fault? = some e := by
  induction entry generalizing groups e with
  | field name condition => exact encodeValues_eq_error_iff
  | group op operands ih =>
    rw [parametersAt, partsAt, operandPartsAt_eq_flatMap,
      eq_error_iff_firstFails (operandParameters _) rfl (operandParameters_cons _)]
    refine firstFails_iff_findSome? fun f hf e => ?_
    -- the depth of an operand is looked at before its entries
    rw [operandParametersAt, findSome?_cons, FilterPart.fault?]
    split
    · simp
    · exact entryParameters_eq_error_iff fun g hg _ => ih f hf g hg

theorem Filter.parameters_eq_error_iff {f : Filter} {e : Error} :
    f.parameters = .error e ↔ f.parts.findSome? FilterPart.fault? = some e :=
  entryParameters_eq_error_iff fun g _ _ => g.parametersAt_eq_error_iff

theorem Filter.exists_parameters_iff {f : Filter} :
    (∃ ps, f.parameters = .ok ps) ↔ ∀ p ∈ f.parts, p.fault? = none := by
  rw [exists_eq_ok_iff, ← findSome?_eq_none_iff, Option.eq_none_iff_forall_ne_some]
  exact forall_congr' fun e => not_congr parameters_eq_error_iff

namespace Statement

/-- Exactly those queries can be compiled in which no operand lies in too many groups and every
literal can be encoded; any other fails as the first part of its filter that is faulty says. -/
theorem ofQuery_fails_at_first_fault (schema : Schema) (query : Query) :
    ((∃ s, ofQuery schema query = .ok s) ↔
      (∀ n, .operand n ∈ query.filter.parts → n ≤ FilterError.maxDepth) ∧
        ∀ l ∈ query.filter.literals, ∃ w, l.2.encode = .ok w) ∧
      ∀ e, ofQuery schema query = .error e ↔
        query.filter.parts.findSome? FilterPart.fault? = some e := by
  constructor
  · have hs : (∃ s, ofQuery schema query = .ok s) ↔ ∃ ps, query.filter.parameters = .ok ps := by
      simp only [ofQuery, bind_pure_eq_ok]
      rw [exists_comm]
      simp
    have hl : (∀ l ∈ query.filter.literals, ∃ w, l.2.encode = .ok w) ↔
        ∀ v ∈ query.filter.parts.filterMap FilterPart.literal?, ∃ w, v.encode = .ok w := by
      rw [query.filter.filterMap_parts, forall_mem_map]
    rw [hs, Filter.exists_parameters_iff, hl]
    simp only [FilterPart.fault?_eq_none_iff, forall₂_and, mem_filterMap]
    constructor
    · rintro ⟨hd, hv⟩
      exact ⟨fun n hp => hd _ hp n rfl, fun v ⟨p, hp, h⟩ => hv p hp v h⟩
    · rintro ⟨hd, hv⟩
      exact ⟨fun p hp n h => hd n (h ▸ hp), fun p hp v h => hv v ⟨p, hp, h⟩⟩
  · intro e
    rw [ofQuery, bind_pure_eq_error]
    exact Filter.parameters_eq_error_iff

/-- The bytes come before the operand that lies in seventeen groups. -/
example : ofQuery ⟨"t", [], []⟩ { filter := .group .or [[.field "a" (.equals (.binary [0]))]] ::
      (replicate 17 Connective.and).foldr (fun op f => [.group op [f]]) [] } =
    .error (.codec (.unclassifiable .binary)) := rfl

end Statement
end ItemStore
