import ItemStore.Proofs.Statement.Reading

/-!
The statement of a query: its parameters are the literals of the filter, each at the placeholder of
its clause, and its condition is true exactly if the filter is.
-/
namespace ItemStore

/-! The parameters of a filter. -/

theorem Condition.map_snd_literals (condition : Condition) (name : String) :
    (condition.literals name).map Prod.snd = condition.values := by
  cases condition <;> simp [literals, values, Function.comp_def]

theorem map_ok_of_encodeValues {vs : List Value} {ps : List Tagged}
    (h : encodeValues vs = .ok ps) : ps.map Except.ok = vs.map Value.encode := by
  induction vs generalizing ps with
  | nil =>
    cases h
    rfl
  | cons v vs ih =>
    obtain ⟨p, qs, hp, hqs, rfl⟩ := mapM_cons_eq_ok.1 h
    rw [List.map_cons, List.map_cons, ih hqs, mapError_eq_ok.1 hp]

mutual

theorem FilterEntry.map_ok_of_parametersAt (e : FilterEntry) {depth : Nat} {ps : List Tagged}
    (h : e.parametersAt depth = .ok ps) :
    ps.map Except.ok = e.literals.map fun l => l.2.encode := by
  cases e with
  | field name condition =>
    have hv := map_ok_of_encodeValues h
    rw [hv, FilterEntry.literals, ← condition.map_snd_literals name, List.map_map]
    rfl
  | group op operands => exact map_ok_of_operandParameters operands h

theorem map_ok_of_entryParameters (es : List FilterEntry) {depth : Nat} {ps : List Tagged}
    (h : entryParameters depth es = .ok ps) :
    ps.map Except.ok = (entryLiterals es).map fun l => l.2.encode := by
  cases es with
  | nil =>
    cases h
    rfl
  | cons e es =>
    simp only [entryParameters, bind_eq_ok, pure_eq_ok] at h
    obtain ⟨qs, hq, rs, hr, rfl⟩ := h
    rw [entryLiterals, List.map_append, List.map_append, e.map_ok_of_parametersAt hq,
      map_ok_of_entryParameters es hr]

theorem map_ok_of_operandParameters (fs : List (List FilterEntry)) {depth : Nat}
    {ps : List Tagged} (h : operandParameters depth fs = .ok ps) :
    ps.map Except.ok = (operandLiterals fs).map fun l => l.2.encode := by
  cases fs with
  | nil =>
    cases h
    rfl
  | cons f fs =>
    rw [operandParameters] at h
    split at h
    · cases h
    · simp only [bind_eq_ok, pure_eq_ok] at h
      obtain ⟨qs, hq, rs, hr, rfl⟩ := h
      rw [operandLiterals, List.map_append, List.map_append, map_ok_of_entryParameters f hq,
        map_ok_of_operandParameters fs hr]

end

theorem Filter.map_ok_of_parameters {f : Filter} {ps : List Tagged} (h : f.parameters = .ok ps) :
    ps.map Except.ok = f.literals.map fun l => l.2.encode :=
  map_ok_of_entryParameters f h

theorem Filter.flatMap_slots_join (f : Filter) :
    (Connective.and.join (entryPredicates 0 f)).flatMap Predicate.slots =
      (f.literals.map Prod.fst).zipIdx := by
  rw [slots_join, slots_entryPredicates]
  rfl

theorem Filter.eval_of_join {f : Filter} {p : Predicate}
    (h : Connective.and.join (entryPredicates 0 f) = [p]) (σ : Atom → Bool) :
    some (p.eval σ) = f.truth? σ := by
  have he := eval_join (σ := σ) .and (entryPredicates 0 f)
  rw [h, eval_entryPredicates] at he
  rw [Filter.truth?]
  cases ht : Connective.and.truth? (entryTruths σ 0 f) with
  | none => simp [ht] at he
  | some b => simpa [ht] using he

namespace Statement

variable {schema : Schema} {query : Query} {s : Statement}

theorem ofQuery_eq_ok (h : ofQuery schema query = .ok s) :
    query.filter.parameters = .ok s.parameters ∧
      s.text = textOf schema query.filter.clauses := by
  simp only [ofQuery, bind_eq_ok, pure_eq_ok] at h
  obtain ⟨ps, hp, rfl⟩ := h
  exact ⟨hp, rfl⟩

/-- A query of which every name could be taken for another part of a statement. -/
def misleadingQuery : Query where
  filter := [.field "x\" = ? OR (" (.among [.text "u", .text "v"]),
    .group .not [[.field "NOT" (.equals (.bool true))], []],
    .group .or [[.field "contains" (.compare [(.like, .text "w"), (.gt, .text "7")])], []]]

def misleadingTable : Schema := ⟨"t\" WHERE ?", [⟨"id", .partition⟩], [⟨"id", .text⟩]⟩

/-- The placeholders of a statement outside of quoted names are as many as its parameters. The
clause of each is the clause of one literal of the filter, from left to right, and its parameter is
the encoded literal. -/
theorem placeholders_bound (h : ofQuery schema query = .ok s) :
    ∃ ps condition, Piece.ofText? s.text = some ps ∧
      Piece.placeholders ps = s.parameters.length ∧
      read? s.text = some (schema.table, condition) ∧
      condition.toList.flatMap Predicate.slots = (query.filter.literals.map Prod.fst).zipIdx ∧
      s.parameters.map Except.ok = query.filter.literals.map fun l => l.2.encode := by
  obtain ⟨hp, ht⟩ := ofQuery_eq_ok h
  have hs := Filter.map_ok_of_parameters hp
  have hl : s.parameters.length = query.filter.literals.length := by
    simpa using congrArg List.length hs
  obtain ⟨ps, condition, hps, hn, hr, hc⟩ := read?_textOf schema query.filter
  refine ⟨ps, condition, ht ▸ hps, by rw [hn, hl], ht ▸ hr, ?_, hs⟩
  rw [hc, Filter.flatMap_slots_join]

/-- Quotes, question marks and keywords in names change nothing. -/
theorem placeholders_bound_misleading :
    ∃ s, ofQuery misleadingTable misleadingQuery = .ok s ∧
      s.parameters = [.text "u", .text "v", .bool true, .text "w", .number "7"] ∧
      ∃ ps condition, Piece.ofText? s.text = some ps ∧ Piece.placeholders ps = 5 ∧
        read? s.text = some ("t\" WHERE ?", condition) ∧
        condition.toList.flatMap Predicate.slots =
          [(.membership "x\" = ? OR (" 2, 0), (.membership "x\" = ? OR (" 2, 1),
            (.comparison "NOT" .eq, 2), (.comparison "contains" .like, 3),
            (.comparison "contains" .gt, 4)] := by
  have h : ofQuery misleadingTable misleadingQuery = .ok _ := rfl
  obtain ⟨ps, condition, hps, hn, hr, hs, -⟩ := placeholders_bound h
  exact ⟨_, h, rfl, ps, condition, hps, hn, hr, hs⟩

/-- The condition of a statement is a predicate that is true exactly if the filter is, whichever of
the clauses are. -/
theorem eval_condition (h : ofQuery schema query = .ok s) {text : String}
    (ht : s.text = head schema ++ " WHERE " ++ text) :
    ∃ p, Predicate.ofText? text = some p ∧
      ∀ σ, some (p.eval σ) = query.filter.truth? σ := by
  rw [(ofQuery_eq_ok h).2] at ht
  cases hc : query.filter.clauses with
  | nil =>
    rw [hc, textOf] at ht
    have hl := congrArg String.length ht
    have hw : " WHERE ".length = 7 := rfl
    simp only [String.length_append] at hl
    omega
  | cons c cs =>
    have htext : text = conjunction (clauseTexts query.filter.clauses) := by
      rw [hc, textOf, String.append_right_inj] at ht
      · rw [hc, ht]
      · rintro ⟨⟩
    obtain ⟨p, hp, hj⟩ := Filter.ofText?_conjunction (f := query.filter) (by simp [hc])
    exact ⟨p, htext ▸ hp, Filter.eval_of_join hj⟩

theorem eval_condition_misleading :
    ∃ s text p, ofQuery misleadingTable misleadingQuery = .ok s ∧
      s.text = head misleadingTable ++ " WHERE " ++ text ∧ Predicate.ofText? text = some p ∧
      ∀ σ, p.eval σ = (σ (.membership "x\" = ? OR (" [0, 1]) &&
        (!σ (.comparison "NOT" .eq 2) && (σ (.comparison "contains" .like 3) &&
          σ (.comparison "contains" .gt 4)))) := by
  have h : ofQuery misleadingTable misleadingQuery = .ok _ := rfl
  obtain ⟨p, hp, he⟩ := eval_condition h rfl
  refine ⟨_, _, p, h, rfl, hp, fun σ => Option.some_inj.1 ((he σ).trans ?_)⟩
  simp [misleadingQuery, Filter.truth?, entryTruths, FilterEntry.truth?, operandTruths,
    FilterEntry.literals, operandLiterals, entryLiterals, Condition.literals, Condition.atoms,
    Connective.truth?, List.range']

end Statement
end ItemStore
