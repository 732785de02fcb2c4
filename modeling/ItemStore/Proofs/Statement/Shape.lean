import ItemStore.Proofs.Statement.Query

/-!
The text of a statement does not depend on the literals of its filter. It is the text of the filter
that is left when every literal is replaced by null, so literals reach the store as parameters only.
-/
namespace ItemStore

def Condition.blank : Condition → Condition
  | .equals _ => .equals .null
  | .among vs => .among (vs.map fun _ => .null)
  | .compare pairs => .compare (pairs.map fun p => (p.1, .null))

mutual

def FilterEntry.blank : FilterEntry → FilterEntry
  | .field name condition => .field name condition.blank
  | .group op operands => .group op (blankOperands operands)

def blankEntries : List FilterEntry → List FilterEntry
  | [] => []
  | e :: es => e.blank :: blankEntries es

def blankOperands : List (List FilterEntry) → List (List FilterEntry)
  | [] => []
  | f :: fs => blankEntries f :: blankOperands fs

end

def Filter.blank (f : Filter) : Filter := blankEntries f

/-- The filters differ in their literals only: they have the same groups with the same operands, the
same fields and comparisons, and choices among as many values. -/
def Filter.SameShape (f g : Filter) : Prop := f.blank = g.blank

theorem Condition.clauses_blank (condition : Condition) (name : String) :
    condition.blank.clauses name = condition.clauses name := by
  cases condition <;> simp [blank, clauses, Function.comp_def]

theorem Condition.literals_blank (condition : Condition) (name : String) :
    condition.blank.literals name = (condition.literals name).map fun l => (l.1, .null) := by
  cases condition <;> simp [blank, literals, Function.comp_def]

mutual

theorem FilterEntry.clauses_blank (e : FilterEntry) : e.blank.clauses = e.clauses := by
  cases e with
  | field name condition => exact condition.clauses_blank name
  | group op operands =>
    rw [FilterEntry.blank, FilterEntry.clauses, FilterEntry.clauses,
      operandClauses_blank operands]

theorem entryClauses_blank (es : List FilterEntry) :
    entryClauses (blankEntries es) = entryClauses es := by
  cases es with
  | nil => rfl
  | cons e es =>
    rw [blankEntries, entryClauses, entryClauses, e.clauses_blank, entryClauses_blank es]

theorem operandClauses_blank (fs : List (List FilterEntry)) :
    operandClauses (blankOperands fs) = operandClauses fs := by
  cases fs with
  | nil => rfl
  | cons f fs =>
    rw [blankOperands, operandClauses, operandClauses, entryClauses_blank f,
      operandClauses_blank fs]

end

mutual

theorem FilterEntry.literals_blank (e : FilterEntry) :
    e.blank.literals = e.literals.map fun l => (l.1, .null) := by
  cases e with
  | field name condition => exact condition.literals_blank name
  | group op operands =>
    rw [FilterEntry.blank, FilterEntry.literals, FilterEntry.literals,
      operandLiterals_blank operands]

theorem entryLiterals_blank (es : List FilterEntry) :
    entryLiterals (blankEntries es) = (entryLiterals es).map fun l => (l.1, .null) := by
  cases es with
  | nil => rfl
  | cons e es =>
    rw [blankEntries, entryLiterals, entryLiterals, List.map_append, e.literals_blank,
      entryLiterals_blank es]

theorem operandLiterals_blank (fs : List (List FilterEntry)) :
    operandLiterals (blankOperands fs) = (operandLiterals fs).map fun l => (l.1, .null) := by
  cases fs with
  | nil => rfl
  | cons f fs =>
    rw [blankOperands, operandLiterals, operandLiterals, List.map_append, entryLiterals_blank f,
      operandLiterals_blank fs]

end

namespace Filter.SameShape

variable {f g : Filter}

theorem clauses_eq (h : f.SameShape g) : f.clauses = g.clauses := by
  have hf : f.blank.clauses = f.clauses := entryClauses_blank f
  have hg : g.blank.clauses = g.clauses := entryClauses_blank g
  rw [← hf, ← hg, h]

theorem length_literals (h : f.SameShape g) : f.literals.length = g.literals.length := by
  have hf : f.blank.literals = f.literals.map fun l => (l.1, .null) := entryLiterals_blank f
  have hg : g.blank.literals = g.literals.map fun l => (l.1, .null) := entryLiterals_blank g
  rw [h, hg] at hf
  simpa using (congrArg List.length hf).symm

end Filter.SameShape

namespace Statement

variable {schema schema' : Schema} {query query' : Query} {s s' : Statement}

theorem length_parameters (h : ofQuery schema query = .ok s) :
    s.parameters.length = query.filter.literals.length := by
  simpa using congrArg List.length (Filter.map_ok_of_parameters (ofQuery_eq_ok h).1)

theorem textOf_congr (h : schema.table = schema'.table) (clauses : List Clause) :
    textOf schema clauses = textOf schema' clauses := by
  have hh : head schema = head schema' := by rw [head, head, h]
  cases clauses <;> simp only [textOf, hh]

/-- Two statements on one table whose filters differ in their literals only have the same text and
as many parameters. -/
theorem text_eq_of_sameShape (ht : schema.table = schema'.table)
    (hf : query.filter.SameShape query'.filter) (h : ofQuery schema query = .ok s)
    (h' : ofQuery schema' query' = .ok s') :
    s.text = s'.text ∧ s.parameters.length = s'.parameters.length := by
  constructor
  · rw [(ofQuery_eq_ok h).2, (ofQuery_eq_ok h').2, hf.clauses_eq, textOf_congr ht]
  · rw [length_parameters h, length_parameters h', hf.length_literals]

def misleadingLiterals : Query where
  filter := [.field "x\" = ? OR (" (.among [.text "?", .list [.text "\" OR \"", .null]]),
    .group .not [[.field "NOT" (.equals (.text "x' OR ?"))], []],
    .group .or [[.field "contains" (.compare [(.like, .map []), (.gt, .text ") AND (")])], []]]
  limit := some 3
  token := some "?"

/-- Literals that look like parts of a statement do not become such, whatever the table declares. -/
theorem text_eq_of_sameShape_misleading :
    misleadingQuery.filter.SameShape misleadingLiterals.filter ∧
      ∃ s s', ofQuery misleadingTable misleadingQuery = .ok s ∧
        ofQuery ⟨misleadingTable.table, [], [⟨"NOT", .binary⟩]⟩ misleadingLiterals = .ok s' ∧
        s.text = s'.text ∧ s.parameters.length = s'.parameters.length := by
  have hf : misleadingQuery.filter.SameShape misleadingLiterals.filter := rfl
  have h : ofQuery misleadingTable misleadingQuery = .ok _ := rfl
  have h' : ofQuery ⟨misleadingTable.table, [], [⟨"NOT", .binary⟩]⟩ misleadingLiterals = .ok _ := rfl
  exact ⟨hf, _, _, h, h', text_eq_of_sameShape rfl hf h h'⟩

end Statement
end ItemStore
