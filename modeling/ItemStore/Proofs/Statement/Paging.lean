import ItemStore.Proofs.Filter.Fields
import ItemStore.Proofs.Statement.Query

/-!
Paging does not change what is asked. A document's own limit and token are taken out by name before
its fields are read, so documents that differ in them only have the same text, the same parameters
and the same request for the consumed capacity. Members of groups with these names are fields.
-/
namespace ItemStore

namespace Query

/-- The members of a document other than its limit and its token. -/
def question (ms : List (String × Json)) : List (String × Json) :=
  ms.filter fun m => m.1 != "limit" && m.1 != "offset"

theorem groupFields_question (ms : List (String × Json)) :
    Filter.groupFields (question ms) = Filter.groupFields ms := by
  refine Filter.groupFields_filter fun m _ h => ?_
  rw [Bool.and_eq_true, bne_iff_ne, bne_iff_ne]
  constructor
  · intro hl
    rw [hl] at h
    cases h
  · intro ho
    rw [ho] at h
    cases h

end Query

namespace Statement

/-- A statement asks a table about fields: its condition consists of the clauses that the fields
ask, one after the other, and its parameters are their values, encoded. -/
def AsksAbout (s : Statement) (table : String) (fields : List (String × Json)) : Prop :=
  ∃ ls condition, Filter.AskAbout fields ls ∧ read? s.text = some (table, condition) ∧
    condition.toList.flatMap Predicate.slots = (ls.map Prod.fst).zipIdx ∧
    s.parameters.map Except.ok = ls.map fun l => l.2.encode

/-- What a statement takes over from a document. -/
structure Renders (s : Statement) (table : String) (ms : List (String × Json)) : Prop where
  token : Query.Optionally Query.IsToken (ms.lookup "offset") s.token
  fields : s.AsksAbout table (Filter.membersFields (Query.question ms))
  /-- The fields within groups are among them, whatever their names. -/
  groups : List.Sublist (Filter.groupFields ms) (Filter.membersFields (Query.question ms))

variable {schema : Schema} {ms ms' : List (String × Json)} {s s' : Statement}

theorem ofJson_object_eq_ok (h : ofJson schema (.object ms) = .ok s) :
    ∃ f, Filter.entriesOfMembers 0 (Query.question ms) = .ok f ∧ f.parameters = .ok s.parameters ∧
      s.text = textOf schema f.clauses ∧ s.reportsCapacity = !f.clauses.isEmpty ∧
      Query.Optionally Query.IsToken (ms.lookup "offset") s.token := by
  rw [ofJson, bind_eq_ok] at h
  obtain ⟨q, hq, hs⟩ := h
  obtain ⟨-, ht, -, hf⟩ := Query.isQuery_of_ofJson hq
  rw [ofQuery, bind_pure_eq_ok] at hs
  obtain ⟨ps, hp, rfl⟩ := hs
  exact ⟨q.filter, (Filter.entriesOfMembers_eq_ok_iff _).2 hf, hp, rfl, rfl, ht⟩

theorem renders_of_ofJson (h : ofJson schema (.object ms) = .ok s) :
    s.Renders schema.table ms := by
  obtain ⟨f, hf, hp, ht, -, hk⟩ := ofJson_object_eq_ok h
  have ha := ((Filter.entriesOfMembers_eq_ok_iff _).1 hf).askAbout
  obtain ⟨_, condition, -, -, hr, hc⟩ := read?_textOf schema f
  have hs := hc ▸ f.flatMap_slots_join
  refine ⟨hk, ⟨f.literals, condition, ha, ht ▸ hr, hs, Filter.map_ok_of_parameters hp⟩, ?_⟩
  rw [← Query.groupFields_question]
  exact Filter.groupFields_sublist _

/-- Documents that ask the same question differ in the page only, and no field within a group is
taken for a part of the page. -/
theorem ofJson_of_question_eq (hm : Query.question ms = Query.question ms')
    (h : ofJson schema (.object ms) = .ok s) (h' : ofJson schema (.object ms') = .ok s') :
    s.text = s'.text ∧ s.parameters = s'.parameters ∧ s.reportsCapacity = s'.reportsCapacity ∧
      s.Renders schema.table ms ∧ s'.Renders schema.table ms' := by
  obtain ⟨f, hf, hp, ht, hr, -⟩ := ofJson_object_eq_ok h
  obtain ⟨f', hf', hp', ht', hr', -⟩ := ofJson_object_eq_ok h'
  rw [← hm, hf] at hf'
  cases hf'
  rw [hp] at hp'
  refine ⟨ht.trans ht'.symm, Except.ok.inj hp', hr.trans hr'.symm, ?_, ?_⟩
  · exact renders_of_ofJson h
  · exact renders_of_ofJson h'

def pagedGroups : List (String × Json) :=
  [("$or", .object [("limit", .string "u"), ("offset", .array [.string "v", .string "w"])]),
    ("$not", .array [.object [("offset", .bool true)]])]

theorem ofJson_of_question_eq_pagedGroups :
    ∃ s s', ofJson misleadingTable (.object (("offset", .string "t") :: pagedGroups)) = .ok s ∧
      ofJson misleadingTable
        (.object (("limit", .string "9") :: pagedGroups ++ [("offset", .null)])) = .ok s' ∧
      s.text = s'.text ∧ s.parameters = s'.parameters ∧ s.limit = none ∧ s'.limit = some 9 ∧
      s.token = some "t" ∧ s'.token = none ∧
      s'.AsksAbout misleadingTable.table
        [("limit", .string "u"), ("offset", .array [.string "v", .string "w"]),
          ("offset", .bool true)] := by
  have h : ofJson misleadingTable (.object (("offset", .string "t") :: pagedGroups)) = .ok _ := rfl
  have h' : ofJson misleadingTable
      (.object (("limit", .string "9") :: pagedGroups ++ [("offset", .null)])) = .ok _ := rfl
  obtain ⟨ht, hp, -, -, hr⟩ := ofJson_of_question_eq (by rfl) h h'
  exact ⟨_, _, h, h', ht, hp, rfl, rfl, rfl, rfl, hr.fields⟩

end Statement
end ItemStore
