import ItemStore.Proofs.Codec.Document
import ItemStore.Proofs.Filter.Grammar
import ItemStore.Statement

/-!
The filter of a document can always be compiled. Along the grammar, an operand stands as deep for
the compiler as its block stands for the reader, and a literal is a document within the limit.
-/
namespace ItemStore

open List

theorem exists_append_eq_ok {ε α : Type} {x y : Except ε (List α)} :
    (∃ zs, (do return (← x) ++ (← y)) = Except.ok zs) ↔ (∃ xs, x = .ok xs) ∧ ∃ ys, y = .ok ys := by
  cases x <;> cases y <;> simp

theorem exists_encodeValues_iff {vs : List Value} :
    (∃ ps, encodeValues vs = .ok ps) ↔ ∀ v ∈ vs, ∃ w, v.encode = .ok w := by
  simp only [encodeValues, mapM_eq_ok_iff, exists_forall₂_iff, mapError_eq_ok]

theorem exists_entryParameters_cons {d : Nat} {e : FilterEntry} {es : List FilterEntry} :
    (∃ ps, entryParameters d (e :: es) = .ok ps) ↔
      (∃ ps, e.parametersAt d = .ok ps) ∧ ∃ ps, entryParameters d es = .ok ps := by
  rw [entryParameters]
  exact exists_append_eq_ok

theorem exists_entryParameters_singleton {d : Nat} {e : FilterEntry} :
    (∃ ps, entryParameters d [e] = .ok ps) ↔ ∃ ps, e.parametersAt d = .ok ps := by
  rw [exists_entryParameters_cons]
  exact and_iff_left ⟨[], rfl⟩

theorem exists_entryParameters_append {d : Nat} {es fs : List FilterEntry} :
    (∃ ps, entryParameters d (es ++ fs) = .ok ps) ↔
      (∃ ps, entryParameters d es = .ok ps) ∧ ∃ ps, entryParameters d fs = .ok ps := by
  induction es with
  | nil => exact (and_iff_right ⟨[], rfl⟩).symm
  | cons e es ih =>
    rw [cons_append, exists_entryParameters_cons, exists_entryParameters_cons, ih, and_assoc]

theorem exists_operandParameters_cons {d : Nat} {f : Filter} {fs : List Filter} :
    (∃ ps, operandParameters d (f :: fs) = .ok ps) ↔
      d ≤ FilterError.maxDepth ∧ (∃ ps, entryParameters d f = .ok ps) ∧
        ∃ ps, operandParameters d fs = .ok ps := by
  simp only [operandParameters, ite_error_eq_ok, Nat.not_lt, exists_and_left]
  exact and_congr_right' exists_append_eq_ok

namespace Filter

theorem IsField.exists_entryParameters {key : String} {v : Json} {es : List FilterEntry}
    (h : IsField key v es) (d : Nat) : ∃ ps, entryParameters d es = .ok ps := by
  cases h with
  | @comparisons ms pairs h =>
    refine exists_entryParameters_singleton.2 (exists_encodeValues_iff.2 ?_)
    intro u hu
    obtain ⟨p, hp, rfl⟩ := mem_map.1 hu
    obtain ⟨m, -, -, hn, hm⟩ := Forall₂.exists_of_mem_right h hp
    exact hm ▸ Value.exists_encode_ofJson hn
  | @alternatives vs h =>
    refine exists_entryParameters_singleton.2 (exists_encodeValues_iff.2 ?_)
    exact forall_mem_map.2 fun v hv => Value.exists_encode_ofJson (h v hv)
  | scalar h =>
    split
    · refine exists_entryParameters_singleton.2 (exists_encodeValues_iff.2 ?_)
      exact forall_mem_singleton.2 (Value.exists_encode_ofJson_of_isScalar h)
    · exact ⟨[], rfl⟩

mutual

theorem IsEntry.exists_entryParameters {d : Nat} {key : String} {v : Json}
    {es : List FilterEntry} : IsEntry d key v es → ∃ ps, entryParameters d es = .ok ps
  | .blocks _ h => exists_entryParameters_singleton.2 h.exists_operandParameters
  | .members _ h => exists_entryParameters_singleton.2 h.exists_operandParameters
  | .field _ h => h.exists_entryParameters d

theorem AreEntries.exists_entryParameters {d : Nat} {ms : List (String × Json)} {f : Filter} :
    AreEntries d ms f → ∃ ps, entryParameters d f = .ok ps
  | .nil => ⟨[], rfl⟩
  | .cons h hs =>
    exists_entryParameters_append.2 ⟨h.exists_entryParameters, hs.exists_entryParameters⟩

theorem IsBlock.exists_entryParameters {d : Nat} {ms : List (String × Json)} {f : Filter} :
    IsBlock d ms f → d ≤ FilterError.maxDepth ∧ ∃ ps, entryParameters d f = .ok ps
  | .intro hd h => ⟨hd, h.exists_entryParameters⟩

theorem AreBlocks.exists_operandParameters {d : Nat} {vs : List Json} {fs : List Filter} :
    AreBlocks d vs fs → ∃ ps, operandParameters d fs = .ok ps
  | .nil => ⟨[], rfl⟩
  | .cons h hs =>
    have ⟨hd, hp⟩ := h.exists_entryParameters
    exists_operandParameters_cons.2 ⟨hd, hp, hs.exists_operandParameters⟩

theorem AreOperands.exists_operandParameters {d : Nat} {ms : List (String × Json)}
    {fs : List Filter} : AreOperands d ms fs → ∃ ps, operandParameters d fs = .ok ps
  | .nil => ⟨[], rfl⟩
  | .cons h hs =>
    have ⟨hd, hp⟩ := h.exists_entryParameters
    exists_operandParameters_cons.2 ⟨hd, hp, hs.exists_operandParameters⟩

end

end Filter

namespace Statement

theorem exists_ofQuery_of_isQuery {v : Json} {q : Query} (h : Query.IsQuery v q) (schema : Schema) :
    ∃ s, ofQuery schema q = .ok s := by
  obtain ⟨-, -, hf⟩ := h
  obtain ⟨-, ps, hp⟩ := hf.exists_entryParameters
  have hp' : q.filter.parameters = .ok ps := hp
  rw [ofQuery, hp']
  exact ⟨_, rfl⟩

/-- A document that is a query can be compiled for every table, so a document fails exactly as it
fails to be a query. -/
theorem ofJson_eq_error_iff (schema : Schema) (v : Json) :
    (∀ q, Query.ofJson v = .ok q → ∃ s, ofQuery schema q = .ok s) ∧
      ∀ e, ofJson schema v = .error e ↔ Query.ofJson v = .error e := by
  have hq : ∀ q, Query.ofJson v = .ok q → ∃ s, ofQuery schema q = .ok s :=
    fun q h => exists_ofQuery_of_isQuery (Query.isQuery_of_ofJson h) schema
  refine ⟨hq, fun e => ?_⟩
  cases h : Query.ofJson v with
  | error f =>
    have hs : ofJson schema v = .error f := by rw [ofJson, h]; rfl
    simp [hs]
  | ok q =>
    obtain ⟨s, hs⟩ := hq q h
    rw [ofJson, h]
    exact iff_of_false (by rintro h; cases hs.symm.trans h) (by rintro ⟨⟩)

def nestedDocument : Json :=
  .object [("$Not", .array [.object [("a", .array [.array [.string "u"]])], .object []]),
    ("limit", .bool false)]

theorem ofJson_eq_error_iff_nested :
    ∃ q s, Query.ofJson nestedDocument = .ok q ∧
      q.filter = [.group .not [[.field "a" (.among [.list [.text "u"]])], []]] ∧
      ofQuery ⟨"t", [⟨"id", .partition⟩], []⟩ q = .ok s := by
  have hq : Query.ofJson nestedDocument = .ok _ := rfl
  obtain ⟨s, hs⟩ := (ofJson_eq_error_iff ⟨"t", [⟨"id", .partition⟩], []⟩ nestedDocument).1 _ hq
  exact ⟨_, s, hq, rfl, hs⟩

end Statement
end ItemStore
