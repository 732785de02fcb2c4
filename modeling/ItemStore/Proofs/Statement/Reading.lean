import ItemStore.Proofs.Filter.Predicate
import ItemStore.Proofs.Success
import ItemStore.Statement

/-!
Statements are read back: the placeholders stand where the literals of the filter stood, and the
condition means what the filter means.
-/
namespace ItemStore

open Token

def Predicate.ofText? (text : String) : Option Predicate :=
  (Token.ofText? text).bind Predicate.ofTokens?

namespace Statement

/-- The table of a statement and the predicate of its condition, if it has one. -/
def ofTokens? : List Token → Option (String × Option Predicate)
  | .word v :: .star :: .word w :: .quoted table :: ts =>
    if isKeyword "SELECT" v && isKeyword "FROM" w then
      match ts with
      | [] => some (String.ofList table, none)
      | .word u :: ts =>
        if isKeyword "WHERE" u then
          (Predicate.ofTokens? ts).map fun p => (String.ofList table, some p)
        else none
      | _ => none
    else none
  | _ => none

def read? (text : String) : Option (String × Option Predicate) :=
  (Token.ofText? text).bind ofTokens?

end Statement

theorem Token.Lexes.ofText? {m : Nat} {s : String} {ts : List Token} (h : Lexes 0 m s.toList ts) :
    ∃ ps, Piece.ofText? s = some ps ∧ Piece.placeholders ps = m ∧ Token.ofText? s = some ts := by
  obtain ⟨ps, hp, ht, hm⟩ := h
  have hs : Piece.ofText? s = some ps := by simpa [Piece.ofText?, Piece.outside] using hp []
  have hts : ofPieces? 0 ps = some ts := by simpa [ofPieces?] using ht []
  refine ⟨ps, hs, by simpa using hm.symm, ?_⟩
  rw [Token.ofText?, hs, Option.bind_some, hts]

namespace Filter

theorem lexes_conjunction {f : Filter} (h : f.clauses ≠ []) :
    ∃ ts p, Lexes 0 f.literals.length (conjunction (clauseTexts f.clauses)).toList ts ∧
      Predicate.Derives .conjunction ts p ∧ Connective.and.join (entryPredicates 0 f) = [p] := by
  have hr := entries_read f 0
  obtain ⟨c, cs, hc⟩ := List.exists_cons_of_ne_nil h
  rw [Filter.clauses] at hc
  rw [Filter.clauses, hc, Filter.literals]
  rw [hc, clauseTexts, Nat.zero_add] at hr
  generalize entryPredicates 0 f = ps at hr
  generalize (entryLiterals f).length = k at hr
  cases hr with
  | cons hl hd hr =>
    obtain ⟨ts, hts, hp⟩ := (Reads.cons hl hd hr).conjunction
    exact ⟨ts, _, hts, hp, rfl⟩

theorem literals_of_clauses {f : Filter} (h : f.clauses = []) :
    f.literals = [] ∧ entryPredicates 0 f = [] := by
  have hr := entries_read f 0
  rw [Filter.clauses] at h
  rw [h] at hr
  obtain ⟨hm, hp⟩ := hr.eq_of_nil
  exact ⟨List.length_eq_zero_iff.1 (by simpa [Filter.literals] using hm), hp⟩

theorem ofText?_conjunction {f : Filter} (h : f.clauses ≠ []) :
    ∃ p, Predicate.ofText? (conjunction (clauseTexts f.clauses)) = some p ∧
      Connective.and.join (entryPredicates 0 f) = [p] := by
  obtain ⟨ts, p, hl, hd, hp⟩ := lexes_conjunction h
  obtain ⟨ps, _, _, ht⟩ := hl.ofText?
  refine ⟨p, ?_, hp⟩
  rw [Predicate.ofText?, ht, Option.bind_some, (Predicate.Derives.alternative hd).ofTokens?]

end Filter

namespace Statement

theorem textOf_of_ne_nil (schema : Schema) {clauses : List Clause} (h : clauses ≠ []) :
    textOf schema clauses = head schema ++ " WHERE " ++ conjunction (clauseTexts clauses) := by
  cases clauses with
  | nil => exact absurd rfl h
  | cons c cs => rfl

def headTokens (table : String) : List Token :=
  [.word "SELECT".toList, .star, .word "FROM".toList, .quoted table.toList]

def headPieces (table : String) : List Piece :=
  "SELECT * FROM ".toList.map .char ++ [.quoted table.toList]

theorem toList_head (schema : Schema) :
    (head schema).toList = "SELECT * FROM ".toList ++ Identifier.quoted schema.table.toList := by
  rw [head, Identifier.quotedText, String.toList_append]
  exact congrArg ("SELECT * FROM ".toList ++ ·) String.toList_ofList

theorem outside_head (schema : Schema) (rest : List Char) (h : rest.head? ≠ some '"') :
    Piece.outside ((head schema).toList ++ rest) =
      (Piece.outside rest).map (headPieces schema.table ++ ·) := by
  rw [toList_head]
  exact Piece.outside_append_quoted (by decide) _ h

theorem ofPieces?_head (table : String) (qs : List Piece) :
    ofPieces? 0 (headPieces table ++ qs) = (ofPieces? 0 qs).map (headTokens table ++ ·) := by
  have hc : isClosed (headPieces table) = true := rfl
  have ht : ofPieces? 0 (headPieces table) = some (headTokens table) := rfl
  have hn : Piece.placeholders (headPieces table) = 0 := rfl
  rw [ofPieces?_append hc, ht, hn]
  rfl

theorem ofTokens?_head (table : String) :
    ofTokens? (headTokens table) = some (table, none) := by
  have ho : ofTokens? (headTokens table) = some (String.ofList table.toList, none) := rfl
  rw [ho, String.ofList_toList]

theorem ofTokens?_where (table : String) {ts : List Token} {p : Predicate}
    (h : Predicate.ofTokens? ts = some p) :
    ofTokens? (headTokens table ++ .word "WHERE".toList :: ts) = some (table, some p) := by
  have ho : ofTokens? (headTokens table ++ .word "WHERE".toList :: ts) =
      (Predicate.ofTokens? ts).map fun p => (String.ofList table.toList, some p) := rfl
  rw [ho, h, String.ofList_toList]
  rfl

theorem ofText?_head (schema : Schema) :
    Piece.ofText? (head schema) = some (headPieces schema.table) ∧
      Token.ofText? (head schema) = some (headTokens schema.table) := by
  have ho := outside_head schema [] (by simp)
  have ht := ofPieces?_head schema.table []
  rw [List.append_nil] at ho ht
  have hp : Piece.ofText? (head schema) = some (headPieces schema.table) := ho
  refine ⟨hp, ?_⟩
  rw [Token.ofText?, hp, Option.bind_some, ht]
  rfl

/-- The pieces and the tokens of a condition stand behind those of the head. -/
theorem ofText?_where (schema : Schema) {text : String} {m : Nat} {ts : List Token}
    (h : Lexes 0 m text.toList ts) :
    ∃ ps, Piece.ofText? (head schema ++ " WHERE " ++ text) = some ps ∧
      Piece.placeholders ps = m ∧
      Token.ofText? (head schema ++ " WHERE " ++ text) =
        some (headTokens schema.table ++ .word "WHERE".toList :: ts) := by
  have hw : Lexes 0 0 " WHERE ".toList [.word "WHERE".toList] := .of_chars (by decide) rfl rfl rfl
  obtain ⟨qs, hq, hts, hn⟩ := hw.append h
  have ho := outside_head schema (" WHERE ".toList ++ text.toList) (by simp)
  have hr : Piece.outside (" WHERE ".toList ++ text.toList) = some qs := by
    simpa [Piece.outside] using hq []
  have ht : ofPieces? 0 qs = some (.word "WHERE".toList :: ts) := by
    simpa [ofPieces?] using hts []
  have hs : Piece.ofText? (head schema ++ " WHERE " ++ text) =
      some (headPieces schema.table ++ qs) := by
    rw [hr] at ho
    simpa [Piece.ofText?] using ho
  have hz : Piece.placeholders (headPieces schema.table) = 0 := rfl
  refine ⟨headPieces schema.table ++ qs, hs, ?_, ?_⟩
  · rw [Piece.placeholders_append, hz, hn]
  · rw [Token.ofText?, hs, Option.bind_some, ofPieces?_head, ht]
    rfl

theorem ofText?_textOf (schema : Schema) {f : Filter} (h : f.clauses ≠ []) :
    ∃ ps ts p, Piece.ofText? (textOf schema f.clauses) = some ps ∧
      Piece.placeholders ps = f.literals.length ∧
      Token.ofText? (textOf schema f.clauses) =
        some (headTokens schema.table ++ .word "WHERE".toList :: ts) ∧
      Predicate.Derives .conjunction ts p ∧ Connective.and.join (entryPredicates 0 f) = [p] := by
  obtain ⟨ts, p, hl, hd, hp⟩ := Filter.lexes_conjunction h
  obtain ⟨ps, hs, hn, ht⟩ := ofText?_where schema hl
  rw [textOf_of_ne_nil schema h]
  exact ⟨ps, ts, p, hs, hn, ht, hd, hp⟩

/-- The text of a statement has one placeholder for each literal of the filter, and is read as the
table with the predicate of the filter. -/
theorem read?_textOf (schema : Schema) (f : Filter) :
    ∃ ps condition, Piece.ofText? (textOf schema f.clauses) = some ps ∧
      Piece.placeholders ps = f.literals.length ∧
      read? (textOf schema f.clauses) = some (schema.table, condition) ∧
      condition.toList = Connective.and.join (entryPredicates 0 f) := by
  by_cases hc : f.clauses = []
  · obtain ⟨hl, hp⟩ := Filter.literals_of_clauses hc
    obtain ⟨hs, ht⟩ := ofText?_head schema
    rw [hc, textOf]
    refine ⟨headPieces schema.table, none, hs, by rw [hl]; rfl, ?_, by rw [hp]; rfl⟩
    rw [read?, ht]
    exact ofTokens?_head schema.table
  · obtain ⟨ps, ts, p, hs, hn, ht, hd, hp⟩ := ofText?_textOf schema hc
    refine ⟨ps, some p, hs, hn, ?_, hp.symm⟩
    rw [read?, ht]
    exact ofTokens?_where schema.table (Predicate.Derives.alternative hd).ofTokens?

end Statement
end ItemStore
