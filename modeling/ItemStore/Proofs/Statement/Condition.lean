import ItemStore.Proofs.Statement.Shape
import ItemStore.Proofs.Statement.Vacuity

/-!
Statements with a condition, and statements without one. A condition stands in a statement exactly
if the statement has parameters, and it is whole: nothing is left in it of parts that ask nothing.
-/
namespace ItemStore

namespace Token

def endsCondition : Token → Bool
  | .placeholder _ => true
  | .closing => true
  | _ => false

/-- Whether a word joins conditions. Behind a field that is called like a connective stands what is
asked of it, or a comma if it is an argument. -/
def isConnective (w : List Char) (after : List Token) : Bool :=
  (isKeyword "AND" w || isKeyword "OR" w) &&
    !(beginsCondition after || after.head? == some .comma)

def beginsOperand : List Token → Bool
  | .opening :: _ => true
  | .quoted _ :: _ => true
  | .word w :: ts => !isConnective w ts
  | _ => false

/-- Whether a token can stand between the one before it and those after it. Parentheses hold
something, and a connective joins two conditions. -/
def Fits (before : Option Token) (after : List Token) : Token → Prop
  | .closing => before ≠ some .opening
  | .word w => isConnective w after = true →
    before.any endsCondition = true ∧ beginsOperand after = true
  | _ => True

/-- Every token fits where it stands, the first of them behind another one if there is one. -/
def Tidy (before : Option Token) : List Token → Prop
  | [] => True
  | t :: ts => t.Fits before ts ∧ Tidy (some t) ts

end Token

open Token

namespace Predicate

theorem isConnective_of_isKeyword {k : String} {w : List Char} (hw : isKeyword k w = true)
    (ha : k ≠ "AND") (ho : k ≠ "OR") (after : List Token) : isConnective w after = false := by
  simp [isConnective, not_isKeyword hw ha, not_isKeyword hw ho]

theorem fits_of_isKeyword {k : String} {w : List Char} (hw : isKeyword k w = true)
    (ha : k ≠ "AND") (ho : k ≠ "OR") (before : Option Token) (after : List Token) :
    (Token.word w).Fits before after := by
  intro hc
  rw [isConnective_of_isKeyword hw ha ho] at hc
  cases hc

section

variable {t : Token} {field : String} {after : List Token}

theorem beginsOperand_of_field? (hf : t.field? = some field)
    (ha : (beginsCondition after || after.head? == some .comma) = true) :
    beginsOperand (t :: after) = true := by
  cases t with
  | word w => simp [beginsOperand, isConnective, ha]
  | quoted name => rfl
  | _ => cases hf

theorem fits_of_field? (hf : t.field? = some field)
    (ha : (beginsCondition after || after.head? == some .comma) = true) (before : Option Token) :
    t.Fits before after := by
  cases t with
  | word w =>
    intro hc
    simp [isConnective, ha] at hc
  | quoted name => trivial
  | _ => cases hf

end

theorem beginsCondition_sign {s : List Char} {op : Comparison}
    (h : Comparison.ofSign? s = some op) (ts : List Token) :
    beginsCondition (.sign s :: ts) = true := by
  rw [beginsCondition, h]
  rfl

theorem Derives.beginsOperand_append {l : Level} {ts : List Token} {p : Predicate}
    (h : Derives l ts p) (rest : List Token) : beginsOperand (ts ++ rest) = true := by
  induction h generalizing rest with
  | comparison n hf hs => exact beginsOperand_of_field? hf (by simp [beginsCondition_sign hs])
  | membership n ns hf hw =>
    have hb : ∀ us, beginsCondition (.word _ :: us) = true := fun us => hw
    exact beginsOperand_of_field? hf (by simp [hb])
  | containment n hf hw =>
    have hc := isConnective_of_isKeyword hw (by decide) (by decide)
    simp [beginsOperand, hc]
  | group _ ih => rfl
  | not hw _ _ _ =>
    have hc := isConnective_of_isKeyword hw (by decide) (by decide)
    simp [beginsOperand, hc]
  | single _ ih => exact ih rest
  | alternative _ ih => exact ih rest
  | and _ _ _ ihp _ =>
    rw [List.append_assoc]
    exact ihp _
  | or _ _ _ ihp _ =>
    rw [List.append_assoc]
    exact ihp _

theorem tidy_slotTokens {rest : List Token} (hr : Tidy (some .closing) rest) (n : Nat)
    (ns : List Nat) (before : Option Token) : Tidy before (slotTokens n ns ++ rest) := by
  induction ns generalizing n before with
  | nil => exact ⟨trivial, by simp [Fits], hr⟩
  | cons m ns ih => exact ⟨trivial, trivial, ih m _⟩

/-- What is derived is tidy behind any token, in front of what is tidy behind its last one. -/
theorem Derives.tidy_append {l : Level} {ts : List Token} {p : Predicate} (h : Derives l ts p)
    {before : Option Token} {rest : List Token}
    (hr : ∀ t, t.endsCondition = true → Tidy (some t) rest) : Tidy before (ts ++ rest) := by
  induction h generalizing before rest with
  | comparison n hf hs =>
    have hb := fun us => beginsCondition_sign hs us
    exact ⟨fits_of_field? hf (by simp [hb]) before, trivial, trivial, hr _ rfl⟩
  | membership n ns hf hw =>
    have hb : ∀ us, beginsCondition (.word _ :: us) = true := fun us => hw
    refine ⟨fits_of_field? hf (by simp [hb]) before, ?_, trivial, ?_⟩
    · exact fits_of_isKeyword hw (by decide) (by decide) _ _
    · exact tidy_slotTokens (hr _ rfl) n ns _
  | containment n hf hw =>
    refine ⟨?_, trivial, fits_of_field? hf (by simp) _, trivial, trivial, by simp [Fits], hr _ rfl⟩
    exact fits_of_isKeyword hw (by decide) (by decide) _ _
  | group _ ih =>
    have hc : ∀ t : Token, t.endsCondition = true → Tidy (some t) (.closing :: rest) := by
      intro t ht
      refine ⟨?_, hr _ rfl⟩
      rintro ⟨⟩
      cases ht
    simp only [List.cons_append, List.append_assoc]
    exact ⟨trivial, ih hc⟩
  | not hw _ _ ih => exact ⟨fits_of_isKeyword hw (by decide) (by decide) _ _, ih hr⟩
  | single _ ih => exact ih hr
  | alternative _ ih => exact ih hr
  | and _ _ hq ihp ihq =>
    rw [List.append_assoc]
    exact ihp fun t ht => ⟨fun _ => ⟨ht, hq.beginsOperand_append rest⟩, ihq hr⟩
  | or _ _ hq ihp ihq =>
    rw [List.append_assoc]
    exact ihp fun t ht => ⟨fun _ => ⟨ht, hq.beginsOperand_append rest⟩, ihq hr⟩

end Predicate

namespace Statement

variable {schema : Schema} {query : Query} {s : Statement}

theorem tidy_headTokens_append {table : String} {ts : List Token}
    (h : Tidy (some (.quoted table.toList)) ts) : Tidy none (headTokens table ++ ts) := by
  refine ⟨?_, trivial, ?_, trivial, h⟩
  · exact Predicate.fits_of_isKeyword (k := "SELECT") rfl (by decide) (by decide) _ _
  · exact Predicate.fits_of_isKeyword (k := "FROM") rfl (by decide) (by decide) _ _

theorem exists_tidy_textOf (schema : Schema) (f : Filter) :
    ∃ ts, Token.ofText? (textOf schema f.clauses) = some ts ∧ Tidy none ts := by
  by_cases hc : f.clauses = []
  · rw [hc]
    have hs : Tidy (some (.quoted schema.table.toList)) [] := trivial
    exact ⟨_, (ofText?_head schema).2, tidy_headTokens_append hs⟩
  · obtain ⟨ps, ts, p, -, -, ht, hd, -⟩ := ofText?_textOf schema hc
    refine ⟨_, ht, tidy_headTokens_append ⟨?_, ?_⟩⟩
    · exact Predicate.fits_of_isKeyword (k := "WHERE") rfl (by decide) (by decide) _ _
    · have hts : Tidy (some (.word "WHERE".toList)) (ts ++ []) :=
        hd.tidy_append fun _ _ => trivial
      rwa [List.append_nil] at hts

theorem reportsCapacity_iff (h : ofQuery schema query = .ok s) :
    s.reportsCapacity = true ↔ query.filter.clauses ≠ [] := by
  simp only [ofQuery, bind_pure_eq_ok] at h
  obtain ⟨ps, -, rfl⟩ := h
  simp

theorem parameters_ne_nil_iff (h : ofQuery schema query = .ok s) :
    s.parameters ≠ [] ↔ query.filter.clauses ≠ [] := by
  rw [ne_eq, ← List.length_eq_zero_iff, length_parameters h, List.length_eq_zero_iff,
    ← Filter.clauses_eq_nil_iff]

theorem length_head_lt_iff (h : ofQuery schema query = .ok s) :
    (head schema).length < s.text.length ↔ query.filter.clauses ≠ [] := by
  rw [(ofQuery_eq_ok h).2]
  by_cases hc : query.filter.clauses = []
  · simp [hc, textOf]
  · have hw : " WHERE ".length = 7 := rfl
    rw [textOf_of_ne_nil schema hc, String.length_append, String.length_append, hw]
    exact iff_of_true (by omega) hc

theorem exists_condition (h : ofQuery schema query = .ok s) (hc : query.filter.clauses ≠ []) :
    ∃ text p, s.text = head schema ++ " WHERE " ++ text ∧ text ≠ "" ∧
      Predicate.ofText? text = some p := by
  obtain ⟨p, hp, -⟩ := Filter.ofText?_conjunction hc
  refine ⟨_, p, (ofQuery_eq_ok h).2.trans (textOf_of_ne_nil schema hc), fun he => ?_, hp⟩
  rw [he] at hp
  cases hp

/-- A statement has parameters exactly if it asks for its capacity, and exactly if it is longer than
its head; what is longer goes on with a condition, and nothing else does. No parentheses in it are
empty, and every connective stands between two conditions. -/
theorem condition_iff_parameters (h : ofQuery schema query = .ok s) :
    ((s.parameters ≠ [] ↔ s.reportsCapacity = true) ∧
      (s.reportsCapacity = true ↔ (head schema).length < s.text.length)) ∧
    (s.parameters = [] → s.text = head schema) ∧
    (s.parameters ≠ [] → ∃ text p, s.text = head schema ++ " WHERE " ++ text ∧ text ≠ "" ∧
      Predicate.ofText? text = some p) ∧
    ∃ ts, Token.ofText? s.text = some ts ∧ Tidy none ts := by
  have hp := parameters_ne_nil_iff h
  have hr := reportsCapacity_iff h
  refine ⟨⟨hp.trans hr.symm, hr.trans (length_head_lt_iff h).symm⟩, fun hn => ?_,
    fun hn => exists_condition h (hp.1 hn), ?_⟩
  · rw [(ofQuery_eq_ok h).2, not_not.1 (mt hp.2 (not_not.2 hn))]
    rfl
  · rw [(ofQuery_eq_ok h).2]
    exact exists_tidy_textOf schema query.filter

def connectiveQuery : Query where
  filter := [.group .not [[]], .group .or [[.field "AND" (.compare [(.like, .text "u")])],
    [.field "b" (.among []), .group .and []], [.field "OR" (.equals (.text "v"))]]]

theorem condition_iff_parameters_of_connectives :
    ∃ s ts, ofQuery ⟨"t", [⟨"id", .partition⟩], []⟩ connectiveQuery = .ok s ∧
      s.text = "SELECT * FROM \"t\" WHERE (contains(AND, ?) OR OR = ?)" ∧
      s.reportsCapacity = true ∧ Token.ofText? s.text = some ts ∧ Tidy none ts := by
  have h : ofQuery ⟨"t", [⟨"id", .partition⟩], []⟩ connectiveQuery = .ok _ := rfl
  obtain ⟨⟨hp, -⟩, -, -, ts, ht, htidy⟩ := condition_iff_parameters h
  exact ⟨_, ts, h, rfl, hp.1 (by simp), ht, htidy⟩

end Statement
end ItemStore
