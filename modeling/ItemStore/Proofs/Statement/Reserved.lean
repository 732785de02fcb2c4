import Mathlib.Data.List.Forall2
import ItemStore.Proofs.Statement.Query

/-!
The words of a statement. Each word outside of quotes is one that the statement has of its own or a
segment of a field's name. A name that stands without quotes is not kept apart from the reserved
words, so its segments can be reserved; a name in quotes is no word at all.
-/
namespace ItemStore

/-- The words that a statement has of its own. -/
inductive OwnWord where
  | select | source | condition
  | group (op : Connective)
  | membership
  | containment
deriving DecidableEq

def OwnWord.text : OwnWord → String
  | select => "SELECT"
  | source => "FROM"
  | condition => "WHERE"
  | group op => op.keyword
  | membership => "IN"
  | containment => "contains"

inductive Fragment where
  | own (word : OwnWord)
  | field (name : String)
deriving DecidableEq

namespace Token

/-- Words are reserved in any case. -/
def isReserved (w : List Char) : Bool :=
  ["SELECT", "FROM", "WHERE", "AND", "OR", "NOT", "IN"].any (isKeyword · w)

/-- The words of a token that stands without quotes, between its dots. -/
def bareWords : Token → List (List Char)
  | .word w => Identifier.segments w
  | _ => []

end Token

namespace Fragment

open Token Identifier

/-- A field's name has its segments for words if all of them are plain, and else none. -/
def words : Fragment → List (List Char)
  | own w => [w.text.toList]
  | field name => if (segments name.toList).all isPlain then segments name.toList else []

theorem bareWords_ofName (name : String) :
    (ofName name.toList).bareWords = (field name).words := by
  unfold ofName
  by_cases h : (segments name.toList).all isPlain = true
  · simp only [words, if_pos h, bareWords]
  · simp only [words, if_neg h, bareWords]

def joined (op : Connective) (parts : List (List Fragment)) : List Fragment :=
  [own (.group op)].intercalate parts

end Fragment

namespace Token

/-- The text consists of the words of the fragments, and of what is no word, whatever follows it. -/
def HasWords (cs : List Char) (fs : List Fragment) : Prop :=
  ∀ n, ∃ m ts, Lexes n m cs ts ∧ ts.flatMap bareWords = fs.flatMap Fragment.words

namespace HasWords

variable {as bs cs : List Char} {fs gs : List Fragment} {texts : List String}
  {parts : List (List Fragment)}

theorem nil : HasWords [] [] := fun n => ⟨n, [], .nil n, rfl⟩

theorem append (h : HasWords as fs) (h' : HasWords bs gs) : HasWords (as ++ bs) (fs ++ gs) := by
  intro n
  obtain ⟨m, ts, hl, ht⟩ := h n
  obtain ⟨k, us, hl', hu⟩ := h' m
  refine ⟨k, ts ++ us, hl.append hl', ?_⟩
  rw [List.flatMap_append, List.flatMap_append, ht, hu]

theorem connective {op : Connective} (h : op ≠ .not) :
    HasWords (" " ++ op.keyword ++ " ").toList [.own (.group op)] := by
  intro n
  cases op with
  | and => exact ⟨n, [.word "AND".toList], Reads.lexes_connective (.inl rfl) n, rfl⟩
  | or => exact ⟨n, [.word "OR".toList], Reads.lexes_connective (.inr rfl) n, rfl⟩
  | not => exact absurd rfl h

theorem parentheses (h : HasWords cs fs) : HasWords ('(' :: (cs ++ [')'])) fs := by
  intro n
  obtain ⟨m, ts, hl, ht⟩ := h n
  refine ⟨m, .opening :: (ts ++ [.closing]), Reads.lexes_parentheses hl, ?_⟩
  simpa [bareWords] using ht

theorem negation (h : HasWords cs fs) :
    HasWords ("NOT ".toList ++ cs) (.own (.group .not) :: fs) :=
  have hn : HasWords "NOT ".toList [.own (.group .not)] :=
    fun n => ⟨n, [.word "NOT".toList], Reads.lexes_not n, rfl⟩
  hn.append h

theorem joined {op : Connective} (hop : op ≠ .not)
    (h : List.Forall₂ (fun t fs => HasWords t.toList fs) texts parts) :
    HasWords ((" " ++ op.keyword ++ " ").intercalate texts).toList (Fragment.joined op parts) := by
  induction h with
  | nil => exact nil
  | @cons t fs texts parts ht h ih =>
    cases h with
    | nil => simpa [Fragment.joined] using ht
    | cons hu h =>
      have hc := ht.append ((connective hop).append ih)
      simp only [Fragment.joined] at hc ⊢
      rw [String.intercalate_cons_cons, List.intercalate_cons_cons, List.append_assoc,
        String.toList_append, String.toList_append, List.append_assoc]
      exact hc

theorem conjunction (h : List.Forall₂ (fun t fs => HasWords t.toList fs) texts parts) :
    HasWords (ItemStore.conjunction texts).toList (Fragment.joined .and parts) := by
  have hop : Connective.and ≠ .not := by decide
  have hk : " " ++ Connective.keyword .and ++ " " = " AND " := by decide
  have hj := joined hop h
  rw [hk] at hj
  exact hj

end HasWords

end Token

/-- A containment has a word in front of the field. -/
def Comparison.fragments (name : String) : Comparison → List Fragment
  | like => [.own .containment, .field name]
  | _ => [.field name]

def Connective.fragments (parts : List (List Fragment)) : Connective → List Fragment
  | not => .own (.group .not) :: Fragment.joined .and parts
  | op => Fragment.joined op parts

mutual

def Clause.fragments : Clause → List Fragment
  | .comparison name op => op.fragments name
  | .membership name _ => [.field name, .own .membership]
  | .group op operands => op.fragments (operandFragments operands)

def clauseFragments : List Clause → List (List Fragment)
  | [] => []
  | c :: cs => c.fragments :: clauseFragments cs

def operandFragments : List (List Clause) → List (List Fragment)
  | [] => []
  | cs :: css => Fragment.joined .and (clauseFragments cs) :: operandFragments css

end

open Token Identifier

theorem OwnWord.isReserved_iff (k : OwnWord) :
    isReserved k.text.toList = true ↔ k ≠ .containment := by
  cases k with
  | group op => cases op <;> decide
  | _ => decide

/-- Own words are reserved but the one for containment; the words of names are as they are. -/
theorem Fragment.isReserved_iff (f : Fragment) (w : List Char) :
    w ∈ f.words ∧ isReserved w = true ↔
      (∃ k, k ≠ .containment ∧ f = .own k ∧ w = k.text.toList) ∨
        ∃ name, f = .field name ∧ (segments name.toList).all isPlain = true ∧
          w ∈ segments name.toList ∧ isReserved w = true := by
  cases f with
  | own k =>
    simp only [words, List.mem_singleton]
    constructor
    · rintro ⟨rfl, hr⟩
      exact .inl ⟨k, k.isReserved_iff.1 hr, rfl, rfl⟩
    · rintro (⟨_, hk, ⟨⟩, rfl⟩ | ⟨_, ⟨⟩, -⟩)
      exact ⟨rfl, k.isReserved_iff.2 hk⟩
  | field name =>
    by_cases hp : (segments name.toList).all isPlain = true
    · simp only [words, if_pos hp]
      constructor
      · rintro ⟨hw, hr⟩
        exact .inr ⟨name, rfl, hp, hw, hr⟩
      · rintro (⟨_, -, ⟨⟩, -⟩ | ⟨_, ⟨⟩, -, hw, hr⟩)
        exact ⟨hw, hr⟩
    · simp only [words, if_neg hp]
      constructor
      · rintro ⟨⟨⟩, -⟩
      · rintro (⟨_, -, ⟨⟩, -⟩ | ⟨_, ⟨⟩, hp', -⟩)
        exact absurd hp' hp

theorem Comparison.hasWords (op : Comparison) (name : String) :
    HasWords (op.text (Identifier.pathText name)).toList (op.fragments name) := by
  intro n
  by_cases h : op = .like
  · subst h
    refine ⟨n + 1, [.word "contains".toList, .opening, ofName name.toList, .comma, .placeholder n,
      .closing], ?_, ?_⟩
    · simpa [text, Identifier.pathText] using lexes_like name.toList n
    · simp only [List.flatMap_cons, Fragment.bareWords_ofName]
      rfl
  · refine ⟨n + 1, [ofName name.toList, .sign op.sign, .placeholder n], ?_, ?_⟩
    · rw [toList_text h, Identifier.pathText, String.toList_ofList]
      exact lexes h name.toList n
    · have hf : op.fragments name = [.field name] := by
        cases op with
        | like => exact absurd rfl h
        | _ => rfl
      rw [hf, List.flatMap_cons, Fragment.bareWords_ofName]
      rfl

theorem bareWords_slotTokens (n : Nat) (ns : List Nat) :
    (Predicate.slotTokens n ns).flatMap bareWords = [] := by
  induction ns generalizing n with
  | nil => rfl
  | cons m ns ih => exact ih m

theorem hasWords_membership (name : String) (count : Nat) :
    HasWords (Clause.membership name count).text.toList
      [.field name, .own .membership] := by
  intro n
  -- no filter has a choice among no values as a clause, but the text of one has the same words
  cases count with
  | zero =>
    have hl : Lexes n n (Identifier.path name.toList ++ " IN ()".toList)
        [ofName name.toList, .word "IN".toList, .opening, .closing] :=
      .path name.toList rfl (by decide) (.of_chars (by decide) rfl rfl rfl)
    refine ⟨n, [ofName name.toList, .word "IN".toList, .opening, .closing], ?_, ?_⟩
    · simpa [Clause.text, Identifier.pathText] using hl
    · rw [List.flatMap_cons, Fragment.bareWords_ofName]
      rfl
  | succ k =>
    refine ⟨n + k + 1, _, lexes_membership name n k, ?_⟩
    rw [List.flatMap_cons, Fragment.bareWords_ofName, List.flatMap_cons, List.flatMap_cons,
      bareWords_slotTokens]
    rfl

theorem hasWords_operand {texts : List String} {parts : List (List Fragment)}
    (h : List.Forall₂ (fun t fs => HasWords t.toList fs) texts parts) :
    HasWords (operandText texts).toList (Fragment.joined .and parts) := by
  unfold operandText
  split
  · simpa [conjunction] using HasWords.conjunction h
  · simpa using (HasWords.conjunction h).parentheses

theorem Connective.hasWords (op : Connective) {texts : List String} {parts : List (List Fragment)}
    (h : List.Forall₂ (fun t fs => HasWords t.toList fs) texts parts) :
    HasWords (op.text texts).toList (op.fragments parts) := by
  have hc := (HasWords.conjunction h).parentheses
  cases op with
  | and => simpa [text, keyword, fragments, conjunction] using hc
  | or =>
    have hop : Connective.or ≠ .not := by decide
    simpa [text, keyword, fragments] using (HasWords.joined hop h).parentheses
  | not => simpa [text, fragments] using hc.negation

mutual

theorem Clause.hasWords (c : Clause) : HasWords c.text.toList c.fragments := by
  cases c with
  | comparison name op => exact op.hasWords name
  | membership name count => exact hasWords_membership name count
  | group op operands => exact op.hasWords (operands_haveWords operands)

theorem clauses_haveWords (cs : List Clause) :
    List.Forall₂ (fun t fs => HasWords t.toList fs) (clauseTexts cs) (clauseFragments cs) := by
  cases cs with
  | nil => exact .nil
  | cons c cs => exact .cons c.hasWords (clauses_haveWords cs)

theorem operands_haveWords (css : List (List Clause)) :
    List.Forall₂ (fun t fs => HasWords t.toList fs) (operandTexts css)
      (operandFragments css) := by
  cases css with
  | nil => exact .nil
  | cons cs css => exact .cons (hasWords_operand (clauses_haveWords cs)) (operands_haveWords css)

end

namespace Statement

variable {schema : Schema} {query : Query} {s : Statement}

def fragments (clauses : List Clause) : List Fragment :=
  [.own .select, .own .source] ++
    match clauses with
    | [] => []
    | clauses => .own .condition :: Fragment.joined .and (clauseFragments clauses)

theorem exists_bareWords_textOf (schema : Schema) (clauses : List Clause) :
    ∃ ts, Token.ofText? (textOf schema clauses) = some ts ∧
      ts.flatMap bareWords = (fragments clauses).flatMap Fragment.words := by
  by_cases hc : clauses = []
  · subst hc
    exact ⟨_, (ofText?_head schema).2, rfl⟩
  · obtain ⟨m, ts, hl, ht⟩ := HasWords.conjunction (clauses_haveWords clauses) 0
    obtain ⟨ps, -, -, hts⟩ := ofText?_where schema hl
    rw [textOf_of_ne_nil schema hc]
    refine ⟨_, hts, ?_⟩
    have hf : fragments clauses = [.own .select, .own .source, .own .condition] ++
        Fragment.joined .and (clauseFragments clauses) := by
      cases clauses with
      | nil => exact absurd rfl hc
      | cons c cs => rfl
    rw [hf, List.flatMap_append, List.flatMap_append, List.flatMap_cons, ht]
    rfl

/-- The words of a statement outside of quotes are those of its fragments, from left to right, and
the reserved ones among them are these: the words that the statement has of its own as its head, as
connectives and negations and for memberships, and the segments that are spelled like one of them of
names that stand without quotes. -/
theorem reserved_words (h : ofQuery schema query = .ok s) :
    ∃ ts, Token.ofText? s.text = some ts ∧
      ts.flatMap bareWords = (fragments query.filter.clauses).flatMap Fragment.words ∧
      ∀ f ∈ fragments query.filter.clauses, ∀ w,
        w ∈ f.words ∧ isReserved w = true ↔
          (∃ k, k ≠ .containment ∧ f = .own k ∧ w = k.text.toList) ∨
            ∃ name, f = .field name ∧ (segments name.toList).all isPlain = true ∧
              w ∈ segments name.toList ∧ isReserved w = true := by
  obtain ⟨ts, hts, hw⟩ := exists_bareWords_textOf schema query.filter.clauses
  refine ⟨ts, ?_, hw, fun f _ w => f.isReserved_iff w⟩
  rw [(ofQuery_eq_ok h).2]
  exact hts

def reservedNames : Query where
  filter := [.field "order.From" (.equals (.text "u")),
    .group .not [[.field "not null" (.among [.text "v"])],
      [.field "In" (.compare [(.like, .text "w")])]]]

def plainTable : Schema := ⟨"where", [⟨"id", .partition⟩], []⟩

/-- The second segment of a name is reserved, and so is all of another. -/
theorem reserved_words_of_names :
    ∃ s ts, ofQuery plainTable reservedNames = .ok s ∧
      s.text = "SELECT * FROM \"where\" WHERE order.From = ? AND " ++
        "NOT (\"not null\" IN (?) AND contains(In, ?))" ∧
      Token.ofText? s.text = some ts ∧
      (ts.flatMap bareWords).map String.ofList = ["SELECT", "FROM", "WHERE", "order", "From", "AND",
        "NOT", "IN", "AND", "contains", "In"] ∧
      ("From".toList ∈ (Fragment.field "order.From").words ∧ isReserved "From".toList = true) ∧
      ("In".toList ∈ (Fragment.field "In").words ∧ isReserved "In".toList = true) := by
  have h : ofQuery plainTable reservedNames = .ok _ := rfl
  obtain ⟨ts, hts, hw, hr⟩ := reserved_words h
  refine ⟨_, ts, h, rfl, hts, ?_, ?_, ?_⟩
  · rw [hw]
    rfl
  · exact (hr (.field "order.From") (by decide) _).2
      (.inr ⟨_, rfl, by decide, by decide, by decide⟩)
  · exact (hr (.field "In") (by decide) _).2 (.inr ⟨_, rfl, by decide, by decide, by decide⟩)

/-- A field that is called like a connective is the word of the connective. -/
theorem exists_field_read_as_reserved :
    ∃ s, ofQuery plainTable ⟨[.field "AND" (.equals (.text "x"))], none, none⟩ = .ok s ∧
      s.text = "SELECT * FROM \"where\" WHERE AND = ?" ∧
      Token.ofText? s.text = some [.word "SELECT".toList, .star, .word "FROM".toList,
        .quoted "where".toList, .word "WHERE".toList, .word "AND".toList, .sign ['='],
        .placeholder 0] ∧
      fragments (Filter.clauses [.field "AND" (.equals (.text "x"))]) =
        [.own .select, .own .source, .own .condition, .field "AND"] ∧
      isReserved "AND".toList = true :=
  ⟨_, rfl, rfl, rfl, rfl, rfl⟩

end Statement
end ItemStore
