import ItemStore.Proofs.Filter.Meaning
import ItemStore.Proofs.Statement.Grammar
import ItemStore.Proofs.Statement.Name

/-!
The text of a filter's clauses is read as the predicate of the filter. Each clause is a factor that
ends where its text ends, so the clauses around it cannot change how it is read.
-/
namespace ItemStore

open Token Predicate

namespace Token

@[simp] theorem field?_ofName (name : String) : (ofName name.toList).field? = some name := by
  unfold ofName
  split <;> simp [field?]

end Token

namespace Comparison

def sign : Comparison → List Char
  | .eq => ['=']
  | .ne => ['<', '>']
  | .ge => ['>', '=']
  | .gt => ['>']
  | .le => ['<', '=']
  | .lt => ['<']
  | .like => []

theorem ofSign?_sign {op : Comparison} (h : op ≠ .like) : ofSign? op.sign = some op := by
  cases op with
  | like => exact absurd rfl h
  | _ => rfl

theorem toList_text {op : Comparison} (h : op ≠ .like) (path : String) :
    (op.text path).toList = path.toList ++ ' ' :: (op.sign ++ [' ', '?']) := by
  cases op with
  | like => exact absurd rfl h
  | _ => simp [text, sign]

theorem lexes {op : Comparison} (h : op ≠ .like) (name : List Char) (n : Nat) :
    Lexes n (n + 1) (Identifier.path name ++ ' ' :: (op.sign ++ [' ', '?']))
      [ofName name, .sign op.sign, .placeholder n] := by
  refine .path name rfl (by decide) ?_
  cases op with
  | like => exact absurd rfl h
  | _ => exact .of_chars (by decide) rfl rfl rfl

theorem lexes_like (name : List Char) (n : Nat) :
    Lexes n (n + 1) ("contains(".toList ++ (Identifier.path name ++ ", ?)".toList))
      [.word "contains".toList, .opening, ofName name, .comma, .placeholder n, .closing] := by
  have hc : Lexes n n "contains(".toList [.word "contains".toList, .opening] :=
    .of_chars (by decide) rfl rfl rfl
  have ha : Lexes n (n + 1) [',', ' ', '?', ')'] [.comma, .placeholder n, .closing] :=
    .of_chars (by decide) rfl rfl rfl
  exact hc.append (.path name rfl (by decide) ha)

theorem derives (op : Comparison) (name : String) (n : Nat) :
    ∃ ts, Lexes n (n + 1) (op.text (Identifier.pathText name)).toList ts ∧
      Derives .factor ts (.atom (.comparison name op n)) := by
  by_cases h : op = .like
  · subst h
    refine ⟨_, ?_, .containment n (field?_ofName name) (w := "contains".toList) (by decide)⟩
    simpa [text, Identifier.pathText] using lexes_like name.toList n
  · refine ⟨_, ?_, .comparison n (field?_ofName name) (ofSign?_sign h)⟩
    rw [toList_text h, Identifier.pathText, String.toList_ofList]
    exact lexes h name.toList n

end Comparison

theorem Token.lexes_slots (n k : Nat) :
    Lexes n (n + k + 1) ((",".intercalate (List.replicate (k + 1) "?")).toList ++ [')'])
      (slotTokens n (List.range' (n + 1) k)) := by
  induction k generalizing n with
  | zero => exact .of_chars (by decide) rfl rfl rfl
  | succ k ih =>
    have hc : Lexes n (n + 1) ['?', ','] [.placeholder n, .comma] :=
      .of_chars (by decide) rfl rfl rfl
    have h := hc.append (ih (n + 1))
    rw [List.replicate_succ, List.replicate_succ, String.intercalate_cons_cons,
      ← List.replicate_succ, List.range'_succ]
    simpa [slotTokens, Nat.add_assoc, Nat.add_comm 1 k] using h

theorem Token.lexes_membership (name : String) (n k : Nat) :
    Lexes n (n + k + 1) (Clause.membership name (k + 1)).text.toList
      (ofName name.toList :: .word "IN".toList :: .opening ::
        slotTokens n (List.range' (n + 1) k)) := by
  have hp : Lexes n n (Identifier.path name.toList ++ [' ', 'I', 'N', ' ', '('])
      [ofName name.toList, .word ['I', 'N'], .opening] :=
    .path name.toList rfl (by decide) (.of_chars (by decide) rfl rfl rfl)
  have h := hp.append (Token.lexes_slots n k)
  simpa [Clause.text, Identifier.pathText] using h

theorem derives_membership (name : String) (n k : Nat) :
    ∃ ts, Lexes n (n + k + 1) (Clause.membership name (k + 1)).text.toList ts ∧
      Derives .factor ts (.atom (.membership name (List.range' n (k + 1)))) :=
  ⟨_, Token.lexes_membership name n k,
    .membership n (List.range' (n + 1) k) (field?_ofName name) (by decide)⟩

/-! Predicates of filters. -/

/-- Predicates joined by one operation, which nests to the right. -/
def Predicate.chain (f : Predicate → Predicate → Predicate) (p : Predicate) :
    List Predicate → Predicate
  | [] => p
  | q :: qs => f p (chain f q qs)

/-- The predicate of a group; a group of none has none. -/
def Connective.join (op : Connective) : List Predicate → List Predicate
  | [] => []
  | p :: ps =>
    match op with
    | .and => [chain .and p ps]
    | .or => [chain .or p ps]
    | .not => [.not (chain .and p ps)]

mutual

/-- The predicates of an entry's clauses, where the first literal has the place `n`. -/
def FilterEntry.predicates (n : Nat) : FilterEntry → List Predicate
  | .field name condition => (condition.atoms name n).map .atom
  | .group op operands => op.join (operandPredicates n operands)

def entryPredicates (n : Nat) : List FilterEntry → List Predicate
  | [] => []
  | e :: es => e.predicates n ++ entryPredicates (n + e.literals.length) es

def operandPredicates (n : Nat) : List (List FilterEntry) → List Predicate
  | [] => []
  | f :: fs =>
    Connective.and.join (entryPredicates n f) ++ operandPredicates (n + (entryLiterals f).length) fs

end

/-- Texts that are read as predicates, each from where the one before it ends. -/
inductive Reads : Nat → Nat → List String → List Predicate → Prop
  | nil (n : Nat) : Reads n n [] []
  | cons {n m k t ts p texts ps} : Lexes n m (String.toList t) ts → Derives .factor ts p →
    Reads m k texts ps → Reads n k (t :: texts) (p :: ps)

namespace Reads

theorem append {n m k : Nat} {as bs : List String} {ps qs : List Predicate} (h : Reads n m as ps)
    (h' : Reads m k bs qs) : Reads n k (as ++ bs) (ps ++ qs) := by
  induction h with
  | nil => exact h'
  | cons hl hd _ ih => exact .cons hl hd (ih h')

theorem eq_of_nil {n m : Nat} {ps : List Predicate} (h : Reads n m [] ps) : m = n ∧ ps = [] := by
  cases h
  exact ⟨rfl, rfl⟩

theorem single {n m : Nat} {t : String} {ts : List Token} {p : Predicate}
    (hl : Lexes n m t.toList ts) (hd : Derives .factor ts p) : Reads n m [t] [p] :=
  .cons hl hd (.nil m)

theorem lexes_connective {w : String} (h : w = "AND" ∨ w = "OR") (n : Nat) :
    Lexes n n (" " ++ w ++ " ").toList [.word w.toList] := by
  rcases h with rfl | rfl
  · exact .of_chars (by decide) rfl rfl rfl
  · exact .of_chars (by decide) rfl rfl rfl

theorem lexes_parentheses {n m : Nat} {cs : List Char} {ts : List Token} (h : Lexes n m cs ts) :
    Lexes n m ('(' :: (cs ++ [')'])) (.opening :: (ts ++ [.closing])) := by
  have ho : Lexes n n ['('] [.opening] := .of_chars (by decide) rfl rfl rfl
  have hc : Lexes m m [')'] [.closing] := .of_chars (by decide) rfl rfl rfl
  exact ho.append (h.append hc)

theorem lexes_not (n : Nat) : Lexes n n ['N', 'O', 'T', ' '] [.word ['N', 'O', 'T']] :=
  .of_chars (by decide) rfl rfl rfl

theorem joined {l : Level} {w : String} {f : Predicate → Predicate → Predicate}
    (hw : w = "AND" ∨ w = "OR")
    (single : ∀ {ts p}, Derives .factor ts p → Derives l ts p)
    (more : ∀ {ts us p q}, Derives .factor ts p → Derives l us q →
      Derives l (ts ++ .word w.toList :: us) (f p q))
    {n m : Nat} {t : String} {texts : List String} {p : Predicate} {ps : List Predicate}
    (h : Reads n m (t :: texts) (p :: ps)) :
    ∃ ts, Lexes n m ((" " ++ w ++ " ").intercalate (t :: texts)).toList ts ∧
      Derives l ts (chain f p ps) := by
  induction texts generalizing n t p ps with
  | nil =>
    cases h with
    | cons hl hd h =>
      cases h
      exact ⟨_, by simpa using hl, single hd⟩
  | cons u texts ih =>
    cases h with
    | cons hl hd h =>
      cases h with
      | cons hl' hd' h =>
        obtain ⟨us, hu, hq⟩ := ih (.cons hl' hd' h)
        have hc := hl.append ((lexes_connective hw _).append hu)
        refine ⟨_, ?_, more hd hq⟩
        simpa [String.intercalate_cons_cons] using hc

theorem conjunction {n m : Nat} {t : String} {texts : List String} {p : Predicate}
    {ps : List Predicate} (h : Reads n m (t :: texts) (p :: ps)) :
    ∃ ts, Lexes n m (ItemStore.conjunction (t :: texts)).toList ts ∧
      Derives .conjunction ts (chain .and p ps) :=
  h.joined (.inl rfl) .single (.and (by decide))

theorem disjunction {n m : Nat} {t : String} {texts : List String} {p : Predicate}
    {ps : List Predicate} (h : Reads n m (t :: texts) (p :: ps)) :
    ∃ ts, Lexes n m (" OR ".intercalate (t :: texts)).toList ts ∧
      Derives .disjunction ts (chain .or p ps) :=
  h.joined (.inr rfl) (fun h => .alternative (.single h)) fun h => .or (by decide) (.single h)

theorem operand {n m : Nat} {texts : List String} {ps : List Predicate} (h : Reads n m texts ps)
    (hne : texts ≠ []) :
    ∃ p ts, Connective.and.join ps = [p] ∧ Lexes n m (operandText texts).toList ts ∧
      Derives .factor ts p := by
  cases h with
  | nil => exact absurd rfl hne
  | @cons _ k _ t ts p texts ps hl hd h =>
    cases h with
    | nil => exact ⟨p, ts, rfl, hl, hd⟩
    | @cons _ _ _ u _ q texts ps hl' hd' h =>
      obtain ⟨us, hu, hq⟩ := (Reads.cons hl hd (.cons hl' hd' h)).conjunction
      have ho := lexes_parentheses hu
      exact ⟨_, _, rfl, by simpa [operandText] using ho, .group (.alternative hq)⟩

theorem group {n m : Nat} {texts : List String} {ps : List Predicate} (h : Reads n m texts ps)
    (hne : texts ≠ []) (op : Connective) : Reads n m [op.text texts] (op.join ps) := by
  cases h with
  | nil => exact absurd rfl hne
  | @cons _ k _ t ts p texts ps hl hd h =>
    have hr := Reads.cons hl hd h
    cases op with
    | and =>
      obtain ⟨us, hu, hq⟩ := hr.conjunction
      have ho := lexes_parentheses hu
      refine .single ?_ (.group (.alternative hq))
      simpa [Connective.text, Connective.keyword, ItemStore.conjunction] using ho
    | or =>
      obtain ⟨us, hu, hq⟩ := hr.disjunction
      have ho := lexes_parentheses hu
      refine .single ?_ (.group hq)
      simpa [Connective.text, Connective.keyword] using ho
    | not =>
      obtain ⟨us, hu, hq⟩ := hr.conjunction
      have ho := (lexes_not n).append (lexes_parentheses hu)
      refine .single ?_ (.not (w := ['N', 'O', 'T']) (by decide) rfl (.group (.alternative hq)))
      simpa [Connective.text] using ho

end Reads

theorem clauseTexts_append (as bs : List Clause) :
    clauseTexts (as ++ bs) = clauseTexts as ++ clauseTexts bs := by
  induction as with
  | nil => rfl
  | cons a as ih => rw [List.cons_append, clauseTexts, ih, clauseTexts, List.cons_append]

theorem clauseTexts_ne_nil {cs : List Clause} (h : cs ≠ []) : clauseTexts cs ≠ [] := by
  cases cs with
  | nil => exact absurd rfl h
  | cons c cs => simp [clauseTexts]

theorem Condition.reads (condition : Condition) (name : String) (n : Nat) :
    Reads n (n + (condition.literals name).length) (clauseTexts (condition.clauses name))
      ((condition.atoms name n).map .atom) := by
  cases condition with
  | equals v =>
    obtain ⟨ts, hl, hd⟩ := Comparison.derives .eq name n
    exact .single hl hd
  | among vs =>
    cases vs with
    | nil => exact .nil n
    | cons v vs =>
      obtain ⟨ts, hl, hd⟩ := derives_membership name n vs.length
      refine .single ?_ hd
      simpa [Condition.literals, Nat.add_assoc] using hl
  | compare pairs =>
    induction pairs generalizing n with
    | nil => exact .nil n
    | cons p pairs ih =>
      obtain ⟨ts, hl, hd⟩ := Comparison.derives p.1 name n
      have h := (Reads.single hl hd).append (ih (n + 1))
      simpa [Condition.literals, Condition.clauses, Condition.atoms, clauseTexts, Clause.text,
        Nat.add_assoc, Nat.add_comm 1] using h

mutual

theorem FilterEntry.reads (e : FilterEntry) (n : Nat) :
    Reads n (n + e.literals.length) (clauseTexts e.clauses) (e.predicates n) := by
  cases e with
  | field name condition => exact condition.reads name n
  | group op operands =>
    have h := operands_read operands n
    cases hc : operandClauses operands with
    | nil =>
      rw [hc] at h
      obtain ⟨hm, hp⟩ := h.eq_of_nil
      simp only [FilterEntry.clauses, hc, clauseTexts, FilterEntry.literals, FilterEntry.predicates,
        hm, hp]
      exact .nil n
    | cons cs css =>
      rw [hc] at h
      simp only [FilterEntry.clauses, hc, clauseTexts, Clause.text, FilterEntry.literals,
        FilterEntry.predicates]
      exact h.group (by simp [operandTexts]) op

theorem entries_read (es : List FilterEntry) (n : Nat) :
    Reads n (n + (entryLiterals es).length) (clauseTexts (entryClauses es))
      (entryPredicates n es) := by
  cases es with
  | nil => exact .nil n
  | cons e es =>
    have h := (e.reads n).append (entries_read es (n + e.literals.length))
    rw [entryClauses, clauseTexts_append, entryPredicates, entryLiterals, List.length_append,
      ← Nat.add_assoc]
    exact h

theorem operands_read (fs : List (List FilterEntry)) (n : Nat) :
    Reads n (n + (operandLiterals fs).length) (operandTexts (operandClauses fs))
      (operandPredicates n fs) := by
  cases fs with
  | nil => exact .nil n
  | cons f fs =>
    have h := entries_read f n
    have hs := operands_read fs (n + (entryLiterals f).length)
    rw [operandPredicates, operandLiterals, List.length_append, ← Nat.add_assoc]
    cases hc : entryClauses f with
    | nil =>
      rw [hc] at h
      obtain ⟨hm, hp⟩ := h.eq_of_nil
      rw [hm] at hs
      simp only [operandClauses, hc, hp, hm]
      exact hs
    | cons c cs =>
      rw [hc] at h
      simp only [operandClauses, hc, operandTexts]
      obtain ⟨p, ts, hp, hl, hd⟩ := h.operand (clauseTexts_ne_nil (by simp))
      rw [hp]
      exact (Reads.single hl hd).append hs

end

end ItemStore
