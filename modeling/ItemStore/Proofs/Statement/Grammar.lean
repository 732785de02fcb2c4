import ItemStore.Proofs.Statement.Predicate

/-!
The grammar of predicates. What it derives is read in front of every rest that does not go on with
a connective of its level, so that no list of tokens has two derivations of different predicates.
-/
namespace ItemStore.Predicate

open Token

inductive Level where
  | disjunction | conjunction | factor

namespace Level

def read? : Level → Nat → List Token → Option (Predicate × List Token)
  | disjunction => disjunction?
  | conjunction => conjunction?
  | factor => factor?

def steps : Level → Nat
  | disjunction => 0
  | conjunction => 1
  | factor => 2

/-- The rest does not go on with a connective of this level or a tighter one. -/
def EndsAt : Level → List Token → Prop
  | disjunction, rest => beginsKeyword "AND" rest = false ∧ beginsKeyword "OR" rest = false
  | conjunction, rest => beginsKeyword "AND" rest = false
  | factor, _ => True

end Level

def slotTokens (n : Nat) : List Nat → List Token
  | [] => [.placeholder n, .closing]
  | m :: ms => .placeholder n :: .comma :: slotTokens m ms

inductive Derives : Level → List Token → Predicate → Prop
  | comparison {t field s op} (n : Nat) : field? t = some field → Comparison.ofSign? s = some op →
    Derives .factor [t, .sign s, .placeholder n] (.atom (.comparison field op n))
  | membership {t field w} (n : Nat) (ns : List Nat) : field? t = some field →
    isKeyword "IN" w = true →
    Derives .factor (t :: .word w :: .opening :: slotTokens n ns) (.atom (.membership field (n :: ns)))
  | containment {t field w} (n : Nat) : field? t = some field → isKeyword "CONTAINS" w = true →
    Derives .factor [.word w, .opening, t, .comma, .placeholder n, .closing]
      (.atom (.comparison field .like n))
  | group {ts p} : Derives .disjunction ts p →
    Derives .factor (.opening :: ts ++ [.closing]) p
  | not {ts p w} : isKeyword "NOT" w = true → beginsCondition ts = false → Derives .factor ts p →
    Derives .factor (.word w :: ts) (.not p)
  | single {ts p} : Derives .factor ts p → Derives .conjunction ts p
  | and {ts us p q w} : isKeyword "AND" w = true → Derives .factor ts p → Derives .conjunction us q →
    Derives .conjunction (ts ++ .word w :: us) (.and p q)
  | alternative {ts p} : Derives .conjunction ts p → Derives .disjunction ts p
  | or {ts us p q w} : isKeyword "OR" w = true → Derives .conjunction ts p →
    Derives .disjunction us q → Derives .disjunction (ts ++ .word w :: us) (.or p q)

theorem slots?_slotTokens (n : Nat) (ns : List Nat) (rest : List Token) :
    slots? (slotTokens n ns ++ rest) = some (n :: ns, rest) := by
  induction ns generalizing n with
  | nil => rfl
  | cons m ns ih => simp [slotTokens, slots?, ih]

theorem Derives.ne_nil {l : Level} {ts : List Token} {p : Predicate} (h : Derives l ts p) :
    ts ≠ [] := by
  induction h with
  | and _ _ _ _ _ => simp
  | or _ _ _ _ _ => simp
  | single _ ih => exact ih
  | alternative _ ih => exact ih
  | _ => simp

theorem not_isKeyword {k l : String} {w : List Char} (hk : isKeyword k w = true) (h : k ≠ l) :
    isKeyword l w = false := by
  simp only [isKeyword, beq_iff_eq] at hk
  simp only [isKeyword, hk, beq_eq_false_iff_ne, ne_eq, String.toList_inj]
  exact h

theorem beginsCondition_append {ts : List Token} (h : ts ≠ []) (rest : List Token) :
    beginsCondition (ts ++ rest) = beginsCondition ts := by
  cases ts with
  | nil => exact absurd rfl h
  | cons t ts => cases t <;> rfl

theorem Level.exists_succ {l : Level} {ts : List Token} {k : Nat} (hne : ts ≠ [])
    (h : 3 * ts.length ≤ k + l.steps) : ∃ j, k = j + 1 := by
  have hp := List.length_pos_iff.2 hne
  have hl : l.steps ≤ 2 := by cases l <;> decide
  exact ⟨k - 1, by omega⟩

/-- What the grammar derives is read, and nothing of what follows it. -/
theorem Derives.read?_append {l : Level} {ts : List Token} {p : Predicate} (h : Derives l ts p)
    (k : Nat) (rest : List Token) (hk : 3 * ts.length ≤ k + l.steps) (hr : l.EndsAt rest) :
    l.read? k (ts ++ rest) = some (p, rest) := by
  induction h generalizing k rest with
  | comparison n hf hs =>
    obtain ⟨k, rfl⟩ := Level.exists_succ (by simp) hk
    simp [Level.read?, factor?, hf, beginsCondition, condition?, hs]
  | membership n ns hf hw =>
    obtain ⟨k, rfl⟩ := Level.exists_succ (by simp) hk
    have hb : ∀ us, beginsCondition (.word _ :: us) = true := fun us => hw
    simp [Level.read?, factor?, hf, hb, condition?, slots?_slotTokens]
  | containment n hf hw =>
    obtain ⟨k, rfl⟩ := Level.exists_succ (by simp) hk
    have hn := not_isKeyword hw (l := "NOT") (by decide)
    simp [Level.read?, factor?, beginsCondition, beginsKeyword, hn, hw, containment?, hf]
  | group _ ih =>
    obtain ⟨k, rfl⟩ := Level.exists_succ (by simp) hk
    have hi := ih k (.closing :: rest) (by simp [Level.steps] at hk ⊢; omega) ⟨rfl, rfl⟩
    simp only [Level.read?] at hi
    simp [Level.read?, factor?, hi]
  | not hw hc hd ih =>
    obtain ⟨k, rfl⟩ := Level.exists_succ (by simp) hk
    have hi := ih k rest (by simp [Level.steps] at hk ⊢; omega) trivial
    simp only [Level.read?] at hi
    simp [Level.read?, factor?, beginsCondition_append hd.ne_nil, hc, hw, hi]
  | single hd ih =>
    obtain ⟨k, rfl⟩ := Level.exists_succ hd.ne_nil hk
    have hi := ih k rest (by simp [Level.steps] at hk ⊢; omega) trivial
    simp only [Level.read?] at hi
    simp only [Level.EndsAt] at hr
    simp [Level.read?, conjunction?, hi, hr]
  | @and ts us p q w hw hd _ ihp ihq =>
    obtain ⟨k, rfl⟩ := Level.exists_succ (by simp) hk
    simp only [List.length_append, List.length_cons, Level.steps] at hk
    have hp := ihp k (.word w :: (us ++ rest)) (by simp only [Level.steps]; omega) trivial
    have hq := ihq k rest (by simp only [Level.steps]; omega) hr
    simp only [Level.read?] at hp hq
    have hb : beginsKeyword "AND" (.word w :: (us ++ rest)) = true := hw
    rw [List.append_assoc, List.cons_append]
    simp [Level.read?, conjunction?, hp, hb, hq]
  | alternative hd ih =>
    obtain ⟨k, rfl⟩ := Level.exists_succ hd.ne_nil hk
    have hi := ih k rest (by simp [Level.steps] at hk ⊢; omega) hr.1
    simp only [Level.read?] at hi
    simp [Level.read?, disjunction?, hi, hr.2]
  | @or ts us p q w hw hd _ ihp ihq =>
    obtain ⟨k, rfl⟩ := Level.exists_succ (by simp) hk
    simp only [List.length_append, List.length_cons, Level.steps] at hk
    have hp := ihp k (.word w :: (us ++ rest)) (by simp only [Level.steps]; omega)
      (not_isKeyword hw (by decide))
    have hq := ihq k rest (by simp only [Level.steps]; omega) hr
    simp only [Level.read?] at hp hq
    have hb : beginsKeyword "OR" (.word w :: (us ++ rest)) = true := hw
    rw [List.append_assoc, List.cons_append]
    simp [Level.read?, disjunction?, hp, hb, hq]

theorem Derives.ofTokens? {ts : List Token} {p : Predicate} (h : Derives .disjunction ts p) :
    ofTokens? ts = some p := by
  have hr := h.read?_append (3 * ts.length) [] (by simp [Level.steps]) ⟨rfl, rfl⟩
  rw [List.append_nil] at hr
  simp only [Level.read?] at hr
  simp [Predicate.ofTokens?, hr]

-- Without parentheses `not` binds tightest and `or` least.
example : (Token.ofText? "a = ? AND NOT b = ? OR c = ?").bind Predicate.ofTokens? =
    some (.or (.and (.atom (.comparison "a" .eq 0)) (.not (.atom (.comparison "b" .eq 1))))
      (.atom (.comparison "c" .eq 2))) := by rfl

end ItemStore.Predicate
