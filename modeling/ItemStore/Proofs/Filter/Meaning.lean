import ItemStore.Proofs.Statement.Predicate
import ItemStore.Statement

/-!
The literals of a filter from left to right, each with the clause that asks about it, and the truth
of a filter when every clause is true or false. A clause is known by the places of its literals.
-/
namespace ItemStore

namespace Condition

def literals (name : String) : Condition → List (Clause × Value)
  | .equals v => [(.comparison name .eq, v)]
  | .among vs => vs.map fun v => (.membership name vs.length, v)
  | .compare pairs => pairs.map fun p => (.comparison name p.1, p.2)

def atoms (name : String) (n : Nat) : Condition → List Atom
  | .equals _ => [.comparison name .eq n]
  | .among [] => []
  | .among vs => [.membership name (List.range' n vs.length)]
  | .compare pairs => (pairs.zipIdx n).map fun (p, i) => .comparison name p.1 i

end Condition

mutual

def FilterEntry.literals : FilterEntry → List (Clause × Value)
  | .field name condition => condition.literals name
  | .group _ operands => operandLiterals operands

def entryLiterals : List FilterEntry → List (Clause × Value)
  | [] => []
  | e :: es => e.literals ++ entryLiterals es

def operandLiterals : List (List FilterEntry) → List (Clause × Value)
  | [] => []
  | f :: fs => entryLiterals f ++ operandLiterals fs

end

def Filter.literals (f : Filter) : List (Clause × Value) := entryLiterals f

/-- The truth of a group of which the operands have these truths; a group of none has no truth. -/
def Connective.truth? (op : Connective) : List Bool → Option Bool
  | [] => none
  | bs =>
    match op with
    | .and => some (bs.all id)
    | .or => some (bs.any id)
    | .not => some (!bs.all id)

mutual

def FilterEntry.truth? (σ : Atom → Bool) (n : Nat) : FilterEntry → Option Bool
  | .field name condition => Connective.and.truth? ((condition.atoms name n).map σ)
  | .group op operands => op.truth? (operandTruths σ n operands)

def entryTruths (σ : Atom → Bool) (n : Nat) : List FilterEntry → List Bool
  | [] => []
  | e :: es => (e.truth? σ n).toList ++ entryTruths σ (n + e.literals.length) es

def operandTruths (σ : Atom → Bool) (n : Nat) : List (List FilterEntry) → List Bool
  | [] => []
  | f :: fs =>
    (Connective.and.truth? (entryTruths σ n f)).toList ++
      operandTruths σ (n + (entryLiterals f).length) fs

end

/-- The entries of a filter hold together. -/
def Filter.truth? (σ : Atom → Bool) (f : Filter) : Option Bool :=
  Connective.and.truth? (entryTruths σ 0 f)

def Atom.slots : Atom → List (Clause × Nat)
  | .comparison field op n => [(.comparison field op, n)]
  | .membership field ns => ns.map fun n => (.membership field ns.length, n)

def Predicate.slots : Predicate → List (Clause × Nat)
  | .atom a => a.slots
  | .not p => p.slots
  | .and p q => p.slots ++ q.slots
  | .or p q => p.slots ++ q.slots

end ItemStore
