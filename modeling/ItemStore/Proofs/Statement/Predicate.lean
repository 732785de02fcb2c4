import ItemStore.Filter.Clause
import ItemStore.Proofs.Statement.Token

/-!
Predicates of statements. `not` binds tighter than `and`, and `and` tighter than `or`; parentheses
group. The reader of token lists finds what the grammar derives.
-/
namespace ItemStore

/-- A clause that compares a field, with the numbers of its placeholders. -/
inductive Atom where
  | comparison (field : String) (op : Comparison) (slot : Nat)
  | membership (field : String) (slots : List Nat)
deriving DecidableEq

inductive Predicate where
  | atom (a : Atom)
  | not (p : Predicate)
  | and (p q : Predicate)
  | or (p q : Predicate)
deriving DecidableEq

def Comparison.ofSign? : List Char → Option Comparison
  | ['='] => some .eq
  | ['<', '>'] => some .ne
  | ['>', '='] => some .ge
  | ['>'] => some .gt
  | ['<', '='] => some .le
  | ['<'] => some .lt
  | _ => none

namespace Token

/-- Words that have a meaning have it in any case. -/
def isKeyword (keyword : String) (w : List Char) : Bool := w.map Char.toUpper == keyword.toList

def beginsKeyword (keyword : String) : List Token → Bool
  | .word w :: _ => isKeyword keyword w
  | _ => false

def field? : Token → Option String
  | .word w => some (String.ofList w)
  | .quoted name => some (String.ofList name)
  | _ => none

/-- Whether a comparison or a membership follows, so that a field stands before it. -/
def beginsCondition : List Token → Bool
  | .sign s :: _ => (Comparison.ofSign? s).isSome
  | ts => beginsKeyword "IN" ts

def slots? : List Token → Option (List Nat × List Token)
  | .placeholder n :: .closing :: ts => some ([n], ts)
  | .placeholder n :: .comma :: ts => (slots? ts).map fun (ns, rest) => (n :: ns, rest)
  | _ => none

def condition? (field : String) : List Token → Option (Atom × List Token)
  | .sign s :: .placeholder n :: ts =>
    (Comparison.ofSign? s).map fun op => (.comparison field op n, ts)
  | .word _ :: .opening :: ts => (slots? ts).map fun (ns, rest) => (.membership field ns, rest)
  | _ => none

def containment? : List Token → Option (Atom × List Token)
  | .opening :: t :: .comma :: .placeholder n :: .closing :: ts =>
    t.field?.map fun field => (.comparison field .like n, ts)
  | _ => none

end Token

namespace Predicate

open Token

mutual

/-- Conjunctions with `or` between them. Each step down takes one unit of the first argument. -/
def disjunction? : Nat → List Token → Option (Predicate × List Token)
  | 0, _ => none
  | k + 1, ts => do
    let (p, rest) ← conjunction? k ts
    if beginsKeyword "OR" rest then
      let (q, rest) ← disjunction? k rest.tail
      return (.or p q, rest)
    else return (p, rest)

def conjunction? : Nat → List Token → Option (Predicate × List Token)
  | 0, _ => none
  | k + 1, ts => do
    let (p, rest) ← factor? k ts
    if beginsKeyword "AND" rest then
      let (q, rest) ← conjunction? k rest.tail
      return (.and p q, rest)
    else return (p, rest)

/-- A word is a field exactly if a condition follows it. -/
def factor? : Nat → List Token → Option (Predicate × List Token)
  | 0, _ => none
  | _, [] => none
  | k + 1, t :: ts =>
    match t, t.field?, beginsCondition ts with
    | _, some field, true => (condition? field ts).map fun (a, rest) => (.atom a, rest)
    | .opening, _, _ => do
      let (p, rest) ← disjunction? k ts
      if rest.head? = some .closing then return (p, rest.tail) else none
    | .word w, _, _ =>
      if isKeyword "NOT" w then (factor? k ts).map fun (p, rest) => (.not p, rest)
      else if isKeyword "CONTAINS" w then
        (containment? ts).map fun (a, rest) => (.atom a, rest)
      else none
    | _, _, _ => none

end

/-- The predicate that all of the tokens are; each of them takes at most three steps down. -/
def ofTokens? (ts : List Token) : Option Predicate := do
  let (p, rest) ← disjunction? (3 * ts.length) ts
  if rest.isEmpty then return p else none

def eval (σ : Atom → Bool) : Predicate → Bool
  | .atom a => σ a
  | .not p => !p.eval σ
  | .and p q => p.eval σ && q.eval σ
  | .or p q => p.eval σ || q.eval σ

end Predicate
end ItemStore
