import ItemStore.Filter.Basic
import ItemStore.Identifier

/-!
The clauses of a filter: what is left of it when the values are replaced by placeholders and all
that asks nothing is left out. The values do not matter for the clauses, nor for their text.
-/
namespace ItemStore

inductive Clause where
  | comparison (name : String) (op : Comparison)
  | membership (name : String) (count : Nat)
  | group (op : Connective) (operands : List (List Clause))

namespace Condition

/-- One clause for each comparison, and none for a choice among no values. -/
def clauses (name : String) : Condition → List Clause
  | .equals _ => [.comparison name .eq]
  | .among vs => if vs.isEmpty then [] else [.membership name vs.length]
  | .compare pairs => pairs.map fun p => .comparison name p.1

end Condition

mutual

def FilterEntry.clauses : FilterEntry → List Clause
  | .field name condition => condition.clauses name
  | .group op operands =>
    match operandClauses operands with
    | [] => []
    | parts => [.group op parts]

def entryClauses : List FilterEntry → List Clause
  | [] => []
  | e :: es => e.clauses ++ entryClauses es

def operandClauses : List (List FilterEntry) → List (List Clause)
  | [] => []
  | f :: fs =>
    match entryClauses f with
    | [] => operandClauses fs
    | cs => cs :: operandClauses fs

end

def Filter.clauses (f : Filter) : List Clause := entryClauses f

def Comparison.text (op : Comparison) (path : String) : String :=
  match op with
  | .eq => path ++ " = ?"
  | .ne => path ++ " <> ?"
  | .ge => path ++ " >= ?"
  | .gt => path ++ " > ?"
  | .le => path ++ " <= ?"
  | .lt => path ++ " < ?"
  | .like => "contains(" ++ path ++ ", ?)"

def conjunction (texts : List String) : String := " AND ".intercalate texts

/-- Several clauses of one operand stand in parentheses. -/
def operandText (texts : List String) : String :=
  match texts with
  | [text] => text
  | texts => "(" ++ conjunction texts ++ ")"

def Connective.text (op : Connective) (operands : List String) : String :=
  match op with
  | .not => "NOT (" ++ conjunction operands ++ ")"
  | op => "(" ++ (" " ++ op.keyword ++ " ").intercalate operands ++ ")"

mutual

def Clause.text : Clause → String
  | .comparison name op => op.text (Identifier.pathText name)
  | .membership name count =>
    Identifier.pathText name ++ " IN (" ++ ",".intercalate (List.replicate count "?") ++ ")"
  | .group op operands => op.text (operandTexts operands)

def clauseTexts : List Clause → List String
  | [] => []
  | c :: cs => c.text :: clauseTexts cs

def operandTexts : List (List Clause) → List String
  | [] => []
  | cs :: css => operandText (clauseTexts cs) :: operandTexts css

end

end ItemStore
