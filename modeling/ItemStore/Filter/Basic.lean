import ItemStore.Value.Basic

/-! Filters that select items by their attributes. -/
namespace ItemStore

/-- How the operands of a group are joined. `not` negates their conjunction. -/
inductive Connective where
  | and | or | not
deriving DecidableEq

inductive Comparison where
  | eq | ne | ge | gt | le | lt
  /-- Containment of a text. -/
  | like
deriving DecidableEq

inductive Condition where
  | equals (v : Value)
  /-- One of the values. No values ask nothing. -/
  | among (vs : List Value)
  /-- All of the comparisons. -/
  | compare (pairs : List (Comparison × Value))

/-- One of the entries of a filter, which have to hold together. -/
inductive FilterEntry where
  | field (name : String) (condition : Condition)
  | group (op : Connective) (operands : List (List FilterEntry))

abbrev Filter := List FilterEntry

structure Query where
  filter : Filter
  limit : Option UInt64 := none
  token : Option String := none

namespace Connective

def keyword : Connective → String
  | .and => "AND"
  | .or => "OR"
  | .not => "NOT"

def ofKey? (key : String) : Option Connective :=
  match key.toList with
  | '$' :: name =>
    let name := String.ofList (name.map Char.toLower)
    if name = "and" then some .and
    else if name = "or" then some .or
    else if name = "not" then some .not
    else none
  | _ => none

end Connective

namespace Comparison

def name : Comparison → String
  | .eq => "eq"
  | .ne => "ne"
  | .ge => "ge"
  | .gt => "gt"
  | .le => "le"
  | .lt => "lt"
  | .like => "like"

def ofName? (name : String) : Option Comparison :=
  if name = "gte" then some .ge
  else if name = "lte" then some .le
  else [eq, ne, ge, gt, le, lt, like].find? (·.name == name)

@[simp] theorem ofName?_name (op : Comparison) : ofName? op.name = some op := by cases op <;> rfl

end Comparison

namespace Filter

def equals (f : Filter) (name : String) (v : Value) : Filter := f ++ [.field name (.equals v)]

def among (f : Filter) (name : String) (vs : List Value) : Filter := f ++ [.field name (.among vs)]

def compare (f : Filter) (name : String) (pairs : List (Comparison × Value)) : Filter :=
  f ++ [.field name (.compare pairs)]

def group (f : Filter) (op : Connective) (operands : List Filter) : Filter :=
  f ++ [.group op operands]

end Filter
end ItemStore
