import ItemStore.Codec.Encoding
import ItemStore.Filter.Clause
import ItemStore.Filter.Reader
import ItemStore.Tagged.Json

/-!
Statements that select the items of a filter. The values of the filter do not enter the text: they
are its parameters, one for each placeholder and in the placeholders' order.
-/
namespace ItemStore

def Condition.values : Condition → List Value
  | .equals v => [v]
  | .among vs => vs
  | .compare pairs => pairs.map Prod.snd

def encodeValues (vs : List Value) : Except Error (List Tagged) :=
  vs.mapM fun v => v.encode.mapError .codec

mutual

/-- The encoded values of an entry of a filter that stands at a level, from left to right. -/
def FilterEntry.parametersAt (depth : Nat) : FilterEntry → Except Error (List Tagged)
  | .field _ condition => encodeValues condition.values
  | .group _ operands => operandParameters (depth + 1) operands

def entryParameters (depth : Nat) : List FilterEntry → Except Error (List Tagged)
  | [] => .ok []
  | e :: es => do return (← e.parametersAt depth) ++ (← entryParameters depth es)

/-- Operands may not stand too deep, whether they ask anything or not. -/
def operandParameters (depth : Nat) : List (List FilterEntry) → Except Error (List Tagged)
  | [] => .ok []
  | f :: fs =>
    if FilterError.maxDepth < depth then .error FilterError.tooDeep
    else do return (← entryParameters depth f) ++ (← operandParameters depth fs)

end

def Filter.parameters (f : Filter) : Except Error (List Tagged) := entryParameters 0 f

structure Statement where
  text : String
  parameters : List Tagged
  limit : Option UInt64
  token : Option String
  /-- Whether the store is asked for the capacity that the statement consumes. -/
  reportsCapacity : Bool

namespace Statement

def head (schema : Schema) : String := "SELECT * FROM " ++ Identifier.quotedText schema.table

def textOf (schema : Schema) (clauses : List Clause) : String :=
  match clauses with
  | [] => head schema
  | clauses => head schema ++ " WHERE " ++ conjunction (clauseTexts clauses)

def ofQuery (schema : Schema) (query : Query) : Except Error Statement := do
  let parameters ← query.filter.parameters
  let clauses := query.filter.clauses
  return ⟨textOf schema clauses, parameters, query.limit, query.token, !clauses.isEmpty⟩

def ofJson (schema : Schema) (filter : Json) : Except Error Statement := do
  ofQuery schema (← Query.ofJson filter)

/-- What is absent is left out, and so is an empty list of parameters. -/
def toJson (s : Statement) : Json :=
  .object ([("Statement", .string s.text)] ++
    (if s.parameters.isEmpty then [] else [("Parameters", .array (Tagged.itemsToJson s.parameters))]) ++
    (s.limit.map fun n => ("Limit", Json.ofUInt64 n)).toList ++
    (s.token.map fun t => ("NextToken", Json.string t)).toList ++
    (if s.reportsCapacity then [("ReturnConsumedCapacity", .string "TOTAL")] else []))

end Statement
end ItemStore
