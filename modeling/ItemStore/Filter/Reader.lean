import ItemStore.Error
import ItemStore.Filter.Basic
import ItemStore.Value.Json

/-!
Filters in JSON. A key with a dollar sign opens a group; any other key is a field, whose value is
an object of comparisons, an array of alternatives, or a scalar to be equal to. The keys `limit`
and `offset` of the whole document are no fields.
-/
namespace ItemStore

attribute [local instance (high)] instPowNat

/-- Rows that a page is limited to; a falsy value sets no limit. -/
def Query.limitOfJson (v : Json) : Except FilterError (Option UInt64) :=
  if !v.isTruthy then .ok none
  else
    let limit : Option Int :=
      match v with
      | .number (.integer n _) => some n
      | .number (.float x) => x.toInt?
      | .string s => (Digits.unsigned? (Text.trim s.toList)).map Int.ofNat
      | _ => none
    match limit with
    | some n =>
      if 0 ≤ n ∧ n < 2 ^ (64 : Nat) then .ok (some (UInt64.ofNat n.toNat))
      else .error (.malformed (.limit v))
    | none => .error (.malformed (.limit v))

/-- The token of an earlier page; null and the empty text are none. -/
def Query.tokenOfJson : Json → Except FilterError (Option String)
  | .null => .ok none
  | .string s => .ok (if s = "" then none else some s)
  | v => .error (.malformed (.offset v))

namespace Filter

def valuesOfJson (items : List Json) : Except Error (List Value) :=
  items.mapM fun v => (Value.ofJson? v).mapError .codec

def comparisonsOfJson (field : String) (members : List (String × Json)) :
    Except Error (List (Comparison × Value)) :=
  members.mapM fun (name, v) =>
    match Comparison.ofName? name with
    | none => .error (FilterError.malformed (.unknownOperator name field))
    | some op => do return (op, ← (Value.ofJson? v).mapError .codec)

/-- A scalar that is falsy asks nothing. -/
def fieldOfJson (name : String) (v : Json) : Except Error (List FilterEntry) :=
  match v with
  | .object members => do return [.field name (.compare (← comparisonsOfJson name members))]
  | .array items => do return [.field name (.among (← valuesOfJson items))]
  | v => .ok (if v.isTruthy then [.field name (.equals (.ofJson v))] else [])

mutual

/-- The entry of one member of an object that stands at a level, if it asks anything. An array or
object of a group stands one level deeper, and each member of such an object is an operand. -/
def entryOfJson (depth : Nat) (key : String) (v : Json) : Except Error (List FilterEntry) :=
  if key.toList.head? = some '$' then
    match Connective.ofKey? key with
    | none => .error (FilterError.malformed (.unknownGroup key))
    | some op =>
      match v with
      | .array items => do return [.group op (← operandsOfItems (depth + 1) key items)]
      | .object members => do return [.group op (← operandsOfMembers (depth + 1) members)]
      | v => .error (FilterError.malformed (.group key v))
  else fieldOfJson key v

def entriesOfMembers (depth : Nat) : List (String × Json) → Except Error Filter
  | [] => .ok []
  | (key, v) :: ms => do return (← entryOfJson depth key v) ++ (← entriesOfMembers depth ms)

def operandsOfItems (depth : Nat) (key : String) : List Json → Except Error (List Filter)
  | [] => .ok []
  | .object members :: vs =>
    if FilterError.maxDepth < depth then .error FilterError.tooDeep
    else do return (← entriesOfMembers depth members) :: (← operandsOfItems depth key vs)
  | v :: _ => .error (FilterError.malformed (.member key v))

def operandsOfMembers (depth : Nat) : List (String × Json) → Except Error (List Filter)
  | [] => .ok []
  | (key, v) :: ms =>
    if FilterError.maxDepth < depth then .error FilterError.tooDeep
    else do return (← entryOfJson depth key v) :: (← operandsOfMembers depth ms)

end

end Filter

/-- The limit is looked at first, then the token, then the fields. -/
def Query.ofJson : Json → Except Error Query
  | .object members => do
    let limit ← match members.lookup "limit" with
      | some v => (limitOfJson v).mapError .filter
      | none => .ok none
    let token ← match members.lookup "offset" with
      | some v => (tokenOfJson v).mapError .filter
      | none => .ok none
    let filter ← Filter.entriesOfMembers 0
      (members.filter fun m => m.1 != "limit" && m.1 != "offset")
    return ⟨filter, limit, token⟩
  | v => .error (FilterError.malformed (.notAnObject v))

end ItemStore
