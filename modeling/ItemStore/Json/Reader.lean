import ItemStore.Json.Token

/-!
JSON documents from their tokens. One token at a time is taken in, and the arrays and objects that
are still open wait on a stack, so that the stack's height is the level of nesting.
-/
namespace ItemStore.Json

/-- An array or object that is still open: the items it holds so far, latest first, or the members
and the key whose value is being read. -/
inductive Frame where
  | array (items : List Json)
  | object (members : List (String × Json)) (key : String)

/-- What may follow, given the frames that are open, innermost first. -/
inductive State where
  | value (open_ : List Frame)
  | firstItem (open_ : List Frame)
  | firstKey (open_ : List Frame)
  | nextKey (members : List (String × Json)) (open_ : List Frame)
  | colon (members : List (String × Json)) (key : String) (open_ : List Frame)
  | done (v : Json) (open_ : List Frame)

namespace State

def begin (limit : Nat) (fs : List Frame) : Token → Option State
  | .null => some (.done .null fs)
  | .bool b => some (.done (.bool b) fs)
  | .number n => some (.done (.number n) fs)
  | .string s => some (.done (.string s) fs)
  | .openArray => if fs.length < limit then some (.firstItem fs) else none
  | .openObject => if fs.length < limit then some (.firstKey fs) else none
  | _ => none

def step (limit : Nat) : State → Token → Option State
  | .value fs, t => begin limit fs t
  | .firstItem fs, .closeArray => some (.done (.array []) fs)
  | .firstItem fs, t => begin limit (.array [] :: fs) t
  | .firstKey fs, .closeObject => some (.done (.object []) fs)
  | .firstKey fs, .string key => some (.colon [] key fs)
  | .nextKey ms fs, .string key => some (.colon ms key fs)
  | .colon ms key fs, .colon => some (.value (.object ms key :: fs))
  | .done v (.array vs :: fs), .comma => some (.value (.array (v :: vs) :: fs))
  | .done v (.array vs :: fs), .closeArray => some (.done (.array (v :: vs).reverse) fs)
  | .done v (.object ms key :: fs), .comma => some (.nextKey (setMember key v ms) fs)
  | .done v (.object ms key :: fs), .closeObject => some (.done (.object (setMember key v ms)) fs)
  | _, _ => none

end State

def ofTokens? (limit : Nat) (ts : List Token) : Option Json := do
  match ← ts.foldlM (State.step limit) (.value []) with
  | .done v [] => some v
  | _ => none

/-- The document that a whole text is, with at most `limit` levels of arrays and objects. -/
def ofText? (limit : Nat) (cs : List Char) : Option Json := do ofTokens? limit (← Token.ofText? cs)

end ItemStore.Json
