import ItemStore.Binary64.Basic

/-!
JSON documents. An object keeps its members in the order they were written, and no two members of
an object that was read share a key.
-/
namespace ItemStore

attribute [local instance (high)] instPowNat

/-- An integer that fits 64 bits with or without sign, or a finite double. -/
inductive Json.Number where
  | integer (n : Int) (inRange : -2 ^ (63 : Nat) ≤ n ∧ n < 2 ^ (64 : Nat))
  | float (x : Binary64.Finite)
deriving DecidableEq

inductive Json where
  | null
  | bool (b : Bool)
  | number (n : Json.Number)
  | string (s : String)
  | array (items : List Json)
  | object (members : List (String × Json))

namespace Json

instance : Inhabited Json := ⟨.null⟩

def ofUInt64 (n : UInt64) : Json :=
  .number (.integer n.toNat (by have := n.toNat_lt; omega))

def ofInt64 (n : Int64) : Json :=
  .number (.integer n.toInt (by have := n.le_toInt; have := n.toInt_lt; omega))

def strings (ss : List String) : Json := .array (ss.map .string)

def strings? : List Json → Option (List String)
  | [] => some []
  | .string s :: vs => (strings? vs).map (s :: ·)
  | _ :: _ => none

def entry (key : String) (value : Json) : Json := .object [(key, value)]

/-- The member's value replaces that of an earlier member with its key, which keeps its place. -/
def setMember (key : String) (value : Json) : List (String × Json) → List (String × Json)
  | [] => [(key, value)]
  | (k, v) :: ms => if k = key then (k, value) :: ms else (k, v) :: setMember key value ms

mutual

/-- The levels of arrays and objects that lie within one another inside a value: none for a scalar
and an empty container, and one more than the deepest member otherwise. -/
def nesting : Json → Nat
  | .array items => itemsNesting items
  | .object members => membersNesting members
  | _ => 0

def itemsNesting : List Json → Nat
  | [] => 0
  | v :: vs => max (v.nesting + 1) (itemsNesting vs)

def membersNesting : List (String × Json) → Nat
  | [] => 0
  | (_, v) :: ms => max (v.nesting + 1) (membersNesting ms)

end

end Json
end ItemStore
