import ItemStore.Proofs.Filter.Grammar
import ItemStore.Statement

/-!
The two ways to write a group. An object stands for the list of its members, each of them a block,
so a document keeps its meaning wherever the one is written for the other. The object that is the
value of a field is no group and stays as it is.
-/
namespace ItemStore

namespace Filter

variable {key : String} {v u : Json}

/-- The list form of a group whose operands are the members of an object. -/
def blocksOfMembers (ms : List (String × Json)) : List Json := ms.map fun m => .entry m.1 m.2

theorem entriesOfMembers_singleton (d : Nat) (key : String) (v : Json) :
    entriesOfMembers d [(key, v)] = entryOfJson d key v := by
  rw [entriesOfMembers, entriesOfMembers]
  cases entryOfJson d key v with
  | error e => rfl
  | ok es => exact congrArg Except.ok es.append_nil

theorem operandsOfItems_blocksOfMembers (d : Nat) (key : String) (ms : List (String × Json)) :
    operandsOfItems d key (blocksOfMembers ms) = operandsOfMembers d ms := by
  induction ms with
  | nil => rfl
  | cons m ms ih =>
    rw [operandsOfMembers, ← ih, ← entriesOfMembers_singleton]
    rfl

theorem entryOfJson_blocksOfMembers (hk : key.toList.head? = some '$') (d : Nat)
    (ms : List (String × Json)) :
    entryOfJson d key (.array (blocksOfMembers ms)) = entryOfJson d key (.object ms) := by
  simp only [entryOfJson, if_pos hk, operandsOfItems_blocksOfMembers]

mutual

/-- The second value of a key is the first, with any of the objects that are groups, itself among
them, written as lists. -/
inductive EntryRespelled : String → Json → Json → Prop
  | same {key : String} {v : Json} : EntryRespelled key v v
  | list {key : String} {ms ns : List (String × Json)} (hk : key.toList.head? = some '$')
    (h : MembersRespelled ms ns) : EntryRespelled key (.object ms) (.array (blocksOfMembers ns))
  | members {key : String} {ms ns : List (String × Json)} (hk : key.toList.head? = some '$')
    (h : MembersRespelled ms ns) : EntryRespelled key (.object ms) (.object ns)
  | blocks {key : String} {vs us : List Json} (hk : key.toList.head? = some '$')
    (h : BlocksRespelled vs us) : EntryRespelled key (.array vs) (.array us)

inductive MembersRespelled : List (String × Json) → List (String × Json) → Prop
  | nil : MembersRespelled [] []
  | cons {key : String} {v u : Json} {ms ns : List (String × Json)} (h : EntryRespelled key v u)
    (hs : MembersRespelled ms ns) : MembersRespelled ((key, v) :: ms) ((key, u) :: ns)

/-- An item that is no object holds no group. -/
inductive BlocksRespelled : List Json → List Json → Prop
  | nil : BlocksRespelled [] []
  | block {ms ns : List (String × Json)} {vs us : List Json} (h : MembersRespelled ms ns)
    (hs : BlocksRespelled vs us) : BlocksRespelled (.object ms :: vs) (.object ns :: us)
  | other {v : Json} {vs us : List Json} (hs : BlocksRespelled vs us) :
    BlocksRespelled (v :: vs) (v :: us)

end

/-! What is read, along the derivations. -/

mutual

theorem EntryRespelled.entryOfJson_eq (d : Nat) {key : String} {v u : Json} :
    EntryRespelled key v u → entryOfJson d key u = entryOfJson d key v
  | .same => rfl
  | .list hk h => by
    rw [entryOfJson_blocksOfMembers hk]
    simp only [entryOfJson, if_pos hk, h.operandsOfMembers_eq (d + 1)]
  | .members hk h => by simp only [entryOfJson, if_pos hk, h.operandsOfMembers_eq (d + 1)]
  | .blocks hk h => by simp only [entryOfJson, if_pos hk, h.operandsOfItems_eq (d + 1) key]

theorem MembersRespelled.operandsOfMembers_eq (d : Nat) {ms ns : List (String × Json)} :
    MembersRespelled ms ns → operandsOfMembers d ns = operandsOfMembers d ms
  | .nil => rfl
  | .cons h hs => by
    rw [operandsOfMembers, operandsOfMembers, h.entryOfJson_eq, hs.operandsOfMembers_eq]

theorem MembersRespelled.entriesOfMembers_eq (d : Nat) {ms ns : List (String × Json)} :
    MembersRespelled ms ns → entriesOfMembers d ns = entriesOfMembers d ms
  | .nil => rfl
  | .cons h hs => by
    rw [entriesOfMembers, entriesOfMembers, h.entryOfJson_eq, hs.entriesOfMembers_eq]

theorem BlocksRespelled.operandsOfItems_eq (d : Nat) (key : String) {vs us : List Json} :
    BlocksRespelled vs us → operandsOfItems d key us = operandsOfItems d key vs
  | .nil => rfl
  | .block h hs => by
    rw [operandsOfItems, operandsOfItems, h.entriesOfMembers_eq, hs.operandsOfItems_eq]
  | @BlocksRespelled.other v _ _ hs => by
    cases v with
    | object ms => rw [operandsOfItems, operandsOfItems, hs.operandsOfItems_eq]
    | _ => rfl

end

/-! The limit and the token are not looked for in groups. -/

theorem EntryRespelled.eq_of_not_group (hk : key.toList.head? ≠ some '$') :
    EntryRespelled key v u → u = v
  | .same => rfl
  | .list h _ | .members h _ | .blocks h _ => absurd h hk

theorem MembersRespelled.lookup_eq (hk : key.toList.head? ≠ some '$')
    {ms ns : List (String × Json)} : MembersRespelled ms ns → ns.lookup key = ms.lookup key
  | .nil => rfl
  | @MembersRespelled.cons key' _ _ _ _ h hs => by
    simp only [List.lookup_cons, hs.lookup_eq hk]
    split
    · rename_i he
      rw [h.eq_of_not_group (eq_of_beq he ▸ hk)]
    · rfl

theorem MembersRespelled.filter (p : String → Bool) {ms ns : List (String × Json)} :
    MembersRespelled ms ns →
      MembersRespelled (ms.filter fun m => p m.1) (ns.filter fun m => p m.1)
  | .nil => .nil
  | @MembersRespelled.cons key _ _ _ _ h hs => by
    cases hp : p key with
    | false => simpa [hp] using hs.filter p
    | true => simpa [hp] using .cons h (hs.filter p)

/-! Every group as a list. -/

mutual

def listedEntry (key : String) : Json → Json
  | .object ms =>
    if key.toList.head? = some '$' then .array (blocksOfMembers (listedMembers ms)) else .object ms
  | .array vs => if key.toList.head? = some '$' then .array (listedBlocks vs) else .array vs
  | v => v

def listedMembers : List (String × Json) → List (String × Json)
  | [] => []
  | (key, v) :: ms => (key, listedEntry key v) :: listedMembers ms

def listedBlocks : List Json → List Json
  | [] => []
  | .object ms :: vs => .object (listedMembers ms) :: listedBlocks vs
  | v :: vs => v :: listedBlocks vs

end

mutual

theorem entryRespelled_listedEntry (key : String) (v : Json) :
    EntryRespelled key v (listedEntry key v) := by
  cases v with
  | object ms =>
    rw [listedEntry]
    split
    · exact .list ‹_› (membersRespelled_listedMembers ms)
    · exact .same
  | array vs =>
    rw [listedEntry]
    split
    · exact .blocks ‹_› (blocksRespelled_listedBlocks vs)
    · exact .same
  | _ => exact .same

theorem membersRespelled_listedMembers (ms : List (String × Json)) :
    MembersRespelled ms (listedMembers ms) :=
  match ms with
  | [] => .nil
  | (key, v) :: ms => .cons (entryRespelled_listedEntry key v) (membersRespelled_listedMembers ms)

theorem blocksRespelled_listedBlocks (vs : List Json) : BlocksRespelled vs (listedBlocks vs) := by
  cases vs with
  | nil => exact .nil
  | cons v vs =>
    cases v with
    | object ms =>
      exact .block (membersRespelled_listedMembers ms) (blocksRespelled_listedBlocks vs)
    | _ => exact .other (blocksRespelled_listedBlocks vs)

end

end Filter

namespace Query

/-- The second document is the first with any of the objects that are groups written as lists. -/
inductive Respelled : Json → Json → Prop
  | object {ms ns : List (String × Json)} (h : Filter.MembersRespelled ms ns) :
    Respelled (.object ms) (.object ns)
  | other {v : Json} : Respelled v v

def listed : Json → Json
  | .object ms => .object (Filter.listedMembers ms)
  | v => v

theorem respelled_listed (v : Json) : Respelled v (listed v) := by
  cases v with
  | object ms => exact .object (Filter.membersRespelled_listedMembers ms)
  | _ => exact .other

theorem ofJson_eq_of_respelled {v u : Json} : Respelled v u → ofJson u = ofJson v
  | .other => rfl
  | .object h => by
    have hf := (h.filter fun key => key != "limit" && key != "offset").entriesOfMembers_eq 0
    rw [ofJson_object, ofJson_object, h.lookup_eq (by decide), h.lookup_eq (by decide), hf]

end Query

namespace Statement

/-- The object of a group and the list of its members give the same statement, or the same error,
wherever in a document the one is written for the other. -/
theorem ofJson_respelled (schema : Schema) {v u : Json} (h : Query.Respelled v u) :
    ofJson schema u = ofJson schema v := by
  rw [ofJson, ofJson, Query.ofJson_eq_of_respelled h]

def groupDocument : Json :=
  .object [("$or", .object [("a", .string "u"), ("b", .string ""),
      ("$not", .object [("c", .object [("gt", .string "v")]), ("d", .bool true)])]),
    ("limit", .string "5")]

theorem ofJson_respelled_group :
    ∃ s, s.text = "SELECT * FROM \"t\" WHERE (a = ? OR NOT (c > ? AND d = ?))" ∧
      ofJson ⟨"t", [⟨"id", .partition⟩], []⟩ groupDocument = .ok s ∧
      ofJson ⟨"t", [⟨"id", .partition⟩], []⟩ (.object [("$or", .array [.entry "a" (.string "u"),
          .entry "b" (.string ""), .entry "$not" (.array
            [.entry "c" (.entry "gt" (.string "v")), .entry "d" (.bool true)])]),
        ("limit", .string "5")]) = .ok s := by
  have h : ofJson ⟨"t", [⟨"id", .partition⟩], []⟩ groupDocument = .ok _ := rfl
  exact ⟨_, by decide, h, (ofJson_respelled _ (Query.respelled_listed groupDocument)).trans h⟩

end Statement
end ItemStore
