import Mathlib.Data.List.Flatten
import ItemStore.Proofs.Filter.Grammar
import ItemStore.Proofs.Filter.Node

/-!
The fields of a filter document in the order in which they are written, those within groups
included, and what they ask. A filter asks what its fields ask, one after the other, and the keys
`limit` and `offset` are no fields only where they stand outside of every group.
-/
namespace ItemStore

open List

namespace Filter

mutual

/-- The fields of one member of an object: those within a group, or the member itself. -/
def entryFields (key : String) (v : Json) : List (String × Json) :=
  if key.toList.head? = some '$' then
    match v with
    | .array items => itemsFields items
    | .object members => membersFields members
    | _ => []
  else [(key, v)]

def membersFields : List (String × Json) → List (String × Json)
  | [] => []
  | (key, v) :: ms => entryFields key v ++ membersFields ms

def itemsFields : List Json → List (String × Json)
  | [] => []
  | .object ms :: vs => membersFields ms ++ itemsFields vs
  | _ :: vs => itemsFields vs

end

def groupFields (ms : List (String × Json)) : List (String × Json) :=
  (ms.filter fun m => m.1.toList.head? = some '$').flatMap fun m => entryFields m.1 m.2

/-- Fields, with the literals that they ask about one after the other. -/
inductive AskAbout : List (String × Json) → List (Clause × Value) → Prop
  | nil : AskAbout [] []
  | cons {key : String} {v : Json} {ms : List (String × Json)} {es : List FilterEntry}
    {ls : List (Clause × Value)} (h : IsField key v es) (hs : AskAbout ms ls) :
    AskAbout ((key, v) :: ms) (entryLiterals es ++ ls)

theorem membersFields_eq_flatMap (ms : List (String × Json)) :
    membersFields ms = ms.flatMap fun m => entryFields m.1 m.2 :=
  eq_flatMap membersFields rfl (fun _ _ => rfl) ms

theorem entryFields_of_spells {op : Connective} {key : String} (h : op.Spells key) (v : Json) :
    entryFields key v =
      match v with
      | .array items => itemsFields items
      | .object members => membersFields members
      | _ => [] := by
  obtain ⟨name, hn, -⟩ := h
  rw [entryFields.eq_def, if_pos (by rw [hn]; rfl)]

theorem groupFields_filter {p : String × Json → Bool} {ms : List (String × Json)}
    (h : ∀ m ∈ ms, m.1.toList.head? = some '$' → p m = true) :
    groupFields (ms.filter p) = groupFields ms := by
  rw [groupFields, filter_filter, groupFields]
  congr 1
  refine filter_congr fun m hm => ?_
  rw [Bool.and_eq_left_iff_imp, decide_eq_true_iff]
  exact h m hm

theorem groupFields_sublist (ms : List (String × Json)) : groupFields ms <+ membersFields ms := by
  rw [groupFields, membersFields_eq_flatMap]
  exact filter_sublist.flatMap _

namespace AskAbout

theorem append {ms ns : List (String × Json)} {ks ls : List (Clause × Value)} (h : AskAbout ms ks)
    (hs : AskAbout ns ls) : AskAbout (ms ++ ns) (ks ++ ls) := by
  induction h with
  | nil => exact hs
  | cons h _ ih =>
    rw [append_assoc]
    exact .cons h ih

theorem singleton {key : String} {v : Json} {es : List FilterEntry} (h : IsField key v es) :
    AskAbout [(key, v)] (entryLiterals es) :=
  append_nil (entryLiterals es) ▸ .cons h .nil

end AskAbout

theorem entryLiterals_group (op : Connective) (fs : List Filter) :
    entryLiterals [.group op fs] = operandLiterals fs :=
  append_nil (operandLiterals fs)

theorem entryLiterals_append (es fs : List FilterEntry) :
    entryLiterals (es ++ fs) = entryLiterals es ++ entryLiterals fs := by
  simp only [entryLiterals_eq_flatMap, flatMap_append]

mutual

theorem IsEntry.askAbout {d : Nat} {key : String} {v : Json} {es : List FilterEntry} :
    IsEntry d key v es → AskAbout (entryFields key v) (entryLiterals es)
  | .blocks hk h => by
    rw [entryFields_of_spells hk, entryLiterals_group]
    exact h.askAbout
  | .members hk h => by
    rw [entryFields_of_spells hk, entryLiterals_group]
    exact h.askAbout
  | .field hk h => by
    rw [entryFields.eq_def, if_neg hk]
    exact .singleton h

theorem AreEntries.askAbout {d : Nat} {ms : List (String × Json)} {f : Filter} :
    AreEntries d ms f → AskAbout (membersFields ms) (entryLiterals f)
  | .nil => .nil
  | .cons h hs => by
    rw [membersFields, entryLiterals_append]
    exact h.askAbout.append hs.askAbout

theorem IsBlock.askAbout {d : Nat} {ms : List (String × Json)} {f : Filter} :
    IsBlock d ms f → AskAbout (membersFields ms) (entryLiterals f)
  | .intro _ h => h.askAbout

theorem AreBlocks.askAbout {d : Nat} {vs : List Json} {fs : List Filter} :
    AreBlocks d vs fs → AskAbout (itemsFields vs) (operandLiterals fs)
  | .nil => .nil
  | .cons h hs => h.askAbout.append hs.askAbout

theorem AreOperands.askAbout {d : Nat} {ms : List (String × Json)} {fs : List Filter} :
    AreOperands d ms fs → AskAbout (membersFields ms) (operandLiterals fs)
  | .nil => .nil
  | @AreOperands.cons _ m _ _ _ h hs => by
    have hm := h.askAbout
    rw [membersFields, membersFields, append_nil] at hm
    exact hm.append hs.askAbout

end

end Filter
end ItemStore
