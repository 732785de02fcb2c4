import ItemStore.Proofs.Filter.Meaning
import ItemStore.Proofs.Traversal

/-!
The entries within a filter. What is said of all entries of a filter, and of all entries of all
operands of a group, is said entry by entry.
-/
namespace ItemStore

open List

namespace FilterEntry

/-- What holds of a group may be assumed of the entries of its operands. -/
@[elab_as_elim, induction_eliminator]
theorem induction {motive : FilterEntry → Prop}
    (field : ∀ name condition, motive (.field name condition))
    (group : ∀ op operands, (∀ f ∈ operands, ∀ e ∈ f, motive e) → motive (.group op operands))
    (e : FilterEntry) : motive e :=
  @FilterEntry.rec motive (fun fs => ∀ f ∈ fs, ∀ e ∈ f, motive e) (fun es => ∀ e ∈ es, motive e)
    field group (forall_mem_nil _) (fun _ _ hf hfs => forall_mem_cons.2 ⟨hf, hfs⟩)
    (forall_mem_nil _) (fun _ _ he hes => forall_mem_cons.2 ⟨he, hes⟩) e

end FilterEntry

theorem entryClauses_eq_flatMap (es : List FilterEntry) :
    entryClauses es = es.flatMap FilterEntry.clauses :=
  eq_flatMap entryClauses rfl (fun _ _ => rfl) es

theorem operandClauses_eq_flatMap (fs : List (List FilterEntry)) :
    operandClauses fs = fs.flatMap fun f => [entryClauses f].filter fun cs => !cs.isEmpty := by
  refine eq_flatMap operandClauses rfl (fun f fs => ?_) fs
  rw [operandClauses]
  cases entryClauses f <;> rfl

theorem entryLiterals_eq_flatMap (es : List FilterEntry) :
    entryLiterals es = es.flatMap FilterEntry.literals :=
  eq_flatMap entryLiterals rfl (fun _ _ => rfl) es

theorem operandLiterals_eq_flatMap (fs : List (List FilterEntry)) :
    operandLiterals fs = fs.flatMap entryLiterals :=
  eq_flatMap operandLiterals rfl (fun _ _ => rfl) fs

end ItemStore
