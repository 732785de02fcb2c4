import ItemStore.Value.Basic
import ItemStore.Proofs.Traversal

/-! The values within a value. -/
namespace ItemStore
namespace Value

/-- What holds of a list or map may be assumed of its members. -/
@[elab_as_elim, induction_eliminator]
theorem induction {motive : Value → Prop} (null : motive .null) (bool : ∀ b, motive (.bool b))
    (number : ∀ n, motive (.number n)) (text : ∀ s, motive (.text s))
    (binary : ∀ bytes, motive (.binary bytes))
    (list : ∀ items, (∀ v ∈ items, motive v) → motive (.list items))
    (map : ∀ entries, (∀ e ∈ entries, motive e.2) → motive (.map entries))
    (numbers : ∀ ns, motive (.numbers ns)) (texts : ∀ ss, motive (.texts ss))
    (binaries : ∀ bs, motive (.binaries bs)) (sentinel : motive .sentinel) (v : Value) : motive v :=
  @Value.rec motive (fun vs => ∀ v ∈ vs, motive v) (fun es => ∀ e ∈ es, motive e.2)
    (fun e => motive e.2) null bool number text binary list map numbers texts binaries sentinel
    (List.forall_mem_nil _) (fun _ _ hv hvs => List.forall_mem_cons.2 ⟨hv, hvs⟩)
    (List.forall_mem_nil _) (fun _ _ he hes => List.forall_mem_cons.2 ⟨he, hes⟩)
    (fun _ _ h => h) v

mutual

def nodes : Value → List Value
  | .list items => .list items :: itemsNodes items
  | .map entries => .map entries :: entriesNodes entries
  | v => [v]

def itemsNodes : List Value → List Value
  | [] => []
  | v :: vs => v.nodes ++ itemsNodes vs

def entriesNodes : List (String × Value) → List Value
  | [] => []
  | (_, v) :: es => v.nodes ++ entriesNodes es

end

theorem nodes_list (items : List Value) :
    (Value.list items).nodes = .list items :: items.flatMap nodes := by
  rw [nodes, eq_flatMap itemsNodes rfl fun _ _ => rfl]

theorem nodes_map (entries : List (String × Value)) :
    (Value.map entries).nodes = .map entries :: entries.flatMap fun e => e.2.nodes := by
  rw [nodes, eq_flatMap entriesNodes rfl fun _ _ => rfl]

def Everywhere (P : Value → Prop) (v : Value) : Prop := ∀ n ∈ v.nodes, P n

theorem everywhere_iff_of_nodes {P : Value → Prop} {v : Value} (h : v.nodes = [v]) :
    v.Everywhere P ↔ P v := by
  rw [Everywhere, h, List.forall_mem_singleton]

theorem everywhere_list {P : Value → Prop} {items : List Value} :
    (Value.list items).Everywhere P ↔ P (.list items) ∧ ∀ v ∈ items, v.Everywhere P := by
  rw [Everywhere, nodes_list, List.forall_mem_cons, List.forall_mem_flatMap]
  rfl

theorem everywhere_map {P : Value → Prop} {entries : List (String × Value)} :
    (Value.map entries).Everywhere P ↔
      P (.map entries) ∧ ∀ e ∈ entries, e.2.Everywhere P := by
  rw [Everywhere, nodes_map, List.forall_mem_cons, List.forall_mem_flatMap]
  rfl

/-- The entries of every map are in the order of their keys. -/
def Ordered (v : Value) : Prop :=
  v.Everywhere fun
    | .map entries => Entries.Sorted entries
    | _ => True

@[simp] theorem ordered_list {items : List Value} :
    (Value.list items).Ordered ↔ ∀ v ∈ items, v.Ordered := by
  simp [Ordered, everywhere_list]

@[simp] theorem ordered_map {entries : List (String × Value)} :
    (Value.map entries).Ordered ↔ Entries.Sorted entries ∧ ∀ e ∈ entries, e.2.Ordered := by
  simp [Ordered, everywhere_map]

end Value

structure OrderedValue where
  value : Value
  ordered : value.Ordered

end ItemStore
