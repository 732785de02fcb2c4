import ItemStore.Tagged.Json
import ItemStore.Proofs.Json.Node

/-!
The tagged values within a tagged value. Where the entries of each map are in the order of their
keys, what is written as JSON has no key twice.
-/
namespace ItemStore
namespace Tagged

/-- What holds of a list or map may be assumed of its members. -/
@[elab_as_elim, induction_eliminator]
theorem induction {motive : Tagged → Prop} (null : ∀ marker, motive (.null marker))
    (bool : ∀ b, motive (.bool b)) (number : ∀ literal, motive (.number literal))
    (text : ∀ s, motive (.text s)) (binary : ∀ bytes, motive (.binary bytes))
    (numbers : ∀ literals, motive (.numbers literals)) (texts : ∀ ss, motive (.texts ss))
    (binaries : ∀ bs, motive (.binaries bs))
    (list : ∀ items, (∀ w ∈ items, motive w) → motive (.list items))
    (map : ∀ entries, (∀ e ∈ entries, motive e.2) → motive (.map entries)) (w : Tagged) :
    motive w :=
  @Tagged.rec motive (fun ws => ∀ w ∈ ws, motive w) (fun es => ∀ e ∈ es, motive e.2)
    (fun e => motive e.2) null bool number text binary numbers texts binaries list map
    (List.forall_mem_nil _) (fun _ _ hw hws => List.forall_mem_cons.2 ⟨hw, hws⟩)
    (List.forall_mem_nil _) (fun _ _ he hes => List.forall_mem_cons.2 ⟨he, hes⟩)
    (fun _ _ h => h) w

mutual

def nodes : Tagged → List Tagged
  | .list items => .list items :: itemsNodes items
  | .map entries => .map entries :: entriesNodes entries
  | w => [w]

def itemsNodes : List Tagged → List Tagged
  | [] => []
  | w :: ws => w.nodes ++ itemsNodes ws

def entriesNodes : List (String × Tagged) → List Tagged
  | [] => []
  | (_, w) :: es => w.nodes ++ entriesNodes es

end

theorem nodes_list (items : List Tagged) :
    (Tagged.list items).nodes = .list items :: items.flatMap nodes := by
  rw [nodes, eq_flatMap itemsNodes rfl fun _ _ => rfl]

theorem nodes_map (entries : List (String × Tagged)) :
    (Tagged.map entries).nodes = .map entries :: entries.flatMap fun e => e.2.nodes := by
  rw [nodes, eq_flatMap entriesNodes rfl fun _ _ => rfl]

def Everywhere (P : Tagged → Prop) (w : Tagged) : Prop := ∀ n ∈ w.nodes, P n

theorem everywhere_iff_of_nodes {P : Tagged → Prop} {w : Tagged} (h : w.nodes = [w]) :
    w.Everywhere P ↔ P w := by
  rw [Everywhere, h, List.forall_mem_singleton]

theorem everywhere_list {P : Tagged → Prop} {items : List Tagged} :
    (Tagged.list items).Everywhere P ↔ P (.list items) ∧ ∀ w ∈ items, w.Everywhere P := by
  rw [Everywhere, nodes_list, List.forall_mem_cons, List.forall_mem_flatMap]
  rfl

theorem everywhere_map {P : Tagged → Prop} {entries : List (String × Tagged)} :
    (Tagged.map entries).Everywhere P ↔
      P (.map entries) ∧ ∀ e ∈ entries, e.2.Everywhere P := by
  rw [Everywhere, nodes_map, List.forall_mem_cons, List.forall_mem_flatMap]
  rfl

/-- The entries of every map are in the order of their keys. -/
def Ordered (w : Tagged) : Prop :=
  w.Everywhere fun
    | .map entries => Entries.Sorted entries
    | _ => True

@[simp] theorem ordered_null (marker : Bool) : (Tagged.null marker).Ordered :=
  (everywhere_iff_of_nodes rfl).2 trivial

@[simp] theorem ordered_bool (b : Bool) : (Tagged.bool b).Ordered :=
  (everywhere_iff_of_nodes rfl).2 trivial

@[simp] theorem ordered_number (literal : String) : (Tagged.number literal).Ordered :=
  (everywhere_iff_of_nodes rfl).2 trivial

@[simp] theorem ordered_text (s : String) : (Tagged.text s).Ordered :=
  (everywhere_iff_of_nodes rfl).2 trivial

@[simp] theorem ordered_binary (bytes : List UInt8) : (Tagged.binary bytes).Ordered :=
  (everywhere_iff_of_nodes rfl).2 trivial

@[simp] theorem ordered_binaries (bs : List (List UInt8)) : (Tagged.binaries bs).Ordered :=
  (everywhere_iff_of_nodes rfl).2 trivial

@[simp] theorem ordered_numbers (literals : List String) : (Tagged.numbers literals).Ordered :=
  (everywhere_iff_of_nodes rfl).2 trivial

@[simp] theorem ordered_texts (ss : List String) : (Tagged.texts ss).Ordered :=
  (everywhere_iff_of_nodes rfl).2 trivial

@[simp] theorem ordered_list {items : List Tagged} :
    (Tagged.list items).Ordered ↔ ∀ w ∈ items, w.Ordered := by
  simp [Ordered, everywhere_list]

@[simp] theorem ordered_map {entries : List (String × Tagged)} :
    (Tagged.map entries).Ordered ↔ Entries.Sorted entries ∧ ∀ e ∈ entries, e.2.Ordered := by
  simp [Ordered, everywhere_map]

theorem itemsToJson_eq_map (ws : List Tagged) : itemsToJson ws = ws.map toJson :=
  eq_map itemsToJson rfl (fun _ _ => rfl) ws

theorem entriesToJson_eq_map (es : List (String × Tagged)) :
    entriesToJson es = es.map fun e => (e.1, e.2.toJson) :=
  eq_map entriesToJson rfl (fun _ _ => rfl) es

theorem map_fst_entriesToJson (es : List (String × Tagged)) :
    (entriesToJson es).map Prod.fst = es.map Prod.fst := by
  rw [entriesToJson_eq_map, List.map_map]
  rfl

end Tagged

structure OrderedTagged where
  tagged : Tagged
  ordered : tagged.Ordered

end ItemStore
