import ItemStore.Json.Basic
import ItemStore.Proofs.Traversal

/-!
The values within a document. In a document that comes from an object model no object has two
members with one key.
-/
namespace ItemStore.Json

/-- What holds of an array or object may be assumed of its members. -/
@[elab_as_elim, induction_eliminator]
theorem induction {motive : Json → Prop} (null : motive .null) (bool : ∀ b, motive (.bool b))
    (number : ∀ n, motive (.number n)) (string : ∀ s, motive (.string s))
    (array : ∀ items, (∀ v ∈ items, motive v) → motive (.array items))
    (object : ∀ members, (∀ m ∈ members, motive m.2) → motive (.object members)) (v : Json) :
    motive v :=
  @Json.rec motive (fun vs => ∀ v ∈ vs, motive v) (fun ms => ∀ m ∈ ms, motive m.2)
    (fun m => motive m.2) null bool number string array object (List.forall_mem_nil _)
    (fun _ _ hv hvs => List.forall_mem_cons.2 ⟨hv, hvs⟩) (List.forall_mem_nil _)
    (fun _ _ hm hms => List.forall_mem_cons.2 ⟨hm, hms⟩) (fun _ _ h => h) v

def isScalar : Json → Bool
  | .array _ => false
  | .object _ => false
  | _ => true

mutual

def nodes : Json → List Json
  | .array items => .array items :: itemsNodes items
  | .object members => .object members :: membersNodes members
  | v => [v]

def itemsNodes : List Json → List Json
  | [] => []
  | v :: vs => v.nodes ++ itemsNodes vs

def membersNodes : List (String × Json) → List Json
  | [] => []
  | (_, v) :: ms => v.nodes ++ membersNodes ms

end

theorem nodes_array (items : List Json) :
    (Json.array items).nodes = .array items :: items.flatMap nodes := by
  rw [nodes, eq_flatMap itemsNodes rfl fun _ _ => rfl]

theorem nodes_object (members : List (String × Json)) :
    (Json.object members).nodes = .object members :: members.flatMap fun m => m.2.nodes := by
  rw [nodes, eq_flatMap membersNodes rfl fun _ _ => rfl]

def Everywhere (P : Json → Prop) (v : Json) : Prop := ∀ n ∈ v.nodes, P n

theorem everywhere_iff_of_nodes {P : Json → Prop} {v : Json} (h : v.nodes = [v]) :
    v.Everywhere P ↔ P v := by
  rw [Everywhere, h, List.forall_mem_singleton]

theorem everywhere_array {P : Json → Prop} {items : List Json} :
    (Json.array items).Everywhere P ↔ P (.array items) ∧ ∀ v ∈ items, v.Everywhere P := by
  rw [Everywhere, nodes_array, List.forall_mem_cons, List.forall_mem_flatMap]
  rfl

theorem everywhere_object {P : Json → Prop} {members : List (String × Json)} :
    (Json.object members).Everywhere P ↔
      P (.object members) ∧ ∀ m ∈ members, m.2.Everywhere P := by
  rw [Everywhere, nodes_object, List.forall_mem_cons, List.forall_mem_flatMap]
  rfl

/-- No two members of an object share a key. -/
def Distinct (v : Json) : Prop :=
  v.Everywhere fun
    | .object members => (members.map Prod.fst).Nodup
    | _ => True

structure Document where
  json : Json
  distinct : json.Distinct

@[simp] theorem distinct_array {items : List Json} :
    (Json.array items).Distinct ↔ ∀ v ∈ items, v.Distinct := by
  simp [Distinct, everywhere_array]

@[simp] theorem distinct_object {members : List (String × Json)} :
    (Json.object members).Distinct ↔
      (members.map Prod.fst).Nodup ∧ ∀ m ∈ members, m.2.Distinct := by
  simp [Distinct, everywhere_object]

@[simp] theorem distinct_entry {key : String} {v : Json} :
    (Json.entry key v).Distinct ↔ v.Distinct := by
  simp [Json.entry]

@[simp] theorem distinct_null : Json.null.Distinct :=
  (everywhere_iff_of_nodes rfl).2 trivial

@[simp] theorem distinct_number (n : Json.Number) : (Json.number n).Distinct :=
  (everywhere_iff_of_nodes rfl).2 trivial

@[simp] theorem distinct_bool (b : Bool) : (Json.bool b).Distinct :=
  (everywhere_iff_of_nodes rfl).2 trivial

@[simp] theorem distinct_string (s : String) : (Json.string s).Distinct :=
  (everywhere_iff_of_nodes rfl).2 trivial

end ItemStore.Json
