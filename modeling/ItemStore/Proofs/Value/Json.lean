import ItemStore.Value.Json
import ItemStore.Proofs.Json.Node
import ItemStore.Proofs.Value.Node

/-! The value that a document is read as, its maps in order, and the document of a value. -/
namespace ItemStore
namespace Value

theorem ofMembers_eq_map (ms : List (String × Json)) :
    ofMembers ms = ms.map fun (k, v) => (k, ofJson v) :=
  eq_map ofMembers rfl (fun _ _ => rfl) ms

theorem ofItems_eq_map (vs : List Json) : ofItems vs = vs.map ofJson :=
  eq_map ofItems rfl (fun _ _ => rfl) vs

theorem itemsToJson_eq_map (vs : List Value) : itemsToJson vs = vs.map toJson :=
  eq_map itemsToJson rfl (fun _ _ => rfl) vs

theorem entriesToJson_eq_map (es : List (String × Value)) :
    entriesToJson es = es.map fun (k, v) => (k, v.toJson) :=
  eq_map entriesToJson rfl (fun _ _ => rfl) es

theorem ordered_ofJson (v : Json) : (ofJson v).Ordered := by
  induction v with
  | array items ih =>
    rw [ofJson, ordered_list, ofItems_eq_map, List.forall_mem_map]
    exact ih
  | object members ih =>
    rw [ofJson, ordered_map]
    refine ⟨Entries.sorted_ofList _, fun e he => ?_⟩
    rw [ofMembers_eq_map] at he
    obtain ⟨m, hm, rfl⟩ := List.mem_map.1 (Entries.mem_of_mem_ofList he)
    exact ih m hm
  | _ => exact (everywhere_iff_of_nodes rfl).2 trivial

end Value

def OrderedValue.ofJson (v : Json) : OrderedValue := ⟨Value.ofJson v, Value.ordered_ofJson v⟩

end ItemStore
