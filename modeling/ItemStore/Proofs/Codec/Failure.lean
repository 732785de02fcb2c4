import ItemStore.Proofs.Codec.Response
import ItemStore.Proofs.Failure

/-!
Where encoding and decoding fail. What a tagged value fails with when it is decoded does not depend
on whether it is decoded as a document of its own.
-/
namespace ItemStore

open List

namespace Value

theorem encodeItems_eq_mapM (depth : Nat) (vs : List Value) :
    encodeItems depth vs = vs.mapM (encodeAt depth) :=
  eq_mapM (encodeItems depth) rfl (fun _ _ => rfl) vs

theorem encodeEntries_eq_mapM (depth : Nat) (es : List (String × Value)) :
    encodeEntries depth es = es.mapM fun (k, v) => do return (k, ← v.encodeAt depth) :=
  Entries.eq_mapM (encodeEntries depth) rfl (fun _ _ _ => rfl) es

end Value

namespace Tagged

theorem decodeItems_eq_mapM (depth : Nat) (ws : List Tagged) :
    decodeItems depth ws = ws.mapM (decodeAt depth) :=
  eq_mapM (decodeItems depth) rfl (fun _ _ => rfl) ws

theorem decodeEntries_eq_mapM (depth : Nat) (es : List (String × Tagged)) :
    decodeEntries depth es = es.mapM fun (k, w) => do return (k, ← w.decodeAt depth) :=
  Entries.eq_mapM (decodeEntries depth) rfl (fun _ _ _ => rfl) es

end Tagged

namespace Response

theorem decodeItems_eq_mapM (depth : Nat) (vs : List Json) :
    decodeItems depth vs = vs.mapM (decodeAt depth) :=
  eq_mapM (decodeItems depth) rfl (fun _ _ => rfl) vs

theorem decodeMembers_eq_mapM (depth : Nat) (ms : List (String × Json)) :
    decodeMembers depth ms = ms.mapM fun (k, v) => do return (k, ← decodeAt depth v) :=
  Entries.eq_mapM (decodeMembers depth) rfl (fun _ _ _ => rfl) ms

/-- A tagged value fails alike whether it is decoded as it is or as its document. -/
theorem decodeAt_toJson_eq_error_iff {w : Tagged} {depth : Nat} {e : CodecError} :
    decodeAt depth w.toJson = .error e ↔ w.decodeAt depth = .error e := by
  induction w generalizing depth e with
  | binary bytes =>
    show (if _ then _ else do return Value.binary (← bytesOf (.string (Base64.text bytes)))) = _ ↔ _
    rw [bytesOf_string (Base64.ofText?_text bytes)]
    rfl
  | numbers literals =>
    show (if _ then _ else do return Value.numbers (← (literals.map Json.string).mapM numberOf)) =
      _ ↔ _
    rw [mapM_numberOf_strings]
    rfl
  | texts ss =>
    show (if _ then _ else do return Value.texts (← textsOf (.strings ss))) = _ ↔ _
    rw [textsOf_strings]
    rfl
  | binaries bs =>
    have hb : ((bs.map Base64.text).map Json.string).mapM bytesOf = .ok bs := by
      rw [mapM_eq_ok_iff, forall₂_map_left_iff, forall₂_map_left_iff]
      exact forall₂_same.2 fun bytes _ => bytesOf_string (Base64.ofText?_text bytes)
    show (if _ then _ else do
      return Value.binaries (← ((bs.map Base64.text).map Json.string).mapM bytesOf)) = _ ↔ _
    rw [hb]
    rfl
  | list items ih =>
    show (if _ then _ else do
        return Value.list (← decodeItems (depth + 1) (Tagged.itemsToJson items))) = _ ↔
      (if _ then _ else do return Value.list (← Tagged.decodeItems (depth + 1) items)) = _
    split
    · rfl
    rw [bind_pure_eq_error, bind_pure_eq_error, decodeItems_eq_mapM, Tagged.decodeItems_eq_mapM,
      mapM_eq_error_iff, mapM_eq_error_iff, Tagged.itemsToJson_eq_map]
    exact firstFails_map_iff fun w hw _ => ih w hw
  | map entries ih =>
    show (if _ then _ else do return Value.map (Entries.ofList
        (← decodeMembers (depth + 1) (Tagged.entriesToJson entries)))) = _ ↔
      (if _ then _ else do return Value.map (← Tagged.decodeEntries (depth + 1) entries)) = _
    split
    · rfl
    rw [bind_pure_eq_error, bind_pure_eq_error, decodeMembers_eq_mapM, Tagged.decodeEntries_eq_mapM,
      mapM_eq_error_iff, mapM_eq_error_iff, Tagged.entriesToJson_eq_map]
    refine firstFails_map_iff fun f hf _ => ?_
    rw [bind_pure_eq_error, bind_pure_eq_error]
    exact ih f hf
  | _ => rfl

end Response
end ItemStore
