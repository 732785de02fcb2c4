import ItemStore.Codec.Decoding
import ItemStore.Codec.Encoding
import ItemStore.Proofs.Number
import ItemStore.Proofs.Success

/-!
What is decoded after it was encoded is the value up to a coercion: a numeric literal becomes a
number, and a list of which all members are numbers, or all are texts, becomes a set.
-/
namespace ItemStore

namespace Value

def number? : Value → Option Number
  | .number n => some n
  | .text s => Number.ofText? s
  | _ => none

mutual

/-- The coerced value, unless some numeric literal is too large for a number. -/
def coerced? : Value → Option Value
  | .text s => if isNumericLiteral s then (Number.ofText? s).map .number else some (.text s)
  | .list items =>
    if items.isEmpty then some (.list [])
    else if allTagged .number items then (items.mapM number?).map .numbers
    else if allTagged .text items then (items.mapM text?).map .texts
    else (coercedItems? items).map .list
  | .map entries => (coercedEntries? entries).map .map
  | v => some v

def coercedItems? : List Value → Option (List Value)
  | [] => some []
  | v :: vs => do return (← v.coerced?) :: (← coercedItems? vs)

def coercedEntries? : List (String × Value) → Option (List (String × Value))
  | [] => some []
  | (k, v) :: es => do return (k, ← v.coerced?) :: (← coercedEntries? es)

end

end Value

/-- What is expected is decoded, up to equality; where nothing is, decoding fails on a malformed
value. -/
def Decodes {α : Type} (eq : α → α → Bool) (expected : Option α) (r : Except CodecError α) : Prop :=
  match expected with
  | some a => ∃ b, r = .ok b ∧ eq b a = true
  | none => ∃ fault, r = .error (.malformed fault)

namespace Decodes

variable {α β γ : Type} {eq : α → α → Bool} {eq' : β → β → Bool} {eq'' : γ → γ → Bool}
  {expected : Option α} {r : Except CodecError α}

theorem map (f : α → β) (hf : ∀ a b, eq b a = true → eq' (f b) (f a) = true)
    (h : Decodes eq expected r) : Decodes eq' (expected.map f) (do return f (← r)) := by
  cases expected with
  | none =>
    obtain ⟨fault, rfl⟩ := h
    exact ⟨fault, rfl⟩
  | some a =>
    obtain ⟨b, rfl, hb⟩ := h
    exact ⟨f b, rfl, hf a b hb⟩

theorem map₂ (f : α → β → γ)
    (hf : ∀ a b c d, eq b a = true → eq' d c = true → eq'' (f b d) (f a c) = true)
    {expected' : Option β} {r' : Except CodecError β} (h : Decodes eq expected r)
    (h' : Decodes eq' expected' r') :
    Decodes eq'' (do return f (← expected) (← expected')) (do return f (← r) (← r')) := by
  cases expected with
  | none =>
    obtain ⟨fault, rfl⟩ := h
    exact ⟨fault, rfl⟩
  | some a =>
    obtain ⟨b, rfl, hb⟩ := h
    cases expected' with
    | none =>
      obtain ⟨fault, rfl⟩ := h'
      exact ⟨fault, rfl⟩
    | some c =>
      obtain ⟨d, rfl, hd⟩ := h'
      exact ⟨f b d, rfl, hf a b c d hb hd⟩

end Decodes

namespace Number

theorem decodes_ofLiteral (s : String) : Decodes same (ofText? s) (ofLiteral s) := by
  unfold ofLiteral
  cases h : ofText? s with
  | none => exact ⟨_, rfl⟩
  | some n => exact ⟨n, rfl, beq_self (isFinite_of_ofText? h)⟩

theorem decodes_literal {n : Number} {s : String} (h : n.literal = .ok s) :
    Decodes same (some n) (ofLiteral s) := by
  unfold literal at h
  split at h
  · rename_i hn
    cases h
    obtain ⟨m, hm, hs⟩ := ofText?_text hn
    exact ⟨m, by rw [ofLiteral, hm], hs⟩
  · cases h

theorem decodes_literals {ns : List Number} {ls : List String} (h : ns.mapM literal = .ok ls) :
    Decodes (fun ms ns => ms == ns) (some ns) (ls.mapM ofLiteral) := by
  induction ns generalizing ls with
  | nil =>
    cases h
    exact ⟨[], rfl, rfl⟩
  | cons n ns ih =>
    obtain ⟨l, ls, hl, hls, rfl⟩ := mapM_cons_eq_ok.1 h
    rw [List.mapM_cons]
    exact Decodes.map₂ List.cons (fun _ _ _ _ hn hns => Bool.and_eq_true_iff.2 ⟨hn, hns⟩)
      (decodes_literal hl) (ih hls)

end Number

namespace Value

theorem decodes_literal {v : Value} {s : String} (ht : v.scalarTag? = some .number)
    (h : v.literal = .ok s) : Decodes Number.same v.number? (Number.ofLiteral s) := by
  cases v with
  | number n => exact Number.decodes_literal h
  | text t =>
    have hs : t = s := Except.ok.inj h
    subst hs
    exact Number.decodes_ofLiteral t
  | _ => cases ht

theorem decodes_literals {items : List Value} {ls : List String}
    (ht : allTagged .number items = true) (h : items.mapM literal = .ok ls) :
    Decodes (fun ms ns => ms == ns) (items.mapM number?) (ls.mapM Number.ofLiteral) := by
  induction items generalizing ls with
  | nil =>
    cases h
    exact ⟨[], rfl, rfl⟩
  | cons v vs ih =>
    obtain ⟨l, ls, hl, hls, rfl⟩ := mapM_cons_eq_ok.1 h
    simp only [allTagged, List.all_cons, Bool.and_eq_true, beq_iff_eq] at ht
    rw [List.mapM_cons, List.mapM_cons]
    exact Decodes.map₂ List.cons (fun _ _ _ _ hn hns => Bool.and_eq_true_iff.2 ⟨hn, hns⟩)
      (decodes_literal ht.1 hl) (ih ht.2 hls)

theorem mapM_text?_of_literals {items : List Value} {ss : List String}
    (ht : allTagged .text items = true) (h : items.mapM literal = .ok ss) :
    items.mapM text? = some ss := by
  induction items generalizing ss with
  | nil =>
    cases h
    rfl
  | cons v vs ih =>
    obtain ⟨s, ss, hs, hss, rfl⟩ := mapM_cons_eq_ok.1 h
    simp only [allTagged, List.all_cons, Bool.and_eq_true, beq_iff_eq] at ht
    have hv : v.text? = some s := by
      cases v with
      | text t =>
        cases hs
        rfl
      | _ => cases ht.1
    rw [List.mapM_cons, hv, ih ht.2 hss]
    rfl

mutual

/-- A value is decoded at the level at which it was encoded. -/
theorem decodes_encodeAt (v : Value) {depth : Nat} {w : Tagged} (h : v.encodeAt depth = .ok w) :
    Decodes same v.coerced? (w.decodeAt depth) := by
  by_cases hd : CodecError.maxDepth < depth
  · rw [encodeAt.eq_def, if_pos hd] at h
    cases h
  rw [encodeAt.eq_def, if_neg hd] at h
  rw [Tagged.decodeAt.eq_def, if_neg hd]
  cases v with
  | null =>
    cases h
    exact ⟨_, rfl, rfl⟩
  | sentinel =>
    cases h
    exact ⟨_, rfl, rfl⟩
  | bool b =>
    cases h
    exact ⟨_, rfl, by simp [same]⟩
  | number n =>
    obtain ⟨l, hl, rfl⟩ := bind_pure_eq_ok.1 h
    show Decodes same ((some n).map Value.number) _
    exact (Number.decodes_literal hl).map Value.number fun _ _ hn => hn
  | text s =>
    cases h
    rw [coerced?]
    split
    · exact (Number.decodes_ofLiteral s).map Value.number fun _ _ hn => hn
    · exact ⟨_, rfl, by simp [same]⟩
  | list items =>
    simp only at h
    rw [coerced?]
    by_cases he : items.isEmpty = true
    · rw [if_pos he] at h ⊢
      cases h
      exact ⟨_, rfl, rfl⟩
    by_cases hn : allTagged .number items = true
    · rw [if_neg he, if_pos hn] at h ⊢
      obtain ⟨ls, hls, rfl⟩ := bind_pure_eq_ok.1 h
      exact (decodes_literals hn hls).map Value.numbers fun _ _ hn => hn
    by_cases ht : allTagged .text items = true
    · rw [if_neg he, if_neg hn, if_pos ht] at h ⊢
      obtain ⟨ss, hss, rfl⟩ := bind_pure_eq_ok.1 h
      rw [mapM_text?_of_literals ht hss]
      exact ⟨_, rfl, by simp [same]⟩
    · rw [if_neg he, if_neg hn, if_neg ht] at h ⊢
      obtain ⟨ws, hws, rfl⟩ := bind_pure_eq_ok.1 h
      exact (decodes_encodeItems items hws).map Value.list fun _ _ hn => hn
  | map entries =>
    obtain ⟨ws, hws, rfl⟩ := bind_pure_eq_ok.1 h
    exact (decodes_encodeEntries entries hws).map Value.map fun _ _ hn => hn
  | numbers ns =>
    obtain ⟨ls, hls, rfl⟩ := bind_pure_eq_ok.1 h
    show Decodes same ((some ns).map Value.numbers) _
    exact (Number.decodes_literals hls).map Value.numbers fun _ _ hn => hn
  | texts ss =>
    cases h
    exact ⟨_, rfl, by simp [same]⟩
  | binary bytes => cases h
  | binaries bs => cases h

theorem decodes_encodeItems (vs : List Value) {depth : Nat} {ws : List Tagged}
    (h : encodeItems depth vs = .ok ws) :
    Decodes sameItems (coercedItems? vs) (Tagged.decodeItems depth ws) := by
  cases vs with
  | nil =>
    cases h
    exact ⟨[], rfl, rfl⟩
  | cons v vs =>
    simp only [encodeItems, bind_eq_ok, pure_eq_ok] at h
    obtain ⟨w, hw, ws, hws, rfl⟩ := h
    rw [coercedItems?, Tagged.decodeItems]
    exact Decodes.map₂ List.cons (fun _ _ _ _ hv hvs => Bool.and_eq_true_iff.2 ⟨hv, hvs⟩)
      (decodes_encodeAt v hw) (decodes_encodeItems vs hws)

theorem decodes_encodeEntries (es : List (String × Value)) {depth : Nat}
    {ws : List (String × Tagged)} (h : encodeEntries depth es = .ok ws) :
    Decodes sameEntries (coercedEntries? es) (Tagged.decodeEntries depth ws) := by
  match es with
  | [] =>
    cases h
    exact ⟨[], rfl, rfl⟩
  | (k, v) :: es =>
    simp only [encodeEntries, bind_eq_ok, pure_eq_ok] at h
    obtain ⟨w, hw, ws, hws, rfl⟩ := h
    rw [coercedEntries?, Tagged.decodeEntries]
    exact Decodes.map₂ (fun v es => (k, v) :: es)
      (fun _ _ _ _ hv hvs => by simp [sameEntries, hv, hvs])
      (decodes_encodeAt v hw) (decodes_encodeEntries es hws)

end

/-- Decoding undoes encoding up to the coercion, and it fails on a malformed value exactly if the
coercion gives none. -/
theorem decode_encode {v : Value} {w : Tagged} (h : v.encode = .ok w) :
    (∀ u, v.coerced? = some u → ∃ d, w.decode = .ok d ∧ (d == u) = true) ∧
      (v.coerced? = none → ∃ fault, w.decode = .error (.malformed fault)) := by
  have hd := decodes_encodeAt v h
  refine ⟨fun u hu => ?_, fun hn => ?_⟩
  · rw [hu] at hd
    exact hd
  · rw [hn] at hd
    exact hd

/-- Numeric literals become numbers alone, in a list of numbers and among other values. -/
theorem decode_encode_document :
    ∃ w d, encode (.map [("a", .list [.text "007", .number (.int 5)]),
        ("b", .list [.text "x", .text "y"]), ("c", .list [.text "-1", .null, .sentinel])]) = .ok w ∧
      w.decode = .ok d ∧
      (d == .map [("a", .numbers [.int 7, .int 5]), ("b", .texts ["x", "y"]),
        ("c", .list [.number (.int (-1)), .null, .sentinel])]) = true := by
  have h : encode (.map [("a", .list [.text "007", .number (.int 5)]),
      ("b", .list [.text "x", .text "y"]), ("c", .list [.text "-1", .null, .sentinel])]) =
        .ok _ := rfl
  obtain ⟨d, hd, hs⟩ := (decode_encode h).1 _ rfl
  exact ⟨_, d, h, hd, hs⟩

end Value
end ItemStore
