import ItemStore.Proofs.Codec.Document
import ItemStore.Proofs.Codec.Nesting

/-!
Pipelines of codec steps. Documents, tagged values and responses may come from outside; every other
step is applied to what an earlier one gave. Each step leaves something that fits the depth limit
and takes everything that fits it, so only data from outside can turn out to nest too deep.
-/
namespace ItemStore.Pipeline

inductive Product where
  | value (v : Value)
  | tagged (w : Tagged)

inductive Step where
  | ofJson (x : Json)
  | encode (v : Value)
  | decode (w : Tagged)
  | decodeResponse (x : Json)

namespace Step

def outcome : Step → Except CodecError Product
  | .ofJson x => do return .value (← Value.ofJson? x)
  | .encode v => do return .tagged (← v.encode)
  | .decode w => do return .value (← w.decode)
  | .decodeResponse x => do return .value (← Response.decode x)

def isReader : Step → Bool
  | .encode _ => false
  | _ => true

/-- The steps that a product can be put to. A tagged value is decoded as it is or as its document;
that document is no document of a value, so to read it as one is to read data from outside. -/
inductive Takes : Step → Product → Prop
  | encode (v : Value) : Takes (.encode v) (.value v)
  | decode (w : Tagged) : Takes (.decode w) (.tagged w)
  | decodeResponse (w : Tagged) : Takes (.decodeResponse w.toJson) (.tagged w)

end Step

/-- The steps of a pipeline, the latest first. A step that failed has no product to go on with. -/
inductive Run : List Step → Prop
  | nil : Run []
  | outside {s : Step} {ss : List Step} : Run ss → s.isReader = true → Run (s :: ss)
  | inside {s t : Step} {ss : List Step} {p : Product} :
    Run ss → t ∈ ss → t.outcome = .ok p → s.Takes p → Run (s :: ss)

def Product.nesting : Product → Nat
  | .value v => v.nesting
  | .tagged w => w.nesting

theorem nesting_le_of_outcome {s : Step} {p : Product} (h : s.outcome = .ok p) :
    p.nesting ≤ CodecError.maxDepth := by
  cases s with
  | ofJson x =>
    obtain ⟨v, hv, rfl⟩ := bind_pure_eq_ok.1 h
    exact Value.nesting_le_of_ofJson? hv
  | encode v =>
    obtain ⟨w, hw, rfl⟩ := bind_pure_eq_ok.1 h
    exact Value.nesting_le_of_encode hw
  | decode w =>
    obtain ⟨v, hv, rfl⟩ := bind_pure_eq_ok.1 h
    exact Tagged.nesting_le_of_decode hv
  | decodeResponse x =>
    obtain ⟨v, hv, rfl⟩ := bind_pure_eq_ok.1 h
    exact Response.nesting_le_of_decode hv

theorem outcome_ne_tooDeep {s : Step} {p : Product} (h : s.Takes p)
    (hp : p.nesting ≤ CodecError.maxDepth) : s.outcome ≠ .error .tooDeep := by
  intro he
  cases h with
  | encode v => exact Value.encode_ne_tooDeep hp (bind_pure_eq_error.1 he)
  | decode w => exact Tagged.decode_ne_tooDeep hp (bind_pure_eq_error.1 he)
  | decodeResponse w => exact Response.decode_toJson_ne_tooDeep hp (bind_pure_eq_error.1 he)

theorem Run.of_append {ss : List Step} (later : List Step) (h : Run (later ++ ss)) : Run ss := by
  induction later with
  | nil => exact h
  | cons s later ih =>
    cases h with
    | outside h _ => exact ih h
    | inside h _ _ _ => exact ih h

/-- Reading, encoding and decoding give what is within the depth limit, and nothing within it is too
deep for the steps that can follow. So where a step of a pipeline fails for the depth, it is a
reader, and what it was given is no earlier product. What a tagged value is written as in JSON is
data from outside where the document reader is given it, and can be too deep for that reader. -/
theorem tooDeep_only_from_outside :
    (∀ v, (∃ x, Value.ofJson? x = .ok v) ∨ (∃ w : Tagged, w.decode = .ok v) ∨
        (∃ x, Response.decode x = .ok v) →
      v.nesting ≤ CodecError.maxDepth ∧ v.encode ≠ .error .tooDeep) ∧
    (∀ (v : Value) (w : Tagged), v.encode = .ok w →
      w.decode ≠ .error .tooDeep ∧ Response.decode w.toJson ≠ .error .tooDeep) ∧
    ∀ (later earlier : List Step) (s : Step), Run (later ++ s :: earlier) →
      s.outcome = .error .tooDeep →
        s.isReader = true ∧ ∀ t ∈ earlier, ∀ p, t.outcome = .ok p → ¬s.Takes p := by
  refine ⟨fun v hv => ?_, fun v w hw => ?_, fun later earlier s h he => ?_⟩
  · have hn : v.nesting ≤ CodecError.maxDepth := by
      rcases hv with ⟨x, hx⟩ | ⟨w, hw⟩ | ⟨x, hx⟩
      · exact Value.nesting_le_of_ofJson? hx
      · exact Tagged.nesting_le_of_decode hw
      · exact Response.nesting_le_of_decode hx
    exact ⟨hn, Value.encode_ne_tooDeep hn⟩
  · have hn := Value.nesting_le_of_encode hw
    exact ⟨Tagged.decode_ne_tooDeep hn, Response.decode_toJson_ne_tooDeep hn⟩
  · have hi : ∀ t ∈ earlier, ∀ p, t.outcome = .ok p → ¬s.Takes p := fun t _ p hp hs =>
      outcome_ne_tooDeep hs (nesting_le_of_outcome hp) he
    cases Run.of_append later h with
    | outside _ hr => exact ⟨hr, hi⟩
    | inside _ ht hp hs => exact absurd hs (hi _ ht _ hp)

theorem nesting_repeat_array (n : Nat) :
    (Nat.repeat (fun y => Json.array [y]) n .null).nesting = n := by
  have hf : ∀ y, (Json.array [y]).nesting = y.nesting + 1 := fun y => Nat.max_zero _
  rw [Json.nesting_repeat hf, Nat.mul_one]
  exact Nat.zero_add n

/-- A document that reaches the last level goes all the way, and with one level more it is not even
read. -/
theorem tooDeep_only_from_outside_at_limit :
    ∃ x v w, x = Nat.repeat (fun y => Json.array [y]) CodecError.maxDepth .null ∧
      Value.ofJson? x = .ok v ∧ v.encode ≠ .error .tooDeep ∧ v.encode = .ok w ∧
      Response.decode w.toJson ≠ .error .tooDeep ∧
      Run ([] ++ .ofJson (.array [x]) :: [.decodeResponse w.toJson, .encode v, .ofJson x]) ∧
      (Step.ofJson (.array [x])).outcome = .error .tooDeep ∧
      (Step.ofJson (.array [x])).isReader = true := by
  obtain ⟨hread, hencode, hrun⟩ := tooDeep_only_from_outside
  generalize hx : Nat.repeat (fun y => Json.array [y]) CodecError.maxDepth .null = x
  have hn : x.nesting = CodecError.maxDepth := hx ▸ nesting_repeat_array _
  have hv := Value.ofJson?_eq_ok_iff.2 ⟨Nat.le_of_eq hn, rfl⟩
  obtain ⟨w, hw⟩ := Value.exists_encode_ofJson (Nat.le_of_eq hn)
  have hr : Run [.ofJson (.array [x]), .decodeResponse w.toJson, .encode (Value.ofJson x),
      .ofJson x] := by
    have hfirst : Run [.ofJson x] := .outside .nil rfl
    have hsecond : Run [.encode (Value.ofJson x), .ofJson x] :=
      .inside hfirst (List.mem_cons_self ..) (bind_pure_eq_ok.2 ⟨_, hv, rfl⟩) (.encode _)
    have hthird : Run [.decodeResponse w.toJson, .encode (Value.ofJson x), .ofJson x] :=
      .inside hsecond (List.mem_cons_self ..) (bind_pure_eq_ok.2 ⟨_, hw, rfl⟩) (.decodeResponse w)
    exact .outside hthird rfl
  have he : (Step.ofJson (.array [x])).outcome = .error .tooDeep := by
    have hd : (Json.array [x]).nesting = CodecError.maxDepth + 1 := by
      rw [Json.nesting, Json.itemsNesting, Json.itemsNesting, hn, Nat.max_zero]
    refine bind_pure_eq_error.2 (Value.ofJson?_eq_tooDeep_iff.2 ?_)
    rw [hd]
    exact Nat.lt_succ_self _
  exact ⟨x, _, w, rfl, hv, (hread _ (.inl ⟨_, hv⟩)).2, hw, (hencode _ w hw).2, hr, he,
    (hrun [] _ _ hr he).1⟩

end ItemStore.Pipeline
