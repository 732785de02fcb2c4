import ItemStore.Proofs.Filter.Keyword
import ItemStore.Proofs.Filter.Paging
import ItemStore.Proofs.Value.Nesting

/-!
The grammar of filter documents, as the relation between a document and the filter that it is. The
reader accepts exactly the documents that stand in this relation to some filter, and it builds that
filter.
-/
namespace ItemStore

open List

namespace Filter

def IsComparison (m : String × Json) (p : Comparison × Value) : Prop :=
  m.1 ∈ p.1.names ∧ m.2.nesting ≤ CodecError.maxDepth ∧ p.2 = .ofJson m.2

/-- A field with what is asked of it; a scalar that is falsy asks nothing. -/
inductive IsField (key : String) : Json → List FilterEntry → Prop
  | comparisons {ms : List (String × Json)} {pairs : List (Comparison × Value)}
    (h : Forall₂ IsComparison ms pairs) : IsField key (.object ms) [.field key (.compare pairs)]
  | alternatives {vs : List Json} (h : ∀ v ∈ vs, v.nesting ≤ CodecError.maxDepth) :
    IsField key (.array vs) [.field key (.among (vs.map .ofJson))]
  | scalar {v : Json} (h : v.isScalar = true) :
    IsField key v (if v.isTruthy then [.field key (.equals (.ofJson v))] else [])

mutual

/-- A member of a block at a level, with its entry if it asks anything. -/
inductive IsEntry : Nat → String → Json → List FilterEntry → Prop
  | blocks {d : Nat} {key : String} {op : Connective} {vs : List Json} {fs : List Filter}
    (hk : op.Spells key) (h : AreBlocks (d + 1) vs fs) : IsEntry d key (.array vs) [.group op fs]
  | members {d : Nat} {key : String} {op : Connective} {ms : List (String × Json)}
    {fs : List Filter} (hk : op.Spells key) (h : AreOperands (d + 1) ms fs) :
    IsEntry d key (.object ms) [.group op fs]
  | field {d : Nat} {key : String} {v : Json} {es : List FilterEntry}
    (hk : key.toList.head? ≠ some '$') (h : IsField key v es) : IsEntry d key v es

inductive AreEntries : Nat → List (String × Json) → List FilterEntry → Prop
  | nil {d : Nat} : AreEntries d [] []
  | cons {d : Nat} {key : String} {v : Json} {ms : List (String × Json)} {es f : List FilterEntry}
    (h : IsEntry d key v es) (hs : AreEntries d ms f) : AreEntries d ((key, v) :: ms) (es ++ f)

/-- A block may not stand too deep. -/
inductive IsBlock : Nat → List (String × Json) → Filter → Prop
  | intro {d : Nat} {ms : List (String × Json)} {f : Filter} (hd : d ≤ FilterError.maxDepth)
    (h : AreEntries d ms f) : IsBlock d ms f

inductive AreBlocks : Nat → List Json → List Filter → Prop
  | nil {d : Nat} : AreBlocks d [] []
  | cons {d : Nat} {ms : List (String × Json)} {f : Filter} {vs : List Json} {fs : List Filter}
    (h : IsBlock d ms f) (hs : AreBlocks d vs fs) : AreBlocks d (.object ms :: vs) (f :: fs)

inductive AreOperands : Nat → List (String × Json) → List Filter → Prop
  | nil {d : Nat} : AreOperands d [] []
  | cons {d : Nat} {m : String × Json} {f : Filter} {ms : List (String × Json)} {fs : List Filter}
    (h : IsBlock d [m] f) (hs : AreOperands d ms fs) : AreOperands d (m :: ms) (f :: fs)

end

theorem isBlock_iff {d : Nat} {ms : List (String × Json)} {f : Filter} :
    IsBlock d ms f ↔ d ≤ FilterError.maxDepth ∧ AreEntries d ms f :=
  ⟨fun ⟨hd, h⟩ => ⟨hd, h⟩, fun ⟨hd, h⟩ => ⟨hd, h⟩⟩

theorem areEntries_cons_iff {d : Nat} {key : String} {v : Json} {ms : List (String × Json)}
    {f : Filter} : AreEntries d ((key, v) :: ms) f ↔
      ∃ es g, IsEntry d key v es ∧ AreEntries d ms g ∧ es ++ g = f := by
  constructor
  · rintro (_ | ⟨h, hs⟩)
    exact ⟨_, _, h, hs, rfl⟩
  · rintro ⟨es, g, h, hs, rfl⟩
    exact .cons h hs

theorem isBlock_singleton_iff {d : Nat} {key : String} {v : Json} {f : Filter} :
    IsBlock d [(key, v)] f ↔ d ≤ FilterError.maxDepth ∧ IsEntry d key v f := by
  rw [isBlock_iff, areEntries_cons_iff]
  constructor
  · rintro ⟨hd, es, g, h, ⟨⟩, rfl⟩
    exact ⟨hd, es.append_nil.symm ▸ h⟩
  · rintro ⟨hd, h⟩
    exact ⟨hd, f, [], h, .nil, f.append_nil⟩

theorem areBlocks_cons_iff {d : Nat} {ms : List (String × Json)} {vs : List Json}
    {fs : List Filter} : AreBlocks d (.object ms :: vs) fs ↔
      ∃ f gs, IsBlock d ms f ∧ AreBlocks d vs gs ∧ f :: gs = fs := by
  constructor
  · rintro (_ | ⟨h, hs⟩)
    exact ⟨_, _, h, hs, rfl⟩
  · rintro ⟨f, gs, h, hs, rfl⟩
    exact .cons h hs

theorem areOperands_cons_iff {d : Nat} {m : String × Json} {ms : List (String × Json)}
    {fs : List Filter} : AreOperands d (m :: ms) fs ↔
      ∃ f gs, IsBlock d [m] f ∧ AreOperands d ms gs ∧ f :: gs = fs := by
  constructor
  · rintro (_ | ⟨h, hs⟩)
    exact ⟨_, _, h, hs, rfl⟩
  · rintro ⟨f, gs, h, hs, rfl⟩
    exact .cons h hs

/-! Fields. -/

theorem valuesOfJson_eq_ok_iff {items : List Json} {vs : List Value} :
    valuesOfJson items = .ok vs ↔
      (∀ v ∈ items, v.nesting ≤ CodecError.maxDepth) ∧ vs = items.map .ofJson := by
  rw [valuesOfJson, mapM_eq_ok_iff]
  exact forall₂_iff_eq_map fun v _ u => mapError_eq_ok.trans Value.ofJson?_eq_ok_iff

theorem comparisonsOfJson_eq_ok_iff {field : String} {ms : List (String × Json)}
    {pairs : List (Comparison × Value)} :
    comparisonsOfJson field ms = .ok pairs ↔ Forall₂ IsComparison ms pairs := by
  rw [comparisonsOfJson, mapM_eq_ok_iff]
  refine iff_of_eq (congrArg (Forall₂ · ms pairs) (funext₂ fun m p => propext ?_))
  obtain ⟨name, v⟩ := m
  obtain ⟨op, u⟩ := p
  rw [IsComparison, ← Comparison.ofName?_eq_some_iff, ← Value.ofJson?_eq_ok_iff]
  dsimp only
  cases Comparison.ofName? name with
  | none => simp
  | some op' =>
    simp only [bind_pure_eq_ok, mapError_eq_ok, Prod.mk.injEq, Option.some_inj]
    constructor
    · rintro ⟨w, hw, rfl, rfl⟩
      exact ⟨rfl, hw⟩
    · rintro ⟨rfl, hu⟩
      exact ⟨u, hu, rfl, rfl⟩

theorem fieldOfJson_eq_ok_iff {key : String} {v : Json} {es : List FilterEntry} :
    fieldOfJson key v = .ok es ↔ IsField key v es := by
  unfold fieldOfJson
  split
  · rename_i ms
    simp only [bind_pure_eq_ok, comparisonsOfJson_eq_ok_iff]
    constructor
    · rintro ⟨pairs, h, rfl⟩
      exact .comparisons h
    · rintro (@⟨_, pairs, h⟩ | _ | ⟨⟨⟩⟩)
      exact ⟨pairs, h, rfl⟩
  · rename_i vs
    simp only [bind_pure_eq_ok, valuesOfJson_eq_ok_iff]
    constructor
    · rintro ⟨_, ⟨h, rfl⟩, rfl⟩
      exact .alternatives h
    · rintro (_ | h | ⟨⟨⟩⟩)
      exact ⟨_, ⟨h, rfl⟩, rfl⟩
  · rename_i ho ha
    constructor
    · rintro ⟨⟩
      exact .scalar (by cases v <;> first | rfl | exact (ho _ rfl).elim | exact (ha _ rfl).elim)
    · intro h
      cases h with
      | comparisons h => exact (ho _ rfl).elim
      | alternatives h => exact (ha _ rfl).elim
      | scalar h => rfl

/-! Entries and operands, along the recursion of the reader. -/

mutual

theorem entryOfJson_eq_ok_iff {d : Nat} {key : String} (v : Json) {es : List FilterEntry} :
    entryOfJson d key v = .ok es ↔ IsEntry d key v es := by
  rw [entryOfJson.eq_def]
  by_cases hk : key.toList.head? = some '$'
  · rw [if_pos hk]
    cases ho : Connective.ofKey? key with
    | none =>
      have hs : ∀ op : Connective, ¬op.Spells key := by
        intro op h
        rw [Connective.ofKey?_eq_some_iff.2 h] at ho
        cases ho
      refine iff_of_false (by rintro ⟨⟩) ?_
      rintro (⟨h, -⟩ | ⟨h, -⟩ | ⟨h, -⟩)
      · exact hs _ h
      · exact hs _ h
      · exact h hk
    | some op =>
      -- the key spells this connective and no other, so only one rule can apply
      have hs : ∀ op' : Connective, op'.Spells key ↔ op' = op := by
        intro op'
        rw [← Connective.ofKey?_eq_some_iff, ho, Option.some_inj, eq_comm]
      cases v with
      | array vs =>
        simp only [bind_pure_eq_ok, operandsOfItems_eq_ok_iff vs]
        constructor
        · rintro ⟨fs, h, rfl⟩
          exact .blocks ((hs op).2 rfl) h
        · rintro (⟨ho', h⟩ | _ | ⟨hn, -⟩)
          · cases (hs _).1 ho'
            exact ⟨_, h, rfl⟩
          · exact (hn hk).elim
      | object ms =>
        simp only [bind_pure_eq_ok, operandsOfMembers_eq_ok_iff ms]
        constructor
        · rintro ⟨fs, h, rfl⟩
          exact .members ((hs op).2 rfl) h
        · rintro (_ | ⟨ho', h⟩ | ⟨hn, -⟩)
          · cases (hs _).1 ho'
            exact ⟨_, h, rfl⟩
          · exact (hn hk).elim
      | _ =>
        refine iff_of_false (by rintro ⟨⟩) ?_
        rintro (_ | _ | ⟨hn, -⟩)
        exact hn hk
  · rw [if_neg hk, fieldOfJson_eq_ok_iff]
    have hs : ∀ op : Connective, ¬op.Spells key := by
      rintro op ⟨name, hn, -⟩
      exact hk (hn ▸ rfl)
    constructor
    · exact .field hk
    · rintro (⟨h, -⟩ | ⟨h, -⟩ | ⟨-, h⟩)
      · exact (hs _ h).elim
      · exact (hs _ h).elim
      · exact h

theorem entriesOfMembers_eq_ok_iff {d : Nat} (ms : List (String × Json)) {f : Filter} :
    entriesOfMembers d ms = .ok f ↔ AreEntries d ms f := by
  cases ms with
  | nil =>
    constructor
    · rintro ⟨⟩
      exact .nil
    · rintro ⟨⟩
      rfl
  | cons m ms =>
    obtain ⟨key, v⟩ := m
    simp only [entriesOfMembers, bind_eq_ok, pure_eq_ok, areEntries_cons_iff,
      entryOfJson_eq_ok_iff v, entriesOfMembers_eq_ok_iff ms, exists_and_left]

theorem operandsOfItems_eq_ok_iff {d : Nat} {key : String} (vs : List Json) {fs : List Filter} :
    operandsOfItems d key vs = .ok fs ↔ AreBlocks d vs fs := by
  cases vs with
  | nil =>
    constructor
    · rintro ⟨⟩
      exact .nil
    · rintro ⟨⟩
      rfl
  | cons v vs =>
    cases v with
    | object ms =>
      simp only [operandsOfItems, ite_error_eq_ok, bind_eq_ok, pure_eq_ok, areBlocks_cons_iff,
        isBlock_iff, entriesOfMembers_eq_ok_iff ms, operandsOfItems_eq_ok_iff vs, Nat.not_lt,
        and_assoc, exists_and_left]
    | _ => exact iff_of_false (by rintro ⟨⟩) (by rintro ⟨⟩)

theorem operandsOfMembers_eq_ok_iff {d : Nat} (ms : List (String × Json)) {fs : List Filter} :
    operandsOfMembers d ms = .ok fs ↔ AreOperands d ms fs := by
  cases ms with
  | nil =>
    constructor
    · rintro ⟨⟩
      exact .nil
    · rintro ⟨⟩
      rfl
  | cons m ms =>
    obtain ⟨key, v⟩ := m
    simp only [operandsOfMembers, ite_error_eq_ok, bind_eq_ok, pure_eq_ok, areOperands_cons_iff,
      isBlock_singleton_iff, entryOfJson_eq_ok_iff v, operandsOfMembers_eq_ok_iff ms, Nat.not_lt,
      and_assoc, exists_and_left]

end

end Filter

namespace Query

/-- A member of the whole document that may be absent, and then gives nothing. -/
def Optionally {α : Type} (R : Json → Option α → Prop) : Option Json → Option α → Prop
  | none, a => a = none
  | some v, a => R v a

/-- A document that is a query: its limit and its token apart, it is a block. -/
inductive IsQuery : Json → Query → Prop
  | intro {ms : List (String × Json)} {q : Query}
    (hl : Optionally IsLimit (ms.lookup "limit") q.limit)
    (ht : Optionally IsToken (ms.lookup "offset") q.token)
    (hf : Filter.IsBlock 0 (ms.filter fun m => m.1 != "limit" && m.1 != "offset") q.filter) :
    IsQuery (.object ms) q

def optional {α : Type} (f : Json → Except FilterError (Option α)) :
    Option Json → Except Error (Option α)
  | none => .ok none
  | some v => (f v).mapError .filter

theorem optional_eq_ok_iff {α : Type} {f : Json → Except FilterError (Option α)}
    {R : Json → Option α → Prop} (h : ∀ v a, f v = .ok a ↔ R v a) {v? : Option Json}
    {a : Option α} : optional f v? = .ok a ↔ Optionally R v? a := by
  cases v? with
  | none => simp [optional, Optionally, eq_comm]
  | some v => exact mapError_eq_ok.trans (h v a)

theorem ofJson_object (ms : List (String × Json)) : ofJson (.object ms) = do
    let limit ← optional limitOfJson (ms.lookup "limit")
    let token ← optional tokenOfJson (ms.lookup "offset")
    let filter ← Filter.entriesOfMembers 0 (ms.filter fun m => m.1 != "limit" && m.1 != "offset")
    return ⟨filter, limit, token⟩ := by
  rw [ofJson]
  cases ms.lookup "limit" <;> cases ms.lookup "offset" <;> rfl

theorem isQuery_of_ofJson {v : Json} {q : Query} (h : ofJson v = .ok q) : IsQuery v q := by
  cases v with
  | object ms =>
    simp only [ofJson_object, bind_eq_ok, pure_eq_ok] at h
    obtain ⟨limit, hl, token, ht, filter, hf, rfl⟩ := h
    have hb := Filter.entriesOfMembers_eq_ok_iff _ |>.1 hf
    exact ⟨(optional_eq_ok_iff fun _ _ => limitOfJson_eq_ok_iff).1 hl,
      (optional_eq_ok_iff fun _ _ => tokenOfJson_eq_ok_iff).1 ht, ⟨Nat.zero_le _, hb⟩⟩
  | _ => cases h

theorem ofJson_of_isQuery {v : Json} {q : Query} (h : IsQuery v q) : ofJson v = .ok q := by
  obtain ⟨hl, ht, ⟨-, hb⟩⟩ := h
  rw [ofJson_object, (optional_eq_ok_iff fun _ _ => limitOfJson_eq_ok_iff).2 hl]
  rw [(optional_eq_ok_iff fun _ _ => tokenOfJson_eq_ok_iff).2 ht,
    (Filter.entriesOfMembers_eq_ok_iff _).2 hb]
  rfl

/-- The reader accepts exactly the documents of the grammar, and gives what the grammar assigns. -/
theorem ofJson_eq_ok_iff_isQuery {v : Json} {q : Query} : ofJson v = .ok q ↔ IsQuery v q :=
  ⟨isQuery_of_ofJson, ofJson_of_isQuery⟩

end Query
end ItemStore
