import ItemStore.Key
import ItemStore.Statement
import ItemStore.Proofs.Codec.Document

/-!
The tag that an attribute is written under and the tag of a parameter that it is compared with. The
table's declaration decides the first and the value alone the second, so an equality finds what was
written with its value exactly if the declaration says what the value looks like.
-/
namespace ItemStore

def ScalarType.tag : ScalarType → Tag
  | .text => .text
  | .number => .number
  | .binary => .binary

theorem Value.encode_text (s : String) :
    (Value.text s).encode = .ok (if isNumericLiteral s then .number s else .text s) := by
  rw [Value.encode, Value.encodeAt, if_neg (by decide)]

theorem Value.encode_number (n : Number) :
    (Value.number n).encode = n.literal >>= fun literal => .ok (.number literal) := by
  rw [Value.encode, Value.encodeAt, if_neg (by decide)]
  rfl

/-- What is put under a declared tag is what inference gives exactly if that is the tag inferred. -/
theorem Value.declareAs_eq_encode_iff {v : Value} {type : ScalarType} {name : String}
    {w p : Tagged} (hw : v.declareAs type name = .ok w) (hp : v.encode = .ok p) :
    w = p ↔ v.scalarTag? = some type.tag := by
  cases v with
  | number n =>
    rw [Value.encode_number] at hp
    obtain ⟨literal, hl, hp⟩ := bind_eq_ok.1 hp
    cases hp
    cases type <;> simp [Value.declareAs, hl] at hw <;>
      simp [← hw, Value.scalarTag?, ScalarType.tag]
  | text s =>
    rw [Value.encode_text] at hp
    cases hp
    cases type with
    | text =>
      cases hw
      by_cases hs : isNumericLiteral s <;> simp [hs, Value.scalarTag?, ScalarType.tag]
    | number =>
      cases hw
      by_cases hs : isNumericLiteral s <;> simp [hs, Value.scalarTag?, ScalarType.tag]
    | binary =>
      simp only [Value.declareAs] at hw
      split at hw
      · cases hw
        by_cases hs : isNumericLiteral s <;> simp [hs, Value.scalarTag?, ScalarType.tag]
      · cases hw
  | binary bytes => cases hp
  | _ => cases type <;> cases hw

theorem Schema.lookup_of_buildKeyOfJson {schema : Schema} {members : List (String × Json)}
    {key : TaggedItem} (h : schema.buildKeyOfJson (.object members) = .ok key)
    (hn : (members.map Prod.fst).Nodup) {a : String} {v : Json} (hm : (a, v) ∈ members) :
    ∃ w, schema.encodeAttribute a (Value.ofJson v) = .ok w ∧ key.lookup a = some w := by
  simp only [Schema.buildKeyOfJson] at h
  split at h
  · cases h
  · rename_i item hv
    have hi := Value.eq_ofJson_of_ofJsonAt hv
    rw [Value.ofJson, Value.map.injEq] at hi
    subst hi
    have hl : (Entries.ofList (Value.ofMembers members)).lookup a = some (Value.ofJson v) := by
      rw [Value.ofMembers_eq_map]
      refine Entries.lookup_ofList ?_ (List.mem_map.2 ⟨_, hm, rfl⟩)
      simpa [List.map_map, Function.comp_def] using hn
    simp only [Schema.buildKey] at h
    split at h
    · cases h
    · split at h
      · exact Entries.lookup_mapM h hl
      · cases h
  · cases h

theorem Statement.ofJson_scalar (schema : Schema) {a : String} {v : Json} {p : Tagged}
    (hd : a.toList.head? ≠ some '$') (hl : a ≠ "limit") (ho : a ≠ "offset")
    (hs : v.isScalar = true) (ht : v.isTruthy = true) (hp : (Value.ofJson v).encode = .ok p) :
    ∃ s, Statement.ofJson schema (.object [(a, v)]) = .ok s ∧ s.parameters = [p] := by
  have hf : Filter.fieldOfJson a v = .ok [.field a (.equals (.ofJson v))] := by
    cases v <;> simp_all [Filter.fieldOfJson, Json.isScalar]
  have hq : Query.ofJson (.object [(a, v)]) =
      .ok ⟨[.field a (.equals (.ofJson v))], none, none⟩ := by
    have hll : [(a, v)].lookup "limit" = none := by simp [Ne.symm hl]
    have hlo : [(a, v)].lookup "offset" = none := by simp [Ne.symm ho]
    have hm : ([(a, v)].filter fun m => m.1 != "limit" && m.1 != "offset") = [(a, v)] := by
      simp [hl, ho]
    simp only [Query.ofJson, hll, hlo, hm, Filter.entriesOfMembers, Filter.entryOfJson, if_neg hd, hf]
    rfl
  have he : Filter.parameters [.field a (.equals (.ofJson v))] = .ok [p] := by
    simp only [Filter.parameters, entryParameters, FilterEntry.parametersAt, encodeValues,
      Condition.values, List.mapM_cons, List.mapM_nil, hp]
    rfl
  have hc : Statement.ofJson schema (.object [(a, v)]) = .ok
      ⟨Statement.textOf schema [.comparison a .eq], [p], none, none, true⟩ := by
    simp only [Statement.ofJson, hq, Statement.ofQuery, he, bind, Except.bind]
    rfl
  exact ⟨_, hc, rfl⟩

def textKeyed : Schema := ⟨"orders", [⟨"id", .partition⟩], [⟨"id", .text⟩]⟩

/-- An equality does not find every item that was written with its value: under a declared text
`"42"` is stored as a text and looked for as a number. -/
theorem exists_parameter_ne_stored :
    ¬ ∀ (schema : Schema) (a : String) (v : Json) (members : List (String × Json))
      (key : TaggedItem) (s : Statement), a.toList.head? ≠ some '$' → a ≠ "limit" → a ≠ "offset" →
      v.isScalar = true → v.isTruthy = true → (members.map Prod.fst).Nodup → (a, v) ∈ members →
      schema.buildKeyOfJson (.object members) = .ok key →
      Statement.ofJson schema (.object [(a, v)]) = .ok s →
      ∃ w, s.parameters = [w] ∧ key.lookup a = some w := by
  intro h
  have hk : textKeyed.buildKeyOfJson (.object [("id", .string "42")]) =
      .ok [("id", .text "42")] := by
    rfl
  have hp : (Value.ofJson (.string "42")).encode = .ok (.number "42") := by rfl
  obtain ⟨s, hs, hsp⟩ := Statement.ofJson_scalar textKeyed (a := "id")
    (by decide) (by decide) (by decide) rfl rfl hp
  obtain ⟨w, hw, hl⟩ := h textKeyed "id" (.string "42") [("id", .string "42")] _ s
    (by decide) (by decide) (by decide) rfl rfl (by decide) (List.mem_singleton.2 rfl) hk hs
  rw [hsp] at hw
  cases hw
  cases hl

/-- An equality finds what was written with its value exactly if the table declares no type for
the attribute or the one that the value is inferred to have. -/
theorem parameter_eq_stored_iff {schema : Schema} {a : String} {v : Json}
    {members : List (String × Json)} {key : TaggedItem} (hd : a.toList.head? ≠ some '$')
    (hl : a ≠ "limit") (ho : a ≠ "offset") (hs : v.isScalar = true) (ht : v.isTruthy = true)
    (hn : (members.map Prod.fst).Nodup) (hm : (a, v) ∈ members)
    (hk : schema.buildKeyOfJson (.object members) = .ok key) :
    ∃ s p w, Statement.ofJson schema (.object [(a, v)]) = .ok s ∧ s.parameters = [p] ∧
      key.lookup a = some w ∧
      (w = p ↔ ∀ type, schema.typeOf? a = some type →
        (Value.ofJson v).scalarTag? = some type.tag) := by
  obtain ⟨p, hp⟩ := Value.exists_encode_ofJson_of_isScalar hs
  obtain ⟨s, hc, hsp⟩ := Statement.ofJson_scalar schema hd hl ho hs ht hp
  obtain ⟨w, hw, hlw⟩ := Schema.lookup_of_buildKeyOfJson hk hn hm
  refine ⟨s, p, w, hc, hsp, hlw, ?_⟩
  simp only [Schema.encodeAttribute] at hw
  cases htype : schema.typeOf? a with
  | none =>
    rw [htype, hp] at hw
    cases hw
    simp
  | some type =>
    rw [htype] at hw
    simpa using Value.declareAs_eq_encode_iff hw hp

/-- A text that looks like no number is found under a key that is declared a text. -/
theorem parameter_eq_stored_of_plain_text :
    textKeyed.buildKeyOfJson (.object [("id", .string "ann")]) = .ok [("id", .text "ann")] ∧
      ∃ s p, Statement.ofJson textKeyed (.object [("id", .string "ann")]) = .ok s ∧
        s.parameters = [p] ∧ p = .text "ann" := by
  have hk : textKeyed.buildKeyOfJson (.object [("id", .string "ann")]) =
      .ok [("id", .text "ann")] := by
    rfl
  obtain ⟨s, p, w, hs, hsp, hl, hw⟩ := parameter_eq_stored_iff (a := "id")
    (v := .string "ann") (by decide) (by decide) (by decide) rfl rfl (by decide)
    (List.mem_singleton.2 rfl) hk
  cases hl
  refine ⟨hk, s, p, hs, hsp, (hw.2 fun type htype => ?_).symm⟩
  cases htype
  rfl

end ItemStore
