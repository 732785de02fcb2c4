import ItemStore.Proofs.Statement.Name

/-!
Paths of names. A dotted name is its own path, and every other name is quoted. A dotted name has no
quote in it, so a path tells which of the two it is, and the name can be read from it.
-/
namespace ItemStore.Identifier

/-- An ASCII letter or underscore, and then ASCII letters, digits and underscores. -/
def IsSegment (s : List Char) : Prop :=
  ∃ c cs, s = c :: cs ∧ (c.isAlpha = true ∨ c = '_') ∧ ∀ d ∈ cs, d.isAlphanum = true ∨ d = '_'

/-- One segment or more, with dots between them. -/
def IsDotted (name : String) : Prop :=
  ∃ ss : List String, ss ≠ [] ∧ (∀ s ∈ ss, IsSegment s.toList) ∧ name = ".".intercalate ss

theorem isPlain_iff {s : List Char} : isPlain s = true ↔ IsSegment s := by
  cases s with
  | nil => simp [isPlain, IsSegment]
  | cons c cs =>
    simp only [isPlain, Bool.and_eq_true, Bool.or_eq_true, beq_iff_eq, List.all_eq_true]
    constructor
    · rintro ⟨hc, hcs⟩
      exact ⟨c, cs, rfl, hc, hcs⟩
    · rintro ⟨_, _, ⟨⟩, hc, hcs⟩
      exact ⟨hc, hcs⟩

theorem not_mem_of_isSegment {s : List Char} (h : IsSegment s) : '.' ∉ s := by
  obtain ⟨c, cs, rfl, hc, hcs⟩ := h
  intro hm
  rcases List.mem_cons.1 hm with rfl | hm
  · revert hc
    decide
  · have hd := hcs _ hm
    revert hd
    decide

theorem segments_eq_splitOn (name : List Char) : segments name = name.splitOn '.' := by
  induction name with
  | nil => rfl
  | cons c name ih =>
    rw [List.splitOn_cons_eq_if_modifyHead, segments, ih]
    by_cases hc : c = '.'
    · simp [hc]
    · cases hn : name.splitOn '.' with
      | nil => exact absurd hn (List.splitOn_ne_nil '.' name)
      | cons s ss => simp [hc]

theorem all_isPlain_segments_iff (name : String) :
    (segments name.toList).all isPlain = true ↔ IsDotted name := by
  simp only [List.all_eq_true, isPlain_iff, segments_eq_splitOn]
  constructor
  · intro h
    refine ⟨(name.toList.splitOn '.').map String.ofList, ?_, ?_, ?_⟩
    · simp [List.splitOn_ne_nil]
    · simpa only [List.forall_mem_map, String.toList_ofList] using h
    · rw [← String.toList_inj, String.toList_intercalate]
      simp [Function.comp_def, List.intercalate_splitOn]
  · rintro ⟨ss, hne, hs, rfl⟩
    -- no segment has a dot in it, so the name is split where the segments were joined
    have hp : (".".intercalate ss).toList.splitOn '.' = ss.map String.toList := by
      rw [String.toList_intercalate]
      refine List.splitOn_intercalate '.' ?_ (by simpa using hne)
      exact List.forall_mem_map.2 fun s hm => not_mem_of_isSegment (hs s hm)
    rw [hp]
    exact List.forall_mem_map.2 hs

theorem pathText_of_isDotted {name : String} (h : IsDotted name) : pathText name = name := by
  rw [pathText, path, if_pos ((all_isPlain_segments_iff name).2 h), String.ofList_toList]

theorem pathText_of_not_isDotted {name : String} (h : ¬ IsDotted name) :
    pathText name = quotedText name := by
  rw [pathText, path, if_neg (mt (all_isPlain_segments_iff name).1 h), quotedText]

/-- The name in the quotes that a path begins with, or the path itself. -/
def ofPathText (s : String) : String := ((scanQuotedText? s).map Prod.fst).getD s

theorem ofPathText_of_isDotted {name : String} (h : IsDotted name) : ofPathText name = name := by
  have hq : '"' ∉ name.toList :=
    Token.not_mem_of_isWordChar (isWordChar_of_segments ((all_isPlain_segments_iff name).2 h)) rfl
  have hs : scanQuotedText? name = none := by
    refine Option.eq_none_iff_forall_ne_some.2 fun p hp => ?_
    obtain ⟨he, -⟩ := scanQuotedText?_eq_some_iff.1 hp
    rw [he] at hq
    simp [quotedText, quoted] at hq
  rw [ofPathText, hs]
  rfl

theorem ofPathText_quotedText (name : String) : ofPathText (quotedText name) = name := by
  have hs : scanQuotedText? (quotedText name) = some (name, "") :=
    scanQuotedText?_eq_some_iff.2 ⟨by simp, by simp [String.front?_eq]⟩
  rw [ofPathText, hs]
  rfl

theorem ofPathText_pathText (name : String) : ofPathText (pathText name) = name := by
  by_cases h : IsDotted name
  · rw [pathText_of_isDotted h, ofPathText_of_isDotted h]
  · rw [pathText_of_not_isDotted h, ofPathText_quotedText]

theorem pathText_inj {name other : String} : pathText name = pathText other ↔ name = other :=
  ⟨fun h => by rw [← ofPathText_pathText name, h, ofPathText_pathText], fun h => h ▸ rfl⟩

/-- What is read as a quoted name is the quoted name in front of any text that does not begin with
another quote. A dotted name is its own path, the path of any other is the quoted name, and no other
name has the same path. -/
theorem quotedText_and_pathText_lossless (name : String) :
    (∀ text rest, scanQuotedText? text = some (name, rest) ↔
      text = quotedText name ++ rest ∧ rest.front? ≠ some '"') ∧
    (IsDotted name ∧ pathText name = name ∨
      ¬ IsDotted name ∧ pathText name = quotedText name) ∧
    ∀ other, pathText name = pathText other ↔ name = other := by
  refine ⟨fun text rest => scanQuotedText?_eq_some_iff, ?_, fun other => pathText_inj⟩
  by_cases h : IsDotted name
  · exact .inl ⟨h, pathText_of_isDotted h⟩
  · exact .inr ⟨h, pathText_of_not_isDotted h⟩

/-- The quote that a name ends in is doubled before the closing quote, and one quote less is another
name with another path. -/
theorem lossless_of_quote_at_end :
    scanQuotedText? "\"say \"\"hi\"\"\" = ?" = some ("say \"hi\"", " = ?") ∧
      pathText "say \"hi\"" = "\"say \"\"hi\"\"\"" ∧
      pathText "say \"hi\"" ≠ pathText "say \"hi" := by
  obtain ⟨hs, hp, hi⟩ := quotedText_and_pathText_lossless "say \"hi\""
  refine ⟨(hs _ _).2 ⟨rfl, by simp [String.front?_eq]⟩, ?_, mt (hi _).1 (by decide)⟩
  obtain ⟨hd, -⟩ | ⟨-, hp⟩ := hp
  · have hf : (segments "say \"hi\"".toList).all isPlain = false := rfl
    rw [(all_isPlain_segments_iff _).2 hd] at hf
    cases hf
  · exact hp

end ItemStore.Identifier
