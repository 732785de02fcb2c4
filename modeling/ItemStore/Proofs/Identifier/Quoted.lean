import ItemStore.Identifier

/-!
The reader of quoted names, which goes up to the first quote that is not doubled. The texts that it
accepts are the quoted names in front of anything that does not begin with a quote, so a name comes
back as it was written and tells by itself where it ends.
-/
namespace ItemStore.Identifier

/-- A name behind its opening quote, up to the first quote that is not doubled, and the text after
that quote. -/
def scanName? : List Char → Option (List Char × List Char)
  | [] => none
  | [c] => if c = '"' then some ([], []) else none
  | c :: d :: cs =>
    if c = '"' then
      if d = '"' then (scanName? cs).map fun (name, rest) => ('"' :: name, rest)
      else some ([], d :: cs)
    else (scanName? (d :: cs)).map fun (name, rest) => (c :: name, rest)

def scanQuoted? : List Char → Option (List Char × List Char)
  | [] => none
  | c :: cs => if c = '"' then scanName? cs else none

def scanQuotedText? (s : String) : Option (String × String) :=
  (scanQuoted? s.toList).map fun (name, rest) => (String.ofList name, String.ofList rest)

variable {cs name rest : List Char}

theorem doubled_quote (name : List Char) : doubled ('"' :: name) = '"' :: '"' :: doubled name := rfl

theorem doubled_of_ne {c : Char} (h : c ≠ '"') (name : List Char) :
    doubled (c :: name) = c :: doubled name := if_neg h

/-- The quotes that a name ends in are doubled, and the closing quote stays single behind them. -/
theorem scanName?_doubled (name : List Char) (h : rest.head? ≠ some '"') :
    scanName? (doubled name ++ '"' :: rest) = some (name, rest) := by
  induction name with
  | nil =>
    cases rest with
    | nil => rfl
    | cons d rest =>
      have hd : d ≠ '"' := fun he => h (he ▸ rfl)
      simp [doubled, scanName?, hd]
  | cons c name ih =>
    by_cases hc : c = '"'
    · subst hc
      simp [doubled_quote, scanName?, ih]
    · obtain ⟨d, ds, hd⟩ : ∃ d ds, doubled name ++ '"' :: rest = d :: ds :=
        List.exists_cons_of_ne_nil (by simp)
      rw [doubled_of_ne hc, List.cons_append, hd, scanName?, if_neg hc, ← hd, ih]
      rfl

theorem eq_doubled_of_scanName? (h : scanName? cs = some (name, rest)) :
    cs = doubled name ++ '"' :: rest ∧ rest.head? ≠ some '"' := by
  fun_induction scanName? cs generalizing name with
  | case1 => cases h
  | case2 =>
    cases h
    exact ⟨rfl, by simp⟩
  | case3 => cases h
  | case4 cs ih =>
    obtain ⟨⟨name, rest⟩, hs, ⟨⟩⟩ := Option.map_eq_some_iff.1 h
    obtain ⟨rfl, hr⟩ := ih hs
    exact ⟨rfl, hr⟩
  | case5 d cs hd =>
    cases h
    refine ⟨rfl, ?_⟩
    rintro ⟨⟩
    exact hd rfl
  | case6 c d cs hc ih =>
    obtain ⟨⟨name, rest⟩, hs, ⟨⟩⟩ := Option.map_eq_some_iff.1 h
    obtain ⟨he, hr⟩ := ih hs
    exact ⟨by rw [doubled_of_ne hc, List.cons_append, he], hr⟩

theorem scanName?_eq_some_iff :
    scanName? cs = some (name, rest) ↔
      cs = doubled name ++ '"' :: rest ∧ rest.head? ≠ some '"' := by
  constructor
  · exact eq_doubled_of_scanName?
  · rintro ⟨rfl, hr⟩
    exact scanName?_doubled name hr

theorem scanQuoted?_eq_some_iff :
    scanQuoted? cs = some (name, rest) ↔ cs = quoted name ++ rest ∧ rest.head? ≠ some '"' := by
  cases cs with
  | nil => simp [scanQuoted?, quoted]
  | cons c cs =>
    by_cases hc : c = '"'
    · simp [scanQuoted?, quoted, hc, scanName?_eq_some_iff]
    · simp [scanQuoted?, quoted, hc]

theorem scanQuotedText?_eq_some_iff {s name rest : String} :
    scanQuotedText? s = some (name, rest) ↔
      s = quotedText name ++ rest ∧ rest.front? ≠ some '"' := by
  have hs : scanQuotedText? s = some (name, rest) ↔
      scanQuoted? s.toList = some (name.toList, rest.toList) := by
    rw [scanQuotedText?, Option.map_eq_some_iff]
    constructor
    · rintro ⟨p, hp, ⟨⟩⟩
      simpa using hp
    · intro h
      exact ⟨_, h, by simp⟩
  rw [hs, scanQuoted?_eq_some_iff, String.front?_eq, quotedText, ← String.toList_inj]
  simp

/-- In front of another quote a name goes on. -/
example : scanQuotedText? (quotedText "a" ++ quotedText "b") = some ("a\"b", "") := rfl

end ItemStore.Identifier
