import ItemStore.Binary64.Reader
import ItemStore.Binary64.Text

/-! Decimal text of a finite double reads back as the same double. -/
namespace ItemStore.Binary64

attribute [local instance (high)] instPowNat

theorem one_mul_stepsPerUnit : one * stepsPerUnit = 10 ^ places := by
  unfold one stepsPerUnit
  rw [← Nat.mul_pow]

theorem ofUnits_of_roundUnits {negative : Bool} {n d : Nat} {x : Finite}
    (hn : x.negative = negative) (h : roundUnits n d = x.units) :
    ofUnits negative n d = .finite x := by
  obtain ⟨_, u, hu, hs⟩ := x
  subst hn
  subst h
  exact dif_pos hu

theorem ofDecimal_of_readsBack {x : Finite} {c j : Nat} {e : Int} (he : e = (j : Int) - places)
    (h : readsBack x.units c j = true) : ofDecimal x.negative c e = .finite x := by
  refine ofUnits_of_roundUnits rfl ?_
  rw [readsBack, beq_iff_eq] at h
  rw [← h]
  refine roundUnits_congr (Nat.pow_pos (by decide)) stepsPerUnit_pos ?_
  have hp : 10 ^ e.toNat * 10 ^ places = 10 ^ j * 10 ^ (-e).toNat := by
    rw [← Nat.pow_add, ← Nat.pow_add]
    congr 1
    omega
  calc c * 10 ^ e.toNat * one * stepsPerUnit
      = c * (10 ^ e.toNat * (one * stepsPerUnit)) := by ac_rfl
    _ = c * (10 ^ j * 10 ^ (-e).toNat) := by rw [one_mul_stepsPerUnit, hp]
    _ = 10 ^ j * c * 10 ^ (-e).toNat := by ac_rfl

theorem ofDecimal_shortest (tie : Tie) (x : Finite) :
    ofDecimal x.negative (shortest tie x.units).coefficient (shortest tie x.units).exponent =
      .finite x := by
  unfold shortest
  split
  · rename_i h
    refine ofUnits_of_roundUnits rfl ?_
    rw [h, Nat.zero_mul, Nat.zero_mul]
    have := roundUnits_mul_self (u := 0) (Nat.dvd_zero _) (d := 10 ^ (-0 : Int).toNat) (by simp)
    simpa using this
  · obtain ⟨j, hj, hr⟩ := readsBack_coarsest tie x.spacing_dvd _
    exact ofDecimal_of_readsBack hj hr

theorem takeWhile_isDigit {ds : List Char} (rest : List Char)
    (h : ∀ c ∈ ds, c.isDigit = true) (hr : rest.head?.all (!·.isDigit) = true) :
    (ds ++ rest).takeWhile Char.isDigit = ds ∧ (ds ++ rest).dropWhile Char.isDigit = rest := by
  rw [List.takeWhile_append_of_pos h, List.dropWhile_append_of_pos h]
  cases rest with
  | nil => simp
  | cons c rest => simp_all

theorem ofText?_point {whole fraction : List Char} (hw : ∀ c ∈ whole, c.isDigit = true)
    (hf : ∀ c ∈ fraction, c.isDigit = true) (hne : whole ≠ []) :
    Numeral.ofText? (whole ++ '.' :: fraction) = some ⟨whole, fraction, 0⟩ := by
  have h := takeWhile_isDigit ('.' :: fraction) hw rfl
  have hf' := takeWhile_isDigit [] hf rfl
  rw [List.append_nil] at hf'
  simp [Numeral.ofText?, h.1, h.2, hf'.1, hf'.2, hne]

theorem ofText?_digits {whole : List Char} (hw : ∀ c ∈ whole, c.isDigit = true) (hne : whole ≠ []) :
    Numeral.ofText? whole = some ⟨whole, [], 0⟩ := by
  have h := takeWhile_isDigit [] hw rfl
  rw [List.append_nil] at h
  simp [Numeral.ofText?, h.1, h.2, hne]

theorem isDigit_of_mem_zeros {c : Char} {k : Nat} (h : c ∈ List.replicate k '0') :
    c.isDigit = true := by
  rw [List.eq_of_mem_replicate h]; rfl

theorem Numeral.toBinary64_point (whole fraction : List Char) (negative : Bool) :
    toBinary64 ⟨whole, fraction, 0⟩ negative =
      ofDecimal negative (Digits.value (whole ++ fraction)) (-fraction.length) := by
  have hl : lastExponent ⟨whole, fraction, 0⟩ = -(fraction.length : Int) := by
    simp only [lastExponent, digits, List.length_append]
    omega
  rw [toBinary64, hl]
  rfl

theorem ofText?_positional (d : Decimal) (negative : Bool) :
    (Numeral.ofText? d.positional).map (·.toBinary64 negative) =
      some (ofDecimal negative d.coefficient d.exponent) := by
  obtain ⟨c, e⟩ := d
  have hd : ∀ a ∈ Digits.ofNat c, a.isDigit = true := fun _ => Digits.isDigit_of_mem_ofNat
  unfold Decimal.positional
  cases e with
  | ofNat x =>
    have hw : ∀ a ∈ Digits.ofNat c ++ List.replicate x '0', a.isDigit = true :=
      fun a ha => (List.mem_append.1 ha).elim (hd a) isDigit_of_mem_zeros
    rw [ofText?_digits hw (by simp [Digits.ofNat_ne_nil]), Option.map_some,
      Numeral.toBinary64_point, List.append_nil, Digits.value_append_zeros, Digits.value_ofNat]
    simp [ofDecimal]
  | negSucc x =>
    dsimp only
    split
    · rename_i hx
      rw [ofText?_point (fun a ha => hd a (List.mem_of_mem_take ha))
        (fun a ha => hd a (List.mem_of_mem_drop ha)) (by
          intro h
          have := congrArg List.length h
          simp only [List.length_take, List.length_nil] at this
          omega)]
      rw [Option.map_some, Numeral.toBinary64_point, List.take_append_drop, Digits.value_ofNat,
        List.length_drop]
      congr 2
      omega
    · rename_i hx
      have := @ofText?_point ['0']
        (List.replicate (x + 1 - (Digits.ofNat c).length) '0' ++ Digits.ofNat c)
        (by simp) (fun a ha => (List.mem_append.1 ha).elim isDigit_of_mem_zeros (hd a)) (by simp)
      rw [List.singleton_append] at this
      have hv : Digits.value (['0'] ++
          (List.replicate (x + 1 - (Digits.ofNat c).length) '0' ++ Digits.ofNat c)) = c := by
        rw [show ['0'] = List.replicate 1 '0' from rfl, Digits.value_zeros_append,
          Digits.value_zeros_append, Digits.value_ofNat]
      rw [this, Option.map_some, Numeral.toBinary64_point, hv, List.length_append,
        List.length_replicate]
      congr 2
      omega

theorem head_positional (d : Decimal) : ∃ c cs, d.positional = c :: cs ∧ c.isDigit = true := by
  obtain ⟨n, e⟩ := d
  obtain ⟨c, cs, hc⟩ := List.exists_cons_of_ne_nil (Digits.ofNat_ne_nil n)
  have hd : c.isDigit = true := Digits.isDigit_of_mem_ofNat (hc ▸ List.mem_cons_self ..)
  unfold Decimal.positional
  cases e with
  | ofNat x => exact ⟨c, cs ++ List.replicate x '0', by rw [hc]; rfl, hd⟩
  | negSucc x =>
    dsimp only
    split
    · rename_i hx
      rw [hc] at hx ⊢
      rw [List.take_cons (by omega), List.cons_append]
      exact ⟨c, _, rfl, hd⟩
    · exact ⟨'0', _, rfl, rfl⟩

theorem ofText?_of_isDigit {c : Char} {cs : List Char} (h : c.isDigit = true) :
    ofText? (c :: cs) = ofUnsignedText? false (c :: cs) := by
  unfold ofText?
  split <;> simp_all

theorem ofText?_signed {x : Finite} {c : Char} {cs : List Char} (hd : c.isDigit = true)
    (h : (Numeral.ofText? (c :: cs)).map (·.toBinary64 x.negative) = some (.finite x)) :
    ofText? (signed x.negative (c :: cs)) = some (.finite x) := by
  obtain ⟨t, ht, hx⟩ := Option.map_eq_some_iff.1 h
  have hr : ofUnsignedText? x.negative (c :: cs) = some (.finite x) := by
    rw [ofUnsignedText?, ht]
    exact congrArg some hx
  unfold signed
  cases hn : x.negative with
  | true => rw [hn] at hr; exact hr
  | false => rw [if_neg (by decide), ofText?_of_isDigit hd, ← hn, hr]

/-- The decimal text of a finite double reads back. -/
theorem ofText?_text (x : Finite) : ofText? (text (.finite x)) = some (.finite x) := by
  have h := ofText?_positional (shortest .upper x.units) x.negative
  rw [ofDecimal_shortest] at h
  obtain ⟨c, cs, hc, hd⟩ := head_positional (shortest .upper x.units)
  rw [hc] at h
  rw [text, hc]
  exact ofText?_signed hd h

end ItemStore.Binary64
