import ItemStore.Base64

/-!
Base64 has one text for each sequence of bytes: a text that is read as bytes is the one that they
are written as.
-/
namespace ItemStore.Base64

theorem toNat_between {a b c : Char} (h : a ≤ c ∧ c ≤ b) :
    a.toNat ≤ c.toNat ∧ c.toNat ≤ b.toNat :=
  ⟨UInt32.le_iff_toNat_le.1 h.1, UInt32.le_iff_toNat_le.1 h.2⟩

theorem charOfNat_eq {c : Char} {n : Nat} (h : n = c.toNat) : Char.ofNat n = c := by
  rw [h, Char.ofNat_toNat]

theorem char_of_value? {c : Char} {n : Nat} (h : value? c = some n) : n < 64 ∧ char n = c := by
  unfold value? at h
  split at h
  · rename_i hr
    obtain ⟨hl, hu⟩ : 65 ≤ c.toNat ∧ c.toNat ≤ 90 := toNat_between hr
    cases h
    rw [char, if_pos (by omega)]
    exact ⟨by omega, charOfNat_eq (by omega)⟩
  split at h
  · rename_i hr
    obtain ⟨hl, hu⟩ : 97 ≤ c.toNat ∧ c.toNat ≤ 122 := toNat_between hr
    cases h
    rw [char, if_neg (by omega), if_pos (by omega)]
    exact ⟨by omega, charOfNat_eq (by omega)⟩
  split at h
  · rename_i hr
    obtain ⟨hl, hu⟩ : 48 ≤ c.toNat ∧ c.toNat ≤ 57 := toNat_between hr
    cases h
    rw [char, if_neg (by omega), if_neg (by omega), if_pos (by omega)]
    exact ⟨by omega, charOfNat_eq (by omega)⟩
  split at h
  · cases h
    subst c
    decide
  split at h
  · cases h
    subst c
    decide
  · cases h

theorem eq_encode_of_decode? {cs : List Char} {bytes : List UInt8} (h : decode? cs = some bytes) :
    cs = encode bytes := by
  have byte : ∀ {n : Nat}, n < 256 → (UInt8.ofNat n).toNat = n := UInt8.toNat_ofNat_of_lt
  fun_induction decode? cs generalizing bytes with
  | case1 =>
    cases h
    rfl
  | case2 p q =>
    simp only [Option.bind_eq_bind, Option.bind_eq_some_iff] at h
    obtain ⟨x, hx, y, hy, h⟩ := h
    obtain ⟨hx, rfl⟩ := char_of_value? hx
    obtain ⟨hy, rfl⟩ := char_of_value? hy
    split at h
    · cases h
      rw [encode, byte (by omega), show (x * 4 + y / 16) / 4 = x by omega,
        show (x * 4 + y / 16) % 4 * 16 = y by omega]
    · cases h
  | case3 p q r =>
    simp only [Option.bind_eq_bind, Option.bind_eq_some_iff] at h
    obtain ⟨x, hx, y, hy, z, hz, h⟩ := h
    obtain ⟨hx, rfl⟩ := char_of_value? hx
    obtain ⟨hy, rfl⟩ := char_of_value? hy
    obtain ⟨hz, rfl⟩ := char_of_value? hz
    split at h
    · cases h
      rw [encode, byte (by omega), byte (by omega), show (x * 4 + y / 16) / 4 = x by omega,
        show (x * 4 + y / 16) % 4 * 16 + (y % 16 * 16 + z / 4) / 16 = y by omega,
        show (y % 16 * 16 + z / 4) % 16 * 4 = z by omega]
    · cases h
  | case4 p q r s rest _ _ ih =>
    simp only [Option.bind_eq_bind, Option.bind_eq_some_iff] at h
    obtain ⟨x, hx, y, hy, z, hz, w, hw, bytes', hr, h⟩ := h
    obtain ⟨hx, rfl⟩ := char_of_value? hx
    obtain ⟨hy, rfl⟩ := char_of_value? hy
    obtain ⟨hz, rfl⟩ := char_of_value? hz
    obtain ⟨hw, rfl⟩ := char_of_value? hw
    cases h
    rw [encode, ih hr, byte (by omega), byte (by omega), byte (by omega),
      show (x * 4 + y / 16) / 4 = x by omega,
      show (x * 4 + y / 16) % 4 * 16 + (y % 16 * 16 + z / 4) / 16 = y by omega,
      show (y % 16 * 16 + z / 4) % 16 * 4 + (z % 4 * 64 + w) / 64 = z by omega,
      show (z % 4 * 64 + w) % 64 = w by omega]
  | case5 => cases h

theorem ofText?_eq_some_iff {s : String} {bytes : List UInt8} :
    ofText? s = some bytes ↔ s = text bytes := by
  constructor
  · intro h
    rw [text, ← eq_encode_of_decode? h, String.ofList_toList]
  · rintro rfl
    exact ofText?_text bytes

end ItemStore.Base64
