import ItemStore.Proofs.Codec.Canonical
import ItemStore.Proofs.Codec.Failure
import ItemStore.Proofs.Tagged.Nesting

/-!
What decoding takes. A tagged value is decoded exactly if its numbers can be read and it fits the
levels that are left, and where it is not, the error says which of the two is in the way.
-/
namespace ItemStore

open List

theorem Number.ofLiteral_eq_error {s : String} {e : CodecError} (h : ofLiteral s = .error e) :
    (∃ fault, e = .malformed fault) ∧ ofText? s = none := by
  unfold ofLiteral at h
  split at h
  · cases h
  · exact ⟨⟨_, (Except.error.inj h).symm⟩, ‹_›⟩

namespace Tagged

def ReadableNode : Tagged → Prop
  | .number literal => ∃ n, Number.ofText? literal = some n
  | .numbers literals => ∀ l ∈ literals, ∃ n, Number.ofText? l = some n
  | _ => True

/-- A number is read from every text that is under a number tag, alone and in sets. -/
def Readable (w : Tagged) : Prop := w.Everywhere ReadableNode

theorem exists_decodesTo_iff {w : Tagged} {depth : Nat} :
    (∃ v, w.DecodesTo depth v) ↔
      w.ReadableNode ∧ ∀ x ∈ w.members, ∃ v, x.decodeAt (depth + 1) = .ok v := by
  cases w with
  | list items => simpa [DecodesTo, ReadableNode, members] using exists_forall₂_iff
  | map entries =>
    have hm : (∃ es, Entries.Match (fun w v => decodeAt (depth + 1) w = .ok v) entries es) ↔
        ∀ e ∈ entries, ∃ v, e.2.decodeAt (depth + 1) = .ok v := Entries.exists_match_iff
    rw [members, forall_mem_map, ← hm]
    simp [DecodesTo, ReadableNode]
  | number literal => simp [DecodesTo, ReadableNode, members, Number.ofLiteral_eq_ok_iff]
  | numbers literals =>
    have hl : (∃ ns, literals.mapM Number.ofLiteral = .ok ns) ↔
        ∀ l ∈ literals, ∃ n, Number.ofText? l = some n := by
      simp only [mapM_eq_ok_iff, exists_forall₂_iff, Number.ofLiteral_eq_ok_iff]
    simpa [DecodesTo, ReadableNode, members] using hl
  | _ => simp [DecodesTo, ReadableNode, members]

/-- Decoding takes what has readable numbers and fits the levels that are left. -/
theorem exists_decodeAt_iff {w : Tagged} {depth : Nat} :
    (∃ v, w.decodeAt depth = .ok v) ↔ w.Readable ∧ depth + w.nesting ≤ CodecError.maxDepth := by
  induction w using members_induction generalizing depth with
  | _ w ih =>
    have hstep : (∃ v, w.decodeAt depth = .ok v) ↔
        ¬CodecError.maxDepth < depth ∧ ∃ v, w.DecodesTo depth v := by
      rw [← exists_and_left]
      exact exists_congr fun _ => decodeAt_eq_ok_iff
    rw [hstep, exists_decodesTo_iff, forall₂_congr fun x hx => ih x hx, Nat.not_lt, Readable,
      everywhere_iff_members, add_nesting_le_iff]
    simp only [Readable, forall_and]
    tauto

theorem decodeAt_eq_error_step {w : Tagged} {depth : Nat} {e : CodecError}
    (h : w.decodeAt depth = .error e) :
    CodecError.maxDepth < depth ∧ e = .tooDeep ∨
      (∃ fault, e = .malformed fault) ∧ ¬w.ReadableNode ∨
      ∃ x ∈ w.members, x.decodeAt (depth + 1) = .error e := by
  rw [decodeAt.eq_def] at h
  by_cases hd : CodecError.maxDepth < depth
  · rw [if_pos hd] at h
    exact .inl ⟨hd, (Except.error.inj h).symm⟩
  rw [if_neg hd] at h
  refine .inr ?_
  cases w with
  | list items =>
    rw [bind_pure_eq_error, decodeItems_eq_mapM, mapM_eq_error_iff] at h
    exact .inr h.exists_mem
  | map entries =>
    rw [bind_pure_eq_error, decodeEntries_eq_mapM, mapM_eq_error_iff] at h
    obtain ⟨f, hf, h⟩ := h.exists_mem
    exact .inr ⟨f.2, mem_map_of_mem hf, bind_pure_eq_error.1 h⟩
  | number literal =>
    obtain ⟨hm, hn⟩ := Number.ofLiteral_eq_error (bind_pure_eq_error.1 h)
    exact .inl ⟨hm, by simp [ReadableNode, hn]⟩
  | numbers literals =>
    obtain ⟨l, hl, he⟩ := (mapM_eq_error_iff.1 (bind_pure_eq_error.1 h)).exists_mem
    obtain ⟨hm, hn⟩ := Number.ofLiteral_eq_error he
    exact .inl ⟨hm, fun hr => by simpa [hn] using hr l hl⟩
  | _ => cases h

theorem decodeAt_eq_error {w : Tagged} {depth : Nat} {e : CodecError}
    (h : w.decodeAt depth = .error e) :
    e = .tooDeep ∧ ¬depth + w.nesting ≤ CodecError.maxDepth ∨
      (∃ fault, e = .malformed fault) ∧ ¬w.Readable := by
  induction w using members_induction generalizing depth with
  | _ w ih =>
    rw [add_nesting_le_iff, Readable, everywhere_iff_members]
    rcases decodeAt_eq_error_step h with ⟨hl, he⟩ | ⟨hm, hn⟩ | ⟨x, hx, he⟩
    · exact .inl ⟨he, fun hd => Nat.not_lt.2 hd.1 hl⟩
    · exact .inr ⟨hm, fun hr => hn hr.1⟩
    · refine (ih x hx he).imp (And.imp_right fun hd hf => ?_) (And.imp_right fun hr hf => ?_)
      · exact hd (hf.2 x hx)
      · exact hr (hf.2 x hx)

theorem decodeAt_ne_tooDeep {w : Tagged} {depth : Nat}
    (h : depth + w.nesting ≤ CodecError.maxDepth) : w.decodeAt depth ≠ .error .tooDeep := by
  intro he
  rcases decodeAt_eq_error he with ⟨-, hd⟩ | ⟨⟨_, hm⟩, -⟩
  · exact hd h
  · cases hm

/-- What fits the depth limit is decoded or has a number that cannot be read. -/
theorem decode_of_nesting_le {w : Tagged} (h : w.nesting ≤ CodecError.maxDepth) :
    (w.Readable → ∃ v, w.decode = .ok v) ∧
      (¬w.Readable → ∃ fault, w.decode = .error (.malformed fault)) := by
  have hn : 0 + w.nesting ≤ CodecError.maxDepth := by rwa [Nat.zero_add]
  refine ⟨fun hr => exists_decodeAt_iff.2 ⟨hr, hn⟩, fun hr => ?_⟩
  cases he : w.decode with
  | ok v => exact absurd (exists_decodeAt_iff.1 ⟨v, he⟩).1 hr
  | error e =>
    rcases decodeAt_eq_error he with ⟨-, hd⟩ | ⟨⟨fault, rfl⟩, -⟩
    · exact absurd hn hd
    · exact ⟨fault, rfl⟩

end Tagged
end ItemStore
