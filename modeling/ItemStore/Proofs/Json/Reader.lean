import ItemStore.Json.Reader
import ItemStore.Proofs.Json.Node
import ItemStore.Proofs.Success

/-!
In a document that was read no object has two members with one key, since a later member replaces
the value of an earlier one. This holds of all that a state of the reader has finished.
-/
namespace ItemStore.Json

variable {key : String} {v : Json} {ms : List (String × Json)}

theorem mem_of_mem_setMember {m : String × Json} (h : m ∈ setMember key v ms) :
    m = (key, v) ∨ m ∈ ms := by
  induction ms with
  | nil => exact .inl (List.mem_singleton.1 h)
  | cons e ms ih =>
    obtain ⟨k, w⟩ := e
    simp only [setMember] at h
    split at h
    · rename_i hk
      subst hk
      exact (List.mem_cons.1 h).imp_right (List.mem_cons_of_mem _)
    · rcases List.mem_cons.1 h with rfl | h
      · exact .inr (List.mem_cons_self ..)
      · exact (ih h).imp_right (List.mem_cons_of_mem _)

theorem nodup_setMember (h : (ms.map Prod.fst).Nodup) :
    ((setMember key v ms).map Prod.fst).Nodup := by
  induction ms with
  | nil => simp [setMember]
  | cons e ms ih =>
    obtain ⟨k, w⟩ := e
    simp only [setMember]
    split
    · exact h
    · rename_i hk
      have ⟨hn, hs⟩ := List.nodup_cons.1 h
      refine List.nodup_cons.2 ⟨fun hm => ?_, ih hs⟩
      obtain ⟨m, hm, he⟩ := List.mem_map.1 hm
      rcases mem_of_mem_setMember hm with rfl | hm
      · exact hk he.symm
      · exact hn (he ▸ List.mem_map_of_mem hm)

theorem distinct_setMember (hm : (Json.object ms).Distinct) (hv : v.Distinct) :
    (Json.object (setMember key v ms)).Distinct := by
  rw [distinct_object] at hm ⊢
  refine ⟨nodup_setMember hm.1, fun m h => ?_⟩
  rcases mem_of_mem_setMember h with rfl | h
  · exact hv
  · exact hm.2 m h

def Frame.Distinct : Frame → Prop
  | .array items => (Json.array items).Distinct
  | .object members _ => (Json.object members).Distinct

namespace State

def frames : State → List Frame
  | .value fs => fs
  | .firstItem fs => fs
  | .firstKey fs => fs
  | .nextKey _ fs => fs
  | .colon _ _ fs => fs
  | .done _ fs => fs

/-- All that was read so far is without a key that occurs twice. -/
def Distinct (s : State) : Prop :=
  (∀ f ∈ s.frames, f.Distinct) ∧
    match s with
    | .nextKey members _ => (Json.object members).Distinct
    | .colon members _ _ => (Json.object members).Distinct
    | .done v _ => v.Distinct
    | _ => True

variable {limit : Nat} {fs : List Frame} {s s' : State} {t : Token}

theorem distinct_begin (hf : ∀ f ∈ fs, f.Distinct) (h : begin limit fs t = some s') :
    s'.Distinct := by
  cases t with
  | null => cases h; exact ⟨hf, distinct_null⟩
  | bool b => cases h; exact ⟨hf, distinct_bool b⟩
  | number n => cases h; exact ⟨hf, distinct_number n⟩
  | string s => cases h; exact ⟨hf, distinct_string s⟩
  | openArray =>
    obtain ⟨-, h⟩ := Option.ite_none_right_eq_some.1 h
    cases h
    exact ⟨hf, trivial⟩
  | openObject =>
    obtain ⟨-, h⟩ := Option.ite_none_right_eq_some.1 h
    cases h
    exact ⟨hf, trivial⟩
  | _ => cases h

theorem distinct_step (hs : s.Distinct) (h : step limit s t = some s') : s'.Distinct := by
  have hitems : (Frame.array []).Distinct := distinct_array.2 (List.forall_mem_nil _)
  have hmembers : (Json.object []).Distinct :=
    distinct_object.2 ⟨List.nodup_nil, List.forall_mem_nil _⟩
  have hcons : ∀ {v : Json} {vs : List Json}, v.Distinct → (Json.array vs).Distinct →
      (Json.array (v :: vs)).Distinct :=
    fun hv hvs => distinct_array.2 (List.forall_mem_cons.2 ⟨hv, distinct_array.1 hvs⟩)
  unfold step at h
  split at h
  case h_1 => exact distinct_begin hs.1 h
  case h_2 => cases h; exact ⟨hs.1, hitems⟩
  case h_3 => exact distinct_begin (List.forall_mem_cons.2 ⟨hitems, hs.1⟩) h
  case h_4 => cases h; exact ⟨hs.1, hmembers⟩
  case h_5 => cases h; exact ⟨hs.1, hmembers⟩
  case h_6 => cases h; exact hs
  case h_7 => cases h; exact ⟨List.forall_mem_cons.2 ⟨hs.2, hs.1⟩, trivial⟩
  case h_8 v vs fs =>
    cases h
    obtain ⟨hf, hv⟩ := hs
    obtain ⟨hvs, hf⟩ := List.forall_mem_cons.1 hf
    exact ⟨List.forall_mem_cons.2 ⟨hcons hv hvs, hf⟩, trivial⟩
  case h_9 v vs fs =>
    cases h
    obtain ⟨hf, hv⟩ := hs
    obtain ⟨hvs, hf⟩ := List.forall_mem_cons.1 hf
    exact ⟨hf, distinct_array.2 fun w hw =>
      distinct_array.1 (hcons hv hvs) w (List.mem_reverse.1 hw)⟩
  case h_10 v ms key fs =>
    cases h
    obtain ⟨hf, hv⟩ := hs
    obtain ⟨hms, hf⟩ := List.forall_mem_cons.1 hf
    exact ⟨hf, distinct_setMember hms hv⟩
  case h_11 v ms key fs =>
    cases h
    obtain ⟨hf, hv⟩ := hs
    obtain ⟨hms, hf⟩ := List.forall_mem_cons.1 hf
    exact ⟨hf, distinct_setMember hms hv⟩
  case h_12 => cases h

theorem distinct_run {ts : List Token} (hs : s.Distinct) (h : ts.foldlM (step limit) s = some s') :
    s'.Distinct := by
  induction ts generalizing s with
  | nil => cases h; exact hs
  | cons t ts ih =>
    obtain ⟨r, hr, h⟩ := Option.bind_eq_some_iff.1 h
    exact ih (distinct_step hs hr) h

end State

/-- No object of a document that was read has two members with one key. -/
theorem distinct_of_ofText? {limit : Nat} {cs : List Char} (h : ofText? limit cs = some v) :
    v.Distinct := by
  obtain ⟨ts, -, h⟩ := Option.bind_eq_some_iff.1 h
  obtain ⟨s, hs, h⟩ := Option.bind_eq_some_iff.1 h
  have hd := State.distinct_run ⟨List.forall_mem_nil _, trivial⟩ hs
  split at h
  · cases h
    exact hd.2
  · cases h

def Document.ofText? (limit : Nat) (cs : List Char) : Option Document :=
  (Json.ofText? limit cs).attach.map fun v => ⟨v.1, distinct_of_ofText? v.2⟩

theorem Document.map_json_ofText? (limit : Nat) (cs : List Char) :
    (ofText? limit cs).map json = Json.ofText? limit cs := by
  rw [ofText?, Option.map_map]
  exact Option.attach_map_subtype_val _

end ItemStore.Json
