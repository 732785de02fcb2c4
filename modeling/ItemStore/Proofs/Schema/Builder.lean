import ItemStore.Proofs.Schema.Lookup
import ItemStore.Schema.Builder

/-!
Schemas that are put together by a sequence of calls. The last call for each key counts, wherever
it stands among the others, and no declaration of an attribute changes the type of a key. An
attribute has one type, so a sort key with the name of the partition key has the type of that.
-/
namespace ItemStore

open List

namespace SchemaBuilder

inductive Call where
  | key (role : Role) (name : String) (type : ScalarType)
  | declare (name : String) (type : ScalarType)
deriving DecidableEq

namespace Call

def run : Call → SchemaBuilder → SchemaBuilder
  | .key .partition name type, b => b.partitionKey name type
  | .key .sort name type, b => b.sortKey name type
  | .declare name type, b => b.declare name type

def key? (role : Role) : Call → Option (String × ScalarType)
  | .key other name type => if other = role then some (name, type) else none
  | .declare _ _ => none

end Call

def ofCalls (table : String) (calls : List Call) : SchemaBuilder :=
  calls.foldl (fun b c => c.run b) ⟨table, none, none, []⟩

/-- The name and type in the last of the calls for a key with that role. -/
def lastKey? (role : Role) (calls : List Call) : Option (String × ScalarType) :=
  (calls.filterMap (Call.key? role)).getLast?

def key? (role : Role) (b : SchemaBuilder) : Option (String × ScalarType) :=
  match role with
  | .partition => b.partition
  | .sort => b.sort

variable {calls : List Call} {role : Role}

theorem lastKey?_cons (role : Role) (c : Call) (calls : List Call) :
    lastKey? role (c :: calls) = (lastKey? role calls).or (c.key? role) := by
  rw [lastKey?, lastKey?, filterMap_cons]
  cases c.key? role with
  | none => exact (Option.or_none).symm
  | some k => rw [getLast?_cons, ← Option.or_some]

theorem lastKey?_eq_none_iff :
    lastKey? role calls = none ↔ ∀ name type, .key role name type ∉ calls := by
  rw [lastKey?, getLast?_eq_none_iff, filterMap_eq_nil_iff]
  constructor
  · intro h name type hm
    have hk := h _ hm
    rw [Call.key?, if_pos rfl] at hk
    cases hk
  · intro h c hc
    cases c with
    | key other name type =>
      refine if_neg ?_
      rintro rfl
      exact h name type hc
    | declare => rfl

/-! One call, and any number of them. -/

theorem table_run (c : Call) (b : SchemaBuilder) : (c.run b).table = b.table := by
  cases c with
  | key role => cases role <;> rfl
  | declare => rfl

theorem key?_run (role : Role) (c : Call) (b : SchemaBuilder) :
    (c.run b).key? role = (c.key? role).or (b.key? role) := by
  cases c with
  | key other => cases other <;> cases role <;> rfl
  | declare => cases role <;> rfl

theorem table_foldl_run (calls : List Call) (b : SchemaBuilder) :
    (calls.foldl (fun b c => c.run b) b).table = b.table := by
  induction calls generalizing b with
  | nil => rfl
  | cons c calls ih => rw [foldl_cons, ih, table_run]

theorem key?_foldl_run (role : Role) (calls : List Call) (b : SchemaBuilder) :
    (calls.foldl (fun b c => c.run b) b).key? role = (lastKey? role calls).or (b.key? role) := by
  induction calls generalizing b with
  | nil => rfl
  | cons c calls ih => rw [foldl_cons, ih, key?_run, lastKey?_cons, Option.or_assoc]

theorem table_ofCalls (table : String) (calls : List Call) :
    (ofCalls table calls).table = table := table_foldl_run calls _

/-- Of the calls for a key only the last counts. -/
theorem key?_ofCalls (role : Role) (table : String) (calls : List Call) :
    (ofCalls table calls).key? role = lastKey? role calls := by
  have h := key?_foldl_run role calls ⟨table, none, none, []⟩
  cases role <;> exact h.trans Option.or_none

end SchemaBuilder

theorem Schema.typeOf?_mk_cons (table : String) (keys : List KeyElement) (d : Declaration)
    (ds : List Declaration) (name : String) :
    typeOf? ⟨table, keys, d :: ds⟩ name =
      if name = d.name then some d.type else typeOf? ⟨table, keys, ds⟩ name := by
  rw [typeOf?, typeOf?, find?_cons]
  by_cases h : name = d.name
  · rw [if_pos h, h, beq_self_eq_true]
    rfl
  · rw [if_neg h, beq_eq_false_iff_ne.2 (Ne.symm h)]

namespace SchemaBuilder

variable {b : SchemaBuilder} {p s : String} {t u : ScalarType}

/-! What is built. -/

theorem build_of_no_partition (h : b.key? .partition = none) :
    b.build = .error (.partitionKeyRequired b.table) := by
  have hp : b.partition = none := h
  rw [build, hp]

theorem build_of_partition (h : b.key? .partition = some (p, t)) (hs : b.key? .sort = none) :
    b.build = .ok ⟨b.table, [⟨p, .partition⟩], ⟨p, t⟩ :: b.others⟩ := by
  have hp : b.partition = some (p, t) := h
  have hs : b.sort = none := hs
  rw [build, hp, hs]

theorem build_of_both (h : b.key? .partition = some (p, t)) (hs : b.key? .sort = some (s, u)) :
    b.build = .ok ⟨b.table, [⟨p, .partition⟩, ⟨s, .sort⟩], ⟨p, t⟩ :: ⟨s, u⟩ :: b.others⟩ := by
  have hp : b.partition = some (p, t) := h
  have hs : b.sort = some (s, u) := hs
  rw [build, hp, hs]

theorem exists_build_of_partition (h : b.key? .partition = some (p, t)) :
    ∃ schema, b.build = .ok schema ∧ schema.table = b.table ∧ schema.typeOf? p = some t ∧
      (b.key? .sort = none → schema.keys = [⟨p, .partition⟩]) ∧
      ∀ s u, b.key? .sort = some (s, u) → schema.keys = [⟨p, .partition⟩, ⟨s, .sort⟩] ∧
        schema.typeOf? s = some (if s = p then t else u) := by
  have htype := fun keys ds => Schema.typeOf?_mk_cons b.table keys ⟨p, t⟩ ds
  cases hs : b.key? .sort with
  | none =>
    refine ⟨_, build_of_partition h hs, rfl, (htype _ _ p).trans (if_pos rfl), fun _ => rfl, ?_⟩
    rintro _ _ ⟨⟩
  | some k =>
    obtain ⟨s, u⟩ := k
    refine ⟨_, build_of_both h hs, rfl, (htype _ _ p).trans (if_pos rfl), by rintro ⟨⟩, ?_⟩
    rintro _ _ ⟨⟩
    refine ⟨rfl, ?_⟩
    rw [htype, Schema.typeOf?_mk_cons, if_pos rfl]
    exact (apply_ite some _ _ _).symm

/-- A schema is refused only if no call is for the partition key. Otherwise it has the last
partition key with its type, and behind it the last sort key if there is any. That has its type as
well, unless it has the name of the partition key. -/
theorem build_ofCalls (table : String) (calls : List Call) :
    (∀ e, (ofCalls table calls).build = .error e ↔
        (∀ name type, .key .partition name type ∉ calls) ∧ .partitionKeyRequired table = e) ∧
      ∀ schema, (ofCalls table calls).build = .ok schema →
        ∃ p t, lastKey? .partition calls = some (p, t) ∧ schema.table = table ∧
          schema.typeOf? p = some t ∧
          ((∀ name type, .key .sort name type ∉ calls) → schema.keys = [⟨p, .partition⟩]) ∧
          ∀ s u, lastKey? .sort calls = some (s, u) →
            schema.keys = [⟨p, .partition⟩, ⟨s, .sort⟩] ∧
              schema.typeOf? s = some (if s = p then t else u) := by
  have hpartition := key?_ofCalls .partition table calls
  cases hp : lastKey? .partition calls with
  | none =>
    rw [build_of_no_partition (hpartition.trans hp), table_ofCalls]
    refine ⟨fun e => ?_, by rintro _ ⟨⟩⟩
    rw [Except.error.injEq]
    exact (and_iff_right (lastKey?_eq_none_iff.1 hp)).symm
  | some k =>
    obtain ⟨p, t⟩ := k
    obtain ⟨schema, hb, htable, htype, hnone, hsome⟩ :=
      exists_build_of_partition (hpartition.trans hp)
    rw [table_ofCalls] at htable
    rw [key?_ofCalls] at hnone hsome
    rw [hb]
    refine ⟨fun e => iff_of_false (by rintro ⟨⟩) ?_, ?_⟩
    · rintro ⟨hn, -⟩
      cases hp.symm.trans (lastKey?_eq_none_iff.2 hn)
    · rintro _ ⟨⟩
      exact ⟨p, t, rfl, htable, htype, fun hn => hnone (lastKey?_eq_none_iff.2 hn), hsome⟩

def repeatedCalls : List Call :=
  [.key .sort "at" .text, .declare "id" .binary, .key .partition "at" .number,
    .declare "at" .binary, .key .partition "id" .text, .key .sort "at" .number]

theorem build_ofCalls_of_repeated :
    ∃ schema, (ofCalls "t" repeatedCalls).build = .ok schema ∧
      schema.keys = [⟨"id", .partition⟩, ⟨"at", .sort⟩] ∧ schema.typeOf? "id" = some .text ∧
      schema.typeOf? "at" = some .number ∧
      lastKey? .sort repeatedCalls = some ("at", .number) := by
  have hb : (ofCalls "t" repeatedCalls).build = .ok _ := rfl
  have hs : lastKey? .sort repeatedCalls = some ("at", .number) := rfl
  obtain ⟨p, t, hp, -, ht, -, hk⟩ := (build_ofCalls "t" repeatedCalls).2 _ hb
  cases hp
  obtain ⟨hkeys, htype⟩ := hk _ _ hs
  exact ⟨_, hb, hkeys, ht, htype, hs⟩

/-- Two keys of one name cannot both keep their types. -/
theorem exists_build_typeOf?_ne :
    ∃ schema, (ofCalls "t" [.key .partition "k" .text, .key .sort "k" .number]).build =
        .ok schema ∧
      lastKey? .sort [.key .partition "k" .text, .key .sort "k" .number] = some ("k", .number) ∧
      schema.typeOf? "k" ≠ some .number :=
  ⟨_, rfl, rfl, by decide⟩

end SchemaBuilder
end ItemStore
