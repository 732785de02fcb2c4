import ItemStore.Schema.Basic

/-!
What a schema says of a name, read off its lists. Neither list has to be free of repetitions: the
first key element with a role and the first declaration of a name are the ones that count.
-/
namespace ItemStore.Schema

open List

variable {schema : Schema} {role : Role} {name : String} {type : ScalarType}

/-- The first key element with that role has that name. -/
def KeyNamed (schema : Schema) (role : Role) (name : String) : Prop :=
  ∃ before after, schema.keys = before ++ ⟨name, role⟩ :: after ∧ ∀ k ∈ before, k.role ≠ role

/-- The first declaration of that name has that type. -/
def Declares (schema : Schema) (name : String) (type : ScalarType) : Prop :=
  ∃ before after, schema.declarations = before ++ ⟨name, type⟩ :: after ∧
    ∀ d ∈ before, d.name ≠ name

def Undeclared (schema : Schema) (name : String) : Prop := ∀ d ∈ schema.declarations, d.name ≠ name

theorem keyOf?_eq_some_iff : schema.keyOf? role = some name ↔ schema.KeyNamed role name := by
  simp only [keyOf?, Option.map_eq_some_iff, find?_eq_some_iff_append, beq_iff_eq,
    Bool.not_eq_true', beq_eq_false_iff_ne]
  constructor
  · rintro ⟨⟨_, _⟩, ⟨rfl, before, after, hk, hb⟩, rfl⟩
    exact ⟨before, after, hk, hb⟩
  · rintro ⟨before, after, hk, hb⟩
    exact ⟨⟨name, role⟩, ⟨rfl, before, after, hk, hb⟩, rfl⟩

theorem keyOf?_eq_none_iff : schema.keyOf? role = none ↔ ∀ k ∈ schema.keys, k.role ≠ role := by
  simp only [keyOf?, Option.map_eq_none_iff, find?_eq_none, beq_iff_eq, ne_eq]

theorem isSome_keyOf?_iff :
    (schema.keyOf? role).isSome = true ↔ ∃ k ∈ schema.keys, k.role = role := by
  simp only [keyOf?, Option.isSome_map, find?_isSome, beq_iff_eq]

theorem isSome_partitionKey?_iff :
    schema.partitionKey?.isSome = true ↔ ∃ k ∈ schema.keys, k.role = .partition :=
  isSome_keyOf?_iff

theorem KeyNamed.unique {name' : String} (h : schema.KeyNamed role name)
    (h' : schema.KeyNamed role name') : name = name' :=
  Option.some.inj ((keyOf?_eq_some_iff.2 h).symm.trans (keyOf?_eq_some_iff.2 h'))

theorem KeyNamed.exists_mem (h : schema.KeyNamed role name) : ∃ k ∈ schema.keys, k.role = role := by
  obtain ⟨before, after, hk, -⟩ := h
  exact ⟨_, hk ▸ mem_append_right _ (mem_cons_self ..), rfl⟩

theorem typeOf?_eq_some_iff : schema.typeOf? name = some type ↔ schema.Declares name type := by
  simp only [typeOf?, Option.map_eq_some_iff, find?_eq_some_iff_append, beq_iff_eq,
    Bool.not_eq_true', beq_eq_false_iff_ne]
  constructor
  · rintro ⟨⟨_, _⟩, ⟨rfl, before, after, hd, hb⟩, rfl⟩
    exact ⟨before, after, hd, hb⟩
  · rintro ⟨before, after, hd, hb⟩
    exact ⟨⟨name, type⟩, ⟨rfl, before, after, hd, hb⟩, rfl⟩

theorem typeOf?_eq_none_iff : schema.typeOf? name = none ↔ schema.Undeclared name := by
  simp only [typeOf?, Option.map_eq_none_iff, find?_eq_none, beq_iff_eq, Undeclared, ne_eq]

theorem declares_or_undeclared (schema : Schema) (name : String) :
    (∃ type, schema.Declares name type) ∨ schema.Undeclared name := by
  cases h : schema.typeOf? name with
  | some type => exact .inl ⟨type, typeOf?_eq_some_iff.1 h⟩
  | none => exact .inr (typeOf?_eq_none_iff.1 h)

theorem Declares.unique {type' : ScalarType} (h : schema.Declares name type)
    (h' : schema.Declares name type') : type = type' :=
  Option.some.inj ((typeOf?_eq_some_iff.2 h).symm.trans (typeOf?_eq_some_iff.2 h'))

theorem Declares.not_undeclared (h : schema.Declares name type) : ¬schema.Undeclared name := by
  obtain ⟨before, after, hd, -⟩ := h
  intro hu
  exact hu _ (hd ▸ mem_append_right _ (mem_cons_self ..)) rfl

end ItemStore.Schema
