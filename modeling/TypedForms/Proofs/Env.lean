import TypedForms.Env

/-! What a name stands for after an environment has been extended. -/
namespace TypedForms.Env

variable {α : Type} {env : Env α} {name other : String} {value : α}

@[simp] theorem lookup?_empty : (empty : Env α).lookup? name = none := rfl

theorem lookup?_extend :
    (env.extend name value).lookup? other = if name = other then some value
      else env.lookup? other := by
  by_cases same : name = other <;> simp [lookup?, extend, same]

/-- The visible names are the ones that stand for something. -/
theorem mem_names_iff : name ∈ env.names ↔ ∃ value, env.lookup? name = some value := by
  rw [← Option.isSome_iff_exists]
  simp [names, mem_distinct, lookup?]

@[simp] theorem extendAll_nil : env.extendAll [] = env := rfl

@[simp] theorem extendAll_cons {binding : String × α} {bound : List (String × α)} :
    env.extendAll (binding :: bound) = (env.extend binding.1 binding.2).extendAll bound := rfl

/-- A name that is not among the new ones stands for what it stood for. -/
theorem lookup?_extendAll_of_not_mem {bound : List (String × α)}
    (fresh : name ∉ bound.map (·.1)) : (env.extendAll bound).lookup? name = env.lookup? name := by
  induction bound generalizing env with
  | nil => rfl
  | cons binding bound ih =>
    simp only [List.map_cons, List.mem_cons, not_or] at fresh
    rw [extendAll_cons, ih fresh.2, lookup?_extend, if_neg (Ne.symm fresh.1)]

/-- What a name stands for is bound to it by a new binding, or else by an old one. -/
theorem of_lookup?_extendAll {bound : List (String × α)}
    (found : (env.extendAll bound).lookup? name = some value) :
    (name, value) ∈ bound ∨ name ∉ bound.map (·.1) ∧ env.lookup? name = some value := by
  induction bound generalizing env with
  | nil => exact .inr ⟨by simp, found⟩
  | cons binding bound ih =>
    rw [extendAll_cons] at found
    rcases ih found with member | ⟨fresh, found⟩
    · exact .inl (List.mem_cons_of_mem _ member)
    · rw [lookup?_extend] at found
      split at found
      next same =>
        obtain rfl := Option.some.inj found
        exact .inl (same ▸ List.mem_cons_self)
      next different =>
        refine .inr ⟨?_, found⟩
        simp only [List.map_cons, List.mem_cons, not_or]
        exact ⟨Ne.symm different, fresh⟩

theorem extendAll_append {before after : List (String × α)} :
    env.extendAll (before ++ after) = (env.extendAll before).extendAll after :=
  List.foldl_append

/-- Of all the bindings of a name the last one counts. -/
theorem lookup?_extendAll_of_last {before after : List (String × α)}
    (last : name ∉ after.map (·.1)) :
    (env.extendAll (before ++ (name, value) :: after)).lookup? name = some value := by
  rw [extendAll_append, extendAll_cons, lookup?_extendAll_of_not_mem last, lookup?_extend,
    if_pos rfl]

/-- Of different names each stands for what it is bound to. -/
theorem lookup?_extendAll_of_mem {bound : List (String × α)}
    (different : (bound.map (·.1)).Nodup) (member : (name, value) ∈ bound) :
    (env.extendAll bound).lookup? name = some value := by
  obtain ⟨before, after, rfl⟩ := List.append_of_mem member
  rw [List.map_append, List.map_cons, List.nodup_append] at different
  exact lookup?_extendAll_of_last (List.nodup_cons.mp different.2.1).1

/-- Different names are found in any order of their bindings. -/
theorem lookup?_extendAll_of_perm {bound bound' : List (String × α)}
    (different : (bound.map (·.1)).Nodup) (perm : bound.Perm bound') :
    (env.extendAll bound).lookup? name = (env.extendAll bound').lookup? name := by
  have namesPerm := perm.map (·.1)
  by_cases member : name ∈ bound.map (·.1)
  · obtain ⟨⟨_, value⟩, found, rfl⟩ := List.mem_map.mp member
    rw [lookup?_extendAll_of_mem different found,
      lookup?_extendAll_of_mem (namesPerm.nodup_iff.mp different) (perm.mem_iff.mp found)]
  · rw [lookup?_extendAll_of_not_mem member,
      lookup?_extendAll_of_not_mem fun member' => member (namesPerm.mem_iff.mpr member')]

/-- Every visible name stands for something with the property. -/
def All (holds : α → Prop) (env : Env α) : Prop :=
  ∀ name value, env.lookup? name = some value → holds value

namespace All

variable {holds : α → Prop}

theorem empty : (empty : Env α).All holds := by
  intro name value found
  simp at found

theorem extend (all : env.All holds) (new : holds value) : (env.extend name value).All holds := by
  intro other found lookup
  rw [lookup?_extend] at lookup
  split at lookup
  · obtain rfl := Option.some.inj lookup
    exact new
  · exact all other found lookup

theorem extendAll {bound : List (String × α)} (all : env.All holds)
    (new : ∀ binding ∈ bound, holds binding.2) : (env.extendAll bound).All holds := by
  intro name value found
  rcases of_lookup?_extendAll found with member | ⟨_, found⟩
  · exact new _ member
  · exact all name value found

end All

end TypedForms.Env
