import Mathlib.Order.Bounds.Basic
import TypedForms.Proofs.Env

/-! The views of an environment. Looking a name up, listing the visible names and binding many
names at once all go by the innermost frame of a name. They do so after any history of extensions,
and what is made of an environment later does not change them. -/
namespace TypedForms.Env

variable {α : Type} {env : Env α} {name : String} {value : α} {names : List String}
  {values : List α} {place : Nat}

/-! The innermost frame of a name. -/

/-- How many frames lie inside the innermost one of a name. -/
def depth (env : Env α) (name : String) : Nat := env.frames.findIdx (·.1 == name)

/-- A name stands for what its innermost frame binds it to. -/
theorem frames_depth_of_lookup? (found : env.lookup? name = some value) :
    env.frames[env.depth name]? = some (name, value) := by
  obtain ⟨frame, atDepth, rfl⟩ := Option.map_eq_some_iff.mp found
  have ofName : frame.1 = name := by simpa using List.find?_some atDepth
  rw [depth, ← List.find?_eq_getElem?_findIdx, atDepth, ← ofName]

theorem nodup_names : env.names.Nodup := nodup_distinct _

/-- The visible names come in the order of their innermost frames. -/
theorem pairwise_depth_names :
    env.names.Pairwise fun inner outer => env.depth inner < env.depth outer := by
  have idxOfEq (name : String) : (env.frames.map (·.1)).idxOf name = env.depth name :=
    List.findIdx_map ..
  have ordered := pairwise_idxOf_distinct (env.frames.map (·.1))
  simp only [idxOfEq] at ordered
  exact ordered

/-! Many names at once. -/

theorem not_mem_drop_of_isGreatest
    (last : IsGreatest {place | names[place]? = some name} place) :
    name ∉ names.drop (place + 1) := by
  intro later
  obtain ⟨further, found⟩ := List.mem_iff_getElem?.mp later
  rw [List.getElem?_drop] at found
  have := last.2 found
  omega

theorem lookup?_extendAll_zip_of_isGreatest (paired : names.length = values.length)
    (last : IsGreatest {place | names[place]? = some name} place) :
    (env.extendAll (names.zip values)).lookup? name = values[place]? := by
  obtain ⟨inside, found⟩ := List.getElem?_eq_some_iff.mp last.1
  have inside' : place < (names.zip values).length := by
    rw [List.length_zip]
    omega
  have fresh : name ∉ ((names.zip values).drop (place + 1)).map (·.1) := by
    rw [List.map_drop, List.map_fst_zip paired.le]
    exact not_mem_drop_of_isGreatest last
  -- the bindings before the last one of the name, that one, and the bindings after it
  rw [← List.take_append_drop place (names.zip values), List.drop_eq_getElem_cons inside',
    List.getElem_zip, found, lookup?_extendAll_of_last fresh, List.getElem?_eq_getElem]

theorem lookup?_extendAll_zip_of_not_mem (paired : names.length = values.length)
    (fresh : name ∉ names) :
    (env.extendAll (names.zip values)).lookup? name = env.lookup? name := by
  apply lookup?_extendAll_of_not_mem
  rwa [List.map_fst_zip paired.le]

theorem suffix_frames_extendAll {bound : List (String × α)} :
    env.frames <:+ (env.extendAll bound).frames := by
  induction bound generalizing env with
  | nil => exact List.suffix_rfl
  | cons binding bound ih => exact (List.suffix_cons binding env.frames).trans ih

/-! Histories. -/

/-- What an environment is extended by: one binding, or names with their values. -/
inductive Extension (α : Type) where
  | one (name : String) (value : α)
  | many (names : List String) (values : List α)

/-- The extended environment; there is none if names and values cannot be paired up. -/
def extended? (env : Env α) : Extension α → Option (Env α)
  | .one name value => some (env.extend name value)
  | .many names values => (env.extendPaired names values).toOption

/-- New frames lie inside the old ones, which stay as they are. -/
theorem suffix_frames_of_extended? {call : Extension α} {extended : Env α}
    (made : env.extended? call = some extended) : env.frames <:+ extended.frames := by
  cases call with
  | one name value =>
    obtain rfl := Option.some.inj made
    exact List.suffix_cons ..
  | many names values =>
    rw [extended?, extendPaired] at made
    split at made
    next paired =>
      obtain rfl := Option.some.inj made
      exact suffix_frames_extendAll
    next unpaired => exact nomatch made

/-- Extends the environment at a place of those made so far, and puts the new one at the end. -/
def proceed (made : List (Env α)) (call : Nat × Extension α) : List (Env α) :=
  made ++ (made[call.1]?.bind (·.extended? call.2)).toList

/-- The environments that a sequence of extensions makes, after the empty one. Any of them may be
extended at any time, and more than once. -/
def history (calls : List (Nat × Extension α)) : List (Env α) := calls.foldl proceed [empty]

theorem prefix_foldl_proceed (made : List (Env α)) (calls : List (Nat × Extension α)) :
    made <+: calls.foldl proceed made := by
  induction calls generalizing made with
  | nil => exact List.prefix_rfl
  | cons call calls ih => exact (List.prefix_append ..).trans (ih (proceed made call))

/-- What has been made stays at its place. -/
theorem prefix_history_append (calls later : List (Nat × Extension α)) :
    history calls <+: history (calls ++ later) := by
  rw [history, history, List.foldl_append]
  exact prefix_foldl_proceed ..

/-- However an environment has come about, its views agree. No name is listed twice, and the listed
names are the ones that stand for something, namely for what their innermost frames bind them to;
they are listed in the order of these frames. After names have been bound to values at once, a name
stands for the value at its last place among them, or else for what it stood for. What extends the
environment has its frames as the outer ones. And after whatever is done later, the environment
lists the same names, and they stand for the same. -/
theorem views_agree_along_history {calls : List (Nat × Extension α)}
    (made : (history calls)[place]? = some env) :
    env.names.Nodup ∧
    (∀ name, name ∈ env.names ↔ ∃ value, env.lookup? name = some value) ∧
    (∀ name value, env.lookup? name = some value →
      env.frames[env.depth name]? = some (name, value)) ∧
    env.names.Pairwise (fun inner outer => env.depth inner < env.depth outer) ∧
    (∀ (names : List String) (values : List α), names.length = values.length →
      ∃ extended, env.extendPaired names values = .ok extended ∧ ∀ name,
        (∀ last, IsGreatest {place : Nat | names[place]? = some name} last →
          extended.lookup? name = values[last]?) ∧
        (name ∉ names → extended.lookup? name = env.lookup? name)) ∧
    (∀ call extended, env.extended? call = some extended → env.frames <:+ extended.frames) ∧
    ∀ later, ∃ still, (history (calls ++ later))[place]? = some still ∧
      still.names = env.names ∧ ∀ name, still.lookup? name = env.lookup? name := by
  refine ⟨nodup_names, ?_, ?_, pairwise_depth_names, ?_, ?_, ?_⟩
  · intro name
    exact mem_names_iff
  · intro name value found
    exact frames_depth_of_lookup? found
  · intro names values paired
    refine ⟨env.extendAll (names.zip values), if_pos paired, ?_⟩
    intro name
    constructor
    · intro last greatest
      exact lookup?_extendAll_zip_of_isGreatest paired greatest
    · intro fresh
      exact lookup?_extendAll_zip_of_not_mem paired fresh
  · intro call extended made
    exact suffix_frames_of_extended? made
  · intro later
    obtain ⟨inside, rfl⟩ := List.getElem?_eq_some_iff.mp made
    have kept := List.prefix_iff_getElem?.mp (prefix_history_append calls later) place inside
    exact ⟨_, kept, rfl, fun _ => rfl⟩

/-- A name bound twice at once, then siblings of which one hides it; a call in between cannot pair
up its names and values. -/
theorem views_agree_along_history_of_siblings :
    ∃ env : Env Nat, (history [(0, .many ["a", "b", "a"] [1, 2, 3])])[1]? = some env ∧
      env.names = ["a", "b"] ∧ env.depth "a" < env.depth "b" ∧ env.lookup? "a" = some 3 ∧
      (∃ extended, env.extendPaired ["b", "c", "b"] [4, 5, 6] = .ok extended ∧
        extended.lookup? "b" = some 6 ∧ extended.lookup? "a" = some 3) ∧
      ∃ still, (history ([(0, .many ["a", "b", "a"] [1, 2, 3])] ++
          [(1, .one "a" 7), (1, .many ["b"] []), (1, .one "c" 8)]))[1]? = some still ∧
        still.names = ["a", "b"] ∧ still.lookup? "a" = some 3 ∧ still.lookup? "c" = none := by
  have made : (history [(0, .many ["a", "b", "a"] [1, 2, 3])])[1]? =
      some (⟨[("a", 3), ("b", 2), ("a", 1)]⟩ : Env Nat) := rfl
  obtain ⟨_, _, _, ordered, bound, _, kept⟩ := views_agree_along_history made
  have last : IsGreatest {place : Nat | ["b", "c", "b"][place]? = some "b"} 2 := by
    refine ⟨rfl, ?_⟩
    intro place found
    have inside := (List.getElem?_eq_some_iff.mp found).1
    exact Nat.le_of_lt_succ inside
  obtain ⟨extended, paired, lookedUp⟩ := bound ["b", "c", "b"] [4, 5, 6] rfl
  obtain ⟨still, atPlace, sameNames, sameValues⟩ :=
    kept [(1, .one "a" 7), (1, .many ["b"] []), (1, .one "c" 8)]
  exact ⟨_, made, by decide, List.rel_of_pairwise_cons ordered (by decide), by decide,
    ⟨extended, paired, (lookedUp "b").1 2 last, (lookedUp "a").2 (by decide)⟩,
    still, atPlace, sameNames, sameValues "a", sameValues "c"⟩

end TypedForms.Env
