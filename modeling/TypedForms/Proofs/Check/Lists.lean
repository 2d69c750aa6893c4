import TypedForms.Proofs.Check.Typing

/-! Lists, whatever the order of their elements. Each element is held only against the type that
the elements before it share. Still, elements are accepted exactly if any two of them are
compatible, and the type that they share in the end is the least upper bound of their types, which
does not depend on their order. -/
namespace TypedForms.Check

variable {o : Options} {env : Env Ty} {token : Token} {elem : Option Ty} {es : List Expr}
  {result : Ty}

theorem value_exprs {es : List Expr} :
    (exprs o env es).value = es.map fun e => (e.token, (expr o env e).value) := by
  induction es with
  | nil => rfl
  | cons e es ih => simp [exprs_cons, ih]

/-- What a list comes to where its elements may have gone wrong before: only parts without errors
make a list, and they make the list of their least upper bound. -/
theorem value_listRule_eq_iff {elem : Ty} {types : List (Token × Ty)} (elemTidy : elem.Tidy)
    (tidy : ∀ t ∈ types, t.2.Tidy) (sound : result.isError = false) :
    (listRule elem types).value = result ↔
      elem.isError = false ∧ (∀ t ∈ types, t.2.isError = false) ∧
        ∃ t, IsLUB (insert elem {u | u ∈ types.map (·.2)}) t ∧ result = .list t := by
  have cleanIff (elemSound : elem.isError = false)
      (typesSound : ∀ t ∈ types, t.2.isError = false) : listRule elem types = pure result ↔ _ :=
    listRule_eq_pure_iff (elemTidy.errorFree elemSound)
      fun t member => (tidy t member).errorFree (typesSound t member)
  constructor
  · intro found
    obtain ⟨_, errorIff⟩ := Accounts.single_iff.mp (accounts_listRule elemTidy tidy)
    have fine : ¬ (listRule elem types).value.isError = true := by simp [found, sound]
    rw [errorIff, not_or, not_or, not_not, Bool.not_eq_true] at fine
    obtain ⟨notes, elemSound, typesSound⟩ := fine
    have typesSound : ∀ t ∈ types, t.2.isError = false := by simpa using typesSound
    refine ⟨elemSound, typesSound, ?_⟩
    exact (cleanIff elemSound typesSound).mp (Diagnosed.eq_pure_iff.mpr ⟨notes, found⟩)
  · rintro ⟨elemSound, typesSound, least⟩
    rw [(cleanIff elemSound typesSound).mpr least, Diagnosed.value_pure]

theorem value_elementType (written : ∀ a, elem = some a → a.ErrorFree) :
    (elementType token elem).value = elem.getD .unresolved := by
  rw [elementType_eq_pure_iff.mpr ⟨rfl, written⟩, Diagnosed.value_pure]

/-- A written element type is an error where there is one in it. -/
theorem isError_elementType :
    (elementType token elem).value.isError = false ↔ ∀ a, elem = some a → a.ErrorFree := by
  have accounts : Accounts ([·]) False (elementType token elem) := accounts_elementType
  obtain ⟨_, errorIff⟩ := Accounts.single_iff.mp accounts
  constructor
  · intro sound
    have notes : (elementType token elem).notes = [] := by simpa [sound] using errorIff
    exact (elementType_eq_pure_iff.mp (Diagnosed.eq_pure_iff.mpr ⟨notes, rfl⟩)).2
  · intro written
    rw [value_elementType written]
    cases elem with
    | none => rfl
    | some a => exact (written a rfl).isError_eq_false

/-- An unresolved element type, which stands for one that is not written, is compatible with
anything. -/
theorem pairwise_getD_iff {ts : List Ty} :
    (elem.getD .unresolved :: ts).Pairwise (fun t u => t.compatible u = true) ↔
      (elem.toList ++ ts).Pairwise fun t u => t.compatible u = true := by
  cases elem with
  | none => simp [Ty.compatible]
  | some a => rfl

section

variable (valid : o.problem? = none) (tidy : env.All Ty.Tidy)
include valid tidy

/-- The type of a list by the set of the types of its elements. -/
theorem value_list_eq_iff (sound : result.isError = false) :
    (expr o env (.list token elem es)).value = result ↔
      (∀ a, elem = some a → a.ErrorFree) ∧ (∀ e ∈ es, (expr o env e).value.isError = false) ∧
        ∃ t, IsLUB (insert (elem.getD .unresolved)
          {u | u ∈ es.map fun e => (expr o env e).value}) t ∧ result = .list t := by
  have elemTidy : (elementType token elem).value.Tidy :=
    (Accounts.single_iff.mp accounts_elementType).1
  have typesTidy : ∀ t ∈ (exprs o env es).value, t.2.Tidy := by
    rw [value_exprs, List.forall_mem_map]
    exact fun e _ => tidy_expr valid e tidy
  rw [expr_list, Diagnosed.value_bind, Diagnosed.value_bind,
    value_listRule_eq_iff elemTidy typesTidy sound, isError_elementType, value_exprs,
    List.forall_mem_map, List.map_map]
  refine and_congr_right fun written => ?_
  rw [value_elementType written]
  rfl

theorem isError_list_iff :
    (expr o env (.list token elem es)).value.isError = false ↔
      (∀ a, elem = some a → a.ErrorFree) ∧ (∀ e ∈ es, (expr o env e).value.isError = false) ∧
        (elem.toList ++ es.map fun e => (expr o env e).value).Pairwise
          fun t u => t.compatible u = true := by
  rw [← pairwise_getD_iff, ← Ty.exists_isLUB_iff_pairwise]
  constructor
  · intro sound
    obtain ⟨written, sounds, t, least, _⟩ := (value_list_eq_iff valid tidy sound).mp rfl
    exact ⟨written, sounds, t, least⟩
  · rintro ⟨written, sounds, t, least⟩
    have found : (expr o env (.list token elem es)).value = .list t :=
      (value_list_eq_iff valid tidy rfl).mpr ⟨written, sounds, t, least, rfl⟩
    rw [found]
    rfl

/-- Elements that are in order by themselves give rise to a note only where their list is an
error. -/
theorem notes_list_eq_nil_iff (sounds : ∀ e ∈ es, (expr o env e).value.isError = false) :
    (expr o env (.list token elem es)).notes = [] ↔
      (expr o env (.list token elem es)).value.isError = false := by
  have unused : ¬ UsesError env (.list token elem es) := by
    intro uses
    obtain ⟨e, member, uses⟩ := usesError_all.mp uses
    have error := (isError_expr_iff valid e tidy).mpr (.inr uses)
    simp [sounds e member] at error
  rw [← Bool.not_eq_true, isError_expr_iff valid _ tidy, or_iff_left unused, not_not]

theorem value_list_of_perm {es' : List Expr} (perm : es.Perm es')
    (sound : (expr o env (.list token elem es)).value.isError = false) :
    (expr o env (.list token elem es')).value = (expr o env (.list token elem es)).value := by
  have parts := (value_list_eq_iff valid tidy sound).mp rfl
  simp only [List.mem_map, perm.mem_iff] at parts
  apply (value_list_eq_iff valid tidy sound).mpr
  simpa only [List.mem_map] using parts

end

/-- Whether elements make a list is a matter of any two of them, and of each one and the written
element type: where the elements are in order by themselves, there is no note and no error exactly
if all of these are compatible. So the order of the elements makes no difference. In another order
they make a list of the same type, or an error just as well. -/
theorem list_does_not_depend_on_order (valid : o.problem? = none) (tidy : env.All Ty.Tidy)
    (token : Token) (elem : Option Ty) (es : List Expr) :
    ((∀ e ∈ es, (expr o env e).value.isError = false) → (∀ a, elem = some a → a.ErrorFree) →
      ((expr o env (.list token elem es)).value.isError = false ↔
        (elem.toList ++ es.map fun e => (expr o env e).value).Pairwise
          fun t u => t.compatible u = true) ∧
      ((expr o env (.list token elem es)).notes = [] ↔
        (expr o env (.list token elem es)).value.isError = false)) ∧
    ∀ es', es.Perm es' →
      ((expr o env (.list token elem es)).value.isError = true ↔
        (expr o env (.list token elem es')).value.isError = true) ∧
      ((expr o env (.list token elem es)).value.isError = false →
        (expr o env (.list token elem es)).value = (expr o env (.list token elem es')).value) := by
  refine ⟨fun sounds written => ⟨?_, notes_list_eq_nil_iff valid tidy sounds⟩,
    fun es' perm => ⟨?_, fun sound => (value_list_of_perm valid tidy perm sound).symm⟩⟩
  · rw [isError_list_iff valid tidy]
    exact ⟨fun parts => parts.2.2, fun pairwise => ⟨written, sounds, pairwise⟩⟩
  · rw [← not_iff_not, Bool.not_eq_true, Bool.not_eq_true]
    constructor
    · intro sound
      rw [value_list_of_perm valid tidy perm sound, sound]
    · intro sound
      rw [value_list_of_perm valid tidy perm.symm sound, sound]

/-- An empty list goes together with a list of numbers, and with one of strings, but the three do
not go together. -/
theorem list_does_not_depend_on_order_of_elements :
    let env := ((Env.empty.extend "x" (.list .unresolved)).extend "y" (.list .num)).extend "z"
      (.list .str)
    let x : Expr := .var .nowhere "x"
    let y : Expr := .var .nowhere "y"
    let z : Expr := .var .nowhere "z"
    let written := some (Ty.list .unresolved)
    Options.standard.problem? = none ∧ env.All Ty.Tidy ∧
    [Ty.list .unresolved, .list .unresolved, .list .num].Pairwise
      (fun t u => t.compatible u = true) ∧
    (expr .standard env (.list .nowhere written [x, y])).notes = [] ∧
    (expr .standard env (.list .nowhere written [y, x])).value = .list (.list .num) ∧
    ¬ [Ty.list .unresolved, .list .num, .list .str].Pairwise
      (fun t u => t.compatible u = true) ∧
    (expr .standard env (.list .nowhere none [y, x, z])).value.isError = true := by
  intro env x y z written
  have tidy : env.All Ty.Tidy :=
    ((Env.All.empty.extend (.inr rfl)).extend (.inr rfl)).extend (.inr rfl)
  have sounds : ∀ e ∈ [x, y, z], (expr .standard env e).value.isError = false := by
    simp only [List.forall_mem_cons]
    exact ⟨rfl, rfl, rfl, by simp⟩
  have free : ∀ a, written = some a → a.ErrorFree := by
    intro a same
    obtain rfl := Option.some.inj same
    rfl
  obtain ⟨accepted, orders⟩ :=
    list_does_not_depend_on_order (o := .standard) rfl tidy .nowhere written [x, y]
  obtain ⟨refused, others⟩ :=
    list_does_not_depend_on_order (o := .standard) rfl tidy .nowhere none [x, y, z]
  obtain ⟨pairwise, notes⟩ := accepted (fun e member => sounds e (by grind)) free
  obtain ⟨pairwise', _⟩ := refused sounds (by simp)
  refine ⟨rfl, tidy, pairwise.mp rfl, notes.mpr rfl, ?_, ?_, ?_⟩
  · exact ((orders [y, x] (.swap y x [])).2 rfl).symm
  · exact fun all => absurd (pairwise'.mpr all) (by decide)
  · exact (others [y, x, z] (.swap y x [z])).1.mp rfl

end TypedForms.Check
