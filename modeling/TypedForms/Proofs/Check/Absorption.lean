import TypedForms.Proofs.Check.Rules
import TypedForms.Proofs.Env
import TypedForms.Proofs.Expr.Scope
import TypedForms.Proofs.Options
import TypedForms.Proofs.Ty.Join

/-! Errors and notes come together. Each rule passes on the errors among the types it is given
and makes a new one exactly when it notes a problem; so an expression has an error type exactly
when a problem was noted in it or a name it uses stands for an error. -/
namespace TypedForms

/-- An error by itself, or a type without an error at any depth. -/
def Ty.Tidy (t : Ty) : Prop := t.isError = true ∨ t.ErrorFree

namespace Ty

theorem ErrorFree.tidy {t : Ty} (free : t.ErrorFree) : t.Tidy := .inr free

@[simp] theorem tidy_error (message : String) : (Ty.error message).Tidy := .inl rfl

theorem Tidy.errorFree {t : Ty} (tidy : t.Tidy) (sound : t.isError = false) : t.ErrorFree := by
  rcases tidy with error | free
  · simp [sound] at error
  · exact free

@[simp] theorem isError_error (message : String) : (Ty.error message).isError = true := rfl

@[simp] theorem isError_unit : Ty.unit.isError = false := rfl

@[simp] theorem isError_func (params : List Ty) (result : Ty) :
    (Ty.func params result).isError = false := rfl

@[simp] theorem isError_ref (elem : Ty) : (Ty.ref elem).isError = false := rfl

theorem eq_error_of_isError {t : Ty} (error : t.isError = true) :
    ∃ message, t = .error message := by
  cases t with
  | error message => exact ⟨message, rfl⟩
  | _ => simp [isError, kind] at error

theorem isError_of_firstError? {ts : List Ty} {message : String}
    (found : firstError? ts = some message) : ∃ t ∈ ts, t.isError = true := by
  induction ts with
  | nil => simp [firstError?] at found
  | cons t ts ih =>
    cases t with
    | error message => exact ⟨_, List.mem_cons_self, rfl⟩
    | _ =>
      obtain ⟨u, member, error⟩ := ih (by simpa [firstError?] using found)
      exact ⟨u, List.mem_cons_of_mem _ member, error⟩

theorem firstError?_eq_none_iff {ts : List Ty} :
    firstError? ts = none ↔ ∀ t ∈ ts, t.isError = false := by
  induction ts with
  | nil => simp [firstError?]
  | cons t ts ih => cases t <;> simp [firstError?, isError, kind, ih]

end Ty

namespace Check

variable {α β : Type} {types : α → List Ty} {types' : β → List Ty} {reason : Prop}

/-- The types in the result are tidy, and there is an error among them exactly if a problem was
noted or there was a reason from before. -/
structure Accounts (types : α → List Ty) (reason : Prop) (x : Checked α) : Prop where
  tidy : ∀ t ∈ types x.value, t.Tidy
  errorIff : (∃ t ∈ types x.value, t.isError = true) ↔ x.notes ≠ [] ∨ reason

namespace Accounts

/-- A step that takes over the errors of the one before it as its reasons. -/
theorem bind (other : Prop) {x : Checked α} {f : α → Checked β} (first : Accounts types reason x)
    (next : (∀ t ∈ types x.value, t.Tidy) →
      Accounts types' ((∃ t ∈ types x.value, t.isError = true) ∨ other) (f x.value)) :
    Accounts types' (reason ∨ other) (x >>= f) := by
  obtain ⟨tidy, errorIff⟩ := next first.tidy
  have noted : x.notes ++ (f x.value).notes ≠ [] ↔ x.notes ≠ [] ∨ (f x.value).notes ≠ [] := by
    rw [ne_eq, List.append_eq_nil_iff, not_and_or]
  refine ⟨tidy, ?_⟩
  rw [Diagnosed.value_bind, errorIff, first.errorIff, Diagnosed.notes_bind, noted, or_assoc,
    or_assoc, or_left_comm]

/-- A last step that has no reasons but the errors of the one before it. -/
theorem andThen {x : Checked α} {f : α → Checked β} (first : Accounts types reason x)
    (next : (∀ t ∈ types x.value, t.Tidy) →
      Accounts types' (∃ t ∈ types x.value, t.isError = true) (f x.value)) :
    Accounts types' reason (x >>= f) := by
  have whole : Accounts types' (reason ∨ False) (x >>= f) :=
    first.bind False fun tidy => by simpa only [or_false] using next tidy
  simpa only [or_false] using whole

/-- Two steps, each with reasons of its own, and a last one that has no others. -/
theorem bind₂ {γ : Type} {types'' : γ → List Ty} {reason' : Prop} {x : Checked α}
    {y : α → Checked β} {f : α → β → Checked γ} (first : Accounts types reason x)
    (second : Accounts types' reason' (y x.value))
    (next : (∀ t ∈ types x.value, t.Tidy) → (∀ t ∈ types' (y x.value).value, t.Tidy) →
      Accounts types'' ((∃ t ∈ types x.value, t.isError = true) ∨
        ∃ t ∈ types' (y x.value).value, t.isError = true) (f x.value (y x.value).value)) :
    Accounts types'' (reason ∨ reason') (x >>= fun a => y a >>= f a) := by
  refine first.bind reason' fun firstTidy => ?_
  rw [or_comm]
  refine second.bind _ fun secondTidy => ?_
  rw [or_comm]
  exact next firstTidy secondTidy

/-- Three steps likewise. -/
theorem bind₃ {γ δ : Type} {types₂ : γ → List Ty} {types₃ : δ → List Ty} {reason₁ reason₂ : Prop}
    {x : Checked α} {y : Checked β} {z : Checked γ} {f : α → β → γ → Checked δ}
    (first : Accounts types reason x) (second : Accounts types' reason₁ y)
    (third : Accounts types₂ reason₂ z)
    (next : (∀ t ∈ types x.value, t.Tidy) → (∀ t ∈ types' y.value, t.Tidy) →
      (∀ t ∈ types₂ z.value, t.Tidy) →
      Accounts types₃ ((∃ t ∈ types x.value, t.isError = true) ∨
        (∃ t ∈ types' y.value, t.isError = true) ∨ ∃ t ∈ types₂ z.value, t.isError = true)
        (f x.value y.value z.value)) :
    Accounts types₃ (reason ∨ reason₁ ∨ reason₂)
      (x >>= fun a => y >>= fun b => z >>= f a b) := by
  refine first.bind _ fun firstTidy => ?_
  rw [or_left_comm]
  refine second.bind _ fun secondTidy => ?_
  rw [or_left_comm, ← or_assoc, or_comm]
  refine third.bind _ fun thirdTidy => ?_
  rw [or_comm, or_assoc]
  exact next firstTidy secondTidy thirdTidy

theorem congr {x : Checked α} {reason' : Prop} (iff : reason ↔ reason')
    (accounts : Accounts types reason x) : Accounts types reason' x :=
  ⟨accounts.tidy, by rw [accounts.errorIff, iff]⟩

theorem pure {a : α} (tidy : ∀ t ∈ types a, t.Tidy)
    (errorIff : (∃ t ∈ types a, t.isError = true) ↔ reason) :
    Accounts types reason (pure a) :=
  ⟨tidy, by simpa using errorIff⟩

theorem single_iff {x : Checked Ty} : Accounts ([·]) reason x ↔
    x.value.Tidy ∧ (x.value.isError = true ↔ x.notes ≠ [] ∨ reason) := by
  constructor
  · rintro ⟨tidy, errorIff⟩
    exact ⟨tidy _ (by simp), by simpa using errorIff⟩
  · rintro ⟨tidy, errorIff⟩
    exact ⟨by simpa using tidy, by simpa using errorIff⟩

theorem pureType {t : Ty} (tidy : t.Tidy) (errorIff : t.isError = true ↔ reason) :
    Accounts ([·]) reason (Pure.pure t) :=
  single_iff.mpr ⟨tidy, by simpa using errorIff⟩

/-- A rule applied to the type found by the step before it. -/
theorem thenRule {x : Checked Ty} {rule : Ty → Checked β} (first : Accounts ([·]) reason x)
    (next : x.value.Tidy → Accounts types' (x.value.isError = true) (rule x.value)) :
    Accounts types' reason (x >>= rule) :=
  first.andThen fun tidy => .congr (by simp) (next (tidy _ (by simp)))

/-- An error that was noted on the spot needs no reason from before. -/
theorem noted {x : Checked Ty} (error : x.value.isError = true) (noted : x.notes ≠ []) :
    Accounts ([·]) reason x := by
  obtain ⟨message, same⟩ := Ty.eq_error_of_isError error
  exact single_iff.mpr ⟨same ▸ Ty.tidy_error message, by simp [error, noted]⟩

theorem report {anchor : Token} {cause : TypeError} : Accounts ([·]) reason (report anchor cause) :=
  noted rfl (by simp [Check.report])

end Accounts

/-! The rules one by one. -/

variable {anchor : Token} {cause : TypeError} {t : Ty}

theorem isError_orError {parts : List Ty} :
    (orError parts t).isError = true ↔
      (∃ part ∈ parts, part.isError = true) ∨ t.isError = true := by
  unfold orError
  cases found : Ty.firstError? parts with
  | some message => simp [Ty.isError_of_firstError? found]
  | none =>
    have sound := Ty.firstError?_eq_none_iff.mp found
    have none : ¬ ∃ part ∈ parts, part.isError = true := by
      rintro ⟨part, member, error⟩
      simp [sound part member] at error
    simp [none]

theorem tidy_orError {parts : List Ty}
    (tidy : (∀ part ∈ parts, part.isError = false) → t.Tidy) : (orError parts t).Tidy := by
  unfold orError
  cases found : Ty.firstError? parts with
  | some message => exact Ty.tidy_error message
  | none => exact tidy (Ty.firstError?_eq_none_iff.mp found)

/-- A rule may end by putting the errors of its parts in front of its own type. -/
theorem accounts_orError {parts : List Ty}
    (reasons : (∃ part ∈ parts, part.isError = true) ↔ reason)
    (free : (∀ part ∈ parts, part.isError = false) → t.ErrorFree) :
    Accounts ([·]) reason (pure (orError parts t)) := by
  refine Accounts.pureType (tidy_orError fun sound => (free sound).tidy) ?_
  rw [isError_orError, ← reasons]
  refine or_iff_left_of_imp fun error => ?_
  by_contra none
  have sound : ∀ part ∈ parts, part.isError = false := by
    intro part member
    by_contra erroneous
    exact none ⟨part, member, by simpa using erroneous⟩
  simp [(free sound).isError_eq_false] at error

/-- What a type has to be either holds, or is noted and breaks the type. -/
theorem require_cases (anchor : Token) (t : Ty) (fits : Bool) (cause : TypeError) :
    require anchor t fits cause = pure t ∧ (t.isError = true ∨ fits = true) ∨
      require anchor t fits cause = report anchor cause ∧ t.isError = false := by
  unfold require
  cases error : t.isError <;> cases fits <;> simp

theorem accounts_require {fits : Bool} (tidy : t.Tidy) :
    Accounts ([·]) (t.isError = true) (require anchor t fits cause) := by
  rcases require_cases anchor t fits cause with ⟨passed, _⟩ | ⟨reported, _⟩
  · rw [passed]
    exact .pureType tidy Iff.rfl
  · rw [reported]
    exact .report

theorem accounts_operand {index : Nat} {op : String} (tidy : t.Tidy) :
    Accounts ([·]) (t.isError = true) (operand index op anchor t) :=
  accounts_require tidy

theorem accounts_reference {op : String} (tidy : t.Tidy) :
    Accounts ([·]) (t.isError = true) (reference op anchor t) :=
  accounts_require tidy

theorem accounts_written : Accounts ([·]) False (written anchor t) := by
  unfold written
  split
  next => exact .report
  next free =>
    have free : t.ErrorFree := by simpa [Ty.ErrorFree] using free
    exact .pureType free.tidy (by simp [free.isError_eq_false])

theorem accounts_annotated {binder : Binder} : Accounts ([·]) False (annotated binder) := by
  unfold annotated
  split
  · exact .report
  · exact accounts_written

theorem accounts_reconcile {form : BindingForm} {name : String} {declared got : Ty}
    (declaredTidy : declared.Tidy) (gotTidy : got.Tidy) :
    Accounts ([·]) (declared.isError = true ∨ got.isError = true)
      (reconcile form name anchor declared got) := by
  unfold reconcile
  split
  next error => exact .pureType declaredTidy (by simp [error])
  next sound =>
    split
    next error => exact .pureType gotTidy (by simp [error])
    next sound' =>
      split
      next => exact .pureType declaredTidy (by simp [sound, sound'])
      next =>
        split
        · split <;> exact .report
        · exact .report

/-- The join of compatible types is found without a note. -/
theorem exists_joined {left right : Ty} (compatible : left.compatible right = true) :
    ∃ j, joined left right = pure j ∧ left.join? right = some j := by
  obtain ⟨j, found, _⟩ := Ty.exists_join? compatible
  exact ⟨j, by simp [joined, found], found⟩

theorem accounts_branchRule {form condition : Token} {cond yes no : Ty} (condTidy : cond.Tidy)
    (yesTidy : yes.Tidy) (noTidy : no.Tidy) :
    Accounts ([·]) (cond.isError = true ∨ yes.isError = true ∨ no.isError = true)
      (branchRule form condition cond yes no) := by
  unfold branchRule
  refine .bind _ (accounts_require condTidy) fun tidy => ?_
  set found := (require condition cond (cond.kind == .bool) (.condition cond)).value
  have foundTidy : found.Tidy := tidy found (by simp)
  simp only [List.mem_singleton, exists_eq_left]
  split
  next message clash =>
    obtain ⟨part, member, error⟩ := Ty.isError_of_firstError? clash
    have broken : yes.isError = true ∨ no.isError = true := by
      rcases List.mem_pair.mp member with rfl | rfl
      · exact .inl error
      · exact .inr error
    refine .pureType (tidy_orError fun _ => Ty.tidy_error message) ?_
    simp [isError_orError, broken]
  next sound =>
    have sound := Ty.firstError?_eq_none_iff.mp sound
    have yesSound := sound yes (by simp)
    have noSound := sound no (by simp)
    split
    next compatible =>
      split
      next error => exact .pureType foundTidy (by simp [error])
      next fine =>
        obtain ⟨j, joined, found⟩ := exists_joined compatible
        have free := (yesTidy.errorFree yesSound).join? (noTidy.errorFree noSound) found
        rw [joined]
        exact .pureType free.tidy (by simp [free.isError_eq_false, fine, yesSound, noSound])
    next =>
      refine .noted ?_ (by simp [report])
      simp [isError_orError, report]

theorem accounts_arguments {index : Nat} {params : List Ty} {args : List (Token × Ty)}
    (count : args.length = params.length) (tidy : ∀ arg ∈ args, arg.2.Tidy) :
    Accounts id (∃ arg ∈ args, arg.2.isError = true) (arguments index params args) := by
  induction args generalizing index params with
  | nil =>
    cases params with
    | nil => exact .pure (by simp) (by simp)
    | cons param params => simp at count
  | cons arg args ih =>
    cases params with
    | nil => simp at count
    | cons param params =>
      obtain ⟨anchor, arg⟩ := arg
      have rest : Accounts id _ (arguments (index + 1) params args) :=
        ih (by simpa using count) (fun arg member => tidy arg (List.mem_cons_of_mem _ member))
      refine .congr (by simp) (.bind₂ (accounts_require (tidy _ List.mem_cons_self)) rest
        fun firstTidy restTidy => .pure ?_ (by simp))
      simpa using ⟨firstTidy _ (by simp), restTidy⟩

theorem accounts_callRule {form operator : Token} {callee : Ty} {args : List (Token × Ty)}
    (calleeTidy : callee.Tidy) (tidy : ∀ arg ∈ args, arg.2.Tidy) :
    Accounts ([·]) (callee.isError = true ∨ ∃ arg ∈ args, arg.2.isError = true)
      (callRule form operator callee args) := by
  unfold callRule
  split
  next message => exact .pureType (Ty.tidy_error message) (by simp)
  next params result =>
    split
    next count =>
      have free : (Ty.func params result).ErrorFree := calleeTidy.errorFree rfl
      have resultFree := (Ty.ErrorFree.func_iff.mp free).2
      refine .congr (by simp)
        (.andThen (accounts_arguments count tidy) fun _ => ?_)
      exact accounts_orError (by simp [resultFree.isError_eq_false]) fun _ => resultFree
    next => exact .report
  next => exact .report

private theorem accounts_push {x : Checked (List Ty × Ty)} (rest : Accounts Prod.fst reason x)
    (tidy : t.Tidy) :
    Accounts Prod.fst (t.isError = true ∨ reason)
      (x >>= fun found => pure (t :: found.1, found.2)) := by
  refine .congr or_comm (.bind (t.isError = true) rest fun errorsTidy => .pure ?_ ?_)
  · simpa using ⟨tidy, errorsTidy⟩
  · simp [or_comm]

/-- While the elements are gone through, the type they share stays free of errors. -/
theorem accounts_elements {index : Nat} {elem : Ty} {types : List (Token × Ty)}
    (elemTidy : elem.Tidy) (tidy : ∀ t ∈ types, t.2.Tidy) :
    Accounts Prod.fst (∃ t ∈ types, t.2.isError = true) (elements index elem types) ∧
      (elem.ErrorFree → (elements index elem types).value.2.ErrorFree) := by
  induction types generalizing index elem with
  | nil => exact ⟨.pure (by simp) (by simp), fun free => free⟩
  | cons t types ih =>
    obtain ⟨anchor, t⟩ := t
    have tTidy : t.Tidy := tidy _ List.mem_cons_self
    have restTidy : ∀ t ∈ types, t.2.Tidy := fun t member => tidy t (List.mem_cons_of_mem _ member)
    have cons : (t.isError = true ∨ ∃ t ∈ types, t.2.isError = true) ↔
        ∃ part ∈ (anchor, t) :: types, part.2.isError = true := by simp
    rw [elements, ← cons]
    split
    next =>
      obtain ⟨rest, final⟩ := @ih (index + 1) elem elemTidy restTidy
      exact ⟨accounts_push rest tTidy, final⟩
    next sound =>
      simp only [Bool.or_eq_true, not_or, Bool.not_eq_true] at sound
      split
      next compatible =>
        obtain ⟨j, joined, found⟩ := exists_joined compatible
        have free := (elemTidy.errorFree sound.2).join? (tTidy.errorFree sound.1) found
        obtain ⟨rest, final⟩ := @ih (index + 1) j free.tidy restTidy
        rw [joined, pure_bind]
        exact ⟨.congr (by simp [sound.1]) rest, fun _ => final free⟩
      next =>
        obtain ⟨rest, final⟩ := @ih (index + 1) elem elemTidy restTidy
        refine ⟨.congr (by simp [sound.1]) (.bind (∃ t ∈ types, t.2.isError = true)
          (Accounts.report : Accounts _ False _) fun clashTidy => ?_), final⟩
        exact .congr (by simp) (accounts_push rest (clashTidy _ (by simp)))

theorem accounts_listRule {elem : Ty} {types : List (Token × Ty)} (elemTidy : elem.Tidy)
    (tidy : ∀ t ∈ types, t.2.Tidy) :
    Accounts ([·]) (elem.isError = true ∨ ∃ t ∈ types, t.2.isError = true)
      (listRule elem types) := by
  obtain ⟨errors, final⟩ := @accounts_elements 1 elem types elemTidy tidy
  refine .congr or_comm (.bind (elem.isError = true) errors fun _ => accounts_orError ?_ ?_)
  · simp [or_comm]
  · intro sound
    exact Ty.ErrorFree.list_iff.mpr (final (elemTidy.errorFree (sound elem (by simp))))

theorem isError_or_kind_reference {op : String} :
    (reference op anchor t).value.isError = true ∨ (reference op anchor t).value.kind = .ref := by
  rcases require_cases anchor t (t.kind == .ref) (.notReference op t) with
    ⟨passed, fits⟩ | ⟨reported, _⟩
  · rw [reference, passed]
    simpa using fits
  · rw [reference, reported]
    exact .inl rfl

theorem accounts_assignRule {location stored : Ty} (locationTidy : location.Tidy)
    (reference : location.isError = true ∨ location.kind = .ref) (storedTidy : stored.Tidy) :
    Accounts ([·]) (location.isError = true ∨ stored.isError = true)
      (assignRule anchor location stored) := by
  unfold assignRule
  split
  next cell =>
    split
    next error => exact .pureType storedTidy (by simp [error])
    next sound =>
      split
      next => exact .pureType Ty.ErrorFree.unit.tidy (by simp [sound])
      next => exact .report
  next other =>
    rcases reference with error | kind
    · exact .pureType locationTidy (by simp [error])
    · cases location <;> simp_all [Ty.kind]

variable {o : Options} {env : Env Ty}

theorem accounts_evalRule {form : Token} (valid : o.problem? = none) (tidy : t.Tidy) :
    Accounts ([·]) (t.isError = true) (evalRule o form anchor t) := by
  unfold evalRule
  split
  next error => exact .pureType tidy (by simp [error])
  next =>
    split
    next dynamic =>
      refine .andThen (accounts_require tidy) fun _ => accounts_orError (by simp) fun _ => ?_
      exact (Options.evalType_of_valid valid dynamic).2
    next => exact .report

/-- Taking a part out of a type makes no error that was not there. -/
private theorem accounts_project {fits : Bool} {pick : Ty → Checked Ty} (tidy : t.Tidy)
    (error : ∀ message, pick (.error message) = pure (.error message))
    (part : fits = true → t.ErrorFree → ∃ u, pick t = pure u ∧ u.ErrorFree) :
    Accounts ([·]) (t.isError = true) (require anchor t fits cause >>= pick) := by
  rcases require_cases anchor t fits cause with ⟨passed, reason⟩ | ⟨reported, _⟩
  · rw [passed, pure_bind]
    cases broken : t.isError with
    | true =>
      obtain ⟨message, rfl⟩ := Ty.eq_error_of_isError broken
      rw [error]
      exact .pureType tidy (by simp)
    | false =>
      obtain ⟨u, picked, free⟩ := part (by simpa [broken] using reason) (tidy.errorFree broken)
      rw [picked]
      exact .pureType free.tidy (by simp [free.isError_eq_false])
  · rw [reported]
    refine .noted ?_ (by simp [report])
    simp [report, error]

theorem accounts_unaryRule {form : Token} {op : UnaryOp} (valid : o.problem? = none)
    (tidy : t.Tidy) : Accounts ([·]) (t.isError = true) (unaryRule o form op anchor t) := by
  cases op with
  | car =>
    refine accounts_project tidy (fun _ => rfl) fun pair free => ?_
    cases t <;> simp [Ty.kind] at pair
    exact ⟨_, rfl, (Ty.ErrorFree.pair_iff.mp free).1⟩
  | cdr =>
    refine accounts_project tidy (fun _ => rfl) fun pair free => ?_
    cases t <;> simp [Ty.kind] at pair
    exact ⟨_, rfl, (Ty.ErrorFree.pair_iff.mp free).2⟩
  | null =>
    refine .andThen (accounts_require tidy) fun _ => accounts_orError (by simp) fun _ => ?_
    exact Ty.ErrorFree.bool
  | ref =>
    refine accounts_orError (by simp) fun sound => ?_
    exact Ty.ErrorFree.ref_iff.mpr (tidy.errorFree (sound t (by simp)))
  | deref =>
    refine accounts_project tidy (fun _ => rfl) fun ref free => ?_
    cases t <;> simp [Ty.kind] at ref
    exact ⟨_, rfl, Ty.ErrorFree.ref_iff.mp free⟩
  | free =>
    refine .andThen (accounts_require tidy) fun _ => accounts_orError (by simp) fun _ => ?_
    exact Ty.ErrorFree.unit
  | eval => exact accounts_evalRule valid tidy

theorem accounts_elementType {elem : Option Ty} :
    Accounts ([·]) False (elementType anchor elem) := by
  cases elem with
  | none => exact .pureType Ty.ErrorFree.unresolved.tidy (by simp [Ty.isError, Ty.kind])
  | some t => exact accounts_written

theorem accounts_bindingType {binder : Binder} (tidy : t.Tidy) :
    Accounts ([·]) (t.isError = true) (bindingType binder anchor t) := by
  unfold bindingType
  split
  · exact .pureType tidy Iff.rfl
  · refine .congr (by simp) (.bind (t.isError = true) accounts_annotated fun declaredTidy => ?_)
    simpa using accounts_reconcile (declaredTidy _ (by simp)) tidy

/-! Expressions. -/

private theorem exists_mem_map {f : α → β} {as : List α} {holds : β → Prop} :
    (∃ b ∈ as.map f, holds b) ↔ ∃ a ∈ as, holds (f a) := by
  simp only [List.mem_map, exists_exists_and_eq_and]

/-- The name stands for an error. -/
def Erroneous (env : Env Ty) (name : String) : Prop :=
  ∃ message, env.lookup? name = some (.error message)

/-- Some name that the expression takes from its surroundings stands for an error. -/
def UsesError (env : Env Ty) (e : Expr) : Prop := ∃ name ∈ e.freeNames, Erroneous env name

/-- Beside an error among new bindings, what new names stand for makes no difference. -/
theorem erroneous_extendAll_iff {bound : List (String × Ty)} {used : List String} :
    ((∃ t ∈ bound.map Prod.snd, t.isError = true) ∨
      ∃ name ∈ used, Erroneous (env.extendAll bound) name) ↔
    ((∃ t ∈ bound.map Prod.snd, t.isError = true) ∨
      ∃ name ∈ used, name ∉ bound.map Prod.fst ∧ Erroneous env name) := by
  constructor
  · rintro (error | ⟨name, member, message, found⟩)
    · exact .inl error
    · rcases Env.of_lookup?_extendAll found with new | ⟨fresh, found⟩
      · exact .inl ⟨_, List.mem_map_of_mem new, rfl⟩
      · exact .inr ⟨name, member, fresh, message, found⟩
  · rintro (error | ⟨name, member, fresh, message, found⟩)
    · exact .inl error
    · refine .inr ⟨name, member, message, ?_⟩
      rw [Env.lookup?_extendAll_of_not_mem fresh, found]

/-- Names that are not bound inside are the ones that count. -/
theorem exists_mem_filter_iff {used names : List String} :
    (∃ name ∈ used.filter fun name => !names.contains name, Erroneous env name) ↔
      ∃ name ∈ used, name ∉ names ∧ Erroneous env name := by
  simp only [List.mem_filter, and_assoc, Bool.not_eq_true', List.contains_eq_mem,
    decide_eq_false_iff_not]

theorem accounts_exprs {es : List Expr}
    (each : ∀ e ∈ es, Accounts ([·]) (UsesError env e) (expr o env e)) :
    Accounts (List.map Prod.snd) (∃ e ∈ es, UsesError env e) (exprs o env es) := by
  induction es with
  | nil => exact .pure (by simp) (by simp)
  | cons e es ih =>
    have rest := ih fun e member => each e (List.mem_cons_of_mem _ member)
    rw [exprs_cons, List.exists_mem_cons_iff]
    refine .bind₂ (each e List.mem_cons_self) rest fun firstTidy restTidy =>
      .pure ?_ (by simp)
    simpa using ⟨firstTidy _ (by simp), by simpa using restTidy⟩

theorem accounts_operands {op : String} {index : Nat} {es : List Expr}
    (each : ∀ e ∈ es, Accounts ([·]) (UsesError env e) (expr o env e)) :
    Accounts id (∃ e ∈ es, UsesError env e) (operands o env op index es) := by
  induction es generalizing index with
  | nil => exact .pure (by simp) (by simp)
  | cons e es ih =>
    have first : Accounts ([·]) _ (expr o env e >>= operand index op e.token) :=
      (each e List.mem_cons_self).thenRule accounts_operand
    have rest : Accounts id _ (operands o env op (index + 1) es) :=
      ih fun e member => each e (List.mem_cons_of_mem _ member)
    rw [operands_cons, List.exists_mem_cons_iff]
    refine .bind₂ first rest fun firstTidy restTidy => .pure ?_ (by simp)
    simpa using ⟨firstTidy _ (by simp), restTidy⟩

theorem accounts_bindings {bound : List (Binder × Expr)}
    (each : ∀ binding ∈ bound, Accounts ([·]) (UsesError env binding.2) (expr o env binding.2)) :
    Accounts (List.map Prod.snd) (∃ binding ∈ bound, UsesError env binding.2)
      (bindings o env bound) := by
  induction bound with
  | nil => exact .pure (by simp) (by simp)
  | cons binding rest ih =>
    obtain ⟨binder, value⟩ := binding
    have first : Accounts ([·]) _ (expr o env value >>= bindingType binder value.token) :=
      (each _ List.mem_cons_self).thenRule accounts_bindingType
    have others := ih fun binding member => each binding (List.mem_cons_of_mem _ member)
    rw [bindings_cons, List.exists_mem_cons_iff]
    refine .bind₂ first others fun firstTidy othersTidy => .pure ?_ (by simp)
    simpa using ⟨firstTidy _ (by simp), by simpa using othersTidy⟩

theorem names_bindings {bound : List (Binder × Expr)} :
    (bindings o env bound).value.map (·.1) = bound.map (·.1.name) := by
  induction bound with
  | nil => rfl
  | cons binding rest ih =>
    obtain ⟨binder, value⟩ := binding
    simpa [bindings_cons] using ih

/-- The written types of binders have no errors but the noted ones. -/
theorem accounts_annotations {binders : List Binder} :
    Accounts id False (annotations binders) := by
  induction binders with
  | nil => exact .pure (by simp) (by simp)
  | cons binder binders ih =>
    refine .congr or_self_iff (.bind₂ accounts_annotated ih fun firstTidy restTidy =>
      .pure ?_ (by simp))
    simpa using ⟨firstTidy _ (by simp), restTidy⟩

theorem value_annotations {binders : List Binder} :
    (annotations binders).value = binders.map fun binder => (annotated binder).value := by
  induction binders with
  | nil => rfl
  | cons binder binders ih => simpa [annotations, Diagnosed.sequence] using ih

theorem length_annotations {binders : List Binder} :
    (annotations binders).value.length = (binders.map (·.name)).length := by
  simp [value_annotations]

theorem tidy_scope {binders : List Binder} (tidy : env.All Ty.Tidy) :
    (scope env binders (annotations binders).value).All Ty.Tidy := by
  refine tidy.extendAll (List.forall_mem_map.mp ?_)
  rw [List.map_snd_zip length_annotations.le]
  exact accounts_annotations.tidy

theorem erroneous_scope_iff {binders : List Binder} {used : List String} :
    ((∃ t ∈ (annotations binders).value, t.isError = true) ∨
      ∃ name ∈ used, Erroneous (scope env binders (annotations binders).value) name) ↔
    ((∃ t ∈ (annotations binders).value, t.isError = true) ∨
      ∃ name ∈ used.filter fun name => !(binders.map (·.name)).contains name,
        Erroneous env name) := by
  have inside := @erroneous_extendAll_iff env
    ((binders.map (·.name)).zip (annotations binders).value) used
  rw [List.map_fst_zip length_annotations.ge, List.map_snd_zip length_annotations.le] at inside
  rw [exists_mem_filter_iff]
  exact inside

theorem accounts_recursiveBindings {bound : List (Binder × Expr)}
    (each : ∀ binding ∈ bound, Accounts ([·]) (UsesError env binding.2) (expr o env binding.2)) :
    Accounts id ((∃ binding ∈ bound, (annotated binding.1).value.isError = true) ∨
      ∃ binding ∈ bound, UsesError env binding.2) (recursiveBindings o env bound) := by
  induction bound with
  | nil => exact .pure (by simp) (by simp)
  | cons binding rest ih =>
    obtain ⟨binder, value⟩ := binding
    have declaredTidy : (annotated binder).value.Tidy :=
      (Accounts.single_iff.mp accounts_annotated).1
    have first : Accounts ([·]) (UsesError env value ∨ (annotated binder).value.isError = true)
        (expr o env value >>=
          reconcile .letrec binder.name value.token (annotated binder).value) := by
      refine .bind _ (each _ List.mem_cons_self) fun gotTidy => ?_
      exact .congr (by simp [or_comm])
        (accounts_reconcile declaredTidy (gotTidy _ List.mem_cons_self))
    have others := ih fun binding member => each binding (List.mem_cons_of_mem _ member)
    rw [recursiveBindings_cons, List.exists_mem_cons_iff, List.exists_mem_cons_iff,
      or_or_or_comm]
    refine .congr (or_congr_left or_comm) (.bind₂ first others fun firstTidy othersTidy =>
      .pure ?_ (by simp))
    simpa using ⟨firstTidy _ (by simp), othersTidy⟩

theorem usesError_all {es : List Expr} :
    (∃ name ∈ Expr.freeNamesAll es, Erroneous env name) ↔ ∃ e ∈ es, UsesError env e := by
  simp only [Expr.mem_freeNamesAll, UsesError]
  constructor
  · rintro ⟨name, ⟨e, member, free⟩, error⟩
    exact ⟨e, member, name, free, error⟩
  · rintro ⟨e, member, name, free, error⟩
    exact ⟨name, ⟨e, member, free⟩, error⟩

theorem usesError_values {bound : List (Binder × Expr)} :
    (∃ name ∈ Expr.freeNamesValues bound, Erroneous env name) ↔
      ∃ binding ∈ bound, UsesError env binding.2 := by
  simp only [Expr.mem_freeNamesValues, UsesError]
  constructor
  · rintro ⟨name, ⟨binding, member, free⟩, error⟩
    exact ⟨binding, member, name, free, error⟩
  · rintro ⟨binding, member, name, free, error⟩
    exact ⟨name, ⟨binding, member, free⟩, error⟩

theorem accounts_binary {token : Token} {op : BinaryOp} {left right : Expr}
    (leftAccounts : Accounts ([·]) (UsesError env left) (expr o env left))
    (rightAccounts : Accounts ([·]) (UsesError env right) (expr o env right)) :
    Accounts ([·]) (UsesError env left ∨ UsesError env right)
      (expr o env (.binary token op left right)) := by
  have numeric : ∀ result, op.numericResult? = some result → result.ErrorFree →
      Accounts ([·]) (UsesError env left ∨ UsesError env right)
        (expr o env (.binary token op left right)) := by
    intro result numeric free
    rw [expr_numeric numeric]
    exact .bind₂ (leftAccounts.thenRule accounts_operand)
      (rightAccounts.thenRule accounts_operand) fun _ _ => accounts_orError (by simp) fun _ => free
  cases op with
  | cons =>
    rw [expr_cons]
    refine .bind₂ leftAccounts rightAccounts fun leftTidy rightTidy =>
      accounts_orError (by simp) fun sound => ?_
    rw [Ty.ErrorFree.pair_iff]
    exact ⟨(leftTidy _ (by simp)).errorFree (sound _ (by simp)),
      (rightTidy _ (by simp)).errorFree (sound _ (by simp))⟩
  | assign =>
    rw [expr_assign]
    refine .bind₂ (leftAccounts.thenRule accounts_reference) rightAccounts
      fun locationTidy storedTidy => .congr (by simp) (accounts_assignRule
        (locationTidy _ (by simp)) ?_ (storedTidy _ (by simp)))
    exact isError_or_kind_reference
  | sub | mul | div => exact numeric _ rfl Ty.ErrorFree.num
  | less | greater | equal => exact numeric _ rfl Ty.ErrorFree.bool

theorem accounts_expr (valid : o.problem? = none) (e : Expr) (tidy : env.All Ty.Tidy) :
    Accounts ([·]) (UsesError env e) (expr o env e) := by
  induction e using Expr.induction generalizing env with
  | absent => exact .report
  | number | string | bool | unit =>
    exact .pureType (.inr rfl) (by simp [UsesError, Expr.freeNames, Ty.isError, Ty.kind])
  | broken => exact .report
  | var token name =>
    rw [expr_var]
    cases found : env.lookup? name with
    | none => exact .report
    | some t =>
      refine .pureType (tidy name t found) ?_
      simp only [UsesError, Expr.freeNames, List.mem_singleton, exists_eq_left, Erroneous, found,
        Option.some.injEq]
      exact ⟨Ty.eq_error_of_isError, by rintro ⟨message, rfl⟩; rfl⟩
  | add token operands ih =>
    rw [expr_add]
    refine .andThen (.congr ?_ (accounts_operands fun e member => ih e member tidy)) fun _ =>
      accounts_orError (by simp) fun _ => Ty.ErrorFree.num
    exact usesError_all.symm
  | binary token op left right ihLeft ihRight =>
    refine .congr ?_ (accounts_binary (ihLeft tidy) (ihRight tidy))
    simp only [UsesError, Expr.freeNames, List.mem_append, or_and_right, exists_or]
  | unary token op operand ih =>
    rw [expr_unary]
    exact (ih tidy).thenRule (accounts_unaryRule valid)
  | branch token cond yes no ihCond ihYes ihNo =>
    rw [expr_branch]
    refine .congr ?_ (.bind₃ (ihCond tidy) (ihYes tidy) (ihNo tidy)
      fun condTidy yesTidy noTidy => .congr (by simp) (accounts_branchRule
        (condTidy _ (by simp)) (yesTidy _ (by simp)) (noTidy _ (by simp))))
    simp only [UsesError, Expr.freeNames, List.mem_append, or_and_right, exists_or, or_assoc]
  | letIn token bound body ihBound ihBody =>
    have values := accounts_bindings fun binding member => ihBound binding member tidy
    rw [expr_letIn]
    refine .congr ?_ (.bind (∃ name ∈ body.freeNames, name ∉ bound.map (·.1.name) ∧
      Erroneous env name) values fun typesTidy => ?_)
    · rw [← usesError_values, ← exists_mem_filter_iff]
      simp only [UsesError, Expr.freeNames, List.mem_append, or_and_right, exists_or]
    · have inner := ihBody (tidy.extendAll (List.forall_mem_map.mp typesTidy))
      rw [← names_bindings, ← erroneous_extendAll_iff, or_comm]
      refine .bind _ inner fun bodyTidy => .pureType ?_ ?_
      · exact tidy_orError fun _ => bodyTidy _ (by simp)
      · rw [isError_orError, or_comm]
        simp only [List.mem_singleton, exists_eq_left]
  | letrec token bound body ihBound ihBody =>
    have innerTidy := @tidy_scope env (bound.map (·.1)) tidy
    have values :=
      accounts_recursiveBindings fun binding member => ihBound binding member innerTidy
    have annotatedIff : (∃ binding ∈ bound, (annotated binding.1).value.isError = true) ↔
        ∃ t ∈ (annotations (bound.map (·.1))).value, t.isError = true := by
      simp [value_annotations]
    rw [annotatedIff] at values
    rw [expr_letrec]
    refine .congr (by rw [false_or]) (.bind (UsesError env (.letrec token bound body))
      accounts_annotations fun typesTidy => .congr ?_ (.bind₂ values (ihBody innerTidy)
        fun valuesTidy bodyTidy => .pureType (tidy_orError fun _ => bodyTidy _ (by simp)) ?_))
    · have uses := @erroneous_scope_iff env (bound.map (·.1))
        (Expr.freeNamesValues bound ++ body.freeNames)
      simp only [List.map_map, Function.comp_def] at uses
      rw [UsesError, UsesError, Expr.freeNames, id_eq, ← usesError_values, or_assoc]
      simpa only [List.mem_append, or_and_right, exists_or] using uses
    · have absorbed : (∃ t ∈ (annotations (bound.map (·.1))).value, t.isError = true) →
          ∃ t ∈ (recursiveBindings o (scope env (bound.map (·.1))
            (annotations (bound.map (·.1))).value) bound).value, t.isError = true :=
        fun error => values.errorIff.mpr (.inr (.inl error))
      simp only [isError_orError, List.mem_append, or_and_right, exists_or, List.mem_singleton,
        exists_eq_left, id_eq]
      rw [or_iff_right_of_imp absorbed]
  | lambda token params body ih =>
    rw [expr_lambda]
    refine .congr (by rw [false_or]) (.bind (UsesError env (.lambda token params body))
      accounts_annotations fun typesTidy => ?_)
    rw [id_eq, UsesError, Expr.freeNames, ← erroneous_scope_iff, or_comm]
    refine .bind _ (ih (tidy_scope tidy)) fun bodyTidy => accounts_orError ?_ fun sound => ?_
    · simp [or_comm, or_and_right, exists_or]
    · rw [Ty.ErrorFree.func_iff]
      refine ⟨fun t member => (typesTidy t member).errorFree (sound t ?_), ?_⟩
      · exact List.mem_append_left _ member
      · exact (bodyTidy _ (by simp)).errorFree (sound _ (by simp))
  | call token operator args ihOperator ihArgs =>
    rw [expr_call]
    refine .congr ?_ (.bind₂ (ihOperator tidy)
      (accounts_exprs fun e member => ihArgs e member tidy) fun calleeTidy argsTidy => ?_)
    · rw [← usesError_all]
      simp only [UsesError, Expr.freeNames, List.mem_append, or_and_right, exists_or]
    · rw [exists_mem_map]
      exact .congr (by simp) (accounts_callRule (calleeTidy _ (by simp))
        (List.forall_mem_map.mp argsTidy))
  | list token elem elems ih =>
    rw [expr_list]
    refine .congr ?_ (.bind₂ accounts_elementType
      (accounts_exprs fun e member => ih e member tidy) fun elemTidy elemsTidy => ?_)
    · rw [← usesError_all, false_or]
      rfl
    · rw [exists_mem_map]
      exact .congr (by simp) (accounts_listRule (elemTidy _ (by simp))
        (List.forall_mem_map.mp elemsTidy))
  | read token =>
    have free := (Options.readType_of_valid valid).2
    exact .pureType free.tidy (by simp [UsesError, Expr.freeNames, free.isError_eq_false])
  | readFrom token source ih =>
    rw [expr_readFrom]
    exact ((ih tidy).thenRule accounts_require).thenRule fun _ =>
      accounts_orError (by simp) fun _ => (Options.readType_of_valid valid).2

theorem tidy_expr (valid : o.problem? = none) (e : Expr) (tidy : env.All Ty.Tidy) :
    (expr o env e).value.Tidy :=
  (Accounts.single_iff.mp (accounts_expr valid e tidy)).1

theorem isError_expr_iff (valid : o.problem? = none) (e : Expr) (tidy : env.All Ty.Tidy) :
    (expr o env e).value.isError = true ↔ (expr o env e).notes ≠ [] ∨ UsesError env e :=
  (Accounts.single_iff.mp (accounts_expr valid e tidy)).2

/-! Programs. A definition that goes wrong leaves an error in the environment, but never without
a note; so the errors that a program starts with none of are all noted. -/

theorem erroneous_of_extend {name used : String} (error : Erroneous (env.extend name t) used) :
    t.isError = true ∨ Erroneous env used := by
  obtain ⟨message, found⟩ := error
  rw [Env.lookup?_extend] at found
  split at found
  · obtain rfl := Option.some.inj found
    exact .inl rfl
  · exact .inr ⟨message, found⟩

theorem erroneous_decl (valid : o.problem? = none) {d : Decl} (tidy : env.All Ty.Tidy) :
    (decl o env d).value.2.All Ty.Tidy ∧ ∀ used, Erroneous (decl o env d).value.2 used →
      (decl o env d).notes ≠ [] ∨ ∃ used, Erroneous env used := by
  unfold decl
  split
  next =>
    refine ⟨tidy.extend (tidy_expr valid d.value tidy), fun used error => ?_⟩
    rcases erroneous_of_extend error with error | error
    · rcases (isError_expr_iff valid d.value tidy).mp error with noted | ⟨name, _, error⟩
      · exact .inl (by simpa using noted)
      · exact .inr ⟨name, error⟩
    · exact .inr ⟨used, error⟩
  next =>
    obtain ⟨declaredTidy, errorIff⟩ :=
      Accounts.single_iff.mp (accounts_annotated : Accounts ([·]) False (annotated d.binder))
    refine ⟨tidy.extend declaredTidy, fun used error => ?_⟩
    rcases erroneous_of_extend error with error | error
    · have noted : (annotated d.binder).notes ≠ [] := by simpa using errorIff.mp error
      exact .inl (by simp [noted])
    · exact .inr ⟨used, error⟩

theorem erroneous_decls (valid : o.problem? = none) {ds : List Decl} (tidy : env.All Ty.Tidy) :
    (decls o env ds).value.All Ty.Tidy ∧ ∀ used, Erroneous (decls o env ds).value used →
      (decls o env ds).notes ≠ [] ∨ ∃ used, Erroneous env used := by
  induction ds generalizing env with
  | nil => exact ⟨tidy, fun used error => .inr ⟨used, error⟩⟩
  | cons d ds ih =>
    obtain ⟨firstTidy, first⟩ := @erroneous_decl o env valid d tidy
    obtain ⟨restTidy, rest⟩ := ih firstTidy
    refine ⟨restTidy, fun used error => ?_⟩
    rw [decls, Diagnosed.notes_bind, ne_eq, List.append_eq_nil_iff, not_and_or, or_assoc]
    rcases rest used error with noted | ⟨used, error⟩
    · exact .inr (.inl noted)
    · rcases first used error with noted | error
      · exact .inl noted
      · exact .inr (.inr error)

/-- An error type and a note always come together. For an expression, the error may also be that
of a name; a program has no names but its own, so the last resort of a failure without notes is
never taken. -/
theorem error_iff_noted (valid : o.problem? = none) :
    (∀ (env : Env Ty) (e : Expr), env.All Ty.Tidy →
      ((expr o env e).value.isError = true ↔ (expr o env e).notes ≠ [] ∨
        ∃ name ∈ e.freeNames, ∃ message, env.lookup? name = some (.error message))) ∧
    ∀ p : Program,
      ((program o .empty p).value.1.isError = true → (program o .empty p).notes ≠ []) ∧
      (failure? (program o .empty p).value.1 (program o .empty p).notes = none ↔
        (program o .empty p).notes = []) := by
  refine ⟨fun env e tidy => (Accounts.single_iff.mp (accounts_expr valid e tidy)).2, fun p => ?_⟩
  have noted : (program o .empty p).value.1.isError = true → (program o .empty p).notes ≠ [] := by
    obtain ⟨tidy, defined⟩ := @erroneous_decls o .empty valid p.decls Env.All.empty
    obtain ⟨_, errorIff⟩ := Accounts.single_iff.mp (accounts_expr valid p.result tidy)
    intro error
    simp only [program, Diagnosed.notes_bind, Diagnosed.notes_pure, List.append_nil, ne_eq,
      List.append_eq_nil_iff, not_and_or]
    rcases errorIff.mp error with noted | ⟨name, _, error⟩
    · exact .inr noted
    · rcases defined name error with noted | ⟨used, message, found⟩
      · exact .inl noted
      · simp at found
  refine ⟨noted, ?_⟩
  unfold failure?
  cases notes : (program o .empty p).notes with
  | nil =>
    have sound : (program o .empty p).value.1.isError = false :=
      Bool.eq_false_iff.mpr fun error => noted error notes
    simp [sound]
  | cons first rest => simp

/-- A branch that is an error by its name alone is one without a note, while a program cannot be
one without. -/
theorem error_iff_noted_of_erroneous_name :
    Options.standard.problem? = none ∧ (Env.empty.extend "x" (.error "lost")).All Ty.Tidy ∧
    (expr .standard (Env.empty.extend "x" (.error "lost")) (.branch .nowhere (.bool .nowhere true)
      (.var .nowhere "x") (.string .nowhere "a"))).value.isError = true ∧
    (program .standard .empty
      ⟨[⟨.nowhere, ⟨.nowhere, "x", none⟩, .var .nowhere "y"⟩], .var .nowhere "x"⟩).notes ≠ [] := by
  have tidy : (Env.empty.extend "x" (.error "lost")).All Ty.Tidy :=
    Env.All.empty.extend (Ty.tidy_error _)
  refine ⟨rfl, tidy, ?_, ?_⟩
  · exact ((error_iff_noted rfl).1 _ _ tidy).mpr (.inr ⟨"x", by simp [Expr.freeNames], "lost", rfl⟩)
  · exact ((error_iff_noted rfl).2 _).1 rfl

end Check

end TypedForms
