import TypedForms.Proofs.Check.Absorption
import TypedForms.Proofs.Diagnosed
import TypedForms.Proofs.Typing

/-! The checker decides the typing rules: where no name stands for a type with an error in it, an
expression is checked without a note, and found to have a type, exactly when the rules give it
that type. -/
namespace TypedForms

theorem Ty.agrees_iff_compatible {t u : Ty} : t.Agrees u ↔ t.compatible u = true :=
  compatible_iff_exists_le.symm

namespace Check

variable {o : Options} {env : Env Ty} {form anchor : Token} {cause : TypeError} {t u result : Ty}

/-! What each rule lets through. -/

@[simp] theorem report_ne_pure : ¬ report anchor cause = pure t :=
  Diagnosed.note_bind_ne_pure

theorem report_bind_ne_pure {α : Type} {f : Ty → Checked α} {a : α} :
    ¬ (report anchor cause >>= f) = pure a := by
  intro clean
  obtain ⟨_, reported, _⟩ := Diagnosed.bind_eq_pure_iff.mp clean
  exact report_ne_pure reported

theorem orError_eq_self {parts : List Ty} (sound : ∀ part ∈ parts, part.isError = false) :
    orError parts t = t := by
  rw [orError, Ty.firstError?_eq_none_iff.mpr sound]

theorem require_eq_pure_iff {fits : Bool} (free : t.ErrorFree) :
    require anchor t fits cause = pure u ↔ fits = true ∧ t = u := by
  rw [require, free.isError_eq_false, Bool.false_or]
  cases fits <;> simp

theorem operand_eq_pure_iff {index : Nat} {op : String} (free : t.ErrorFree) :
    operand index op anchor t = pure u ↔ t = .num ∧ u = .num := by
  rw [operand, require_eq_pure_iff free]
  cases t <;> simp only [Ty.kind, @eq_comm _ u] <;> simp

theorem reference_eq_pure_iff {op : String} (free : t.ErrorFree) :
    reference op anchor t = pure u ↔ t = u ∧ ∃ elem, t = .ref elem := by
  rw [reference, require_eq_pure_iff free]
  cases t <;> simp [Ty.kind]

theorem written_eq_pure_iff : written anchor t = pure u ↔ t = u ∧ t.ErrorFree := by
  unfold written
  cases found : t.contains .error <;> simp [Ty.ErrorFree, found]

theorem annotated_eq_pure_iff {binder : Binder} :
    annotated binder = pure t ↔ binder.Declares t := by
  unfold annotated Binder.Declares
  split
  next bare => simp [bare]
  next u written =>
    rw [written_eq_pure_iff, written, Option.some.injEq]
    constructor
    · rintro ⟨rfl, free⟩
      exact ⟨rfl, free⟩
    · rintro ⟨rfl, free⟩
      exact ⟨rfl, free⟩

theorem reconcile_eq_pure_iff {kind : BindingForm} {name : String} {declared got : Ty}
    (declaredFree : declared.ErrorFree) (gotFree : got.ErrorFree) :
    reconcile kind name anchor declared got = pure t ↔ declared.Agrees got ∧ declared = t := by
  unfold reconcile
  simp only [declaredFree.isError_eq_false, gotFree.isError_eq_false, Ty.agrees_iff_compatible,
    Bool.false_eq_true, if_false]
  split
  next compatible => simp [compatible]
  next clash =>
    simp only [clash, Bool.false_eq_true, false_and, iff_false]
    split
    · split <;> exact report_ne_pure
    · exact report_ne_pure

theorem unaryRule_eq_pure_iff {op : UnaryOp} (valid : o.problem? = none) (free : t.ErrorFree) :
    unaryRule o form op anchor t = pure result ↔ UnaryOp.Types o op t result := by
  have sound := free.isError_eq_false
  constructor
  · intro clean
    cases op with
    | car | cdr | deref =>
      obtain ⟨_, passed, clean⟩ := Diagnosed.bind_eq_pure_iff.mp clean
      obtain ⟨fits, rfl⟩ := (require_eq_pure_iff free).mp passed
      cases t <;> simp [Ty.kind] at fits
      obtain rfl := Diagnosed.pure_inj.mp clean
      constructor
    | null | free =>
      obtain ⟨_, passed, clean⟩ := Diagnosed.bind_eq_pure_iff.mp clean
      obtain ⟨fits, rfl⟩ := (require_eq_pure_iff free).mp passed
      cases t <;> simp [Ty.kind] at fits
      obtain rfl := Diagnosed.pure_inj.mp clean
      constructor
    | ref =>
      obtain rfl := Diagnosed.pure_inj.mp clean
      rw [orError_eq_self (by simpa using sound)]
      exact .ref
    | eval =>
      simp only [unaryRule, evalRule, sound, Bool.false_eq_true, if_false] at clean
      split at clean
      next dynamic =>
        obtain ⟨_, passed, clean⟩ := Diagnosed.bind_eq_pure_iff.mp clean
        obtain ⟨fits, rfl⟩ := (require_eq_pure_iff free).mp passed
        cases t <;> simp [Ty.kind] at fits
        obtain rfl := Diagnosed.pure_inj.mp clean
        exact .eval dynamic (Options.evalType_of_valid valid dynamic).1
      next => exact absurd clean report_ne_pure
  · intro types
    cases types with
    | car | cdr | null | deref | free => rfl
    | ref => rw [unaryRule, orError_eq_self (by simpa using sound)]
    | eval dynamic configured =>
      have result : o.evalResult = result := by
        rw [Options.evalResult, configured, Option.getD_some]
      simp only [unaryRule, evalRule, sound, Bool.false_eq_true, if_false, dynamic, result]
      rfl

theorem isLUB_pair_iff {yes no : Ty} (yesFree : yes.ErrorFree) (noFree : no.ErrorFree) :
    IsLUB {yes, no} t ↔ yes.compatible no = true ∧ joined yes no = pure t := by
  constructor
  · intro least
    have yesLe : yes ≤ t := least.1 (by simp)
    have noLe : no ≤ t := least.1 (by simp)
    have compatible := Ty.compatible_of_le yesLe noLe
    obtain ⟨j, joined, found⟩ := exists_joined compatible
    have free := yesFree.join? noFree found
    obtain rfl : j = t := free.eq_of_isLUB (Ty.isLUB_join? compatible found) least
    exact ⟨compatible, joined⟩
  · rintro ⟨compatible, clean⟩
    obtain ⟨j, joined, found⟩ := exists_joined compatible
    rw [joined, Diagnosed.pure_inj] at clean
    subst clean
    exact Ty.isLUB_join? compatible found

theorem branchRule_eq_pure_iff {condition : Token} {cond yes no : Ty} (condFree : cond.ErrorFree)
    (yesFree : yes.ErrorFree) (noFree : no.ErrorFree) :
    branchRule form condition cond yes no = pure t ↔ cond = .bool ∧ IsLUB {yes, no} t := by
  have sound : Ty.firstError? [yes, no] = none := by
    rw [Ty.firstError?_eq_none_iff]
    simpa using ⟨yesFree.isError_eq_false, noFree.isError_eq_false⟩
  have boolIff : (cond.kind == .bool) = true ↔ cond = .bool := by
    cases cond <;> simp [Ty.kind]
  rw [branchRule, Diagnosed.bind_eq_pure_iff, isLUB_pair_iff yesFree noFree]
  simp only [require_eq_pure_iff condFree, boolIff, sound]
  constructor
  · rintro ⟨_, ⟨rfl, rfl⟩, clean⟩
    split at clean
    next compatible => exact ⟨rfl, compatible, clean⟩
    next => exact absurd clean report_bind_ne_pure
  · rintro ⟨rfl, compatible, clean⟩
    refine ⟨.bool, ⟨rfl, rfl⟩, ?_⟩
    rw [if_pos compatible]
    exact clean

theorem arguments_eq_pure_iff {index : Nat} {params : List Ty} {args : List (Token × Ty)}
    {found : List Ty} (count : args.length = params.length)
    (free : ∀ arg ∈ args, arg.2.ErrorFree) :
    arguments index params args = pure found ↔
      List.Forall₂ Ty.Agrees params (args.map (·.2)) ∧ args.map (·.2) = found := by
  induction args generalizing index params found with
  | nil =>
    obtain rfl := List.length_eq_zero_iff.mp count.symm
    simp [arguments]
  | cons arg args ih =>
    obtain ⟨anchor, arg⟩ := arg
    obtain ⟨param, params, rfl⟩ := List.exists_cons_of_length_eq_add_one count.symm
    have argFree : arg.ErrorFree := free _ List.mem_cons_self
    have rest : ∀ {others}, arguments (index + 1) params args = pure others ↔ _ :=
      ih (by simpa using count) fun arg member => free arg (List.mem_cons_of_mem _ member)
    simp only [arguments, Diagnosed.bind_eq_pure_iff, Diagnosed.pure_inj, rest,
      require_eq_pure_iff argFree, List.map_cons, List.forall₂_cons, Ty.agrees_iff_compatible]
    constructor
    · rintro ⟨_, ⟨fits, rfl⟩, _, ⟨others, rfl⟩, rfl⟩
      exact ⟨⟨fits, others⟩, rfl⟩
    · rintro ⟨⟨fits, others⟩, rfl⟩
      exact ⟨arg, ⟨fits, rfl⟩, _, ⟨others, rfl⟩, rfl⟩

theorem callRule_eq_pure_iff {operator : Token} {callee : Ty} {args : List (Token × Ty)}
    (calleeFree : callee.ErrorFree) (free : ∀ arg ∈ args, arg.2.ErrorFree) :
    callRule form operator callee args = pure result ↔
      ∃ params, callee = .func params result ∧
        List.Forall₂ Ty.Agrees params (args.map (·.2)) := by
  cases callee with
  | func params found =>
    have foundSound : found.isError = false :=
      (Ty.ErrorFree.func_iff.mp calleeFree).2.isError_eq_false
    have absorbs : orError (found :: args.map (·.2)) found = found := by
      refine orError_eq_self (List.forall_mem_cons.mpr ⟨foundSound, List.forall_mem_map.mpr ?_⟩)
      exact fun arg member => (free arg member).isError_eq_false
    rw [callRule]
    split
    next count =>
      simp only [Diagnosed.bind_eq_pure_iff, arguments_eq_pure_iff count free, Diagnosed.pure_inj]
      constructor
      · rintro ⟨_, ⟨fit, rfl⟩, clean⟩
        obtain rfl : found = result := absorbs.symm.trans clean
        exact ⟨params, rfl, fit⟩
      · rintro ⟨_, same, fit⟩
        obtain ⟨rfl, rfl⟩ := Ty.func.inj same
        exact ⟨_, ⟨fit, rfl⟩, absorbs⟩
    next miscount =>
      refine iff_of_false report_ne_pure ?_
      rintro ⟨_, same, fit⟩
      obtain ⟨rfl, rfl⟩ := Ty.func.inj same
      exact miscount (by simpa using fit.length_eq.symm)
  | error message => simp at calleeFree
  | _ => simp [callRule]

/-- Joining one element after the other gives the least upper bound of them all at once. -/
theorem elements_eq_pure_iff {index : Nat} {elem final : Ty} {types : List (Token × Ty)}
    {errors : List Ty} (elemFree : elem.ErrorFree) (free : ∀ t ∈ types, t.2.ErrorFree) :
    elements index elem types = pure (errors, final) ↔
      errors = [] ∧ IsLUB (insert elem {t | t ∈ types.map (·.2)}) final := by
  induction types generalizing index elem with
  | nil =>
    have least : IsLUB (insert elem {t | t ∈ ([] : List (Token × Ty)).map (·.2)}) final ↔
        elem = final := by
      have single : insert elem {t | t ∈ ([] : List (Token × Ty)).map (·.2)} = {elem} := by simp
      rw [single]
      constructor
      · exact elemFree.eq_of_isLUB isLUB_singleton
      · rintro rfl
        exact isLUB_singleton
    rw [least, elements, Diagnosed.pure_inj, Prod.mk.injEq, eq_comm]
  | cons t types ih =>
    obtain ⟨anchor, t⟩ := t
    have tFree : t.ErrorFree := free _ List.mem_cons_self
    have restFree : ∀ t ∈ types, t.2.ErrorFree :=
      fun t member => free t (List.mem_cons_of_mem _ member)
    have parts : {u | u ∈ ((anchor, t) :: types).map (·.2)} =
        insert t {u | u ∈ types.map (·.2)} := by
      ext u
      simp
    rw [elements, tFree.isError_eq_false, elemFree.isError_eq_false, parts]
    simp only [Bool.or_self, Bool.false_eq_true, if_false]
    split
    next compatible =>
      obtain ⟨j, joined, found⟩ := exists_joined compatible
      rw [joined, pure_bind, ih (elemFree.join? tFree found) restFree,
        Ty.isLUB_insert_join (Ty.isLUB_join? compatible found)]
    next clash =>
      refine iff_of_false report_bind_ne_pure ?_
      rintro ⟨_, bounds, _⟩
      exact clash (Ty.compatible_of_le (bounds (by simp)) (bounds (by simp)))

theorem listRule_eq_pure_iff {elem : Ty} {types : List (Token × Ty)} (elemFree : elem.ErrorFree)
    (free : ∀ t ∈ types, t.2.ErrorFree) :
    listRule elem types = pure result ↔
      ∃ t, IsLUB (insert elem {u | u ∈ types.map (·.2)}) t ∧ result = .list t := by
  have absorbs : ∀ t, orError [elem] (.list t) = .list t := by
    intro t
    exact orError_eq_self (by simpa using elemFree.isError_eq_false)
  rw [listRule, Diagnosed.bind_eq_pure_iff]
  constructor
  · rintro ⟨⟨errors, final⟩, clean, same⟩
    obtain ⟨rfl, least⟩ := (elements_eq_pure_iff elemFree free).mp clean
    rw [Diagnosed.pure_inj, absorbs] at same
    exact ⟨final, least, same.symm⟩
  · rintro ⟨t, least, rfl⟩
    exact ⟨([], t), (elements_eq_pure_iff elemFree free).mpr ⟨rfl, least⟩,
      Diagnosed.pure_inj.mpr (absorbs t)⟩

theorem elementType_eq_pure_iff {elem : Option Ty} :
    elementType anchor elem = pure t ↔
      elem.getD .unresolved = t ∧ ∀ a, elem = some a → a.ErrorFree := by
  cases elem with
  | none => simp [elementType]
  | some a => simp [elementType, written_eq_pure_iff]

/-- What is not written does not count among the bounds. -/
theorem isLUB_written_iff {elem : Option Ty} {others : Set Ty} :
    IsLUB (insert (elem.getD .unresolved) others) t ↔ IsLUB ({a | elem = some a} ∪ others) t := by
  have same : upperBounds (insert (elem.getD .unresolved) others) =
      upperBounds ({a | elem = some a} ∪ others) := by
    ext bound
    cases elem with
    | none =>
      have bottom : Ty.unresolved ≤ bound := bot_le
      simp [mem_upperBounds, bottom]
    | some a => simp [mem_upperBounds]
  unfold IsLUB
  rw [same]

theorem bindingType_eq_pure_iff {binder : Binder} {got : Ty} (free : got.ErrorFree) :
    bindingType binder anchor got = pure t ↔
      binder.type = none ∧ got = t ∨ binder.Declares t ∧ t.Agrees got := by
  unfold bindingType
  split
  next bare => simp [bare, Binder.Declares]
  next written =>
    simp only [Diagnosed.bind_eq_pure_iff, annotated_eq_pure_iff]
    constructor
    · rintro ⟨declared, declares, clean⟩
      obtain ⟨fits, rfl⟩ := (reconcile_eq_pure_iff declares.2 free).mp clean
      exact .inr ⟨declares, fits⟩
    · rintro (⟨bare, _⟩ | ⟨declares, fits⟩)
      · simp [written] at bare
      · exact ⟨t, declares, (reconcile_eq_pure_iff declares.2 free).mpr ⟨fits, rfl⟩⟩

theorem annotations_eq_pure_iff {binders : List Binder} {types : List Ty} :
    annotations binders = pure types ↔ List.Forall₂ Binder.Declares binders types := by
  rw [annotations, Diagnosed.sequence_eq_pure_iff, List.forall₂_map_left_iff]
  simp only [annotated_eq_pure_iff]

/-! Expressions. -/

/-- What the checker finds without a note for an expression is what the rules give it. -/
def Decides (o : Options) (env : Env Ty) (e : Expr) : Prop :=
  ∀ t, expr o env e = pure t ↔ HasType o env.lookup? e t

/-- Without errors among the names, none comes out of an expression that is in order. -/
theorem errorFree_of_clean {e : Expr} (valid : o.problem? = none) (free : env.All Ty.ErrorFree)
    (clean : expr o env e = pure t) : t.ErrorFree := by
  have tidy : env.All Ty.Tidy := fun name t found => (free name t found).tidy
  have resultTidy := tidy_expr valid e tidy
  have errorIff := isError_expr_iff valid e tidy
  rw [clean] at resultTidy errorIff
  refine resultTidy.errorFree (Bool.eq_false_iff.mpr fun error => ?_)
  rcases errorIff.mp error with noted | ⟨name, _, message, found⟩
  · exact noted rfl
  · exact Ty.ErrorFree.not_error message (free name _ found)

section

variable {token : Token} (valid : o.problem? = none) (free : env.All Ty.ErrorFree)
include valid free

theorem operands_eq_pure_iff {op : String} {index : Nat} {es : List Expr} {found : List Ty} :
    operands o env op index es = pure found ↔
      (∀ e ∈ es, expr o env e = pure .num) ∧ (es.map fun _ => .num) = found := by
  induction es generalizing index found with
  | nil => simp [operands]
  | cons e es ih =>
    simp only [operands_cons, Diagnosed.bind_eq_pure_iff, Diagnosed.pure_inj, ih,
      List.forall_mem_cons, List.map_cons]
    constructor
    · rintro ⟨_, ⟨t, clean, passed⟩, _, ⟨rest, rfl⟩, rfl⟩
      obtain ⟨rfl, rfl⟩ := (operand_eq_pure_iff (errorFree_of_clean valid free clean)).mp passed
      exact ⟨⟨clean, rest⟩, rfl⟩
    · rintro ⟨⟨clean, rest⟩, rfl⟩
      exact ⟨.num, ⟨.num, clean, rfl⟩, _, ⟨rest, rfl⟩, rfl⟩

theorem decides_add {addends : List Expr} (each : ∀ e ∈ addends, Decides o env e) :
    Decides o env (.add token addends) := by
  intro t
  have absorbs : orError (addends.map fun _ => .num) .num = .num :=
    orError_eq_self (List.forall_mem_map.mpr fun _ _ => rfl)
  rw [expr_add, Diagnosed.bind_eq_pure_iff]
  constructor
  · rintro ⟨_, clean, same⟩
    obtain ⟨nums, rfl⟩ := (operands_eq_pure_iff valid free).mp clean
    obtain rfl := absorbs.symm.trans (Diagnosed.pure_inj.mp same)
    exact .add fun e member => (each e member _).mp (nums e member)
  · intro typed
    cases typed with | add nums =>
    have clean : ∀ e ∈ addends, expr o env e = pure .num :=
      fun e member => (each e member _).mpr (nums e member)
    exact ⟨_, (operands_eq_pure_iff valid free).mpr ⟨clean, rfl⟩, Diagnosed.pure_inj.mpr absorbs⟩

theorem decides_numeric {op : BinaryOp} {left right : Expr} (ihLeft : Decides o env left)
    (ihRight : Decides o env right) (numeric : op.numericResult? = some result)
    (typesIff : ∀ {t u v}, op.Types t u v ↔ t = .num ∧ u = .num ∧ v = result) :
    Decides o env (.binary token op left right) := by
  intro t
  simp only [expr_numeric numeric, Diagnosed.bind_eq_pure_iff]
  constructor
  · rintro ⟨_, ⟨_, leftClean, leftNum⟩, _, ⟨_, rightClean, rightNum⟩, same⟩
    obtain ⟨rfl, rfl⟩ :=
      (operand_eq_pure_iff (errorFree_of_clean valid free leftClean)).mp leftNum
    obtain ⟨rfl, rfl⟩ :=
      (operand_eq_pure_iff (errorFree_of_clean valid free rightClean)).mp rightNum
    obtain rfl := Diagnosed.pure_inj.mp same
    exact .binary ((ihLeft _).mp leftClean) ((ihRight _).mp rightClean)
      (typesIff.mpr ⟨rfl, rfl, rfl⟩)
  · intro typed
    cases typed with | binary leftType rightType types =>
    obtain ⟨rfl, rfl, rfl⟩ := typesIff.mp types
    exact ⟨.num, ⟨_, (ihLeft _).mpr leftType, rfl⟩, .num, ⟨_, (ihRight _).mpr rightType, rfl⟩,
      rfl⟩

theorem decides_cons {left right : Expr} (ihLeft : Decides o env left)
    (ihRight : Decides o env right) : Decides o env (.binary token .cons left right) := by
  intro t
  have absorbs : ∀ {t u}, expr o env left = pure t → expr o env right = pure u →
      orError [t, u] (.pair t u) = .pair t u := by
    intro t u leftClean rightClean
    have leftFree := errorFree_of_clean valid free leftClean
    have rightFree := errorFree_of_clean valid free rightClean
    exact orError_eq_self (by simpa using ⟨leftFree.isError_eq_false, rightFree.isError_eq_false⟩)
  simp only [expr_cons, Diagnosed.bind_eq_pure_iff, Diagnosed.pure_inj]
  constructor
  · rintro ⟨_, leftClean, _, rightClean, same⟩
    rw [absorbs leftClean rightClean] at same
    subst same
    exact .binary ((ihLeft _).mp leftClean) ((ihRight _).mp rightClean) .cons
  · intro typed
    cases typed with | binary leftType rightType types =>
    cases types with | cons =>
    have leftClean := (ihLeft _).mpr leftType
    have rightClean := (ihRight _).mpr rightType
    exact ⟨_, leftClean, _, rightClean, absorbs leftClean rightClean⟩

theorem decides_assign {left right : Expr} (ihLeft : Decides o env left)
    (ihRight : Decides o env right) : Decides o env (.binary token .assign left right) := by
  intro t
  simp only [expr_assign, Diagnosed.bind_eq_pure_iff]
  constructor
  · rintro ⟨_, ⟨_, leftClean, passed⟩, stored, rightClean, clean⟩
    obtain ⟨rfl, cell, rfl⟩ :=
      (reference_eq_pure_iff (errorFree_of_clean valid free leftClean)).mp passed
    have storedSound := (errorFree_of_clean valid free rightClean).isError_eq_false
    simp only [assignRule, storedSound, Bool.false_eq_true, if_false] at clean
    split at clean
    next compatible =>
      obtain rfl := Diagnosed.pure_inj.mp clean
      exact .binary ((ihLeft _).mp leftClean) ((ihRight _).mp rightClean)
        (.assign (Ty.agrees_iff_compatible.mpr compatible))
    next => exact absurd clean report_ne_pure
  · intro typed
    cases typed with | binary leftType rightType types =>
    cases types with | assign fits =>
    have rightClean := (ihRight _).mpr rightType
    have storedSound := (errorFree_of_clean valid free rightClean).isError_eq_false
    refine ⟨_, ⟨_, (ihLeft _).mpr leftType, rfl⟩, _, rightClean, ?_⟩
    simp [assignRule, storedSound, Ty.agrees_iff_compatible.mp fits]

theorem decides_binary {op : BinaryOp} {left right : Expr} (ihLeft : Decides o env left)
    (ihRight : Decides o env right) : Decides o env (.binary token op left right) := by
  cases op with
  | cons => exact decides_cons valid free ihLeft ihRight
  | assign => exact decides_assign valid free ihLeft ihRight
  | _ =>
    refine decides_numeric valid free ihLeft ihRight rfl fun {t u v} => ⟨?_, ?_⟩
    · rintro ⟨⟩
      exact ⟨rfl, rfl, rfl⟩
    · rintro ⟨rfl, rfl, rfl⟩
      constructor

theorem decides_unary {op : UnaryOp} {operand : Expr} (ih : Decides o env operand) :
    Decides o env (.unary token op operand) := by
  intro t
  rw [expr_unary, Diagnosed.bind_eq_pure_iff]
  constructor
  · rintro ⟨u, clean, ruled⟩
    have operandFree := errorFree_of_clean valid free clean
    exact .unary ((ih u).mp clean) ((unaryRule_eq_pure_iff valid operandFree).mp ruled)
  · intro typed
    cases typed with | unary operandType types =>
    have clean := (ih _).mpr operandType
    have operandFree := errorFree_of_clean valid free clean
    exact ⟨_, clean, (unaryRule_eq_pure_iff valid operandFree).mpr types⟩

theorem decides_branch {cond yes no : Expr} (ihCond : Decides o env cond)
    (ihYes : Decides o env yes) (ihNo : Decides o env no) :
    Decides o env (.branch token cond yes no) := by
  intro t
  simp only [expr_branch, Diagnosed.bind_eq_pure_iff]
  constructor
  · rintro ⟨_, condClean, _, yesClean, _, noClean, ruled⟩
    obtain ⟨rfl, least⟩ := (branchRule_eq_pure_iff (errorFree_of_clean valid free condClean)
      (errorFree_of_clean valid free yesClean) (errorFree_of_clean valid free noClean)).mp ruled
    exact .branch ((ihCond _).mp condClean) ((ihYes _).mp yesClean) ((ihNo _).mp noClean)
      least
  · intro typed
    cases typed with | branch condType yesType noType least =>
    have yesClean := (ihYes _).mpr yesType
    have noClean := (ihNo _).mpr noType
    refine ⟨_, (ihCond _).mpr condType, _, yesClean, _, noClean, ?_⟩
    exact (branchRule_eq_pure_iff .bool (errorFree_of_clean valid free yesClean)
      (errorFree_of_clean valid free noClean)).mpr ⟨rfl, least⟩

theorem errorFree_of_bindings {bound : List (Binder × Expr)} {types : List (String × Ty)}
    (clean : bindings o env bound = pure types) : ∀ binding ∈ types, binding.2.ErrorFree := by
  induction bound generalizing types with
  | nil =>
    obtain rfl := Diagnosed.pure_inj.mp clean
    simp
  | cons binding rest ih =>
    obtain ⟨binder, value⟩ := binding
    simp only [bindings_cons, Diagnosed.bind_eq_pure_iff, Diagnosed.pure_inj] at clean
    obtain ⟨t, ⟨got, valueClean, bound⟩, others, restClean, rfl⟩ := clean
    have gotFree := errorFree_of_clean valid free valueClean
    refine List.forall_mem_cons.mpr ⟨?_, ih restClean⟩
    rcases (bindingType_eq_pure_iff gotFree).mp bound with ⟨_, rfl⟩ | ⟨declares, _⟩
    · exact gotFree
    · exact declares.2

theorem bindings_eq_pure_iff {bound : List (Binder × Expr)} {types : List (String × Ty)}
    (each : ∀ binding ∈ bound, Decides o env binding.2) :
    bindings o env bound = pure types ↔ Binds o env.lookup? bound types := by
  induction bound generalizing types with
  | nil =>
    rw [bindings, Diagnosed.pure_inj]
    constructor
    · rintro rfl
      exact .nil
    · rintro ⟨⟩
      rfl
  | cons binding rest ih =>
    obtain ⟨binder, value⟩ := binding
    have ihValue : Decides o env value := each _ List.mem_cons_self
    have ihRest : ∀ {others},
        bindings o env rest = pure others ↔ Binds o env.lookup? rest others :=
      ih fun binding member => each binding (List.mem_cons_of_mem _ member)
    simp only [bindings_cons, Diagnosed.bind_eq_pure_iff, Diagnosed.pure_inj]
    constructor
    · rintro ⟨t, ⟨got, clean, bound⟩, others, restClean, rfl⟩
      have typed := (ihValue got).mp clean
      have othersBound := ihRest.mp restClean
      have gotFree := errorFree_of_clean valid free clean
      rcases (bindingType_eq_pure_iff gotFree).mp bound with ⟨bare, rfl⟩ | ⟨declares, fits⟩
      · exact .plain bare typed othersBound
      · exact .written declares typed fits othersBound
    · rintro (_ | ⟨bare, typed, others⟩ | ⟨declares, typed, fits, others⟩)
      · have clean := (ihValue _).mpr typed
        have gotFree := errorFree_of_clean valid free clean
        exact ⟨_, ⟨_, clean, (bindingType_eq_pure_iff gotFree).mpr (.inl ⟨bare, rfl⟩)⟩, _,
          ihRest.mpr others, rfl⟩
      · have clean := (ihValue _).mpr typed
        have gotFree := errorFree_of_clean valid free clean
        exact ⟨_, ⟨_, clean, (bindingType_eq_pure_iff gotFree).mpr (.inr ⟨declares, fits⟩)⟩, _,
          ihRest.mpr others, rfl⟩

theorem decides_letIn {bound : List (Binder × Expr)} {body : Expr}
    (each : ∀ binding ∈ bound, Decides o env binding.2)
    (ihBody : ∀ {inner : Env Ty}, inner.All Ty.ErrorFree → Decides o inner body) :
    Decides o env (.letIn token bound body) := by
  intro t
  have absorbs : ∀ {types u}, bindings o env bound = pure types →
      orError (types.map (·.2)) u = u := by
    intro types u clean
    exact orError_eq_self (List.forall_mem_map.mpr fun binding member =>
      (errorFree_of_bindings valid free clean binding member).isError_eq_false)
  have inside : ∀ {types}, bindings o env bound = pure types →
      (expr o (env.extendAll types) body = pure t ↔
        HasType o (Context.bindAll env.lookup? types) body t) := by
    intro types clean
    rw [← Env.lookup?_extendAll]
    exact ihBody (free.extendAll (errorFree_of_bindings valid free clean)) t
  simp only [expr_letIn, Diagnosed.bind_eq_pure_iff, Diagnosed.pure_inj]
  constructor
  · rintro ⟨types, clean, u, bodyClean, same⟩
    rw [absorbs clean] at same
    subst same
    exact .letIn ((bindings_eq_pure_iff valid free each).mp clean) ((inside clean).mp bodyClean)
  · intro typed
    cases typed with | letIn values bodyType =>
    have clean := (bindings_eq_pure_iff valid free each).mpr values
    exact ⟨_, clean, t, (inside clean).mpr bodyType, absorbs clean⟩

theorem decides_readFrom {source : Expr} (ih : Decides o env source) :
    Decides o env (.readFrom token source) := by
  intro t
  simp only [expr_readFrom, Diagnosed.bind_eq_pure_iff]
  have configured := (Options.readType_of_valid valid).1
  constructor
  · rintro ⟨_, ⟨u, clean, passed⟩, same⟩
    obtain ⟨fits, rfl⟩ := (require_eq_pure_iff (errorFree_of_clean valid free clean)).mp passed
    cases u <;> simp [Ty.kind] at fits
    obtain rfl := Diagnosed.pure_inj.mp same
    exact .readFrom ((ih _).mp clean) configured
  · intro typed
    cases typed with | readFrom sourceType found =>
    obtain rfl := Option.some.inj (configured.symm.trans found)
    exact ⟨.str, ⟨.str, (ih _).mpr sourceType, rfl⟩, rfl⟩

theorem errorFree_of_exprs {es : List Expr} {found : List (Token × Ty)}
    (clean : exprs o env es = pure found) : ∀ part ∈ found, part.2.ErrorFree := by
  induction es generalizing found with
  | nil =>
    obtain rfl := Diagnosed.pure_inj.mp clean
    simp
  | cons e es ih =>
    simp only [exprs_cons, Diagnosed.bind_eq_pure_iff, Diagnosed.pure_inj] at clean
    obtain ⟨t, first, ts, rest, rfl⟩ := clean
    exact List.forall_mem_cons.mpr ⟨errorFree_of_clean valid free first, ih rest⟩

omit valid free in
theorem exists_exprs_iff {es : List Expr} {types : List Ty} (each : ∀ e ∈ es, Decides o env e) :
    (∃ found, exprs o env es = pure found ∧ found.map (·.2) = types) ↔
      HaveTypes o env.lookup? es types := by
  induction es generalizing types with
  | nil =>
    simp only [exprs, Diagnosed.pure_inj]
    constructor
    · rintro ⟨_, rfl, rfl⟩
      exact .nil
    · rintro ⟨⟩
      exact ⟨[], rfl, rfl⟩
  | cons e es ih =>
    simp only [exprs_cons, Diagnosed.bind_eq_pure_iff, Diagnosed.pure_inj]
    constructor
    · rintro ⟨_, ⟨t, first, ts, rest, rfl⟩, rfl⟩
      have typed := (each e List.mem_cons_self t).mp first
      exact .cons typed ((ih fun e member => each e (List.mem_cons_of_mem _ member)).mp
        ⟨ts, rest, rfl⟩)
    · rintro (_ | ⟨first, rest⟩)
      obtain ⟨ts, clean, rfl⟩ :=
        (ih fun e member => each e (List.mem_cons_of_mem _ member)).mpr rest
      exact ⟨_, ⟨_, (each e List.mem_cons_self _).mpr first, ts, clean, rfl⟩, rfl⟩

theorem decides_call {operator : Expr} {args : List Expr} (ihOperator : Decides o env operator)
    (each : ∀ e ∈ args, Decides o env e) : Decides o env (.call token operator args) := by
  intro t
  simp only [expr_call, Diagnosed.bind_eq_pure_iff]
  constructor
  · rintro ⟨callee, calleeClean, found, clean, ruled⟩
    obtain ⟨params, rfl, fit⟩ := (callRule_eq_pure_iff (errorFree_of_clean valid free calleeClean)
      (errorFree_of_exprs valid free clean)).mp ruled
    exact .call ((ihOperator _).mp calleeClean)
      ((exists_exprs_iff each).mp ⟨found, clean, rfl⟩) fit
  · intro typed
    cases typed with | call operatorType argTypes fit =>
    have calleeClean := (ihOperator _).mpr operatorType
    obtain ⟨found, clean, rfl⟩ := (exists_exprs_iff each).mpr argTypes
    refine ⟨_, calleeClean, found, clean, ?_⟩
    exact (callRule_eq_pure_iff (errorFree_of_clean valid free calleeClean)
      (errorFree_of_exprs valid free clean)).mpr ⟨_, rfl, fit⟩

theorem decides_list {elem : Option Ty} {elems : List Expr} (each : ∀ e ∈ elems, Decides o env e) :
    Decides o env (.list token elem elems) := by
  intro t
  have elemFree : (∀ a, elem = some a → a.ErrorFree) → (elem.getD .unresolved).ErrorFree := by
    intro written
    cases elem with
    | none => exact .unresolved
    | some a => exact written a rfl
  simp only [expr_list, Diagnosed.bind_eq_pure_iff, elementType_eq_pure_iff]
  constructor
  · rintro ⟨_, ⟨rfl, written⟩, found, clean, ruled⟩
    obtain ⟨u, least, rfl⟩ := (listRule_eq_pure_iff (elemFree written)
      (errorFree_of_exprs valid free clean)).mp ruled
    exact .list written ((exists_exprs_iff each).mp ⟨found, clean, rfl⟩)
      (isLUB_written_iff.mp least)
  · intro typed
    cases typed with | list written elemTypes least =>
    obtain ⟨found, clean, rfl⟩ := (exists_exprs_iff each).mpr elemTypes
    refine ⟨_, ⟨rfl, written⟩, found, clean, ?_⟩
    exact (listRule_eq_pure_iff (elemFree written) (errorFree_of_exprs valid free clean)).mpr
      ⟨_, isLUB_written_iff.mpr least, rfl⟩

omit valid free in
theorem errorFree_of_declares {binders : List Binder} {types : List Ty}
    (declared : List.Forall₂ Binder.Declares binders types) : ∀ t ∈ types, t.ErrorFree := by
  induction declared with
  | nil => simp
  | cons declares _ ih => exact List.forall_mem_cons.mpr ⟨declares.2, ih⟩

omit valid in
theorem errorFree_scope {binders : List Binder} {types : List Ty}
    (declared : List.Forall₂ Binder.Declares binders types) :
    (scope env binders types).All Ty.ErrorFree :=
  free.extendAll fun _ member => errorFree_of_declares declared _ (List.of_mem_zip member).2

theorem recursiveBindings_eq_pure_iff {bound : List (Binder × Expr)} {types values : List Ty}
    (declared : List.Forall₂ Binder.Declares (bound.map (·.1)) types)
    (each : ∀ binding ∈ bound, Decides o env binding.2) :
    recursiveBindings o env bound = pure values ↔ Fits o env.lookup? bound ∧ types = values := by
  induction bound generalizing types values with
  | nil =>
    cases declared
    simpa [recursiveBindings] using fun _ => Fits.nil
  | cons binding rest ih =>
    obtain ⟨binder, value⟩ := binding
    obtain ⟨type, others, declares, restDeclared, rfl⟩ := List.forall₂_cons_left_iff.mp declared
    have annotation : (annotated binder).value = type := by
      rw [annotated_eq_pure_iff.mpr declares]
      rfl
    have ihValue : Decides o env value := each _ List.mem_cons_self
    have ihRest : ∀ {values}, recursiveBindings o env rest = pure values ↔ _ :=
      ih restDeclared fun binding member => each binding (List.mem_cons_of_mem _ member)
    simp only [recursiveBindings_cons, annotation, Diagnosed.bind_eq_pure_iff, Diagnosed.pure_inj,
      ihRest]
    constructor
    · rintro ⟨_, ⟨got, clean, agreed⟩, _, ⟨restFits, rfl⟩, rfl⟩
      have gotFree := errorFree_of_clean valid free clean
      obtain ⟨fits, rfl⟩ := (reconcile_eq_pure_iff declares.2 gotFree).mp agreed
      exact ⟨.cons declares ((ihValue got).mp clean) fits restFits, rfl⟩
    · rintro ⟨_ | ⟨declares', typed, fits, restFits⟩, rfl⟩
      obtain rfl := Option.some.inj (declares.1.symm.trans declares'.1)
      have clean := (ihValue _).mpr typed
      have gotFree := errorFree_of_clean valid free clean
      exact ⟨_, ⟨_, clean, (reconcile_eq_pure_iff declares.2 gotFree).mpr ⟨fits, rfl⟩⟩, _,
        ⟨restFits, rfl⟩, rfl⟩

theorem decides_letrec {bound : List (Binder × Expr)} {body : Expr}
    (each : ∀ binding ∈ bound, ∀ {inner : Env Ty}, inner.All Ty.ErrorFree →
      Decides o inner binding.2)
    (ihBody : ∀ {inner : Env Ty}, inner.All Ty.ErrorFree → Decides o inner body) :
    Decides o env (.letrec token bound body) := by
  intro t
  simp only [expr_letrec, Diagnosed.bind_eq_pure_iff, Diagnosed.pure_inj, annotations_eq_pure_iff]
  have absorbs : ∀ {types u}, List.Forall₂ Binder.Declares (bound.map (·.1)) types →
      orError (types ++ types) u = u := by
    intro types u declared
    refine orError_eq_self fun part member => ?_
    have member := or_self_iff.mp (List.mem_append.mp member)
    exact (errorFree_of_declares declared part member).isError_eq_false
  constructor
  · rintro ⟨types, declared, values, valuesClean, u, clean, same⟩
    have innerFree := errorFree_scope free declared
    obtain ⟨fits, rfl⟩ := (recursiveBindings_eq_pure_iff valid innerFree declared
      fun binding member => each binding member innerFree).mp valuesClean
    rw [absorbs declared] at same
    subst same
    rw [ihBody innerFree, scope, Env.lookup?_extendAll] at clean
    rw [scope, Env.lookup?_extendAll] at fits
    exact .letrec declared fits clean
  · intro typed
    cases typed with | letrec declared fits bodyType =>
    have innerFree := errorFree_scope free declared
    rw [Context.declare, ← Env.lookup?_extendAll] at fits bodyType
    exact ⟨_, declared, _, (recursiveBindings_eq_pure_iff valid innerFree declared
      fun binding member => each binding member innerFree).mpr ⟨fits, rfl⟩, t,
      (ihBody innerFree t).mpr bodyType, absorbs declared⟩

theorem decides_lambda {params : List Binder} {body : Expr}
    (ihBody : ∀ {inner : Env Ty}, inner.All Ty.ErrorFree → Decides o inner body) :
    Decides o env (.lambda token params body) := by
  intro t
  simp only [expr_lambda, Diagnosed.bind_eq_pure_iff, Diagnosed.pure_inj, annotations_eq_pure_iff]
  have absorbs : ∀ {types u v}, List.Forall₂ Binder.Declares params types →
      expr o (scope env params types) body = pure u → orError (types ++ [u]) v = v := by
    intro types u v declared clean
    have bodyFree := errorFree_of_clean valid (errorFree_scope free declared) clean
    refine orError_eq_self fun part member => ?_
    rcases List.mem_append.mp member with member | member
    · exact (errorFree_of_declares declared part member).isError_eq_false
    · obtain rfl := List.mem_singleton.mp member
      exact bodyFree.isError_eq_false
  constructor
  · rintro ⟨types, declared, u, clean, same⟩
    rw [absorbs declared clean] at same
    subst same
    rw [ihBody (errorFree_scope free declared), scope, Env.lookup?_extendAll] at clean
    exact .lambda declared clean
  · intro typed
    cases typed with | lambda declared bodyType =>
    rw [Context.declare, ← Env.lookup?_extendAll] at bodyType
    have clean := (ihBody (errorFree_scope free declared) _).mpr bodyType
    exact ⟨_, declared, _, clean, absorbs declared clean⟩

end

theorem decides_expr (valid : o.problem? = none) (free : env.All Ty.ErrorFree) (e : Expr) :
    Decides o env e := by
  induction e using Expr.induction generalizing env with
  | absent | broken =>
    intro t
    refine iff_of_false report_ne_pure ?_
    rintro ⟨⟩
  | number | string | bool | unit =>
    intro t
    rw [expr, Diagnosed.pure_inj]
    constructor
    · rintro rfl
      constructor
    · rintro ⟨⟩
      rfl
  | var token name =>
    intro t
    rw [expr_var]
    constructor
    · intro clean
      cases found : env.lookup? name with
      | none =>
        rw [found] at clean
        exact absurd clean report_ne_pure
      | some u =>
        rw [found] at clean
        obtain rfl := Diagnosed.pure_inj.mp clean
        exact .var found
    · intro typed
      cases typed with | var found =>
      rw [found]
  | add token addends ih => exact decides_add valid free fun e member => ih e member free
  | binary token op left right ihLeft ihRight =>
    exact decides_binary valid free (ihLeft free) (ihRight free)
  | unary token op operand ih => exact decides_unary valid free (ih free)
  | branch token cond yes no ihCond ihYes ihNo =>
    exact decides_branch valid free (ihCond free) (ihYes free) (ihNo free)
  | letIn token bound body ihBound ihBody =>
    exact decides_letIn valid free (fun binding member => ihBound binding member free) ihBody
  | letrec token bound body ihBound ihBody =>
    exact decides_letrec valid free ihBound ihBody
  | lambda token params body ih => exact decides_lambda valid free ih
  | call token operator args ihOperator ihArgs =>
    exact decides_call valid free (ihOperator free) fun e member => ihArgs e member free
  | list token elem elems ih => exact decides_list valid free fun e member => ih e member free
  | read token =>
    intro t
    have configured := (Options.readType_of_valid valid).1
    rw [expr, Diagnosed.pure_inj]
    constructor
    · rintro rfl
      exact .read configured
    · intro typed
      cases typed with | read found =>
      exact Option.some.inj (configured.symm.trans found)
  | readFrom token source ih => exact decides_readFrom valid free (ih free)

/-- An expression is checked without a note and found to have a type exactly when the rules give
it that type, under what the environment says about names. -/
theorem clean_iff_hasType (valid : o.problem? = none) (free : env.All Ty.ErrorFree) (e : Expr)
    (t : Ty) :
    ((expr o env e).notes = [] ∧ (expr o env e).value = t) ↔ HasType o env.lookup? e t := by
  rw [← Diagnosed.eq_pure_iff]
  exact decides_expr valid free e t

/-- The elements of a list may be resolved by one another, in any order. -/
theorem clean_iff_hasType_of_lists :
    Options.standard.problem? = none ∧ (Env.empty.extend "x" Ty.str).All Ty.ErrorFree ∧
    HasType .standard (Env.empty.extend "x" Ty.str).lookup?
      (.list .nowhere none [.list .nowhere none [], .list .nowhere none [.var .nowhere "x"],
        .list .nowhere none []]) (.list (.list .str)) := by
  have free : (Env.empty.extend "x" Ty.str).All Ty.ErrorFree := Env.All.empty.extend .str
  exact ⟨rfl, free, (clean_iff_hasType rfl free _ _).mp ⟨rfl, rfl⟩⟩

end Check

end TypedForms
