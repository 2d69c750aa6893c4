import TypedForms.Program.Parse
import TypedForms.Proofs.Datum
import TypedForms.Proofs.Diagnosed

/-! Whatever is wrong with a source, the tree it is read as lacks nothing: broken expressions stand
in the places of those that could not be read. -/
namespace TypedForms

namespace Expr

variable {form : BindingForm} {head : String} {start opening lambda : Token} {ds : List Datum}

@[simp] theorem value_malformed {anchor : Token} {cause : ParseError} :
    (malformed anchor cause).value = .broken anchor cause.message := rfl

theorem gaps_ofToken {token : Token} : (ofToken token).value.gaps = [] := by
  unfold ofToken
  split
  next => split <;> simp [gaps]
  all_goals simp [gaps]

theorem gapsAll_ofData (parts : ∀ d ∈ ds, (ofDatum d).value.gaps = []) :
    gapsAll (ofData ds).value = [] := by
  induction ds with
  | nil => rfl
  | cons d ds ih =>
    obtain ⟨first, rest⟩ := List.forall_mem_cons.mp parts
    simp [ofData, gapsAll, first, ih rest]

theorem gaps_binding {bound : Binder × Expr} (parts : ∀ d ∈ ds, (ofDatum d).value.gaps = [])
    (found : (binding form head start opening ds).value = .ok bound) : bound.2.gaps = [] := by
  cases ds with
  | nil => cases found
  | cons name rest =>
    rw [binding] at found
    split at found
    next =>
      split at found
      next => cases found
      next next rest =>
      split at found
      next =>
        split at found
        next => cases found
        next type rest =>
        rcases rest with _ | ⟨value, _ | ⟨extra, rest⟩⟩
        · cases found
        · cases found
          exact parts value (by simp)
        · cases found
      next =>
        split at found
        next =>
          split at found
          next => cases found
          next =>
            cases found
            exact parts next (by simp)
        next => cases found
    next => cases found

theorem gapsBindings_bindings {bound : List (Binder × Expr)}
    (parts : ∀ opening elems, .list opening elems ∈ ds → ∀ d ∈ elems, (ofDatum d).value.gaps = [])
    (found : (bindings form head ds).value = .ok bound) : gapsBindings bound = [] := by
  induction ds generalizing bound with
  | nil =>
    cases found
    rfl
  | cons d ds ih =>
    cases d with
    | atom token => cases found
    | list opening elems =>
      rw [bindings, Diagnosed.value_bind] at found
      split at found
      next => cases found
      next first firstFound =>
      rw [Diagnosed.value_bind] at found
      split at found
      next => cases found
      next others othersFound =>
      cases found
      have firstGaps := gaps_binding (parts opening elems List.mem_cons_self) firstFound
      have othersGaps := ih
        (fun opening elems member => parts opening elems (List.mem_cons_of_mem _ member))
        othersFound
      obtain ⟨binder, value⟩ := first
      simp only [gapsBindings, firstGaps, othersGaps, List.append_nil]

theorem type_param {d : Datum} {binder : Binder} (found : (param lambda d).value = .ok binder) :
    binder.type.isNone = false := by
  cases d with
  | atom token => cases found
  | list opening elems =>
    simp only [param] at found
    split at found
    next => cases found
    split at found
    next =>
      split at found
      next => cases found
      split at found
      next =>
        split at found
        next => cases found
        next type rest =>
        cases rest <;> cases found
        rfl
      next => cases found
    next => cases found

theorem type_params {binders : List Binder} (found : (params lambda ds).value = .ok binders) :
    ∀ binder ∈ binders, binder.type.isNone = false := by
  induction ds generalizing binders with
  | nil =>
    cases found
    simp
  | cons d ds ih =>
    rw [params, Diagnosed.value_bind] at found
    split at found
    next => cases found
    next first firstFound =>
    rw [Diagnosed.value_bind] at found
    split at found
    next => cases found
    next others othersFound =>
    cases found
    exact List.forall_mem_cons.mpr ⟨type_param firstFound, ih othersFound⟩

theorem gaps_ofDatum (d : Datum) : (ofDatum d).value.gaps = [] := by
  induction d using Datum.induction with
  | atom token => exact gaps_ofToken
  | list opening elems ih =>
    cases elems with
    | nil => rfl
    | cons head args =>
      have parts : ∀ d ∈ args, (ofDatum d).value.gaps = [] := fun d member =>
        ih d (Datum.sizeOf_lt_of_mem (List.mem_cons_of_mem _ member))
      have first : (ofDatum head).value.gaps = [] :=
        ih head (Datum.sizeOf_lt_of_mem List.mem_cons_self)
      have all : gapsAll (ofData args).value = [] := gapsAll_ofData parts
      -- the values of bindings stand two lists deeper than the operands
      have boundGaps : ∀ left group, .list left group ∈ args → ∀ form name bound,
          (bindings form name group).value = .ok bound → gapsBindings bound = [] := by
        intro left group member form name bound found
        refine gapsBindings_bindings (fun inner elems within d part => ih d ?_) found
        exact Nat.lt_trans (Datum.sizeOf_lt_of_mem part) (Nat.lt_trans
          (Datum.sizeOf_lt_of_mem within)
          (Datum.sizeOf_lt_of_mem (List.mem_cons_of_mem _ member)))
      unfold ofDatum
      cases shape : Head.ofDatum head with
      | add => simpa [shape, gaps] using all
      | operator => simp [shape, gaps, first, all]
      | define | misplaced => simp [shape, gaps]
      | binary op =>
        simp only [shape]
        split
        next left right => simp [gaps, parts left, parts right]
        next => rfl
      | unary op =>
        simp only [shape]
        split
        next operand => simp [gaps, parts operand]
        next => rfl
      | branch =>
        simp only [shape]
        split
        next cond yes no => simp [gaps, parts cond, parts yes, parts no]
        next => rfl
      | letIn | letrec =>
        simp only [shape]
        split
        next => rfl
        next left group body =>
          rw [Diagnosed.value_bind]
          split
          next => rfl
          next bound found =>
            simp [gaps, parts body, boundGaps left group (by simp) _ _ bound found]
        next => rfl
      | lambda =>
        simp only [shape]
        split
        next => rfl
        next left group body =>
          rw [Diagnosed.value_bind]
          split
          next => rfl
          next binders found =>
            have typed : binders.filter (·.type.isNone) = [] :=
              List.filter_eq_nil_iff.mpr fun binder member => by
                simp [type_params found binder member]
            simp [gaps, parts body, typed]
        next => rfl
      | list =>
        simp only [shape]
        split
        next => rfl
        next first rest =>
          split
          next =>
            split
            next => rfl
            next type rest =>
              have all : gapsAll (ofData rest).value = [] :=
                gapsAll_ofData fun d member => parts d (by simp [member])
              simpa [gaps] using all
          next =>
            have all : gapsAll (ofData rest).value = [] :=
              gapsAll_ofData fun d member => parts d (by simp [member])
            simp [gaps, gapsAll, parts first, all]
      | read =>
        simp only [shape]
        split
        next => rfl
        next source => simp [gaps, parts source]
        next => rfl

end Expr

namespace Form

/-- What a form lacks. -/
def gaps : Form → List Expr.Gap
  | .define decl => decl.value.gaps
  | .expr e => e.gaps

theorem gaps_ofDatum {d : Datum} {form : Form} (found : (ofDatum d).value = some form) :
    form.gaps = [] := by
  rw [ofDatum] at found
  split at found
  next opening head args parts =>
    rw [Diagnosed.value_bind, Decl.ofParts, Diagnosed.value_bind] at found
    split at found
    next => cases found
    next binder value bound =>
      cases found
      exact Expr.gaps_binding (fun d _ => Expr.gaps_ofDatum d) bound
  next =>
    cases found
    exact Expr.gaps_ofDatum d

theorem gaps_ofItems {items : List Item} : ∀ form ∈ (ofItems items).value, form.gaps = [] := by
  intro form member
  obtain ⟨item, -, found⟩ : ∃ item ∈ items, (ofItem item).value = some form := by
    simpa [ofItems, Diagnosed.value_sequence] using member
  cases item with
  | stray token => cases found
  | form d unclosed => exact gaps_ofDatum found

end Form

namespace Program

theorem gaps_ofForms {finish : Token} {forms : List Form} (parts : ∀ form ∈ forms, form.gaps = []) :
    (∀ decl ∈ (ofForms finish forms).value.decls, decl.value.gaps = []) ∧
      (ofForms finish forms).value.result.gaps = [] := by
  induction forms with
  | nil => exact ⟨by simp [ofForms], rfl⟩
  | cons form forms ih =>
    obtain ⟨first, rest⟩ := List.forall_mem_cons.mp parts
    obtain ⟨decls, result⟩ := ih rest
    cases form with
    | define decl => exact ⟨List.forall_mem_cons.mpr ⟨first, decls⟩, result⟩
    | expr e => exact ⟨by simp [ofForms], first⟩

theorem gaps_ofStream {stream : TokenStream} :
    (∀ decl ∈ (ofStream stream).value.decls, decl.value.gaps = []) ∧
      (ofStream stream).value.result.gaps = [] :=
  gaps_ofForms Form.gaps_ofItems

end Program

end TypedForms
