import TypedForms.Proofs.Check.Relevance
import TypedForms.Proofs.Ty.Filling

/-! The order of bindings. The values of a `let` do not see each other, and those of a `letrec` see
each other by the written types alone, so that each binding comes out the same wherever it stands.
What follows sees the names, and these are found in any order as long as no two are equal. Only the
message of an error may change, as it is that of the first one. -/
namespace TypedForms.Check

variable {o : Options} {env : Env Ty} {token : Token} {body : Expr}
  {bound bound' : List (Binder × Expr)}

theorem scope_annotations {binders : List Binder} :
    scope env binders (annotations binders).value =
      env.extendAll (binders.map fun binder => (binder.name, (annotated binder).value)) := by
  rw [scope, value_annotations, ← List.zip_map']

/-- The same notes in some order, and the same type, but for the message of an error. -/
structure Alike (x x' : Checked Ty) : Prop where
  notes : x.notes.Perm x'.notes
  type : x.value.same x'.value = true
  sound : x.value.isError = false → x.value = x'.value

/-- Whichever error comes first, there is one or there is none. -/
theorem orError_perm {parts parts' : List Ty} {t : Ty} (perm : parts.Perm parts') :
    (∃ message message', orError parts t = .error message ∧
      orError parts' t = .error message') ∨ orError parts t = orError parts' t := by
  have noneIff : Ty.firstError? parts = none ↔ Ty.firstError? parts' = none := by
    simp only [Ty.firstError?_eq_none_iff, perm.mem_iff]
  unfold orError
  cases found : Ty.firstError? parts with
  | none =>
    rw [noneIff.mp found]
    exact .inr rfl
  | some message =>
    cases found' : Ty.firstError? parts' with
    | none => simp [noneIff.mpr found'] at found
    | some message' => exact .inl ⟨message, message', rfl, rfl⟩

theorem alike_of_parts {parts parts' : List Ty} {t : Ty} {x x' : Checked Ty}
    (notes : x.notes.Perm x'.notes) (value : x.value = orError parts t)
    (value' : x'.value = orError parts' t) (perm : parts.Perm parts') : Alike x x' := by
  rcases @orError_perm parts parts' t perm with ⟨message, message', error, error'⟩ | same
  · rw [error] at value
    rw [error'] at value'
    refine ⟨notes, ?_, ?_⟩
    · rw [value, value']
      rfl
    · rw [value]
      intro sound
      cases sound
  · rw [← value, ← value'] at same
    exact ⟨notes, by rw [same, Ty.same_iff_muted], fun _ => same⟩

/-- The body sees the names of the bindings, and not their order. -/
theorem expr_extendAll_of_perm {new new' : List (String × Ty)} {e : Expr}
    (different : (new.map (·.1)).Nodup) (perm : new.Perm new') :
    expr o (env.extendAll new) e = expr o (env.extendAll new') e := by
  apply expr_congr
  intro name _
  exact Env.lookup?_extendAll_of_perm different perm

theorem notes_letIn :
    (expr o env (.letIn token bound body)).notes = (bindings o env bound).notes ++
      (expr o (env.extendAll (bindings o env bound).value) body).notes := by
  rw [expr_letIn, Diagnosed.notes_bind, Diagnosed.notes_bind, Diagnosed.notes_pure,
    List.append_nil]

theorem alike_letIn (different : (bound.map (·.1.name)).Nodup)
    (perm : bound.Perm bound') :
    Alike (expr o env (.letIn token bound body)) (expr o env (.letIn token bound' body)) := by
  obtain ⟨typesPerm, notesPerm⟩ := Diagnosed.sequence_perm (perm.map (boundType o env))
  rw [← bindings_eq_sequence, ← bindings_eq_sequence] at typesPerm notesPerm
  have different' : ((bindings o env bound).value.map (·.1)).Nodup := by
    rw [names_bindings]
    exact different
  have bodyEq := @expr_extendAll_of_perm o env _ _ body different' typesPerm
  apply alike_of_parts (t := (expr o (env.extendAll (bindings o env bound).value) body).value)
  · rw [notes_letIn, notes_letIn, bodyEq]
    exact notesPerm.append_right _
  · rfl
  · rw [bodyEq]
    rfl
  · exact typesPerm.map _

/-- The scope that the values of a `letrec` and its body have in common. -/
def recursiveScope (env : Env Ty) (bound : List (Binder × Expr)) : Env Ty :=
  scope env (bound.map (·.1)) (annotations (bound.map (·.1))).value

/-- It holds the written types, so it is the same to all of them in any order of the bindings. -/
theorem expr_recursiveScope_of_perm {e : Expr} (different : (bound.map (·.1.name)).Nodup)
    (perm : bound.Perm bound') :
    expr o (recursiveScope env bound) e = expr o (recursiveScope env bound') e := by
  rw [recursiveScope, recursiveScope, scope_annotations, scope_annotations]
  apply expr_extendAll_of_perm
  · rw [List.map_map, List.map_map]
    exact different
  · exact (perm.map _).map _

theorem recursiveBindings_perm (different : (bound.map (·.1.name)).Nodup)
    (perm : bound.Perm bound') :
    (recursiveBindings o (recursiveScope env bound) bound).value.Perm
        (recursiveBindings o (recursiveScope env bound') bound').value ∧
      (recursiveBindings o (recursiveScope env bound) bound).notes.Perm
        (recursiveBindings o (recursiveScope env bound') bound').notes := by
  have inside : recursiveBindings o (recursiveScope env bound) bound =
      recursiveBindings o (recursiveScope env bound') bound := by
    apply recursiveBindings_congr
    intro binding _
    exact expr_recursiveScope_of_perm different perm
  rw [inside, recursiveBindings_eq_sequence, recursiveBindings_eq_sequence]
  exact Diagnosed.sequence_perm (perm.map _)

theorem notes_letrec :
    (expr o env (.letrec token bound body)).notes = (annotations (bound.map (·.1))).notes ++
      ((recursiveBindings o (recursiveScope env bound) bound).notes ++
        (expr o (recursiveScope env bound) body).notes) := by
  rw [expr_letrec, Diagnosed.notes_bind, Diagnosed.notes_bind, Diagnosed.notes_bind,
    Diagnosed.notes_pure, List.append_nil]
  rfl

theorem alike_letrec (different : (bound.map (·.1.name)).Nodup)
    (perm : bound.Perm bound') :
    Alike (expr o env (.letrec token bound body)) (expr o env (.letrec token bound' body)) := by
  obtain ⟨declaredPerm, annotationsPerm⟩ :=
    Diagnosed.sequence_perm ((perm.map (·.1)).map annotated)
  obtain ⟨valuesPerm, notesPerm⟩ := @recursiveBindings_perm o env _ _ different perm
  have bodyEq := @expr_recursiveScope_of_perm o env _ _ body different perm
  apply alike_of_parts (t := (expr o (recursiveScope env bound) body).value)
  · rw [notes_letrec, notes_letrec, bodyEq]
    exact annotationsPerm.append (notesPerm.append_right _)
  · rw [expr_letrec]
    rfl
  · rw [expr_letrec, bodyEq]
    rfl
  · exact declaredPerm.append valuesPerm

/-- The bindings of a `let` or a `letrec` can stand in any order, as long as their names are
different: the notes are the same, and so is the type, but for the message of an error. -/
theorem binding_order_does_not_matter (o : Options) (env : Env Ty) (token : Token) (body : Expr)
    {bound bound' : List (Binder × Expr)} (different : (bound.map (·.1.name)).Nodup)
    (perm : bound.Perm bound') :
    Alike (expr o env (.letIn token bound body)) (expr o env (.letIn token bound' body)) ∧
    Alike (expr o env (.letrec token bound body)) (expr o env (.letrec token bound' body)) :=
  ⟨alike_letIn different perm, alike_letrec different perm⟩

/-- Of two errors the one that comes first gives its message to the type, and both are noted in
either order. Bindings that are recursive find each other in either order as well. -/
theorem binding_order_does_not_matter_of_errors :
    let lost : Binder × Expr := (⟨.nowhere, "a", none⟩, .var .nowhere "x")
    let wrong : Binder × Expr := (⟨.nowhere, "b", some .bool⟩, .unit .nowhere)
    let body : Expr := .binary .nowhere .cons (.var .nowhere "a") (.var .nowhere "b")
    let first : Binder × Expr := (⟨.nowhere, "f", some (.func [] .num)⟩,
      .lambda .nowhere [] (.call .nowhere (.var .nowhere "g") []))
    let second : Binder × Expr := (⟨.nowhere, "g", some (.func [] .num)⟩,
      .lambda .nowhere [] (.call .nowhere (.var .nowhere "f") []))
    let check (e : Expr) := expr .standard .empty e
    ([lost, wrong].map (·.1.name)).Nodup ∧ ([first, second].map (·.1.name)).Nodup ∧
    (check (.letIn .nowhere [lost, wrong] body)).value = .error "unbound variable x" ∧
    (check (.letIn .nowhere [wrong, lost] body)).value =
      .error "let binding b: declared bool, got unit" ∧
    Alike (check (.letIn .nowhere [lost, wrong] body))
      (check (.letIn .nowhere [wrong, lost] body)) ∧
    Alike (check (.letrec .nowhere [first, second] (.var .nowhere "g")))
      (check (.letrec .nowhere [second, first] (.var .nowhere "g"))) ∧
    (check (.letrec .nowhere [first, second] (.var .nowhere "g"))).value = .func [] .num := by
  intro lost wrong body first second check
  have different : ([lost, wrong].map (·.1.name)).Nodup := by decide
  have different' : ([first, second].map (·.1.name)).Nodup := by decide
  have plain := binding_order_does_not_matter .standard .empty .nowhere body different
    (.swap wrong lost [])
  have recursive := binding_order_does_not_matter .standard .empty .nowhere (.var .nowhere "g")
    different' (.swap second first [])
  exact ⟨different, different', rfl, rfl, plain.1, recursive.2, rfl⟩

/-- Equal names do not stand in any order: the later one counts. -/
example : let bind (value : Expr) : Binder × Expr := (⟨.nowhere, "x", none⟩, value)
    let check (bound : List (Binder × Expr)) :=
      expr .standard .empty (.letIn .nowhere bound (.var .nowhere "x"))
    (check [bind (.unit .nowhere), bind (.bool .nowhere true)]).value = .bool ∧
    (check [bind (.bool .nowhere true), bind (.unit .nowhere)]).value = .unit := ⟨rfl, rfl⟩

end TypedForms.Check
