import TypedForms.Proofs.Datum
import TypedForms.Proofs.Moved

/-! Reading does not depend on where tokens stand: a source whose tokens have been moved is read as
the same forms with their tokens moved, with the same problems at the new places. -/
namespace TypedForms

open Diagnosed (Moves)

/-! Data. -/

namespace Reader

variable {f : Token → Position} {r : Reader} {token : Token} {tokens : List Token} {d : Datum}
  {stack : List (Token × List Datum)} {items : List Item}

def putFrame (f : Token → Position) (frame : Token × List Datum) : Token × List Datum :=
  (frame.1.put f, frame.2.map (Datum.put f))

def put (f : Token → Position) (r : Reader) : Reader :=
  ⟨r.stack.map (putFrame f), r.items.map (Item.put f)⟩

theorem put_list {opening : Token} {elems : List Datum} :
    (Datum.list opening elems.reverse).put f =
      .list (opening.put f) (elems.map (Datum.put f)).reverse := by
  rw [Datum.put, Datum.putAll_eq, List.map_reverse]

theorem add_put :
    add (d.put f) (stack.map (putFrame f)) (items.map (Item.put f)) =
      (add d stack items).put f := by
  cases stack <;> simp [add, put, putFrame, Item.put]

theorem step_put : (r.put f).step (token.put f) = (r.step token).put f := by
  obtain ⟨stack, items⟩ := r
  by_cases opens : token.kind = .mark .lparen
  · rw [step_opening opens, step_opening (by simpa using opens)]
    simp [put, putFrame]
  by_cases closes : token.kind = .mark .rparen
  · cases stack with
    | nil => simp [step, closes, put, Item.put]
    | cons frame outer =>
      obtain ⟨opening, elems⟩ := frame
      rw [step_closing closes, ← add_put, put_list]
      exact step_closing closes
  · rw [step_atom opens closes, ← add_put]
    exact step_atom opens closes

theorem closeAll_put :
    closeAll (d.put f) (stack.map (putFrame f)) = (closeAll d stack).put f := by
  induction stack generalizing d with
  | nil => rfl
  | cons frame outer ih =>
    obtain ⟨opening, elems⟩ := frame
    rw [List.map_cons, putFrame, closeAll, closeAll, ← ih, put_list, List.map_cons]

theorem finish_put : (r.put f).finish = r.finish.map (Item.put f) := by
  obtain ⟨stack, items⟩ := r
  cases stack with
  | nil => simp [put, finish]
  | cons frame outer =>
    obtain ⟨opening, elems⟩ := frame
    have whole := @closeAll_put f (.list opening elems.reverse) outer
    rw [put_list] at whole
    simp [put, finish, Item.put, putFrame, whole]

theorem foldl_step_put :
    (tokens.map (Token.put f)).foldl step (r.put f) = (tokens.foldl step r).put f := by
  induction tokens generalizing r with
  | nil => rfl
  | cons token tokens ih => rw [List.map_cons, List.foldl_cons, List.foldl_cons, step_put, ih]

end Reader

theorem Item.ofTokens_put {f : Token → Position} {tokens : List Token} :
    ofTokens (tokens.map (Token.put f)) = (ofTokens tokens).map (Item.put f) := by
  rw [ofTokens, ofTokens, ← Reader.finish_put, ← Reader.foldl_step_put]
  rfl

/-! Types. -/

namespace Ty

variable {f : Token → Position} {token : Token}

theorem moves_malformed {anchor : Token} {cause : ParseError} :
    Moves f id (malformed anchor cause) (malformed (anchor.put f) cause) :=
  .noteThen (.pure rfl)

theorem moves_ofToken : Moves f id (ofToken token) (ofToken (token.put f)) := by
  unfold ofToken
  simp only [Token.kind_put, Token.literal_put]
  split
  · exact .pure rfl
  · exact moves_malformed

theorem Head.ofDatum_put {d : Datum} : ofDatum (d.put f) = ofDatum d := by
  cases d <;> rfl

theorem findIdx?_put {elems : List Datum} {kind : Token.Kind} :
    (elems.map (Datum.put f)).findIdx? (·.isAtom kind) = elems.findIdx? (·.isAtom kind) := by
  rw [List.findIdx?_map]
  simp [Function.comp_def]

theorem moves_compound {opening : Token} {elems : List Datum} {types types' : List Parsed}
    (each : List.Forall₂ (Moves f id) types types') :
    Moves f id (compound opening elems types)
      (compound (opening.put f) (elems.map (Datum.put f)) types') := by
  unfold compound
  rw [findIdx?_put]
  split
  next index found =>
    have before := List.forall₂_take index each
    have after := List.forall₂_drop (index + 1) each
    have atArrow : ((elems.map (Datum.put f))[index]?.map Datum.token).getD (opening.put f) =
        ((elems[index]?.map Datum.token).getD opening).put f := by
      rw [List.getElem?_map]
      cases elems[index]? <;> simp
    rw [atArrow]
    generalize types.drop (index + 1) = results, types'.drop (index + 1) = results' at after
    rcases after with _ | ⟨result, _ | ⟨_, _⟩⟩
    · exact moves_malformed
    · refine (Moves.sequence before).bind (result.bind (.pure ?_))
      simp
    · exact moves_malformed
  next =>
    cases elems with
    | nil => exact moves_malformed
    | cons head elems =>
      have after := List.forall₂_drop 1 each
      simp only [List.map_cons, Head.ofDatum_put, Datum.token_put, Token.literal_put]
      generalize types.drop 1 = parts, types'.drop 1 = parts' at after
      cases Head.ofDatum head with
      | list =>
        rcases after with _ | ⟨elem, _ | ⟨_, _⟩⟩
        · exact moves_malformed
        · exact elem.bind (.pure rfl)
        · exact moves_malformed
      | ref =>
        rcases after with _ | ⟨elem, _ | ⟨_, _⟩⟩
        · exact moves_malformed
        · exact elem.bind (.pure rfl)
        · exact moves_malformed
      | pair =>
        rcases after with _ | ⟨left, _ | ⟨right, _ | ⟨_, _⟩⟩⟩
        · exact moves_malformed
        · exact moves_malformed
        · exact left.bind (right.bind (.pure rfl))
        · exact moves_malformed
      | other => exact moves_malformed

mutual

theorem moves_ofDatum : (d : Datum) → Moves f id (ofDatum d) (ofDatum (d.put f))
  | .atom _ => moves_ofToken
  | .list _ elems => by
    rw [Datum.put, ofDatum, ofDatum, Datum.putAll_eq]
    exact moves_compound (moves_ofEach elems)

theorem moves_ofEach : (ds : List Datum) →
    List.Forall₂ (Moves f id) (ofEach ds) (ofEach (ds.map (Datum.put f)))
  | [] => .nil
  | d :: ds => .cons (moves_ofDatum d) (moves_ofEach ds)

end

end Ty

/-! Expressions. -/

namespace Expr

variable {f : Token → Position} {token anchor opening : Token} {cause : ParseError} {d : Datum}
  {ds : List Datum}

theorem moves_malformed :
    Moves f (put f) (malformed anchor cause) (malformed (anchor.put f) cause) :=
  .noteThen (.pure rfl)

theorem moves_malformedForm :
    Moves f (put f) (malformedForm opening anchor cause)
      (malformedForm (opening.put f) (anchor.put f) cause) :=
  .noteThen (.pure rfl)

theorem moves_giveUp {α α' : Type} {g : α → α'} :
    Moves f (Except.map g) (giveUp anchor cause) (giveUp (anchor.put f) cause) :=
  .noteThen (.pure rfl)

theorem moves_ofToken : Moves f (put f) (ofToken token) (ofToken (token.put f)) := by
  unfold ofToken
  simp only [Token.kind_put, Token.literal_put]
  split
  next =>
    split
    · exact .pure rfl
    · exact moves_malformed
  next => exact .pure rfl
  next => exact .pure rfl
  next => exact .pure rfl
  next => exact .pure rfl
  next => exact moves_malformed
  next => exact moves_malformed

theorem Head.ofDatum_put : ofDatum (d.put f) = ofDatum d := by
  cases d <;> rfl

/-- A result or a problem, at other places. -/
def putParam {α : Type} (f : Token → Position) (g : α → α) :
    Except (Token × ParseError) α → Except (Token × ParseError) α
  | .ok a => .ok (g a)
  | .error (token, cause) => .error (token.put f, cause)

theorem moves_param {lambda : Token} :
    Moves f (putParam f (Binder.put f)) (param lambda d) (param (lambda.put f) (d.put f)) := by
  cases d with
  | atom token => exact .noteThen (.pure rfl)
  | list opening elems =>
    rw [Datum.put, Datum.putAll_eq]
    rcases elems with _ | ⟨name, rest⟩
    · exact .noteThen (.pure rfl)
    simp only [param, List.map_cons, Datum.isAtom_put, Datum.token_put, Token.literal_put]
    split
    next =>
      rcases rest with _ | ⟨colon, rest⟩
      · exact .noteThen (.pure rfl)
      simp only [List.map_cons, Datum.isAtom_put]
      split
      next =>
        rcases rest with _ | ⟨type, _ | ⟨extra, rest⟩⟩
        · rw [List.map_nil, Datum.token_put]
          exact .noteThen (.pure rfl)
        · exact (Ty.moves_ofDatum type).bind (.pure rfl)
        · exact (Ty.moves_ofDatum type).bind (.noteThen (.pure rfl))
      next => exact .noteThen (.pure rfl)
    next => exact .noteThen (.pure rfl)

theorem moves_params {lambda : Token} :
    Moves f (putParam f (List.map (Binder.put f))) (params lambda ds)
      (params (lambda.put f) (ds.map (Datum.put f))) := by
  induction ds with
  | nil => exact .pure rfl
  | cons d ds ih =>
    rw [List.map_cons, params, params]
    refine moves_param.bind ?_
    cases (param lambda d).value with
    | error problem => exact .pure rfl
    | ok binder =>
      refine ih.bind ?_
      cases (params lambda ds).value with
      | error problem => exact .pure rfl
      | ok binders => exact .pure rfl

/-- The datum is read as an expression wherever its tokens stand. -/
def ReadsMoved (f : Token → Position) (d : Datum) : Prop :=
  Moves f (put f) (ofDatum d) (ofDatum (d.put f))

theorem moves_ofData (each : ∀ d ∈ ds, ReadsMoved f d) :
    Moves f (putAll f) (ofData ds) (ofData (ds.map (Datum.put f))) := by
  induction ds with
  | nil => exact .pure rfl
  | cons d ds ih =>
    obtain ⟨first, rest⟩ := List.forall_mem_cons.mp each
    exact first.bind ((ih rest).bind (.pure rfl))

def putBinding (f : Token → Position) (bound : Binder × Expr) : Binder × Expr :=
  (bound.1.put f, bound.2.put f)

theorem moves_binding {form : BindingForm} {head : String} {start : Token}
    (parts : ∀ d ∈ ds, ReadsMoved f d) :
    Moves f (Except.map (putBinding f)) (binding form head start opening ds)
      (binding form head (start.put f) (opening.put f) (ds.map (Datum.put f))) := by
  rcases ds with _ | ⟨name, rest⟩
  · exact moves_giveUp
  unfold binding
  rw [List.map_cons]
  dsimp only
  rw [Datum.isAtom_put, Datum.token_put]
  split
  next =>
    rcases rest with _ | ⟨next, rest⟩
    · exact moves_giveUp
    rw [List.map_cons]
    dsimp only
    rw [Datum.isAtom_put, Datum.token_put]
    split
    next =>
      rcases rest with _ | ⟨type, _ | ⟨value, _ | ⟨extra, rest⟩⟩⟩
      · exact moves_giveUp
      · exact (Ty.moves_ofDatum type).bind moves_giveUp
      · have valueMoved : ReadsMoved f value := parts value (by simp)
        exact (Ty.moves_ofDatum type).bind (valueMoved.bind (.pure rfl))
      · exact (Ty.moves_ofDatum type).bind moves_giveUp
    next =>
      rcases rest with _ | ⟨extra, rest⟩
      · rw [List.map_nil]
        dsimp only
        split
        · exact moves_giveUp
        · have valueMoved : ReadsMoved f next := parts next (by simp)
          exact valueMoved.bind (.pure rfl)
      · exact moves_giveUp
  next => exact moves_giveUp

theorem moves_bindings {form : BindingForm} {head : String}
    (parts : ∀ opening elems, .list opening elems ∈ ds → ∀ d ∈ elems, ReadsMoved f d) :
    Moves f (Except.map (putBindings f)) (bindings form head ds)
      (bindings form head (ds.map (Datum.put f))) := by
  induction ds with
  | nil => exact .pure rfl
  | cons d ds ih =>
    cases d with
    | atom token => exact moves_giveUp
    | list opening elems =>
      have rest := ih fun opening elems member => parts opening elems (by simp [member])
      rw [List.map_cons, Datum.put, Datum.putAll_eq, bindings, bindings]
      refine (moves_binding (parts opening elems (by simp))).bind ?_
      cases (binding form head opening opening elems).value with
      | error cause => exact .pure rfl
      | ok first =>
        refine rest.bind ?_
        cases (bindings form head ds).value with
        | error cause => exact .pure rfl
        | ok others => exact .pure rfl

theorem moves_list {head : Datum} {args : List Datum}
    (smaller : ∀ d, sizeOf d < sizeOf (Datum.list opening (head :: args)) → ReadsMoved f d) :
    Moves f (put f) (ofDatum (.list opening (head :: args)))
      (ofDatum (.list (opening.put f) (head.put f :: args.map (Datum.put f)))) := by
  have first : ReadsMoved f head := smaller head (Datum.sizeOf_lt_of_mem List.mem_cons_self)
  have parts : ∀ d ∈ args, ReadsMoved f d := fun d member =>
    smaller d (Datum.sizeOf_lt_of_mem (List.mem_cons_of_mem _ member))
  -- the values of bindings stand two lists deeper than the operands
  have boundParts : ∀ left group, .list left group ∈ args → ∀ form name,
      Moves f (Except.map (putBindings f)) (bindings form name group)
        (bindings form name (group.map (Datum.put f))) := by
    intro left group member form name
    refine moves_bindings fun inner elems within d part => smaller d ?_
    exact Nat.lt_trans (Datum.sizeOf_lt_of_mem part) (Nat.lt_trans
      (Datum.sizeOf_lt_of_mem within)
      (Datum.sizeOf_lt_of_mem (List.mem_cons_of_mem _ member)))
  unfold ofDatum
  dsimp only
  rw [Head.ofDatum_put, Datum.token_put, List.length_map]
  cases Head.ofDatum head with
  | add => exact (moves_ofData parts).bind (.pure rfl)
  | operator => exact first.bind ((moves_ofData parts).bind (.pure rfl))
  | define | misplaced => exact moves_malformed
  | binary op =>
    rcases args with _ | ⟨left, _ | ⟨right, _ | ⟨extra, rest⟩⟩⟩
    · exact moves_malformedForm
    · exact moves_malformedForm
    · have leftMoved : ReadsMoved f left := parts left (by simp)
      have rightMoved : ReadsMoved f right := parts right (by simp)
      exact leftMoved.bind (rightMoved.bind (.pure rfl))
    · exact moves_malformedForm
  | unary op =>
    rcases args with _ | ⟨operand, _ | ⟨extra, rest⟩⟩
    · exact moves_malformedForm
    · have operandMoved : ReadsMoved f operand := parts operand (by simp)
      exact operandMoved.bind (.pure rfl)
    · exact moves_malformedForm
  | branch =>
    rcases args with _ | ⟨cond, _ | ⟨yes, _ | ⟨no, _ | ⟨extra, rest⟩⟩⟩⟩
    · exact moves_malformedForm
    · exact moves_malformedForm
    · exact moves_malformedForm
    · have condMoved : ReadsMoved f cond := parts cond (by simp)
      have yesMoved : ReadsMoved f yes := parts yes (by simp)
      have noMoved : ReadsMoved f no := parts no (by simp)
      exact condMoved.bind (yesMoved.bind (noMoved.bind (.pure rfl)))
    · exact moves_malformedForm
  | letIn | letrec =>
    rcases args with _ | ⟨group, _ | ⟨body, _ | ⟨extra, rest⟩⟩⟩
    · exact moves_malformedForm
    · cases group <;> exact moves_malformedForm
    · cases group with
      | atom token => exact moves_malformedForm
      | list left group =>
        have bodyMoved : ReadsMoved f body := parts body (by simp)
        have boundMoved := boundParts left group (by simp)
        rw [List.map_cons, Datum.put, Datum.putAll_eq]
        refine (boundMoved _ _).bind ?_
        cases (bindings _ head.token.literal group).value with
        | error cause => exact .pure rfl
        | ok bound => exact bodyMoved.bind (.pure rfl)
    · cases group <;> exact moves_malformedForm
  | lambda =>
    rcases args with _ | ⟨group, _ | ⟨body, _ | ⟨extra, rest⟩⟩⟩
    · exact moves_malformedForm
    · cases group <;> exact moves_malformedForm
    · cases group with
      | atom token => exact moves_malformed
      | list left group =>
        have bodyMoved : ReadsMoved f body := parts body (by simp)
        rw [List.map_cons, Datum.put, Datum.putAll_eq]
        refine moves_params.bind ?_
        cases (params opening group).value with
        | error problem => exact .pure rfl
        | ok binders => exact bodyMoved.bind (.pure rfl)
    · cases group <;> exact moves_malformedForm
  | list =>
    rcases args with _ | ⟨first, rest⟩
    · exact .pure rfl
    rw [List.map_cons]
    dsimp only
    rw [Datum.isAtom_put, Datum.token_put]
    split
    next =>
      rcases rest with _ | ⟨type, rest⟩
      · exact moves_malformed
      · have restMoved := @moves_ofData f rest fun d member => parts d (by simp [member])
        exact (Ty.moves_ofDatum type).bind (restMoved.bind (.pure rfl))
    next =>
      have firstMoved : ReadsMoved f first := parts first (by simp)
      have restMoved := @moves_ofData f rest fun d member => parts d (by simp [member])
      exact firstMoved.bind (restMoved.bind (.pure rfl))
  | read =>
    rcases args with _ | ⟨source, _ | ⟨extra, rest⟩⟩
    · exact .pure rfl
    · have sourceMoved : ReadsMoved f source := parts source (by simp)
      exact sourceMoved.bind (.pure rfl)
    · exact moves_malformed

theorem moves_ofDatum (d : Datum) : Moves f (put f) (ofDatum d) (ofDatum (d.put f)) := by
  induction d using Datum.induction with
  | atom token => exact moves_ofToken
  | list opening elems ih =>
    rw [Datum.put, Datum.putAll_eq]
    cases elems with
    | nil => exact moves_malformed
    | cons head args => exact moves_list ih

end Expr

/-! Forms. -/

namespace Decl

variable {f : Token → Position} {opening head : Token} {args : List Datum} {d : Datum}

def putParts (f : Token → Position) (parts : Token × Token × List Datum) :
    Token × Token × List Datum :=
  (parts.1.put f, parts.2.1.put f, parts.2.2.map (Datum.put f))

theorem parts?_put : parts? (d.put f) = (parts? d).map (putParts f) := by
  cases d with
  | atom token => rfl
  | list opening elems =>
    rw [Datum.put, Datum.putAll_eq]
    cases elems with
    | nil => rfl
    | cons head args =>
      rw [List.map_cons, parts?, parts?, Datum.isAtom_put, Datum.token_put]
      split <;> rfl

theorem moves_ofParts :
    Moves f (Option.map (put f)) (ofParts opening head args)
      (ofParts (opening.put f) (head.put f) (args.map (Datum.put f))) := by
  refine (Expr.moves_binding fun d _ => Expr.moves_ofDatum d).bind ?_
  cases (Expr.binding .define head.literal head opening args).value with
  | error cause => exact .pure rfl
  | ok bound => exact .pure rfl

end Decl

namespace Form

variable {f : Token → Position} {d : Datum} {item : Item} {items : List Item}
  {tokens : List Token} {finish finish' : Token}

theorem moves_ofDatum : Moves f (Option.map (put f)) (ofDatum d) (ofDatum (d.put f)) := by
  unfold ofDatum
  rw [Decl.parts?_put]
  cases Decl.parts? d with
  | none => exact (Expr.moves_ofDatum d).bind (.pure rfl)
  | some parts =>
    refine Decl.moves_ofParts.bind (.pure ?_)
    cases (Decl.ofParts parts.1 parts.2.1 parts.2.2).value <;> rfl

theorem moves_ofItem : Moves f (Option.map (put f)) (ofItem item) (ofItem (item.put f)) := by
  cases item with
  | stray token => exact .noteThen (.pure rfl)
  | form datum unclosed =>
    have unclosedMoved : List.Forall₂ (Moves f id)
        (unclosed.map fun token => Diagnosed.note token ParseError.unclosedParen)
        ((unclosed.map (Token.put f)).map fun token => Diagnosed.note token .unclosedParen) := by
      rw [List.map_map, List.forall₂_map_left_iff, List.forall₂_map_right_iff]
      exact List.forall₂_same.mpr fun token _ => .note rfl
    exact (Moves.sequence unclosedMoved).bind moves_ofDatum

theorem moves_ofStream :
    Moves f (List.map (put f)) (ofStream ⟨tokens, finish⟩)
      (ofStream ⟨tokens.map (Token.put f), finish'⟩) := by
  unfold ofStream ofItems
  rw [Item.ofTokens_put, List.map_map]
  have each : List.Forall₂ (Moves f (Option.map (put f))) ((Item.ofTokens tokens).map ofItem)
      ((Item.ofTokens tokens).map (ofItem ∘ Item.put f)) := by
    rw [List.forall₂_map_left_iff, List.forall₂_map_right_iff]
    exact List.forall₂_same.mpr fun item _ => moves_ofItem
  refine (Moves.sequence each).bind (.pure ?_)
  rw [List.filterMap_map, List.map_filterMap]
  rfl

end Form

end TypedForms
