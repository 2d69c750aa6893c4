import TypedForms.Proofs.Strict.Datum
import TypedForms.Proofs.Strict.Expr

/-! Sources are read form by form, in a loop that goes on until the token that marks the end. What
comes back from reading a datum may be nothing, and is only looked at where it is not. -/
namespace TypedForms

open Guarded

namespace Form.Strict

/-- The form of a datum. What follows the head of a definition is cut off after the head has been
found. -/
def ofDatum : Datum → Guarded ParseError (Option Form)
  | .atom token => do
    let e ← Expr.Strict.ofDatum (.atom token)
    pure (some (.expr e))
  | .list opening elems => do
    if ← Expr.Strict.startsWith (.keyword .define) elems then
      let head ← Expr.Strict.headToken opening elems
      let args ← dropFirst 1 elems
      let found ← Expr.Strict.binding Expr.Strict.ofDatum .define head.literal head opening args
      pure (found.map fun bound => .define ⟨opening, bound.1, bound.2⟩)
    else
      let e ← Expr.Strict.ofDatum (.list opening elems)
      pure (some (.expr e))

/-- The forms that are still to be read, and the token at which reading ends. -/
def ofFeed : (rounds : Nat) → Feed → Guarded ParseError (List Form × Token)
  | 0, _ => stop
  | rounds + 1, feed =>
    if feed.current.kind = .eof then pure ([], feed.current)
    else do
      let (found, after) ← Reader.Strict.datum (2 * feed.ahead.length + 2) feed
      match found with
      | none => ofFeed rounds after.next
      | some d => do
        let form ← ofDatum d
        let (forms, finish) ← ofFeed rounds after.next
        pure (form.toList ++ forms, finish)

end Form.Strict

namespace Program.Strict

/-- Goes through the forms with the definitions so far, and the result once it has been found. -/
def collect (finish : Token) (decls : List Decl) : Option Expr → List Form →
    Guarded ParseError Program
  | some result, [] => pure ⟨decls, result⟩
  | none, [] => do
    total (Diagnosed.note finish .noResult)
    pure ⟨decls, .broken finish "missing result expression"⟩
  | some result, form :: forms => do
    total (Form.noteExtra form)
    collect finish decls (some result) forms
  | none, .define decl :: forms => collect finish (decls ++ [decl]) none forms
  | none, .expr result :: forms => collect finish decls (some result) forms

def ofStream (stream : TokenStream) : Guarded ParseError Program := do
  let (forms, finish) ← Form.Strict.ofFeed (stream.tokens.length + 1) (.start stream)
  collect finish [] none forms

end Program.Strict

namespace Form

theorem ofDatum_eq {d : Datum} : Strict.ofDatum d = total (ofDatum d) := by
  cases d with
  | atom token =>
    rw [Strict.ofDatum, Expr.ofDatum_eq]
    exact total_bind total_pure.symm
  | list opening elems =>
    rw [Strict.ofDatum, ofDatum]
    cases elems with
    | nil =>
      rw [Expr.startsWith_nil, pure_bind, Expr.ofDatum_eq]
      exact total_bind total_pure.symm
    | cons head args =>
      rw [Expr.startsWith_cons, pure_bind, Decl.parts?]
      cases head.isAtom (.keyword .define) with
      | false =>
        simp only [Bool.false_eq_true, if_false, Expr.ofDatum_eq]
        exact total_bind total_pure.symm
      | true =>
        have boundEq := @Expr.binding_eq Expr.Strict.ofDatum .define head.token.literal head.token
          opening args fun d _ => Expr.ofDatum_eq
        simp only [if_true, Expr.headToken_cons, pure_bind, dropFirst_one_cons, boundEq]
        refine total_bind_eq (g := fun bound =>
          pure (bound.map fun bound => .define ⟨opening, bound.1, bound.2⟩)) total_pure.symm ?_
        unfold Decl.ofParts
        cases found : (Expr.binding .define head.token.literal head.token opening args).value with
        | error | ok => apply Diagnosed.ext <;> simp [found, Except.toOption]

theorem ofItems_cons {item : Item} {items : List Item} :
    ofItems (item :: items) = (do
      let form ← ofItem item
      let forms ← ofItems items
      pure (form.toList ++ forms)) := by
  apply Diagnosed.ext
  · cases found : (ofItem item).value <;> simp [ofItems, Diagnosed.sequence, found]
  · simp [ofItems, Diagnosed.sequence]

theorem notes_sequence_unclosed {unclosed : List Token} :
    (Diagnosed.sequence (unclosed.map fun token =>
      Diagnosed.note token ParseError.unclosedParen)).notes = Reader.unclosedNotes unclosed := by
  induction unclosed with
  | nil => rfl
  | cons token unclosed ih => simp [Diagnosed.sequence, ih, Reader.unclosedNotes]

/-- Every round of the loop takes at least one token. -/
theorem ofFeed_eq {rounds : Nat} {tokens : List Token} {finish : Token}
    (ends : finish.kind = .eof) (inside : ∀ t ∈ tokens, t.kind ≠ .eof)
    (enough : tokens.length < rounds) :
    Strict.ofFeed rounds (.start ⟨tokens, finish⟩) =
      total ((·, finish) <$> ofItems (Item.ofTokens tokens)) := by
  induction rounds generalizing tokens with
  | zero => omega
  | succ rounds ih =>
    cases tokens with
    | nil =>
      simp only [Strict.ofFeed, Feed.start, List.headD_nil, ends, if_true]
      exact total_pure.symm
    | cons token tokens =>
      obtain ⟨notEnd, later⟩ := List.forall_mem_cons.mp inside
      obtain ⟨item, current, ahead, same, shorter, itemsEq⟩ := Reader.datum_item ends inside
      have fewer : ahead.length ≤ tokens.length := shorter.length_le
      rw [List.length_cons] at enough
      have restEq : Strict.ofFeed rounds (Feed.next ⟨current, ahead, finish⟩) = _ :=
        ih (fun t member => later t (shorter.mem member)) (by omega)
      -- the last token of the item is the current one, and the next round starts after it
      simp only [Strict.ofFeed, Feed.start, List.headD_cons, notEnd, if_false, List.tail_cons]
      rw [same, itemsEq, ofItems_cons]
      cases item with
      | stray token =>
        refine total_bind_eq (g := fun _ => (·, finish) <$> ofItems (Item.ofTokens ahead))
          restEq ?_
        apply Diagnosed.ext <;> simp [ofItem, Diagnosed.note, Item.notes]
      | form d unclosed =>
        refine total_bind_eq (g := fun _ => do
          let form ← ofDatum d
          let forms ← ofItems (Item.ofTokens ahead)
          pure (form.toList ++ forms, finish)) ?_ ?_
        · simp only [Item.datum?, ofDatum_eq, restEq]
          refine total_bind (total_bind_eq (g := fun found => pure (_ ++ found.1, found.2))
            total_pure.symm ?_)
          apply Diagnosed.ext <;> simp
        · apply Diagnosed.ext <;> simp [ofItem, notes_sequence_unclosed, Item.notes]

end Form

namespace Program

theorem collect_some {finish : Token} {decls : List Decl} {result : Expr} {forms : List Form} :
    Strict.collect finish decls (some result) forms = total (do
      let _ ← Diagnosed.sequence (forms.map Form.noteExtra)
      pure ⟨decls, result⟩) := by
  induction forms with
  | nil => exact total_pure.symm
  | cons form forms ih =>
    rw [Strict.collect, ih]
    refine total_bind_eq (g := fun _ => _) rfl ?_
    apply Diagnosed.ext <;> simp [Diagnosed.sequence]

theorem collect_none {finish : Token} {decls : List Decl} {forms : List Form} :
    Strict.collect finish decls none forms =
      total ((fun p => { p with decls := decls ++ p.decls }) <$> ofForms finish forms) := by
  induction forms generalizing decls with
  | nil =>
    rw [Strict.collect, ofForms]
    refine total_bind_eq (g := fun _ => pure _) total_pure.symm ?_
    apply Diagnosed.ext <;> simp
  | cons form forms ih =>
    cases form with
    | define decl =>
      rw [Strict.collect, ih, ofForms]
      congr 1
      apply Diagnosed.ext <;> simp
    | expr result =>
      rw [Strict.collect, collect_some, ofForms]
      congr 1
      apply Diagnosed.ext <;> simp

theorem ofStream_eq {stream : TokenStream} (ends : stream.finish.kind = .eof)
    (inside : ∀ t ∈ stream.tokens, t.kind ≠ .eof) :
    Strict.ofStream stream = total (ofStream stream) := by
  obtain ⟨tokens, finish⟩ := stream
  rw [Strict.ofStream, Form.ofFeed_eq ends inside (Nat.lt_succ_self _)]
  refine total_bind_eq (g := fun found => ofForms found.2 found.1) ?_ ?_
  · simp only [collect_none, List.nil_append]
    rw [id_map']
  · apply Diagnosed.ext <;> simp [ofStream, Form.ofStream]

end Program

end TypedForms
