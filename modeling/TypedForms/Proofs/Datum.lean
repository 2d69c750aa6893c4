import TypedForms.Datum

/-! The reader groups tokens by their parentheses, and finds no stray or unclosed parenthesis,
exactly when the tokens spell the data it returns. -/
namespace TypedForms

namespace Token

/-- The parentheses around a form. -/
structure Parens (opening closing : Token) : Prop where
  opens : opening.kind = .mark .lparen
  closes : closing.kind = .mark .rparen

/-- Tokens between two others. -/
def enclose (opening : Token) (inside : List Token) (closing : Token) : List Token :=
  opening :: (inside ++ [closing])

end Token

namespace Datum

mutual

/-- The tokens of a datum, its closing parentheses included. -/
inductive Spells : List Token → Datum → Prop where
  | atom {token} (left : token.kind ≠ .mark .lparen) (right : token.kind ≠ .mark .rparen) :
    Spells [token] (.atom token)
  | list {opening closing inside elems} (parens : Token.Parens opening closing)
    (inner : SpellAll inside elems) : Spells (opening.enclose inside closing) (.list opening elems)

inductive SpellAll : List Token → List Datum → Prop where
  | nil : SpellAll [] []
  | cons {first rest d ds} (head : Spells first d) (tail : SpellAll rest ds) :
    SpellAll (first ++ rest) (d :: ds)

end

namespace SpellAll

theorem append {tokens tokens' : List Token} {ds ds' : List Datum} (left : SpellAll tokens ds)
    (right : SpellAll tokens' ds') : SpellAll (tokens ++ tokens') (ds ++ ds') := by
  induction ds generalizing tokens with
  | nil =>
    cases left
    exact right
  | cons d ds ih =>
    cases left with | cons head tail =>
    rw [List.append_assoc]
    exact .cons head (ih tail)

theorem of_append {tokens : List Token} {ds ds' : List Datum}
    (spells : SpellAll tokens (ds ++ ds')) :
    ∃ left right, tokens = left ++ right ∧ SpellAll left ds ∧ SpellAll right ds' := by
  induction ds generalizing tokens with
  | nil => exact ⟨[], tokens, rfl, nil, spells⟩
  | cons d ds ih =>
    cases spells with | cons head tail =>
    obtain ⟨left, right, rfl, leftSpells, rightSpells⟩ := ih tail
    exact ⟨_, right, (List.append_assoc ..).symm, .cons head leftSpells, rightSpells⟩

theorem single_iff {tokens : List Token} {d : Datum} : SpellAll tokens [d] ↔ Spells tokens d := by
  constructor
  · intro spells
    cases spells with | cons head tail =>
    cases tail
    simpa using head
  · intro spells
    simpa using cons spells nil

end SpellAll

@[simp] theorem token_atom {token : Token} : (atom token).token = token := rfl

@[simp] theorem isAtom_atom {token : Token} {kind : Token.Kind} :
    (atom token).isAtom kind = decide (token.kind = kind) := by
  simp [isAtom, atomKind?, Bool.beq_eq_decide_eq]

theorem isAtom_iff {kind : Token.Kind} {d : Datum} :
    d.isAtom kind = true ↔ ∃ token, d = .atom token ∧ token.kind = kind := by
  cases d <;> simp [isAtom, atomKind?]

theorem Spells.of_atom {tokens : List Token} {token : Token}
    (spells : Spells tokens (.atom token)) :
    tokens = [token] := by
  cases spells
  rfl

theorem SpellAll.of_atom_cons {tokens : List Token} {token : Token} {ds : List Datum}
    (spells : SpellAll tokens (.atom token :: ds)) :
    ∃ rest, tokens = token :: rest ∧ SpellAll rest ds := by
  cases spells with | cons head tail =>
  exact ⟨_, by rw [head.of_atom, List.singleton_append], tail⟩

theorem Spells.ofKind {token : Token} {kind : Token.Kind} (same : token.kind = kind)
    (left : kind ≠ .mark .lparen) (right : kind ≠ .mark .rparen) :
    Spells [token] (.atom token) := by
  subst same
  exact .atom left right

theorem sizeOf_lt_of_mem {d : Datum} {opening : Token} {elems : List Datum} (member : d ∈ elems) :
    sizeOf d < sizeOf (Datum.list opening elems) := by
  have smaller := List.sizeOf_lt_of_mem member
  rw [Datum.list.sizeOf_spec]
  omega

/-- Induction over data. What stands in a list at any depth is smaller than the list. -/
@[elab_as_elim]
theorem induction {motive : Datum → Prop} (atom : ∀ token, motive (.atom token))
    (list : ∀ opening elems, (∀ d, sizeOf d < sizeOf (Datum.list opening elems) → motive d) →
      motive (.list opening elems)) (d : Datum) : motive d := by
  induction size : sizeOf d using Nat.strongRecOn generalizing d with
  | ind n ih =>
    cases d with
    | atom token => exact atom token
    | list opening elems => exact list opening elems fun d smaller => ih _ (size ▸ smaller) d rfl

end Datum

namespace Reader

open Datum (Spells SpellAll)

variable {r : Reader} {token : Token} {tokens : List Token} {d : Datum} {ds : List Datum}

/-! Spelled data are read back. -/

theorem step_opening (kind : token.kind = .mark .lparen) :
    r.step token = ⟨(token, []) :: r.stack, r.items⟩ := by
  simp only [step, kind]

theorem step_closing {opening : Token} {elems : List Datum} {outer : List (Token × List Datum)}
    {items : List Item} (kind : token.kind = .mark .rparen) :
    step ⟨(opening, elems) :: outer, items⟩ token =
      add (.list opening elems.reverse) outer items := by
  simp only [step, kind]

theorem step_atom (left : token.kind ≠ .mark .lparen) (right : token.kind ≠ .mark .rparen) :
    r.step token = add (.atom token) r.stack r.items := by
  unfold step
  split
  · contradiction
  · contradiction
  · rfl

/-- Adds data one after the other. -/
def addAll (r : Reader) (ds : List Datum) : Reader :=
  ds.foldl (fun r d => add d r.stack r.items) r

theorem addAll_open {opening : Token} {elems : List Datum} {outer : List (Token × List Datum)}
    {items : List Item} :
    addAll ⟨(opening, elems) :: outer, items⟩ ds =
      ⟨(opening, ds.reverse ++ elems) :: outer, items⟩ := by
  induction ds generalizing elems with
  | nil => rfl
  | cons d ds ih =>
    rw [List.reverse_cons, List.append_assoc]
    exact ih

theorem addAll_start {items : List Item} :
    addAll ⟨[], items⟩ ds = ⟨[], (ds.map (.form · [])).reverse ++ items⟩ := by
  induction ds generalizing items with
  | nil => rfl
  | cons d ds ih =>
    rw [List.map_cons, List.reverse_cons, List.append_assoc]
    exact ih

mutual

theorem foldl_step_of_spells {tokens : List Token} {d : Datum} (r : Reader) :
    Spells tokens d → tokens.foldl step r = add d r.stack r.items
  | .atom left right => step_atom left right
  | .list parens inner => by
    rw [Token.enclose, List.foldl_cons, List.foldl_append, step_opening parens.opens,
      foldl_step_of_spellAll _ inner, addAll_open, List.append_nil, List.foldl_cons,
      List.foldl_nil, step_closing parens.closes, List.reverse_reverse]

theorem foldl_step_of_spellAll {tokens : List Token} {ds : List Datum} (r : Reader) :
    SpellAll tokens ds → tokens.foldl step r = r.addAll ds
  | .nil => rfl
  | .cons head tail => by
    rw [List.foldl_append, foldl_step_of_spells r head, foldl_step_of_spellAll _ tail]
    rfl

end

/-! What was read is spelled by the tokens. -/

/-- The tokens of items in which every parenthesis is closed. The items stand in reverse. -/
inductive SpellItems : List Token → List Item → Prop where
  | nil : SpellItems [] []
  | form {before tokens d items} (earlier : SpellItems before items) (spells : Spells tokens d) :
    SpellItems (before ++ tokens) (.form d [] :: items)
  | stray {before token items} (earlier : SpellItems before items)
    (closes : token.kind = .mark .rparen) : SpellItems (before ++ [token]) (.stray token :: items)

/-- The tokens of the lists that are still open. -/
inductive SpellsOpen : List Token → List (Token × List Datum) → Prop where
  | nil : SpellsOpen [] []
  | cons {before inside opening elems outer} (around : SpellsOpen before outer)
    (opens : opening.kind = .mark .lparen) (inner : SpellAll inside elems.reverse) :
    SpellsOpen (before ++ opening :: inside) ((opening, elems) :: outer)

/-- The reader holds all the tokens it was given, those of the open lists last. -/
def Holds (r : Reader) (tokens : List Token) : Prop :=
  ∃ finished pending, tokens = finished ++ pending ∧ SpellItems finished r.items ∧
    SpellsOpen pending r.stack

theorem Holds.add {stack : List (Token × List Datum)} {items : List Item} {tokens' : List Token}
    (holds : Holds ⟨stack, items⟩ tokens) (spells : Spells tokens' d) :
    Holds (add d stack items) (tokens ++ tokens') := by
  obtain ⟨finished, pending, rfl, done, rest⟩ := holds
  cases rest with
  | nil => exact ⟨_, [], by simp, done.form spells, .nil⟩
  | cons around opens inner =>
    have inner' := inner.append (SpellAll.single_iff.mpr spells)
    rw [← List.reverse_cons] at inner'
    exact ⟨finished, _, by simp, done, .cons around opens inner'⟩

theorem Holds.step (holds : Holds r tokens) (token : Token) :
    Holds (r.step token) (tokens ++ [token]) := by
  by_cases opens : token.kind = .mark .lparen
  · obtain ⟨finished, pending, rfl, done, rest⟩ := holds
    rw [step_opening opens]
    exact ⟨finished, _, List.append_assoc .., done, .cons rest opens .nil⟩
  by_cases closes : token.kind = .mark .rparen
  · obtain ⟨stack, items⟩ := r
    obtain ⟨finished, pending, rfl, done, rest⟩ := holds
    cases rest with
    | nil =>
      refine ⟨finished ++ [token], [], by simp, ?_, ?_⟩
      · simpa only [Reader.step, closes] using done.stray closes
      · simpa only [Reader.step, closes] using .nil
    | @cons before inside opening _ outer around opens inner =>
      have closed := Spells.list ⟨opens, closes⟩ inner
      have outside : Holds ⟨outer, items⟩ (finished ++ before) := ⟨_, _, rfl, done, around⟩
      rw [step_closing closes]
      simpa [Token.enclose] using outside.add closed
  · rw [step_atom opens closes]
    exact holds.add (.atom opens closes)

theorem Holds.foldl {tokens' : List Token} (holds : Holds r tokens) :
    Holds (tokens'.foldl Reader.step r) (tokens ++ tokens') := by
  induction tokens' generalizing r tokens with
  | nil => simpa using holds
  | cons token tokens' ih =>
    have rest := ih (holds.step token)
    rwa [List.append_assoc] at rest

/-- Whatever the tokens are, all of them are held in the end. -/
theorem holds_foldl (tokens : List Token) : Holds (tokens.foldl step .start) tokens :=
  Holds.foldl ⟨[], [], rfl, .nil, .nil⟩

/-- Items without a stray parenthesis are data. -/
theorem SpellItems.spellAll {items : List Item} (spells : SpellItems tokens items)
    (forms : items.reverse = ds.map (.form · [])) : SpellAll tokens ds := by
  induction spells generalizing ds with
  | nil =>
    obtain rfl := List.map_eq_nil_iff.mp forms.symm
    exact .nil
  | form _ last ih =>
    rw [List.reverse_cons, eq_comm, List.map_eq_append_iff] at forms
    obtain ⟨ds, lasts, rfl, same, lastSame⟩ := forms
    obtain ⟨d', rfl, sameLast⟩ := List.map_eq_singleton_iff.mp lastSame
    obtain rfl := (Item.form.inj sameLast).1
    exact (ih same.symm).append (SpellAll.single_iff.mpr last)
  | stray =>
    have member := forms ▸ List.mem_reverse.mpr List.mem_cons_self
    simp at member

end Reader

/-- The items of a token sequence are forms in order exactly if the tokens spell them. -/
theorem Item.ofTokens_eq_forms_iff {tokens : List Token} {ds : List Datum} :
    ofTokens tokens = ds.map (.form · []) ↔ Datum.SpellAll tokens ds := by
  constructor
  · intro forms
    obtain ⟨finished, pending, same, done, rest⟩ := Reader.holds_foldl tokens
    rw [ofTokens, Reader.finish] at forms
    split at forms
    next closed =>
      rw [closed] at rest
      cases rest
      simpa [same] using done.spellAll forms
    next listsOpen =>
      -- a list is still open, so the last form has an unclosed parenthesis
      have member := forms ▸ List.mem_reverse.mpr List.mem_cons_self
      simp [listsOpen] at member
  · intro spells
    rw [ofTokens, Reader.foldl_step_of_spellAll _ spells, Reader.start, Reader.addAll_start]
    simp [Reader.finish]

end TypedForms
