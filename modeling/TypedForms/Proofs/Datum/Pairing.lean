import Mathlib.Data.List.Basic
import TypedForms.Proofs.Datum

/-! Which parentheses belong together. An opening and a closing one do if the tokens between them
are balanced. This is said of tokens as they stand, without a reader: a closing parenthesis is
stray if none before it belongs to it, and an opening one is unclosed if none after it does. -/
namespace TypedForms

namespace Token

/-- How often a mark stands among tokens. -/
def count (mark : Mark) (tokens : List Token) : Nat := (tokens.map (·.kind)).count (.mark mark)

/-- At no point have more parentheses been closed than opened. -/
def Opens (tokens : List Token) : Prop :=
  ∀ n ≤ tokens.length, count .rparen (tokens.take n) ≤ count .lparen (tokens.take n)

instance : DecidablePred Opens := fun _ => inferInstanceAs (Decidable (∀ n ≤ _, _))

/-- At no point have more been closed than opened, and in the end as many. -/
def Balanced (tokens : List Token) : Prop :=
  Opens tokens ∧ count .rparen tokens = count .lparen tokens

instance : DecidablePred Balanced := fun _ => inferInstanceAs (Decidable (_ ∧ _))

/-- A closing parenthesis after these tokens has one of them to close. -/
def HasOpen (before : List Token) : Prop :=
  ∃ i, ∃ _ : i < before.length, before[i].kind = .mark .lparen ∧ Balanced (before.drop (i + 1))

/-- An opening parenthesis before these tokens is closed by one of them. -/
def HasClose (after : List Token) : Prop :=
  ∃ j, ∃ _ : j < after.length, after[j].kind = .mark .rparen ∧ Balanced (after.take j)

instance : DecidablePred HasOpen := fun _ => inferInstanceAs (Decidable (∃ _, _))

instance : DecidablePred HasClose := fun _ => inferInstanceAs (Decidable (∃ _, _))

/-- A token, with those before it and those after it. -/
structure Occurrence where
  before : List Token
  token : Token
  after : List Token

namespace Occurrence

/-- A closing parenthesis that closes none. -/
def IsStray (o : Occurrence) : Prop := o.token.kind = .mark .rparen ∧ ¬ HasOpen o.before

/-- An opening parenthesis that is never closed. -/
def IsUnclosed (o : Occurrence) : Prop := o.token.kind = .mark .lparen ∧ ¬ HasClose o.after

instance : DecidablePred IsStray := fun _ => inferInstanceAs (Decidable (_ ∧ _))

instance : DecidablePred IsUnclosed := fun _ => inferInstanceAs (Decidable (_ ∧ _))

end Occurrence

/-- The occurrences of tokens that come after others. -/
def occurrences (before : List Token) : List Token → List Occurrence
  | [] => []
  | token :: after => ⟨before, token, after⟩ :: occurrences (before ++ [token]) after

/-- The tokens whose occurrences are picked. -/
def picked (pick : Occurrence → Bool) (before tokens : List Token) : List Token :=
  ((occurrences before tokens).filter pick).map (·.token)

/-- The closing parentheses that close none, in order. -/
def strays (tokens : List Token) : List Token := picked (·.IsStray) [] tokens

/-- All tokens but those. -/
def withoutStrays (tokens : List Token) : List Token := picked (! decide ·.IsStray) [] tokens

/-- The opening parentheses that are never closed, in order. -/
def unclosed (tokens : List Token) : List Token := picked (·.IsUnclosed) [] tokens

variable {mark : Mark} {token opening closing : Token} {n : Nat}
  {tokens before after left right inside : List Token}

/-! Counting. -/

@[simp] theorem count_nil : count mark [] = 0 := rfl

@[simp] theorem count_append :
    count mark (left ++ right) = count mark left + count mark right := by
  simp [count]

theorem count_cons :
    count mark (token :: tokens) =
      count mark tokens + if token.kind = .mark mark then 1 else 0 := by
  simp [count, List.count_cons]

theorem count_opening (opens : opening.kind = .mark .lparen) :
    count .lparen (opening :: tokens) = count .lparen tokens + 1 ∧
      count .rparen (opening :: tokens) = count .rparen tokens := by
  simp [count_cons, opens]

theorem count_closing (closes : closing.kind = .mark .rparen) :
    count .lparen (closing :: tokens) = count .lparen tokens ∧
      count .rparen (closing :: tokens) = count .rparen tokens + 1 := by
  simp [count_cons, closes]

namespace Opens

theorem take_le (opens : Opens tokens) (n : Nat) :
    count .rparen (tokens.take n) ≤ count .lparen (tokens.take n) := by
  by_cases inside : n ≤ tokens.length
  · exact opens n inside
  · have whole := opens tokens.length (Nat.le_refl _)
    rw [List.take_length] at whole
    rwa [List.take_of_length_le (by omega)]

theorem nil : Opens [] := by decide

theorem append (first : Opens left) (second : Opens right) : Opens (left ++ right) := by
  intro n _
  have firstLe := first.take_le n
  have secondLe := second.take_le (n - left.length)
  rw [List.take_append, count_append, count_append]
  omega

theorem cons (opens : opening.kind = .mark .lparen) (rest : Opens tokens) :
    Opens (opening :: tokens) := by
  intro n _
  cases n with
  | zero => exact Nat.le_refl _
  | succ n =>
    have restLe := rest.take_le n
    rw [List.take_succ_cons, (count_opening opens).1, (count_opening opens).2]
    omega

end Opens

namespace Balanced

theorem drop_le (balanced : Balanced tokens) (n : Nat) :
    count .lparen (tokens.drop n) ≤ count .rparen (tokens.drop n) := by
  have whole := balanced.2
  have first := balanced.1.take_le n
  rw [← List.take_append_drop n tokens, count_append, count_append] at whole
  omega

theorem nil : Balanced [] := by decide

theorem single (left : token.kind ≠ .mark .lparen) (right : token.kind ≠ .mark .rparen) :
    Balanced [token] := by
  constructor
  · intro n _
    cases n <;> simp [count_cons, left, right]
  · simp [count_cons, left, right]

theorem append (first : Balanced left) (second : Balanced right) : Balanced (left ++ right) := by
  constructor
  · exact first.1.append second.1
  · rw [count_append, count_append, first.2, second.2]

theorem enclose (parens : Parens opening closing) (inner : Balanced inside) :
    Balanced (opening.enclose inside closing) := by
  have lastLe (n : Nat) : count .rparen ([closing].take n) ≤ 1 := by
    cases n <;> simp [count_closing parens.closes]
  constructor
  · intro n _
    cases n with
    | zero => exact Nat.le_refl _
    | succ n =>
      have innerLe := inner.1.take_le n
      have closingLe := lastLe (n - inside.length)
      rw [Token.enclose, List.take_succ_cons, List.take_append, (count_opening parens.opens).1,
        (count_opening parens.opens).2, count_append, count_append]
      omega
  · rw [Token.enclose, (count_opening parens.opens).1, (count_opening parens.opens).2,
      count_append, count_append, (count_closing parens.closes).1,
      (count_closing parens.closes).2, inner.2, count_nil, count_nil]

end Balanced

theorem hasOpen_of_split (opens : opening.kind = .mark .lparen) (balanced : Balanced inside) :
    HasOpen (before ++ opening :: inside) :=
  ⟨before.length, by simp, by simpa using opens, by simpa using balanced⟩

theorem hasClose_of_split (closes : closing.kind = .mark .rparen) (balanced : Balanced inside) :
    HasClose (inside ++ closing :: after) :=
  ⟨inside.length, by simp, by simpa using closes, by simpa using balanced⟩

/-- No parenthesis is open where from every point on at least as many are closed as opened. -/
theorem not_hasOpen (enough : ∀ n, count .lparen (tokens.drop n) ≤ count .rparen (tokens.drop n)) :
    ¬ HasOpen tokens := by
  rintro ⟨i, inside, opens, balanced⟩
  have more := enough i
  have equal := balanced.2
  rw [List.drop_eq_getElem_cons inside, (count_opening opens).1, (count_opening opens).2] at more
  omega

theorem not_hasClose (opens : Opens tokens) : ¬ HasClose tokens := by
  rintro ⟨j, inside, closes, balanced⟩
  have more := opens.take_le (j + 1)
  have equal := balanced.2
  rw [List.take_succ_eq_append_getElem inside, count_append, count_append,
    (count_closing closes).1, (count_closing closes).2, count_nil, count_nil] at more
  omega

/-! Picking tokens. -/

section Picked

variable {pick : Occurrence → Bool}

@[simp] theorem picked_nil : picked pick before [] = [] := rfl

theorem picked_cons :
    picked pick before (token :: tokens) =
      (if pick ⟨before, token, tokens⟩ then [token] else []) ++
        picked pick (before ++ [token]) tokens := by
  unfold picked
  rw [occurrences, List.filter_cons]
  split <;> rfl

/-- A choice that depends on the tokens before can be made part by part. -/
theorem picked_append
    (blind : ∀ before token after after',
      pick ⟨before, token, after⟩ = pick ⟨before, token, after'⟩) :
    picked pick before (left ++ right) =
      picked pick before left ++ picked pick (before ++ left) right := by
  induction left generalizing before with
  | nil => simp
  | cons token left ih =>
    rw [List.cons_append, picked_cons, picked_cons, ih, blind before token _ left,
      List.append_assoc, List.append_assoc, List.singleton_append]

/-- One that depends on the tokens after does not depend on where they start. -/
theorem picked_before
    (blind : ∀ before before' token after,
      pick ⟨before, token, after⟩ = pick ⟨before', token, after⟩)
    (before' : List Token) : picked pick before tokens = picked pick before' tokens := by
  induction tokens generalizing before before' with
  | nil => rfl
  | cons token tokens ih => rw [picked_cons, picked_cons, blind before before', ih]

theorem picked_not_of_picked (nothing : picked pick before tokens = []) :
    picked (! pick ·) before tokens = tokens := by
  induction tokens generalizing before with
  | nil => rfl
  | cons token tokens ih =>
    rw [picked_cons, List.append_eq_nil_iff] at nothing
    have passed : pick ⟨before, token, tokens⟩ = false := by
      simpa using nothing.1
    rw [picked_cons, ih nothing.2, passed]
    rfl

end Picked

/-! Stray parentheses. Whether one is stray depends on the tokens before it. -/

theorem strays_append :
    strays (left ++ right) = strays left ++ picked (·.IsStray) left right :=
  picked_append fun _ _ _ _ => rfl

theorem withoutStrays_append :
    withoutStrays (left ++ right) = withoutStrays left ++ picked (! decide ·.IsStray) left right :=
  picked_append fun _ _ _ _ => rfl

theorem picked_isStray_cons (closes : token.kind ≠ .mark .rparen) :
    picked (·.IsStray) before (token :: tokens) =
      picked (·.IsStray) (before ++ [token]) tokens := by
  simp [picked_cons, Occurrence.IsStray, closes]

/-! Unclosed ones. Whether one is unclosed depends on the tokens after it. -/

theorem unclosed_cons :
    unclosed (token :: tokens) =
      (if Occurrence.IsUnclosed ⟨[], token, tokens⟩ then [token] else []) ++ unclosed tokens := by
  unfold unclosed
  rw [picked_cons, picked_before (fun _ _ _ _ => rfl) []]
  simp

theorem unclosed_cons_of_ne (opens : token.kind ≠ .mark .lparen) :
    unclosed (token :: tokens) = unclosed tokens := by
  simp [unclosed_cons, Occurrence.IsUnclosed, opens]

theorem unclosed_cons_of_hasClose (closed : HasClose tokens) :
    unclosed (token :: tokens) = unclosed tokens := by
  simp [unclosed_cons, Occurrence.IsUnclosed, closed]

theorem unclosed_cons_of_not_hasClose (opens : token.kind = .mark .lparen)
    (never : ¬ HasClose tokens) : unclosed (token :: tokens) = token :: unclosed tokens := by
  simp [unclosed_cons, Occurrence.IsUnclosed, opens, never]

end Token

namespace Datum

open Token

mutual

theorem Spells.balanced {tokens : List Token} {d : Datum} : Spells tokens d → Balanced tokens
  | .atom left right => .single left right
  | .list parens inner => .enclose parens inner.balanced

theorem SpellAll.balanced {tokens : List Token} {ds : List Datum} :
    SpellAll tokens ds → Balanced tokens
  | .nil => .nil
  | .cons head tail => head.balanced.append tail.balanced

end

mutual

/-- No parenthesis of a datum is stray, whatever stands before. -/
theorem Spells.picked_isStray {tokens : List Token} {d : Datum} (before : List Token) :
    Spells tokens d → picked (·.IsStray) before tokens = []
  | .atom _ right => picked_isStray_cons right
  | @Spells.list opening _ inside _ parens inner => by
    have notClosing : opening.kind ≠ .mark .rparen := by simp [parens.opens]
    have closed : HasOpen (before ++ opening :: inside) :=
      hasOpen_of_split parens.opens inner.balanced
    rw [Token.enclose, picked_isStray_cons notClosing, picked_append fun _ _ _ _ => rfl,
      inner.picked_isStray, picked_cons]
    simp [Occurrence.IsStray, closed]

theorem SpellAll.picked_isStray {tokens : List Token} {ds : List Datum} (before : List Token) :
    SpellAll tokens ds → picked (·.IsStray) before tokens = []
  | .nil => rfl
  | .cons head tail => by
    rw [picked_append fun _ _ _ _ => rfl, head.picked_isStray, tail.picked_isStray]
    rfl

end

theorem Spells.strays_append {before tokens : List Token} {d : Datum} (spells : Spells tokens d) :
    strays (before ++ tokens) = strays before := by
  rw [Token.strays_append, spells.picked_isStray, List.append_nil]

theorem Spells.withoutStrays_append {before tokens : List Token} {d : Datum}
    (spells : Spells tokens d) :
    withoutStrays (before ++ tokens) = withoutStrays before ++ tokens := by
  rw [Token.withoutStrays_append, picked_not_of_picked (spells.picked_isStray before)]

mutual

/-- None is unclosed, whatever stands after. -/
theorem Spells.unclosed_append {tokens : List Token} {d : Datum} (rest : List Token) :
    Spells tokens d → unclosed (tokens ++ rest) = unclosed rest
  | .atom left _ => unclosed_cons_of_ne left
  | @Spells.list _ closing inside _ parens inner => by
    have notOpening : closing.kind ≠ .mark .lparen := by simp [parens.closes]
    have closed : HasClose (inside ++ closing :: rest) :=
      hasClose_of_split parens.closes inner.balanced
    rw [Token.enclose, List.cons_append, List.append_assoc, List.singleton_append,
      unclosed_cons_of_hasClose closed, inner.unclosed_append, unclosed_cons_of_ne notOpening]

theorem SpellAll.unclosed_append {tokens : List Token} {ds : List Datum} (rest : List Token) :
    SpellAll tokens ds → unclosed (tokens ++ rest) = unclosed rest
  | .nil => rfl
  | .cons head tail => by
    rw [List.append_assoc, head.unclosed_append, tail.unclosed_append]

end

end Datum

namespace Reader

open Token

variable {token : Token} {tokens finished pending rest : List Token} {items : List Item}
  {stack : List (Token × List Datum)}

namespace SpellItems

theorem drop_le (spells : SpellItems finished items) (n : Nat) :
    count .lparen (finished.drop n) ≤ count .rparen (finished.drop n) := by
  induction spells generalizing n with
  | nil => simp
  | @form before tokens _ _ _ last ih =>
    have beforeLe := ih n
    have lastLe := last.balanced.drop_le (n - before.length)
    rw [List.drop_append, count_append, count_append]
    omega
  | @stray before token _ _ closes ih =>
    have beforeLe := ih n
    have lastLe : count .lparen ([token].drop (n - before.length)) = 0 := by
      cases n - before.length <;> simp [count_closing closes]
    rw [List.drop_append, count_append, count_append]
    omega

/-- After finished items, a closing parenthesis has none to close. -/
theorem isStray (earlier : SpellItems finished items) (closes : token.kind = .mark .rparen) :
    Occurrence.IsStray ⟨finished, token, rest⟩ :=
  ⟨closes, not_hasOpen earlier.drop_le⟩

theorem strays_concat (earlier : SpellItems finished items) (closes : token.kind = .mark .rparen) :
    strays (finished ++ [token]) = strays finished ++ [token] := by
  simp [strays_append, picked_cons, earlier.isStray closes]

theorem withoutStrays_concat (earlier : SpellItems finished items)
    (closes : token.kind = .mark .rparen) :
    withoutStrays (finished ++ [token]) = withoutStrays finished := by
  simp [withoutStrays_append, picked_cons, earlier.isStray closes]

theorem count_rparen (spells : SpellItems finished items) :
    count .rparen finished = count .lparen finished + (strays finished).length := by
  induction spells with
  | nil => rfl
  | form _ last ih =>
    have balanced := last.balanced.2
    rw [last.strays_append, count_append, count_append]
    omega
  | stray earlier closes ih =>
    rw [earlier.strays_concat closes, List.length_append, List.length_singleton, count_append,
      count_append, ih, (count_closing closes).1, (count_closing closes).2, count_nil, count_nil]
    omega

theorem unclosed_append (spells : SpellItems finished items) (rest : List Token) :
    unclosed (finished ++ rest) = unclosed rest := by
  induction spells generalizing rest with
  | nil => rfl
  | form _ last ih => rw [List.append_assoc, ih, last.unclosed_append]
  | stray _ closes ih =>
    rw [List.append_assoc, ih]
    exact unclosed_cons_of_ne (by simp [closes])

end SpellItems

namespace SpellsOpen

theorem picked_isStray (spells : SpellsOpen pending stack) (before : List Token) :
    picked (·.IsStray) before pending = [] := by
  induction spells with
  | nil => rfl
  | cons _ opens inner ih =>
    rw [picked_append fun _ _ _ _ => rfl, ih, picked_isStray_cons (by simp [opens]),
      inner.picked_isStray]
    rfl

theorem strays_append (spells : SpellsOpen pending stack) :
    strays (finished ++ pending) = strays finished := by
  rw [Token.strays_append, spells.picked_isStray, List.append_nil]

theorem withoutStrays_append (spells : SpellsOpen pending stack) :
    withoutStrays (finished ++ pending) = withoutStrays finished ++ pending := by
  rw [Token.withoutStrays_append, picked_not_of_picked (spells.picked_isStray finished)]

/-- The parentheses of open lists are unclosed, if nothing that follows closes one of them. -/
theorem unclosed_append (spells : SpellsOpen pending stack) (opensRest : Opens rest) :
    unclosed (pending ++ rest) = (stack.map (·.1)).reverse ++ unclosed rest := by
  -- what follows a list that stays open has no parenthesis to close it
  induction spells generalizing rest with
  | nil => rfl
  | @cons before inside opening _ _ _ opens inner ih =>
    have innerOpens : Opens (inside ++ rest) := inner.balanced.1.append opensRest
    have never := not_hasClose innerOpens
    rw [List.append_assoc, List.cons_append, ih (.cons opens innerOpens),
      unclosed_cons_of_not_hasClose opens never, inner.unclosed_append]
    simp

theorem unclosed_eq (spells : SpellsOpen pending stack) :
    unclosed pending = (stack.map (·.1)).reverse := by
  have alone := spells.unclosed_append .nil
  rwa [List.append_nil, show unclosed [] = [] from rfl, List.append_nil] at alone

theorem count_lparen (spells : SpellsOpen pending stack) :
    count .lparen pending = count .rparen pending + stack.length := by
  induction spells with
  | nil => rfl
  | cons _ opens inner ih =>
    have balanced := inner.balanced.2
    rw [count_append, count_append, (count_opening opens).1, (count_opening opens).2, ih, balanced,
      List.length_cons]
    omega

end SpellsOpen

end Reader

/-- Opening and closing parentheses cancel out, but for those that are unclosed or stray. -/
theorem Token.count_lparen_add_strays (tokens : List Token) :
    count .lparen tokens + (strays tokens).length =
      count .rparen tokens + (unclosed tokens).length := by
  obtain ⟨finished, pending, rfl, done, rest⟩ := Reader.holds_foldl tokens
  have doneCount := done.count_rparen
  have restCount := rest.count_lparen
  rw [rest.strays_append, done.unclosed_append, rest.unclosed_eq, count_append, count_append,
    List.length_reverse, List.length_map]
  omega

end TypedForms
