import TypedForms.Proofs.Datum.Pairing
import TypedForms.Proofs.Program.Causes
import TypedForms.Proofs.Strict.Program

/-! Reading loses nothing. The data of a source, written out as tokens again, are its tokens without
the stray parentheses and with a parenthesis at the end for each that was never closed; these are
all the parentheses that are noted. -/
namespace TypedForms

open Guarded

/-- What data keep of a token. A closing parenthesis leaves no more than its place. -/
def Token.symbol (token : Token) : Option Token :=
  if token.kind = .mark .rparen then none else some token

theorem Token.symbol_closing {token : Token} (closes : token.kind = .mark .rparen) :
    token.symbol = none :=
  if_pos closes

theorem Token.symbol_of_ne {token : Token} (other : token.kind ≠ .mark .rparen) :
    token.symbol = some token :=
  if_neg other

theorem Token.symbol_opening {token : Token} (opens : token.kind = .mark .lparen) :
    token.symbol = some token :=
  symbol_of_ne (by simp [opens])

namespace Datum

mutual

/-- A datum written out. -/
def symbols : Datum → List (Option Token)
  | .atom token => [some token]
  | .list opening elems => some opening :: (symbolsAll elems ++ [none])

def symbolsAll : List Datum → List (Option Token)
  | [] => []
  | d :: ds => d.symbols ++ symbolsAll ds

end

theorem symbolsAll_append {ds ds' : List Datum} :
    symbolsAll (ds ++ ds') = symbolsAll ds ++ symbolsAll ds' := by
  induction ds with
  | nil => rfl
  | cons d ds ih => rw [List.cons_append, symbolsAll, ih, symbolsAll, List.append_assoc]

@[simp] theorem symbolsAll_singleton {d : Datum} : symbolsAll [d] = d.symbols :=
  List.append_nil _

mutual

theorem Spells.symbols_eq {tokens : List Token} {d : Datum} :
    Spells tokens d → d.symbols = tokens.map Token.symbol
  | .atom _ right => by rw [symbols, List.map_singleton, Token.symbol_of_ne right]
  | .list parens inner => by
    rw [symbols, inner.symbols_eq, Token.enclose, List.map_cons, List.map_append,
      List.map_singleton, Token.symbol_closing parens.closes,
      Token.symbol_opening parens.opens]

theorem SpellAll.symbols_eq {tokens : List Token} {ds : List Datum} :
    SpellAll tokens ds → symbolsAll ds = tokens.map Token.symbol
  | .nil => rfl
  | .cons head tail => by rw [symbolsAll, head.symbols_eq, tail.symbols_eq, List.map_append]

end

end Datum

namespace Reader

open Datum (symbols symbolsAll symbolsAll_append symbolsAll_singleton)

variable {r : Reader} {d : Datum} {tokens finished pending : List Token} {items : List Item}
  {stack : List (Token × List Datum)}

/-! What the reader holds, written out. -/

theorem SpellItems.symbols_eq (spells : SpellItems finished items) :
    symbolsAll (items.reverse.filterMap Item.datum?) =
      (Token.withoutStrays finished).map Token.symbol := by
  induction spells with
  | nil => rfl
  | @form _ _ d _ _ last ih =>
    have found : [Item.form d []].filterMap Item.datum? = [d] := rfl
    rw [List.reverse_cons, List.filterMap_append, symbolsAll_append, ih, found,
      symbolsAll_singleton, last.symbols_eq, last.withoutStrays_append, List.map_append]
  | @stray _ token _ earlier closes ih =>
    have found : [Item.stray token].filterMap Item.datum? = [] := rfl
    rw [List.reverse_cons, List.filterMap_append, found, List.append_nil, ih,
      earlier.withoutStrays_concat closes]

theorem SpellsOpen.symbols_closeAll (spells : SpellsOpen pending stack) :
    (closeAll d stack).symbols =
      pending.map Token.symbol ++ d.symbols ++ List.replicate stack.length none := by
  -- the innermost list is closed first, around the datum
  induction spells generalizing d with
  | nil => simp [closeAll]
  | @cons before inside opening elems outer _ opens inner ih =>
    have innerEq : symbolsAll (d :: elems).reverse = inside.map Token.symbol ++ d.symbols := by
      rw [List.reverse_cons, symbolsAll_append, symbolsAll_singleton, inner.symbols_eq]
    rw [closeAll, ih, symbols, innerEq]
    simp [Token.symbol_opening opens, List.replicate_succ]

theorem SpellsOpen.symbols_whole? (spells : SpellsOpen pending stack) :
    symbolsAll (whole? stack).toList =
      pending.map Token.symbol ++ List.replicate stack.length none := by
  cases spells with
  | nil => rfl
  | cons around opens inner =>
    simp [whole?, around.symbols_closeAll, symbols, inner.symbols_eq, Token.symbol_opening opens,
      List.replicate_succ]

theorem SpellItems.notes_eq (spells : SpellItems finished items) :
    items.reverse.flatMap Item.notes = (Token.strays finished).map (⟨·, .strayParen⟩) := by
  induction spells with
  | nil => rfl
  | form _ last ih => simp [ih, last.strays_append, Item.notes, unclosedNotes]
  | stray earlier closes ih => simp [ih, earlier.strays_concat closes, Item.notes]

/-- The items in the end: those that were finished, and one that all open lists make up. -/
theorem finish_eq :
    r.finish = r.items.reverse ++
      ((whole? r.stack).map (.form · (r.stack.map (·.1)))).toList := by
  obtain ⟨stack, items⟩ := r
  cases stack <;> simp [Reader.finish, whole?]

/-- The data among the items, written out. -/
theorem Holds.symbols_finish (holds : Holds r tokens) :
    symbolsAll (r.finish.filterMap Item.datum?) =
      (Token.withoutStrays tokens).map Token.symbol ++
        List.replicate (Token.unclosed tokens).length none := by
  obtain ⟨finished, pending, rfl, done, rest⟩ := holds
  have lastEq : ((whole? r.stack).map (Item.form · (r.stack.map (·.1)))).toList.filterMap
      Item.datum? = (whole? r.stack).toList := by
    cases whole? r.stack <;> rfl
  rw [finish_eq, List.filterMap_append, lastEq, symbolsAll_append, done.symbols_eq,
    rest.symbols_whole?, rest.withoutStrays_append, done.unclosed_append, rest.unclosed_eq,
    List.map_append, List.length_reverse, List.length_map, List.append_assoc]

/-- What is noted about the items. Stray parentheses come first, because all that follows one that
stays open is part of its list. -/
theorem Holds.notes_finish (holds : Holds r tokens) :
    r.finish.flatMap Item.notes =
      (Token.strays tokens).map (⟨·, .strayParen⟩) ++
        (Token.unclosed tokens).reverse.map (⟨·, .unclosedParen⟩) := by
  obtain ⟨finished, pending, rfl, done, rest⟩ := holds
  have lastEq : ((whole? r.stack).map (Item.form · (r.stack.map (·.1)))).toList.flatMap
      Item.notes = unclosedNotes (r.stack.map (·.1)) := by
    cases r.stack <;> simp [whole?, Item.notes, unclosedNotes]
  rw [finish_eq, List.flatMap_append, done.notes_eq, lastEq, rest.strays_append,
    done.unclosed_append, rest.unclosed_eq, List.reverse_reverse]
  rfl

end Reader

/-! The loop. -/

/-- Reads data until the end. -/
def Reader.Strict.data : (rounds : Nat) → Feed → Guarded ParseError (List Datum)
  | 0, _ => stop
  | rounds + 1, feed =>
    if feed.current.kind = .eof then pure []
    else do
      let (found, after) ← datum (2 * feed.ahead.length + 2) feed
      let later ← data rounds after.next
      pure (found.toList ++ later)

theorem Reader.data_eq {rounds : Nat} {tokens : List Token} {finish : Token}
    (ends : finish.kind = .eof) (inside : ∀ t ∈ tokens, t.kind ≠ .eof)
    (enough : tokens.length < rounds) :
    Strict.data rounds (.start ⟨tokens, finish⟩) =
      total ⟨(Item.ofTokens tokens).filterMap Item.datum?,
        (Item.ofTokens tokens).flatMap Item.notes⟩ := by
  induction rounds generalizing tokens with
  | zero => omega
  | succ rounds ih =>
    cases tokens with
    | nil =>
      simp only [Strict.data, Feed.start, List.headD_nil, ends, if_true]
      exact total_pure.symm
    | cons token tokens =>
      obtain ⟨notEnd, later⟩ := List.forall_mem_cons.mp inside
      obtain ⟨item, current, ahead, same, shorter, itemsEq⟩ := datum_item ends inside
      have fewer : ahead.length ≤ tokens.length := shorter.length_le
      rw [List.length_cons] at enough
      have restEq : Strict.data rounds (Feed.next ⟨current, ahead, finish⟩) = _ :=
        ih (fun t member => later t (shorter.mem member)) (by omega)
      simp only [Strict.data, Feed.start, List.headD_cons, notEnd, if_false, List.tail_cons]
      rw [same, itemsEq]
      refine total_bind_eq (g := fun found => do
        let others ← (⟨(Item.ofTokens ahead).filterMap Item.datum?,
          (Item.ofTokens ahead).flatMap Item.notes⟩ : Diagnosed ParseError (List Datum))
        pure (found.1.toList ++ others)) ?_ ?_
      · simp only [restEq]
        exact total_bind total_pure.symm
      · apply Diagnosed.ext
        · cases item <;> simp [Item.datum?, List.filterMap_cons]
        · simp

/-! Forms are made of the data, and no parenthesis is noted for them. -/

namespace Form

variable {item : Item} {items : List Item}

theorem notes_ofItem :
    (ofItem item).notes.filter (·.cause.isReading) = item.notes := by
  cases item with
  | stray token => simp [ofItem, Item.notes, ParseError.isReading]
  | form d unclosed =>
    have own : (Reader.unclosedNotes unclosed).filter (·.cause.isReading) =
        Reader.unclosedNotes unclosed := by
      rw [List.filter_eq_self]
      intro n member
      obtain ⟨token, -, rfl⟩ := List.mem_map.mp member
      rfl
    rw [ofItem, Diagnosed.notes_bind, notes_sequence_unclosed, List.filter_append, own,
      aboutData_ofDatum.filter_notes, List.append_nil]
    rfl

theorem notes_ofItems :
    (ofItems items).notes.filter (·.cause.isReading) = items.flatMap Item.notes := by
  rw [ofItems, Diagnosed.notes_bind, Diagnosed.notes_sequence]
  simp [List.filter_flatMap, List.flatMap_map, notes_ofItem]

theorem value_ofItems :
    (ofItems items).value =
      (items.filterMap Item.datum?).filterMap fun d => (ofDatum d).value := by
  induction items with
  | nil => rfl
  | cons item items ih =>
    rw [ofItems_cons]
    cases item with
    | stray token => simpa [ofItem, Item.datum?, List.filterMap_cons] using ih
    | form d unclosed =>
      cases found : (ofDatum d).value <;> simp [ofItem, Item.datum?, ih, found]

end Form

/-- Whatever the tokens before the end are, reading them comes to an end. The data that are read,
written out, are the tokens without the stray parentheses, and with one more for each that was
never closed. Each stray parenthesis is noted once, where it stands, and so is each one that was
never closed. These are all the notes on parentheses that are made when the forms of a source are
read, and the forms are made of these data. -/
theorem Reader.reading_loses_nothing (stream : TokenStream) (ends : stream.finish.kind = .eof)
    (inside : ∀ t ∈ stream.tokens, t.kind ≠ .eof) :
    ∃ data notes,
      Strict.data (stream.tokens.length + 1) (.start stream) = total ⟨data, notes⟩ ∧
      Datum.symbolsAll data =
        (Token.withoutStrays stream.tokens).map Token.symbol ++
          List.replicate (Token.unclosed stream.tokens).length none ∧
      notes = (Token.strays stream.tokens).map (⟨·, .strayParen⟩) ++
        (Token.unclosed stream.tokens).reverse.map (⟨·, .unclosedParen⟩) ∧
      Form.Strict.ofFeed (stream.tokens.length + 1) (.start stream) =
        total ((·, stream.finish) <$> Form.ofStream stream) ∧
      (Form.ofStream stream).value = data.filterMap (fun d => (Form.ofDatum d).value) ∧
      (Form.ofStream stream).notes.filter (·.cause.isReading) = notes ∧
      ParseError.message .strayParen = "unexpected \")\"" ∧
      ParseError.message .unclosedParen = "unclosed \"(\"" := by
  obtain ⟨tokens, finish⟩ := stream
  have holds := holds_foldl tokens
  exact ⟨_, _, data_eq ends inside (Nat.lt_succ_self _), holds.symbols_finish, holds.notes_finish,
    Form.ofFeed_eq ends inside (Nat.lt_succ_self _), Form.value_ofItems, Form.notes_ofItems,
    by decide +kernel, by decide +kernel⟩

/-- Two stray parentheses, and two lists that are never closed. -/
theorem Reader.reading_loses_nothing_of_stray_and_unclosed :
    let stream := TokenStream.ofSource "" ") (a)) (b (c"
    stream.finish.kind = .eof ∧ (∀ t ∈ stream.tokens, t.kind ≠ .eof) ∧
    ∃ data notes,
      Strict.data (stream.tokens.length + 1) (.start stream) = total ⟨data, notes⟩ ∧
      (Datum.symbolsAll data).map (·.map (·.literal)) =
        [some "(", some "a", none, some "(", some "b", some "(", some "c", none, none] ∧
      notes.map (fun n => (n.message, n.anchor.pos.column)) =
        [("unexpected \")\"", 1), ("unexpected \")\"", 6), ("unclosed \"(\"", 11),
          ("unclosed \"(\"", 8)] := by
  intro stream
  have inside : ∀ t ∈ stream.tokens, t.kind ≠ .eof := by decide +kernel
  obtain ⟨data, notes, read, written, noted, -⟩ := reading_loses_nothing stream rfl inside
  refine ⟨rfl, inside, data, notes, read, ?_, ?_⟩
  · rw [written]
    decide +kernel
  · rw [noted]
    decide +kernel

end TypedForms
