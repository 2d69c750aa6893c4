import TypedForms.Proofs.Datum
import TypedForms.Proofs.Guarded
import TypedForms.ParseError
import TypedForms.Token.Scan

/-! Reading data by recursive descent. The reader looks at one token and can see the next one; it
comes back without a datum at a closing parenthesis and at the end, which has to be tested for. In
as many rounds as there are tokens to be read, twice over, it finds the items of the tokens. -/
namespace TypedForms

open Guarded

/-- The token that is looked at, those after it, and the one that marks the end. -/
structure Feed where
  current : Token
  ahead : List Token
  finish : Token

namespace Feed

def start (stream : TokenStream) : Feed :=
  ⟨stream.tokens.headD stream.finish, stream.tokens.tail, stream.finish⟩

/-- The token after the current one. After the end there is nothing but the end. -/
def peek (feed : Feed) : Token := feed.ahead.headD feed.finish

def next (feed : Feed) : Feed := ⟨feed.peek, feed.ahead.tail, feed.finish⟩

/-- Of what is still to be read, only the last token marks the end. -/
structure Ready (feed : Feed) : Prop where
  finish : feed.finish.kind = .eof
  ahead : ∀ t ∈ feed.ahead, t.kind ≠ .eof

end Feed

namespace Reader.Strict

mutual

/-- Reads the datum that starts at the current token, and leaves its last token current. -/
def datum : (rounds : Nat) → Feed → Guarded ParseError (Option Datum × Feed)
  | 0, _ => stop
  | rounds + 1, feed =>
    match feed.current.kind with
    | .eof => do
      total (Diagnosed.note feed.current .unexpectedEnd)
      pure (none, feed)
    | .mark .rparen => do
      total (Diagnosed.note feed.current .strayParen)
      pure (none, feed)
    | .mark .lparen => do
      let (d, feed) ← elements rounds feed.current [] feed
      pure (some d, feed)
    | _ => pure (some (.atom feed.current), feed)

def elements : (rounds : Nat) → Token → List Datum → Feed → Guarded ParseError (Datum × Feed)
  | 0, _, _, _ => stop
  | rounds + 1, opening, elems, feed =>
    if feed.peek.kind = .mark .rparen then pure (.list opening elems, feed.next)
    else if feed.peek.kind = .eof then do
      total (Diagnosed.note opening .unclosedParen)
      pure (.list opening elems, feed)
    else do
      let (elem, feed) ← datum rounds feed.next
      match elem with
      | none => elements rounds opening elems feed
      | some d => elements rounds opening (elems ++ [d]) feed

end

end Reader.Strict

namespace Reader

/-- The notes on parentheses that were never closed. -/
def unclosedNotes (unclosed : List Token) : List (Diagnostic ParseError) :=
  unclosed.map fun token => ⟨token, .unclosedParen⟩

theorem unclosedNotes_append {inner outer : List Token} :
    unclosedNotes (inner ++ outer) = unclosedNotes inner ++ unclosedNotes outer :=
  List.map_append

end Reader

namespace Item

def datum? : Item → Option Datum
  | .form d _ => some d
  | .stray _ => none

/-- What is noted when an item is read. -/
def notes : Item → List (Diagnostic ParseError)
  | .form _ unclosed => Reader.unclosedNotes unclosed
  | .stray token => [⟨token, .strayParen⟩]

end Item

namespace Reader

/-- The datum that open lists make up when all of them are closed. -/
def whole? : List (Token × List Datum) → Option Datum
  | [] => none
  | (opening, elems) :: outer => some (closeAll (.list opening elems.reverse) outer)

theorem closeAll_append {d : Datum} {inner outer : List (Token × List Datum)} :
    closeAll d (inner ++ outer) = closeAll (closeAll d inner) outer := by
  induction inner generalizing d with
  | nil => rfl
  | cons frame inner ih =>
    obtain ⟨opening, elems⟩ := frame
    exact ih

theorem whole?_append {frames : List (Token × List Datum)} {d : Datum} {opening : Token}
    {elems : List Datum} (found : whole? frames = some d) :
    whole? (frames ++ [(opening, elems)]) = some (.list opening (d :: elems).reverse) := by
  cases frames with
  | nil => simp [whole?] at found
  | cons frame frames =>
    obtain ⟨innermost, parts⟩ := frame
    obtain rfl := Option.some.inj found
    simp [whole?, closeAll_append, closeAll]

/-- What the reader has come to, over whatever was open before: a finished datum, with tokens still
ahead, or open lists that nothing is left to close. -/
inductive Reads (state : List (Token × List Datum) → List Item → Reader) :
    Datum → List Token → List Token → Prop where
  | closed {d ahead} (same : ∀ stack items,
      state stack items = ahead.foldl step (add d stack items)) : Reads state d ahead []
  | unclosed {d frames} (same : ∀ stack items, state stack items = ⟨frames ++ stack, items⟩)
    (whole : whole? frames = some d) : Reads state d [] (frames.map (·.1))

variable {rounds : Nat} {feed : Feed} {opening current finish : Token} {elems : List Datum}

/-- From where `feed` is, reading comes to an end, with the datum that the reader has come to. -/
def Yields {α : Type} (feed : Feed) (make : Datum → α)
    (state : List (Token × List Datum) → List Item → Reader)
    (read : Guarded ParseError (α × Feed)) : Prop :=
  ∃ d current ahead unclosed,
    read = total ⟨(make d, ⟨current, ahead, feed.finish⟩), unclosedNotes unclosed⟩ ∧
      ahead <:+ feed.ahead ∧ Reads state d ahead unclosed

def DatumReads (rounds : Nat) : Prop :=
  ∀ feed : Feed, feed.Ready → feed.current.kind ≠ .eof → feed.current.kind ≠ .mark .rparen →
    2 * feed.ahead.length + 2 ≤ rounds →
    Yields feed some (fun stack items => (feed.current :: feed.ahead).foldl step ⟨stack, items⟩)
      (Strict.datum rounds feed)

def ElementsRead (rounds : Nat) : Prop :=
  ∀ (opening : Token) (elems : List Datum) (feed : Feed), feed.Ready →
    2 * feed.ahead.length + 1 ≤ rounds →
    Yields feed id
      (fun stack items => feed.ahead.foldl step ⟨(opening, elems.reverse) :: stack, items⟩)
      (Strict.elements rounds opening elems feed)

theorem datum_opening (opens : feed.current.kind = .mark .lparen) :
    Strict.datum (rounds + 1) feed = Strict.elements rounds feed.current [] feed >>= fun found =>
      pure (some found.1, found.2) := by
  simp only [Strict.datum, opens]

theorem datum_stray (closes : feed.current.kind = .mark .rparen) :
    Strict.datum (rounds + 1) feed = total ⟨(none, feed), [⟨feed.current, .strayParen⟩]⟩ := by
  simp only [Strict.datum, closes]
  rfl

theorem datum_atom (notEnd : feed.current.kind ≠ .eof) (left : feed.current.kind ≠ .mark .lparen)
    (right : feed.current.kind ≠ .mark .rparen) :
    Strict.datum (rounds + 1) feed = pure (some (.atom feed.current), feed) := by
  unfold Strict.datum
  split <;> first | contradiction | rfl

theorem datumReads_succ (inner : ElementsRead rounds) : DatumReads (rounds + 1) := by
  intro feed ready notEnd notClosing enough
  by_cases opens : feed.current.kind = .mark .lparen
  · obtain ⟨d, current, ahead, unclosed, same, shorter, reads⟩ :=
      inner feed.current [] feed ready (by omega)
    refine ⟨d, current, ahead, unclosed, ?_, shorter, ?_⟩
    · rw [datum_opening opens, same]
      rfl
    · simpa only [List.foldl_cons, step_opening opens, List.reverse_nil] using reads
  · refine ⟨.atom feed.current, feed.current, feed.ahead, [], ?_, List.suffix_rfl, .closed ?_⟩
    · rw [datum_atom notEnd opens notClosing]
      exact total_pure.symm
    · intro stack items
      rw [List.foldl_cons, step_atom opens notClosing]

theorem elements_nil (ends : finish.kind = .eof) :
    Strict.elements (rounds + 1) opening elems ⟨current, [], finish⟩ =
      total ⟨(.list opening elems, ⟨current, [], finish⟩), unclosedNotes [opening]⟩ := by
  simp only [Strict.elements, Feed.peek, List.headD_nil, ends, reduceCtorEq, if_false, if_true]
  rfl

theorem elements_closing {closing : Token} {ahead : List Token}
    (closes : closing.kind = .mark .rparen) :
    Strict.elements (rounds + 1) opening elems ⟨current, closing :: ahead, finish⟩ =
      pure (.list opening elems, ⟨closing, ahead, finish⟩) := by
  simp only [Strict.elements, Feed.peek, List.headD_cons, closes, if_true]
  rfl

theorem elements_cons {first : Token} {ahead : List Token} (notEnd : first.kind ≠ .eof)
    (notClosing : first.kind ≠ .mark .rparen) :
    Strict.elements (rounds + 1) opening elems ⟨current, first :: ahead, finish⟩ =
      Strict.datum rounds ⟨first, ahead, finish⟩ >>= fun found => match found.1 with
        | none => Strict.elements rounds opening elems found.2
        | some d => Strict.elements rounds opening (elems ++ [d]) found.2 := by
  simp only [Strict.elements, Feed.peek, List.headD_cons, notClosing, notEnd, if_false]
  rfl

/-- An element is read, and then the elements after it. If the element was not closed, then
neither is the list around it. -/
theorem elementsRead_cons {first : Token} {ahead : List Token}
    (ready : Feed.Ready ⟨current, first :: ahead, finish⟩)
    (notClosing : first.kind ≠ .mark .rparen)
    (enough : 2 * (first :: ahead).length + 1 ≤ rounds + 1) (inner : DatumReads rounds)
    (others : ElementsRead rounds) :
    Yields ⟨current, first :: ahead, finish⟩ id
      (fun stack items => (first :: ahead).foldl step ⟨(opening, elems.reverse) :: stack, items⟩)
      (Strict.elements (rounds + 1) opening elems ⟨current, first :: ahead, finish⟩) := by
  have notEnd := ready.ahead first List.mem_cons_self
  have readyInner : Feed.Ready ⟨first, ahead, finish⟩ :=
    ⟨ready.finish, fun t member => ready.ahead t (List.mem_cons_of_mem _ member)⟩
  simp only [List.length_cons] at enough
  obtain ⟨d, last, rest, unclosed, same, shorter, reads⟩ :=
    inner ⟨first, ahead, finish⟩ readyInner notEnd notClosing (by simp only; omega)
  have fewer : rest.length ≤ ahead.length := shorter.length_le
  rw [elements_cons notEnd notClosing, same]
  cases reads with
  | closed stepEq =>
    have readyRest : Feed.Ready ⟨last, rest, finish⟩ :=
      ⟨ready.finish, fun t member => readyInner.ahead t (shorter.mem member)⟩
    obtain ⟨whole, current', ahead', unclosed', same', shorter', reads'⟩ :=
      others opening (elems ++ [d]) ⟨last, rest, finish⟩ readyRest (by simp only; omega)
    refine ⟨whole, current', ahead', unclosed', total_bind_notes same', ?_, ?_⟩
    · exact (shorter'.trans shorter).trans (List.suffix_cons ..)
    · simpa only [stepEq, add, List.reverse_append, List.reverse_singleton,
        List.singleton_append] using reads'
  | @unclosed frames stepEq whole =>
    refine ⟨.list opening (elems ++ [d]), last, [], frames.map (·.1) ++ [opening], ?_,
      List.nil_suffix, ?_⟩
    · obtain ⟨fewerRounds, rfl⟩ : ∃ n, rounds = n + 1 := ⟨rounds - 1, by omega⟩
      rw [unclosedNotes_append]
      exact total_bind_notes (elements_nil ready.finish)
    · have reads : Reads _ _ [] ((frames ++ [(opening, elems.reverse)]).map (·.1)) :=
        .unclosed (fun stack items => (stepEq ((opening, elems.reverse) :: stack) items).trans
          (by simp)) (whole?_append whole)
      simpa using reads

theorem elementsRead_succ (inner : DatumReads rounds) (others : ElementsRead rounds) :
    ElementsRead (rounds + 1) := by
  intro opening elems feed ready enough
  obtain ⟨current, ahead, finish⟩ := feed
  cases ahead with
  | nil =>
    have reads : Reads _ _ [] ([(opening, elems.reverse)].map (·.1)) :=
      .unclosed (fun _ _ => rfl) rfl
    rw [List.reverse_reverse] at reads
    exact ⟨_, _, _, [opening], elements_nil ready.finish, List.suffix_rfl, reads⟩
  | cons first ahead =>
    by_cases closes : first.kind = .mark .rparen
    · refine ⟨.list opening elems, first, ahead, [], ?_, List.suffix_cons .., .closed ?_⟩
      · rw [elements_closing closes]
        exact total_pure.symm
      · intro stack items
        rw [List.foldl_cons, step_closing closes, List.reverse_reverse]
    · exact elementsRead_cons ready closes enough inner others

/-- Each round reads at least one token, or comes back from a list. -/
theorem datumReads (rounds : Nat) : DatumReads rounds := by
  have both : DatumReads rounds ∧ ElementsRead rounds := by
    induction rounds with
    | zero => exact ⟨fun _ _ _ _ enough => by omega, fun _ _ _ _ enough => by omega⟩
    | succ rounds ih => exact ⟨datumReads_succ ih.2, elementsRead_succ ih.1 ih.2⟩
  exact both.1

/-! The items are found one after the other. -/

variable {token : Token} {tokens ahead unclosed : List Token} {d : Datum}
  {stack : List (Token × List Datum)} {items later : List Item}

theorem add_append :
    add d stack (later ++ items) =
      ⟨(add d stack later).stack, (add d stack later).items ++ items⟩ := by
  cases stack <;> rfl

theorem step_append :
    step ⟨stack, later ++ items⟩ token =
      ⟨(step ⟨stack, later⟩ token).stack, (step ⟨stack, later⟩ token).items ++ items⟩ := by
  by_cases opens : token.kind = .mark .lparen
  · simp [step_opening opens]
  by_cases closes : token.kind = .mark .rparen
  · cases stack with
    | nil => simp [step, closes]
    | cons frame outer =>
      obtain ⟨opening, elems⟩ := frame
      rw [step_closing closes, step_closing closes, add_append]
  · rw [step_atom opens closes, step_atom opens closes, add_append]

theorem finish_foldl_append :
    (tokens.foldl step ⟨stack, later ++ items⟩).finish =
      items.reverse ++ (tokens.foldl step ⟨stack, later⟩).finish := by
  induction tokens generalizing stack later with
  | nil => cases stack <;> simp [Reader.finish]
  | cons token tokens ih =>
    rw [List.foldl_cons, step_append, ih, List.foldl_cons]

theorem finish_foldl_items :
    (tokens.foldl step ⟨[], items⟩).finish = items.reverse ++ Item.ofTokens tokens :=
  @finish_foldl_append tokens [] items []

theorem ofTokens_of_reads
    (reads : Reads (fun stack items => tokens.foldl step ⟨stack, items⟩) d ahead unclosed) :
    Item.ofTokens tokens = .form d unclosed :: Item.ofTokens ahead := by
  cases reads with
  | closed same =>
    have found := congrArg Reader.finish (same [] [])
    exact found.trans finish_foldl_items
  | @unclosed frames same whole =>
    have found := congrArg Reader.finish (same [] [])
    refine found.trans ?_
    cases frames with
    | nil => simp [whole?] at whole
    | cons frame frames =>
      obtain rfl := Option.some.inj whole
      simp [Reader.finish, Item.ofTokens, start]

theorem ofTokens_stray (closes : token.kind = .mark .rparen) :
    Item.ofTokens (token :: tokens) = .stray token :: Item.ofTokens tokens := by
  have first : step .start token = ⟨[], [.stray token]⟩ := by simp [step, closes, start]
  rw [Item.ofTokens, List.foldl_cons, first, finish_foldl_items]
  rfl

/-- One round of reading finds the next item. -/
theorem datum_item (ends : finish.kind = .eof) (inside : ∀ t ∈ token :: tokens, t.kind ≠ .eof) :
    ∃ item current ahead,
      Strict.datum (2 * tokens.length + 2) ⟨token, tokens, finish⟩ =
        total ⟨(item.datum?, ⟨current, ahead, finish⟩), item.notes⟩ ∧
      ahead <:+ tokens ∧ Item.ofTokens (token :: tokens) = item :: Item.ofTokens ahead := by
  obtain ⟨notEnd, later⟩ := List.forall_mem_cons.mp inside
  by_cases closes : token.kind = .mark .rparen
  · exact ⟨.stray token, token, tokens, datum_stray closes, List.suffix_rfl, ofTokens_stray closes⟩
  · have ready : Feed.Ready ⟨token, tokens, finish⟩ := ⟨ends, later⟩
    obtain ⟨d, current, ahead, unclosed, same, shorter, reads⟩ :=
      datumReads _ _ ready notEnd closes (Nat.le_refl _)
    exact ⟨.form d unclosed, current, ahead, same, shorter, ofTokens_of_reads reads⟩

end Reader

end TypedForms
