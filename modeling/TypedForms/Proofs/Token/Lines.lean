import TypedForms.Proofs.Moved
import TypedForms.Token.Scan

/-! Scanning line by line. What the scanner makes of a text does not depend on where the text
stands. The tokens are the same in every file; and as long as the lines above a text do not leave a
string open, the tokens of two texts with a line break between them are those of the first one and
those of the second one, further down. -/
namespace TypedForms

namespace Position

variable {pos : Position} {lines : Nat} {c : Char} {text : List Char}

/-- The place so many lines further down. -/
def down (lines : Nat) (pos : Position) : Position := { pos with line := pos.line + lines }

theorem advance_down : (pos.down lines).advance c = (pos.advance c).down lines := by
  unfold advance down
  split
  · simp only [mk.injEq, true_and, and_true]
    omega
  · rfl

@[simp] theorem down_zero : pos.down 0 = pos := by
  simp [down]

theorem file_foldl_advance : (text.foldl advance pos).file = pos.file := by
  induction text generalizing pos with
  | nil => rfl
  | cons c text ih =>
    rw [List.foldl_cons, ih, advance]
    split <;> rfl

theorem line_foldl_advance : (text.foldl advance pos).line = pos.line + text.count '\n' := by
  induction text generalizing pos with
  | nil => simp
  | cons c text ih =>
    rw [List.foldl_cons, ih, List.count_cons, advance]
    split
    next newline =>
      simp only [newline, beq_self_eq_true, if_true]
      omega
    next other => simp [other]

/-- The same place in another file. -/
def inFile (file : String) (pos : Position) : Position := { pos with file := file }

theorem advance_inFile {file : String} :
    (pos.inFile file).advance c = (pos.advance c).inFile file := by
  unfold advance inFile
  split <;> rfl

/-- The lines that a text takes up when another text follows below it. -/
def height (text : List Char) : Nat := 1 + text.count '\n'

/-- The text after a line break starts as a text of its own would, further down. -/
theorem advance_newline {file : String} :
    (text.foldl advance (start file)).advance '\n' = (start file).down (height text) := by
  have fileKept := @file_foldl_advance (start file) text
  have line := @line_foldl_advance (start file) text
  simp only [advance, if_true, down, start, height, mk.injEq, and_true] at fileKept line ⊢
  refine ⟨fileKept, ?_⟩
  omega

end Position

namespace Scanner

open Position (height)

variable {s : Scanner} {c : Char} {text : List Char} {earlier : List Token}

theorem pos_step : (s.step c).pos = s.pos.advance c := by
  have gap : ∀ tokens, (stepGap c s.pos tokens).pos = s.pos.advance c := by
    intro tokens
    unfold stepGap
    split_ifs <;> rfl
  unfold step
  split
  next => exact gap _
  next => rfl
  next =>
    split
    · rfl
    · exact gap _
  next => split_ifs <;> rfl
  next => rfl

theorem pos_foldl : (text.foldl step s).pos = text.foldl Position.advance s.pos := by
  induction text generalizing s with
  | nil => rfl
  | cons c text ih => rw [List.foldl_cons, ih, pos_step, List.foldl_cons]

/-! A text that stands elsewhere. -/

section Move

variable {f : Position → Position}

def Mode.move (f : Position → Position) : Mode → Mode
  | .gap => .gap
  | .comment => .comment
  | .symbol start text => .symbol (f start) text
  | .string start text => .string (f start) text
  | .escape start text => .escape (f start) text

/-- The scanner elsewhere, after tokens that were found earlier. -/
def move (f : Position → Position) (earlier : List Token) (s : Scanner) : Scanner :=
  ⟨s.mode.move f, f s.pos, s.tokens.map (Token.move f) ++ earlier⟩

theorem stepGap_move {pos : Position} {tokens : List Token}
    (commutes : ∀ pos c, (f pos).advance c = f (pos.advance c)) :
    stepGap c (f pos) (tokens.map (Token.move f) ++ earlier) =
      (stepGap c pos tokens).move f earlier := by
  unfold stepGap
  dsimp only
  rw [commutes]
  split_ifs <;> rfl

theorem step_move (commutes : ∀ pos c, (f pos).advance c = f (pos.advance c)) :
    (s.move f earlier).step c = (s.step c).move f earlier := by
  obtain ⟨mode, pos, tokens⟩ := s
  cases mode with
  | gap => exact stepGap_move commutes
  | comment =>
    simp only [move, Mode.move, step, commutes]
    split <;> rfl
  | symbol start text =>
    simp only [move, Mode.move, step, commutes]
    split
    · rfl
    · exact @stepGap_move c earlier f pos (symbolToken start text :: tokens) commutes
  | string start text =>
    simp only [move, Mode.move, step, commutes]
    split_ifs <;> rfl
  | escape start text => simp only [move, Mode.move, step, commutes]

theorem foldl_step_move (commutes : ∀ pos c, (f pos).advance c = f (pos.advance c)) :
    text.foldl step (s.move f earlier) = (text.foldl step s).move f earlier := by
  induction text generalizing s with
  | nil => rfl
  | cons c text ih => rw [List.foldl_cons, List.foldl_cons, step_move commutes, ih]

theorem finish_move :
    (s.move f earlier).finish = earlier.reverse ++ s.finish.map (Token.move f) := by
  obtain ⟨mode, pos, tokens⟩ := s
  cases mode <;> simp [move, Mode.move, finish, symbolToken, Token.move]

end Move

/-- A string has been opened and not been closed. -/
def InString (s : Scanner) : Prop :=
  match s.mode with
  | .string .. | .escape .. => True
  | .gap | .comment | .symbol .. => False

/-- A line break ends every token but a string. -/
theorem step_newline (ended : ¬ s.InString) :
    s.step '\n' = ⟨.gap, s.pos.advance '\n', s.finish.reverse⟩ := by
  obtain ⟨mode, pos, tokens⟩ := s
  cases mode with
  | string start text | escape start text => exact absurd trivial ended
  | _ => simp [step, stepGap, finish, Token.isSymbolChar]

theorem foldl_newline {file : String} (ended : ¬ (text.foldl step (start file)).InString) :
    (text.foldl step (start file)).step '\n' =
      (start file).move (.down (height text)) (text.foldl step (start file)).finish.reverse := by
  rw [step_newline ended, pos_foldl]
  simp only [start, move, Mode.move, mk.injEq, true_and, List.map_nil, List.nil_append, and_true]
  exact Position.advance_newline

/-- Further down, a text below a line break is scanned as it would be by itself. -/
theorem foldl_below {file : String} {below : List Char}
    (ended : ¬ (text.foldl step (start file)).InString) :
    (text ++ '\n' :: below).foldl step (start file) =
      (below.foldl step (start file)).move (.down (height text))
        (text.foldl step (start file)).finish.reverse := by
  rw [List.foldl_append, List.foldl_cons, foldl_newline ended]
  exact foldl_step_move fun _ _ => Position.advance_down

/-- Tokens that are finished stay as they are. -/
theorem finish_foldl {mode : Mode} {pos : Position} {tokens : List Token} :
    (text.foldl step ⟨mode, pos, tokens⟩).finish =
      tokens.reverse ++ (text.foldl step ⟨mode, pos, []⟩).finish := by
  have split : (⟨mode, pos, tokens⟩ : Scanner) = move id tokens ⟨mode, pos, []⟩ := by
    cases mode <;> rfl
  rw [split, foldl_step_move fun _ _ => rfl, finish_move]
  exact congrArg (tokens.reverse ++ ·) (List.map_id _)

/-- The token that a string becomes has at least the text that was read of it. -/
theorem exists_literal_of_quoted {mode : Mode} {pos start : Position} {read : List Char}
    (quoted : mode = .string start read ∨ mode = .escape start read) :
    ∃ token more, (text.foldl step ⟨mode, pos, []⟩).finish = token :: more ∧
      read.length ≤ token.literal.length := by
  induction text generalizing mode pos read with
  | nil =>
    rcases quoted with rfl | rfl
    · exact ⟨_, [], rfl, by simp⟩
    · exact ⟨_, [], rfl, by simp⟩
  | cons c text ih =>
    have extend (d : Char) : ∃ token more,
        (text.foldl step ⟨.string start (d :: read), pos.advance c, []⟩).finish = token :: more ∧
          read.length ≤ token.literal.length := by
      obtain ⟨token, more, found, longer⟩ := @ih _ (pos.advance c) (d :: read) (.inl rfl)
      refine ⟨token, more, found, ?_⟩
      rw [List.length_cons] at longer
      omega
    rw [List.foldl_cons]
    rcases quoted with rfl | rfl
    · rw [step]
      dsimp only
      split_ifs
      · rw [finish_foldl]
        exact ⟨_, _, rfl, by simp⟩
      · exact ih (.inr rfl)
      · exact extend c
    · exact extend (Token.unescape c)

/-- A line break is taken into a string that is open. -/
theorem exists_longer_of_inString (quoted : s.InString) :
    ∃ token more token' more', s.finish = s.tokens.reverse ++ token :: more ∧
      (text.foldl step (s.step '\n')).finish = s.tokens.reverse ++ token' :: more' ∧
      token.literal.length < token'.literal.length := by
  obtain ⟨mode, pos, tokens⟩ := s
  cases mode with
  | string start read | escape start read =>
    obtain ⟨token, more, found, longer⟩ :=
      @exists_literal_of_quoted text _ (pos.advance '\n') start ('\n' :: read) (.inl rfl)
    refine ⟨⟨.illegal, String.ofList read.reverse, start⟩, [], token, more, ?_, ?_, ?_⟩
    · simp [finish]
    · rw [← found, ← finish_foldl]
      rfl
    · have shorter : read.length < token.literal.length := longer
      simpa using shorter
  | gap | comment | symbol => cases quoted

end Scanner

namespace TokenStream

open Position (height)

variable {file : String} {first second : List Char}

theorem tokens_newline (ended : ¬ (first.foldl Scanner.step (.start file)).InString) :
    (ofChars file (first ++ '\n' :: second)).tokens =
      (ofChars file first).tokens ++
        (ofChars file second).tokens.map (Token.move (.down (height first))) := by
  simp only [ofChars, Scanner.foldl_below ended, Scanner.finish_move, List.reverse_reverse]

theorem finish_newline (ended : ¬ (first.foldl Scanner.step (.start file)).InString) :
    (ofChars file (first ++ '\n' :: second)).finish =
      (ofChars file second).finish.move (.down (height first)) := by
  simp only [ofChars, Scanner.foldl_below ended]
  rfl

/-- The tokens of a text are the same in every file. -/
theorem tokens_inFile {file' : String} {source : List Char} :
    (ofChars file' source).tokens =
      (ofChars file source).tokens.map (Token.move (.inFile file')) := by
  have startEq : Scanner.start file' = (Scanner.start file).move (.inFile file') [] := rfl
  have commutes : ∀ pos c, (Position.inFile file' pos).advance c = (pos.advance c).inFile file' :=
    fun _ _ => Position.advance_inFile
  rw [ofChars, startEq, Scanner.foldl_step_move commutes]
  exact Scanner.finish_move

/-- Two texts with a line break between them are scanned each by itself: the tokens are those of the
first text, and then those of the second one and its end, further down by the lines of the first.
This is so unless the first text leaves a string open, and then it is never so. -/
theorem splits_at_line_break_iff (file first second : String) :
    (ofSource file (first ++ "\n" ++ second)).toList =
        (ofSource file first).tokens ++ (ofSource file second).toList.map
          (Token.move (.down (1 + first.toList.count '\n'))) ↔
      ¬ (first.toList.foldl Scanner.step (.start file)).InString := by
  have split : (first ++ "\n" ++ second).toList = first.toList ++ '\n' :: second.toList := by simp
  rw [ofSource, split]
  constructor
  · intro same quoted
    obtain ⟨token, more, token', more', found, found', longer⟩ :=
      @Scanner.exists_longer_of_inString _ second.toList quoted
    simp only [toList, ofSource, ofChars, List.foldl_append, List.foldl_cons, found, found',
      List.append_assoc, List.append_cancel_left_eq, List.cons_append, List.cons.injEq] at same
    rw [same.1] at longer
    exact Nat.lt_irrefl _ longer
  · intro ended
    rw [toList, tokens_newline ended, finish_newline ended, toList, List.map_append,
      List.append_assoc]
    rfl

-- a line break ends a comment, and goes into a string
example :
    (ofSource "" "a ; \"\n\"b\" c").toList.map (fun t => (t.literal, t.pos.line)) =
        [("a", 1), ("b", 2), ("c", 2), ("", 2)] ∧
      (ofSource "" "a \"\n\"b\" c").toList.map (fun t => (t.literal, t.pos.line)) =
        [("a", 1), ("\n", 1), ("b", 2), (" c", 2), ("", 2)] := by
  decide +kernel

end TokenStream

end TypedForms
