import TypedForms.Proofs.Token.Scan

/-! Scanning with a cursor that moves over the characters of a source. The character at a place is
only asked for where there is one, a word is cut out of the source between two places, and every
loop has a bound. The cursor finds the tokens of the source, and then the end. -/
namespace TypedForms

/-- A place in a source, the character there, and its position. After the last character of the
source there is a NUL. -/
structure Cursor where
  place : Nat
  curr : Char
  pos : Position

namespace Cursor

variable (input : List Char)

def atEnd (c : Cursor) : Bool := input.length ≤ c.place

def charAt (place : Nat) : Option Char :=
  if input.length ≤ place then some '\x00' else input[place]?

def start (file : String) : Option Cursor := do
  let curr ← charAt input 0
  pure ⟨0, curr, .start file⟩

def next (c : Cursor) : Option Cursor := do
  let curr ← charAt input (c.place + 1)
  pure ⟨c.place + 1, curr, c.pos.advance c.curr⟩

/-- The text between two places, which must be in the source and in order. -/
def slice (first last : Nat) : Option (List Char) :=
  if first ≤ last ∧ last ≤ input.length then some ((input.drop first).take (last - first))
  else none

def skipComment : (rounds : Nat) → Cursor → Option Cursor
  | 0, _ => none
  | rounds + 1, c =>
    if c.curr = '\n' || c.atEnd input then some c
    else do
      let c ← c.next input
      skipComment rounds c

def skipGap : (rounds : Nat) → Cursor → Option Cursor
  | 0, _ => none
  | rounds + 1, c =>
    if c.curr = ' ' ∨ c.curr = '\t' ∨ c.curr = '\n' ∨ c.curr = '\r' then do
      let c ← c.next input
      skipGap rounds c
    else if c.curr = ';' then do
      let c ← skipComment input (input.length + 1) c
      skipGap rounds c
    else some c

def skipSymbol : (rounds : Nat) → Cursor → Option Cursor
  | 0, _ => none
  | rounds + 1, c =>
    if Token.isSymbolChar c.curr then do
      let c ← c.next input
      skipSymbol rounds c
    else some c

def symbol (c : Cursor) : Option (List Char × Cursor) := do
  let after ← skipSymbol input (input.length + 1) c
  let text ← slice input c.place after.place
  pure (text, after)

/-- The text up to the closing quote. Without a closing quote it is illegal. -/
def quoted : (rounds : Nat) → List Char → Cursor → Option (Token.Kind × List Char × Cursor)
  | 0, _, _ => none
  | rounds + 1, text, c =>
    if c.atEnd input then some (.illegal, text, c)
    else if c.curr = '"' then do
      let c ← c.next input
      pure (.string, text, c)
    else if c.curr = '\\' then do
      let c ← c.next input
      if c.atEnd input then pure (.illegal, text, c)
      else do
        let after ← c.next input
        quoted rounds (text ++ [Token.unescape c.curr]) after
    else do
      let after ← c.next input
      quoted rounds (text ++ [c.curr]) after

/-- Whether a word is a number. Its sign is looked at and cut off only if the word is not empty. -/
def isNumber (word : List Char) : Option Bool := do
  let unsigned ← if 0 < word.length then do
      let first ← word[0]?
      if first = '-' ∨ first = '+' then slice word 1 word.length else pure word
    else pure word
  pure (unsigned.all (fun c => Token.isDigit c || c == '.') && unsigned.any Token.isDigit &&
    unsigned.count '.' ≤ 1)

def kindOf (first : Char) (word : List Char) : Option Token.Kind :=
  let text := String.ofList word
  if first = '#' then pure (if text == "#t" || text == "#f" then .bool else .illegal)
  else match Token.operatorOf? text with
    | some mark => pure (.mark mark)
    | none => do pure (if ← isNumber word then .number else .ofWord text)

/-- The token that starts where the cursor is. -/
def tokenHere (c : Cursor) : Option (Token × Cursor) :=
  if c.curr = '(' then (⟨.mark .lparen, "(", c.pos⟩, ·) <$> c.next input
  else if c.curr = ')' then (⟨.mark .rparen, ")", c.pos⟩, ·) <$> c.next input
  else if c.curr = ':' then (⟨.mark .colon, ":", c.pos⟩, ·) <$> c.next input
  else if c.curr = '"' then do
    let inside ← c.next input
    let (kind, text, after) ← quoted input (input.length + 1) [] inside
    pure (⟨kind, String.ofList text, c.pos⟩, after)
  else if Token.isSymbolChar c.curr then do
    let (text, after) ← symbol input c
    let kind ← kindOf c.curr text
    pure (⟨kind, String.ofList text, c.pos⟩, after)
  else (⟨.illegal, c.curr.toString, c.pos⟩, ·) <$> c.next input

def token (c : Cursor) : Option (Token × Cursor) := do
  let c ← skipGap input (input.length + 1) c
  if c.atEnd input then pure (⟨.eof, "", c.pos⟩, c) else c.tokenHere input

def tokens : (rounds : Nat) → Cursor → Option TokenStream
  | 0, _ => none
  | rounds + 1, c => do
    let (token, after) ← c.token input
    if token.kind = .eof then pure ⟨[], token⟩
    else do
      let stream ← tokens rounds after
      pure ⟨token :: stream.tokens, stream.finish⟩

def scan (file : String) : Option TokenStream := do
  let c ← start input file
  tokens input (input.length + 1) c

variable {input} {rounds : Nat} {c : Char} {rest rest' rest'' : List Char}
  {pos pos' pos'' : Position} {mode mode' : Scanner.Mode} {found : List Token}

/-! Where the cursor is, in terms of what it has not moved over yet. -/

variable (input) in
/-- The cursor before the last part of a source. -/
def before (rest : List Char) (pos : Position) : Cursor :=
  ⟨input.length - rest.length, rest.headD '\x00', pos⟩

@[simp] theorem curr_before_nil : (before input [] pos).curr = '\x00' := rfl

@[simp] theorem curr_before_cons : (before input (c :: rest) pos).curr = c := rfl

@[simp] theorem pos_before : (before input rest pos).pos = pos := rfl

theorem charAt_of_suffix (suffix : rest <:+ input) :
    charAt input (input.length - rest.length) = some (rest.headD '\x00') := by
  obtain ⟨read, rfl⟩ := suffix
  cases rest <;> simp [charAt]

theorem start_eq {file : String} : start input file = some (before input input (.start file)) := by
  have first := charAt_of_suffix (List.suffix_refl input)
  rw [Nat.sub_self] at first
  simp [start, first, before]

theorem next_before (suffix : c :: rest <:+ input) :
    next input (before input (c :: rest) pos) = some (before input rest (pos.advance c)) := by
  have place : (before input (c :: rest) pos).place + 1 = input.length - rest.length := by
    have shorter := suffix.length_le
    simp only [before, List.length_cons] at shorter ⊢
    omega
  simp only [next, place, charAt_of_suffix ((List.suffix_cons c rest).trans suffix)]
  rfl

theorem atEnd_before (suffix : rest <:+ input) :
    (before input rest pos).atEnd input = rest.isEmpty := by
  have shorter := suffix.length_le
  cases rest with
  | nil => simp [atEnd, before]
  | cons c rest =>
    have inside : ¬ input.length ≤ input.length - (c :: rest).length := by
      rw [List.length_cons] at shorter ⊢
      omega
    simp only [atEnd, before, inside, decide_false, List.isEmpty_cons]

/-! The scanner and the cursor. -/

/-- The tokens and the position at the end, from a state of the scanner and what is left. -/
def outcome (s : Scanner) (rest : List Char) : List Token × Position :=
  ((rest.foldl Scanner.step s).finish, (rest.foldl Scanner.step s).pos)

/-- What is left is cut down, by tokens that the scanner finds as well. -/
structure Reaches (mode : Scanner.Mode) (pos : Position) (rest : List Char) (found : List Token)
    (pos' : Position) (rest' : List Char) : Prop where
  suffix : rest' <:+ rest
  same : ∀ tokens, outcome ⟨mode, pos, tokens⟩ rest = outcome ⟨.gap, pos', found ++ tokens⟩ rest'

theorem Reaches.refl : Reaches .gap pos rest [] pos rest := ⟨List.suffix_rfl, fun _ => rfl⟩

theorem Reaches.trans (first : Reaches mode pos rest [] pos' rest')
    (second : Reaches .gap pos' rest' found pos'' rest'') :
    Reaches mode pos rest found pos'' rest'' :=
  ⟨second.suffix.trans first.suffix, fun tokens => (first.same tokens).trans (second.same tokens)⟩

theorem Reaches.cons
    (step : ∀ tokens, Scanner.step ⟨mode, pos, tokens⟩ c = ⟨mode', pos.advance c, tokens⟩)
    (later : Reaches mode' (pos.advance c) rest found pos' rest') :
    Reaches mode pos (c :: rest) found pos' rest' := by
  refine ⟨later.suffix.trans (List.suffix_cons c rest), fun tokens => ?_⟩
  rw [← later.same, outcome, List.foldl_cons, step]
  rfl

theorem skipComment_before (suffix : rest <:+ input) (enough : rest.length < rounds) :
    ∃ rest' pos',
      skipComment input rounds (before input rest pos) = some (before input rest' pos') ∧
      Reaches .comment pos rest [] pos' rest' := by
  induction rounds generalizing rest pos with
  | zero => omega
  | succ rounds ih =>
    rw [skipComment, atEnd_before suffix]
    cases rest with
    | nil => exact ⟨[], pos, by simp, List.suffix_rfl, fun _ => rfl⟩
    | cons c rest =>
      by_cases newline : c = '\n'
      · subst newline
        exact ⟨_, pos, by simp, List.suffix_rfl, fun _ => rfl⟩
      · rw [List.length_cons] at enough
        obtain ⟨rest', pos', skipped, reaches⟩ :=
          @ih rest (pos.advance c) ((List.suffix_cons c rest).trans suffix) (by omega)
        refine ⟨rest', pos', ?_, reaches.cons fun _ => by simp [Scanner.step, newline]⟩
        simpa [newline, next_before suffix] using skipped

/-- Blanks, and characters that start a comment. -/
def IsGap (c : Char) : Prop := (c = ' ' ∨ c = '\t' ∨ c = '\n' ∨ c = '\r') ∨ c = ';'

theorem skipGap_before (suffix : rest <:+ input) (enough : rest.length < rounds) :
    ∃ rest' pos', skipGap input rounds (before input rest pos) = some (before input rest' pos') ∧
      Reaches .gap pos rest [] pos' rest' ∧ ∀ c ∈ rest'.head?, ¬ IsGap c := by
  induction rounds generalizing rest pos with
  | zero => omega
  | succ rounds ih =>
    cases rest with
    | nil => exact ⟨[], pos, by simp [skipGap], .refl, by simp⟩
    | cons c rest =>
      have suffixTail := (List.suffix_cons c rest).trans suffix
      have shorter := suffix.length_le
      rw [List.length_cons] at enough shorter
      by_cases blank : c = ' ' ∨ c = '\t' ∨ c = '\n' ∨ c = '\r'
      · obtain ⟨rest', pos', skipped, reaches, apart⟩ :=
          @ih rest (pos.advance c) suffixTail (by omega)
        refine ⟨rest', pos', ?_, reaches.cons fun _ => ?_, apart⟩
        · simpa [skipGap, blank, next_before suffix] using skipped
        · simp [Scanner.step, Scanner.stepGap, blank]
      by_cases comment : c = ';'
      · -- the comment takes at least its first character
        subst comment
        obtain ⟨middle, posMiddle, skipped, reaches⟩ :=
          @skipComment_before input input.length rest (pos.advance ';') suffixTail (by omega)
        have fewer := reaches.suffix.length_le
        obtain ⟨rest', pos', skipped', reaches', apart⟩ :=
          @ih middle posMiddle (reaches.suffix.trans suffixTail) (by omega)
        refine ⟨rest', pos', ?_, (reaches.cons fun _ => rfl).trans reaches', apart⟩
        have whole : skipComment input (input.length + 1) (before input (';' :: rest) pos) =
            some (before input middle posMiddle) := by
          simpa [skipComment, atEnd_before suffix, next_before suffix] using skipped
        simpa [skipGap, whole] using skipped'
      · refine ⟨c :: rest, pos, by simp [skipGap, blank, comment], .refl, ?_⟩
        rintro _ ⟨⟩ (isBlank | isComment)
        · exact blank isBlank
        · exact comment isComment

theorem skipSymbol_before (suffix : rest <:+ input) (enough : rest.length < rounds) :
    ∃ word rest' pos', rest = word ++ rest' ∧
      skipSymbol input rounds (before input rest pos) = some (before input rest' pos') ∧
      ∀ start text, Reaches (.symbol start text) pos rest
        [Scanner.symbolToken start (word.reverse ++ text)] pos' rest' := by
  induction rounds generalizing rest pos with
  | zero => omega
  | succ rounds ih =>
    cases rest with
    | nil => exact ⟨[], [], pos, rfl, rfl, fun _ _ => ⟨List.suffix_rfl, fun _ => rfl⟩⟩
    | cons c rest =>
      have suffixTail := (List.suffix_cons c rest).trans suffix
      rw [List.length_cons] at enough
      cases symbol : Token.isSymbolChar c with
      | false =>
        refine ⟨[], c :: rest, pos, rfl, by simp [skipSymbol, symbol], fun start text => ?_⟩
        refine ⟨List.suffix_rfl, fun tokens => ?_⟩
        simp [outcome, Scanner.step, symbol]
      | true =>
        obtain ⟨word, rest', pos', rfl, skipped, reaches⟩ :=
          @ih rest (pos.advance c) suffixTail (by omega)
        refine ⟨c :: word, rest', pos', rfl, ?_, fun start text => ?_⟩
        · simpa [skipSymbol, symbol, next_before suffix] using skipped
        · have later := reaches start (c :: text)
          rw [List.reverse_cons, List.append_assoc, List.singleton_append]
          exact later.cons fun _ => by simp [Scanner.step, symbol]

/-- What lies between two places of the cursor is what it has moved over. -/
theorem slice_before {word : List Char} (suffix : word ++ rest <:+ input) :
    slice input (before input (word ++ rest) pos).place (before input rest pos').place =
      some word := by
  obtain ⟨read, rfl⟩ := suffix
  have first : (before (read ++ (word ++ rest)) (word ++ rest) pos).place = read.length := by
    simp [before]
  have last : (before (read ++ (word ++ rest)) rest pos').place = read.length + word.length := by
    simp [before, ← Nat.add_assoc]
  rw [first, last]
  simp [slice]

theorem symbol_before (suffix : c :: rest <:+ input) (symbol : Token.isSymbolChar c = true) :
    ∃ word rest' pos',
      Cursor.symbol input (before input (c :: rest) pos) =
        some (c :: word, before input rest' pos') ∧
      rest' <:+ rest ∧ Reaches .gap pos (c :: rest)
        [⟨Token.symbolKind (c :: word), String.ofList (c :: word), pos⟩] pos' rest' := by
  have shorter := suffix.length_le
  rw [List.length_cons] at shorter
  obtain ⟨word, rest', pos', rfl, skipped, reaches⟩ := @skipSymbol_before input input.length rest
    (pos.advance c) ((List.suffix_cons c rest).trans suffix) (by omega)
  refine ⟨word, rest', pos', ?_, List.suffix_append .., ?_⟩
  · have whole : skipSymbol input (input.length + 1) (before input (c :: (word ++ rest')) pos) =
        some (before input rest' pos') := by
      simpa [skipSymbol, symbol, next_before suffix] using skipped
    have cut := @slice_before input rest' pos pos' (c :: word) suffix
    rw [List.cons_append] at cut
    simp [Cursor.symbol, whole, cut]
  · have token : Scanner.symbolToken pos (word.reverse ++ [c]) =
        ⟨Token.symbolKind (c :: word), String.ofList (c :: word), pos⟩ := by
      simp [Scanner.symbolToken]
    rw [← token]
    exact (reaches pos [c]).cons fun _ => Scanner.step_gap_of_symbol symbol

theorem quoted_before {text : List Char} (suffix : rest <:+ input) (enough : rest.length < rounds) :
    ∃ kind text' rest' pos', kind ≠ .eof ∧
      quoted input rounds text (before input rest pos) =
        some (kind, text', before input rest' pos') ∧
      ∀ start, Reaches (.string start text.reverse) pos rest [⟨kind, String.ofList text', start⟩]
        pos' rest' := by
  induction rounds generalizing rest pos text with
  | zero => omega
  | succ rounds ih =>
    cases rest with
    | nil =>
      refine ⟨.illegal, text, [], pos, by simp, ?_, fun start => ⟨List.suffix_rfl, fun _ => ?_⟩⟩
      · simp [quoted, atEnd_before suffix]
      · simp [outcome, Scanner.finish]
    | cons c rest =>
      have suffixTail := (List.suffix_cons c rest).trans suffix
      rw [List.length_cons] at enough
      by_cases quote : c = '"'
      · subst quote
        refine ⟨.string, text, rest, pos.advance '"', by simp, ?_, fun start => ?_⟩
        · simp [quoted, atEnd_before suffix, next_before suffix]
        · refine ⟨List.suffix_cons .., fun tokens => ?_⟩
          simp [outcome, Scanner.step]
      by_cases backslash : c = '\\'
      · subst backslash
        cases rest with
        | nil =>
          refine ⟨.illegal, text, [], pos.advance '\\', by simp, ?_, fun start => ?_⟩
          · simp [quoted, atEnd_before suffix, next_before suffix, atEnd_before suffixTail]
          · refine ⟨List.suffix_cons .., fun tokens => ?_⟩
            simp [outcome, Scanner.step, Scanner.finish]
        | cons d rest =>
          rw [List.length_cons] at enough
          obtain ⟨kind, text', rest', pos', proper, read, reaches⟩ :=
            @ih rest ((pos.advance '\\').advance d) (text ++ [Token.unescape d])
              ((List.suffix_cons d rest).trans suffixTail) (by omega)
          refine ⟨kind, text', rest', pos', proper, ?_, fun start => ?_⟩
          · simpa [quoted, atEnd_before suffix, next_before suffix, atEnd_before suffixTail,
              next_before suffixTail] using read
          · have later := reaches start
            rw [List.reverse_append, List.reverse_singleton, List.singleton_append] at later
            exact (later.cons fun _ => rfl).cons fun _ => rfl
      · obtain ⟨kind, text', rest', pos', proper, read, reaches⟩ :=
          @ih rest (pos.advance c) (text ++ [c]) suffixTail (by omega)
        refine ⟨kind, text', rest', pos', proper, ?_, fun start => ?_⟩
        · simpa [quoted, atEnd_before suffix, next_before suffix, quote, backslash] using read
        · have later := reaches start
          rw [List.reverse_append, List.reverse_singleton, List.singleton_append] at later
          exact later.cons fun _ => by simp [Scanner.step, quote, backslash]

theorem isNumber_eq {word : List Char} : isNumber word = some (Token.isNumber word) := by
  rcases word with _ | ⟨first, word⟩
  · rfl
  · by_cases signed : first = '-' ∨ first = '+'
    · rcases signed with rfl | rfl <;> simp [isNumber, Token.isNumber, slice]
    · obtain ⟨notMinus, notPlus⟩ := not_or.mp signed
      simp [isNumber, Token.isNumber, notMinus, notPlus]

theorem kindOf_eq {word : List Char} :
    kindOf c (c :: word) = some (Token.symbolKind (c :: word)) := by
  simp only [kindOf, Token.symbolKind, isNumber_eq]
  by_cases hash : c = '#'
  · simp [hash]
  · cases Token.operatorOf? (String.ofList (c :: word)) <;> simp [hash]

theorem Reaches.single {token : Token} (step : ∀ tokens,
    Scanner.step ⟨.gap, pos, tokens⟩ c = ⟨.gap, pos.advance c, token :: tokens⟩) :
    Reaches .gap pos (c :: rest) [token] (pos.advance c) rest := by
  refine ⟨List.suffix_cons c rest, fun tokens => ?_⟩
  rw [outcome, List.foldl_cons, step]
  rfl

/-- Where a token starts, the cursor moves over it. -/
theorem tokenHere_before (suffix : c :: rest <:+ input) (apart : ¬ IsGap c) :
    ∃ token rest' pos', token.kind ≠ .eof ∧
      tokenHere input (before input (c :: rest) pos) = some (token, before input rest' pos') ∧
      rest' <:+ rest ∧ Reaches .gap pos (c :: rest) [token] pos' rest' := by
  have suffixTail := (List.suffix_cons c rest).trans suffix
  by_cases opens : c = '('
  · subst opens
    exact ⟨⟨.mark .lparen, "(", pos⟩, rest, pos.advance '(', by simp,
      by simp [tokenHere, next_before suffix], List.suffix_rfl, .single fun _ => rfl⟩
  by_cases closes : c = ')'
  · subst closes
    exact ⟨⟨.mark .rparen, ")", pos⟩, rest, pos.advance ')', by simp,
      by simp [tokenHere, next_before suffix], List.suffix_rfl, .single fun _ => rfl⟩
  by_cases colon : c = ':'
  · subst colon
    exact ⟨⟨.mark .colon, ":", pos⟩, rest, pos.advance ':', by simp,
      by simp [tokenHere, next_before suffix], List.suffix_rfl, .single fun _ => rfl⟩
  by_cases quote : c = '"'
  · subst quote
    obtain ⟨kind, text, rest', pos', proper, read, reaches⟩ :=
      @quoted_before input (input.length + 1) rest (pos.advance '"') [] suffixTail
        (Nat.lt_succ_of_le suffixTail.length_le)
    refine ⟨_, rest', pos', proper, ?_, (reaches pos).suffix, (reaches pos).cons fun _ => rfl⟩
    simp [tokenHere, next_before suffix, read]
  cases symbol : Token.isSymbolChar c with
  | true =>
    obtain ⟨word, rest', pos', read, shorter, reaches⟩ :=
      @symbol_before input c rest pos suffix symbol
    refine ⟨_, rest', pos', Token.symbolKind_ne_eof _, ?_, shorter, reaches⟩
    simp [tokenHere, opens, closes, colon, quote, symbol, read, kindOf_eq]
  | false =>
    refine ⟨⟨.illegal, c.toString, pos⟩, rest, pos.advance c, by simp, ?_, List.suffix_rfl,
      .single fun _ => ?_⟩
    · simp [tokenHere, opens, closes, colon, quote, symbol, next_before suffix]
    · obtain ⟨notBlank, notComment⟩ := not_or.mp apart
      simp [Scanner.step, Scanner.stepGap, opens, closes, colon, quote, symbol, notBlank,
        notComment]

/-- Every round of the loop finds a token, until the cursor is at the end. -/
theorem tokens_before (suffix : rest <:+ input) (enough : rest.length < rounds) :
    ∃ found pos', tokens input rounds (before input rest pos) = some ⟨found, ⟨.eof, "", pos'⟩⟩ ∧
      ∀ earlier, outcome ⟨.gap, pos, earlier⟩ rest = (earlier.reverse ++ found, pos') := by
  induction rounds generalizing rest pos with
  | zero => omega
  | succ rounds ih =>
    obtain ⟨middle, pos', skipped, reaches, apart⟩ := @skipGap_before input (input.length + 1) rest
      pos suffix (Nat.lt_succ_of_le suffix.length_le)
    have suffixMiddle := reaches.suffix.trans suffix
    have endsHere := @atEnd_before input middle pos' suffixMiddle
    cases middle with
    | nil =>
      refine ⟨[], pos', ?_, fun earlier => ?_⟩
      · simp [tokens, token, skipped, endsHere]
      · rw [reaches.same]
        simp [outcome]
    | cons c middle =>
      obtain ⟨first, rest', pos'', proper, here, shorter, reaches'⟩ :=
        @tokenHere_before input c middle pos' suffixMiddle (apart c rfl)
      have whole := reaches.trans reaches'
      have fewer : rest'.length < rest.length :=
        Nat.lt_of_lt_of_le (Nat.lt_succ_of_le shorter.length_le) reaches.suffix.length_le
      obtain ⟨found, posEnd, later, same⟩ :=
        @ih rest' pos'' (whole.suffix.trans suffix) (by omega)
      refine ⟨first :: found, posEnd, ?_, fun earlier => ?_⟩
      · simp [tokens, token, skipped, endsHere, here, proper, later]
      · rw [whole.same, same]
        simp

theorem scan_eq {file : String} : scan input file = some (.ofChars file input) := by
  obtain ⟨found, pos, scanned, same⟩ := @tokens_before input (input.length + 1) input (.start file)
    List.suffix_rfl (Nat.lt_succ_self _)
  have whole : outcome (.start file) input = (found, pos) := same []
  obtain ⟨rfl, rfl⟩ := Prod.mk.inj whole
  rw [scan, start_eq]
  exact scanned

end Cursor

end TypedForms
