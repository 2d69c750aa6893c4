import Mathlib.Computability.Language
import TypedForms.Proofs.Datum
import TypedForms.Proofs.Text.Quoted
import TypedForms.Text.Parens
import TypedForms.Token.Scan

/-! Scanning texts that were put together from the texts of tokens. A text is read as a language
of token sequences: what the tokens are is known, and where they stand depends on what was before
them. -/
namespace TypedForms

theorem Text.joined_cons_cons {separator first second : String} {parts : List String} :
    joined separator (first :: second :: parts) =
      first ++ separator ++ joined separator (second :: parts) := by
  have shift : ∀ (parts : List String) (text part : String),
      parts.foldl (fun text part => text ++ separator ++ part) (text ++ part) =
        text ++ parts.foldl (fun text part => text ++ separator ++ part) part := by
    intro parts
    induction parts with
    | nil => exact fun _ _ => rfl
    | cons next parts ih =>
      intro text part
      rw [List.foldl_cons, String.append_assoc, String.append_assoc, ih, List.foldl_cons,
        String.append_assoc]
  exact shift parts (first ++ separator) second

namespace Token

/-- What the scanner makes of a text. -/
inductive Scanned : Token → Prop where
  | word {token : Token} (nonempty : token.literal.toList ≠ [])
    (chars : ∀ c ∈ token.literal.toList, isSymbolChar c = true)
    (kind : token.kind = symbolKind token.literal.toList) : Scanned token
  | delimiter {pos mark} (apart : mark = .lparen ∨ mark = .rparen ∨ mark = .colon) :
    Scanned ⟨.mark mark, mark.spelling, pos⟩
  | string {literal pos} : Scanned ⟨.string, literal, pos⟩
  | illegal {literal pos} : Scanned ⟨.illegal, literal, pos⟩

/-- A single token, wherever it stands. -/
def single (kind : Kind) (literal : String) : Language Token :=
  {tokens | ∃ pos, tokens = [⟨kind, literal, pos⟩]}

/-- Token sequences in parentheses. -/
def parens (inner : Language Token) : Language Token :=
  {tokens | ∃ start finish, ∃ inside ∈ inner,
    tokens = enclose ⟨.mark .lparen, "(", start⟩ inside ⟨.mark .rparen, ")", finish⟩}

end Token

namespace Scanner

open Token (Scanned isSymbolChar single)

variable {s : Scanner} {c : Char} {pos : Position} {tokens : List Token} {text : List Char}

/-! Every token is of a form that the scanner makes. -/

/-- All finished tokens are in order, and so is the word that is being read. -/
structure Valid (s : Scanner) : Prop where
  tokens : ∀ t ∈ s.tokens, Scanned t
  pending : ∀ start text, s.mode = .symbol start text →
    text ≠ [] ∧ ∀ c ∈ text, isSymbolChar c = true

theorem valid_stepGap (scanned : ∀ t ∈ tokens, Scanned t) : (stepGap c pos tokens).Valid := by
  unfold stepGap
  dsimp only
  split
  next => exact ⟨scanned, by simp⟩
  split
  next => exact ⟨scanned, by simp⟩
  split
  next => exact ⟨List.forall_mem_cons.mpr ⟨.delimiter (by simp), scanned⟩, by simp⟩
  split
  next => exact ⟨List.forall_mem_cons.mpr ⟨.delimiter (by simp), scanned⟩, by simp⟩
  split
  next => exact ⟨List.forall_mem_cons.mpr ⟨.delimiter (by simp), scanned⟩, by simp⟩
  split
  next => exact ⟨scanned, by simp⟩
  split
  next symbol => exact ⟨scanned, by simp [symbol]⟩
  next => exact ⟨List.forall_mem_cons.mpr ⟨.illegal, scanned⟩, by simp⟩

theorem scanned_symbolToken {start : Position} (nonempty : text ≠ [])
    (chars : ∀ c ∈ text, isSymbolChar c = true) : Scanned (symbolToken start text) := by
  have literal : (symbolToken start text).literal.toList = text.reverse := by
    simp [symbolToken]
  refine .word ?_ ?_ (by rw [literal]; rfl)
  · rw [literal]
    simpa using nonempty
  · rw [literal]
    simpa using chars

theorem Valid.step (valid : s.Valid) (c : Char) : (s.step c).Valid := by
  unfold Scanner.step
  dsimp only
  split
  next => exact valid_stepGap valid.tokens
  next => exact ⟨valid.tokens, by split <;> simp⟩
  next start text mode =>
    obtain ⟨nonempty, chars⟩ := valid.pending start text mode
    split
    next symbol =>
      refine ⟨valid.tokens, ?_⟩
      rintro _ _ ⟨⟩
      exact ⟨List.cons_ne_nil _ _, List.forall_mem_cons.mpr ⟨symbol, chars⟩⟩
    next =>
      have word : Scanned (symbolToken start text) := scanned_symbolToken nonempty chars
      exact valid_stepGap (List.forall_mem_cons.mpr ⟨word, valid.tokens⟩)
  next =>
    split
    · exact ⟨List.forall_mem_cons.mpr ⟨.string, valid.tokens⟩, by simp⟩
    · split <;> exact ⟨valid.tokens, by simp⟩
  next => exact ⟨valid.tokens, by simp⟩

theorem Valid.foldl (valid : s.Valid) : (text.foldl Scanner.step s).Valid := by
  induction text generalizing s with
  | nil => exact valid
  | cons c text ih => exact ih (valid.step c)

theorem Valid.finish (valid : s.Valid) : ∀ t ∈ s.finish, Scanned t := by
  unfold Scanner.finish
  split <;> simp only [List.mem_reverse]
  next => exact valid.tokens
  next => exact valid.tokens
  next start text mode =>
    obtain ⟨nonempty, chars⟩ := valid.pending start text mode
    exact List.forall_mem_cons.mpr ⟨scanned_symbolToken nonempty chars, valid.tokens⟩
  next => exact List.forall_mem_cons.mpr ⟨.illegal, valid.tokens⟩
  next => exact List.forall_mem_cons.mpr ⟨.illegal, valid.tokens⟩

end Scanner

theorem TokenStream.scanned (file source : String) :
    ∀ t ∈ (TokenStream.ofSource file source).tokens, t.Scanned := by
  have start : (Scanner.start file).Valid := ⟨by simp [Scanner.start], by simp [Scanner.start]⟩
  exact start.foldl.finish

namespace Scanner

open Token (isSymbolChar single)

variable {s : Scanner} {c : Char} {pos : Position} {tokens : List Token} {text text' : List Char}
  {language language' : Language Token}

/-! Texts of tokens. -/

/-- Between two tokens, or inside one that ends where the next character is no part of it. -/
def Settled (s : Scanner) : Prop := s.mode = .gap ∨ ∃ start text, s.mode = .symbol start text

@[simp] theorem finish_gap : finish ⟨.gap, pos, tokens⟩ = tokens.reverse := rfl

/-- What ends a word is taken as if the word had ended before it. -/
theorem step_of_settled (settled : s.Settled) (apart : isSymbolChar c = false) :
    s.step c = stepGap c s.pos s.finish.reverse := by
  obtain ⟨mode, pos, tokens⟩ := s
  rcases settled with rfl | ⟨start, text, rfl⟩
  · simp [step, finish]
  · simp [step, finish, apart]

theorem step_gap_of_symbol (symbol : isSymbolChar c = true) :
    step ⟨.gap, pos, tokens⟩ c = ⟨.symbol pos [c], pos.advance c, tokens⟩ := by
  have apart := symbol
  simp only [isSymbolChar, Bool.not_eq_true', Bool.or_eq_false_iff, beq_eq_false_iff_ne] at apart
  simp [step, stepGap, apart, symbol]

/-- From between two tokens, the text is read as a token sequence of the language. -/
def Reads (text : List Char) (language : Language Token) : Prop :=
  ∀ pos tokens, (text.foldl step ⟨.gap, pos, tokens⟩).Settled ∧
    ∃ new ∈ language, (text.foldl step ⟨.gap, pos, tokens⟩).finish = tokens.reverse ++ new

namespace Reads

theorem mono (reads : Reads text language) (sub : ∀ tokens ∈ language, tokens ∈ language') :
    Reads text language' := by
  intro pos tokens
  obtain ⟨settled, new, member, finish⟩ := reads pos tokens
  exact ⟨settled, new, sub new member, finish⟩

theorem nil : Reads [] 1 := by
  intro pos tokens
  exact ⟨.inl rfl, [], rfl, by simp [finish]⟩

/-- A blank keeps two texts apart. -/
theorem apart (first : Reads text language) (second : Reads text' language')
    (blank : c = ' ' ∨ c = '\n') : Reads (text ++ c :: text') (language * language') := by
  intro pos tokens
  obtain ⟨settled, new, member, finish⟩ := first pos tokens
  rw [List.foldl_append, List.foldl_cons]
  set middle := text.foldl step ⟨.gap, pos, tokens⟩
  have stepped : middle.step c = ⟨.gap, middle.pos.advance c, middle.finish.reverse⟩ := by
    rw [step_of_settled settled (by rcases blank with rfl | rfl <;> rfl)]
    rcases blank with rfl | rfl <;> rfl
  obtain ⟨settled', new', member', finish'⟩ := second (middle.pos.advance c) middle.finish.reverse
  rw [stepped]
  refine ⟨settled', new ++ new', ⟨new, member, new', member', rfl⟩, ?_⟩
  rw [finish', List.reverse_reverse, finish, List.append_assoc]

theorem parens (inner : Reads text language) :
    Reads ('(' :: (text ++ [')'])) (Token.parens language) := by
  intro pos tokens
  rw [List.foldl_cons, List.foldl_append]
  have opened : step ⟨.gap, pos, tokens⟩ '(' =
      ⟨.gap, pos.advance '(', ⟨.mark .lparen, "(", pos⟩ :: tokens⟩ := rfl
  rw [opened]
  obtain ⟨settled, new, member, finish⟩ :=
    inner (pos.advance '(') (⟨.mark .lparen, "(", pos⟩ :: tokens)
  set middle := text.foldl step ⟨.gap, pos.advance '(', ⟨.mark .lparen, "(", pos⟩ :: tokens⟩
  have closed : middle.step ')' = ⟨.gap, middle.pos.advance ')',
      ⟨.mark .rparen, ")", middle.pos⟩ :: middle.finish.reverse⟩ :=
    step_of_settled settled rfl
  rw [List.foldl_cons, List.foldl_nil, closed]
  refine ⟨.inl rfl, _, ⟨pos, middle.pos, new, member, rfl⟩, ?_⟩
  rw [finish_gap, List.reverse_cons, List.reverse_reverse, finish]
  simp [Token.enclose]

theorem colon : Reads [':'] (single (.mark .colon) ":") := by
  intro pos tokens
  exact ⟨.inl rfl, _, ⟨pos, rfl⟩, by simp [finish, step, stepGap]⟩

theorem foldl_symbol {start : Position} {read : List Char}
    (chars : ∀ c ∈ text, isSymbolChar c = true) :
    ∃ pos', text.foldl step ⟨.symbol start read, pos, tokens⟩ =
      ⟨.symbol start (text.reverse ++ read), pos', tokens⟩ := by
  induction text generalizing pos read with
  | nil => exact ⟨pos, rfl⟩
  | cons c text ih =>
    obtain ⟨first, rest⟩ := List.forall_mem_cons.mp chars
    obtain ⟨pos', same⟩ := @ih (pos.advance c) (c :: read) rest
    refine ⟨pos', ?_⟩
    simp only [List.foldl_cons, step, first, if_true, same, List.reverse_cons, List.append_assoc,
      List.singleton_append]

/-- A word is read as one token. -/
theorem word (nonempty : text ≠ []) (chars : ∀ c ∈ text, isSymbolChar c = true) :
    Reads text (single (Token.symbolKind text) (String.ofList text)) := by
  intro pos tokens
  obtain ⟨c, text, rfl⟩ := List.exists_cons_of_ne_nil nonempty
  obtain ⟨first, rest⟩ := List.forall_mem_cons.mp chars
  obtain ⟨pos', read⟩ := @foldl_symbol (pos.advance c) tokens text pos [c] rest
  rw [List.foldl_cons, step_gap_of_symbol first, read]
  refine ⟨.inr ⟨pos, _, rfl⟩, _, ⟨pos, rfl⟩, ?_⟩
  simp [finish, symbolToken]

theorem foldl_plain {start : Position} {read : List Char} (plain : ∀ c ∈ text, c ≠ '"' ∧ c ≠ '\\') :
    ∃ pos', text.foldl step ⟨.string start read, pos, tokens⟩ =
      ⟨.string start (text.reverse ++ read), pos', tokens⟩ := by
  induction text generalizing pos read with
  | nil => exact ⟨pos, rfl⟩
  | cons c text ih =>
    obtain ⟨⟨notQuote, notBackslash⟩, rest⟩ := List.forall_mem_cons.mp plain
    obtain ⟨pos', same⟩ := @ih (pos.advance c) (c :: read) rest
    refine ⟨pos', ?_⟩
    simp only [List.foldl_cons, step, notQuote, notBackslash, if_false, same, List.reverse_cons,
      List.append_assoc, List.singleton_append]

theorem foldl_escape {start : Position} {read : List Char} :
    ∃ pos', (Text.escape c).foldl step ⟨.string start read, pos, tokens⟩ =
      ⟨.string start ((Text.reread c).reverse ++ read), pos', tokens⟩ := by
  rcases Text.escape_cases c with ⟨plain, other⟩ | ⟨d, ds, escaped, plain⟩
  · rw [plain, Text.reread_of_plain plain]
    exact foldl_plain (by simpa using other)
  · -- the backslash and `d` are taken together, and the rest as it stands
    have begun : ['\\', d].foldl step ⟨.string start read, pos, tokens⟩ =
        ⟨.string start (Token.unescape d :: read), (pos.advance '\\').advance d, tokens⟩ := rfl
    obtain ⟨pos', same⟩ := @foldl_plain ((pos.advance '\\').advance d) tokens ds start
      (Token.unescape d :: read) plain
    refine ⟨pos', ?_⟩
    rw [escaped, Text.reread_of_escaped escaped]
    calc ('\\' :: d :: ds).foldl step ⟨.string start read, pos, tokens⟩
        = ds.foldl step (['\\', d].foldl step ⟨.string start read, pos, tokens⟩) := rfl
      _ = _ := by rw [begun, same, List.reverse_cons, List.append_assoc, List.singleton_append]

theorem foldl_escapes {start : Position} {read : List Char} :
    ∃ pos', (text.flatMap Text.escape).foldl step ⟨.string start read, pos, tokens⟩ =
      ⟨.string start ((text.flatMap Text.reread).reverse ++ read), pos', tokens⟩ := by
  induction text generalizing pos read with
  | nil => exact ⟨pos, rfl⟩
  | cons c text ih =>
    obtain ⟨middle, first⟩ := @foldl_escape c pos tokens start read
    obtain ⟨pos', rest⟩ := @ih middle ((Text.reread c).reverse ++ read)
    refine ⟨pos', ?_⟩
    rw [List.flatMap_cons, List.foldl_append, first, rest, List.flatMap_cons, List.reverse_append,
      List.append_assoc]

/-- A quoted text is read as one token, whatever the text is. -/
theorem quote (text : String) :
    Reads (Text.quote text).toList (single .string (Text.rereadText text)) := by
  intro pos tokens
  obtain ⟨last, read⟩ := @foldl_escapes (pos.advance '"') tokens text.toList pos []
  have whole : (Text.quote text).toList.foldl step ⟨.gap, pos, tokens⟩ =
      ⟨.gap, last.advance '"', ⟨.string, Text.rereadText text, pos⟩ :: tokens⟩ := by
    have begun : step ⟨.gap, pos, tokens⟩ '"' = ⟨.string pos [], pos.advance '"', tokens⟩ := rfl
    rw [Text.quote, String.toList_ofList, Text.quoteChars, List.cons_append, List.foldl_cons, begun,
      List.foldl_append, read]
    simp [step, Text.rereadText]
  rw [whole]
  exact ⟨.inl rfl, _, ⟨pos, rfl⟩, by simp⟩

/-! Texts of forms. -/

theorem spelled {word : String} {kind : Token.Kind} (nonempty : word.toList ≠ [])
    (chars : word.toList.all isSymbolChar = true) (same : Token.symbolKind word.toList = kind) :
    Reads word.toList (single kind word) := by
  have reads := Reads.word nonempty (List.all_eq_true.mp chars)
  rwa [same, String.ofList_toList] at reads

theorem keyword (k : Keyword) :
    Reads k.spelling.toList (single (.keyword k) k.spelling) := by
  cases k <;> exact .spelled (by decide) (by decide) rfl

/-- Parts with blanks between them are read one after the other. -/
theorem joined_cons {separator first : String} {parts : List String}
    (blank : separator = " " ∨ separator = "\n") (head : Reads first.toList language)
    (tail : Reads (Text.joined separator parts).toList language') :
    Reads (Text.joined separator (first :: parts)).toList (language * language') := by
  cases parts with
  | nil =>
    have empty : [] ∈ language' := by
      obtain ⟨_, new, member, finish⟩ := tail (.start "") []
      obtain rfl : new = [] := finish.symm
      exact member
    exact head.mono fun tokens member => ⟨tokens, member, [], empty, List.append_nil tokens⟩
  | cons second parts =>
    rw [Text.joined_cons_cons, String.toList_append, String.toList_append, List.append_assoc]
    rcases blank with rfl | rfl
    · exact head.apart tail (.inl rfl)
    · exact head.apart tail (.inr rfl)

theorem joined_nil {separator : String} : Reads (Text.joined separator []).toList 1 := nil

theorem joined_single {separator first : String} (only : Reads first.toList language) :
    Reads (Text.joined separator [first]).toList language := only

theorem cons {first : String} {parts : List String} (head : Reads first.toList language)
    (tail : Reads (Text.joined " " parts).toList language') :
    Reads (Text.joined " " (first :: parts)).toList (language * language') :=
  joined_cons (.inl rfl) head tail

theorem parensText {parts : List String}
    (inner : Reads (Text.joined " " parts).toList language) :
    Reads (Text.parens parts).toList (Token.parens language) := by
  rw [Text.parens, String.toList_append, String.toList_append, List.append_assoc]
  exact inner.parens

end Reads

end Scanner

/-! The texts of tokens. -/

namespace Token

variable {token : Token}

/-- What the kind of a token says about its text. -/
def Kind.Fits : Kind → String → Prop
  | .mark m, text => text = m.spelling
  | .keyword k, text => text = k.spelling
  | .bool, text => text = "#t" ∨ text = "#f"
  | _, _ => True

theorem fits_symbolKind (symbol : List Char) :
    (symbolKind symbol).Fits (String.ofList symbol) := by
  unfold symbolKind
  dsimp only
  split
  next =>
    split
    next word => simpa [Kind.Fits] using word
    next => trivial
  split
  next mark found =>
    have spelling := List.find?_some found
    exact (eq_of_beq spelling).symm
  split
  next => trivial
  unfold Kind.ofWord
  split
  next keyword found =>
    have spelling := List.find?_some found
    exact (eq_of_beq spelling).symm
  next => trivial

theorem symbolKind_ne_eof (symbol : List Char) : symbolKind symbol ≠ .eof := by
  simp only [symbolKind, Kind.ofWord]
  split
  · split <;> simp
  split
  · simp
  split
  · simp
  split <;> simp

namespace Scanned

open Scanner (Reads)

theorem kind_ne_eof (scanned : token.Scanned) : token.kind ≠ .eof := by
  cases scanned with
  | word _ _ kind =>
    rw [kind]
    exact symbolKind_ne_eof _
  | delimiter | string | illegal => simp

/-- Names, numbers and keywords are words. -/
theorem isWord (scanned : token.Scanned) (mark : ∀ m, token.kind ≠ .mark m)
    (string : token.kind ≠ .string) (illegal : token.kind ≠ .illegal) :
    token.literal.toList ≠ [] ∧ (∀ c ∈ token.literal.toList, isSymbolChar c = true) ∧
      symbolKind token.literal.toList = token.kind := by
  cases scanned with
  | word nonempty chars kind => exact ⟨nonempty, chars, kind.symm⟩
  | delimiter => exact absurd rfl (mark _)
  | string => exact absurd rfl string
  | illegal => exact absurd rfl illegal

/-- The text of a word is read as the word. -/
theorem reads {kind : Kind} (scanned : token.Scanned) (same : token.kind = kind)
    (mark : ∀ m, kind ≠ .mark m) (string : kind ≠ .string) (illegal : kind ≠ .illegal) :
    Reads token.literal.toList (single kind token.literal) := by
  subst same
  obtain ⟨nonempty, chars, kind⟩ := scanned.isWord mark string illegal
  exact .spelled nonempty (List.all_eq_true.mpr chars) kind

theorem fits {kind : Kind} (scanned : token.Scanned) (same : token.kind = kind) :
    kind.Fits token.literal := by
  subst same
  cases scanned with
  | word _ _ kind =>
    rw [kind]
    simpa using fits_symbolKind token.literal.toList
  | delimiter => rfl
  | string => trivial
  | illegal => trivial

end Scanned

end Token

end TypedForms
