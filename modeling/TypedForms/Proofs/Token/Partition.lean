import TypedForms.Proofs.Strict.Token

/-! A source falls into pieces: blanks, comments, and the spans of its tokens, in order and with
nothing left over. A token stands where its span starts, and it has the text of its span unless it
is a string. -/
namespace TypedForms

/-- The place that comes after a text from the start of a file. -/
def Position.after (file : String) (read : List Char) : Position :=
  ⟨file, 1 + (read.count '\n' : Nat), 1 + (read.reverse.takeWhile (· ≠ '\n')).length⟩

theorem Position.advance_after {file : String} {read : List Char} {c : Char} :
    (after file read).advance c = after file (read ++ [c]) := by
  by_cases newline : c = '\n'
  · simp [advance, after, newline, Int.add_assoc]
  · simp [advance, after, newline, List.count_append, Int.add_assoc]

/-- What the inside of a string stands for. -/
inductive Token.Denotes : List Char → List Char → Prop where
  | nil : Denotes [] []
  | plain {c body text} (quote : c ≠ '"') (backslash : c ≠ '\\') (rest : Denotes body text) :
    Denotes (c :: body) (c :: text)
  | newline {body text} (rest : Denotes body text) : Denotes ('\\' :: 'n' :: body) ('\n' :: text)
  | tab {body text} (rest : Denotes body text) : Denotes ('\\' :: 't' :: body) ('\t' :: text)
  | other {c body text} (newline : c ≠ 'n') (tab : c ≠ 't') (rest : Denotes body text) :
    Denotes ('\\' :: c :: body) (c :: text)

namespace Token.Denotes

variable {body body' text text' : List Char} {c : Char}

theorem append (first : Denotes body text) (second : Denotes body' text') :
    Denotes (body ++ body') (text ++ text') := by
  induction first with
  | nil => exact second
  | plain quote backslash _ ih => exact .plain quote backslash ih
  | newline _ ih => exact .newline ih
  | tab _ ih => exact .tab ih
  | other newline tab _ ih => exact .other newline tab ih

theorem escape (c : Char) : Denotes ['\\', c] [unescape c] := by
  unfold unescape
  split
  next newline =>
    subst newline
    exact .newline .nil
  next notNewline =>
    split
    next tab =>
      subst tab
      exact .tab .nil
    next notTab => exact .other notNewline notTab .nil

end Token.Denotes

/-- A part of a source, and the token that it is the span of, if it is one. -/
structure Piece where
  text : List Char
  token : Option Token

namespace Piece

variable {file : String} {pieces : List Piece} {piece : Piece} {rest : List Char}

/-- The text that pieces make up. -/
def texts (pieces : List Piece) : List Char := pieces.flatMap (·.text)

/-- The tokens among pieces. -/
def tokens (pieces : List Piece) : List Token := pieces.filterMap (·.token)

/-- What a piece is, by the text before and after it. The text after a word or a comment tells that
there is not more of it; the text before a word, that it has not started earlier. -/
inductive Fits (file : String) (before : List Char) : Piece → (after : List Char) → Prop where
  | blank {c after} (blank : c = ' ' ∨ c = '\t' ∨ c = '\r' ∨ c = '\n') :
    Fits file before ⟨[c], none⟩ after
  | comment {body after} (inside : '\n' ∉ body) (ends : ∀ c ∈ after.head?, c = '\n') :
    Fits file before ⟨';' :: body, none⟩ after
  | word {text after} (nonempty : text ≠ []) (chars : ∀ c ∈ text, Token.isSymbolChar c = true)
    (left : ∀ c ∈ before.getLast?, Token.isSymbolChar c = false)
    (right : ∀ c ∈ after.head?, Token.isSymbolChar c = false) :
    Fits file before
      ⟨text, some ⟨Token.symbolKind text, String.ofList text, .after file before⟩⟩ after
  | delimiter {mark after} (apart : mark = .lparen ∨ mark = .rparen ∨ mark = .colon) :
    Fits file before
      ⟨mark.spelling.toList, some ⟨.mark mark, mark.spelling, .after file before⟩⟩ after
  | nul {after} :
    Fits file before ⟨['\x00'], some ⟨.illegal, "\x00", .after file before⟩⟩ after
  | string {body text after} (denotes : Token.Denotes body text) :
    Fits file before
      ⟨'"' :: (body ++ ['"']), some ⟨.string, String.ofList text, .after file before⟩⟩ after
  | openString {body text cut} (denotes : Token.Denotes body text)
    (last : cut = [] ∨ cut = ['\\']) :
    Fits file before
      ⟨'"' :: (body ++ cut), some ⟨.illegal, String.ofList text, .after file before⟩⟩ []

/-- Every piece fits where it stands, with more text after the last one. -/
def AllFit (file : String) (pieces : List Piece) (rest : List Char) : Prop :=
  ∀ before piece after, pieces = before ++ piece :: after →
    piece.Fits file (texts before) (texts after ++ rest)

@[simp] theorem texts_concat : texts (pieces ++ [piece]) = texts pieces ++ piece.text := by
  simp [texts]

theorem tokens_concat : tokens (pieces ++ [piece]) = tokens pieces ++ piece.token.toList := by
  cases token : piece.token <;> simp [tokens, token]

theorem AllFit.concat (all : AllFit file pieces (piece.text ++ rest))
    (fits : piece.Fits file (texts pieces) rest) : AllFit file (pieces ++ [piece]) rest := by
  intro before found after split
  rcases List.eq_nil_or_concat' after with rfl | ⟨after, last, rfl⟩
  · obtain ⟨rfl, rfl⟩ := List.append_singleton_inj.mp split
    exact fits
  · rw [← List.cons_append, ← List.append_assoc] at split
    obtain ⟨rfl, rfl⟩ := List.append_singleton_inj.mp split
    rw [texts_concat, List.append_assoc]
    exact all before found after rfl

end Piece

namespace Scanner

open Piece (texts AllFit)
open Token (isSymbolChar Denotes)

/-- What the scanner is inside of, and the characters of it that were taken so far. -/
inductive Opened (file : String) (before : List Char) : Mode → List Char → Prop where
  | gap (apart : ∀ c ∈ before.getLast?, isSymbolChar c = false) : Opened file before .gap []
  | comment {body} (inside : '\n' ∉ body) : Opened file before .comment (';' :: body)
  | symbol {text} (nonempty : text ≠ []) (chars : ∀ c ∈ text, isSymbolChar c = true)
    (apart : ∀ c ∈ before.getLast?, isSymbolChar c = false) :
    Opened file before (.symbol (.after file before) text) text.reverse
  | string {body text} (denotes : Denotes body text.reverse) :
    Opened file before (.string (.after file before) text) ('"' :: body)
  | escape {body text} (denotes : Denotes body text.reverse) :
    Opened file before (.escape (.after file before) text) ('"' :: (body ++ ['\\']))

/-- What was read falls into pieces and the open part, whatever comes after it. -/
structure Cut (file : String) (read : List Char) (pieces : List Piece) (opened : List Char)
    (s : Scanner) : Prop where
  whole : texts pieces ++ opened = read
  tokens : Piece.tokens pieces = s.tokens.reverse
  pos : s.pos = .after file read
  fits : ∀ rest, AllFit file pieces (opened ++ rest)
  opened : Opened file (texts pieces) s.mode opened

variable {file : String} {read text : List Char} {pieces : List Piece} {opened : List Char}
  {s : Scanner} {c : Char} {tokens : List Token}

/-- A finished piece, after which the scanner is between tokens. -/
theorem Cut.ofPiece {init : List Char} {token : Option Token}
    (found : Piece.tokens pieces = tokens.reverse)
    (all : ∀ rest, AllFit file pieces (init ++ c :: rest))
    (fits : ∀ rest, Piece.Fits file (texts pieces) ⟨init ++ [c], token⟩ rest)
    (other : isSymbolChar c = false) (whole : texts pieces ++ init = read) :
    Cut file (read ++ [c]) (pieces ++ [⟨init ++ [c], token⟩]) []
      ⟨.gap, .after file (read ++ [c]), token.toList ++ tokens⟩ := by
  have split : texts (pieces ++ [⟨init ++ [c], token⟩]) = read ++ [c] := by
    rw [Piece.texts_concat, ← List.append_assoc, whole]
  refine ⟨by rw [split, List.append_nil], ?_, rfl, fun rest => ?_, .gap ?_⟩
  · rw [Piece.tokens_concat, found]
    cases token <;> simp
  · refine AllFit.concat ?_ (fits rest)
    rw [List.append_assoc]
    exact all rest
  · rw [split]
    simpa using other

/-- A character that is no part of a token before it starts a piece, or is one. -/
theorem exists_cut_stepGap (found : Piece.tokens pieces = tokens.reverse)
    (all : ∀ rest, AllFit file pieces (c :: rest))
    (apart : isSymbolChar c = true → ∀ d ∈ (texts pieces).getLast?, isSymbolChar d = false) :
    ∃ pieces' opened', Cut file (texts pieces ++ [c]) pieces' opened'
      (stepGap c (.after file (texts pieces)) tokens) := by
  have single : ∀ token : Option Token, isSymbolChar c = false →
      (∀ rest, Piece.Fits file (texts pieces) ⟨[c], token⟩ rest) →
      Cut file (texts pieces ++ [c]) (pieces ++ [⟨[c], token⟩]) []
        ⟨.gap, .after file (texts pieces ++ [c]), token.toList ++ tokens⟩ := by
    intro token other fits
    exact @Cut.ofPiece _ _ _ _ _ [] _ found all fits other (List.append_nil _)
  have started : ∀ mode, Opened file (texts pieces) mode [c] →
      Cut file (texts pieces ++ [c]) pieces [c] ⟨mode, .after file (texts pieces ++ [c]), tokens⟩ :=
    fun mode opened => ⟨rfl, found, rfl, all, opened⟩
  unfold stepGap
  dsimp only
  rw [Position.advance_after]
  split
  next blank =>
    refine ⟨_, _, single none ?_ fun rest => .blank (by tauto)⟩
    rcases blank with rfl | rfl | rfl | rfl <;> rfl
  split
  next semicolon =>
    subst semicolon
    exact ⟨_, _, started _ (.comment List.not_mem_nil)⟩
  split
  next opening =>
    subst opening
    exact ⟨_, _, single (some _) rfl fun rest => @Piece.Fits.delimiter _ _ .lparen _ (by simp)⟩
  split
  next closing =>
    subst closing
    exact ⟨_, _, single (some _) rfl fun rest => @Piece.Fits.delimiter _ _ .rparen _ (by simp)⟩
  split
  next colon =>
    subst colon
    exact ⟨_, _, single (some _) rfl fun rest => @Piece.Fits.delimiter _ _ .colon _ (by simp)⟩
  split
  next quote =>
    subst quote
    exact ⟨_, _, started _ (.string .nil)⟩
  split
  next symbol =>
    have opened : Opened file (texts pieces) (.symbol (.after file (texts pieces)) [c])
        [c].reverse := .symbol (List.cons_ne_nil _ _) (by simpa using symbol) (apart symbol)
    exact ⟨_, _, started _ opened⟩
  next blank semicolon opening closing colon quote other =>
    -- of the characters that are no symbols only one is left
    have nul : c = '\x00' := by
      simp only [isSymbolChar, Bool.not_eq_true, Bool.not_eq_false', Bool.or_eq_true,
        beq_iff_eq] at other
      tauto
    subst nul
    exact ⟨_, _, single (some _) rfl fun rest => .nul⟩

/-- The word that is being read ends before a character that is no part of it. -/
theorem Cut.allFit_word (cut : Cut file read pieces text.reverse s) (nonempty : text ≠ [])
    (chars : ∀ c ∈ text, isSymbolChar c = true)
    (apart : ∀ c ∈ (texts pieces).getLast?, isSymbolChar c = false) {rest : List Char}
    (ends : ∀ c ∈ rest.head?, isSymbolChar c = false) :
    AllFit file
      (pieces ++ [⟨text.reverse, some (symbolToken (.after file (texts pieces)) text)⟩]) rest := by
  refine AllFit.concat (cut.fits rest) (.word ?_ ?_ apart ends)
  · simpa using nonempty
  · simpa using chars

/-- Every character is taken into the open part, or into a piece of its own after the open part has
become one. -/
theorem Cut.step (cut : Cut file read pieces opened s) (c : Char) :
    ∃ pieces' opened', Cut file (read ++ [c]) pieces' opened' (s.step c) := by
  obtain ⟨mode, pos, tokens⟩ := s
  obtain ⟨whole, found, rfl, fits, inside⟩ := cut
  have extend : ∀ mode', Opened file (texts pieces) mode' (opened ++ [c]) →
      Cut file (read ++ [c]) pieces (opened ++ [c]) ⟨mode', .after file (read ++ [c]), tokens⟩ := by
    intro mode' opened'
    refine ⟨by rw [← List.append_assoc, whole], found, rfl, fun rest => ?_, opened'⟩
    rw [List.append_assoc]
    exact fits _
  cases inside with
  | gap apart =>
    rw [List.append_nil] at whole
    subst whole
    exact exists_cut_stepGap found (fun rest => fits (c :: rest)) fun _ => apart
  | @comment body inside =>
    rw [Scanner.step, Position.advance_after]
    by_cases newline : c = '\n'
    · subst newline
      have first : ∀ rest, AllFit file (pieces ++ [⟨';' :: body, none⟩]) ('\n' :: rest) :=
        fun rest => AllFit.concat (fits _) (.comment inside (by simp))
      rw [if_pos rfl]
      have same : Piece.tokens (pieces ++ [⟨';' :: body, none⟩]) = tokens.reverse := by
        rw [Piece.tokens_concat, found]
        simp
      have before : texts (pieces ++ [⟨';' :: body, none⟩]) ++ [] = read := by
        rw [Piece.texts_concat, whole, List.append_nil]
      exact ⟨_, _, @Cut.ofPiece _ _ _ _ _ [] none same first (fun rest => .blank (by simp)) rfl
        before⟩
    · rw [if_neg newline]
      refine ⟨_, _, extend _ (.comment ?_)⟩
      simpa [inside] using Ne.symm newline
  | @symbol text nonempty chars apart =>
    rw [Scanner.step]
    dsimp only
    cases symbol : isSymbolChar c with
    | true =>
      have longer : Opened file (texts pieces)
          (.symbol (.after file (texts pieces)) (c :: text)) (text.reverse ++ [c]) := by
        rw [← List.reverse_cons]
        exact .symbol (List.cons_ne_nil _ _) (List.forall_mem_cons.mpr ⟨symbol, chars⟩) apart
      rw [if_pos rfl, Position.advance_after]
      exact ⟨_, _, extend _ longer⟩
    | false =>
      have cut : Cut file read pieces text.reverse
          ⟨.symbol (.after file (texts pieces)) text, .after file read, tokens⟩ :=
        ⟨whole, found, rfl, fits, .symbol nonempty chars apart⟩
      have all : ∀ rest, AllFit file _ (c :: rest) :=
        fun rest => cut.allFit_word nonempty chars apart (by simpa using symbol)
      have words : Piece.tokens
          (pieces ++ [⟨text.reverse, some (symbolToken (.after file (texts pieces)) text)⟩]) =
          (symbolToken (.after file (texts pieces)) text :: tokens).reverse := by
        rw [Piece.tokens_concat, found]
        simp
      have next := exists_cut_stepGap words all (by simp [symbol])
      rwa [Piece.texts_concat, whole] at next
  | @string body text denotes =>
    rw [Scanner.step]
    dsimp only
    rw [Position.advance_after]
    by_cases quote : c = '"'
    · subst quote
      rw [if_pos rfl]
      exact ⟨_, _, @Cut.ofPiece _ _ _ _ _ ('"' :: body) (some _) found
        (fun rest => fits ('"' :: rest)) (fun rest => .string denotes) rfl whole⟩
    · rw [if_neg quote]
      by_cases backslash : c = '\\'
      · subst backslash
        rw [if_pos rfl]
        exact ⟨_, _, extend _ (.escape denotes)⟩
      · rw [if_neg backslash]
        have longer : Denotes (body ++ [c]) (c :: text).reverse := by
          rw [List.reverse_cons]
          exact denotes.append (.plain quote backslash .nil)
        exact ⟨_, _, extend _ (.string longer)⟩
  | @escape body text denotes =>
    rw [Scanner.step]
    dsimp only
    rw [Position.advance_after]
    have longer : Denotes (body ++ ['\\', c]) (Token.unescape c :: text).reverse := by
      rw [List.reverse_cons]
      exact denotes.append (.escape c)
    refine ⟨_, _, extend _ ?_⟩
    rw [List.cons_append, List.append_assoc]
    exact .string longer

theorem Cut.foldl (cut : Cut file read pieces opened s) :
    ∃ pieces' opened', Cut file (read ++ text) pieces' opened' (text.foldl Scanner.step s) := by
  induction text generalizing read pieces opened s with
  | nil => exact ⟨pieces, opened, by simpa using cut⟩
  | cons c text ih =>
    obtain ⟨_, _, next⟩ := cut.step c
    have rest := ih next
    rwa [List.append_assoc] at rest

/-- At the end of the source, the open part is a piece as well. -/
theorem Cut.finish (cut : Cut file read pieces opened s) :
    ∃ pieces', texts pieces' = read ∧ Piece.tokens pieces' = s.finish ∧
      AllFit file pieces' [] := by
  obtain ⟨mode, pos, tokens⟩ := s
  have inside := cut.opened
  have last : ∀ piece : Piece, piece.text = opened → piece.Fits file (texts pieces) [] →
      texts (pieces ++ [piece]) = read ∧
      Piece.tokens (pieces ++ [piece]) = tokens.reverse ++ piece.token.toList ∧
      AllFit file (pieces ++ [piece]) [] := by
    rintro piece rfl fits
    refine ⟨by rw [Piece.texts_concat, cut.whole], ?_, AllFit.concat (cut.fits []) fits⟩
    rw [Piece.tokens_concat, cut.tokens]
  cases inside with
  | gap =>
    refine ⟨pieces, ?_, cut.tokens, cut.fits []⟩
    rw [← cut.whole, List.append_nil]
  | @comment body inside =>
    obtain ⟨whole, found, all⟩ := last ⟨';' :: body, none⟩ rfl (.comment inside (by simp))
    exact ⟨_, whole, by simpa [Scanner.finish] using found, all⟩
  | symbol nonempty chars apart =>
    refine ⟨_, ?_, ?_, cut.allFit_word nonempty chars apart (by simp)⟩
    · rw [Piece.texts_concat, cut.whole]
    · rw [Piece.tokens_concat, cut.tokens]
      simp [Scanner.finish]
  | @string body text denotes =>
    obtain ⟨whole, found, all⟩ := last
      ⟨'"' :: body, some ⟨.illegal, String.ofList text.reverse, .after file (texts pieces)⟩⟩ rfl
      (by simpa using Piece.Fits.openString denotes (.inl rfl))
    exact ⟨_, whole, by simpa [Scanner.finish] using found, all⟩
  | @escape body text denotes =>
    obtain ⟨whole, found, all⟩ := last
      ⟨'"' :: (body ++ ['\\']),
        some ⟨.illegal, String.ofList text.reverse, .after file (texts pieces)⟩⟩ rfl
      (.openString denotes (.inr rfl))
    exact ⟨_, whole, by simpa [Scanner.finish] using found, all⟩

theorem cut_start : Cut file [] [] [] (start file) :=
  ⟨rfl, rfl, rfl, fun rest before piece after split => by simp at split, .gap (by simp [texts])⟩

end Scanner

/-- Every sequence of characters is scanned to its end, and falls into pieces that all fit where
they stand. The tokens are those of the pieces, and one more that marks the end, just after the
last character. -/
theorem TokenStream.falls_into_pieces (file : String) (source : List Char) :
    Cursor.scan source file = some (ofChars file source) ∧
    (∀ token ∈ (ofChars file source).tokens, token.kind ≠ .eof) ∧
    ∃ pieces : List Piece, Piece.texts pieces = source ∧
      (ofChars file source).toList = Piece.tokens pieces ++ [⟨.eof, "", .after file source⟩] ∧
      ∀ before piece after, pieces = before ++ piece :: after →
        piece.Fits file (Piece.texts before) (Piece.texts after) := by
  refine ⟨Cursor.scan_eq, fun token member => ?_, ?_⟩
  · have scanned := TokenStream.scanned file (String.ofList source) token
    rw [ofSource, String.toList_ofList] at scanned
    exact (scanned member).kind_ne_eof
  · obtain ⟨_, _, cut⟩ := @Scanner.Cut.foldl file [] source _ _ _ Scanner.cut_start
    obtain ⟨pieces, whole, found, all⟩ := cut.finish
    refine ⟨pieces, whole, ?_, fun before piece after split => ?_⟩
    · rw [toList, ofChars, found, cut.pos]
      rfl
    · simpa using all before piece after split

end TypedForms
