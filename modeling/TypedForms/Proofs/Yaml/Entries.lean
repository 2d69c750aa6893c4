import TypedForms.Proofs.Yaml.Plain

/-! Scanning the entries of block mappings. A key takes two steps of the scanner, because only its
colon shows that it is one, and a value on the same line takes one more; between two entries nothing
waits to be given out. -/
namespace TypedForms.Yaml

/-! Places in a text. -/

namespace Spot

variable {spot : Spot} {line column count : Nat} {text more : List Char}

/-- The place of a spot, and what follows it. -/
structure At (spot : Spot) (line column : Nat) (rest : List Char) : Prop where
  lineEq : spot.line = line
  columnEq : spot.column = column
  restEq : spot.rest = rest

theorem index_skip_le : (spot.skip count).index ≤ spot.index + count := by
  induction count generalizing spot with
  | zero => exact Nat.le_refl _
  | succ count ih =>
    have advanced : spot.advance.index ≤ spot.index + 1 := by
      unfold advance
      split
      · omega
      · split <;> exact Nat.le_refl _
    have skipped := @ih spot.advance
    rw [skip]
    omega

theorem skip_add {more : Nat} : spot.skip (count + more) = (spot.skip count).skip more := by
  induction count generalizing spot with
  | zero => rw [Nat.zero_add, skip]
  | succ count ih => rw [Nat.add_right_comm, skip, ih, skip]

namespace At

theorem skip_text (here : spot.At line column (text ++ more))
    (unbroken : ∀ c ∈ text, isBreak c = false) :
    (spot.skip text.length).At line (column + text.length) more := by
  induction text generalizing spot column with
  | nil => exact here
  | cons c text ih =>
    obtain ⟨first, rest⟩ := List.forall_mem_cons.mp unbroken
    have advanced : spot.advance.At line (column + 1) (text ++ more) := by
      rw [advance, here.restEq]
      dsimp only [List.cons_append]
      rw [if_neg (by simp [first])]
      exact ⟨here.lineEq, by rw [here.columnEq], rfl⟩
    have skipped := ih advanced rest
    rw [Nat.add_assoc, Nat.add_comm 1] at skipped
    exact skipped

theorem skip_lineEnd (here : spot.At line column ('\n' :: more)) :
    (spot.skip 1).At (line + 1) 0 more := by
  have advanced : spot.skip 1 = ⟨⟨spot.index + 1, spot.line + 1, 0⟩, more, true⟩ := by
    rw [skip, advance, here.restEq]
    rfl
  rw [advanced]
  exact ⟨by rw [here.lineEq], rfl, rfl⟩

theorem skip_blanks {width : Nat} (here : spot.At line column (List.replicate width ' ' ++ more)) :
    (spot.skip width).At line (column + width) more := by
  have skipped := here.skip_text fun c member => by
    rw [List.eq_of_mem_replicate member]
    rfl
  rwa [List.length_replicate] at skipped

theorem skip_nextLine {width : Nat}
    (here : spot.At line column ('\n' :: (List.replicate width ' ' ++ more))) :
    (spot.skip (1 + width)).At (line + 1) width more := by
  rw [skip_add]
  simpa using here.skip_lineEnd.skip_blanks

end At

end Spot

namespace Scanner

open Spot (At)

variable {s : Scanner} {line column count width : Nat} {word text more : List Char} {c : Char}
  {allowed : Bool}

/-! Gaps between tokens. -/

theorem gap_blanks :
    gap false false .space false allowed (List.replicate width ' ' ++ more) count =
      gap false false .space false allowed more (count + width) := by
  induction width generalizing count with
  | zero => rfl
  | succ width ih =>
    rw [List.replicate_succ, List.cons_append, Nat.add_comm width, ← Nat.add_assoc, ← ih, gap]
    rfl

theorem gap_lineEnd :
    gap false false .space false allowed ('\n' :: more) count =
      gap false false .space false true more (count + 1) := by
  rw [gap]
  simp [isBreak]

/-- What a gap ends with: a word, the colon after one, or the end of the text. -/
def EndsGap (more : List Char) : Prop := ∀ c ∈ more.head?, isStart c = true ∨ c = ':'

theorem endsGap_of_nextLine (next : NextLine more) : EndsGap more :=
  fun c member => .inl (next c member)

theorem endsGap_colon (more : List Char) : EndsGap (':' :: more) := by
  intro c member
  exact .inr (Option.some.inj member).symm

theorem EndsGap.ne {d : Char} (ends : EndsGap (c :: more)) (other : isStart d = false)
    (noColon : d ≠ ':') : c ≠ d := by
  rcases ends c rfl with start | rfl
  · exact ne_of_isStart start other
  · exact noColon.symm

theorem EndsGap.visible (ends : EndsGap (c :: more)) :
    c ≠ ' ' ∧ c ≠ '\t' ∧ c ≠ '#' ∧ isBreak c = false := by
  refine ⟨ends.ne rfl (by decide), ends.ne rfl (by decide), ends.ne rfl (by decide), ?_⟩
  rcases ends c rfl with start | rfl
  · exact isBreak_of_isInner (isInner_of_isStart start)
  · rfl

theorem gap_of_endsGap (ends : EndsGap more) :
    gap false false .space false allowed more count = (count, allowed) := by
  cases more with
  | nil => rfl
  | cons c more =>
    obtain ⟨space, tab, number, unbroken⟩ := ends.visible
    rw [gap]
    simp [space, tab, number, unbroken]

/-- No comment follows after some spaces. -/
def NoComment (rest : List Char) : Prop :=
  ∃ width more, rest = List.replicate width ' ' ++ more ∧
    ∀ c ∈ more.head?, isBlank c = false ∧ c ≠ '#'

theorem EndsGap.noComment (ends : EndsGap more) : NoComment more := by
  refine ⟨0, more, rfl, fun c member => ?_⟩
  obtain ⟨rest, rfl⟩ := List.head?_eq_some_iff.mp member
  obtain ⟨space, tab, number, _⟩ := ends.visible
  exact ⟨by simp [isBlank, space, tab], number⟩

theorem EndsGap.noComment_space (ends : EndsGap more) : NoComment (' ' :: more) := by
  obtain ⟨width, after, rfl, stops⟩ := ends.noComment
  exact ⟨width + 1, after, rfl, stops⟩

theorem skipComment_eq (bare : NoComment s.spot.rest) : s.skipComment = s := by
  obtain ⟨width, more, rest, stops⟩ := bare
  have blanks : s.spot.rest.takeWhile isBlank = List.replicate width ' ' := by
    have allBlank : ∀ c ∈ List.replicate width ' ', isBlank c = true := by
      intro c member
      rw [List.eq_of_mem_replicate member]
      rfl
    rw [rest, List.takeWhile_append_of_pos allBlank]
    cases more with
    | nil => simp
    | cons c more => simp [(stops c rfl).1]
  have tail : ((s.spot.rest.drop width).head? == some '#') = false := by
    rw [rest, List.drop_left' List.length_replicate]
    cases more with
    | nil => rfl
    | cons c more => simpa using (stops c rfl).2
  unfold skipComment
  dsimp only
  rw [blanks, List.length_replicate, tail, Bool.and_false]
  rfl

/-! Scanners outside of brackets. -/

/-- The place is outside of brackets, in a text that can be read to its end. -/
structure Outside (s : Scanner) : Prop where
  whole : s.isWhole = true
  unmarked : s.marksLines = false
  inFlow : s.inFlow = false

/-- Besides, no key waits for its colon. -/
structure Quiet (s : Scanner) : Prop extends Outside s where
  counted : s.count = s.tokens.length
  givenLe : s.given ≤ s.count
  noneAwaited : s.awaited = []
  noKey : ∃ key, s.keys = [key] ∧ key.isPossible = false

theorem Outside.skipGap_eq (outside : s.Outside) :
    s.skipGap = { s.skip (gap false false .space false s.keyAllowed s.spot.rest 0).1 with
      keyAllowed := (gap false false .space false s.keyAllowed s.spot.rest 0).2 } := by
  simp [Scanner.skipGap, outside.inFlow, outside.unmarked]

/-- The scanner after the gap. -/
structure Stage (s : Scanner) (tokens : List Token) (indents : List Nat) (allowed : Bool)
    (line column : Nat) (rest : List Char) : Prop where
  quiet : s.Quiet
  tokensEq : s.tokens = tokens
  indentsEq : s.indents = indents
  allowedEq : s.skipGap.keyAllowed = allowed
  here : s.skipGap.spot.At line column rest

/-- The scanner in front of a gap. -/
structure Pause (s : Scanner) (tokens : List Token) (indents : List Nat) (allowed : Bool)
    (line column : Nat) (rest : List Char) : Prop where
  quiet : s.Quiet
  tokensEq : s.tokens = tokens
  indentsEq : s.indents = indents
  allowedEq : s.keyAllowed = allowed
  here : s.spot.At line column rest

namespace Pause

variable {tokens : List Token} {indents : List Nat}

theorem stage_of_gap {allowed' : Bool} {line' column' : Nat} {rest : List Char}
    (pause : s.Pause tokens indents allowed line column rest)
    (taken : gap false false .space false allowed rest 0 = (count, allowed'))
    (here : (s.spot.skip count).At line' column' more) :
    s.Stage tokens indents allowed' line' column' more := by
  have after : s.skipGap = { s.skip count with keyAllowed := allowed' } := by
    rw [pause.quiet.toOutside.skipGap_eq, pause.allowedEq, pause.here.restEq, taken]
  exact ⟨pause.quiet, pause.tokensEq, pause.indentsEq, by rw [after], by rw [after]; exact here⟩

theorem stage (pause : s.Pause tokens indents allowed line column more) (ends : EndsGap more) :
    s.Stage tokens indents allowed line column more :=
  pause.stage_of_gap (gap_of_endsGap ends) pause.here

theorem stage_blanks (pause : s.Pause tokens indents allowed line column
    (List.replicate width ' ' ++ more)) (ends : EndsGap more) :
    s.Stage tokens indents allowed line (column + width) more := by
  refine pause.stage_of_gap ?_ pause.here.skip_blanks
  rw [gap_blanks, gap_of_endsGap ends, Nat.zero_add]

theorem stage_nextLine (pause : s.Pause tokens indents allowed line column
    ('\n' :: (List.replicate width ' ' ++ more))) (ends : EndsGap more) :
    s.Stage tokens indents true (line + 1) width more := by
  refine pause.stage_of_gap ?_ pause.here.skip_nextLine
  rw [gap_lineEnd, gap_blanks, gap_of_endsGap ends, Nat.zero_add]

end Pause

/-! One step of the scanner. -/

namespace Outside

theorem skipGap (outside : s.Outside) : s.skipGap.Outside := by
  rw [outside.skipGap_eq]
  exact ⟨outside.whole, outside.unmarked, outside.inFlow⟩

/-- The blocks around the place stand no further in than it. -/
theorem leaveColumn_eq (outside : s.Outside)
    (outer : ∀ indent ∈ s.indents.head?, indent ≤ column) : s.leaveColumn column line = s := by
  have noneLeft : s.indents.takeWhile (column < ·) = [] := by
    cases indents : s.indents with
    | nil => rfl
    | cons indent rest =>
      have furtherOut : indent ≤ column := outer indent (by rw [indents]; rfl)
      rw [List.takeWhile_cons_of_neg (by simpa using furtherOut)]
  rw [leaveColumn, outside.inFlow, noneLeft]
  rfl

/-- The step at a word or at the colon after one. -/
theorem step_eq (outside : s.Outside) {next : Scanner}
    (rest : s.skipGap.spot.rest = c :: more) (ends : EndsGap (c :: more))
    (outer : ∀ indent ∈ s.skipGap.indents.head?, indent ≤ s.skipGap.spot.column)
    (taken : s.skipGap.takeToken c more = .ok next) (bare : next.skipComment = next)
    (whole : next.isWhole = true) : s.step = .ok next := by
  have after := outside.skipGap
  have percent : c ≠ '%' := ends.ne rfl (by decide)
  have dash : c ≠ '-' := ends.ne rfl (by decide)
  have dot : c ≠ '.' := ends.ne rfl (by decide)
  have marker : s.skipGap.spot.atMarker = false := by
    have noMarker : isMarker (c :: more) = false := by
      unfold isMarker
      split
      next same => exact absurd (List.cons.inj same).1 dash
      next same => exact absurd (List.cons.inj same).1 dot
      next => rfl
    rw [Spot.atMarker, rest, noMarker, Bool.and_false]
  unfold step
  dsimp only
  rw [after.leaveColumn_eq outer]
  generalize s.skipGap = gone at *
  obtain ⟨spot, isWhole, marksLines, tokens, count, given, awaited, indents, keys, allowed⟩ := gone
  obtain rfl : isWhole = true := after.whole
  obtain rfl : marksLines = false := after.unmarked
  dsimp only at rest marker ⊢
  rw [rest]
  simp [percent, marker, dash, taken, bare, whole, Except.map, bind, Except.bind]

end Outside

theorem takeToken_of_isStart (start : isStart c = true) : s.takeToken c more = s.takePlain := by
  have other : ∀ d, isStart d = false → (c == d) = false := fun d ends =>
    beq_eq_false_iff_ne.mpr (ne_of_isStart start ends)
  have blank := isBlank_of_isStart start
  have unbroken := isBreak_of_isInner (isInner_of_isStart start)
  have plain : startsPlain s.inFlow c more = true := by
    have indicator : isIndicator c = false := by
      simp only [isIndicator, List.contains_cons, List.contains_nil, other ',' rfl, other '[' rfl,
        other ']' rfl, other '\x7b' rfl, other '\x7d' rfl, other '#' rfl, other '&' rfl,
        other '*' rfl, other '!' rfl, other '|' rfl, other '>' rfl, other '\'' rfl, other '"' rfl,
        other '%' rfl, other '@' rfl, other '\x60' rfl, Bool.or_false]
    simp [startsPlain, other '-' rfl, other '?' rfl, other ':' rfl, indicator, endsWord, blank,
      unbroken]
  simp [takeToken, other '[' rfl, other '\x7b' rfl, other ']' rfl, other '\x7d' rfl, other ',' rfl,
    other '?' rfl, other ':' rfl, other '*' rfl, other '&' rfl, other '!' rfl, other '|' rfl,
    other '>' rfl, other '\'' rfl, other '"' rfl, plain]

theorem takeToken_colon (ends : endsWord more = true) : s.takeToken ':' more = s.takeValue := by
  simp [takeToken, ends]

theorem takePlain_eq {saved : Scanner} {plain : PlainText} (save : s.saveKey = .ok saved)
    (inFlow : saved.inFlow = false) (spot : saved.spot = s.spot)
    (indents : saved.indents = s.indents)
    (read : plainText false (s.indents.head?.elim 0 (· + 1)) s.spot.rest s.spot.column .none [] 0 =
      .ok plain) :
    s.takePlain = .ok { saved.take (.scalar true (String.ofList plain.text)) plain.count with
      keyAllowed := plain.isBroken } := by
  simp [takePlain, save, inFlow, spot, indents, read, lift, bind, Except.bind]

namespace Quiet

theorem skipGap (quiet : s.Quiet) : s.skipGap.Quiet := by
  refine ⟨quiet.toOutside.skipGap, ?_, ?_, ?_, ?_⟩
  · exact quiet.counted
  · exact quiet.givenLe
  · exact quiet.noneAwaited
  · exact quiet.noKey

theorem saveKey_eq (quiet : s.Quiet) (allowed : s.keyAllowed = true) :
    s.saveKey = .ok { s with
      keys := [⟨s.spot.toMark, s.count, true, s.indents.head? == some s.spot.column⟩]
      awaited := [s.count] } := by
  obtain ⟨key, keys, impossible⟩ := quiet.noKey
  have dropped : s.dropKey = .ok s := by simp [dropKey, keys, impossible]
  simp [saveKey, allowed, quiet.inFlow, dropped, keys, quiet.noneAwaited, bind, Except.bind]

end Quiet

/-- The scanner after the word of a key, which waits for its colon. -/
def keyed (s : Scanner) (given : Nat) (word : List Char) : Scanner :=
  { s with
    spot := s.skipGap.spot.skip word.length
    tokens := ⟨.scalar true (String.ofList word), s.skipGap.spot.line⟩ :: s.tokens
    count := s.count + 1
    given := given
    awaited := [s.count]
    keys := [⟨s.skipGap.spot.toMark, s.count, true,
      s.indents.head? == some s.skipGap.spot.column⟩]
    keyAllowed := false }

variable {tokens : List Token} {indents : List Nat}

/-- A text that starts at or after the column of the block is inside of it. -/
theorem elim_succ_le (outer : ∀ indent ∈ indents.head?, indent ≤ column) :
    indents.head?.elim 0 (· + 1) ≤ column + 1 := by
  cases indents with
  | nil => exact Nat.zero_le _
  | cons indent rest => exact Nat.succ_le_succ (outer indent rfl)

theorem Stage.step_key (stage : s.Stage tokens indents true line column (word ++ ':' :: more))
    (plain : IsPlain word) (ends : endsWord more = true)
    (outer : ∀ indent ∈ indents.head?, indent ≤ column) : s.step = .ok (s.keyed s.given word) := by
  have quiet := stage.quiet.skipGap
  have indentsEq : s.skipGap.indents = indents := stage.indentsEq
  have read : plainText false (s.skipGap.indents.head?.elim 0 (· + 1)) s.skipGap.spot.rest
      s.skipGap.spot.column .none [] 0 = .ok ⟨word, word.length, false⟩ := by
    rw [indentsEq, stage.here.restEq, stage.here.columnEq,
      plainText_of_isPlain plain (elim_succ_le outer), plainText_colon ends, List.reverse_reverse]
  have taken := takePlain_eq (quiet.saveKey_eq stage.allowedEq) rfl rfl rfl read
  have after := stage.here.skip_text fun c member => isBreak_of_isInner (plain.inner c member)
  obtain ⟨c, member, start⟩ := plain.starts
  obtain ⟨tail, rfl⟩ : ∃ tail, word = c :: tail := List.head?_eq_some_iff.mp member
  refine stage.quiet.toOutside.step_eq stage.here.restEq ?_ ?_ ?_ ?_ ?_
  · exact endsGap_of_nextLine plain.nextLine
  · rw [indentsEq, stage.here.columnEq]
    exact outer
  · rw [takeToken_of_isStart start, taken]
    rfl
  · refine skipComment_eq ?_
    rw [show (s.keyed s.given (c :: tail)).spot.rest = ':' :: more from after.restEq]
    exact (endsGap_colon more).noComment
  · exact stage.quiet.whole

theorem Outside.skipGap_eq_self (outside : s.Outside) (ends : EndsGap s.spot.rest) :
    s.skipGap = s := by
  rw [outside.skipGap_eq, gap_of_endsGap ends]
  rfl

/-- Whether the column starts a block inside of the blocks at some columns. -/
def isFurtherIn (column : Nat) (indents : List Nat) : Bool := !indents.head?.any (column ≤ ·)

/-- A key on the line of the spot can still get its colon. -/
theorem accepts_eq {key : Key} (possible : key.isPossible = true)
    (sameLine : s.spot.line ≤ key.mark.line) (near : s.spot.index ≤ key.mark.index + keyLimit) :
    s.accepts key = .ok true := by
  have early : ¬ key.mark.line < s.spot.line := by omega
  have far : ¬ key.mark.index + keyLimit < s.spot.index := by omega
  simp [accepts, possible, early, far]

theorem addBefore_eq {number : Nat} {kind : Token.Kind} {before after : List Token}
    (waits : s.given ≤ number) (counted : s.count = number + before.length)
    (tokens : s.tokens = before ++ after) :
    s.addBefore number kind line =
      { s with tokens := before ++ ⟨kind, line⟩ :: after, count := s.count + 1 } := by
  have later : s.count - number = before.length := by omega
  have waiting : ¬ number < s.given := by omega
  rw [addBefore, if_neg waiting]
  simp [later, tokens]

theorem openBlock_eq {number : Nat} {kind : Token.Kind} {before after : List Token}
    (outside : s.inFlow = false) (depth : s.indents.length < depthLimit) (waits : s.given ≤ number)
    (counted : s.count = number + before.length) (tokens : s.tokens = before ++ after) :
    s.openBlock column kind line (some number) =
      .ok (if isFurtherIn column s.indents then
        { s with
          tokens := before ++ ⟨kind, line⟩ :: after
          count := s.count + 1
          indents := column :: s.indents }
      else s) := by
  have shallow : ¬ s.indents.length + 1 > depthLimit := by omega
  unfold openBlock isFurtherIn
  rw [outside, Bool.false_or, if_neg shallow]
  cases s.indents.head?.any (column ≤ ·) with
  | true => rfl
  | false => simp [addBefore_eq waits counted tokens]

/-- The blocks around the value of a key at a column. -/
def enter (column : Nat) (indents : List Nat) : List Nat :=
  (if isFurtherIn column indents then [column] else []) ++ indents

theorem head?_enter (outer : ∀ indent ∈ indents.head?, indent ≤ column) :
    (enter column indents).head? = some column := by
  cases indents with
  | nil => rfl
  | cons indent rest =>
    have furtherOut : indent ≤ column := outer indent rfl
    by_cases same : column ≤ indent
    · obtain rfl : indent = column := Nat.le_antisymm furtherOut same
      simp [enter, isFurtherIn]
    · simp [enter, isFurtherIn, same]

/-- The tokens in front of a key at a column. -/
def startTokens (line column : Nat) (indents : List Nat) : List Token :=
  ⟨.key, line⟩ :: if isFurtherIn column indents then [⟨.blockMappingStart, line⟩] else []

/-- The colon of a key puts tokens in front of the last one. -/
theorem exists_takeValue {key : Key} {last : Token} {before : List Token} (outside : s.Outside)
    (waiting : s.keys = [key]) (accepted : s.accepts key = .ok true)
    (depth : s.indents.length < depthLimit) (waits : s.given ≤ key.token)
    (counted : s.count = key.token + 1) (tokens : s.tokens = last :: before)
    (length : before.length = key.token) (awaited : s.awaited = [key.token]) :
    ∃ next, s.takeValue = .ok next ∧ next.Quiet ∧ next.spot = s.spot.skip 1 ∧
      next.tokens = ⟨.value, s.spot.line⟩ :: last ::
        (startTokens key.mark.line key.mark.column s.indents ++ before) ∧
      next.indents = enter key.mark.column s.indents ∧ next.keyAllowed = false := by
  have keyAdded : s.addBefore key.token .key key.mark.line =
      { s with tokens := [last] ++ ⟨.key, key.mark.line⟩ :: before, count := s.count + 1 } :=
    addBefore_eq waits counted tokens
  set added : Scanner :=
    { s with tokens := [last] ++ ⟨.key, key.mark.line⟩ :: before, count := s.count + 1 }
    with addedEq
  have opened := @openBlock_eq added key.mark.line key.mark.column key.token .blockMappingStart
    [last, ⟨.key, key.mark.line⟩] before (by simp [Scanner.inFlow, addedEq, waiting]) depth waits
    (by simp [addedEq, counted]) rfl
  rw [takeValue, waiting]
  dsimp only
  rw [accepted]
  change ∃ next,
    (Scanner.openBlock (s.addBefore key.token .key key.mark.line) _ _ _ _ >>= _) = _ ∧ _
  rw [keyAdded, opened]
  refine ⟨_, rfl, ?_⟩
  have indents : added.indents = s.indents := rfl
  rw [indents, enter, startTokens]
  cases isFurtherIn key.mark.column s.indents with
  | true | false =>
    refine ⟨⟨⟨outside.whole, outside.unmarked, rfl⟩, ?_, ?_, ?_, ⟨_, rfl, rfl⟩⟩, rfl, rfl, rfl, rfl⟩
    · simp [take, add, Scanner.skip, addedEq, counted, length]
    · simp [take, add, Scanner.skip, addedEq]
      omega
    · simp [take, add, Scanner.skip, addedEq, awaited]

namespace Stage

variable {given : Nat}

theorem outside_keyed (stage : s.Stage tokens indents true line column (word ++ ':' :: more)) :
    (s.keyed given word).Outside :=
  ⟨stage.quiet.whole, stage.quiet.unmarked, rfl⟩

theorem here_keyed (stage : s.Stage tokens indents true line column (word ++ ':' :: more))
    (plain : IsPlain word) :
    (s.keyed given word).spot.At line (column + word.length) (':' :: more) :=
  stage.here.skip_text fun c member => isBreak_of_isInner (plain.inner c member)

theorem accepts_keyed (stage : s.Stage tokens indents true line column (word ++ ':' :: more))
    (plain : IsPlain word) (short : word.length ≤ keyLimit) :
    (s.keyed given word).accepts ⟨s.skipGap.spot.toMark, s.count, true,
      s.indents.head? == some s.skipGap.spot.column⟩ = .ok true := by
  have skipped := @Spot.index_skip_le s.skipGap.spot word.length
  have after := @here_keyed _ _ _ _ _ _ _ given stage plain
  apply accepts_eq rfl
  · exact Nat.le_of_eq (after.lineEq.trans stage.here.lineEq.symm)
  · exact Nat.le_trans skipped (Nat.add_le_add_left short _)

theorem exists_step_colon (stage : s.Stage tokens indents true line column (word ++ ':' :: more))
    (plain : IsPlain word) (short : word.length ≤ keyLimit) (ends : endsWord more = true)
    (bare : NoComment more) (outer : ∀ indent ∈ indents.head?, indent ≤ column)
    (depth : indents.length < depthLimit) (waits : given ≤ s.count) :
    ∃ next, (s.keyed given word).step = .ok next ∧
      next.Pause (⟨.value, line⟩ :: ⟨.scalar true (String.ofList word), line⟩ ::
          (startTokens line column indents ++ tokens))
        (enter column indents) false line (column + word.length + 1) more := by
  have outside := @outside_keyed _ _ _ _ _ _ _ given stage
  have here := @here_keyed _ _ _ _ _ _ _ given stage plain
  have unmoved : (s.keyed given word).skipGap = s.keyed given word :=
    outside.skipGap_eq_self (here.restEq ▸ endsGap_colon more)
  have rest : (s.keyed given word).skipGap.spot.rest = ':' :: more := by
    rw [unmoved]
    exact here.restEq
  have after : ((s.keyed given word).spot.skip 1).At line (column + word.length + 1) more :=
    @At.skip_text _ _ _ [':'] more here (by simp [isBreak])
  obtain ⟨next, taken, quiet, spot, found, indentsEq, allowed⟩ :=
    exists_takeValue outside rfl (@accepts_keyed _ _ _ _ _ _ _ given stage plain short)
      (stage.indentsEq ▸ depth) waits rfl rfl stage.quiet.counted.symm rfl
  refine ⟨next, outside.step_eq rest (endsGap_colon more) ?_ ?_ ?_ quiet.whole, quiet, ?_, ?_,
    allowed, ?_⟩
  · rw [unmoved, here.columnEq]
    intro indent member
    have := outer indent (stage.indentsEq ▸ member)
    omega
  · rw [unmoved, takeToken_colon ends]
    exact taken
  · refine skipComment_eq ?_
    rwa [spot, after.restEq]
  · rw [found, here.lineEq, stage.here.lineEq, stage.here.columnEq, stage.tokensEq]
    rw [show (s.keyed given word).indents = indents from stage.indentsEq]
  · rw [indentsEq, stage.here.columnEq]
    rw [show (s.keyed given word).indents = indents from stage.indentsEq]
  · rw [spot]
    exact after

/-- A value on the line of its key is taken with the line end and the blanks after it. -/
theorem exists_step_value (stage : s.Stage tokens indents false line column
      (text ++ '\n' :: (List.replicate width ' ' ++ more)))
    (plain : IsPlain text) (nextLine : NextLine more)
    (outer : ∀ indent ∈ indents.head?, indent ≤ column)
    (inside : ∃ indent ∈ indents.head?, width ≤ indent) :
    ∃ next, s.step = .ok next ∧
      next.Pause (⟨.scalar true (String.ofList text), line⟩ :: tokens) indents true (line + 1) width
        more := by
  have quiet := stage.quiet.skipGap
  have indentsEq : s.skipGap.indents = indents := stage.indentsEq
  have furtherOut : width < indents.head?.elim 0 (· + 1) := by
    obtain ⟨indent, head, wide⟩ := inside
    rw [Option.mem_def.mp head]
    exact Nat.lt_succ_of_le wide
  have read : plainText false (s.skipGap.indents.head?.elim 0 (· + 1)) s.skipGap.spot.rest
      s.skipGap.spot.column .none [] 0 = .ok ⟨text, text.length + 1 + width, true⟩ := by
    rw [indentsEq, stage.here.restEq, stage.here.columnEq,
      plainText_of_isPlain plain (elim_succ_le outer), plainText_lineEnd nextLine furtherOut,
      List.reverse_reverse]
  have save : s.skipGap.saveKey = .ok s.skipGap := by
    rw [saveKey, stage.allowedEq]
    rfl
  have taken := takePlain_eq save quiet.inFlow rfl rfl read
  have after : (s.skipGap.spot.skip (text.length + 1 + width)).At (line + 1) width more := by
    have unbroken : ∀ c ∈ text, isBreak c = false :=
      fun c member => isBreak_of_isInner (plain.inner c member)
    rw [Nat.add_assoc, Spot.skip_add]
    exact (stage.here.skip_text unbroken).skip_nextLine
  obtain ⟨c, member, start⟩ := plain.starts
  obtain ⟨tail, rfl⟩ : ∃ tail, text = c :: tail := List.head?_eq_some_iff.mp member
  refine ⟨_, stage.quiet.toOutside.step_eq stage.here.restEq ?_ ?_
    ((takeToken_of_isStart start).trans taken) ?_ stage.quiet.whole, ?_, ?_, ?_, rfl, after⟩
  · exact endsGap_of_nextLine plain.nextLine
  · rw [indentsEq, stage.here.columnEq]
    exact outer
  · refine skipComment_eq ?_
    change NoComment (s.skipGap.spot.skip ((c :: tail).length + 1 + width)).rest
    rw [after.restEq]
    exact (endsGap_of_nextLine nextLine).noComment
  · refine ⟨⟨stage.quiet.whole, stage.quiet.unmarked, stage.quiet.inFlow⟩, ?_, ?_,
      stage.quiet.noneAwaited, stage.quiet.noKey⟩
    · exact congrArg (· + 1) stage.quiet.counted
    · exact Nat.le_succ_of_le stage.quiet.givenLe
  · change ⟨_, s.skipGap.spot.line⟩ :: s.tokens = _
    rw [stage.here.lineEq, stage.tokensEq]
  · exact stage.indentsEq

end Stage

theorem closeBlocks_eq : closeBlocks count line s =
    { s with
      tokens := List.replicate count ⟨.blockEnd, line⟩ ++ s.tokens
      count := s.count + count
      indents := s.indents.drop count } := by
  induction count generalizing s with
  | zero => rfl
  | succ count ih =>
    rw [closeBlocks, ih]
    simp only [add, List.replicate_succ', List.append_assoc, List.singleton_append, List.drop_tail]
    simp [Nat.add_assoc, Nat.add_comm 1]

/-- At the end of the text all blocks are ended. -/
theorem Quiet.exists_takeEnd (quiet : s.Quiet) (fresh : s.spot.column = 0) :
    ∃ next, s.takeEnd = .ok next ∧
      next.tokens = ⟨.streamEnd, s.spot.line⟩ ::
        (List.replicate s.indents.length ⟨.blockEnd, s.spot.line⟩ ++ s.tokens) := by
  obtain ⟨key, keys, impossible⟩ := quiet.noKey
  simp only [takeEnd, leaveAll, fresh, if_true, Scanner.inFlow, keys, List.drop_one, List.tail_cons,
    List.isEmpty_nil, Bool.not_true, Bool.false_eq_true, if_false, closeBlocks_eq, dropKey,
    impossible, Bool.not_false, bind, Except.bind]
  exact ⟨_, rfl, rfl⟩

theorem Pause.exists_step_end (pause : s.Pause tokens indents allowed line 0 []) :
    ∃ next, s.step = .ok next ∧
      next.tokens = ⟨.streamEnd, line⟩ :: (List.replicate indents.length ⟨.blockEnd, line⟩ ++
        tokens) := by
  obtain ⟨quiet, rfl, rfl, -, here⟩ := pause
  have unmoved : s.skipGap = s := quiet.toOutside.skipGap_eq_self (by simp [here.restEq, EndsGap])
  have left := (List.takeWhile_prefix (l := s.indents) (0 < ·)).length_le
  -- the blocks further in are ended by the column, and the others by the end of the text
  have closed : s.leaveColumn 0 line =
      closeBlocks (s.indents.takeWhile (0 < ·)).length line s := by
    rw [leaveColumn, quiet.inFlow]
    rfl
  rw [closeBlocks_eq] at closed
  set k := (s.indents.takeWhile (0 < ·)).length
  have ended : Quiet { s.leaveColumn 0 line with
      marksLines := (s.leaveColumn 0 line).marksLines && false } := by
    rw [closed]
    refine ⟨⟨quiet.whole, Bool.and_false _, quiet.inFlow⟩, ?_, ?_, quiet.noneAwaited, quiet.noKey⟩
    · simp [quiet.counted, Nat.add_comm]
    · exact Nat.le_add_right_of_le quiet.givenLe
  obtain ⟨next, taken, found⟩ := ended.exists_takeEnd (by rw [closed]; exact here.columnEq)
  refine ⟨next, ?_, ?_⟩
  · unfold step
    dsimp only
    rw [unmoved, here.lineEq, here.columnEq]
    rw [closed] at taken ⊢
    simp only [here.restEq, quiet.whole, List.drop_nil, List.isEmpty_nil, Bool.not_true,
      Bool.and_false, Bool.false_eq_true, if_false] at taken ⊢
    exact taken
  · rw [found, closed]
    simp only [here.lineEq, List.length_drop, ← List.append_assoc, List.replicate_append_replicate,
      Nat.sub_add_cancel left]

/-! Tokens are given out between two steps. -/

theorem giveOut_succ_of_free {fuel : Nat} (more : s.given + 3 ≤ s.count)
    (free : s.awaited.contains s.given = false) :
    s.giveOut (fuel + 1) = giveOut fuel { s with given := s.given + 1 } := by
  have enough : ¬ s.given + 3 > s.count := by omega
  rw [giveOut, if_neg enough]
  simp only [free, Bool.false_eq_true, if_false]

theorem Quiet.giveOut {given : Nat} (quiet : s.Quiet) (givenLe : given ≤ s.count) :
    Quiet { s with given := given } :=
  ⟨⟨quiet.whole, quiet.unmarked, quiet.inFlow⟩, quiet.counted, givenLe, quiet.noneAwaited,
    quiet.noKey⟩

/-- If no key waits, at most all tokens are given out. -/
theorem Quiet.exists_giveOut (quiet : s.Quiet) (fuel : Nat) :
    ∃ given ≤ s.count, s.giveOut fuel = ({ s with given := given }, none) := by
  induction fuel generalizing s with
  | zero => exact ⟨s.given, quiet.givenLe, rfl⟩
  | succ fuel ih =>
    by_cases few : s.given + 3 > s.count
    · rw [Scanner.giveOut, if_pos few]
      exact ⟨s.given, quiet.givenLe, rfl⟩
    · have free : s.awaited.contains s.given = false := by rw [quiet.noneAwaited]; rfl
      have givenLe : s.given + 1 ≤ s.count := by omega
      rw [giveOut_succ_of_free (by omega) free]
      exact ih (quiet.giveOut givenLe)

/-- No token is given out beyond a key that waits for its colon. -/
theorem exists_giveOut_waiting {key : Key} (waiting : s.keys = [key])
    (possible : key.isPossible = true) (accepted : s.accepts key = .ok true)
    (awaited : s.awaited = [key.token]) (waits : s.given ≤ key.token) (fuel : Nat) :
    ∃ given ≤ key.token, s.giveOut fuel = ({ s with given := given }, none) := by
  induction fuel generalizing s with
  | zero => exact ⟨s.given, waits, rfl⟩
  | succ fuel ih =>
    by_cases few : s.given + 3 > s.count
    · rw [giveOut, if_pos few]
      exact ⟨s.given, waits, rfl⟩
    by_cases reached : s.given = key.token
    · have found : (s.keys.find? fun key => key.isPossible && key.token == s.given) = some key := by
        simp [waiting, possible, reached]
      have asked : s.awaited.contains s.given = true := by simp [awaited, reached]
      rw [giveOut, if_neg few]
      dsimp only
      rw [found, asked, if_pos rfl, Option.elim_some, accepted]
      exact ⟨s.given, waits, rfl⟩
    · have free : s.awaited.contains s.given = false := by simpa [awaited] using reached
      rw [giveOut_succ_of_free (by omega) free]
      exact @ih { s with given := s.given + 1 } waiting accepted awaited (by dsimp only; omega)

/-- A step that is not the last one, after some tokens have been given out. -/
theorem scan_succ {later next : Scanner} {fuel : Nat}
    (givenOut : s.giveOut s.count = (later, none)) (stepped : later.step = .ok next)
    (goesOn : (next.tokens.head?.map (·.kind)) ≠ some .streamEnd) :
    Tokens.scan (fuel + 1) s = Tokens.scan fuel next := by
  rw [Tokens.scan, givenOut]
  dsimp only
  rw [stepped]
  exact if_neg goesOn

/-- Giving out tokens does not change where the scanner is. -/
theorem Stage.giveOut {given : Nat} {rest : List Char}
    (stage : s.Stage tokens indents allowed line column rest) (givenLe : given ≤ s.count) :
    Stage { s with given := given } tokens indents allowed line column rest :=
  ⟨stage.quiet.giveOut givenLe, stage.tokensEq, stage.indentsEq, stage.allowedEq, stage.here⟩

namespace Stage

variable {fuel : Nat}

theorem exists_giveOut_keyed {given : Nat}
    (stage : s.Stage tokens indents true line column (word ++ ':' :: more)) (plain : IsPlain word)
    (short : word.length ≤ keyLimit) (givenLe : given ≤ s.count) :
    ∃ waits ≤ s.count, (s.keyed given word).giveOut fuel = (s.keyed waits word, none) :=
  exists_giveOut_waiting rfl rfl (stage.accepts_keyed plain short) rfl givenLe fuel

/-- A key and its colon are scanned in two steps. -/
theorem exists_scan_key (stage : s.Stage tokens indents true line column (word ++ ':' :: more))
    (plain : IsPlain word) (short : word.length ≤ keyLimit) (ends : endsWord more = true)
    (bare : NoComment more) (outer : ∀ indent ∈ indents.head?, indent ≤ column)
    (depth : indents.length < depthLimit) :
    ∃ next, Tokens.scan (fuel + 2) s = Tokens.scan fuel next ∧
      next.Pause (⟨.value, line⟩ :: ⟨.scalar true (String.ofList word), line⟩ ::
          (startTokens line column indents ++ tokens))
        (enter column indents) false line (column + word.length + 1) more := by
  obtain ⟨given, givenLe, givenOut⟩ := stage.quiet.exists_giveOut s.count
  have later := stage.giveOut givenLe
  generalize { s with given := given } = after at givenOut later
  have wordTaken := later.step_key plain ends outer
  obtain ⟨waits, waitsLe, waiting⟩ :=
    @exists_giveOut_keyed _ _ _ _ _ _ _ (after.keyed after.given word).count after.given later plain
      short later.quiet.givenLe
  obtain ⟨next, colonTaken, pause⟩ :=
    @exists_step_colon _ _ _ _ _ _ _ waits later plain short ends bare outer depth waitsLe
  refine ⟨next, ?_, pause⟩
  rw [scan_succ givenOut wordTaken (by simp [keyed])]
  rw [scan_succ waiting colonTaken (by simp [pause.tokensEq])]

theorem exists_scan_value (stage : s.Stage tokens indents false line column
      (text ++ '\n' :: (List.replicate width ' ' ++ more)))
    (plain : IsPlain text) (nextLine : NextLine more)
    (outer : ∀ indent ∈ indents.head?, indent ≤ column)
    (inside : ∃ indent ∈ indents.head?, width ≤ indent) :
    ∃ next, Tokens.scan (fuel + 1) s = Tokens.scan fuel next ∧
      next.Pause (⟨.scalar true (String.ofList text), line⟩ :: tokens) indents true (line + 1) width
        more := by
  obtain ⟨given, givenLe, givenOut⟩ := stage.quiet.exists_giveOut s.count
  obtain ⟨next, taken, pause⟩ :=
    (stage.giveOut givenLe).exists_step_value plain nextLine outer inside
  refine ⟨next, ?_, pause⟩
  exact scan_succ givenOut taken (by simp [pause.tokensEq])

/-! Whole lines. -/

/-- A line with a key and a value. -/
theorem exists_scan_entry (stage : s.Stage tokens indents true line column
      (word ++ ':' :: ' ' :: (text ++ '\n' :: (List.replicate width ' ' ++ more))))
    (key : IsPlain word) (short : word.length ≤ keyLimit) (value : IsPlain text)
    (nextLine : NextLine more) (outer : ∀ indent ∈ indents.head?, indent ≤ column)
    (depth : indents.length < depthLimit) (widthLe : width ≤ column) :
    ∃ next, Tokens.scan (fuel + 3) s = Tokens.scan fuel next ∧
      next.Pause (⟨.scalar true (String.ofList text), line⟩ :: ⟨.value, line⟩ ::
          ⟨.scalar true (String.ofList word), line⟩ :: (startTokens line column indents ++ tokens))
        (enter column indents) true (line + 1) width more := by
  have starts : EndsGap (text ++ '\n' :: (List.replicate width ' ' ++ more)) :=
    endsGap_of_nextLine value.nextLine
  obtain ⟨colon, keyScanned, keyPause⟩ :=
    @exists_scan_key _ _ _ _ _ _ _ (fuel + 1) stage key short rfl starts.noComment_space outer depth
  obtain ⟨next, valueScanned, pause⟩ :=
    @exists_scan_value _ _ _ _ _ _ _ _ fuel (@Pause.stage_blanks _ _ _ 1 _ _ _ _ keyPause starts)
      value nextLine (by simp only [head?_enter outer, Option.mem_some_iff]; omega)
      ⟨column, head?_enter outer, widthLe⟩
  exact ⟨next, keyScanned.trans valueScanned, pause⟩

/-- A line with a key alone, whose value stands on the lines below it. -/
theorem exists_scan_heading (stage : s.Stage tokens indents true line column
      (word ++ ':' :: '\n' :: (List.replicate width ' ' ++ more)))
    (key : IsPlain word) (short : word.length ≤ keyLimit) (nextLine : NextLine more)
    (outer : ∀ indent ∈ indents.head?, indent ≤ column) (depth : indents.length < depthLimit) :
    ∃ next, Tokens.scan (fuel + 2) s = Tokens.scan fuel next ∧
      next.Stage (⟨.value, line⟩ :: ⟨.scalar true (String.ofList word), line⟩ ::
          (startTokens line column indents ++ tokens))
        (enter column indents) true (line + 1) width more := by
  have bare : NoComment ('\n' :: (List.replicate width ' ' ++ more)) :=
    ⟨0, _, rfl, by simp [isBlank]⟩
  obtain ⟨next, scanned, pause⟩ :=
    @exists_scan_key _ _ _ _ _ _ _ fuel stage key short rfl bare outer depth
  exact ⟨next, scanned, pause.stage_nextLine (endsGap_of_nextLine nextLine)⟩

end Stage

theorem Pause.scan_end {fuel : Nat} (pause : s.Pause tokens indents allowed line 0 []) :
    Tokens.scan (fuel + 1) s =
      ⟨tokens.reverse ++ List.replicate indents.length ⟨.blockEnd, line⟩ ++ [⟨.streamEnd, line⟩],
        none⟩ := by
  obtain ⟨given, givenLe, givenOut⟩ := pause.quiet.exists_giveOut s.count
  have later : Pause { s with given := given } tokens indents allowed line 0 [] :=
    ⟨pause.quiet.giveOut givenLe, pause.tokensEq, pause.indentsEq, pause.allowedEq, pause.here⟩
  obtain ⟨next, taken, found⟩ := later.exists_step_end
  rw [Tokens.scan, givenOut]
  dsimp only
  rw [taken]
  simp [found]

end Scanner

end TypedForms.Yaml
