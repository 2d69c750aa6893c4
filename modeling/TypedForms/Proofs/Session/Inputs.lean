import Mathlib.Data.List.Basic
import Mathlib.Data.List.Infix
import TypedForms.Proofs.Session.History
import TypedForms.Session.Inputs

/-! From lines to inputs. A session takes as many lines into an input as make it complete, and no
more than that. So the lines fall into the blocks of inputs; what is left at the end would have
needed more lines, and is dropped. -/
namespace TypedForms.Session

/-- A line as it is read. -/
abbrev Line := List UInt8

/-- Lines below each other. -/
def below (lines : List Line) : List UInt8 := [Text.Lines.lineFeed].intercalate lines

/-- The lines do not make a complete input. -/
def AskForMore (lines : List Line) : Prop :=
  isIncomplete (Text.Utf8.text (below lines)) = true

/-- However many of the lines have been read, they ask for more. -/
def Pending (lines : List Line) : Prop :=
  ∀ read, read <+: lines → read ≠ [] → AskForMore read

/-- The lines of one input: together they are complete, and fewer of them ask for more. -/
structure Block (lines : List Line) : Prop where
  nonempty : lines ≠ []
  complete : ¬ AskForMore lines
  shortest : ∀ read, read <+: lines → read ≠ [] → read ≠ lines → AskForMore read

/-- The input asks to leave, in small or capital letters. -/
def quits (input : List UInt8) : Bool :=
  let word := (Text.trim (Text.Utf8.text input).toList).map lowerLetter
  word == ":quit".toList || word == ":q".toList

/-- The inputs up to the first that asks to leave, that one included. -/
def taken : List (List UInt8) → List (List UInt8)
  | [] => []
  | input :: inputs => if quits input then [input] else input :: taken inputs

/-- Lines fall into the blocks of inputs, of which at most the last one asks to leave. If it does
not, then what is left over asks for more. -/
structure Segments (lines : List Line) (blocks : List (List Line)) (rest : List Line) : Prop where
  whole : blocks.flatten ++ rest = lines
  each : ∀ block ∈ blocks, Block block
  early : blocks.Pairwise fun block _ => quits (below block) = false
  left : (∀ block ∈ blocks, quits (below block) = false) → Pending rest

variable {s : Session} {history : List (List UInt8)} {line : Line} {lines rest rest' : List Line}
  {blocks blocks' : List (List Line)} {input : List UInt8} {inputs' : List (List UInt8)}

/-! One line more. -/

theorem not_askForMore_of_empty (empty : below lines = []) : ¬ AskForMore lines := by
  have complete : isIncomplete (Text.Utf8.text []) = false := by decide +kernel
  rw [AskForMore, empty, complete]
  exact Bool.false_ne_true

theorem below_concat (nonempty : lines ≠ []) :
    below (lines ++ [line]) = below lines ++ Text.Lines.lineFeed :: line := by
  induction lines with
  | nil => exact absurd rfl nonempty
  | cons first lines ih =>
    cases lines with
    | nil => simp [below]
    | cons second lines =>
      have rest := ih (List.cons_ne_nil _ _)
      simp only [below, List.cons_append, List.intercalate_cons_cons, List.append_assoc] at rest ⊢
      rw [rest]

namespace Pending

theorem nil : Pending [] := by
  intro read shorter nonempty
  exact absurd (List.prefix_nil.mp shorter) nonempty

theorem concat (pending : Pending lines) (more : AskForMore (lines ++ [line])) :
    Pending (lines ++ [line]) := by
  intro read shorter nonempty
  rcases List.prefix_concat_iff.mp shorter with rfl | shorter
  · exact more
  · exact pending read shorter nonempty

theorem toBlock (pending : Pending lines) (complete : ¬ AskForMore (lines ++ [line])) :
    Block (lines ++ [line]) := by
  refine ⟨by simp, complete, ?_⟩
  intro read shorter nonempty different
  rcases List.prefix_concat_iff.mp shorter with same | shorter
  · exact absurd same different
  · exact pending read shorter nonempty

/-- Lines that ask for more are not empty, so that an empty text tells that there are none. -/
theorem below_concat (pending : Pending lines) :
    (if (below lines).isEmpty then line else below lines ++ Text.Lines.lineFeed :: line) =
      below (lines ++ [line]) := by
  by_cases nothing : lines = []
  · subst nothing
    simp [below]
  · have filled : below lines ≠ [] := by
      intro empty
      exact not_askForMore_of_empty empty (pending lines List.prefix_rfl nothing)
    rw [if_neg (by simpa using filled), Session.below_concat nothing]

end Pending

/-! All lines. -/

theorem exists_blocks (pending : Pending rest) :
    ∃ (blocks : List (List Line)) (rest' : List Line),
      inputs (below rest) lines = blocks.map below ∧ blocks.flatten ++ rest' = rest ++ lines ∧
      (∀ block ∈ blocks, Block block) ∧ Pending rest' := by
  induction lines generalizing rest with
  | nil => exact ⟨[], rest, rfl, by simp, by simp, pending⟩
  | cons line lines ih =>
    rw [inputs, pending.below_concat]
    split
    next more =>
      obtain ⟨blocks, rest', found, whole, each, left⟩ := ih (pending.concat more)
      exact ⟨blocks, rest', found, by simpa using whole, each, left⟩
    next complete =>
      obtain ⟨blocks, rest', found, whole, each, left⟩ := ih Pending.nil
      refine ⟨(rest ++ [line]) :: blocks, rest', ?_, ?_, ?_, left⟩
      · rw [List.map_cons, ← found]
        rfl
      · rw [List.flatten_cons, List.append_assoc, whole]
        simp
      · exact List.forall_mem_cons.mpr ⟨pending.toBlock complete, each⟩

/-! Leaving. -/

theorem exists_taken (inputs : List (List UInt8)) : ∃ rest, inputs = taken inputs ++ rest ∧
    (taken inputs).Pairwise (fun input _ => quits input = false) ∧
    ((∀ input ∈ taken inputs, quits input = false) → rest = []) := by
  induction inputs with
  | nil => exact ⟨[], rfl, .nil, fun _ => rfl⟩
  | cons input inputs ih =>
    rw [taken]
    split
    next quit =>
      refine ⟨inputs, rfl, List.pairwise_singleton _ _, ?_⟩
      intro stays
      simp [quit] at stays
    next stay =>
      obtain ⟨rest, whole, early, left⟩ := ih
      refine ⟨rest, by rw [List.cons_append, ← whole], ?_, ?_⟩
      · exact List.pairwise_cons.mpr ⟨fun _ _ => Bool.eq_false_iff.mpr stay, early⟩
      · intro stays
        exact left (List.forall_mem_cons.mp stays).2

theorem eq_colon_of_lowerLetter {c : Char} (colon : lowerLetter c = ':') : c = ':' :=
  eq_colon_of_toLower ((lowerLetter_eq_iff (by decide)).mp colon)

theorem isCommand_of_quits (quit : quits input = true) :
    isCommand (Text.Utf8.text input) = true := by
  have colon : ((Text.trim (Text.Utf8.text input).toList).map lowerLetter).head? = some ':' := by
    rw [quits, Bool.or_eq_true, beq_iff_eq, beq_iff_eq] at quit
    rcases quit with word | word <;> rw [word] <;> rfl
  rw [List.head?_map, Option.map_eq_some_iff] at colon
  obtain ⟨c, first, lowered⟩ := colon
  rw [isCommand, first, eq_colon_of_lowerLetter lowered]
  rfl

theorem ofInput_eq_quit_iff :
    Command.ofInput (Text.Utf8.text input) = .quit ↔ quits input = true := by
  unfold Command.ofInput quits
  dsimp only
  rw [Bool.or_eq_true, beq_iff_eq, beq_iff_eq]
  constructor
  · intro quit
    split at quit <;> cases quit
    next spelled => exact .inl (by rw [← spelled, String.toList_ofList])
    next spelled => exact .inr (by rw [← spelled, String.toList_ofList])
  · rintro (spelled | spelled) <;> rw [spelled] <;> rfl

/-- A session goes on after every input but one that asks to leave. -/
theorem goesOn_step : (s.step (Text.Utf8.text input)).goesOn = !quits input := by
  cases quit : quits input with
  | true =>
    rw [step, if_pos (isCommand_of_quits quit), ofInput_eq_quit_iff.mpr quit]
    rfl
  | false =>
    have other : Command.ofInput (Text.Utf8.text input) ≠ .quit := by
      rw [Ne, ofInput_eq_quit_iff, quit]
      exact Bool.false_ne_true
    rw [step]
    split
    · cases command : Command.ofInput (Text.Utf8.text input) with
      | quit => exact absurd command other
      | _ => rfl
    · rfl

theorem run_quit (quit : quits input = true) :
    s.run history (input :: inputs') =
      ((s.step (Text.Utf8.text input)).output, remember history (onOneLine input)) := by
  have filled : (Text.trim (Text.Utf8.text input).toList).isEmpty = false := by
    have command := isCommand_of_quits quit
    rw [isCommand, beq_iff_eq] at command
    cases text : Text.trim (Text.Utf8.text input).toList with
    | nil =>
      rw [text] at command
      cases command
    | cons => rfl
  have leaves : (s.step (Text.Utf8.text input)).goesOn = false := by
    rw [goesOn_step, quit]
    rfl
  simp only [run, filled, leaves, Bool.false_eq_true, if_false]

/-- What follows an input that asks to leave is not looked at. -/
theorem run_taken : s.run history (taken inputs') = s.run history inputs' := by
  induction inputs' generalizing s history with
  | nil => rfl
  | cons input inputs ih =>
    rw [taken]
    split
    next quit => rw [run_quit quit, run_quit quit]
    next stay => simp only [run, ih]

/-! There is one way only. -/

theorem Block.eq_of_prefix {block block' : List Line} (first : Block block) (second : Block block')
    (shorter : block <+: block') : block = block' := by
  by_contra different
  exact first.complete (second.shortest block shorter first.nonempty different)

/-- Of two blocks at the start of the same lines none is longer. -/
theorem Block.eq_of_append {block block' more more' : List Line} (first : Block block)
    (second : Block block') (same : block ++ more = block' ++ more') : block = block' := by
  have start : block <+: block' ++ more' := ⟨more, same⟩
  rcases List.prefix_or_prefix_of_prefix start (List.prefix_append block' more') with short | short
  · exact first.eq_of_prefix second short
  · exact (second.eq_of_prefix first short).symm

namespace Segments

variable {block : List Line}

theorem pending (segments : Segments lines [] rest) : rest = lines ∧ Pending lines := by
  obtain rfl : rest = lines := segments.whole
  exact ⟨rfl, segments.left (by simp)⟩

theorem not_pending (segments : Segments lines (block :: blocks) rest) : ¬ Pending lines := by
  intro pending
  have first := segments.each block List.mem_cons_self
  apply first.complete
  apply pending block _ first.nonempty
  rw [← segments.whole, List.flatten_cons, List.append_assoc]
  exact List.prefix_append ..

theorem tail (segments : Segments lines (block :: blocks) rest)
    (stay : quits (below block) = false) : Segments (blocks.flatten ++ rest) blocks rest where
  whole := rfl
  each := (List.forall_mem_cons.mp segments.each).2
  early := (List.pairwise_cons.mp segments.early).2
  left := fun stays => segments.left (List.forall_mem_cons.mpr ⟨stay, stays⟩)

theorem eq_nil_of_quits (segments : Segments lines (block :: blocks) rest)
    (quit : quits (below block) = true) : blocks = [] := by
  cases blocks with
  | nil => rfl
  | cons next blocks =>
    have stay := (List.pairwise_cons.mp segments.early).1 next List.mem_cons_self
    rw [quit] at stay
    cases stay

theorem unique (first : Segments lines blocks rest) (second : Segments lines blocks' rest') :
    blocks = blocks' ∧ rest = rest' := by
  induction blocks generalizing lines blocks' with
  | nil =>
    cases blocks' with
    | nil => exact ⟨rfl, first.pending.1.trans second.pending.1.symm⟩
    | cons => exact absurd first.pending.2 second.not_pending
  | cons block blocks ih =>
    cases blocks' with
    | nil => exact absurd second.pending.2 first.not_pending
    | cons block' blocks' =>
      have same : block ++ (blocks.flatten ++ rest) = block' ++ (blocks'.flatten ++ rest') := by
        simpa using first.whole.trans second.whole.symm
      obtain rfl := (first.each block List.mem_cons_self).eq_of_append
        (second.each block' List.mem_cons_self) same
      have sameRest := List.append_cancel_left same
      cases quit : quits (below block) with
      | true =>
        obtain rfl := first.eq_nil_of_quits quit
        obtain rfl := second.eq_nil_of_quits quit
        exact ⟨rfl, sameRest⟩
      | false =>
        obtain ⟨rfl, rfl⟩ := ih (first.tail quit) (sameRest ▸ second.tail quit)
        exact ⟨rfl, rfl⟩

end Segments

theorem exists_segments (lines : List Line) : ∃ blocks rest, Segments lines blocks rest ∧
    taken (inputs [] lines) = blocks.map below := by
  obtain ⟨all, last, found, whole, each, pending⟩ := @exists_blocks lines [] .nil
  obtain ⟨others, split, early, left⟩ := exists_taken (inputs [] lines)
  -- the inputs that are not taken are those of the later blocks
  rw [show inputs [] lines = all.map below from found] at split early left ⊢
  obtain ⟨blocks, later, rfl, first, second⟩ := List.map_eq_append_iff.mp split
  rw [← first] at early left ⊢
  refine ⟨blocks, later.flatten ++ last, ⟨?_, ?_, ?_, ?_⟩, rfl⟩
  · rw [← List.append_assoc, ← List.flatten_append, whole, List.nil_append]
  · intro block member
    exact each block (List.mem_append_left _ member)
  · rw [List.pairwise_map] at early
    exact early
  · intro stays
    have noneLeft := left (List.forall_mem_map.mpr stays)
    rw [← second, List.map_eq_nil_iff] at noneLeft
    subst noneLeft
    exact pending

/-- Lines fall into blocks in exactly one way, up to the first block that asks to leave: each block
is complete, and fewer of its lines are not; and if no block asks to leave, what is left over asks
for more however much of it is read. The inputs that a session takes are the blocks, in order, with
line feeds between their lines; its run is a run on these alone. It goes on after every input but
one that asks to leave. -/
theorem inputs_are_greedy_blocks (s : Session) (history : List (List UInt8)) (lines : List Line) :
    (∃ blocks rest, Segments lines blocks rest ∧
      taken (inputs [] lines) = blocks.map below ∧
      s.run history (inputs [] lines) = s.run history (blocks.map below) ∧
      ∀ blocks' rest', Segments lines blocks' rest' → blocks' = blocks ∧ rest' = rest) ∧
    ∀ input, (s.step (Text.Utf8.text input)).goesOn = !quits input := by
  obtain ⟨blocks, rest, segments, same⟩ := exists_segments lines
  refine ⟨⟨blocks, rest, segments, same, ?_, ?_⟩, fun input => goesOn_step⟩
  · rw [← same, run_taken]
  · intro blocks' rest' other
    exact other.unique segments

-- the second line closes a string and no parenthesis, and nothing is read after the fourth
example :
    taken (inputs [] (["(car \"a", "b)\"", ")", ":Q", "1"].map Text.Utf8.bytes)) =
      ["(car \"a\nb)\"\n)", ":Q"].map Text.Utf8.bytes := by
  decide +kernel

end TypedForms.Session
