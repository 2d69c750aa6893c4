import Mathlib.Data.List.DropRight
import TypedForms.Proofs.Session.Answers

/-! The environment of a session is made up of the definitions since it was last reset. An input
adds its definitions all or not at all: not if there is a syntax error anywhere in it. -/
namespace TypedForms.Session

variable {o : Options} {s : Session} {input : String} {inputs : List String}

/-- The input asks for a fresh start, in small or capital letters. -/
def resets (input : String) : Bool :=
  (Text.trim input.toList).map Char.toLower == ":reset".toList

/-- The definitions that an input makes. -/
def definitions (input : String) : List Decl :=
  if isCommand input then []
  else if (read input).notes.isEmpty then (read input).value.filterMap Form.decl?
  else []

/-! Which inputs are taken for a reset. -/

theorem toNat_toLower_of_capital {c : Char} (capital : 'A' ≤ c ∧ c ≤ 'Z') :
    c.toLower.toNat = c.toNat + 32 := by
  have bound : c.toNat ≤ 90 := capital.2
  calc c.toLower.toNat = (c.val + 32).toNat := congrArg Char.toNat (dif_pos capital)
    _ = (c.toNat + 32) % 2 ^ 32 := UInt32.toNat_add c.val 32
    _ = c.toNat + 32 := by omega

theorem toLower_of_not_capital {c : Char} (small : ¬ ('A' ≤ c ∧ c ≤ 'Z')) : c.toLower = c :=
  dif_neg small

/-- Beyond the capital letters only characters that stand for other letters are lowered. -/
theorem lowerLetter_eq_iff {c letter : Char} (member : letter ∈ ":reset".toList) :
    lowerLetter c = letter ↔ c.toLower = letter := by
  have allPlain : (":reset".toList.all fun c => c.toNat < 128 && c != 'i' && c != 'k') = true := by
    decide
  have plain := List.all_eq_true.mp allPlain letter member
  simp only [Bool.and_eq_true, decide_eq_true_eq, bne_iff_ne] at plain
  obtain ⟨⟨ascii, notI⟩, notK⟩ := plain
  unfold lowerLetter
  split
  next capital => rw [← toNat_toLower_of_capital capital, Char.ofNat_toNat]
  next small =>
    rw [toLower_of_not_capital small]
    split
    next code =>
      refine iff_of_false (Ne.symm notI) ?_
      rintro rfl
      omega
    next =>
      split
      next code =>
        refine iff_of_false (Ne.symm notK) ?_
        rintro rfl
        omega
      next => rfl

theorem map_eq_iff {α β : Type} {f g : α → β} {xs : List α} {ys : List β}
    (same : ∀ y ∈ ys, ∀ x, f x = y ↔ g x = y) : xs.map f = ys ↔ xs.map g = ys := by
  induction xs generalizing ys with
  | nil => rfl
  | cons x xs ih =>
    cases ys with
    | nil => simp
    | cons y ys =>
      obtain ⟨first, rest⟩ := List.forall_mem_cons.mp same
      rw [List.map_cons, List.map_cons, List.cons.injEq, List.cons.injEq, first x, ih rest]

theorem ofInput_eq_reset_iff : Command.ofInput input = .reset ↔ resets input = true := by
  rw [resets, beq_iff_eq, ← map_eq_iff fun letter member c => lowerLetter_eq_iff member]
  unfold Command.ofInput
  dsimp only
  constructor
  · intro reset
    split at reset <;> cases reset
    next spelled => rw [← spelled, String.toList_ofList]
  · intro spelled
    rw [spelled]
    rfl

theorem eq_colon_of_toLower {c : Char} (colon : c.toLower = ':') : c = ':' := by
  by_cases capital : 'A' ≤ c ∧ c ≤ 'Z'
  · have code := toNat_toLower_of_capital capital
    have bound : 65 ≤ c.toNat := capital.1
    rw [colon] at code
    have small : ':'.toNat = 58 := rfl
    omega
  · rwa [toLower_of_not_capital capital] at colon

theorem isCommand_of_resets (reset : resets input = true) : isCommand input = true := by
  rw [resets, beq_iff_eq] at reset
  unfold isCommand
  cases text : Text.trim input.toList with
  | nil =>
    rw [text] at reset
    cases reset
  | cons c rest =>
    rw [text, List.map_cons] at reset
    rw [eq_colon_of_toLower (List.cons.inj reset).1]
    rfl

/-! What one input does, and what inputs do one after the other. -/

theorem options_step : (s.step input).session.options = s.options := by
  unfold step
  split
  · cases Command.ofInput input <;> rfl
  · unfold checkInput
    dsimp only
    split
    · exact options_checkForms
    · rfl

theorem after_concat :
    s.after (inputs ++ [input]) = ((s.after inputs).step input).session := by
  simp [after]

theorem options_after : (s.after inputs).options = s.options := by
  induction inputs using List.reverseRecOn with
  | nil => rfl
  | append_singleton inputs input ih =>
    rw [after_concat, options_step, ih]

theorem env_step_reset (reset : resets input = true) : (s.step input).session.env = .empty := by
  rw [step, if_pos (isCommand_of_resets reset), ofInput_eq_reset_iff.mpr reset]
  rfl

theorem env_step (kept : resets input = false) :
    (s.step input).session.env = Check.after s.options s.env (definitions input) := by
  unfold step definitions
  split
  next =>
    have other : Command.ofInput input ≠ .reset := by
      rw [Ne, ofInput_eq_reset_iff, kept]
      exact Bool.false_ne_true
    cases command : Command.ofInput input with
    | reset => exact absurd command other
    | _ => rfl
  next =>
    by_cases clean : (read input).notes = []
    · rw [checkInput_clean clean, clean]
      exact env_checkForms
    · rw [if_neg (by simpa using clean)]
      exact congrArg Session.env (checkInput_faulty clean)

theorem env_after :
    ((start o).after inputs).env =
      Check.after o .empty ((inputs.rtakeWhile (!resets ·)).flatMap definitions) := by
  induction inputs using List.reverseRecOn with
  | nil => rfl
  | append_singleton inputs input ih =>
    rw [after_concat, List.rtakeWhile_concat]
    cases reset : resets input with
    | true => exact env_step_reset reset
    | false =>
      have options : ((start o).after inputs).options = o := options_after
      rw [env_step reset, ih, options]
      simp [Check.after, List.foldl_append]

theorem definitions_of_faulty (faulty : (read input).notes ≠ []) : definitions input = [] := by
  unfold definitions
  split
  · rfl
  · rw [if_neg (by simpa using faulty)]

theorem definitions_of_exprs (exprs : ∀ form ∈ (read input).value, ∃ e, form = .expr e) :
    definitions input = [] := by
  have noneKept : (read input).value.filterMap Form.decl? = [] := by
    rw [List.filterMap_eq_nil_iff]
    intro form member
    obtain ⟨e, rfl⟩ := exprs form member
    rfl
  unfold definitions
  rw [noneKept]
  simp

theorem definitions_of_command (command : isCommand input = true) : definitions input = [] :=
  if_pos command

theorem definitions_of_expr {before rest : List Form} {e : Expr} (typed : isCommand input = false)
    (clean : (read input).notes = []) (forms : (read input).value = before ++ .expr e :: rest) :
    definitions input = (before ++ rest).filterMap Form.decl? := by
  have skipped : (before ++ .expr e :: rest).filterMap Form.decl? =
      (before ++ rest).filterMap Form.decl? := by
    rw [List.filterMap_append, List.filterMap_append]
    rfl
  unfold definitions
  rw [typed, clean, forms, skipped]
  rfl

/-- The environment of a session is the result of checking, from the empty environment on, the
definitions in those inputs since the last reset that have no syntax error. All other inputs leave
it as it is, and so do the expressions between definitions. -/
theorem env_after_eq_foldl_definitions (o : Options) (inputs : List String) :
    ((start o).after inputs).env =
      ((inputs.rtakeWhile (!resets ·)).flatMap definitions).foldl
        (fun env d => (Check.decl o env d).value.2) .empty ∧
    (∀ input, resets input = false →
      isCommand input = true ∨ (read input).notes ≠ [] ∨
        (∀ form ∈ (read input).value, ∃ e, form = .expr e) →
      ((start o).after (inputs ++ [input])).env = ((start o).after inputs).env) ∧
    ∀ input before e rest, isCommand input = false → (read input).notes = [] →
      (read input).value = before ++ .expr e :: rest →
      ((start o).after (inputs ++ [input])).env =
        ((before ++ rest).filterMap Form.decl?).foldl
          (fun env d => (Check.decl o env d).value.2) ((start o).after inputs).env := by
  have options : ((start o).after inputs).options = o := options_after
  refine ⟨env_after, ?_, ?_⟩
  · intro input kept idle
    have noneMade : definitions input = [] := by
      rcases idle with command | faulty | exprs
      · exact definitions_of_command command
      · exact definitions_of_faulty faulty
      · exact definitions_of_exprs exprs
    rw [after_concat, env_step kept, noneMade]
    rfl
  · intro input before e rest typed clean forms
    have kept : resets input = false := by
      by_contra reset
      rw [Bool.not_eq_false] at reset
      simp [isCommand_of_resets reset] at typed
    rw [after_concat, env_step kept, definitions_of_expr typed clean forms, options]
    rfl

end TypedForms.Session
