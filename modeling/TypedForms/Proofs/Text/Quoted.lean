import TypedForms.Text.Quoted
import TypedForms.Token.Scan

/-! Quoted texts read back. Between quotes, a backslash and the character after it are read as
one character; so only some of the escapes that quoting makes are undone by reading. -/
namespace TypedForms.Text

/-- What is read where a character was quoted. -/
def reread (c : Char) : List Char :=
  match escape c with
  | '\\' :: d :: ds => Token.unescape d :: ds
  | plain => plain

/-- What is read where a text was quoted. -/
def rereadText (text : String) : String := String.ofList (text.toList.flatMap reread)

/-- The characters that can be quoted and read back. -/
def Survives (c : Char) : Prop :=
  isPrintable c = true ∨ c = '\n' ∨ c = '\t' ∨ c = '"' ∨ c = '\\'

instance : DecidablePred Survives := fun _ => inferInstanceAs (Decidable (_ ∨ _))

variable {c d : Char}

theorem length_hexDigits {width n : Nat} : (hexDigits width n).length = width := by
  induction width generalizing n with
  | zero => rfl
  | succ width ih => simp [hexDigits, ih]

/-- A digit neither ends a quoted text nor starts an escape. -/
theorem plain_hexDigits {width n : Nat} (member : d ∈ hexDigits width n) : d ≠ '"' ∧ d ≠ '\\' := by
  have digit : ∀ k < 16, hexDigit k ≠ '"' ∧ hexDigit k ≠ '\\' := by decide
  induction width generalizing n with
  | zero => simp [hexDigits] at member
  | succ width ih =>
    rcases List.mem_append.mp member with member | member
    · exact ih member
    · obtain rfl := List.mem_singleton.mp member
      exact digit _ (Nat.mod_lt n (by decide))

/-- The shapes of a quoted character. -/
theorem escape_cases (c : Char) :
    escape c = [c] ∧ c ≠ '"' ∧ c ≠ '\\' ∨
      ∃ d ds, escape c = '\\' :: d :: ds ∧ ∀ x ∈ ds, x ≠ '"' ∧ x ≠ '\\' := by
  unfold escape
  split
  next => exact .inr ⟨c, [], rfl, by simp⟩
  next special =>
    obtain ⟨notQuote, notBackslash⟩ := not_or.mp special
    split
    next => exact .inl ⟨rfl, notQuote, notBackslash⟩
    next =>
      refine .inr ?_
      split
      next letter _ => exact ⟨letter, [], rfl, by simp⟩
      next =>
        split
        · exact ⟨_, _, rfl, fun _ => plain_hexDigits⟩
        · split
          · exact ⟨_, _, rfl, fun _ => plain_hexDigits⟩
          · exact ⟨_, _, rfl, fun _ => plain_hexDigits⟩

theorem reread_of_plain (plain : escape c = [c]) : reread c = [c] := by
  simp [reread, plain]

theorem reread_of_escaped {ds : List Char} (escaped : escape c = '\\' :: d :: ds) :
    reread c = Token.unescape d :: ds := by
  simp [reread, escaped]

theorem reread_ne_nil (c : Char) : reread c ≠ [] := by
  rcases escape_cases c with ⟨plain, _⟩ | ⟨d, ds, escaped, _⟩
  · simp [reread_of_plain plain]
  · simp [reread_of_escaped escaped]

private theorem escape_special (special : c = '"' ∨ c = '\\') : escape c = ['\\', c] := by
  rw [escape, if_pos special]

/-- Of the control characters with a letter of their own, two are read back from it. -/
private theorem unescape_letter_iff {letter : Char} (found : escapeLetter? c = some letter) :
    Token.unescape letter = c ↔ c = '\n' ∨ c = '\t' := by
  have ofCode : ∀ {n : Nat}, c.toNat = n → c = Char.ofNat n := by
    rintro _ rfl
    rw [Char.ofNat_toNat]
  unfold escapeLetter? at found
  split at found <;> first
    | contradiction
    | (rename_i code
       obtain rfl := ofCode code
       obtain rfl := Option.some.inj found
       decide)

theorem reread_eq_self_iff : reread c = [c] ↔ Survives c := by
  by_cases special : c = '"' ∨ c = '\\'
  · refine iff_of_true ?_ (.inr (.inr (.inr special)))
    rw [reread_of_escaped (escape_special special)]
    rcases special with rfl | rfl <;> rfl
  by_cases printable : isPrintable c = true
  · refine iff_of_true (reread_of_plain ?_) (.inl printable)
    rw [escape, if_neg special, if_pos printable]
  obtain ⟨notQuote, notBackslash⟩ := not_or.mp special
  have survivesIff : Survives c ↔ c = '\n' ∨ c = '\t' := by
    simp only [Survives, printable, notQuote, notBackslash, or_false, Bool.false_eq_true,
      false_or]
  rw [survivesIff]
  cases found : escapeLetter? c with
  | some letter =>
    have escaped : escape c = ['\\', letter] := by
      simp only [escape, special, printable, found, if_false, Bool.false_eq_true]
    rw [reread_of_escaped escaped, List.cons.injEq, ← unescape_letter_iff found]
    simp
  | none =>
    -- a number is read back as its letter and digits, which are more than one character
    have digits : ∃ kind width, escape c = '\\' :: kind :: hexDigits (width + 1) c.toNat := by
      simp only [escape, special, printable, found, if_false, Bool.false_eq_true]
      split
      · exact ⟨'x', 1, rfl⟩
      · split
        · exact ⟨'u', 3, rfl⟩
        · exact ⟨'U', 7, rfl⟩
    obtain ⟨kind, width, escaped⟩ := digits
    refine iff_of_false ?_ ?_
    · rw [reread_of_escaped escaped]
      intro same
      have lengths := congrArg List.length same
      simp [length_hexDigits] at lengths
    · rintro (rfl | rfl) <;> simp [escapeLetter?] at found

/-- No character is lost in reading, so a text survives only if each of its characters does. -/
theorem flatMap_reread_eq_iff {text : List Char} :
    text.flatMap reread = text ↔ ∀ c ∈ text, reread c = [c] := by
  have longer : ∀ text : List Char, text.length ≤ (text.flatMap reread).length := by
    intro text
    induction text with
    | nil => simp
    | cons c text ih =>
      have nonempty := List.length_pos_iff.mpr (reread_ne_nil c)
      simp only [List.flatMap_cons, List.length_append, List.length_cons]
      omega
  induction text with
  | nil => simp
  | cons c text ih =>
    rw [List.flatMap_cons, List.forall_mem_cons]
    constructor
    · intro same
      have lengths := congrArg List.length same
      have nonempty := List.length_pos_iff.mpr (reread_ne_nil c)
      have rest := longer text
      simp only [List.length_append, List.length_cons] at lengths
      have single : (reread c).length = [c].length := by
        rw [List.length_singleton]
        omega
      obtain ⟨first, rest⟩ := List.append_inj same single
      exact ⟨first, ih.mp rest⟩
    · rintro ⟨first, rest⟩
      rw [first, ih.mpr rest, List.singleton_append]

theorem rereadText_eq_self_iff {text : String} :
    rereadText text = text ↔ ∀ c ∈ text.toList, Survives c := by
  have chars : rereadText text = text ↔ text.toList.flatMap reread = text.toList := by
    rw [rereadText, ← String.toList_inj, String.toList_ofList]
  rw [chars, flatMap_reread_eq_iff]
  simp only [reread_eq_self_iff]

end TypedForms.Text
