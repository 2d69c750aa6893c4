import Mathlib.Data.List.TakeWhile
import TypedForms.Yaml.Tag
import TypedForms.Yaml.Token.Scan
import TypedForms.Yaml.Write

/-! Texts that stand in a document as they are, without quotes and on one line. A scanner takes such
a text up to the colon that makes it a key, or up to where the next line starts. -/
namespace TypedForms.Yaml

/-- Characters inside of a plain text: those of ASCII that can be seen, and the space. A colon and
a number sign may have a meaning of their own. -/
def isInner (c : Char) : Bool := (' ' ≤ c && c ≤ '~') && c != ':' && c != '#'

/-- Characters that a plain text may start with. -/
def isStart (c : Char) : Bool := ('a' ≤ c && c ≤ 'z') || c == '('

/-- A text on one line that is a plain scalar, whatever stands before and after it. -/
structure IsPlain (text : List Char) : Prop where
  inner : ∀ c ∈ text, isInner c = true
  starts : ∃ c ∈ text.head?, isStart c = true
  ends : ∀ c ∈ text.getLast?, c ≠ ' '

instance (text : List Char) : Decidable (IsPlain text) :=
  decidable_of_iff
    ((text.all isInner && text.head?.any isStart && text.getLast?.all (· != ' ')) = true) <| by
    simp only [Bool.and_eq_true, List.all_eq_true, Option.any_eq_true, Option.all_eq_true,
      bne_iff_ne]
    exact ⟨fun ⟨⟨inner, starts⟩, ends⟩ => ⟨inner, starts, ends⟩,
      fun plain => ⟨⟨plain.inner, plain.starts⟩, plain.ends⟩⟩

section

variable {c d : Char}

theorem ne_of_isInner (inner : isInner c = true) (other : isInner d = false) : c ≠ d := by
  rintro rfl
  rw [inner] at other
  cases other

theorem ne_of_isStart (starts : isStart c = true) (other : isStart d = false) : c ≠ d := by
  rintro rfl
  rw [starts] at other
  cases other

theorem bounds_of_isInner (inner : isInner c = true) : 32 ≤ c.toNat ∧ c.toNat ≤ 126 := by
  simp only [isInner, Bool.and_eq_true, decide_eq_true_eq] at inner
  exact inner.1.1

theorem isInner_of_isStart (starts : isStart c = true) : isInner c = true := by
  have colon : c ≠ ':' := ne_of_isStart starts rfl
  have number : c ≠ '#' := ne_of_isStart starts rfl
  have bounds : 32 ≤ c.toNat ∧ c.toNat ≤ 126 := by
    simp only [isStart, Bool.or_eq_true, Bool.and_eq_true, decide_eq_true_eq, beq_iff_eq] at starts
    rcases starts with ⟨low, high⟩ | rfl
    · have : 97 ≤ c.toNat := low
      have : c.toNat ≤ 122 := high
      omega
    · decide
  simp only [isInner, Bool.and_eq_true, decide_eq_true_eq, bne_iff_ne]
  exact ⟨⟨bounds, colon⟩, number⟩

theorem isBreak_of_isInner (inner : isInner c = true) : isBreak c = false := by
  have bounds := bounds_of_isInner inner
  have feed : c ≠ '\n' := ne_of_isInner inner rfl
  simp only [isBreak, beq_eq_false_iff_ne.mpr feed, Bool.false_or, Bool.or_eq_false_iff,
    beq_eq_false_iff_ne]
  omega

theorem isBlank_of_isInner (inner : isInner c = true) : isBlank c = (c == ' ') := by
  have tab : c ≠ '\t' := ne_of_isInner inner rfl
  rw [isBlank, beq_eq_false_iff_ne.mpr tab, Bool.or_false]

theorem isBlank_of_isStart (starts : isStart c = true) : isBlank c = false := by
  have space : c ≠ ' ' := ne_of_isStart starts rfl
  rw [isBlank_of_isInner (isInner_of_isStart starts), beq_eq_false_iff_ne.mpr space]

end

/-! Reading a plain scalar. -/

section

variable {indent column count : Nat} {text more read blanks : List Char} {c : Char}

theorem plainText_space :
    plainText false indent (' ' :: more) column (.blanks blanks) read count =
      plainText false indent more (column + 1) (.blanks (blanks ++ [' '])) read (count + 1) := by
  rw [plainText]
  rfl

theorem plainText_visible (inner : isInner c = true) (visible : c ≠ ' ')
    (indented : blanks = [] ∨ 0 < column ∧ indent ≤ column) :
    plainText false indent (c :: more) column (.blanks blanks) read count =
      plainText false indent more (column + 1) .none (c :: blanks.reverse ++ read) (count + 1) := by
  have colon : c ≠ ':' := ne_of_isInner inner rfl
  have number : c ≠ '#' := ne_of_isInner inner rfl
  have goesOn : (!(Gap.blanks blanks).isEmpty && ((!false && decide (column < indent)) ||
      (column == 0 && isMarker (c :: more)) || c == '#')) = false := by
    rcases indented with rfl | ⟨positive, inside⟩
    · rfl
    · have start : column ≠ 0 := by omega
      simp [start, inside, number]
  rw [plainText, isBreak_of_isInner inner, isBlank_of_isInner inner,
    beq_eq_false_iff_ne.mpr visible, goesOn]
  simp [endsPlain, colon, Gap.folded]

/-- The characters of a text are read one by one; the blanks at its end may belong to what follows
it. -/
theorem exists_plainText (inner : ∀ c ∈ text, isInner c = true) (positive : 0 < column)
    (indented : indent ≤ column) :
    ∃ blanks' read', read'.reverse ++ blanks' = read.reverse ++ blanks ++ text ∧
      ((∀ c ∈ text.getLast?, c ≠ ' ') → (text = [] → blanks = []) → blanks' = []) ∧
      plainText false indent (text ++ more) column (.blanks blanks) read count =
        plainText false indent more (column + text.length) (.blanks blanks') read'
          (count + text.length) := by
  induction text generalizing column count read blanks with
  | nil => exact ⟨blanks, read, by simp, fun _ none => none rfl, rfl⟩
  | cons c text ih =>
    obtain ⟨first, rest⟩ := List.forall_mem_cons.mp inner
    have length : column + 1 + text.length = column + (c :: text).length := by
      rw [List.length_cons]
      omega
    have length' : count + 1 + text.length = count + (c :: text).length := by
      rw [List.length_cons]
      omega
    by_cases visible : c = ' '
    · subst visible
      obtain ⟨blanks', read', whole, none, eq⟩ := @ih (column + 1) (count + 1) read
        (blanks ++ [' ']) rest (by omega) (by omega)
      refine ⟨blanks', read', by simpa using whole, ?_, ?_⟩
      · intro ends _
        refine none (fun c member => ends c ?_) (fun empty => ?_)
        · rw [List.getLast?_cons, Option.mem_def.mp member]
          rfl
        · subst empty
          exact absurd rfl (ends ' ' rfl)
      · rw [List.cons_append, plainText_space, eq, length, length']
    · obtain ⟨blanks', read', whole, none, eq⟩ := @ih (column + 1) (count + 1)
        (c :: blanks.reverse ++ read) [] rest (by omega) (by omega)
      refine ⟨blanks', read', by simpa using whole, ?_, ?_⟩
      · intro ends _
        refine none (fun c member => ends c ?_) fun _ => rfl
        rw [List.getLast?_cons, Option.mem_def.mp member]
        rfl
      · rw [List.cons_append, plainText_visible first visible (.inr ⟨positive, indented⟩)]
        rw [length, length'] at eq
        exact eq

/-- A plain text is read as a whole. -/
theorem plainText_of_isPlain (plain : IsPlain text) (indented : indent ≤ column + 1) :
    plainText false indent (text ++ more) column .none [] 0 =
      plainText false indent more (column + text.length) .none text.reverse text.length := by
  obtain ⟨inner, starts, ends⟩ := plain
  cases text with
  | nil =>
    obtain ⟨c, member, _⟩ := starts
    cases member
  | cons c text =>
    obtain ⟨_, ⟨⟩, start⟩ := starts
    obtain ⟨first, rest⟩ := List.forall_mem_cons.mp inner
    have visible : c ≠ ' ' := ne_of_isStart start rfl
    obtain ⟨blanks, read, whole, none, eq⟩ := @exists_plainText indent (column + 1) 1 text more
      [c] [] rest (by omega) indented
    have noBlanks : blanks = [] := by
      refine none (fun c member => ends c ?_) fun _ => rfl
      rw [List.getLast?_cons, Option.mem_def.mp member]
      rfl
    subst noBlanks
    have same : read = (c :: text).reverse := by
      rw [← List.reverse_inj, List.reverse_reverse]
      simpa using whole
    calc plainText false indent (c :: (text ++ more)) column (.blanks []) [] 0
        = plainText false indent (text ++ more) (column + 1) (.blanks []) [c] 1 :=
          plainText_visible first visible (.inl rfl)
      _ = plainText false indent more (column + (c :: text).length) .none (c :: text).reverse
            (c :: text).length := by
          rw [eq, same, List.length_cons, Nat.add_right_comm, Nat.add_assoc, Nat.add_comm 1]
          rfl

theorem plainText_colon (ends : endsWord more = true) :
    plainText false indent (':' :: more) column .none read count =
      .ok ⟨read.reverse, count, false⟩ := by
  rw [plainText]
  simp [isBreak, isBlank, Gap.none, Gap.isEmpty, endsPlain, ends, Gap.hasBreak]

/-- What follows a line end: the next line starts further out, or there is none. -/
def NextLine (more : List Char) : Prop := ∀ c ∈ more.head?, isStart c = true

theorem IsPlain.nextLine (plain : IsPlain text) : NextLine (text ++ more) := by
  obtain ⟨c, head, start⟩ := plain.starts
  obtain ⟨tail, rfl⟩ := List.head?_eq_some_iff.mp head
  intro d member
  obtain rfl : c = d := Option.some.inj member
  exact start

theorem plainText_indent {width : Nat} {others : List Char} (next : NextLine more)
    (outside : column + width < indent) :
    plainText false indent (List.replicate width ' ' ++ more) column (.breaks (some '\n') others)
      read count = .ok ⟨read.reverse, count + width, true⟩ := by
  induction width generalizing column count with
  | zero =>
    cases more with
    | nil => rfl
    | cons c more =>
      have start := next c rfl
      have columnLt : column < indent := outside
      rw [List.replicate_zero, List.nil_append, plainText,
        isBreak_of_isInner (isInner_of_isStart start), isBlank_of_isStart start]
      simp [Gap.isEmpty, Gap.hasBreak, columnLt]
  | succ width ih =>
    rw [List.replicate_succ, List.cons_append, plainText]
    have pushed := @ih (column + 1) (count + 1) (by omega)
    rw [Nat.add_assoc, Nat.add_comm 1] at pushed
    exact pushed

theorem plainText_lineEnd {width : Nat} (next : NextLine more) (outside : width < indent) :
    plainText false indent ('\n' :: (List.replicate width ' ' ++ more)) column .none read count =
      .ok ⟨read.reverse, count + 1 + width, true⟩ := by
  rw [plainText]
  exact plainText_indent next (by omega)

end

/-! Writing a plain text. -/

theorem hasColonBlank_eq_false {text : List Char} (none : ∀ c ∈ text, c ≠ ':') :
    Style.hasColonBlank text = false := by
  fun_induction Style.hasColonBlank text with
  | case1 => rfl
  | case2 c => simpa using none
  | case3 c d rest ih =>
    obtain ⟨first, others⟩ := List.forall_mem_cons.mp none
    simp [first, ih others]

/-- A plain text is written as it is. -/
theorem writeText_of_isPlain {indent : Nat} {text : List Char} (plain : IsPlain text) :
    writeText indent text = text ++ ['\n'] := by
  have oneLine : '\n' ∉ text := fun member => ne_of_isInner (plain.inner _ member) rfl rfl
  have noQuestion : text ≠ ['?'] := by
    rintro rfl
    obtain ⟨_, ⟨⟩, start⟩ := plain.starts
    cases start
  have noKey : Style.hasColonBlank text = false :=
    hasColonBlank_eq_false fun c member => ne_of_isInner (plain.inner c member) rfl
  have style : Style.ofText text = .plain := by
    simp [Style.ofText, oneLine, noQuestion, noKey]
  rw [writeText, style]

/-! Texts of lines with plain scalars are read to their end, and as they are. -/

/-- The characters of such lines. -/
def isLineChar (c : Char) : Bool := (' ' ≤ c && c ≤ '~') || c == '\n'

theorem IsPlain.isLineChar {text : List Char} (plain : IsPlain text) :
    ∀ c ∈ text, isLineChar c = true := by
  intro c member
  have inner := plain.inner c member
  simp only [isInner, Bool.and_eq_true] at inner
  simp [Yaml.isLineChar, inner.1.1]

theorem ne_of_isLineChar {c d : Char} (visible : isLineChar c = true)
    (other : isLineChar d = false) : c ≠ d := by
  rintro rfl
  rw [visible] at other
  cases other

theorem isAllowed_of_isLineChar {c : Char} (visible : isLineChar c = true) :
    isAllowed c = true := by
  simp only [isLineChar, Bool.or_eq_true, Bool.and_eq_true, decide_eq_true_eq,
    beq_iff_eq] at visible
  rcases visible with ⟨low, high⟩ | rfl
  · have : 0x20 ≤ c.toNat := low
    have : c.toNat ≤ 0x7e := high
    simp [isAllowed, *]
  · decide

theorem flatten_addFirst {c : Char} {chunks : List (List Char)} :
    (addFirst c chunks).flatten = c :: chunks.flatten := by
  cases chunks <;> rfl

theorem flatten_chunks {room : Nat} {text : List Char} : (chunks room text).flatten = text := by
  induction text generalizing room with
  | nil => rfl
  | cons c text ih =>
    rw [chunks]
    split
    · rw [flatten_addFirst, ih]
    · rw [List.flatten_cons, List.nil_append, flatten_addFirst, ih]

theorem alikeLines_eq_self {text : List Char} (none : ∀ c ∈ text, c ≠ '\r') :
    alikeLines text = text := by
  fun_induction alikeLines text with
  | case1 rest ih => exact absurd rfl (none _ List.mem_cons_self)
  | case2 c rest _ ih =>
    obtain ⟨first, others⟩ := List.forall_mem_cons.mp none
    rw [ih others, if_neg (by simpa using first)]
  | case3 => rfl

theorem Source.ofText_eq {text : String} (visible : ∀ c ∈ text.toList, isLineChar c = true) :
    Source.ofText text = ⟨text.toList, true⟩ := by
  have usable : (chunks chunkSize text.toList).takeWhile (·.all isAllowed) =
      chunks chunkSize text.toList := by
    rw [List.takeWhile_eq_self_iff]
    intro chunk member
    rw [List.all_eq_true]
    intro c inside
    refine isAllowed_of_isLineChar (visible c ?_)
    rw [← @flatten_chunks chunkSize text.toList]
    exact List.mem_flatten_of_mem member inside
  have unmarked : withoutMark text.toList = text.toList := by
    cases chars : text.toList with
    | nil => rfl
    | cons c rest =>
      have first : c ≠ byteOrderMark :=
        ne_of_isLineChar (visible c (by rw [chars]; exact List.mem_cons_self)) (by decide)
      rw [withoutMark, if_neg (by simpa using first)]
  have lines : alikeLines text.toList = text.toList :=
    alikeLines_eq_self fun c member => ne_of_isLineChar (visible c member) rfl
  rw [Source.ofText, usable, flatten_chunks, unmarked, lines, beq_self_eq_true]

/-! What a plain text is taken for. -/

/-- Plain texts that stand for other values than texts. -/
def valueWords : List String := ["null", "true", "false"]

/-- A text that can be written without quotes and is then read as the same text. -/
structure IsPlainText (text : String) : Prop where
  isPlain : IsPlain text.toList
  noValue : text ∉ valueWords

namespace IsPlainText

variable {text : String}

theorem contains_eq_false (plain : IsPlainText text) {words : List String}
    (each : (words.all fun word =>
      valueWords.contains word || !word.toList.head?.any isStart) = true) :
    words.contains text = false := by
  rw [← Bool.not_eq_true, List.contains_iff_mem]
  intro member
  obtain ⟨c, head, start⟩ := plain.isPlain.starts
  have known := List.all_eq_true.mp each text member
  simp [Option.mem_def.mp head, start, plain.noValue] at known

theorem ofPlain_eq (plain : IsPlainText text) : Tag.ofPlain text = .str := by
  obtain ⟨c, head, start⟩ := plain.isPlain.starts
  have digit : Moment.isDecimal c = false := by
    simp only [isStart, Bool.or_eq_true, Bool.and_eq_true, decide_eq_true_eq, beq_iff_eq] at start
    rcases start with ⟨letter, _⟩ | rfl
    · have low : 97 ≤ c.toNat := letter
      have high : ¬ c.toNat ≤ 57 := by omega
      exact Bool.and_eq_false_imp.mpr fun _ => decide_eq_false high
    · decide
  have number : (c == '+' || c == '-' || Moment.isDecimal c) = false := by
    simp [ne_of_isStart start (d := '+') rfl, ne_of_isStart start (d := '-') rfl, digit]
  have point : (c == '.') = false := beq_eq_false_iff_ne.mpr (ne_of_isStart start rfl)
  rw [Tag.ofPlain, plain.contains_eq_false (by decide), plain.contains_eq_false (by decide),
    plain.contains_eq_false (by decide), Option.mem_def.mp head]
  simp [point, number]

end IsPlainText

end TypedForms.Yaml
