import Mathlib.Data.List.Forall2
import TypedForms.Log
import TypedForms.Proofs.Text.Split

/-! Logs are read back. An entry survives its line in the log if its file name fits in a field; the
detail may be any text, because it is put on one line and stands last. Nothing else survives: the
file name of an entry that was read always fits in a field. -/
namespace TypedForms

/-! Texts that fit in a field. -/

/-- The text neither ends the field that it stands in, nor the line. -/
def Log.FitsField (text : String) : Prop := '\t' ∉ text.toList ∧ '\n' ∉ text.toList

namespace Log.FitsField

theorem append {first second : String} (left : FitsField first) (right : FitsField second) :
    FitsField (first ++ second) := by
  simp only [FitsField, String.toList_append, List.mem_append, not_or]
  exact ⟨⟨left.1, right.1⟩, left.2, right.2⟩

theorem padded {width n : Nat} : FitsField (Timestamp.padded width n) := by
  have digits : ∀ c ∈ (Timestamp.padded width n).toList, c.isDigit = true := by
    intro c member
    simp only [Timestamp.padded, String.toList_ofList, List.mem_append,
      List.mem_replicate] at member
    rcases member with ⟨-, rfl⟩ | digit
    · rfl
    · exact Nat.isDigit_of_mem_toDigits (by decide) (by decide) digit
  constructor
  · intro tab
    exact absurd (digits _ tab) (by decide)
  · intro newline
    exact absurd (digits _ newline) (by decide)

theorem time {now : Timestamp} : FitsField now.render := by
  unfold Timestamp.render
  dsimp only
  have sign : ∀ year : Int, FitsField (if year < 0 then "-" else "") := by
    intro year
    split <;> simp [FitsField]
  have marks : FitsField "-" ∧ FitsField "T" ∧ FitsField ":" ∧ FitsField "Z" := by
    simp [FitsField]
  obtain ⟨dash, start, colon, zone⟩ := marks
  exact ((((((((((((sign _).append padded).append dash).append padded).append dash).append
    padded).append start).append padded).append colon).append padded).append colon).append
    padded).append zone

theorem status {r : Outcome} : FitsField r.status := by
  unfold Outcome.status
  split
  · simp [FitsField]
  · simp [FitsField]
  · split <;> simp [FitsField]

end Log.FitsField

/-! Lines. -/

namespace LogEntry

open Log (FitsField)

/-- The entry for an outcome as it stands in the log, where its detail is on one line. -/
def logged (now : Timestamp) (r : Outcome) : LogEntry :=
  { ofOutcome now r with detail := Text.replaceChar '\n' ' ' r.detail }

theorem ofLine?_eq_some_iff {line : List Char} {e : LogEntry} :
    ofLine? line = some e ↔
      line = e.time.toList ++ '\t' :: (e.status.toList ++ '\t' ::
        (e.file.toList ++ '\t' :: e.detail.toList)) ∧
      '\t' ∉ e.time.toList ∧ '\t' ∉ e.status.toList ∧ '\t' ∉ e.file.toList := by
  obtain ⟨time, status, file, detail⟩ := e
  simp only [ofLine?, Option.bind_eq_bind, Option.bind_eq_some_iff, Prod.exists,
    Text.cut?_eq_some_iff, Option.some.injEq, mk.injEq]
  constructor
  · rintro ⟨_, _, ⟨rfl, noTab⟩, _, _, ⟨rfl, noTab'⟩, _, _, ⟨rfl, noTab''⟩, rfl, rfl, rfl, rfl⟩
    simp only [String.toList_ofList, true_and]
    exact ⟨noTab, noTab', noTab''⟩
  · rintro ⟨rfl, noTab, noTab', noTab''⟩
    exact ⟨_, _, ⟨rfl, noTab⟩, _, _, ⟨rfl, noTab'⟩, _, _, ⟨rfl, noTab''⟩,
      String.ofList_toList, String.ofList_toList, String.ofList_toList, String.ofList_toList⟩

variable {now : Timestamp} {r : Outcome}

theorem toList_line : (ofOutcome now r).line.toList =
    (logged now r).time.toList ++ '\t' :: ((logged now r).status.toList ++ '\t' ::
      ((logged now r).file.toList ++ '\t' :: (logged now r).detail.toList)) := by
  simp [line, logged, ofOutcome, Text.joined]

theorem not_mem_detail : '\n' ∉ (logged now r).detail.toList := by
  simp only [logged, Text.replaceChar, String.toList_ofList, List.mem_map, not_exists, not_and]
  intro c _
  split
  · decide
  · assumption

/-- The line of an outcome is one line, and its entry is read from it, if its file name fits in a
field. -/
theorem reads_line (fits : FitsField r.file) :
    '\n' ∉ (ofOutcome now r).line.toList ∧
      ofLine? (ofOutcome now r).line.toList = some (logged now r) := by
  have time : FitsField (logged now r).time := .time
  have status : FitsField (logged now r).status := .status
  have file : FitsField (logged now r).file := fits
  rw [ofLine?_eq_some_iff, toList_line]
  refine ⟨?_, rfl, time.1, status.1, file.1⟩
  simp only [List.mem_append, List.mem_cons, not_or]
  exact ⟨time.2, by decide, status.2, by decide, file.2, by decide, not_mem_detail⟩

end LogEntry

/-! Logs. -/

namespace Log

theorem readLines_of_forall₂ {lines : List (List Char)} {entries : List LogEntry}
    (each : List.Forall₂ (fun line e => LogEntry.ofLine? line = some e) lines entries) :
    readLines (lines ++ [[]]) = .ok entries := by
  induction each with
  | nil => rfl
  | @cons line e lines entries first _ ih =>
    have filled : line.isEmpty = false := by
      cases line with
      | nil => cases first
      | cons => rfl
    rw [List.cons_append, readLines, filled, first, ih]
    rfl

theorem mem_lines_of_readLines {lines : List (List Char)} {entries : List LogEntry}
    (read : readLines lines = .ok entries) :
    ∀ e ∈ entries, ∃ line ∈ lines, LogEntry.ofLine? line = some e := by
  induction lines generalizing entries with
  | nil =>
    cases read
    simp
  | cons line lines ih =>
    rw [readLines] at read
    intro e member
    split at read
    next =>
      obtain ⟨later, laterMem, found⟩ := ih read e member
      exact ⟨later, List.mem_cons_of_mem _ laterMem, found⟩
    next =>
      split at read
      next => cases read
      next first firstFound =>
        cases rest : readLines lines with
        | error malformed =>
          rw [rest] at read
          cases read
        | ok others =>
          rw [rest] at read
          cases read
          rcases List.mem_cons.mp member with rfl | other
          · exact ⟨line, List.mem_cons_self, firstFound⟩
          · obtain ⟨later, laterMem, found⟩ := ih rest e other
            exact ⟨later, List.mem_cons_of_mem _ laterMem, found⟩

/-- An entry that was read has a file name that fits in a field. -/
theorem fitsField_of_read {text : String} {entries : List LogEntry}
    (read : Log.read text = .ok entries) : ∀ e ∈ entries, FitsField e.file := by
  intro e member
  obtain ⟨line, lineMem, found⟩ := mem_lines_of_readLines read e member
  obtain ⟨rfl, -, -, noTab⟩ := LogEntry.ofLine?_eq_some_iff.mp found
  have noNewline := Text.not_mem_of_mem_split lineMem
  simp only [List.mem_append, List.mem_cons, not_or] at noNewline
  exact ⟨noTab, noNewline.2.2.2.2.1⟩

/-- Lines below each other are read back exactly if every file name in them fits in a field. -/
theorem read_lines_iff {text : String} {dated : List (Timestamp × Outcome)}
    (written : text.toList =
      (dated.map fun d => (LogEntry.ofOutcome d.1 d.2).line.toList).flatMap (· ++ ['\n'])) :
    Log.read text = .ok (dated.map fun d => LogEntry.logged d.1 d.2) ↔
      ∀ d ∈ dated, FitsField d.2.file := by
  constructor
  · intro read d member
    exact fitsField_of_read read _ (List.mem_map_of_mem member)
  · intro fits
    have unbroken : ∀ line ∈ dated.map fun d => (LogEntry.ofOutcome d.1 d.2).line.toList,
        '\n' ∉ line := by
      intro line member
      obtain ⟨d, dMem, rfl⟩ := List.mem_map.mp member
      exact (LogEntry.reads_line (fits d dMem)).1
    rw [Log.read, written, Text.split_flatMap unbroken]
    apply readLines_of_forall₂
    rw [List.forall₂_map_left_iff, List.forall₂_map_right_iff]
    exact List.forall₂_same.mpr fun d dMem => (LogEntry.reads_line (fits d dMem)).2

/-- Outcomes that are appended to a log at one time. -/
structure Batch where
  now : Timestamp
  outcomes : List Outcome

/-- The entries of a batch as they stand in the log. -/
def Batch.logged (batch : Batch) : List LogEntry := batch.outcomes.map (LogEntry.logged batch.now)

/-- The text of batches below each other. -/
def textOf (batches : List Batch) : String :=
  String.join (batches.map fun batch => lines batch.now batch.outcomes)

theorem textOf_cons {batch : Batch} {batches : List Batch} :
    textOf (batch :: batches) = lines batch.now batch.outcomes ++ textOf batches := by
  rw [textOf, List.map_cons, String.join_cons]
  rfl

theorem read_textOf_iff {batches : List Batch} :
    Log.read (textOf batches) = .ok (batches.flatMap Batch.logged) ↔
      ∀ batch ∈ batches, ∀ r ∈ batch.outcomes, FitsField r.file := by
  have written : (textOf batches).toList =
      ((batches.flatMap fun batch => batch.outcomes.map (batch.now, ·)).map fun d =>
        (LogEntry.ofOutcome d.1 d.2).line.toList).flatMap (· ++ ['\n']) := by
    simp [textOf, lines, String.toList_join, List.flatMap_map, List.flatMap_assoc]
  have readIff := read_lines_iff written
  simp only [List.map_flatMap, List.map_map, Function.comp_def, List.forall_mem_flatMap,
    List.forall_mem_map] at readIff
  exact readIff

end Log

end TypedForms
