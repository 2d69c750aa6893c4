import Mathlib.Algebra.GroupWithZero.Nat
import Mathlib.Data.List.Basic
import Mathlib.Data.List.Induction
import TypedForms.Distinct
import TypedForms.Log

/-! The summary of a log. It is made in one pass over the log, entry by entry; what comes out is one
row for each file, whatever runs of other files stand between those of the file. -/
namespace TypedForms

namespace Log

variable {entries : List LogEntry} {e : LogEntry} {file : String} {row : Row} {rows' : List Row}

/-- The row of one file; there is none for a file that was never logged. -/
def row? (entries : List LogEntry) (file : String) : Option Row :=
  let own := entries.filter (·.file == file)
  own.getLast?.map fun latest => ⟨latest, own.length⟩

/-- The rows of the files, one file after the other. -/
def rowsByFile (entries : List LogEntry) : List Row :=
  (distinct (entries.map (·.file))).filterMap (row? entries)

/-- One row for each file of the log, in the order in which the files first appear, with the last
entry for the file and the number of entries for it. -/
structure SumsUp (entries : List LogEntry) (rows : List Row) : Prop where
  files : ∀ file, (∃ row ∈ rows, row.latest.file = file) ↔ ∃ e ∈ entries, e.file = file
  order : rows.Pairwise fun first second =>
    (entries.map (·.file)).idxOf first.latest.file < (entries.map (·.file)).idxOf second.latest.file
  latest : ∀ row ∈ rows, ∃ before after, entries = before ++ row.latest :: after ∧
    ∀ e ∈ after, e.file ≠ row.latest.file
  runs : ∀ row ∈ rows, row.runs = entries.countP (·.file = row.latest.file)

/-! The row of one file. -/

theorem row?_concat : row? (entries ++ [e]) file =
    if e.file = file then some ⟨e, entries.countP (·.file = file) + 1⟩ else row? entries file := by
  unfold row?
  by_cases own : e.file = file
  · simp [own, List.countP_eq_length_filter, Bool.beq_eq_decide_eq]
  · simp [own]

theorem of_row?_eq_some (found : row? entries file = some row) :
    row.latest.file = file ∧ row.runs = entries.countP (·.file = file) ∧
      ∃ before after, entries = before ++ row.latest :: after ∧ ∀ e ∈ after, e.file ≠ file := by
  induction entries using List.reverseRecOn with
  | nil => simp [row?] at found
  | append_singleton entries e ih =>
    rw [row?_concat] at found
    split at found
    next own =>
      obtain rfl := Option.some.inj found
      exact ⟨own, by simp [own], entries, [], rfl, by simp⟩
    next other =>
      obtain ⟨same, runs, before, after, split, later⟩ := ih found
      refine ⟨same, by simp [other, runs], before, after ++ [e], by simp [split], ?_⟩
      intro e' member
      rcases List.mem_append.mp member with earlier | last
      · exact later e' earlier
      · rw [List.mem_singleton.mp last]
        exact other

theorem exists_row? (logged : file ∈ entries.map (·.file)) :
    ∃ row, row? entries file = some row := by
  obtain ⟨e, member, own⟩ := List.mem_map.mp logged
  have filled : entries.filter (·.file == file) ≠ [] := by
    intro nothing
    rw [List.filter_eq_nil_iff] at nothing
    exact nothing e member (by simp [own])
  rw [row?, List.getLast?_eq_some_getLast filled]
  exact ⟨_, rfl⟩

/-! The rows of all files. -/

theorem map_file_rowsByFile :
    (rowsByFile entries).map (·.latest.file) = distinct (entries.map (·.file)) := by
  have named : ∀ file ∈ distinct (entries.map (·.file)),
      (row? entries file).map (·.latest.file) = some file := by
    intro file member
    obtain ⟨row, found⟩ := exists_row? (mem_distinct.mp member)
    rw [found, Option.map_some, (of_row?_eq_some found).1]
  rw [rowsByFile, List.map_filterMap, List.filterMap_congr named, List.filterMap_some]

theorem of_mem_rowsByFile (member : row ∈ rowsByFile entries) :
    row? entries row.latest.file = some row := by
  obtain ⟨file, _, found⟩ := List.mem_filterMap.mp member
  rw [(of_row?_eq_some found).1]
  exact found

theorem sumsUp_rowsByFile : SumsUp entries (rowsByFile entries) where
  files := by
    intro file
    have same : file ∈ (rowsByFile entries).map (·.latest.file) ↔ file ∈ entries.map (·.file) := by
      rw [map_file_rowsByFile, mem_distinct]
    simpa using same
  order := by
    have files := pairwise_idxOf_distinct (entries.map (·.file))
    rw [← map_file_rowsByFile, List.pairwise_map] at files
    exact files
  latest := by
    intro row member
    exact (of_row?_eq_some (of_mem_rowsByFile member)).2.2
  runs := by
    intro row member
    exact (of_row?_eq_some (of_mem_rowsByFile member)).2.1

/-! One pass. -/

theorem tally_of_fresh (fresh : ∀ row ∈ rows', row.latest.file ≠ e.file) :
    tally rows' e = rows' ++ [⟨e, 1⟩] := by
  induction rows' with
  | nil => rfl
  | cons row rows' ih =>
    obtain ⟨first, rest⟩ := List.forall_mem_cons.mp fresh
    rw [tally, if_neg first, ih rest, List.cons_append]

theorem row?_concat_of_ne {files : List String} (other : e.file ∉ files) :
    files.filterMap (row? (entries ++ [e])) = files.filterMap (row? entries) := by
  apply List.filterMap_congr
  intro file member
  have different : e.file ≠ file := by
    rintro rfl
    exact other member
  rw [row?_concat, if_neg different]

theorem tally_filterMap {files : List String} (different : files.Nodup)
    (logged : ∀ file ∈ files, file ∈ entries.map (·.file)) (known : e.file ∈ files) :
    tally (files.filterMap (row? entries)) e = files.filterMap (row? (entries ++ [e])) := by
  induction files with
  | nil => simp at known
  | cons file files ih =>
    obtain ⟨fresh, different⟩ := List.nodup_cons.mp different
    obtain ⟨first, rest⟩ := List.forall_mem_cons.mp logged
    obtain ⟨row, found⟩ := exists_row? first
    obtain ⟨same, runs, -⟩ := of_row?_eq_some found
    rw [List.filterMap_cons_some found, tally]
    by_cases own : e.file = file
    · have after : row? (entries ++ [e]) file = some ⟨e, row.runs + 1⟩ := by
        rw [row?_concat, if_pos own, runs]
      rw [if_pos (same.trans own.symm), List.filterMap_cons_some after,
        row?_concat_of_ne (own ▸ fresh)]
    · have after : row? (entries ++ [e]) file = some row := by
        rw [row?_concat, if_neg own, found]
      rw [same, if_neg (Ne.symm own), List.filterMap_cons_some after,
        ih different rest (List.mem_of_ne_of_mem own known)]

theorem rows_concat : rows (entries ++ [e]) = tally (rows entries) e := by
  rw [rows, List.foldl_append, List.foldl_cons, List.foldl_nil, rows]

theorem rowsByFile_concat : rowsByFile (entries ++ [e]) = tally (rowsByFile entries) e := by
  have members : ∀ file ∈ distinct (entries.map (·.file)), file ∈ entries.map (·.file) :=
    fun file => mem_distinct.mp
  rw [rowsByFile, List.map_append, List.map_singleton, distinct_concat]
  split
  next known =>
    exact (tally_filterMap (nodup_distinct _) members (mem_distinct.mpr known)).symm
  next fresh =>
    have others : ∀ row ∈ rowsByFile entries, row.latest.file ≠ e.file := by
      intro row member same
      have listed : e.file ∈ (rowsByFile entries).map (·.latest.file) :=
        List.mem_map.mpr ⟨row, member, same⟩
      rw [map_file_rowsByFile] at listed
      exact fresh (members _ listed)
    have first : row? (entries ++ [e]) e.file = some ⟨e, 1⟩ := by
      rw [row?_concat, if_pos rfl, List.countP_eq_zero.mpr]
      intro e' member same
      exact fresh (List.mem_map.mpr ⟨e', member, of_decide_eq_true same⟩)
    rw [tally_of_fresh others, List.filterMap_append, List.filterMap_cons_some first,
      row?_concat_of_ne fun listed => fresh (members _ listed)]
    rfl

/-- One pass over the entries comes to the rows of the files. -/
theorem rows_eq_rowsByFile : rows entries = rowsByFile entries := by
  induction entries using List.reverseRecOn with
  | nil => rfl
  | append_singleton entries e ih => rw [rows_concat, ih, rowsByFile_concat]

theorem sum_runs_tally : ((tally rows' e).map (·.runs)).sum = (rows'.map (·.runs)).sum + 1 := by
  induction rows' with
  | nil => rfl
  | cons row rows' ih =>
    rw [tally]
    split
    · simp only [List.map_cons, List.sum_cons]
      omega
    · simp only [List.map_cons, List.sum_cons, ih]
      omega

theorem sum_runs_rows : ((rows entries).map (·.runs)).sum = entries.length := by
  induction entries using List.reverseRecOn with
  | nil => rfl
  | append_singleton entries e ih =>
    rw [rows_concat, sum_runs_tally, ih, List.length_append, List.length_singleton]

/-- For every log, the summary shows the rows that one pass over its entries leaves behind: one row
for each file, in the order in which the files first appear, with the status and the detail of the
last entry for the file and the number of entries for it. The same rows come out file by file. The
last line counts the rows, the rows that are not `ok`, and the entries; these are as many as the
rows have together. -/
theorem summary_is_fold_of_log (entries : List LogEntry) :
    rows entries = entries.foldl tally [] ∧
    rows entries = rowsByFile entries ∧
    SumsUp entries (rows entries) ∧
    ((rows entries).map (·.runs)).sum = entries.length ∧
    summary entries =
      String.join ((rows entries).map fun row =>
        row.latest.status ++ "\t" ++ row.latest.file ++ "\t" ++ row.latest.detail ++ " (" ++
          toString row.runs ++ " run(s))\n") ++
      toString (rows entries).length ++ " file(s), " ++
        toString ((rows entries).countP (·.latest.status ≠ "ok")) ++ " failing, " ++
        toString entries.length ++ " run(s) logged\n" := by
  refine ⟨rfl, rows_eq_rowsByFile, rows_eq_rowsByFile ▸ sumsUp_rowsByFile, sum_runs_rows, ?_⟩
  have failing : (rows entries).countP (·.latest.status ≠ "ok") =
      ((rows entries).filter (·.latest.status != "ok")).length := by
    simp [List.countP_eq_length_filter, bne, Bool.beq_eq_decide_eq]
  rw [failing]
  rfl

-- the runs of two files take turns
example : summary [⟨"1", "ok", "a", "num"⟩, ⟨"2", "syntax", "b", "1 syntax error(s)"⟩,
      ⟨"3", "ill-typed", "a", "2 type error(s)"⟩, ⟨"4", "ok", "b", "str"⟩] =
    "ill-typed\ta\t2 type error(s) (2 run(s))\nok\tb\tstr (2 run(s))\n" ++
      "2 file(s), 1 failing, 4 run(s) logged\n" := by
  decide +kernel

end Log

end TypedForms
