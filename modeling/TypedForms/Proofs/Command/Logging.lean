import TypedForms.Command
import TypedForms.Proofs.FileTree
import TypedForms.Proofs.Log

/-! Appending to a log and reading it. An append that succeeds leaves the log with its old content
and the new lines after it; so a log that was not there at first consists of what was appended to
it, and can be read. -/
namespace TypedForms

theorem Text.Utf8.bytes_append {first second : String} :
    bytes (first ++ second) = bytes first ++ bytes second := by
  simp [bytes, String.toByteArray_append]

namespace Command

variable {w : World} {log : String} {tree tree' : FileTree} {place : Place} {bytes : List UInt8}
  {outcomes : List Outcome} {batches : List Log.Batch}

/-- A log with that content stands at a place, and can be written to and locked. -/
structure Stands (w : World) (log : String) (place : Place) (bytes : List UInt8)
    (tree : FileTree) : Prop where
  opens : tree.Opens w.place log .write place
  content : tree.content place = bytes
  locks : ∃ lock, tree.Opens w.place (log ++ ".lock") .read lock

theorem lockLog_eq_ok_iff : lockLog w tree log = .ok tree' ↔
    ∃ lock, tree.openFile w.place (log ++ ".lock") .read = .ok (tree', lock) := by
  unfold lockLog
  cases tree.openFile w.place (log ++ ".lock") .read with
  | error e => simp
  | ok opened =>
    obtain ⟨locked, lock⟩ := opened
    simp

/-- Each of the four steps of an append has to succeed. -/
theorem appendLog_eq_none_iff : appendLog w log outcomes = (tree, none) ↔
    ∃ made locked opened place, w.tree.makeDirectories w.place (Path.directory log) = (made, none) ∧
      lockLog w made log = .ok locked ∧
      locked.openFile w.place log .write = .ok (opened, place) ∧
      opened.put place log (Text.Utf8.bytes (Log.lines w.now outcomes)) = .ok tree := by
  unfold appendLog
  constructor
  · intro done
    split at done
    next => cases done
    next made makes =>
      split at done
      next => cases done
      next locked locks =>
        split at done
        next => cases done
        next opened place opens =>
          simp only at done
          split at done
          next => cases done
          next written =>
            cases done
            exact ⟨made, locked, opened, place, makes, locks, opens, written⟩
  · rintro ⟨made, locked, opened, place, makes, locks, opens, written⟩
    simp only [makes, locks, opens, written]

/-- An append that succeeds adds its lines to the log, and takes nothing away. -/
theorem stands_of_appendLog (done : appendLog w log outcomes = (tree, none)) :
    w.tree.Keeps tree ∧
      ∃ place, Stands w log place
        (w.tree.content place ++ Text.Utf8.bytes (Log.lines w.now outcomes)) tree := by
  obtain ⟨made, locked, opened, place, makes, locks, opens, written⟩ :=
    appendLog_eq_none_iff.mp done
  have directoriesMade : w.tree.Extends made := by
    have extended := @FileTree.Extends.makeAll w.tree w.place
      (FileTree.leadingPaths (Path.directory log))
    rwa [← FileTree.makeDirectories, makes] at extended
  obtain ⟨lock, lockOpened⟩ := lockLog_eq_ok_iff.mp locks
  obtain ⟨lockMade, lockOpens⟩ := FileTree.extends_openFile lockOpened
  obtain ⟨logMade, logOpens⟩ := FileTree.extends_openFile opens
  have before := (directoriesMade.trans lockMade).trans logMade
  obtain ⟨keeps, added⟩ := FileTree.of_put_eq_ok logOpens written
  refine ⟨before.keeps.trans keeps, place, logOpens.keep keeps, ?_, lock,
    (lockOpens.keep logMade.keeps).keep keeps⟩
  rw [added, before.content place]

/-- The tree after a batch has been appended to a log, if that succeeds. -/
def appendBatch? (w : World) (log : String) (tree : FileTree) (batch : Log.Batch) :
    Option FileTree :=
  match appendLog { w with tree, now := batch.now } log batch.outcomes with
  | (tree, none) => some tree
  | (_, some _) => none

/-- The tree after batches have been appended to a log one after the other, if each append
succeeds. -/
def appendBatches? (w : World) (log : String) (batches : List Log.Batch) : Option FileTree :=
  batches.foldlM (appendBatch? w log) w.tree

theorem stands_of_appendBatch? {batch : Log.Batch}
    (done : appendBatch? w log tree batch = some tree') :
    tree.Keeps tree' ∧
      ∃ place, Stands w log place
        (tree.content place ++ Text.Utf8.bytes (Log.lines batch.now batch.outcomes)) tree' := by
  unfold appendBatch? at done
  split at done
  next appended =>
    cases done
    obtain ⟨keeps, place, opens, content, locks⟩ := stands_of_appendLog appended
    exact ⟨keeps, place, opens, content, locks⟩
  next => cases done

theorem foldlM_cons_eq_some {batch : Log.Batch}
    (done : (batch :: batches).foldlM (appendBatch? w log) tree = some tree') :
    ∃ next, appendBatch? w log tree batch = some next ∧
      batches.foldlM (appendBatch? w log) next = some tree' := by
  rwa [List.foldlM_cons, Option.bind_eq_bind, Option.bind_eq_some_iff] at done

theorem keeps_of_foldlM (done : batches.foldlM (appendBatch? w log) tree = some tree') :
    tree.Keeps tree' := by
  induction batches generalizing tree with
  | nil =>
    cases done
    exact .refl
  | cons batch batches ih =>
    obtain ⟨next, first, rest⟩ := foldlM_cons_eq_some done
    exact (stands_of_appendBatch? first).1.trans (ih rest)

/-- After batches have been appended, the log has its old content and the lines of the batches. -/
theorem stands_of_foldlM (someBatch : batches ≠ [])
    (done : batches.foldlM (appendBatch? w log) tree = some tree') :
    ∃ place, Stands w log place
      (tree.content place ++ Text.Utf8.bytes (Log.textOf batches)) tree' := by
  induction batches generalizing tree with
  | nil => contradiction
  | cons batch batches ih =>
    obtain ⟨next, first, rest⟩ := foldlM_cons_eq_some done
    obtain ⟨-, place, stands⟩ := stands_of_appendBatch? first
    refine ⟨place, ?_⟩
    rw [Log.textOf_cons, Text.Utf8.bytes_append, ← List.append_assoc]
    cases batches with
    | nil =>
      cases rest
      have nothing : Text.Utf8.bytes (Log.textOf []) = [] := by decide
      rwa [nothing, List.append_nil]
    | cons second batches =>
      obtain ⟨place', later⟩ := ih (by simp) rest
      -- the log stays where it was after the first batch
      have still := (keeps_of_foldlM rest).resolve stands.opens.leads
      obtain rfl : place = place' := Except.ok.inj (still.symm.trans later.opens.leads)
      rwa [stands.content] at later

/-- A log that stands and can be read is read as what its content says. -/
theorem readLog_eq_ok_iff {entries : List LogEntry} (stands : Stands w log place bytes tree)
    (readable : tree.faults place = .free) :
    (readLog { w with tree } log).2 = .ok entries ↔
      Log.read (Text.Utf8.text bytes) = .ok entries := by
  obtain ⟨opens, content, lock, lockOpens⟩ := stands
  have locked : lockLog { w with tree } tree log = .ok tree :=
    lockLog_eq_ok_iff.mpr ⟨lock, lockOpens.openFile_eq⟩
  have opensToRead : tree.Opens w.place log .read place :=
    ⟨opens.leads, opens.isFile, by rw [readable]; rfl⟩
  have reads : tree.read w.place log = .ok bytes := by
    rw [opensToRead.read_eq (by rw [readable]; rfl), content]
  simp only [readLog, locked, reads]
  cases Log.read (Text.Utf8.text bytes) with
  | ok found => simp
  | error malformed => simp

/-- A log that was not there consists of what was appended to it. It is read back exactly if no file
name among the results contains a tab or a newline: there is one entry for each result, in order,
with its time, status and file, and with its detail on one line. -/
theorem log_reads_back_iff (w : World) (log : String) (batches : List Log.Batch) (tree : FileTree)
    (someBatch : batches ≠ []) (appended : appendBatches? w log batches = some tree)
    (absent : ∀ place, tree.resolve w.place log = .ok place → w.tree.node? place = none) :
    (readLog { w with tree } log).2 = .ok (batches.flatMap Log.Batch.logged) ↔
      ∀ batch ∈ batches, ∀ r ∈ batch.outcomes, '\t' ∉ r.file.toList ∧ '\n' ∉ r.file.toList := by
  obtain ⟨place, stands⟩ := stands_of_foldlM someBatch appended
  have fresh := absent place stands.opens.leads
  have readable : tree.faults place = .free := by
    rw [(keeps_of_foldlM appended).faults, FileTree.faults_of_absent fresh]
  rw [FileTree.content_of_absent fresh, List.nil_append] at stands
  rw [readLog_eq_ok_iff stands readable, Text.Utf8.text_bytes]
  exact Log.read_textOf_iff

/-- A world with an empty working directory. -/
def emptyWorld : World where
  tree := FileTree.empty.insert ["w"] (.directory .free)
  place := ["w"]
  workingDir := .ok "/w"
  vars := fun _ => ""
  input := []
  now := ⟨0⟩
  release := .unreleased

/-- Three batches, the second without outcomes. One detail has a tab and a newline in it. -/
def threeBatches : List Log.Batch :=
  [⟨⟨0⟩, [⟨"a.tl", .checked .num []⟩, ⟨"b c.tl", .unreadable "no\tsuch\nfile"⟩]⟩, ⟨⟨86400⟩, []⟩,
    ⟨⟨86401⟩, [⟨"", .misread [⟨.nowhere, .noResult⟩]⟩]⟩]

theorem log_reads_back_iff_of_details :
    ∃ tree, appendBatches? emptyWorld "out/results.log" threeBatches = some tree ∧
      (∀ place, tree.resolve emptyWorld.place "out/results.log" = .ok place →
        emptyWorld.tree.node? place = none) ∧
      (readLog { emptyWorld with tree } "out/results.log").2 = .ok
        [⟨"1970-01-01T00:00:00Z", "ok", "a.tl", "num"⟩,
          ⟨"1970-01-01T00:00:00Z", "unreadable", "b c.tl", "no\tsuch file"⟩,
          ⟨"1970-01-02T00:00:01Z", "syntax", "", "1 syntax error(s)"⟩] := by
  have done : (appendBatches? emptyWorld "out/results.log" threeBatches).isSome = true := by
    decide +kernel
  have unused : (appendBatches? emptyWorld "out/results.log" threeBatches).all (fun tree =>
      (tree.resolve emptyWorld.place "out/results.log").toOption.all fun place =>
        (emptyWorld.tree.node? place).isNone) = true := by
    decide +kernel
  have fits : ∀ batch ∈ threeBatches, ∀ r ∈ batch.outcomes,
      '\t' ∉ r.file.toList ∧ '\n' ∉ r.file.toList := by
    decide +kernel
  obtain ⟨tree, appended⟩ := Option.isSome_iff_exists.mp done
  have absent : ∀ place, tree.resolve emptyWorld.place "out/results.log" = .ok place →
      emptyWorld.tree.node? place = none := by
    intro place leads
    simpa [appended, leads, Except.toOption] using unused
  refine ⟨tree, appended, absent, ?_⟩
  rw [(log_reads_back_iff emptyWorld _ threeBatches tree (by decide) appended absent).mpr fits]
  decide +kernel

end Command

end TypedForms
