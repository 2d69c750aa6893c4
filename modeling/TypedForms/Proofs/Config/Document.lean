import TypedForms.Config.Decode
import TypedForms.Proofs.Yaml.Entries
import TypedForms.Proofs.Yaml.Nodes

/-! The text of a configuration as a document. Where each field is a text that can stand in a
document as it is, the configuration is read back from its own text. -/
namespace TypedForms.Config

open Yaml.Scanner (Stage endsGap_of_nextLine)
open Yaml (Tokens Source Node Document Reader IsPlain IsPlainText NextLine isLineChar plainNode
  run_bind_ok)

/-- Each field can be written without quotes. -/
structure Fits (c : Config) : Prop where
  readType : IsPlainText c.readType
  policy : IsPlainText c.policy
  resultType : IsPlainText c.resultType

variable {c : Config}

/-! Its lines. -/

/-- A line with a key and a value, and what follows it. -/
def entry (key value : String) (more : List Char) : List Char :=
  key.toList ++ ':' :: ' ' :: (value.toList ++ '\n' :: more)

/-- A line with a key alone. -/
def heading (key : String) (more : List Char) : List Char := key.toList ++ ':' :: '\n' :: more

def evalLines (c : Config) : List Char :=
  heading "eval" (List.replicate 2 ' ' ++ entry "policy" c.policy
    (List.replicate 2 ' ' ++ entry "result_type" c.resultType []))

/-- The four lines of a configuration. -/
def lines (c : Config) : List Char := entry "read_type" c.readType c.evalLines

theorem toList_writeField {indent : Nat} {key value : String} (plain : IsPlain value.toList) :
    (writeField indent key value).toList = List.replicate indent ' ' ++ entry key value [] := by
  have nonempty : (value == "") = false := by
    rw [beq_eq_false_iff_ne]
    rintro rfl
    obtain ⟨_, ⟨⟩, _⟩ := plain.starts
  rw [writeField, nonempty, Yaml.writeText_of_isPlain plain, entry]
  simp

theorem entry_append {key value : String} {more after : List Char} :
    entry key value more ++ after = entry key value (more ++ after) := by
  simp [entry]

theorem heading_append {key : String} {more after : List Char} :
    heading key more ++ after = heading key (more ++ after) := by
  simp [heading]

theorem Fits.toList_write (fits : c.Fits) : c.write.toList = c.lines := by
  have read := fits.readType.isPlain
  have policy := fits.policy.isPlain
  have result := fits.resultType.isPlain
  have inner : writeField 2 "policy" c.policy ++ writeField 2 "result_type" c.resultType ≠ "" := by
    intro empty
    have chars := congrArg String.toList empty
    rw [String.toList_append, toList_writeField policy] at chars
    cases chars
  have eval : "eval:\n".toList = heading "eval" [] := rfl
  unfold write
  dsimp only
  rw [if_neg (by simpa using inner)]
  simp only [String.toList_append, toList_writeField read, toList_writeField policy,
    toList_writeField result, eval, lines, evalLines, entry_append, heading_append,
    List.append_assoc, List.nil_append, List.replicate_zero]

theorem isLineChar_entry {key value : String} {more : List Char} (keyPlain : IsPlain key.toList)
    (valuePlain : IsPlain value.toList) (rest : ∀ d ∈ more, isLineChar d = true) :
    ∀ d ∈ entry key value more, isLineChar d = true := by
  refine List.forall_mem_append.mpr ⟨keyPlain.isLineChar, ?_⟩
  refine List.forall_mem_cons.mpr ⟨rfl, List.forall_mem_cons.mpr ⟨rfl, ?_⟩⟩
  exact List.forall_mem_append.mpr ⟨valuePlain.isLineChar, List.forall_mem_cons.mpr ⟨rfl, rest⟩⟩

theorem Fits.isLineChar_lines (fits : c.Fits) : ∀ d ∈ c.lines, isLineChar d = true := by
  have indent {more : List Char} (rest : ∀ d ∈ more, isLineChar d = true) :
      ∀ d ∈ List.replicate 2 ' ' ++ more, isLineChar d = true :=
    List.forall_mem_cons.mpr ⟨rfl, List.forall_mem_cons.mpr ⟨rfl, rest⟩⟩
  have evalKey : IsPlain "eval".toList := by decide
  have last := @isLineChar_entry "result_type" _ [] (by decide) fits.resultType.isPlain (by simp)
  have inner := @isLineChar_entry "policy" _ _ (by decide) fits.policy.isPlain (indent last)
  refine isLineChar_entry (by decide) fits.readType.isPlain ?_
  refine List.forall_mem_append.mpr ⟨evalKey.isLineChar, ?_⟩
  exact List.forall_mem_cons.mpr ⟨rfl, List.forall_mem_cons.mpr ⟨rfl, indent inner⟩⟩

/-! Its tokens. -/

/-- The tokens of a line with a key and a value, after those that start the key. -/
def entryTokens (line : Nat) (key value : String) : List Yaml.Token :=
  [⟨.scalar true key, line⟩, ⟨.value, line⟩, ⟨.scalar true value, line⟩]

def evalTokens (c : Config) : List Yaml.Token :=
  [⟨.blockMappingStart, 2⟩, ⟨.key, 2⟩] ++ entryTokens 2 "policy" c.policy ++
    [⟨.key, 3⟩] ++ entryTokens 3 "result_type" c.resultType ++ [⟨.blockEnd, 4⟩]

def tokens (c : Config) : List Yaml.Token :=
  [⟨.blockMappingStart, 0⟩, ⟨.key, 0⟩] ++ entryTokens 0 "read_type" c.readType ++
    [⟨.key, 1⟩, ⟨.scalar true "eval", 1⟩, ⟨.value, 1⟩] ++ c.evalTokens ++
    [⟨.blockEnd, 4⟩, ⟨.streamEnd, 4⟩]

theorem pause_start (c : Config) :
    (Yaml.Scanner.ofSource ⟨c.lines, true⟩).Pause [] [] true 0 0 c.lines := by
  have unmarked : (c.lines.head? == some Yaml.byteOrderMark) = false := rfl
  refine ⟨⟨⟨rfl, unmarked, rfl⟩, rfl, Nat.le_refl 0, rfl, ⟨_, rfl, rfl⟩⟩, rfl, rfl, rfl, ?_⟩
  exact ⟨rfl, rfl, rfl⟩

theorem Fits.tokens_lines (fits : c.Fits) : Tokens.ofSource ⟨c.lines, true⟩ = ⟨c.tokens, none⟩ := by
  have read := fits.readType.isPlain
  have policy := fits.policy.isPlain
  have result := fits.resultType.isPlain
  have readKey : IsPlain "read_type".toList := by decide
  have evalKey : IsPlain "eval".toList := by decide
  have policyKey : IsPlain "policy".toList := by decide
  have resultKey : IsPlain "result_type".toList := by decide
  -- three steps for each of the entries, two for the key alone, and one for the end
  obtain ⟨fuel, enough⟩ : ∃ fuel, c.lines.length + 1 = fuel + 12 := by
    have word : "read_type".toList.length = 9 := rfl
    have length : 11 ≤ c.lines.length := by
      rw [lines, entry, List.length_append, List.length_cons, List.length_cons]
      omega
    exact ⟨c.lines.length - 11, by omega⟩
  have start := (pause_start c).stage (endsGap_of_nextLine readKey.nextLine)
  obtain ⟨first, firstScanned, firstPause⟩ :=
    @Stage.exists_scan_entry _ _ _ 0 _ _ c.evalLines _ _ (fuel + 9) start readKey (by decide) read
      evalKey.nextLine (by simp) (by decide) (by decide)
  obtain ⟨second, secondScanned, secondStage⟩ :=
    @Stage.exists_scan_heading _ _ _ 2 _ _ _ _ (fuel + 7)
      (firstPause.stage (endsGap_of_nextLine evalKey.nextLine)) evalKey (by decide)
      policyKey.nextLine (by decide) (by decide)
  obtain ⟨third, thirdScanned, thirdPause⟩ :=
    @Stage.exists_scan_entry _ _ _ 2 _ _ _ _ _ (fuel + 4) secondStage policyKey (by decide) policy
      resultKey.nextLine (by decide) (by decide) (by decide)
  obtain ⟨fourth, fourthScanned, fourthPause⟩ :=
    @Stage.exists_scan_entry _ _ _ 0 _ _ [] _ _ (fuel + 1)
      (thirdPause.stage (endsGap_of_nextLine resultKey.nextLine)) resultKey (by decide) result
      (by simp [NextLine]) (by decide) (by decide) (by decide)
  rw [Tokens.ofSource, enough, firstScanned, secondScanned, thirdScanned, fourthScanned,
    fourthPause.scan_end]
  simp only [String.ofList_toList]
  rfl

/-! Its document. -/

def evalNode (c : Config) : Node :=
  .mapping 3 .map [(plainNode 3 "policy", plainNode 3 c.policy),
    (plainNode 4 "result_type", plainNode 4 c.resultType)]

def root (c : Config) : Node :=
  .mapping 1 .map [(plainNode 1 "read_type", plainNode 1 c.readType),
    (plainNode 2 "eval", c.evalNode)]

open Yaml.Reader in
/-- The twenty tokens are read with four steps for each and eight more. -/
theorem exists_read_tokens (c : Config) :
    ∃ after, (Reader.document 88).run ⟨⟨c.tokens, none⟩, [], [], [], 0⟩ = .ok (some c.root, after) ∧
      after.anchored = [] := by
  set k : Yaml.Cursor := ⟨⟨[], none⟩, [] ++ knownHandles, [], [], 0⟩
  have inner {more : List Yaml.Token} :
      (node 84 true true).run (k.at (c.evalTokens ++ more)) = .ok (c.evalNode, k.at more) := by
    refine node_mapping (blockEntries_entry rfl node_scalar ?_)
    exact blockEntries_entry rfl node_scalar blockEntries_end
  have outer : (blockEntries 87 0).run (k.at c.tokens.tail) = .ok (_, k.at [⟨.streamEnd, 4⟩]) :=
    blockEntries_entry rfl node_scalar (blockEntries_entry rfl inner blockEntries_end)
  have whole := @document_mapping ⟨⟨[], none⟩, [], [], [], 0⟩ _ _ _ _ _ k _ outer
  exact ⟨k.at [⟨.streamEnd, 4⟩], whole, rfl⟩

theorem Fits.ofText_write (fits : c.Fits) :
    Document.ofText c.write = .ok (some ⟨c.root, [], 88⟩) := by
  obtain ⟨after, read, anchored⟩ := exists_read_tokens c
  have source : Source.ofText c.write = ⟨c.lines, true⟩ := by
    rw [Source.ofText_eq (fits.toList_write ▸ fits.isLineChar_lines), fits.toList_write]
  rw [Document.ofText, source, fits.tokens_lines]
  change ((Reader.document 88).run ⟨⟨c.tokens, none⟩, [], [], [], 0⟩ >>= _) = _
  rw [read, ← anchored]
  rfl

/-! Its fields. -/

theorem plainNode_eq {line : Nat} {text : String} (plain : IsPlainText text) :
    plainNode line text = .scalar line .str text := by
  have merge : text ≠ "<<" := by
    rintro rfl
    exact absurd plain.isPlain (by decide)
  simp [plainNode, Reader.scalarTag, merge, plain.ofPlain_eq]

/-- What is known in the course of reading a document without aliases and problems. -/
def sound (c : Config) (visits : Nat) : Progress := ⟨c, [], visits, 0, []⟩

namespace Decoder

variable {d : Document} {slot field : Slot} {line fuel visits : Nat} {text name : String}
  {value : Node} {entries : List (Node × Node)} {done : List String} {p p' : Progress}

theorem visit_sound : visit.run (c.sound visits) = .ok ((), c.sound (visits + 1)) := rfl

theorem onTarget_sound {α : Type} {use : Node → Decoder α} {node : Node}
    (direct : ∀ line name anchor place, node ≠ .alias line name anchor place) :
    (onTarget d node use).run (c.sound visits) = (use node).run (c.sound (visits + 1)) := by
  rw [onTarget, run_bind_ok visit_sound]
  exact direct

theorem scalarText_str : scalarText .str text = pure (some text) := rfl

theorem textOf_str :
    (textOf d (.scalar line .str text)).run (c.sound visits) =
      .ok (some text, c.sound (visits + 1)) := rfl

theorem store_text (isText : slot.isText = true) :
    (store d (fuel + 1) slot none (.scalar line .str text)).run (c.sound visits) =
      .ok (none, (slot.store text c).sound (visits + 1)) := by
  rw [store, onTarget_sound (by simp)]
  dsimp only
  rw [scalarText_str, pure_bind]
  dsimp only
  rw [if_pos isText]
  rfl

theorem fields_nil {store : Slot → Node → Decoder Unit} :
    (fields d store slot done none []).run p = .ok (none, p) := by
  rw [fields]
  rfl

theorem fields_cons {store : Slot → Node → Decoder Unit}
    (known : slot.fields.lookup name = some field) (fresh : done.contains name = false)
    (stored : (store field value).run (c.sound (visits + 1)) = .ok ((), p)) :
    (fields d store slot done none ((.scalar line .str name, value) :: entries)).run
        (c.sound visits) = (fields d store slot (name :: done) none entries).run p := by
  have merge : (Node.scalar line .str name).isMerge = false := rfl
  rw [fields, merge, if_neg Bool.false_ne_true, run_bind_ok textOf_str]
  dsimp only [Option.any_none]
  rw [if_neg Bool.false_ne_true, known]
  dsimp only
  rw [fresh, if_neg Bool.false_ne_true, run_bind_ok stored]
  rfl

theorem store_mapping (isGroup : slot.isText = false)
    (different : (repeatedKeys entries).run (c.sound (visits + 1)) =
      .ok (false, c.sound (visits + 1)))
    (noMerge : entries.find? (·.1.isMerge) = none)
    (read : (fields d (fun field value => do let _ ← store d fuel field none value) slot [] none
      entries).run (c.sound (visits + 1)) = .ok (none, p)) :
    (store d (fuel + 1) slot none (.mapping line .map entries)).run (c.sound visits) =
      .ok (none, p) := by
  rw [store, onTarget_sound (by simp)]
  dsimp only
  rw [run_bind_ok different, if_neg Bool.false_ne_true, isGroup, if_neg Bool.false_ne_true,
    run_bind_ok read, noMerge]
  rfl

/-- A field whose value has been stored. -/
theorem store_field (stored : (store d fuel field none value).run p = .ok (none, p')) :
    (do let _ ← store d fuel field none value : Decoder Unit).run p = .ok ((), p') := by
  rw [run_bind_ok stored]
  rfl

end Decoder

open Decoder in
theorem Fits.store_evalNode (fits : c.Fits) {d : Document} {before : Config} {fuel visits : Nat} :
    (store d (fuel + 2) .eval none c.evalNode).run (before.sound visits) =
      .ok (none, sound { before with policy := c.policy, resultType := c.resultType }
        (visits + 5)) := by
  rw [evalNode, plainNode_eq fits.policy, plainNode_eq fits.resultType,
    plainNode_eq ⟨by decide, by decide⟩, plainNode_eq ⟨by decide, by decide⟩]
  refine store_mapping rfl rfl rfl ?_
  rw [fields_cons rfl rfl (store_field (store_text rfl)),
    fields_cons rfl rfl (store_field (store_text rfl)), fields_nil]
  rfl

open Decoder in
theorem Fits.ofDocument_root (fits : c.Fits) : ofDocument ⟨c.root, [], 88⟩ = .ok c := by
  have stored {d : Document} : (store d 7921 .file none c.root).run (sound .empty 1) =
      .ok (none, c.sound 10) := by
    rw [root, plainNode_eq fits.readType, plainNode_eq ⟨by decide, by decide⟩,
      plainNode_eq ⟨by decide, by decide⟩]
    refine store_mapping rfl rfl rfl ?_
    rw [fields_cons rfl rfl (store_field (store_text rfl)),
      fields_cons rfl rfl (store_field fits.store_evalNode), fields_nil]
    rfl
  -- the square of one more than the size of the document
  rw [ofDocument]
  change ((store _ 7921 .file none c.root).run (sound .empty 1) >>= _) = _
  rw [stored]
  rfl

theorem decode_eq {text : String} {d : Document} (found : Document.ofText text = .ok (some d))
    (read : ofDocument d = .ok c) : decode text = c.options.mapError .options := by
  unfold decode
  rw [found]
  change (ofDocument d >>= _) = _
  rw [read]
  simp only [bind, Except.bind]
  cases c.options with
  | ok o => rfl
  | error problem => rfl

/-- Such a configuration is read back from its own text. -/
theorem Fits.decode_write (fits : c.Fits) : decode c.write = c.options.mapError .options :=
  decode_eq fits.ofText_write fits.ofDocument_root

end TypedForms.Config
