import TypedForms.Proofs.Expr.RoundTrip
import TypedForms.Proofs.Program.Grammar

/-! Printed programs. A program that was read from a source is printed as a text that is read
again without a note. It is read as the same program exactly if the string constants survive being
quoted. -/
namespace TypedForms

open Scanner (Reads)
open Text (rereadText)

namespace Decl

def retext (f : String → String) (d : Decl) : Decl :=
  ⟨d.token.unplaced, d.binder.unplaced, d.value.retext f⟩

def respellings (d : Decl) : Language Token :=
  {tokens | ∃ d', Spells tokens d' ∧ d'.retext id = d.retext rereadText}

theorem retext_eq_iff {f : String → String} {d : Decl} :
    d.retext f = d.retext id ↔ ∀ s ∈ d.value.strings, Expr.Keeps f s := by
  simp [retext, Expr.retext_eq_iff]

theorem reads_render {tokens : List Token} {d : Decl} (spells : Spells tokens d)
    (scanned : ∀ t ∈ tokens, t.Scanned) : Reads d.render.toList d.respellings := by
  cases spells with | define parens kind binding =>
  obtain ⟨opens, insideScanned⟩ := Token.scanned_inside parens scanned
  obtain ⟨_, bindingScanned⟩ := List.forall_mem_cons.mp insideScanned
  have inside := (Reads.keyword .define).cons (Expr.reads_binding binding bindingScanned)
  refine inside.parensText.mono ?_
  rintro _ ⟨start, finish, _, ⟨_, ⟨pos, rfl⟩, inside, ⟨binder, value, spells, named, same⟩, rfl⟩,
    rfl⟩
  exact ⟨⟨_, binder, value⟩, .define ⟨rfl, rfl⟩ rfl spells, by simp [retext, opens, named, same]⟩

end Decl

namespace Program

/-- The program with all places left out and its string constants replaced. -/
def retext (f : String → String) (p : Program) : Program :=
  ⟨p.decls.map (Decl.retext f), p.result.retext f⟩

/-- The program with all places left out. -/
def unplaced (p : Program) : Program := p.retext id

/-- The string constants in a program, each with its token. -/
def strings (p : Program) : List (Token × String) :=
  p.decls.flatMap (·.value.strings) ++ p.result.strings

def respellings (p : Program) : Language Token :=
  {tokens | ∃ p', Spells tokens p' ∧ p'.unplaced = p.retext rereadText}

variable {tokens : List Token} {p : Program}

theorem retext_eq_iff {f : String → String} :
    p.retext f = p.unplaced ↔ ∀ s ∈ p.strings, Expr.Keeps f s := by
  simp only [retext, unplaced, strings, Program.mk.injEq, List.map_inj_left, Decl.retext_eq_iff,
    Expr.retext_eq_iff, List.forall_mem_append, List.forall_mem_flatMap]

theorem isAbsent_of_spells {e : Expr} (spells : Expr.Spells tokens e) : e.isAbsent = false := by
  cases spells <;> rfl

theorem Spells.whole (spells : Spells tokens p) : Expr.Whole p.innerGaps p.strings := by
  induction spells with
  | result spells => simpa [innerGaps, strings, isAbsent_of_spells spells] using spells.whole
  | define head _ ih =>
    cases head with | define _ _ binding =>
    simpa [innerGaps, strings] using binding.whole.append ih

theorem reads_render (spells : Spells tokens p) (scanned : ∀ t ∈ tokens, t.Scanned) :
    Reads p.render.toList p.respellings := by
  induction spells with
  | @result _ e spells =>
    have text : render ⟨[], e⟩ = e.render := by
      simp [render, isAbsent_of_spells spells, Text.joined]
    rw [text]
    refine (Expr.reads_render spells scanned).mono ?_
    rintro tokens ⟨e', spells, same⟩
    exact ⟨⟨[], e'⟩, .result spells, by simp [unplaced, retext, same]⟩
  | define head _ ih =>
    obtain ⟨headScanned, tailScanned⟩ := List.forall_mem_append.mp scanned
    have lines :=
      Reads.joined_cons (.inr rfl) (Decl.reads_render head headScanned) (ih tailScanned)
    refine lines.mono ?_
    rintro _ ⟨first, ⟨d, firstSpells, firstSame⟩, rest, ⟨⟨ds, e⟩, restSpell, restSame⟩, rfl⟩
    obtain ⟨declsSame, resultSame⟩ := Program.mk.inj restSame
    refine ⟨⟨d :: ds, e⟩, .define firstSpells restSpell, ?_⟩
    simp [unplaced, retext, firstSame, declsSame, resultSame]

/-- The text of a spelled program is accepted, and is read as that program with its strings
reread. -/
theorem ofSource_render (spells : Spells tokens p) (scanned : ∀ t ∈ tokens, t.Scanned)
    (file : String) :
    ∃ p', ofSource file p.render = pure p' ∧ p'.unplaced = p.retext rereadText := by
  obtain ⟨_, new, ⟨p', newSpells, same⟩, finish⟩ :=
    reads_render spells scanned (.start file) []
  refine ⟨p', ofStream_eq_pure_iff.mpr ?_, same⟩
  have tokensEq : (TokenStream.ofSource file p.render).tokens = new := finish
  rwa [tokensEq]

theorem Spells.render?_eq (spells : Spells tokens p) : p.render? = some p.render := by
  simp [render?, spells.whole.complete]

/-- Rereading the strings of a spelled program changes nothing exactly if all their characters
survive being quoted. -/
theorem Spells.retext_reread_iff (spells : Spells tokens p) :
    p.retext rereadText = p.unplaced ↔
      ∀ constant ∈ p.strings, ∀ c ∈ constant.2.toList, Text.Survives c := by
  rw [retext_eq_iff]
  refine forall₂_congr fun constant member => ?_
  rw [Expr.Keeps, spells.whole.literal constant member, and_self, Text.rereadText_eq_self_iff]

/-- A program that was read from a source has a text, and that text is accepted again. The program
comes back, up to where its tokens stand, exactly if every character of every string constant
survives being quoted. -/
theorem reread_eq_iff_survives {file source : String}
    (accepted : (ofSource file source).notes = []) :
    ∃ text, (ofSource file source).value.render? = some text ∧ ∀ file',
      (ofSource file' text).notes = [] ∧
      ((ofSource file' text).value.unplaced = (ofSource file source).value.unplaced ↔
        ∀ constant ∈ (ofSource file source).value.strings,
          ∀ c ∈ constant.2.toList, Text.Survives c) := by
  generalize read : (ofSource file source).value = p
  have spells := ofStream_eq_pure_iff.mp (Diagnosed.eq_pure_iff.mpr ⟨accepted, read⟩)
  refine ⟨p.render, spells.render?_eq, fun file' => ?_⟩
  obtain ⟨p', clean, same⟩ := ofSource_render spells (TokenStream.scanned file source) file'
  obtain ⟨notes, value⟩ := Diagnosed.eq_pure_iff.mp clean
  exact ⟨notes, by rw [value, same, spells.retext_reread_iff]⟩

theorem reread_eq_iff_survives_of_escapes :
    (ofSource "" "(define s : str \"\\\"\\n\") (list s \"é\")").notes = [] ∧
    ∃ text, (ofSource "" "(define s : str \"\\\"\\n\") (list s \"é\")").value.render? = some text ∧
      (ofSource "" text).notes = [] ∧ (ofSource "" text).value.unplaced =
        (ofSource "" "(define s : str \"\\\"\\n\") (list s \"é\")").value.unplaced := by
  have accepted : (ofSource "" "(define s : str \"\\\"\\n\") (list s \"é\")").notes = [] := by
    decide +kernel
  have survives : ((ofSource "" "(define s : str \"\\\"\\n\") (list s \"é\")").value.strings.all
      fun constant => constant.2.toList.all (Text.Survives ·)) = true := by
    decide +kernel
  obtain ⟨text, rendered, reread⟩ := reread_eq_iff_survives accepted
  obtain ⟨notes, sameIff⟩ := reread ""
  refine ⟨accepted, text, rendered, notes, sameIff.mpr ?_⟩
  simpa only [List.all_eq_true, decide_eq_true_eq] using survives

end Program

end TypedForms
