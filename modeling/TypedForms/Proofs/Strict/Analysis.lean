import TypedForms.Proofs.Program.Complete
import TypedForms.Proofs.Strict.Check
import TypedForms.Proofs.Strict.Program
import TypedForms.Proofs.Strict.Token

/-! Sources are scanned, read and checked without an operation outside of its domain, whatever is
wrong with them: broken sources are read as trees that lack nothing, and a check stops only at an
expression that is absent from its tree. -/
namespace TypedForms

/-- What becomes of a source: its tokens, the program it is read as, and the types found in it. -/
structure Analysis where
  stream : TokenStream
  program : Diagnosed ParseError Program
  types : Checked (Ty × Env Ty)

namespace Analysis

def ofSource (o : Options) (file source : String) : Analysis where
  stream := .ofSource file source
  program := Program.ofSource file source
  types := Check.program o .empty (Program.ofSource file source).value

/-- The analysis with all partial operations in the open, each stage starting without notes. There
is none if any of them is used outside of its domain, or if a loop does not end. -/
def strict? (o : Options) (file source : String) : Option Analysis := do
  let stream ← Cursor.scan source.toList file
  let (program, syntaxNotes) ← Program.Strict.ofStream stream []
  let (types, typeNotes) ← Check.Strict.program o .empty program []
  pure ⟨stream, ⟨program, syntaxNotes⟩, ⟨types, typeNotes⟩⟩

variable {o : Options} {file source : String}

theorem mirrors_types : Check.Mirrors True
    (Check.Strict.program o .empty (ofSource o file source).program.value)
    (ofSource o file source).types := by
  obtain ⟨decls, result⟩ := @Program.gaps_ofStream (.ofSource file source)
  refine (Check.mirrors_program (Program.ofSource file source).value).congr (iff_of_true ?_ trivial)
  refine ⟨fun decl member => ?_, ?_⟩
  · rw [Expr.Gapless, decls decl member]
    exact List.not_mem_nil
  · rw [Expr.Gapless, Program.ofSource, result]
    exact List.not_mem_nil

theorem strict?_eq : strict? o file source = some (ofSource o file source) := by
  have scanned : Cursor.scan source.toList file = some (.ofSource file source) := Cursor.scan_eq
  have read : Program.Strict.ofStream (.ofSource file source) =
      .total (Program.ofSource file source) := by
    apply Program.ofStream_eq rfl
    intro token member
    exact (TokenStream.scanned file source token member).kind_ne_eof
  have typed : Check.Strict.program o .empty (Program.ofSource file source).value =
      .total (ofSource o file source).types := mirrors_types.runs trivial
  simp only [strict?, scanned, read, typed, Guarded.total_nil, Option.bind_eq_bind,
    Option.bind_some]
  rfl

end Analysis

theorem Check.Strict.expr_apply (o : Options) (env : Env Ty) (e : Expr)
    (notes : List (Diagnostic TypeError)) :
    Strict.expr o env e notes =
      if .expression ∈ e.gaps then none
      else some ((Check.expr o env e).value, notes ++ (Check.expr o env e).notes) := by
  split
  next gap => rw [(mirrors_expr e).stops (not_not.mpr gap), Guarded.stop]
  next whole => rw [(mirrors_expr e).runs whole, Guarded.total]

/-- Every source is scanned, read and checked to the end, and what the strict analysis finds is what
is found without looking at the domains of operations. A strict check of any tree, in any
environment, stops at absent expressions only, and these are the only trees with a lapse. -/
theorem Analysis.stops_only_at_absent_expressions :
    (∀ o file source, strict? o file source = some (ofSource o file source) ∧
      Check.lapse? (ofSource o file source).types.notes = none) ∧
    ∀ o env e,
      (∀ notes, Check.Strict.expr o env e notes =
        if .expression ∈ e.gaps then none
        else some ((Check.expr o env e).value, notes ++ (Check.expr o env e).notes)) ∧
      (Check.lapse? (Check.expr o env e).notes = none ↔ .expression ∉ e.gaps) := by
  refine ⟨fun o file source => ⟨strict?_eq, mirrors_types.lapseIff.mpr trivial⟩, ?_⟩
  intro o env e
  exact ⟨Check.Strict.expr_apply o env e, (Check.mirrors_expr e).lapseIff⟩

end TypedForms
