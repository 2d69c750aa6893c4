import TypedForms.Proofs.Check.Moved
import TypedForms.Proofs.Check.Nesting
import TypedForms.Proofs.Program.Complete
import TypedForms.Proofs.Program.Grammar
import TypedForms.Proofs.Program.Moved
import TypedForms.Proofs.Session.Answers
import TypedForms.Proofs.Token.Lines
import TypedForms.Proofs.Token.Scan

/-! A program that is entered piece by piece. If every piece is read without a syntax error, a
session finds in them what checking finds in the whole program: the same problems, further up by the
lines of the pieces before, the same type, and the same environment. -/
namespace TypedForms

open Position (height)

/-! The forms of texts below each other. -/

namespace Form

variable {tokens tokens' : List Token} {form : Form} {forms forms' : List Form}
  {f : Position → Position}

theorem SpellAll.append (first : SpellAll tokens forms) (second : SpellAll tokens' forms') :
    SpellAll (tokens ++ tokens') (forms ++ forms') := by
  induction first with
  | nil => exact second
  | cons head _ ih =>
    rw [List.append_assoc]
    exact .cons head ih

theorem SpellAll.move (spells : SpellAll tokens forms) :
    SpellAll (tokens.map (Token.move f)) (forms.map (put (f ·.pos))) := by
  have clean : ofStream ⟨tokens, .nowhere⟩ = pure forms := ofStream_eq_pure_iff.mpr spells
  obtain ⟨value, notes⟩ := @moves_ofStream (f ·.pos) tokens .nowhere .nowhere
  rw [clean] at value notes
  exact ofStream_eq_pure_iff.mp (Diagnosed.eq_pure_iff.mpr ⟨notes, value⟩)

end Form

/-! The answers to forms elsewhere. -/

namespace Session

variable {o : Options} {env : Env Ty} {s : Session} {form : Form} {forms : List Form}
  {f : Position → Position} {input : String} {inputs : List String}

def Answer.move (f : Position → Position) (answer : Answer) : Answer :=
  ⟨answer.notes.map (Diagnostic.move f), answer.line⟩

end Session

end TypedForms
