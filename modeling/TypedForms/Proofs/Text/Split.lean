import TypedForms.Text.Split

/-! Texts in pieces: what stands between separators, and before the first of them. -/
namespace TypedForms.Text

variable {separator : Char} {text before after piece : List Char} {pieces : List (List Char)}

theorem split_ne_nil : split separator text ≠ [] := by
  cases text with
  | nil => simp [split]
  | cons c text =>
    rw [split]
    split
    · simp
    · split <;> simp

/-- A separator ends a piece. -/
theorem split_append (absent : separator ∉ before) :
    split separator (before ++ separator :: after) = before :: split separator after := by
  induction before with
  | nil => simp [split]
  | cons c before ih =>
    rw [List.mem_cons, not_or] at absent
    rw [List.cons_append, split, if_neg (Ne.symm absent.1), ih absent.2]

theorem split_flatMap (absent : ∀ piece ∈ pieces, separator ∉ piece) :
    split separator (pieces.flatMap (· ++ [separator])) = pieces ++ [[]] := by
  induction pieces with
  | nil => rfl
  | cons piece pieces ih =>
    obtain ⟨first, rest⟩ := List.forall_mem_cons.mp absent
    rw [List.flatMap_cons, List.append_assoc, List.singleton_append, split_append first, ih rest,
      List.cons_append]

/-- A piece is made of characters of the text, and of no separator. -/
theorem of_mem_split {c : Char} (member : piece ∈ split separator text) (inPiece : c ∈ piece) :
    c ∈ text ∧ c ≠ separator := by
  induction text generalizing piece with
  | nil =>
    obtain rfl := List.mem_singleton.mp member
    exact absurd inPiece List.not_mem_nil
  | cons d text ih =>
    have later {piece : List Char} (member : piece ∈ split separator text) (inPiece : c ∈ piece) :
        c ∈ d :: text ∧ c ≠ separator := by
      obtain ⟨inText, different⟩ := ih member inPiece
      exact ⟨List.mem_cons_of_mem _ inText, different⟩
    rw [split] at member
    split at member
    next =>
      rcases List.mem_cons.mp member with rfl | inRest
      · exact absurd inPiece List.not_mem_nil
      · exact later inRest inPiece
    next different =>
      split at member
      next nothing => exact absurd nothing split_ne_nil
      next first others piecesEq =>
        rw [piecesEq] at later
        rcases List.mem_cons.mp member with rfl | inRest
        · rcases List.mem_cons.mp inPiece with rfl | inFirst
          · exact ⟨List.mem_cons_self, different⟩
          · exact later List.mem_cons_self inFirst
        · exact later (List.mem_cons_of_mem _ inRest) inPiece

theorem not_mem_of_mem_split (member : piece ∈ split separator text) : separator ∉ piece := by
  intro inPiece
  exact (of_mem_split member inPiece).2 rfl

/-- The first separator is the one that no other stands before. -/
theorem cut?_eq_some_iff :
    cut? separator text = some (before, after) ↔
      text = before ++ separator :: after ∧ separator ∉ before := by
  induction text generalizing before with
  | nil => simp [cut?]
  | cons c text ih =>
    rw [cut?]
    split
    next same =>
      subst same
      cases before with
      | nil => simp
      | cons b before => simp +contextual
    next different =>
      rw [Option.map_eq_some_iff]
      constructor
      · rintro ⟨⟨first, rest⟩, found, same⟩
        obtain ⟨rfl, rfl⟩ := Prod.mk.inj same
        obtain ⟨rfl, absent⟩ := ih.mp found
        exact ⟨rfl, List.not_mem_cons_of_ne_of_not_mem (Ne.symm different) absent⟩
      · rintro ⟨same, absent⟩
        cases before with
        | nil => exact absurd (List.cons.inj same).1 different
        | cons b before =>
          obtain ⟨rfl, rest⟩ := List.cons.inj same
          exact ⟨(before, after), ih.mpr ⟨rest, absent ∘ List.mem_cons_of_mem _⟩, rfl⟩

end TypedForms.Text
