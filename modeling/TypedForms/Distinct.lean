/-! The distinct members of a list, in the order of their first occurrence. -/
namespace TypedForms

def distinct {α : Type} [BEq α] : List α → List α
  | [] => []
  | a :: as => a :: (distinct as).filter (· != a)

theorem mem_distinct {α : Type} [BEq α] [LawfulBEq α] {a : α} {as : List α} :
    a ∈ distinct as ↔ a ∈ as := by
  induction as with
  | nil => simp [distinct]
  | cons b bs ih =>
    by_cases same : a = b
    · simp [distinct, same]
    · simp [distinct, same, ih]

theorem nodup_distinct {α : Type} [BEq α] [LawfulBEq α] (as : List α) : (distinct as).Nodup := by
  induction as with
  | nil => simp [distinct]
  | cons a as ih =>
    rw [distinct, List.nodup_cons]
    exact ⟨by simp, ih.filter _⟩

/-- A member that is put at the end counts only if it is new. -/
theorem distinct_concat {α : Type} [BEq α] [LawfulBEq α] {a : α} {as : List α} :
    distinct (as ++ [a]) = if a ∈ as then distinct as else distinct as ++ [a] := by
  induction as with
  | nil => simp [distinct]
  | cons b bs ih =>
    rw [List.cons_append, distinct, ih, distinct]
    by_cases same : a = b
    · subst same
      split <;> simp
    · split <;> simp_all

theorem pairwise_idxOf_distinct {α : Type} [BEq α] [LawfulBEq α] (as : List α) :
    (distinct as).Pairwise fun a b => as.idxOf a < as.idxOf b := by
  induction as with
  | nil => exact .nil
  | cons a as ih =>
    have later {b : α} (member : b ∈ (distinct as).filter (· != a)) :
        (a :: as).idxOf b = as.idxOf b + 1 := by
      have different : (a == b) = false := by
        rw [beq_eq_false_iff_ne]
        rintro rfl
        simp at member
      rw [List.idxOf_cons, different, cond_false]
    rw [distinct, List.pairwise_cons]
    constructor
    · intro b member
      rw [later member, List.idxOf_cons_self]
      exact Nat.succ_pos _
    · apply (ih.filter _).imp_of_mem
      intro b c bMem cMem before
      rw [later bMem, later cMem]
      exact Nat.succ_lt_succ before

end TypedForms
