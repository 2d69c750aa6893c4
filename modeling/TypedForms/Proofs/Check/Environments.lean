import TypedForms.Proofs.Check.Coupling
import TypedForms.Proofs.Ty.Forget

/-! What a change of the environment does to a check. Forgetting the element types of lists makes
nothing fail, and what is found is resolved less far inside of lists at most. A name that has
become an error makes nothing else fail: what is found is an error, or the same as before. -/
namespace TypedForms

namespace Check

variable {o : Options} {env env' : Env Ty} {e : Expr}

/-! Errors in the place of types. -/

theorem coupling_eq : Coupling (· = ·) where
  le same := same.le
  kind same := by rw [same]
  error same := same
  num := rfl
  str := rfl
  bool := rfl
  unit := rfl
  pair left right _ _ := by rw [left, right]
  left same := (Ty.pair.inj same).1
  right same := (Ty.pair.inj same).2
  ref same _ := by rw [same]
  cell same := Ty.ref.inj same
  func _ result _ := by rw [result]
  result same := (Ty.func.inj same).2
  join left right _ _ _ found found' := by
    subst left right
    exact Option.some.inj (found'.symm.trans found)
  empty := rfl
  list _ _ := rfl
  grow lists same _ _ _ found found' := by
    obtain rfl := Ty.list.inj lists
    subst same
    rw [Option.some.inj (found'.symm.trans found)]

/-- Errors do not spread by notes: with errors in the place of what some names stand for, an
expression that was in order gives rise to no note, and is an error or has the type it had. -/
theorem clean_of_spoiled
    (spoils : List.Forall₂ (fun binding' binding => binding'.1 = binding.1 ∧
      (binding'.2 = binding.2 ∨ binding'.2.isError = true)) env'.frames env.frames)
    (clean : (expr o env e).notes = []) :
    (expr o env' e).notes = [] ∧ ((expr o env' e).value.isError = true ∨
      (expr o env' e).value = (expr o env e).value) := by
  have envs : Env.Related (Tracks True (· = ·)) env' env := by
    refine Env.related_of_frames (spoils.imp fun binding' binding spoil => ⟨spoil.1, ?_⟩)
    rcases spoil.2 with same | error
    · exact .inr same
    · exact .inl ⟨trivial, error⟩
  have follows := follows_expr coupling_eq (o := o) rfl (fun _ => rfl) e (fun _ _ _ => rfl) envs
  obtain ⟨t', clean', tracked⟩ := follows _ (Diagnosed.eq_pure_iff.mpr ⟨clean, rfl⟩)
  rw [clean']
  rcases tracked with ⟨_, error⟩ | same
  · exact ⟨rfl, .inl error⟩
  · exact ⟨rfl, .inr same⟩

/-- A name that has become an error spoils the list it stands in, and nothing is held against the
other elements. -/
theorem clean_of_spoiled_element :
    (expr .standard ⟨[("x", .list .num), ("y", .list .unresolved)]⟩ (.list .nowhere none
      [.var .nowhere "y", .var .nowhere "x", .var .nowhere "y"])).notes = [] ∧
    (expr .standard ⟨[("x", .error "lost"), ("y", .list .unresolved)]⟩ (.list .nowhere none
      [.var .nowhere "y", .var .nowhere "x", .var .nowhere "y"])).notes = [] ∧
    (expr .standard ⟨[("x", .error "lost"), ("y", .list .unresolved)]⟩ (.list .nowhere none
      [.var .nowhere "y", .var .nowhere "x", .var .nowhere "y"])).value = .error "lost" := by
  have spoils : List.Forall₂ (fun (binding' binding : String × Ty) => binding'.1 = binding.1 ∧
      (binding'.2 = binding.2 ∨ binding'.2.isError = true))
      [("x", .error "lost"), ("y", .list .unresolved)]
      [("x", .list .num), ("y", .list .unresolved)] :=
    .cons ⟨rfl, .inr rfl⟩ (.cons ⟨rfl, .inl rfl⟩ .nil)
  exact ⟨rfl, (clean_of_spoiled (o := .standard) spoils rfl).1, rfl⟩

/-! Element types forgotten. -/

theorem coupling_blurs : Coupling Ty.Blurs where
  le blurs := blurs.le
  kind blurs := by cases blurs <;> rfl
  error blurs := by cases blurs; rfl
  num := .num
  str := .str
  bool := .bool
  unit := .unit
  pair left right _ _ := .pair left right
  left blurs := by cases blurs with | pair left _ => exact left
  right blurs := by cases blurs with | pair _ right => exact right
  ref blurs _ := .ref blurs
  cell blurs := by cases blurs with | ref elem => exact elem
  func _ result _ := .func (List.forall₂_same.mpr fun _ _ => .refl _) result
  result blurs := by cases blurs with | func _ result => exact result
  join left right _ _ compatible found found' := left.join? right compatible found found'
  empty := .refl _
  list _ _ := .refl _
  grow lists blurs _ _ compatible found found' := by
    cases lists with
    | list elemLe => exact .list (Ty.join?_mono elemLe blurs.le compatible found found')

/-- The same error, or settled types of which the first is below the second. -/
def Coarser (t' t : Ty) : Prop :=
  t.isError = true ∧ t' = t ∨ t'.Settled ∧ t.Settled ∧ t' ≤ t

namespace Coarser

variable {t t' : Ty}

theorem settled (coarser : Coarser t' t) (sound : t.isError = false) :
    t'.Settled ∧ t.Settled ∧ t' ≤ t := by
  rcases coarser with ⟨error, _⟩ | settled
  · simp [sound] at error
  · exact settled

theorem of_forgets (clean : t.Clean) (forgets : t'.Forgets t) : Coarser t' t := by
  rcases clean with error | settled
  · obtain ⟨message, rfl⟩ := Ty.eq_error_of_isError error
    cases forgets
    exact .inl ⟨rfl, rfl⟩
  · exact .inr ⟨settled.of_forgets forgets, settled, forgets.blurs.le⟩

theorem refl (clean : t.Clean) : Coarser t t :=
  clean.imp (fun error => ⟨error, rfl⟩) fun settled => ⟨settled, settled, le_rfl⟩

theorem forgets (coarser : Coarser t' t) : t'.Forgets t := by
  rcases coarser with ⟨error, rfl⟩ | ⟨settled, _, le⟩
  · obtain ⟨message, rfl⟩ := Ty.eq_error_of_isError error
    exact .error message
  · exact settled.forgets_of_le le

end Coarser

theorem coupling_coarser : Coupling Coarser where
  le coarser := by
    rcases coarser with ⟨_, rfl⟩ | ⟨_, _, le⟩
    · exact le_rfl
    · exact le
  kind coarser := by
    rcases coarser with ⟨_, rfl⟩ | ⟨settled, _, le⟩
    · rfl
    · cases settled <;> cases le <;> rfl
  error coarser := by
    rcases coarser with ⟨_, same⟩ | ⟨_, settled, _⟩
    · exact same
    · cases settled
  num := .inr ⟨.num, .num, le_rfl⟩
  str := .inr ⟨.str, .str, le_rfl⟩
  bool := .inr ⟨.bool, .bool, le_rfl⟩
  unit := .inr ⟨.unit, .unit, le_rfl⟩
  pair left right leftSound rightSound := by
    obtain ⟨left', left, leftLe⟩ := left.settled leftSound
    obtain ⟨right', right, rightLe⟩ := right.settled rightSound
    exact .inr ⟨.pair left' right', .pair left right, .pair leftLe rightLe⟩
  left coarser := by
    obtain ⟨settled', settled, le⟩ := coarser.settled rfl
    cases settled' with | pair left' _ =>
    cases settled with | pair left _ =>
    cases le with | pair le _ => exact .inr ⟨left', left, le⟩
  right coarser := by
    obtain ⟨settled', settled, le⟩ := coarser.settled rfl
    cases settled' with | pair _ right' =>
    cases settled with | pair _ right =>
    cases le with | pair _ le => exact .inr ⟨right', right, le⟩
  ref coarser sound := by
    obtain ⟨settled', settled, le⟩ := coarser.settled sound
    exact .inr ⟨.ref settled', .ref settled, .ref le⟩
  cell coarser := by
    obtain ⟨settled', settled, le⟩ := coarser.settled rfl
    cases settled' with | ref elem' =>
    cases settled with | ref elem =>
    cases le with | ref le => exact .inr ⟨elem', elem, le⟩
  func params result sound := by
    obtain ⟨settled', settled, le⟩ := result.settled sound
    have paramsSettled : ∀ param ∈ _, Ty.Settled param := fun param member =>
      ((params param member).1.settled (params param member).2.isError_eq_false).1
    exact .inr ⟨.func paramsSettled settled', .func paramsSettled settled,
      .func (List.forall₂_same.mpr fun _ _ => .refl _) le⟩
  result coarser := by
    obtain ⟨settled', settled, le⟩ := coarser.settled rfl
    cases settled' with | func _ result' =>
    cases settled with | func _ result =>
    cases le with | func _ le => exact .inr ⟨result', result, le⟩
  join left right leftSound rightSound compatible found found' := by
    obtain ⟨left', left, leftLe⟩ := left.settled leftSound
    obtain ⟨right', right, rightLe⟩ := right.settled rightSound
    exact .inr ⟨left'.join? right' found', left.join? right found,
      Ty.join?_mono leftLe rightLe compatible found found'⟩
  empty := .inr ⟨.empty, .empty, le_rfl⟩
  list coarser free := by
    obtain ⟨settled, _, _⟩ := coarser.settled free.isError_eq_false
    exact .inr ⟨.list settled, .list settled, le_rfl⟩
  grow lists coarser _ sound compatible found found' := by
    obtain ⟨elem', elem, listsLe⟩ := lists.settled rfl
    obtain ⟨settled', settled, le⟩ := coarser.settled sound
    have joined : ∀ {elem t j : Ty}, (Ty.list elem).Settled → t.Settled → elem.join? t = some j →
        (Ty.list j).Settled := by
      intro elem t j list settled found
      exact list.join? (.list settled) (by simp [Ty.join?, found])
    cases listsLe with | list elemLe =>
    exact .inr ⟨joined elem' settled' found', joined elem settled found,
      .list (Ty.join?_mono elemLe le compatible found found')⟩

/-- Forgetting element types makes nothing fail, and then no more is lost than parts of element
types. Where the types that names stand for and the types written are clean, as they are in what
is read from a source, only whole element types are lost. -/
theorem clean_of_forgotten
    (forgets : List.Forall₂ (fun binding' binding => binding'.1 = binding.1 ∧
      binding'.2.Forgets binding.2) env'.frames env.frames)
    (clean : (expr o env e).notes = []) :
    (expr o env' e).notes = [] ∧ (expr o env' e).value.Blurs (expr o env e).value ∧
    ((∀ binding ∈ env.frames, binding.2.Clean) → (∀ t ∈ e.writtenTypes, t.Clean) →
      o.inputType.Clean → o.evalResult.Clean →
      (expr o env' e).value.Forgets (expr o env e).value) := by
  have pureEq := Diagnosed.eq_pure_iff.mpr ⟨clean, rfl⟩
  have envs : Env.Related (Tracks False Ty.Blurs) env' env :=
    Env.related_of_frames (forgets.imp fun _ _ binding => ⟨binding.1, .inr binding.2.blurs⟩)
  obtain ⟨t', clean', ⟨impossible, _⟩ | blurs⟩ := follows_expr coupling_blurs (o := o) (.refl _)
    (fun _ => .refl _) e (fun _ _ _ => .refl _) envs _ pureEq
  · exact impossible.elim
  rw [clean']
  refine ⟨rfl, blurs, fun bindings written read eval => ?_⟩
  have coarserEnvs : Env.Related (Tracks False Coarser) env' env := by
    have both := (List.forall₂_and_left _ _).mpr ⟨bindings, forgets.flip⟩
    refine Env.related_of_frames (both.flip.imp fun binding' binding found => ?_)
    exact ⟨found.2.1, .inr (.of_forgets found.1 found.2.2)⟩
  obtain ⟨u', clean'', ⟨impossible, _⟩ | coarser⟩ := follows_expr coupling_coarser (o := o)
    (.refl read) (fun _ => .refl eval) e (fun t member _ => .refl (written t member))
    coarserEnvs _ pureEq
  · exact impossible.elim
  · obtain rfl : t' = u' := Diagnosed.pure_inj.mp (clean'.symm.trans clean'')
    exact coarser.forgets

/-- It is not only whole element types that are lost: where one branch has an element type
forgotten and the other still knows half of it, half of it is what is found. -/
theorem not_forgets_of_half_resolved :
    ¬ ∀ (o : Options) (env env' : Env Ty) (e : Expr), .expression ∉ e.gaps →
      List.Forall₂ (fun binding' binding => binding'.1 = binding.1 ∧
        binding'.2.Forgets binding.2) env'.frames env.frames →
      (expr o env e).notes = [] →
      (expr o env' e).notes = [] ∧ (expr o env' e).value.Forgets (expr o env e).value := by
  intro claim
  have found : Ty.Forgets (.list (.pair .unresolved .num)) (.list (.pair .str .num)) :=
    (claim .standard ⟨[("x", .list (.pair .str .num)), ("y", .list (.pair .unresolved .num))]⟩
      ⟨[("x", .list .unresolved), ("y", .list (.pair .unresolved .num))]⟩
      (.branch .nowhere (.bool .nowhere true) (.var .nowhere "x") (.var .nowhere "y"))
      (by simp [Expr.gaps])
      (.cons ⟨rfl, .forgotten _⟩ (.cons ⟨rfl, .list (.pair .unresolved .num)⟩ .nil)) rfl).2
  cases found with | list elem =>
  cases elem with | pair left _ =>
  cases left

/-- Lists that are resolved by one another are so as far as they are known. -/
theorem clean_of_forgotten_lists :
    (expr .standard ⟨[("x", .list .unresolved), ("y", .list .num)]⟩ (.list .nowhere none
      [.var .nowhere "x", .var .nowhere "y"])).value = .list (.list .num) ∧
    (expr .standard ⟨[("x", .list .unresolved), ("y", .list .unresolved)]⟩ (.list .nowhere none
      [.var .nowhere "x", .var .nowhere "y"])).notes = [] ∧
    (expr .standard ⟨[("x", .list .unresolved), ("y", .list .unresolved)]⟩ (.list .nowhere none
      [.var .nowhere "x", .var .nowhere "y"])).value.Forgets (.list (.list .num)) := by
  have forgets : List.Forall₂ (fun (binding' binding : String × Ty) => binding'.1 = binding.1 ∧
      binding'.2.Forgets binding.2)
      [("x", .list .unresolved), ("y", .list .unresolved)]
      [("x", .list .unresolved), ("y", .list .num)] :=
    .cons ⟨rfl, .forgotten _⟩ (.cons ⟨rfl, .forgotten _⟩ .nil)
  have clean : ∀ binding ∈ [("x", Ty.list .unresolved), ("y", .list .num)], binding.2.Clean := by
    simpa using ⟨.inr .empty, .inr (.list .num)⟩
  have written : (Expr.list .nowhere none [.var .nowhere "x", .var .nowhere "y"]).writtenTypes =
      [] := rfl
  obtain ⟨notes, _, lost⟩ := clean_of_forgotten (o := .standard) (e := .list .nowhere none
    [.var .nowhere "x", .var .nowhere "y"]) forgets rfl
  exact ⟨rfl, notes, lost clean (by simp [written]) (.inr .str) (.inr .str)⟩

end Check

end TypedForms
