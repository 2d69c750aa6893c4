import TypedForms.Proofs.Check.Typing

/-! Two checks of one expression. Where the types that names stand for are related in a way that
every rule keeps, an expression that is checked without a note in one environment is checked
without a note in the other, and the types found are related as well. Errors may have come into
the other environment besides: they are passed on, and nothing is held against them. -/
namespace TypedForms

namespace Env

variable {related : Ty → Ty → Prop} {env env' : Env Ty}

/-- The same names are visible, and they stand for related types. -/
def Related (related : Ty → Ty → Prop) (env' env : Env Ty) : Prop :=
  ∀ name, Option.Rel related (env'.lookup? name) (env.lookup? name)

/-- Bindings of the same names to related types. -/
def RelatedBindings (related : Ty → Ty → Prop) : List (String × Ty) → List (String × Ty) → Prop :=
  List.Forall₂ fun binding' binding => binding'.1 = binding.1 ∧ related binding'.2 binding.2

theorem Related.extendAll {bound bound' : List (String × Ty)} (envs : Related related env' env)
    (new : RelatedBindings related bound' bound) :
    Related related (env'.extendAll bound') (env.extendAll bound) := by
  induction new generalizing env env' with
  | nil => exact envs
  | cons head _ ih =>
    rw [extendAll_cons, extendAll_cons, head.1]
    refine ih fun other => ?_
    rw [lookup?_extend, lookup?_extend]
    split
    · exact .some head.2
    · exact envs other

theorem related_of_frames (frames : RelatedBindings related env'.frames env.frames) :
    Related related env' env := by
  intro name
  simp only [lookup?]
  generalize env'.frames = bound', env.frames = bound at frames
  induction frames with
  | nil => exact .none
  | @cons binding' binding _ _ head _ ih =>
    simp only [List.find?_cons, head.1]
    cases binding.1 == name with
    | true => exact .some head.2
    | false => exact ih

end Env

theorem Ty.firstError?_cons {t : Ty} {ts : List Ty} (sound : t.isError = false) :
    firstError? (t :: ts) = firstError? ts := by
  cases t with
  | error message => simp at sound
  | _ => rfl

namespace Check

variable {α β : Type}

/-- Where the second computation makes no note, neither does the first, and the results are
related. -/
def Follows (tracks : α → α → Prop) (x' x : Checked α) : Prop :=
  ∀ a, x = pure a → ∃ a', x' = pure a' ∧ tracks a' a

namespace Follows

variable {tracks : α → α → Prop} {tracks' : β → β → Prop} {x x' : Checked α}

theorem pure {a a' : α} (related : tracks a' a) : Follows tracks (Pure.pure a') (Pure.pure a) := by
  intro b clean
  obtain rfl := Diagnosed.pure_inj.mp clean
  exact ⟨a', rfl, related⟩

theorem bind {f f' : α → Checked β} (first : Follows tracks x' x)
    (next : ∀ a' a, tracks a' a → Follows tracks' (f' a') (f a)) :
    Follows tracks' (x' >>= f') (x >>= f) := by
  intro b clean
  obtain ⟨a, firstClean, restClean⟩ := Diagnosed.bind_eq_pure_iff.mp clean
  obtain ⟨a', firstClean', related⟩ := first a firstClean
  obtain ⟨b', restClean', related'⟩ := next a' a related b restClean
  exact ⟨b', Diagnosed.bind_eq_pure_iff.mpr ⟨a', firstClean', restClean'⟩, related'⟩

theorem mono {weaker : α → α → Prop} (follows : Follows tracks x' x)
    (imp : ∀ a' a, tracks a' a → weaker a' a) : Follows weaker x' x := by
  intro a clean
  obtain ⟨a', clean', related⟩ := follows a clean
  exact ⟨a', clean', imp a' a related⟩

/-- Whatever follows a noted problem. -/
theorem noted {tracks : Ty → Ty → Prop} {x' : Checked Ty} {anchor : Token} {cause : TypeError} :
    Follows tracks x' (report anchor cause) :=
  fun _ clean => absurd clean report_ne_pure

theorem noted_bind {anchor : Token} {cause : TypeError} {f : Ty → Checked α} :
    Follows tracks x' (report anchor cause >>= f) :=
  fun _ clean => absurd clean report_bind_ne_pure

end Follows

/-- What becomes of the next element: an error is kept, a type that fits is joined to what the
elements share, and any other is noted. -/
theorem elements_cases {index : Nat} {anchor : Token} {elem t : Ty} (rest : List (Token × Ty))
    (sound : elem.isError = false) :
    t.isError = true ∧ elements index elem ((anchor, t) :: rest) =
        elements (index + 1) elem rest >>= (fun found => pure (t :: found.1, found.2)) ∨
    (t.isError = false ∧ elem.compatible t = true ∧ ∃ j, elem.join? t = some j ∧
      elements index elem ((anchor, t) :: rest) = elements (index + 1) j rest) ∨
    t.isError = false ∧ elem.compatible t = false ∧ ∃ cause next,
      elements index elem ((anchor, t) :: rest) = report anchor cause >>= next := by
  rw [elements, sound, Bool.or_false]
  cases error : t.isError with
  | true => exact .inl ⟨rfl, rfl⟩
  | false =>
    cases fits : elem.compatible t with
    | true =>
      obtain ⟨j, joined, found⟩ := exists_joined fits
      refine .inr (.inl ⟨rfl, rfl, j, found, ?_⟩)
      simp [joined]
    | false => exact .inr (.inr ⟨rfl, rfl, _, _, rfl⟩)

/-- What a relation between types has to be like for all rules to keep it. A part is only put
into a type when it is no error. The type that the elements of a list share is looked at as the
type of the list, so that it may be unresolved where the relation does not speak of unresolved
types. -/
structure Coupling (related : Ty → Ty → Prop) : Prop where
  le {t' t : Ty} : related t' t → t' ≤ t
  kind {t' t : Ty} : related t' t → t'.kind = t.kind
  error {t' : Ty} {message : String} : related t' (.error message) → t' = .error message
  num : related .num .num
  str : related .str .str
  bool : related .bool .bool
  unit : related .unit .unit
  pair {left' left right' right : Ty} : related left' left → related right' right →
    left.isError = false → right.isError = false →
    related (.pair left' right') (.pair left right)
  left {left' left right' right : Ty} :
    related (.pair left' right') (.pair left right) → related left' left
  right {left' left right' right : Ty} :
    related (.pair left' right') (.pair left right) → related right' right
  ref {t' t : Ty} : related t' t → t.isError = false → related (.ref t') (.ref t)
  cell {t' t : Ty} : related (.ref t') (.ref t) → related t' t
  func {params : List Ty} {result' result : Ty} :
    (∀ param ∈ params, related param param ∧ param.ErrorFree) → related result' result →
    result.isError = false → related (.func params result') (.func params result)
  result {params' params : List Ty} {result' result : Ty} :
    related (.func params' result') (.func params result) → related result' result
  join {t' t u' u j' j : Ty} : related t' t → related u' u → t.isError = false →
    u.isError = false → t.compatible u = true → t.join? u = some j → t'.join? u' = some j' →
    related j' j
  empty : related (.list .unresolved) (.list .unresolved)
  list {t : Ty} : related t t → t.ErrorFree → related (.list t) (.list t)
  grow {elem' elem t' t j' j : Ty} : related (.list elem') (.list elem) → related t' t →
    elem.isError = false → t.isError = false → elem.compatible t = true →
    elem.join? t = some j → elem'.join? t' = some j' → related (.list j') (.list j)

/-- The first type is related to the second one, or is an error if errors may have come in. -/
def Tracks (spoiled : Prop) (related : Ty → Ty → Prop) (t' t : Ty) : Prop :=
  spoiled ∧ t'.isError = true ∨ related t' t

section

variable {spoiled : Prop} {related : Ty → Ty → Prop}

/-- Either all of the types are related, or there is an error among them. -/
theorem forall₂_or_error {ts ts' : List Ty}
    (tracked : List.Forall₂ (Tracks spoiled related) ts' ts) :
    List.Forall₂ related ts' ts ∨ spoiled ∧ ∃ t ∈ ts', t.isError = true := by
  induction tracked with
  | nil => exact .inl .nil
  | cons head _ ih =>
    rcases head with ⟨allowed, error⟩ | head
    · exact .inr ⟨allowed, _, List.mem_cons_self, error⟩
    · rcases ih with rest | ⟨allowed, t, member, error⟩
      · exact .inl (.cons head rest)
      · exact .inr ⟨allowed, t, List.mem_cons_of_mem _ member, error⟩

variable (coupling : Coupling related)
include coupling

namespace Coupling

theorem isError_eq {t t' : Ty} (rel : related t' t) : t'.isError = t.isError := by
  rw [Ty.isError, Ty.isError, coupling.kind rel]

/-- Among related types the first errors are the same. -/
theorem firstError? {ts ts' : List Ty} (all : List.Forall₂ related ts' ts) :
    (∃ message, Ty.firstError? ts' = some message ∧ Ty.firstError? ts = some message ∧
      related (.error message) (.error message)) ∨
    Ty.firstError? ts' = none ∧ Ty.firstError? ts = none := by
  induction all with
  | nil => exact .inr ⟨rfl, rfl⟩
  | @cons t' t _ _ head _ ih =>
    cases error : t.isError with
    | true =>
      obtain ⟨message, rfl⟩ := Ty.eq_error_of_isError error
      obtain rfl := coupling.error head
      exact .inl ⟨message, rfl, rfl, head⟩
    | false =>
      have error' := (coupling.isError_eq head).trans error
      rw [Ty.firstError?_cons error, Ty.firstError?_cons error']
      exact ih

theorem orError {parts parts' : List Ty} {t t' : Ty}
    (tracked : List.Forall₂ (Tracks spoiled related) parts' parts)
    (rest : List.Forall₂ related parts' parts → (∀ part ∈ parts, part.isError = false) →
      Tracks spoiled related t' t) :
    Tracks spoiled related (orError parts' t') (orError parts t) := by
  rcases forall₂_or_error tracked with all | ⟨allowed, error⟩
  · rcases coupling.firstError? all with ⟨message, found', found, rel⟩ | ⟨none', none⟩
    · simp only [Check.orError, found', found]
      exact .inr rel
    · simp only [Check.orError, none', none]
      exact rest all (Ty.firstError?_eq_none_iff.mp none)
  · exact .inl ⟨allowed, isError_orError.mpr (.inl error)⟩

theorem compatible {t t' u u' : Ty} (left : related t' t) (right : related u' u)
    (compatible : t.compatible u = true) : t'.compatible u' = true :=
  Ty.compatible_mono (coupling.le left) (coupling.le right) compatible

end Coupling

/-! The rules one by one. -/

variable {anchor form : Token} {t t' : Ty}

theorem follows_require {fits fits' : Bool} {cause cause' : TypeError}
    (tracked : Tracks spoiled related t' t) (fit : related t' t → fits = true → fits' = true) :
    Follows (Tracks spoiled related) (require anchor t' fits' cause')
      (require anchor t fits cause) := by
  rcases require_cases anchor t fits cause with ⟨passed, reason⟩ | ⟨reported, _⟩
  · rw [passed]
    have passed' : require anchor t' fits' cause' = pure t' := by
      refine if_pos ?_
      rcases tracked with ⟨_, error⟩ | rel
      · simp [error]
      · rcases reason with error | fits
        · simp [coupling.isError_eq rel, error]
        · simp [fit rel fits]
    rw [passed']
    exact .pure tracked
  · rw [reported]
    exact .noted

/-- A type that has to be of a kind, from which a part is then taken. -/
theorem follows_project {kind : Ty.Kind} {cause cause' : TypeError} {pick : Ty → Checked Ty}
    (tracked : Tracks spoiled related t' t)
    (error : ∀ message, pick (.error message) = pure (.error message))
    (part : related t' t → t.kind = kind → Follows (Tracks spoiled related) (pick t') (pick t)) :
    Follows (Tracks spoiled related)
      (require anchor t' (t'.kind == kind) cause' >>= pick)
      (require anchor t (t.kind == kind) cause >>= pick) := by
  rcases require_cases anchor t (t.kind == kind) cause with ⟨passed, reason⟩ | ⟨reported, _⟩
  · rw [passed, pure_bind]
    rcases tracked with ⟨allowed, spoilt⟩ | rel
    · obtain ⟨message, rfl⟩ := Ty.eq_error_of_isError spoilt
      intro u _
      refine ⟨.error message, ?_, .inl ⟨allowed, rfl⟩⟩
      exact Diagnosed.bind_eq_pure_iff.mpr ⟨_, rfl, error message⟩
    · have passed' : require anchor t' (t'.kind == kind) cause' = pure t' := by
        refine if_pos ?_
        rw [coupling.isError_eq rel, coupling.kind rel]
        simpa using reason
      rw [passed', pure_bind]
      rcases reason with broken | fits
      · obtain ⟨message, rfl⟩ := Ty.eq_error_of_isError broken
        obtain rfl := coupling.error rel
        rw [error]
        exact .pure (.inr rel)
      · exact part rel (by simpa using fits)
  · rw [reported]
    exact .noted_bind

theorem follows_reconcile {kind : BindingForm} {name : String} {declared got got' : Ty}
    (free : declared.ErrorFree) (self : related declared declared)
    (tracked : Tracks spoiled related got' got) :
    Follows (Tracks spoiled related) (reconcile kind name anchor declared got')
      (reconcile kind name anchor declared got) := by
  have passes : ∀ {got}, got.isError = true →
      reconcile kind name anchor declared got = pure got := by
    intro got error
    simp [reconcile, free.isError_eq_false, error]
  rcases tracked with ⟨allowed, error⟩ | rel
  · rw [passes error]
    exact fun _ _ => ⟨got', rfl, .inl ⟨allowed, error⟩⟩
  · cases error : got.isError with
    | true =>
      rw [passes error, passes ((coupling.isError_eq rel).trans error)]
      exact .pure (.inr rel)
    | false =>
      have error' := (coupling.isError_eq rel).trans error
      cases fits : declared.compatible got with
      | true =>
        have fits' := coupling.compatible self rel fits
        simp only [reconcile, free.isError_eq_false, error, error', fits, fits', if_true,
          Bool.false_eq_true, if_false]
        exact .pure (.inr self)
      | false =>
        intro u clean
        simp only [reconcile, free.isError_eq_false, error, fits, Bool.false_eq_true,
          if_false] at clean
        split at clean
        · split at clean <;> exact absurd clean report_ne_pure
        · exact absurd clean report_ne_pure

theorem follows_joined {u u' : Ty} (left : related t' t) (right : related u' u)
    (leftSound : t.isError = false) (rightSound : u.isError = false)
    (compatible : t.compatible u = true) :
    Follows (Tracks spoiled related) (joined t' u') (joined t u) := by
  obtain ⟨j, joined, found⟩ := exists_joined compatible
  obtain ⟨j', joined', found'⟩ := exists_joined (coupling.compatible left right compatible)
  rw [joined, joined']
  exact .pure (.inr (coupling.join left right leftSound rightSound compatible found found'))

theorem follows_branchRule {condition : Token} {cond cond' yes yes' no no' : Ty}
    (condTracked : Tracks spoiled related cond' cond)
    (yesTracked : Tracks spoiled related yes' yes) (noTracked : Tracks spoiled related no' no) :
    Follows (Tracks spoiled related) (branchRule form condition cond' yes' no')
      (branchRule form condition cond yes no) := by
  have parts : List.Forall₂ (Tracks spoiled related) [yes', no'] [yes, no] :=
    .cons yesTracked (.cons noTracked .nil)
  refine .bind (follows_require coupling condTracked fun rel fits => ?_) ?_
  · rwa [coupling.kind rel]
  intro c' c tracked
  rcases forall₂_or_error parts with all | ⟨allowed, error⟩
  · rcases coupling.firstError? all with ⟨message, found', found, rel⟩ | ⟨none', none⟩
    · simp only [found', found]
      exact .pure (coupling.orError (.cons tracked .nil) fun _ _ => .inr rel)
    · simp only [none', none]
      obtain ⟨yesRel, noRel⟩ : related yes' yes ∧ related no' no := by simpa using all
      have sound := Ty.firstError?_eq_none_iff.mp none
      by_cases compatible : yes.compatible no = true
      · rw [if_pos compatible, if_pos (coupling.compatible yesRel noRel compatible)]
        rcases tracked with ⟨allowed, error⟩ | rel
        · rw [if_pos error]
          exact fun _ _ => ⟨c', rfl, .inl ⟨allowed, error⟩⟩
        · rw [coupling.isError_eq rel]
          split
          · exact .pure (.inr rel)
          · exact follows_joined coupling yesRel noRel (sound yes (by simp)) (sound no (by simp))
              compatible
      · rw [if_neg compatible]
        exact .noted_bind
  · -- an error in a branch keeps the branches from being compared
    obtain ⟨message, found⟩ : ∃ message, Ty.firstError? [yes', no'] = some message := by
      rw [← Option.ne_none_iff_exists', ne_eq, Ty.firstError?_eq_none_iff]
      obtain ⟨part, member, broken⟩ := error
      intro sound
      simp [sound part member] at broken
    simp only [found]
    refine fun _ _ => ⟨_, rfl, .inl ⟨allowed, ?_⟩⟩
    exact isError_orError.mpr (.inr rfl)

/-- Parts that are reported at the same tokens. -/
abbrev TracksAt (spoiled : Prop) (related : Ty → Ty → Prop) (part' part : Token × Ty) : Prop :=
  part'.1 = part.1 ∧ Tracks spoiled related part'.2 part.2

theorem follows_arguments {index : Nat} {params params' : List Ty} {args args' : List (Token × Ty)}
    (paramsLe : List.Forall₂ (· ≤ ·) params' params)
    (argsTracked : List.Forall₂ (TracksAt spoiled related) args' args) :
    Follows (List.Forall₂ (Tracks spoiled related)) (arguments index params' args')
      (arguments index params args) := by
  induction argsTracked generalizing index params params' with
  | nil => cases paramsLe <;> exact .pure .nil
  | @cons arg' arg _ _ head _ ih =>
    cases paramsLe with
    | nil => exact .pure .nil
    | cons paramLe restLe =>
      obtain ⟨_, t'⟩ := arg'
      obtain ⟨_, t⟩ := arg
      obtain ⟨rfl, tracked⟩ := head
      refine .bind (follows_require coupling tracked fun rel fits => ?_)
        fun found' found first => ?_
      · exact Ty.compatible_mono paramLe (coupling.le rel) fits
      · exact .bind (ih restLe) fun others' others rest => .pure (.cons first rest)

theorem follows_callRule {operator : Token} {callee callee' : Ty} {args args' : List (Token × Ty)}
    (calleeTracked : Tracks spoiled related callee' callee)
    (argsTracked : List.Forall₂ (TracksAt spoiled related) args' args) :
    Follows (Tracks spoiled related) (callRule form operator callee' args')
      (callRule form operator callee args) := by
  rcases calleeTracked with ⟨allowed, error⟩ | rel
  · obtain ⟨message, rfl⟩ := Ty.eq_error_of_isError error
    exact fun _ _ => ⟨_, rfl, .inl ⟨allowed, rfl⟩⟩
  · cases callee with
    | error message =>
      obtain rfl := coupling.error rel
      exact .pure (.inr rel)
    | func params result =>
      have kind := coupling.kind rel
      cases callee' <;> simp only [Ty.kind, reduceCtorEq] at kind
      next params' result' =>
        have paramsLe : List.Forall₂ (· ≤ ·) params' params := by
          cases coupling.le rel with | func paramsLe _ => exact paramsLe
        simp only [callRule, argsTracked.length_eq, paramsLe.length_eq]
        by_cases count : args.length = params.length
        · rw [if_pos count, if_pos count]
          refine .bind (follows_arguments coupling paramsLe argsTracked) fun _ _ found => ?_
          have resultRel := coupling.result rel
          exact .pure (coupling.orError (.cons (.inr resultRel) found) fun _ _ => .inr resultRel)
        · rw [if_neg count, if_neg count]
          exact .noted
    | _ => exact .noted

/-- While the elements are gone through, the type they share is resolved less far than in the
other check. The errors among the elements are all kept, and if there is no new one the types
found in the end are related. -/
theorem follows_elements {index : Nat} {elem elem' : Ty} {types types' : List (Token × Ty)}
    (le : elem' ≤ elem) (sound : elem.isError = false) (sound' : elem'.isError = false)
    (tracked : List.Forall₂ (TracksAt spoiled related) types' types) :
    Follows (fun found' found =>
        (related (.list elem') (.list elem) →
          List.Forall₂ related (types'.map (·.2)) (types.map (·.2)) →
          List.Forall₂ related found'.1 found.1 ∧ related (.list found'.2) (.list found.2)) ∧
        ∀ t ∈ types'.map (·.2), t.isError = true → t ∈ found'.1)
      (elements index elem' types') (elements index elem types) := by
  induction tracked generalizing index elem elem' with
  | nil => exact .pure ⟨fun rel _ => ⟨.nil, rel⟩, by simp⟩
  | @cons part' part rest' rest head _ ih =>
    obtain ⟨anchor, t'⟩ := part'
    obtain ⟨_, t⟩ := part
    obtain ⟨rfl, tracked⟩ := head
    have keep : t'.isError = true → elements index elem' ((anchor, t') :: rest') =
        elements (index + 1) elem' rest' >>= (fun found => pure (t' :: found.1, found.2)) := by
      intro error'
      simp [elements, error']
    rcases @elements_cases index anchor elem t rest sound with ⟨error, step⟩ |
      ⟨fine, fits, j, joined, step⟩ | ⟨_, _, _, _, step⟩
    · have error' : t'.isError = true :=
        tracked.elim (·.2) fun rel => (coupling.isError_eq rel).trans error
      rw [step, keep error']
      refine .bind (ih le sound sound') fun found' found others => .pure ⟨?_, ?_⟩
      · intro rel all
        obtain ⟨head, all⟩ := List.forall₂_cons.mp all
        obtain ⟨errors, final⟩ := others.1 rel all
        exact ⟨.cons head errors, final⟩
      · exact List.forall_mem_cons.mpr ⟨fun _ => List.mem_cons_self,
          fun u member error => List.mem_cons_of_mem _ (others.2 u member error)⟩
    · obtain ⟨k, found, elemLe, _⟩ := Ty.exists_join? fits
      obtain rfl : j = k := Option.some.inj (joined.symm.trans found)
      have jSound := Ty.isError_join? joined sound fine
      rcases tracked with ⟨_, error'⟩ | rel
      · -- the new error is skipped, and the types shared drift apart
        rw [step, keep error', ← bind_pure (elements (index + 1) j rest)]
        refine .bind (ih (le.trans elemLe) jSound sound') fun found' found others =>
          .pure ⟨?_, ?_⟩
        · intro _ all
          have head := (List.forall₂_cons.mp all).1
          simp [coupling.isError_eq head, fine] at error'
        · exact List.forall_mem_cons.mpr ⟨fun _ => List.mem_cons_self,
            fun u member error => List.mem_cons_of_mem _ (others.2 u member error)⟩
      · have fine' := (coupling.isError_eq rel).trans fine
        have fits' := Ty.compatible_mono le (coupling.le rel) fits
        rcases @elements_cases index anchor elem' t' rest' sound' with ⟨error', _⟩ |
          ⟨_, _, j', joined', step'⟩ | ⟨_, clash, _⟩
        · simp [fine'] at error'
        · rw [step, step']
          refine (ih (Ty.join?_mono le (coupling.le rel) fits joined joined') jSound
            (Ty.isError_join? joined' sound' fine')).mono fun found' found others => ?_
          refine ⟨fun lists all => others.1 ?_ (List.forall₂_cons.mp all).2, ?_⟩
          · exact coupling.grow lists rel sound fine fits joined joined'
          · exact List.forall_mem_cons.mpr ⟨fun error' => by simp [fine'] at error', others.2⟩
        · simp [fits'] at clash
    · rw [step]
      exact .noted_bind

theorem follows_listRule {elem : Ty} {types types' : List (Token × Ty)}
    (sound : elem.isError = false) (self : related (.list elem) (.list elem))
    (tracked : List.Forall₂ (TracksAt spoiled related) types' types) :
    Follows (Tracks spoiled related) (listRule elem types') (listRule elem types) := by
  have parts : List.Forall₂ (Tracks spoiled related) (types'.map (·.2)) (types.map (·.2)) := by
    rw [List.forall₂_map_left_iff, List.forall₂_map_right_iff]
    exact tracked.imp fun _ _ part => part.2
  refine .bind (follows_elements coupling le_rfl sound sound tracked)
    fun found' found ⟨relates, keeps⟩ => .pure ?_
  rcases forall₂_or_error parts with all | ⟨allowed, t, member, error⟩
  · obtain ⟨errors, final⟩ := relates self all
    have tracked : List.Forall₂ (Tracks spoiled related) found'.1 found.1 :=
      errors.imp fun _ _ rel => .inr rel
    have whole := coupling.orError tracked fun _ _ => .inr final
    simpa only [orError, Ty.firstError?_cons sound] using whole
  · exact .inl ⟨allowed, isError_orError.mpr
      (.inl ⟨t, List.mem_cons_of_mem _ (keeps t member error), error⟩)⟩

theorem follows_assignRule {location location' stored stored' : Ty}
    (locationTracked : Tracks spoiled related location' location)
    (storedTracked : Tracks spoiled related stored' stored) :
    Follows (Tracks spoiled related) (assignRule anchor location' stored')
      (assignRule anchor location stored) := by
  rcases locationTracked with ⟨allowed, error⟩ | rel
  · obtain ⟨message, rfl⟩ := Ty.eq_error_of_isError error
    exact fun _ _ => ⟨_, rfl, .inl ⟨allowed, rfl⟩⟩
  · have kind := coupling.kind rel
    cases location <;> cases location' <;> simp only [Ty.kind, reduceCtorEq] at kind
    case ref.ref cell cell' =>
      simp only [assignRule]
      rcases storedTracked with ⟨allowed, error⟩ | storedRel
      · rw [if_pos error]
        exact fun _ _ => ⟨_, rfl, .inl ⟨allowed, error⟩⟩
      · rw [coupling.isError_eq storedRel]
        split
        · exact .pure (.inr storedRel)
        · by_cases fits : cell.compatible stored = true
          · rw [if_pos fits, if_pos (coupling.compatible (coupling.cell rel) storedRel fits)]
            exact .pure (.inr coupling.unit)
          · rw [if_neg fits]
            exact .noted
    all_goals exact .pure (.inr rel)

theorem follows_elementType {elem : Option Ty}
    (self : ∀ t, elem = some t → t.ErrorFree → related t t) :
    Follows (fun t' t => t' = t ∧ t.isError = false ∧ related (.list t) (.list t))
      (elementType anchor elem) (elementType anchor elem) := by
  intro t clean
  refine ⟨t, clean, rfl, ?_⟩
  obtain ⟨rfl, free⟩ := elementType_eq_pure_iff.mp clean
  cases elem with
  | none => exact ⟨rfl, coupling.empty⟩
  | some t =>
    have tFree := free t rfl
    exact ⟨tFree.isError_eq_false, coupling.list (self t rfl tFree) tFree⟩

omit coupling in
/-- Written types are the same in both checks. -/
theorem follows_annotations {binders : List Binder}
    (self : ∀ binder ∈ binders, ∀ t, binder.type = some t → t.ErrorFree → related t t) :
    Follows (fun types' types => types' = types ∧ (∀ t ∈ types, related t t ∧ t.ErrorFree) ∧
        types = binders.map fun binder => (annotated binder).value)
      (annotations binders) (annotations binders) := by
  intro types clean
  refine ⟨types, clean, rfl, ?_, by rw [← value_annotations, clean]; rfl⟩
  have declared := annotations_eq_pure_iff.mp clean
  induction declared with
  | nil => simp
  | cons head _ ih =>
    refine List.forall_mem_cons.mpr ⟨⟨self _ List.mem_cons_self _ head.1 head.2, head.2⟩, ?_⟩
    refine ih (fun binder member => self binder (List.mem_cons_of_mem _ member)) ?_
    exact annotations_eq_pure_iff.mpr ‹_›

theorem follows_bindingType {binder : Binder}
    (self : ∀ t, binder.type = some t → t.ErrorFree → related t t)
    (tracked : Tracks spoiled related t' t) :
    Follows (Tracks spoiled related) (bindingType binder anchor t')
      (bindingType binder anchor t) := by
  unfold bindingType
  split
  · exact .pure tracked
  · intro u clean
    obtain ⟨declared, written, fits⟩ := Diagnosed.bind_eq_pure_iff.mp clean
    obtain ⟨type, free⟩ := annotated_eq_pure_iff.mp written
    rw [written, pure_bind]
    exact follows_reconcile coupling free (self declared type free) tracked u fits

variable {o : Options} {env env' : Env Ty}

section

variable (eval : o.eval = .dynamic → related o.evalResult o.evalResult)
include eval

theorem follows_evalRule (tracked : Tracks spoiled related t' t) :
    Follows (Tracks spoiled related) (evalRule o form anchor t') (evalRule o form anchor t) := by
  rcases tracked with ⟨allowed, error⟩ | rel
  · simp only [evalRule, error, if_true]
    exact fun _ _ => ⟨_, rfl, .inl ⟨allowed, error⟩⟩
  · simp only [evalRule, coupling.isError_eq rel]
    split
    · exact .pure (.inr rel)
    · split
      next dynamic =>
        have tracked : Tracks spoiled related t' t := .inr rel
        refine .bind (follows_require coupling tracked fun rel fits => ?_) fun _ _ found => ?_
        · rwa [coupling.kind rel]
        · exact .pure (coupling.orError (.cons found .nil) fun _ _ => .inr (eval dynamic))
      next => exact .noted

theorem follows_unaryRule {op : UnaryOp} (tracked : Tracks spoiled related t' t) :
    Follows (Tracks spoiled related) (unaryRule o form op anchor t')
      (unaryRule o form op anchor t) := by
  have ofKind : ∀ {kind : Ty.Kind}, related t' t → (t.kind == kind) = true →
      (t'.kind == kind) = true := by
    intro kind rel fits
    rwa [coupling.kind rel]
  cases op with
  | car =>
    refine follows_project coupling tracked (fun _ => rfl) fun rel pair => ?_
    have pair' := (coupling.kind rel).trans pair
    cases t <;> cases t' <;> simp only [Ty.kind, reduceCtorEq] at pair pair'
    exact .pure (.inr (coupling.left rel))
  | cdr =>
    refine follows_project coupling tracked (fun _ => rfl) fun rel pair => ?_
    have pair' := (coupling.kind rel).trans pair
    cases t <;> cases t' <;> simp only [Ty.kind, reduceCtorEq] at pair pair'
    exact .pure (.inr (coupling.right rel))
  | null =>
    refine .bind (follows_require coupling tracked ofKind) fun _ _ found => ?_
    exact .pure (coupling.orError (.cons found .nil) fun _ _ => .inr coupling.bool)
  | ref =>
    refine .pure (coupling.orError (.cons tracked .nil) fun all sound => .inr ?_)
    exact coupling.ref (List.forall₂_cons.mp all).1 (sound t (by simp))
  | deref =>
    refine follows_project coupling tracked (fun _ => rfl) fun rel ref => ?_
    have ref' := (coupling.kind rel).trans ref
    cases t <;> cases t' <;> simp only [Ty.kind, reduceCtorEq] at ref ref'
    exact .pure (.inr (coupling.cell rel))
  | free =>
    refine .bind (follows_require coupling tracked ofKind) fun _ _ found => ?_
    exact .pure (coupling.orError (.cons found .nil) fun _ _ => .inr coupling.unit)
  | eval => exact follows_evalRule coupling eval tracked

end

/-! Expressions. -/

omit coupling in
theorem follows_exprs {es : List Expr}
    (each : ∀ e ∈ es, Follows (Tracks spoiled related) (expr o env' e) (expr o env e)) :
    Follows (List.Forall₂ (TracksAt spoiled related)) (exprs o env' es) (exprs o env es) := by
  induction es with
  | nil => exact .pure .nil
  | cons e es ih =>
    have rest := ih fun e member => each e (List.mem_cons_of_mem _ member)
    rw [exprs_cons, exprs_cons]
    exact .bind (each e List.mem_cons_self) fun _ _ first =>
      .bind rest fun _ _ rest => .pure (.cons ⟨rfl, first⟩ rest)

theorem follows_operand {index : Nat} {op : String} (tracked : Tracks spoiled related t' t) :
    Follows (Tracks spoiled related) (operand index op anchor t') (operand index op anchor t) :=
  follows_require coupling tracked fun rel fits => by rwa [coupling.kind rel]

theorem follows_reference {op : String} (tracked : Tracks spoiled related t' t) :
    Follows (Tracks spoiled related) (reference op anchor t') (reference op anchor t) :=
  follows_require coupling tracked fun rel fits => by rwa [coupling.kind rel]

theorem follows_operands {op : String} {index : Nat} {es : List Expr}
    (each : ∀ e ∈ es, Follows (Tracks spoiled related) (expr o env' e) (expr o env e)) :
    Follows (List.Forall₂ (Tracks spoiled related)) (operands o env' op index es)
      (operands o env op index es) := by
  induction es generalizing index with
  | nil => exact .pure .nil
  | cons e es ih =>
    have rest := @ih (index + 1) fun e member => each e (List.mem_cons_of_mem _ member)
    rw [operands_cons, operands_cons]
    refine .bind (.bind (each e List.mem_cons_self) fun _ _ => follows_operand coupling) ?_
    exact fun _ _ first => .bind rest fun _ _ rest => .pure (.cons first rest)

theorem follows_bindings {bound : List (Binder × Expr)}
    (self : ∀ binding ∈ bound, ∀ t, binding.1.type = some t → t.ErrorFree → related t t)
    (each : ∀ binding ∈ bound,
      Follows (Tracks spoiled related) (expr o env' binding.2) (expr o env binding.2)) :
    Follows (Env.RelatedBindings (Tracks spoiled related)) (bindings o env' bound)
      (bindings o env bound) := by
  induction bound with
  | nil => exact .pure .nil
  | cons binding rest ih =>
    obtain ⟨binder, value⟩ := binding
    have others := ih (fun binding member => self binding (List.mem_cons_of_mem _ member))
      fun binding member => each binding (List.mem_cons_of_mem _ member)
    have binderSelf := self _ List.mem_cons_self
    rw [bindings_cons, bindings_cons]
    refine .bind (.bind (each _ List.mem_cons_self) fun _ _ =>
      follows_bindingType coupling binderSelf) ?_
    exact fun _ _ first => .bind others fun _ _ others => .pure (.cons ⟨rfl, first⟩ others)

theorem follows_recursiveBindings {bound : List (Binder × Expr)}
    (self : ∀ binding ∈ bound, related (annotated binding.1).value (annotated binding.1).value ∧
      (annotated binding.1).value.ErrorFree)
    (each : ∀ binding ∈ bound,
      Follows (Tracks spoiled related) (expr o env' binding.2) (expr o env binding.2)) :
    Follows (List.Forall₂ (Tracks spoiled related)) (recursiveBindings o env' bound)
      (recursiveBindings o env bound) := by
  induction bound with
  | nil => exact .pure .nil
  | cons binding rest ih =>
    obtain ⟨binder, value⟩ := binding
    have others := ih (fun binding member => self binding (List.mem_cons_of_mem _ member))
      fun binding member => each binding (List.mem_cons_of_mem _ member)
    obtain ⟨declaredSelf, free⟩ := self _ List.mem_cons_self
    rw [recursiveBindings_cons, recursiveBindings_cons]
    refine .bind (.bind (each _ List.mem_cons_self) fun _ _ =>
      follows_reconcile coupling free declaredSelf) ?_
    exact fun _ _ first => .bind others fun _ _ others => .pure (.cons first others)

omit coupling in
/-- Inside a form that binds names by their written types the environments are still related. -/
theorem related_scope {binders : List Binder} {types : List Ty}
    (envs : Env.Related (Tracks spoiled related) env' env)
    (self : ∀ t ∈ types, related t t ∧ t.ErrorFree) :
    Env.Related (Tracks spoiled related) (scope env' binders types) (scope env binders types) := by
  refine envs.extendAll (List.forall₂_same.mpr fun binding member => ⟨rfl, .inr ?_⟩)
  exact (self _ (List.of_mem_zip member).2).1

theorem follows_binary {token : Token} {op : BinaryOp} {left right : Expr}
    (leftFollows : Follows (Tracks spoiled related) (expr o env' left) (expr o env left))
    (rightFollows : Follows (Tracks spoiled related) (expr o env' right) (expr o env right)) :
    Follows (Tracks spoiled related) (expr o env' (.binary token op left right))
      (expr o env (.binary token op left right)) := by
  have numeric : ∀ result, op.numericResult? = some result → related result result →
      Follows (Tracks spoiled related) (expr o env' (.binary token op left right))
        (expr o env (.binary token op left right)) := by
    intro result numeric self
    rw [expr_numeric numeric, expr_numeric numeric]
    exact .bind (leftFollows.bind fun _ _ => follows_operand coupling) fun _ _ first =>
      .bind (rightFollows.bind fun _ _ => follows_operand coupling) fun _ _ second =>
        .pure (coupling.orError (.cons first (.cons second .nil)) fun _ _ => .inr self)
  cases op with
  | cons =>
    rw [expr_cons, expr_cons]
    refine .bind leftFollows fun _ _ first => .bind rightFollows fun _ _ second =>
      .pure (coupling.orError (.cons first (.cons second .nil)) fun all sound => .inr ?_)
    obtain ⟨firstRel, rest⟩ := List.forall₂_cons.mp all
    exact coupling.pair firstRel (List.forall₂_cons.mp rest).1 (sound _ (by simp))
      (sound _ (by simp))
  | assign =>
    rw [expr_assign, expr_assign]
    exact .bind (leftFollows.bind fun _ _ => follows_reference coupling) fun _ _ first =>
      .bind rightFollows fun _ _ second => follows_assignRule coupling first second
  | sub | mul | div => exact numeric _ rfl coupling.num
  | less | greater | equal => exact numeric _ rfl coupling.bool

theorem follows_expr (read : related o.inputType o.inputType)
    (eval : o.eval = .dynamic → related o.evalResult o.evalResult) (e : Expr)
    (self : ∀ t ∈ e.writtenTypes, t.ErrorFree → related t t)
    (envs : Env.Related (Tracks spoiled related) env' env) :
    Follows (Tracks spoiled related) (expr o env' e) (expr o env e) := by
  induction e using Expr.induction generalizing env env' with
  | absent | broken => exact .noted
  | number => exact .pure (.inr coupling.num)
  | string => exact .pure (.inr coupling.str)
  | bool => exact .pure (.inr coupling.bool)
  | unit => exact .pure (.inr coupling.unit)
  | var token name =>
    rw [expr_var, expr_var]
    have found := envs name
    generalize env'.lookup? name = type', env.lookup? name = type at found
    cases found with
    | some tracked => exact .pure tracked
    | none => exact .noted
  | add token addends ih =>
    rw [expr_add, expr_add]
    refine .bind (follows_operands coupling fun e member => ih e member (fun t written => ?_) envs)
      fun _ _ found => .pure (coupling.orError found fun _ _ => .inr coupling.num)
    exact self t (Expr.mem_writtenTypesAll.mpr ⟨e, member, written⟩)
  | binary token op left right ihLeft ihRight =>
    simp only [Expr.writtenTypes, List.forall_mem_append] at self
    exact follows_binary coupling (ihLeft self.1 envs) (ihRight self.2 envs)
  | unary token op operand ih =>
    rw [expr_unary, expr_unary]
    exact .bind (ih self envs) fun _ _ => follows_unaryRule coupling eval
  | branch token cond yes no ihCond ihYes ihNo =>
    simp only [Expr.writtenTypes, List.forall_mem_append] at self
    rw [expr_branch, expr_branch]
    exact .bind (ihCond self.1.1 envs) fun _ _ cond => .bind (ihYes self.1.2 envs)
      fun _ _ yes => .bind (ihNo self.2 envs) fun _ _ no =>
        follows_branchRule coupling cond yes no
  | letIn token bound body ihBound ihBody =>
    simp only [Expr.writtenTypes, List.forall_mem_append] at self
    have values := follows_bindings coupling
      (fun binding member t written =>
        self.1 t (Expr.mem_writtenTypesBindings.mpr ⟨binding, member, .inl written⟩))
      (fun binding member => ihBound binding member (fun t written =>
        self.1 t (Expr.mem_writtenTypesBindings.mpr ⟨binding, member, .inr written⟩)) envs)
    rw [expr_letIn, expr_letIn]
    refine .bind values fun types' types bound => ?_
    refine .bind (ihBody self.2 (envs.extendAll bound)) fun _ _ body => .pure ?_
    refine coupling.orError ?_ fun _ _ => body
    rw [List.forall₂_map_left_iff, List.forall₂_map_right_iff]
    exact bound.imp fun _ _ binding => binding.2
  | letrec token bound body ihBound ihBody =>
    simp only [Expr.writtenTypes, List.forall_mem_append] at self
    have written : ∀ binder ∈ bound.map (·.1), ∀ t, binder.type = some t → t.ErrorFree →
        related t t := by
      refine List.forall_mem_map.mpr fun binding member t written => ?_
      exact self.1 t (Expr.mem_writtenTypesBindings.mpr ⟨binding, member, .inl written⟩)
    rw [expr_letrec, expr_letrec]
    refine .bind (follows_annotations written) ?_
    rintro _ types ⟨rfl, typesSelf, rfl⟩
    have inner := @related_scope _ _ _ _ (bound.map (·.1)) _ envs typesSelf
    refine .bind (follows_recursiveBindings coupling ?_ fun binding member =>
      ihBound binding member (fun t written =>
        self.1 t (Expr.mem_writtenTypesBindings.mpr ⟨binding, member, .inr written⟩)) inner) ?_
    · rw [List.map_map, List.forall_mem_map] at typesSelf
      exact typesSelf
    intro values' values valuesTracked
    refine .bind (ihBody self.2 inner) fun _ _ body => .pure ?_
    refine coupling.orError (List.rel_append ?_ valuesTracked) fun _ _ => body
    exact List.forall₂_same.mpr fun t member => .inr (typesSelf t member).1
  | lambda token params body ih =>
    simp only [Expr.writtenTypes, List.forall_mem_append] at self
    have written : ∀ binder ∈ params, ∀ t, binder.type = some t → t.ErrorFree → related t t := by
      intro binder member t written
      exact self.1 t (List.mem_filterMap.mpr ⟨binder, member, written⟩)
    rw [expr_lambda, expr_lambda]
    refine .bind (follows_annotations written) ?_
    rintro types _ ⟨rfl, typesSelf, -⟩
    refine .bind (ih self.2 (related_scope envs typesSelf)) fun _ _ body => .pure ?_
    refine coupling.orError (List.rel_append ?_ (.cons body .nil)) fun all sound => .inr ?_
    · exact List.forall₂_same.mpr fun t member => .inr (typesSelf t member).1
    · have last := List.forall₂_drop_append _ types _ all
      rw [List.drop_left] at last
      exact coupling.func typesSelf (List.forall₂_cons.mp last).1 (sound _ (by simp))
  | call token operator args ihOperator ihArgs =>
    simp only [Expr.writtenTypes, List.forall_mem_append] at self
    rw [expr_call, expr_call]
    refine .bind (ihOperator self.1 envs) fun _ _ callee => ?_
    have types := follows_exprs fun e member => ihArgs e member (fun t written =>
      self.2 t (Expr.mem_writtenTypesAll.mpr ⟨e, member, written⟩)) envs
    exact .bind types fun _ _ found => follows_callRule coupling callee found
  | list token elem elems ih =>
    simp only [Expr.writtenTypes, List.forall_mem_append] at self
    have written : ∀ t, elem = some t → t.ErrorFree → related t t := by
      intro t written
      exact self.1 t (by simp [written])
    have types := follows_exprs fun e member => ih e member (fun t written =>
      self.2 t (Expr.mem_writtenTypesAll.mpr ⟨e, member, written⟩)) envs
    rw [expr_list, expr_list]
    refine .bind (follows_elementType coupling written) ?_
    rintro _ t ⟨rfl, sound, listSelf⟩
    exact .bind types fun _ _ found => follows_listRule coupling sound listSelf found
  | read token => exact .pure (.inr read)
  | readFrom token source ih =>
    rw [expr_readFrom, expr_readFrom]
    refine .bind (.bind (ih self envs) fun _ _ found => follows_require coupling found
      fun rel fits => by rwa [coupling.kind rel]) fun _ _ found => ?_
    exact .pure (coupling.orError (.cons found .nil) fun _ _ => .inr read)

/-- A check held against itself: where every name stands for a type that is related to itself,
such a type is found. -/
theorem related_self {e : Expr} (read : related o.inputType o.inputType)
    (eval : o.eval = .dynamic → related o.evalResult o.evalResult)
    (self : ∀ t ∈ e.writtenTypes, t.ErrorFree → related t t)
    (envSelf : env.All fun t => related t t)
    (clean : (expr o env e).notes = []) : related (expr o env e).value (expr o env e).value := by
  have envs : Env.Related (Tracks False related) env env := by
    intro name
    cases found : env.lookup? name with
    | none => exact .none
    | some t => exact .some (.inr (envSelf name t found))
  obtain ⟨t', clean', ⟨impossible, _⟩ | rel⟩ := follows_expr coupling read eval e self envs _
    (Diagnosed.eq_pure_iff.mpr ⟨clean, rfl⟩)
  · exact impossible.elim
  · rwa [← (Diagnosed.eq_pure_iff.mp clean').2] at rel

end

end Check

end TypedForms
