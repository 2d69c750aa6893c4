import TypedForms.Proofs.Diagnosed
import TypedForms.Proofs.Grammar
import TypedForms.Ty.Parse

/-! A datum is read as a type without a note exactly if its tokens spell that type. -/
namespace TypedForms.Ty

variable {token : Token} {tokens : List Token} {d : Datum} {ds elems : List Datum} {t : Ty}
  {ts : List Ty}

theorem malformed_ne_pure {cause : ParseError} : ¬ malformed token cause = pure t :=
  Diagnosed.note_bind_ne_pure

theorem ofName?_eq_some_iff {name : String} : ofName? name = some t ↔ Named name t := by
  constructor
  · intro found
    unfold ofName? at found
    split at found <;> cases found
    · exact .num
    · exact .str
    · exact .bool
    · exact .unit
  · rintro (_ | _ | _ | _) <;> rfl

theorem ofToken_eq_pure_iff :
    ofToken token = pure t ↔ token.kind = .keyword .unit ∧ t = .unit ∨
      token.kind = .ident ∧ Named token.literal t := by
  unfold ofToken
  split
  next unit =>
    simp only [unit, Diagnosed.pure_inj, true_and, reduceCtorEq, false_and, or_false]
    exact eq_comm
  next ident =>
    simp only [ident, reduceCtorEq, false_and, true_and, false_or, ← ofName?_eq_some_iff]
    cases ofName? token.literal with
    | none => simpa using malformed_ne_pure
    | some u => simp
  next unit ident =>
    refine iff_of_false malformed_ne_pure ?_
    rintro (⟨kind, _⟩ | ⟨kind, _⟩)
    · exact unit kind
    · exact ident kind

/-- The tokens that a type of the head can start with. -/
def Head.Fits : Head → Token → Prop
  | .list, token => token.kind = .keyword .list
  | .ref, token => token.kind = .keyword .ref
  | .pair, token => token.kind = .ident ∧ token.literal = "pair"
  | .other, _ => False

theorem Head.ofDatum_atom {head : Head} (fits : head.Fits token) :
    Head.ofDatum (.atom token) = head := by
  rw [ofDatum, Head.ofToken]
  cases head with
  | list =>
    have kind : token.kind = .keyword .list := fits
    rw [kind]
  | ref =>
    have kind : token.kind = .keyword .ref := fits
    rw [kind]
  | pair =>
    obtain ⟨kind, literal⟩ := fits
    simp [kind, literal]
  | other => exact fits.elim

theorem Head.exists_token {head : Head} (same : Head.ofDatum d = head) (known : head ≠ .other) :
    ∃ token, d = .atom token ∧ head.Fits token := by
  subst same
  cases d with
  | list => exact absurd rfl known
  | atom token =>
    refine ⟨token, rfl, ?_⟩
    rw [ofDatum, Head.ofToken] at known ⊢
    split at known
    next kind => exact kind
    next kind => exact kind
    next kind =>
      by_cases pair : token.literal = "pair"
      · simp only [pair, BEq.rfl, if_true]
        exact ⟨kind, pair⟩
      · simp [pair] at known
    next => exact absurd rfl known

theorem ofEach_eq_map : ofEach ds = ds.map ofDatum := by
  induction ds with
  | nil => rfl
  | cons d ds ih => rw [ofEach, ih, List.map_cons]

private theorem exists_of_findIdx? {index : Nat} {p : Datum → Bool}
    (found : ds.findIdx? p = some index) :
    ∃ before d after, ds = before ++ d :: after ∧ before.length = index ∧ p d = true := by
  obtain ⟨bound, holds, _⟩ := List.findIdx?_eq_some_iff_getElem.mp found
  refine ⟨ds.take index, ds[index], ds.drop (index + 1), ?_, ?_, holds⟩
  · rw [← List.drop_eq_getElem_cons, List.take_append_drop]
  · rw [List.length_take, Nat.min_eq_left (Nat.le_of_lt bound)]

private theorem take_types {before after : List Datum} :
    ((before ++ d :: after).map ofDatum).take before.length = before.map ofDatum := by
  simp

private theorem drop_types {before after : List Datum} :
    ((before ++ d :: after).map ofDatum).drop (before.length + 1) = after.map ofDatum := by
  rw [← List.map_drop, List.drop_length_add_append]
  rfl

/-- The shapes that a type in parentheses can have. -/
inductive Compound : List Datum → Ty → Prop where
  | func {params arrow result types t} (each : List.Forall₂ (ofDatum · = pure ·) params types)
    (kind : Token.kind arrow = .mark .arrow) (last : ofDatum result = pure t) :
    Compound (params ++ [.atom arrow, result]) (.func types t)
  | pair {head first second left right} (kind : Token.kind head = .ident)
    (literal : head.literal = "pair") (leftType : ofDatum first = pure left)
    (rightType : ofDatum second = pure right) :
    Compound [.atom head, first, second] (.pair left right)
  | list {head d elem} (kind : Token.kind head = .keyword .list)
    (elemType : ofDatum d = pure elem) : Compound [.atom head, d] (.list elem)
  | ref {head d elem} (kind : Token.kind head = .keyword .ref)
    (elemType : ofDatum d = pure elem) : Compound [.atom head, d] (.ref elem)

theorem compound_of_clean {opening : Token}
    (clean : compound opening elems (elems.map ofDatum) = pure t) : Compound elems t := by
  unfold compound at clean
  split at clean
  next index found =>
    obtain ⟨params, arrow, after, rfl, rfl, isArrow⟩ := exists_of_findIdx? found
    obtain ⟨arrow, rfl, kind⟩ := Datum.isAtom_iff.mp isArrow
    rw [drop_types, take_types] at clean
    split at clean
    next result single =>
      obtain ⟨last, rfl, rfl⟩ := List.map_eq_singleton_iff.mp single
      simp only [Diagnosed.bind_eq_pure_iff, Diagnosed.pure_inj, Diagnosed.sequence_eq_pure_iff,
        List.forall₂_map_left_iff] at clean
      obtain ⟨types, each, u, lastClean, rfl⟩ := clean
      exact .func each kind lastClean
    next => exact absurd clean malformed_ne_pure
  next =>
    split at clean
    next => exact absurd clean malformed_ne_pure
    next head rest =>
      rw [List.map_cons, List.drop_one, List.tail_cons] at clean
      split at clean
      next isList single =>
        obtain ⟨d, rfl, rfl⟩ := List.map_eq_singleton_iff.mp single
        obtain ⟨head, rfl, kind⟩ := Head.exists_token isList (by simp)
        simp only [Diagnosed.bind_eq_pure_iff, Diagnosed.pure_inj] at clean
        obtain ⟨elem, elemClean, rfl⟩ := clean
        exact .list kind elemClean
      next isRef single =>
        obtain ⟨d, rfl, rfl⟩ := List.map_eq_singleton_iff.mp single
        obtain ⟨head, rfl, kind⟩ := Head.exists_token isRef (by simp)
        simp only [Diagnosed.bind_eq_pure_iff, Diagnosed.pure_inj] at clean
        obtain ⟨elem, elemClean, rfl⟩ := clean
        exact .ref kind elemClean
      next isPair two =>
        obtain ⟨first, more, rfl, rfl, single⟩ := List.map_eq_cons_iff.mp two
        obtain ⟨second, rfl, rfl⟩ := List.map_eq_singleton_iff.mp single
        obtain ⟨head, rfl, kind, literal⟩ := Head.exists_token isPair (by simp)
        simp only [Diagnosed.bind_eq_pure_iff, Diagnosed.pure_inj] at clean
        obtain ⟨left, leftClean, right, rightClean, rfl⟩ := clean
        exact .pair kind literal leftClean rightClean
      next => exact absurd clean malformed_ne_pure

theorem not_clean_arrow (isArrow : d.isAtom (.mark .arrow) = true) : ¬ ofDatum d = pure t := by
  obtain ⟨token, rfl, kind⟩ := Datum.isAtom_iff.mp isArrow
  rw [ofDatum, ofToken_eq_pure_iff]
  simp [kind]

theorem clean_of_compound {opening : Token} (shape : Compound elems t) :
    compound opening elems (elems.map ofDatum) = pure t := by
  have noArrow : ∀ {d : Datum} {u : Ty}, ofDatum d = pure u → d.isAtom (.mark .arrow) = false :=
    fun clean => Bool.eq_false_iff.mpr fun isArrow => not_clean_arrow isArrow clean
  have noArrowHead : ∀ {head : Token} {kind}, head.kind = kind → kind ≠ .mark .arrow →
      (Datum.atom head).isAtom (.mark .arrow) = false := by
    rintro head _ rfl other
    simpa using other
  cases shape with
  | @func params arrow result types t each kind last =>
    have none : params.findIdx? (·.isAtom (.mark .arrow)) = none := by
      rw [List.findIdx?_eq_none_iff]
      induction each with
      | nil => simp
      | cons clean _ ih => exact List.forall_mem_cons.mpr ⟨noArrow clean, ih⟩
    have found : (params ++ [.atom arrow, result]).findIdx? (·.isAtom (.mark .arrow)) =
        some params.length := by
      rw [List.findIdx?_append, none]
      simp [List.findIdx?_cons, kind]
    have paramsClean : Diagnosed.sequence (params.map ofDatum) = pure types := by
      rw [Diagnosed.sequence_eq_pure_iff, List.forall₂_map_left_iff]
      exact each
    unfold compound
    rw [found]
    simp only [take_types, drop_types, List.map_cons, List.map_nil, paramsClean, last, pure_bind]
  | pair kind literal leftType rightType =>
    have head := @Head.ofDatum_atom _ .pair ⟨kind, literal⟩
    have arrow := noArrowHead kind (by decide)
    simp [compound, List.findIdx?_cons, arrow, noArrow leftType, noArrow rightType, head,
      leftType, rightType]
  | list kind elemType =>
    have head := @Head.ofDatum_atom _ .list kind
    have arrow := noArrowHead kind (by decide)
    simp [compound, List.findIdx?_cons, arrow, noArrow elemType, head, elemType]
  | ref kind elemType =>
    have head := @Head.ofDatum_atom _ .ref kind
    have arrow := noArrowHead kind (by decide)
    simp [compound, List.findIdx?_cons, arrow, noArrow elemType, head, elemType]

/-! Sound: a type is only read from tokens that spell it. -/

theorem spellAll_of_clean
    (each : ∀ d ∈ ds, ∀ tokens t, Datum.Spells tokens d → ofDatum d = pure t → Spells tokens t)
    (spells : Datum.SpellAll tokens ds) (clean : List.Forall₂ (ofDatum · = pure ·) ds ts) :
    SpellAll tokens ts := by
  induction clean generalizing tokens with
  | nil =>
    cases spells
    exact .nil
  | cons first _ ih =>
    cases spells with | cons head tail =>
    refine .cons (each _ List.mem_cons_self _ _ head first) (ih ?_ tail)
    exact fun d member => each d (List.mem_cons_of_mem _ member)

theorem spells_of_clean (spells : Datum.Spells tokens d) (clean : ofDatum d = pure t) :
    Spells tokens t := by
  induction d using Datum.induction generalizing tokens t with
  | atom token =>
    rw [spells.of_atom]
    rcases ofToken_eq_pure_iff.mp clean with ⟨kind, rfl⟩ | ⟨kind, named⟩
    · exact .unit kind
    · exact .name kind named
  | list opening elems ih =>
    cases spells with | list parens inner =>
    rw [ofDatum, ofEach_eq_map] at clean
    have sound : ∀ d ∈ elems, ∀ tokens t, Datum.Spells tokens d → ofDatum d = pure t →
        Spells tokens t :=
      fun d member tokens t => ih d (Datum.sizeOf_lt_of_mem member)
    cases compound_of_clean clean with
    | @func params arrow result types t each kind last =>
      obtain ⟨before, after, rfl, beforeSpells, afterSpells⟩ := inner.of_append
      obtain ⟨after, rfl, resultSpells⟩ := afterSpells.of_atom_cons
      refine .func parens (spellAll_of_clean ?_ beforeSpells each) kind (sound result ?_ _ _
        (Datum.SpellAll.single_iff.mp resultSpells) last)
      · exact fun d member => sound d (List.mem_append_left _ member)
      · simp
    | pair kind literal leftType rightType =>
      obtain ⟨inside, rfl, args⟩ := inner.of_atom_cons
      cases args with | cons firstSpells second =>
      exact .pair parens kind literal (sound _ (by simp) _ _ firstSpells leftType)
        (sound _ (by simp) _ _ (Datum.SpellAll.single_iff.mp second) rightType)
    | list kind elemType =>
      obtain ⟨inside, rfl, args⟩ := inner.of_atom_cons
      exact .list parens kind
        (sound _ (by simp) _ _ (Datum.SpellAll.single_iff.mp args) elemType)
    | ref kind elemType =>
      obtain ⟨inside, rfl, args⟩ := inner.of_atom_cons
      exact .ref parens kind
        (sound _ (by simp) _ _ (Datum.SpellAll.single_iff.mp args) elemType)

/-! Complete: tokens that spell a type are those of a datum that is read as it. -/

mutual

theorem exists_datum {tokens : List Token} {t : Ty} :
    Spells tokens t → ∃ d, Datum.Spells tokens d ∧ ofDatum d = pure t
  | .unit kind =>
    ⟨_, Datum.Spells.ofKind kind (by decide) (by decide),
      ofToken_eq_pure_iff.mpr (.inl ⟨kind, rfl⟩)⟩
  | .name kind named =>
    ⟨_, Datum.Spells.ofKind kind (by decide) (by decide),
      ofToken_eq_pure_iff.mpr (.inr ⟨kind, named⟩)⟩
  | .func parens before kind after => by
    obtain ⟨params, paramsSpell, each⟩ := exists_data before
    obtain ⟨result, resultSpells, last⟩ := exists_datum after
    have arrow := Datum.Spells.ofKind kind (by decide) (by decide)
    have inner := paramsSpell.append (.cons arrow (Datum.SpellAll.single_iff.mpr resultSpells))
    refine ⟨_, .list parens inner, ?_⟩
    rw [ofDatum, ofEach_eq_map]
    exact clean_of_compound (.func each kind last)
  | .pair parens kind literal leftType rightType => by
    obtain ⟨first, firstSpells, leftClean⟩ := exists_datum leftType
    obtain ⟨second, secondSpells, rightClean⟩ := exists_datum rightType
    have head := Datum.Spells.ofKind kind (by decide) (by decide)
    have rest := Datum.SpellAll.cons firstSpells (Datum.SpellAll.single_iff.mpr secondSpells)
    refine ⟨_, .list parens (.cons head rest), ?_⟩
    rw [ofDatum, ofEach_eq_map]
    exact clean_of_compound (.pair kind literal leftClean rightClean)
  | .list parens kind elemType => by
    obtain ⟨d, spells, clean⟩ := exists_datum elemType
    have head := Datum.Spells.ofKind kind (by decide) (by decide)
    refine ⟨_, .list parens (.cons head (Datum.SpellAll.single_iff.mpr spells)), ?_⟩
    rw [ofDatum, ofEach_eq_map]
    exact clean_of_compound (.list kind clean)
  | .ref parens kind elemType => by
    obtain ⟨d, spells, clean⟩ := exists_datum elemType
    have head := Datum.Spells.ofKind kind (by decide) (by decide)
    refine ⟨_, .list parens (.cons head (Datum.SpellAll.single_iff.mpr spells)), ?_⟩
    rw [ofDatum, ofEach_eq_map]
    exact clean_of_compound (.ref kind clean)

theorem exists_data {tokens : List Token} {ts : List Ty} :
    SpellAll tokens ts →
      ∃ ds, Datum.SpellAll tokens ds ∧ List.Forall₂ (ofDatum · = pure ·) ds ts
  | .nil => ⟨[], .nil, .nil⟩
  | .cons head tail => by
    obtain ⟨d, spells, clean⟩ := exists_datum head
    obtain ⟨ds, restSpell, restClean⟩ := exists_data tail
    exact ⟨d :: ds, .cons spells restSpell, .cons clean restClean⟩

end

end TypedForms.Ty
