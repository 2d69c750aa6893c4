import TypedForms.Proofs.Grammar
import TypedForms.Proofs.Token.Scan
import TypedForms.Proofs.Ty.Order

/-! The text of a type without placeholders is read as tokens that spell the type. -/
namespace TypedForms.Ty

open Scanner (Reads)

variable {t : Ty} {ts : List Ty}

@[simp] theorem isConcrete_func {params : List Ty} {result : Ty} :
    (Ty.func params result).isConcrete = true ↔
      (∀ t ∈ params, t.isConcrete = true) ∧ result.isConcrete = true := by
  simp only [isConcrete_iff, contains, Bool.or_eq_false_iff, containsAny_eq_false_iff, forall_and]
  simp only [reduceCtorEq, beq_eq_false_iff_ne, ne_eq, not_false_eq_true, true_and]
  exact and_and_and_comm

@[simp] theorem isConcrete_pair {left right : Ty} :
    (Ty.pair left right).isConcrete = true ↔
      left.isConcrete = true ∧ right.isConcrete = true := by
  simp [isConcrete_iff, contains, and_and_and_comm]

@[simp] theorem isConcrete_list {elem : Ty} :
    (Ty.list elem).isConcrete = true ↔ elem.isConcrete = true := by
  simp [isConcrete_iff, contains]

@[simp] theorem isConcrete_ref {elem : Ty} :
    (Ty.ref elem).isConcrete = true ↔ elem.isConcrete = true := by
  simp [isConcrete_iff, contains]

theorem Named.isConcrete {name : String} {t : Ty} : Named name t → t.isConcrete = true
  | .num | .str | .bool | .unit => rfl

mutual

theorem Spells.isConcrete {tokens : List Token} {t : Ty} : Spells tokens t → t.isConcrete = true
  | .unit _ => rfl
  | .name _ named => named.isConcrete
  | .func _ before _ after => isConcrete_func.mpr ⟨before.isConcrete, after.isConcrete⟩
  | .pair _ _ _ left right => isConcrete_pair.mpr ⟨left.isConcrete, right.isConcrete⟩
  | .list _ _ elem => isConcrete_list.mpr elem.isConcrete
  | .ref _ _ elem => isConcrete_ref.mpr elem.isConcrete

theorem SpellAll.isConcrete {tokens : List Token} {ts : List Ty} :
    SpellAll tokens ts → ∀ t ∈ ts, t.isConcrete = true
  | .nil => by simp
  | .cons head tail => List.forall_mem_cons.mpr ⟨head.isConcrete, tail.isConcrete⟩

end

/-- All the ways to write a type. -/
def spellings (t : Ty) : Language Token := {tokens | Spells tokens t}

def spellingsAll (ts : List Ty) : Language Token := {tokens | SpellAll tokens ts}

theorem reads_name {word : String} {kind : Token.Kind} (nonempty : word.toList ≠ [])
    (chars : word.toList.all Token.isSymbolChar = true)
    (same : Token.symbolKind word.toList = kind)
    (spells : ∀ pos, Spells [⟨kind, word, pos⟩] t) : Reads word.toList t.spellings := by
  refine (Reads.spelled nonempty chars same).mono ?_
  rintro _ ⟨pos, rfl⟩
  exact spells pos

theorem reads_renderAll {parts : List String} {language : Language Token}
    (each : ∀ t ∈ ts, Reads t.render.toList t.spellings)
    (rest : Reads (Text.joined " " parts).toList language) :
    Reads (Text.joined " " (renderAll ts ++ parts)).toList (spellingsAll ts * language) := by
  induction ts with
  | nil =>
    refine rest.mono fun tokens member => ?_
    exact ⟨[], SpellAll.nil, tokens, member, rfl⟩
  | cons t ts ih =>
    obtain ⟨first, others⟩ := List.forall_mem_cons.mp each
    refine (first.cons (ih others)).mono ?_
    rintro _ ⟨head, headSpells, _, ⟨tail, tailSpell, after, member, rfl⟩, rfl⟩
    exact ⟨head ++ tail, .cons headSpells tailSpell, after, member, List.append_assoc ..⟩

theorem reads_render (t : Ty) (concrete : t.isConcrete = true) :
    Reads t.render.toList t.spellings := by
  induction t using Ty.induction with
  | unresolved | error => cases concrete
  | num => exact reads_name (by decide) (by decide) rfl fun _ => .name rfl .num
  | str => exact reads_name (by decide) (by decide) rfl fun _ => .name rfl .str
  | bool => exact reads_name (by decide) (by decide) rfl fun _ => .name rfl .bool
  | unit => exact reads_name (by decide) (by decide) rfl fun _ => .unit rfl
  | func params result ihParams ihResult =>
    obtain ⟨paramsConcrete, resultConcrete⟩ := isConcrete_func.mp concrete
    have arrow : Reads "->".toList (Token.single (.mark .arrow) "->") :=
      .spelled (by decide) (by decide) rfl
    have last := Reads.cons arrow (.joined_single (ihResult resultConcrete))
    have inside := reads_renderAll (fun t member => ihParams t member (paramsConcrete t member))
      last
    refine inside.parensText.mono ?_
    rintro _ ⟨start, finish, _, ⟨before, beforeSpell, _,
      ⟨_, ⟨pos, rfl⟩, after, afterSpells, rfl⟩, rfl⟩, rfl⟩
    exact .func ⟨rfl, rfl⟩ beforeSpell rfl afterSpells
  | pair left right ihLeft ihRight =>
    obtain ⟨leftConcrete, rightConcrete⟩ := isConcrete_pair.mp concrete
    have head : Reads "pair".toList (Token.single .ident "pair") :=
      .spelled (by decide) (by decide) rfl
    have inside := head.cons ((ihLeft leftConcrete).cons
      (.joined_single (ihRight rightConcrete)))
    refine inside.parensText.mono ?_
    rintro _ ⟨start, finish, _, ⟨_, ⟨pos, rfl⟩, _, ⟨first, firstSpells, second, secondSpells,
      rfl⟩, rfl⟩, rfl⟩
    exact @Spells.pair _ _ _ first second _ _ ⟨rfl, rfl⟩ rfl rfl firstSpells secondSpells
  | list elem ih =>
    have inside := (Reads.keyword .list).cons (.joined_single (ih (isConcrete_list.mp concrete)))
    refine inside.parensText.mono ?_
    rintro _ ⟨start, finish, _, ⟨_, ⟨pos, rfl⟩, inner, spells, rfl⟩, rfl⟩
    exact .list ⟨rfl, rfl⟩ rfl spells
  | ref elem ih =>
    have inside := (Reads.keyword .ref).cons (.joined_single (ih (isConcrete_ref.mp concrete)))
    refine inside.parensText.mono ?_
    rintro _ ⟨start, finish, _, ⟨_, ⟨pos, rfl⟩, inner, spells, rfl⟩, rfl⟩
    exact .ref ⟨rfl, rfl⟩ rfl spells

end TypedForms.Ty
