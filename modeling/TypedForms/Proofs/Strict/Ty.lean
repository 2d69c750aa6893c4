import TypedForms.Proofs.Guarded
import TypedForms.Proofs.Ty.Grammar
import TypedForms.Proofs.Ty.Join

/-! Types, with partial operations in the open. Where types are compared, a type is taken apart
after its kind has been compared, and a parameter is taken by its place after the parameters have
been counted. Where types are read, the parts of a type are taken by their places, and the message
of an error is that of the note made last. None of this ever stops. -/
namespace TypedForms

/-- The element and what comes after it, at a place in a list. -/
theorem getElem?_of_drop {α : Type} {all rest : List α} {a : α} {index : Nat}
    (suffix : all.drop index = a :: rest) : all[index]? = some a ∧ all.drop (index + 1) = rest := by
  have first : (all.drop index)[0]? = some a := by simp [suffix]
  refine ⟨by simpa using first, ?_⟩
  rw [← List.drop_drop, suffix, List.drop_one, List.tail_cons]

namespace Ty

def pair? : Ty → Option (Ty × Ty)
  | .pair left right => some (left, right)
  | _ => none

def list? : Ty → Option Ty
  | .list elem => some elem
  | _ => none

def ref? : Ty → Option Ty
  | .ref elem => some elem
  | _ => none

def func? : Ty → Option (List Ty × Ty)
  | .func params result => some (params, result)
  | _ => none

mutual

/-- Compares kinds first, and then takes the second type apart like the first. -/
def compatible? (t u : Ty) : Option Bool :=
  if t.kind = .unresolved ∨ u.kind = .unresolved then some true
  else if t.kind ≠ u.kind then some false
  else
    match t with
    | .func params result => do
      let (params', result') ← u.func?
      if params.length ≠ params'.length then some false
      else if ← compatibleFrom? params' 0 params then compatible? result result'
      else some false
    | .pair left right => do
      let (left', right') ← u.pair?
      if ← compatible? left left' then compatible? right right' else some false
    | .list elem => do
      let elem' ← u.list?
      compatible? elem elem'
    | .ref elem => do
      let elem' ← u.ref?
      compatible? elem elem'
    | _ => some true
termination_by structural t

/-- Compares types with those that stand in a list from a place on. -/
def compatibleFrom? (others : List Ty) (index : Nat) (types : List Ty) : Option Bool :=
  match types with
  | [] => some true
  | t :: types => do
    let other ← others[index]?
    if ← compatible? t other then compatibleFrom? others (index + 1) types else some false
termination_by structural types

end

theorem compatibleAll_eq_false_of_length {ts us : List Ty} (differ : ts.length ≠ us.length) :
    compatibleAll ts us = false := by
  induction ts generalizing us with
  | nil =>
    cases us with
    | nil => simp at differ
    | cons u us => simp [compatibleAll]
  | cons t ts ih =>
    cases us with
    | nil => simp [compatibleAll]
    | cons u us =>
      rw [compatibleAll, ih (by simpa using differ), Bool.and_false]

theorem compatibleFrom?_eq {ts us others : List Ty} {index : Nat}
    (each : ∀ t ∈ ts, ∀ u, compatible? t u = some (t.compatible u))
    (suffix : others.drop index = us) (same : ts.length = us.length) :
    compatibleFrom? others index ts = some (compatibleAll ts us) := by
  induction ts generalizing us index with
  | nil =>
    obtain rfl : us = [] := by simpa using same.symm
    simp [compatibleFrom?, compatibleAll]
  | cons t ts ih =>
    cases us with
    | nil => simp at same
    | cons u us =>
      obtain ⟨found, rest⟩ := getElem?_of_drop suffix
      have tail := ih (fun t member => each t (List.mem_cons_of_mem _ member)) rest
        (by simpa using same)
      simp only [compatibleFrom?, found, each t List.mem_cons_self, tail, compatibleAll,
        Option.bind_eq_bind, Option.bind_some]
      cases t.compatible u <;> rfl

/-- Comparing types does not stop. -/
theorem compatible?_eq (t u : Ty) : compatible? t u = some (t.compatible u) := by
  induction t using Ty.induction generalizing u with
  | unresolved | num | str | bool | unit | error =>
    cases u <;> simp [compatible?, compatible, kind]
  | func params result ihParams ihResult =>
    cases u with
    | func params' result' =>
      by_cases same : params.length = params'.length
      · have counted := compatibleFrom?_eq ihParams List.drop_zero same
        cases fits : compatibleAll params params' <;>
          simp [compatible?, kind, func?, compatible, ihResult, same, counted, fits]
      · simp [compatible?, kind, func?, same, compatible, compatibleAll_eq_false_of_length same]
    | _ => simp [compatible?, compatible, kind]
  | pair left right ihLeft ihRight =>
    cases u with
    | pair left' right' =>
      cases fits : left.compatible left' <;>
        simp [compatible?, kind, pair?, compatible, ihLeft, ihRight, fits]
    | _ => simp [compatible?, compatible, kind]
  | list elem ih => cases u <;> simp [compatible?, compatible, kind, list?, ih]
  | ref elem ih => cases u <;> simp [compatible?, compatible, kind, ref?, ih]

end Ty

open Guarded

namespace Datum

mutual

/-- How deep lists are nested in a datum. -/
def depth : Datum → Nat
  | .atom _ => 1
  | .list _ elems => depthAll elems + 1

def depthAll : List Datum → Nat
  | [] => 0
  | d :: ds => max (depth d) (depthAll ds)

end

theorem depth_le_of_mem {d : Datum} {ds : List Datum} (member : d ∈ ds) :
    d.depth ≤ depthAll ds := by
  induction ds with
  | nil => contradiction
  | cons first ds ih =>
    rw [depthAll]
    rcases List.mem_cons.mp member with rfl | member
    · omega
    · have rest := ih member
      omega

end Datum

/-! Reading types. -/

namespace Ty.Strict

def bad (anchor : Token) (cause : ParseError) : Guarded ParseError Ty := do
  total (Diagnosed.note anchor cause)
  let message ← lastMessage
  pure (.error message)

def ofAtom (token : Token) : Guarded ParseError Ty :=
  match token.kind with
  | .keyword .unit => pure .unit
  | .ident =>
    match ofName? token.literal with
    | some type => pure type
    | none => bad token (.unknownType token.literal)
  | _ => bad token (.unknownType token.literal)

section

variable (parse : Datum → Guarded ParseError Ty)

def ofAll : List Datum → Guarded ParseError (List Ty)
  | [] => pure []
  | d :: ds => do
    let t ← parse d
    let ts ← ofAll ds
    pure (t :: ts)

/-- The element at a place, read as a type. -/
def ofPlace (elems : List Datum) (index : Nat) : Guarded ParseError Ty := do
  let d ← demand elems[index]?
  parse d

/-- A type with an arrow at a known place. -/
def function (elems : List Datum) (arrow : Nat) : Guarded ParseError Ty := do
  let results ← dropFirst (arrow + 1) elems
  if results.length = 1 then
    let before ← takeFirst arrow elems
    let params ← ofAll parse before
    let result ← ofPlace parse results 0
    pure (.func params result)
  else
    let mark ← demand elems[arrow]?
    bad mark.token .resultTypeCount

def compound (opening : Token) (elems : List Datum) : Guarded ParseError Ty :=
  match elems.findIdx? (·.isAtom (.mark .arrow)) with
  | some arrow => function parse elems arrow
  | none =>
    if elems.length = 0 then bad opening .emptyType
    else do
      let head ← demand elems[0]?
      let args ← dropFirst 1 elems
      match Head.ofDatum head, args.length with
      | .list, 1 => do
        let elem ← ofPlace parse args 0
        pure (.list elem)
      | .ref, 1 => do
        let elem ← ofPlace parse args 0
        pure (.ref elem)
      | .pair, 2 => do
        let left ← ofPlace parse args 0
        let right ← ofPlace parse args 1
        pure (.pair left right)
      | _, _ => bad head.token (.malformedType head.token.literal)

end

/-- Reads a datum in so many rounds, one for each level of lists. -/
def round : Nat → Datum → Guarded ParseError Ty
  | 0, _ => stop
  | _ + 1, .atom token => ofAtom token
  | rounds + 1, .list opening elems => compound (round rounds) opening elems

def ofDatum (d : Datum) : Guarded ParseError Ty := round d.depth d

end Ty.Strict

namespace Ty

theorem bad_eq {anchor : Token} {cause : ParseError} :
    Strict.bad anchor cause = total (malformed anchor cause) := by
  unfold Strict.bad
  rw [total_bind_lastMessage rfl]
  exact total_bind total_pure.symm

theorem ofAtom_eq {token : Token} : Strict.ofAtom token = total (ofToken token) := by
  unfold Strict.ofAtom ofToken
  cases kind : token.kind with
  | ident =>
    dsimp only
    cases ofName? token.literal with
    | some type => exact total_pure.symm
    | none => exact bad_eq
  | keyword word =>
    cases word with
    | unit => exact total_pure.symm
    | _ => exact bad_eq
  | _ => exact bad_eq

section

variable {parse : Datum → Guarded ParseError Ty} {elems : List Datum}
  (reads : ∀ d ∈ elems, parse d = total (ofDatum d))
include reads

theorem ofAll_eq : Strict.ofAll parse elems = total (Diagnosed.sequence (elems.map ofDatum)) := by
  induction elems with
  | nil => exact total_pure.symm
  | cons d ds ih =>
    have rest := ih fun d member => reads d (List.mem_cons_of_mem _ member)
    rw [Strict.ofAll, reads d List.mem_cons_self, rest]
    exact total_bind (total_bind total_pure.symm)

theorem function_eq {opening : Token} {arrow : Nat}
    (found : elems.findIdx? (·.isAtom (.mark .arrow)) = some arrow) :
    Strict.function parse elems arrow = total (compound opening elems (ofEach elems)) := by
  obtain ⟨bound, _, _⟩ := List.findIdx?_eq_some_iff_getElem.mp found
  have enough : arrow + 1 ≤ elems.length := bound
  have params := ofAll_eq fun d member => reads d (List.mem_of_mem_take (i := arrow) member)
  simp only [compound, found, ofEach_eq_map, ← List.map_drop, ← List.map_take, Strict.function,
    dropFirst, takeFirst, enough, Nat.le_of_lt bound, if_true, pure_bind]
  have results : ∀ d ∈ elems.drop (arrow + 1), d ∈ elems := fun _ => List.mem_of_mem_drop
  cases after : elems.drop (arrow + 1) with
  | nil => simp [bad_eq, bound]
  | cons result others =>
    have read := reads result (results result (by simp [after]))
    cases others with
    | nil =>
      have place : Strict.ofPlace parse [result] 0 = total (ofDatum result) := read
      simp only [List.length_singleton, if_true, params, place, List.map_cons, List.map_nil]
      exact total_bind (total_bind total_pure.symm)
    | cons => simp [bad_eq, bound]

theorem compound_eq {opening : Token} :
    Strict.compound parse opening elems = total (compound opening elems (ofEach elems)) := by
  unfold Strict.compound
  cases found : elems.findIdx? (·.isAtom (.mark .arrow)) with
  | some arrow => exact function_eq reads found
  | none =>
    cases elems with
    | nil => exact bad_eq
    | cons head args =>
      simp only [compound, found, ofEach_eq_map, List.map_cons, List.drop_succ_cons,
        List.drop_zero]
      have place : ∀ index d, args[index]? = some d →
          Strict.ofPlace parse args index = total (ofDatum d) := by
        intro index d atPlace
        have member := List.mem_cons_of_mem head (List.mem_of_getElem? atPlace)
        simp [Strict.ofPlace, atPlace, reads d member]
      have malformedEq := @bad_eq head.token (.malformedType head.token.literal)
      simp only [List.length_cons, Nat.add_one_ne_zero, if_false,
        List.getElem?_cons_zero, demand_some, pure_bind, dropFirst_one_cons]
      rcases args with _ | ⟨first, _ | ⟨second, _ | ⟨third, others⟩⟩⟩
      · cases Head.ofDatum head <;> exact malformedEq
      · rw [place 0 first rfl]
        cases Head.ofDatum head with
        | list | ref => exact total_bind total_pure.symm
        | _ => exact malformedEq
      · rw [place 0 first rfl, place 1 second rfl]
        cases Head.ofDatum head with
        | pair => exact total_bind (total_bind total_pure.symm)
        | _ => exact malformedEq
      · cases Head.ofDatum head <;> exact malformedEq

end

theorem round_eq {rounds : Nat} {d : Datum} (enough : d.depth ≤ rounds) :
    Strict.round rounds d = total (ofDatum d) := by
  induction rounds generalizing d with
  | zero => cases d <;> simp [Datum.depth] at enough
  | succ rounds ih =>
    cases d with
    | atom token => exact ofAtom_eq
    | list opening elems =>
      rw [Datum.depth] at enough
      exact compound_eq fun d member => ih (by have := Datum.depth_le_of_mem member; omega)

end Ty

end TypedForms
