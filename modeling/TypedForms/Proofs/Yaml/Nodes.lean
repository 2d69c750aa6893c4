import TypedForms.Yaml.Node.Read

/-! Reading block mappings whose keys are plain scalars, from tokens without anchors and tags. -/
namespace TypedForms.Yaml

/-- A computation that may fail goes on after its first part. -/
theorem run_bind_ok {σ ε α β : Type} {first : StateT σ (Except ε) α}
    {next : α → StateT σ (Except ε) β} {s s' : σ} {value : α}
    (ran : first.run s = .ok (value, s')) : (first >>= next).run s = (next value).run s' := by
  rw [StateT.run_bind, ran]
  rfl

/-- The cursor in front of other tokens. -/
def Cursor.at (k : Cursor) (list : List Token) : Cursor :=
  { k with tokens := { k.tokens with list := list } }

/-- A plain scalar without a tag. -/
def plainNode (line : Nat) (text : String) : Node :=
  .scalar line (Reader.scalarTag none true text) text

namespace Reader

variable {k : Cursor} {fuel line : Nat} {text : String} {token : Token} {list : List Token}
  {entries : List (Node × Node)} {after : Cursor} {inBlock afterKey : Bool}

theorem peek_at : peek.run (k.at (token :: list)) = .ok (token, k.at (token :: list)) := rfl

theorem skip_at : skip.run (k.at (token :: list)) = .ok ((), k.at list) := rfl

theorem node_scalar :
    (node (fuel + 1) inBlock afterKey).run (k.at (⟨.scalar true text, line⟩ :: list)) =
      .ok (plainNode (line + 1) text, k.at list) := by
  rw [node]
  rfl

theorem blockNode_at {ends : List Token.Kind} (goesOn : ends.contains token.kind = false) :
    (blockNode (fuel + 1) line ends afterKey).run (k.at (token :: list)) =
      (node fuel true afterKey).run (k.at (token :: list)) := by
  rw [blockNode, run_bind_ok peek_at, goesOn]
  rfl

theorem blockEntries_end {start : Nat} :
    (blockEntries (fuel + 1) start).run (k.at (⟨.blockEnd, line⟩ :: list)) =
      .ok ([], k.at list) := by
  rw [blockEntries]
  rfl

/-- An entry with a plain scalar for its key, whose value is not left out. -/
theorem blockEntries_entry {start keyLine wordLine : Nat} {word : String} {value : Node}
    {others : List Token}
    (goesOn : [Token.Kind.key, .value, .blockEnd].contains token.kind = false)
    (read : (node (fuel + 1) true true).run (k.at (token :: list)) = .ok (value, k.at others))
    (rest : (blockEntries (fuel + 2) start).run (k.at others) = .ok (entries, after)) :
    (blockEntries (fuel + 3) start).run (k.at (⟨.key, keyLine⟩ :: ⟨.scalar true word, wordLine⟩ ::
        ⟨.value, line⟩ :: token :: list)) =
      .ok ((plainNode (wordLine + 1) word, value) :: entries, after) := by
  have keyRead : (blockNode (fuel + 2) keyLine [.key, .value, .blockEnd] true).run
      (k.at (⟨.scalar true word, wordLine⟩ :: ⟨.value, line⟩ :: token :: list)) = _ :=
    (blockNode_at rfl).trans node_scalar
  have valueRead : (blockNode (fuel + 2) line [.key, .value, .blockEnd] true).run
      (k.at (token :: list)) = _ := (blockNode_at goesOn).trans read
  rw [blockEntries, run_bind_ok peek_at]
  dsimp only
  rw [run_bind_ok skip_at, run_bind_ok keyRead, run_bind_ok peek_at, if_pos rfl,
    run_bind_ok skip_at, run_bind_ok valueRead, run_bind_ok rest]
  rfl

theorem node_mapping (read : (blockEntries fuel line).run (k.at list) = .ok (entries, after)) :
    (node (fuel + 1) true afterKey).run (k.at (⟨.blockMappingStart, line⟩ :: list)) =
      .ok (.mapping (line + 1) .map entries, after) := by
  have bare : properties.run (k.at (⟨.blockMappingStart, line⟩ :: list)) =
      .ok (⟨none, none⟩, k.at (⟨.blockMappingStart, line⟩ :: list)) := rfl
  rw [node, run_bind_ok peek_at]
  dsimp only
  rw [run_bind_ok bare, namedTag, run_bind_ok rfl, run_bind_ok peek_at]
  simp only [reduceCtorEq, decide_false, Bool.and_false, Bool.false_eq_true, if_false, decide_true,
    Bool.and_self, if_true]
  rw [enter, run_bind_ok rfl, run_bind_ok skip_at, run_bind_ok read]
  rfl

/-- A document that is a block mapping. -/
theorem document_mapping {others : List Token}
    (read : (blockEntries fuel line).run
      (Cursor.at { k with handles := k.handles ++ knownHandles } list) =
        .ok (entries, after.at (token :: others))) :
    (document (fuel + 1)).run (k.at (⟨.blockMappingStart, line⟩ :: list)) =
      .ok (some (.mapping (line + 1) .map entries), after.at (token :: others)) := by
  have noDirective :
      (directives (fuel + 1) false).run (k.at (⟨.blockMappingStart, line⟩ :: list)) =
        .ok ((), Cursor.at { k with handles := k.handles ++ knownHandles }
          (⟨.blockMappingStart, line⟩ :: list)) := by
    rw [directives]
    rfl
  rw [document, run_bind_ok peek_at]
  dsimp only
  rw [run_bind_ok noDirective, run_bind_ok (node_mapping read), run_bind_ok peek_at]
  rfl

end Reader

end TypedForms.Yaml
