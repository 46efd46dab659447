import PyStatic.Proofs.Syntax.DistinctIds

/-!
Contract: in a module that is read off a concrete tree, every node lies inside the node around it.

Some ranges are not those of one concrete node: a definition spans its decorators, and an `elif` the
clauses after it. That rests on the order of the children, which a parser lists as they stand.
-/

namespace PyStatic

/-- If children lie within their parents, every node lies within the nearest node around it. -/
theorem Module.ofTree_nests (source : Source) (root : Tree) (inOrder : root.InSourceOrder)
    (isNested : root.Nested) :
    ∀ link ∈ (Module.ofTree source root).links, link.mark.range.within link.above = true :=
  (Tree.readModule_sound source root (fun _ => isNested) fun _ => inOrder).2 trivial

namespace Tree

def ofRule (kind : String) (start stop : Nat) (label : Option String) (children : List Tree) :
    Tree :=
  .node ⟨kind, .ofBits 1, ⟨start, stop⟩, label⟩ children

def twoBranches : Tree :=
  ofRule "module" 0 20 none [ofRule "if_statement" 0 19 none [
    ofRule "identifier" 3 4 "condition" [],
    ofRule "block" 7 8 "consequence" [ofRule "expression_statement" 7 8 none
      [ofRule "identifier" 7 8 none []]],
    ofRule "elif_clause" 9 19 "alternative" [
      ofRule "identifier" 14 15 "condition" [],
      ofRule "block" 18 19 "consequence" [ofRule "expression_statement" 18 19 none
        [ofRule "identifier" 18 19 none []]]]]]

theorem twoBranches_inSourceOrder : twoBranches.InSourceOrder := by
  simp [InSourceOrder, twoBranches, ofRule, every_node, info]

theorem twoBranches_nested : twoBranches.Nested := by
  simp [Nested, twoBranches, ofRule, every_node, info, TextRange.within]

end Tree

theorem Module.ofTree_twoBranches :
    Tree.twoBranches.InSourceOrder ∧ Tree.twoBranches.Nested ∧
      ∀ link ∈ (Module.ofTree ⟨"if a:\n b\nelif c:\n d\n"⟩ Tree.twoBranches).links,
        link.mark.range.within link.above = true :=
  ⟨Tree.twoBranches_inSourceOrder, Tree.twoBranches_nested,
    Module.ofTree_nests _ _ Tree.twoBranches_inSourceOrder Tree.twoBranches_nested⟩

example (source : Source) :
    ((Module.ofTree source Tree.twoBranches).links.map fun link => (link.above, link.mark.range)) =
      [(⟨0, 20⟩, ⟨0, 19⟩), (⟨0, 19⟩, ⟨3, 4⟩), (⟨0, 19⟩, ⟨7, 8⟩), (⟨7, 8⟩, ⟨7, 8⟩),
        (⟨0, 19⟩, ⟨9, 19⟩), (⟨9, 19⟩, ⟨14, 15⟩), (⟨9, 19⟩, ⟨18, 19⟩), (⟨18, 19⟩, ⟨18, 19⟩)] :=
  rfl

end PyStatic
