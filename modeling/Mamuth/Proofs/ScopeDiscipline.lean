-- What a check does to the scopes that it starts in. The tree may have any shape, and the
-- check may start at any depth, with any names in sight: nothing of them is lost, what is
-- added is at the depth of the start, and a block takes away what was declared in it.
import Mamuth.Proofs.Checking

namespace Mamuth.Typing

/-- A table without a declaration deeper than its depth keeps that depth and all of its symbols
through the check of a tree. The declarations of the tree come at its end, all of that depth: a
block without a name has none, and a function has its own symbol alone. -/
theorem check_keeps_scopes {t t' : Tree} {s s' : State} (bounded : s.table.Bounded)
    (ok : check t s = .ok (t', s')) :
    let added := declared s.table.depth t
    s'.table.depth = s.table.depth ∧ s'.table.symbols = s.table.symbols ++ added ∧
      (∀ y ∈ added, y.depth = s.table.depth) ∧
      (t.root.kind ∈ [.main, .loop, .ifBranch, .elseBranch] → added = []) ∧
      (t.root.kind = .function →
        added = [⟨t.root.name, s.table.depth, .function, .node t.root.id⟩]) := by
  intro added
  have table : s'.table = s.table.adding added := (check_ok t bounded ok).table
  refine ⟨by rw [table]; rfl, by rw [table]; rfl, fun y hy => (mem_declared _ t hy).1,
    fun block => ?_, fun function => declared_function function _⟩
  have opens : t.root.kind.opensBlock := by
    rw [Node.Kind.opensBlock, decide_eq_true_eq]
    exact List.mem_cons_of_mem _ block
  have unnamed : t.root.kind ≠ .function := fun function => by simp [function] at block
  exact declared_block opens unnamed _

/-- A function two blocks deep, of a shape that no program has: besides its parameter, which hides
one outside, it holds an assignment of a whole function, and a loop that declares the name of the
parameter twice under the same numbers. Its own symbol alone is there in the end. -/
theorem check_keeps_scopes_function :
    let node (id : Nat) (kind : Node.Kind) (content : String) : List Tree → Tree :=
      .node ⟨id, kind, some content, .start, none⟩
    let again := node 7 .assignment "" [node 8 .identifier "x" [], node 9 .identifier "x" []]
    let t := node 0 .function "f"
      [node 1 .functionParameters "" [node 2 .identifier "x" []],
        node 3 .assignment "" [node 4 .identifier "y" [], node 5 .function "g" [again]],
        node 6 .loop "" [again, again]]
    let s : State := ⟨⟨[⟨"f", 0, .function, .builtin .text⟩, ⟨"x", 2, .parameter, .node 11⟩,
      ⟨"y", 1, .parameter, .node 12⟩], 2⟩, ∅, []⟩
    s.table.Bounded ∧ ∃ t' s', check t s = .ok (t', s') ∧ s'.table.depth = 2 ∧
      s'.table.symbols = s.table.symbols ++ [⟨"f", 2, .function, .node 0⟩] := by
  intro node again t s
  have bounded : s.table.Bounded := by
    unfold SymbolTable.Bounded
    decide
  have succeeds : (check t s).isOk := by decide +kernel
  obtain ⟨⟨t', s'⟩, ok⟩ : ∃ r, check t s = .ok r := by
    cases h : check t s with
    | ok r => exact ⟨r, rfl⟩
    | error e =>
      rw [h] at succeeds
      cases succeeds
  obtain ⟨depth, symbols, -, -, own⟩ := check_keeps_scopes bounded ok
  rw [own rfl] at symbols
  exact ⟨bounded, t', s', ok, depth, symbols⟩

end Mamuth.Typing
