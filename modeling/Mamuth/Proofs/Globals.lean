-- What stays declared. When a compilation is over, every block is closed, and the table holds the
-- standard functions and one symbol for each assignment and each function at the top of the
-- program, in their order. What was declared in a block is forgotten, however deep it stood.
import Mathlib.Data.Set.List
import Mamuth.Proofs.Safety
import Mamuth.Proofs.Untyped

namespace Mamuth

namespace Typing

/-! ## What the parts of a program declare -/

theorem declared_assignment {root : Node} {target value : Tree} (depth : Nat)
    (hl : (Tree.node root [target, value]).LaidOut) (hk : root.kind = .assignment) :
    declared depth (.node root [target, value]) =
      [⟨target.root.name, depth, .variable, .node target.root.id⟩] := by
  obtain ⟨_, _, shape, -, expression⟩ := hl.assignment hk
  cases shape
  have nothing : declared depth value = [] :=
    declared_expression (hl.child value (by simp)) expression
  simp [declared, declaredOnEntry, declaredAll, hk, Node.Kind.opensBlock, Place.of, Place.declared,
    nothing]

theorem declaredAll_plain {depth : Nat} (ts : List Tree) :
    declaredAll depth (fun _ => .plain) ts = ts.flatMap (declared depth) := by
  induction ts with
  | nil => rfl
  | cons t ts ih =>
    rw [declaredAll, List.flatMap_cons, ih]
    rfl

/-- A program declares what its children do. -/
theorem declared_program {root : Node} (hk : root.kind = .program) (depth : Nat)
    (children : List Tree) :
    declared depth (.node root children) = children.flatMap (declared depth) := by
  have own : declaredOnEntry depth root children = [] := by
    unfold declaredOnEntry
    split <;> simp_all
  have plain : Place.of .program = fun _ => .plain := rfl
  rw [declared, own, hk, plain, declaredAll_plain]
  rfl

end Typing

/-! ## Programs -/

/-- The symbol of the variable that an identifier at the top is declared as. -/
def Node.globalVariable (target : Node) : Symbol := ⟨target.name, 0, .variable, .node target.id⟩

/-- The symbol of a function at the top. -/
def Node.globalFunction (function : Node) : Symbol :=
  ⟨function.name, 0, .function, .node function.id⟩

/-- What the tree of a program leaves declared, told by its children: first the variables that
are assigned, then the functions. -/
theorem Tree.LaidOut.declared_program {t : Tree} (hl : t.LaidOut) (hk : t.root.kind = .program) :
    ∃ (assignments : List (Node × Tree × Tree)) (functions : List Tree) (main : Tree),
      t.children = assignments.map (fun (a, target, value) => node a [target, value]) ++
        (functions ++ [main]) ∧
      (∀ a ∈ assignments, a.1.kind = .assignment) ∧
      (∀ f ∈ functions, f.root.kind = .function) ∧ main.root.kind = .main ∧
      Typing.declared 0 t =
        assignments.map (fun (_, target, _) => target.root.globalVariable) ++
          functions.map (·.root.globalFunction) := by
  obtain ⟨root, children⟩ := t
  change root.kind = .program at hk
  obtain ⟨assignments, functions, main, rfl, ha, hf, hm⟩ := hl.program hk
  obtain ⟨assignments, rfl⟩ : ∃ as : List (Node × Tree × Tree),
      as.map (fun (a, target, value) => node a [target, value]) = assignments := by
    have shaped : ∀ a ∈ assignments,
        a ∈ Set.range fun (a, target, value) => node a [target, value] := by
      rintro ⟨a, ts⟩ mem
      obtain ⟨target, value, rfl, -⟩ :=
        (hl.child (node a ts) (by simp [mem])).assignment (ha (node a ts) mem)
      exact ⟨(a, target, value), rfl⟩
    exact (Set.range_list_map _).symm.subset shaped
  rw [List.forall_mem_map] at ha
  refine ⟨assignments, functions, main, rfl, ha, hf, hm, ?_⟩
  have assigned : ∀ a ∈ assignments,
      Typing.declared 0 (node a.1 [a.2.1, a.2.2]) = [a.2.1.root.globalVariable] := fun a mem =>
    Typing.declared_assignment 0
      (hl.child _ (List.mem_append_left _ (List.mem_map_of_mem mem))) (ha a mem)
  have named : ∀ f ∈ functions, Typing.declared 0 f = [f.root.globalFunction] := fun f mem =>
    Typing.declared_function (hf f mem) 0
  have last : Typing.declared 0 main = [] :=
    Typing.declared_block (by rw [hm]; rfl) (by rw [hm]; decide) 0
  rw [Typing.declared_program hk, List.flatMap_append, List.flatMap_append, List.flatMap_map,
    List.flatMap_congr assigned, List.flatMap_congr named, ← List.map_eq_flatMap,
    ← List.map_eq_flatMap]
  simp [last]

/-- A check of a whole tree leaves the table at the top level, with the standard functions and what
the tree declares there. -/
theorem Tree.table_of_verify {t t' : Tree} {s : Typing.State} (h : t.verify = .ok (t', s)) :
    s.table = ⟨standardSymbols ++ Typing.declared 0 t, 0⟩ := by
  rw [(Typing.check_ok t Typing.bounded_start h).table]
  rfl

end Mamuth
