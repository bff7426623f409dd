-- Renaming a program changes nothing but the names. With other names, all different ones still
-- different, and other numbers for the nodes, a program has the same types and the same table
-- under the new names and numbers, or fails at the same place with the new name in the fault.
import Mathlib.Logic.Equiv.Basic
import Mamuth.Proofs.Relabelling

namespace Mamuth

/-- Other names and numbers, and every node where it was. -/
def Renaming.inPlace (r : Renaming) : Relabelling := { r with position := fun place => place }

/-- A check does not see which names and numbers a program has. It gives the same types to the
renamed nodes, keeps the renamed symbols at the same depths, and fails for the same reason at the
same place; also then the same nodes have their types, and the same symbols are kept. -/
theorem Program.verify_renamed (p : Program) (r : Renaming) :
    match p.tree.verify, (p.tree.relabelled r.inPlace).verify with
    | .ok (t, s), .ok (t', s') =>
      t' = t.relabelled r.inPlace ∧ s'.table = s.table.relabelled r.inPlace
    | .error e, .error e' =>
      e.fault.Relabelled r.inPlace p.tree.nodes e'.fault ∧
        e'.left = e.left.relabelled r.inPlace ∧
        e'.state.table = e.state.table.relabelled r.inPlace
    | _, _ => False := by
  have alike := Tree.verify_relabelled r.inPlace p.laidOut_tree
  rcases hv : p.tree.verify with e | ⟨t, s⟩ <;>
    rcases hv' : (p.tree.relabelled r.inPlace).verify with e' | ⟨t', s'⟩ <;> rw [hv, hv'] at alike
  · obtain ⟨fault, left, state⟩ := alike
    exact ⟨fault, left, state.table⟩
  · exact alike
  · exact alike
  · obtain ⟨tree, state⟩ := alike
    exact ⟨tree, state.table⟩

/-- Two names change places, and every number is the next one. -/
def Renaming.swapped (a b : String)
    (standard : ∀ f ∈ standardFunctions, Equiv.swap a b f.1 = f.1) : Renaming where
  name := Equiv.swap a b
  id := Nat.succ
  name_injective := (Equiv.swap a b).injective
  id_injective := fun _ _ => Nat.succ.inj
  standard := standard

/-- A program that assigns `x` and gives back `y`. -/
def Program.givesUnknown : Program :=
  ⟨[⟨⟨"x", ⟨1, 1⟩⟩, .value (.literal .integer ⟨"5", ⟨1, 11⟩⟩)⟩], [],
    ⟨⟨2, 1⟩, .last (.return ⟨2, 15⟩ (some (.value (.identifier ⟨"y", ⟨2, 24⟩⟩))))⟩⟩

/-- It assigns `y` and gives back `x` when the names have changed places: then `x` is unknown. -/
theorem Program.verify_renamed_swapped : ∃ standard e e',
    givesUnknown.tree.verify = .error e ∧ e.fault = .undeclared "y" ⟨2, 24⟩ ∧
      (givesUnknown.tree.relabelled (Renaming.swapped "x" "y" standard).inPlace).verify =
        .error e' ∧ e'.fault = .undeclared "x" ⟨2, 24⟩ := by
  have standard : ∀ f ∈ standardFunctions, Equiv.swap "x" "y" f.1 = f.1 := by
    simp [standardFunctions, Equiv.swap_apply_def]
  obtain ⟨e, he, fault⟩ : ∃ e, givesUnknown.tree.verify = .error e ∧
      e.fault = .undeclared "y" ⟨2, 24⟩ := Tree.error_of_verdict (by decide)
  have alike := verify_renamed givesUnknown (.swapped "x" "y" standard)
  rw [he] at alike
  rcases he' : (givesUnknown.tree.relabelled (Renaming.swapped "x" "y" standard).inPlace).verify
    with e' | r <;> rw [he'] at alike
  · refine ⟨standard, e, e', he, fault, he', ?_⟩
    have renamed := alike.1
    rw [fault] at renamed
    generalize e'.fault = fault' at renamed ⊢
    cases renamed
    simp [Renaming.inPlace, Renaming.swapped]
  · exact alike.elim

end Mamuth
