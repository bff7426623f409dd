-- Trees that differ in their types only. They have the same layout and the same numbers, and
-- names stand for the same in them.
import Mamuth.Proofs.Scoping

namespace Mamuth

/-! ## Layout and numbers -/

theorem Tree.root_of_untyped {t u : Tree} (h : t.untyped = u.untyped) :
    t.root.id = u.root.id ∧ t.root.kind = u.root.kind := by
  have same := congrArg Tree.root h
  simp only [untyped, root_map, Node.mk.injEq] at same
  exact ⟨same.1, same.2.1⟩

theorem Tree.bare_untyped (t : Tree) : t.untyped.bare = t.bare := by
  induction t using ofChildren with
  | step root children ih =>
    rw [untyped_node, bare_node, bare_node, List.map_map]
    exact congrArg (node _) (List.map_congr_left ih)

theorem Tree.LaidOut.of_untyped {t u : Tree} (h : u.LaidOut) (same : t.untyped = u.untyped) :
    t.LaidOut := by
  refine (laidOut_congr ?_).mpr h
  rw [← bare_untyped t, same, bare_untyped u]

theorem Tree.ids_untyped (t : Tree) : t.untyped.ids = t.ids := by
  induction t using ofChildren with
  | step root children ih =>
    rw [untyped_node, ids_node, ids_node, idsAll, idsAll, List.flatMap_map]
    exact congrArg (root.id :: ·) (List.flatMap_congr ih)

theorem Tree.ids_of_untyped {t u : Tree} (same : t.untyped = u.untyped) : t.ids = u.ids := by
  rw [← ids_untyped t, same, ids_untyped u]

/-- Trees next to each other share no numbers. -/
theorem Tree.disjoint_ids {ts : List Tree} (nodup : (idsAll ts).Nodup) {i j : Nat} {c d : Tree}
    (hi : ts[i]? = some c) (hj : ts[j]? = some d) (apart : i ≠ j) : c.ids.Disjoint d.ids := by
  obtain ⟨li, rfl⟩ := List.getElem?_eq_some_iff.mp hi
  obtain ⟨lj, rfl⟩ := List.getElem?_eq_some_iff.mp hj
  have pairs := List.pairwise_iff_getElem.mp (List.nodup_flatMap.mp nodup).2
  rcases Nat.lt_or_gt_of_ne apart with h | h
  · exact pairs i j li lj h
  · exact fun n hc hd => pairs j i lj li h hd hc

namespace Typing

/-! ## Scoping -/

theorem declaredOnEntry_untyped (depth : Nat) (root : Node) (children : List Tree) :
    declaredOnEntry depth { root with type := none } (children.map Tree.untyped) =
      declaredOnEntry depth root children := by
  unfold declaredOnEntry
  cases children with
  | nil => cases root.kind <;> rfl
  | cons c cs =>
    obtain ⟨n, ds⟩ := c
    cases root.kind <;> simp [Tree.untyped, Tree.root, Node.name]

theorem Place.declared_untyped (place : Place) (depth : Nat) (c : Tree) (own : List Symbol) :
    place.declared depth c.untyped.root own = place.declared depth c.root own := by
  cases place <;> simp [Place.declared, Tree.untyped, Node.name]

mutual

theorem declared_untyped (depth : Nat) (t : Tree) :
    declared depth t.untyped = declared depth t := by
  cases t with
  | node root children =>
    rw [Tree.untyped_node, declared, declared, declaredOnEntry_untyped,
      declaredAll_untyped depth _ children]

theorem declaredAll_untyped (depth : Nat) (place : Nat → Place) (ts : List Tree) :
    declaredAll depth place (ts.map Tree.untyped) = declaredAll depth place ts := by
  cases ts with
  | nil => rfl
  | cons t ts =>
    rw [List.map_cons, declaredAll, declaredAll, declared_untyped depth t,
      Place.declared_untyped, declaredAll_untyped depth _ ts]

end

end Typing

open Typing (declared_untyped Place.declared_untyped)

theorem Tree.lookUpIfNamed_untyped (t : Tree) (known : List Symbol) :
    t.untyped.root.lookUpIfNamed known = t.root.lookUpIfNamed known := by
  simp [untyped, Node.lookUpIfNamed, Node.lookUp, Node.name]

mutual

theorem Tree.looks_untyped (t : Tree) (known : List Symbol) (depth : Nat) :
    t.untyped.looks known depth = t.looks known depth := by
  cases t with
  | node root children =>
    rw [untyped_node, looks, looks, looksAll_untyped children]
    rfl

theorem Tree.looksAll_untyped (ts : List Tree) (asks : Nat → Bool) (place : Nat → Typing.Place)
    (known : List Symbol) (depth : Nat) :
    looksAll asks place known depth (ts.map untyped) = looksAll asks place known depth ts := by
  cases ts with
  | nil => rfl
  | cons t ts =>
    rw [List.map_cons, looksAll, looksAll, lookUpIfNamed_untyped, looks_untyped t,
      declared_untyped, Place.declared_untyped, looksAll_untyped ts]

end

/-- Names stand for the same in trees that differ in their types only. -/
theorem Tree.resolutions_of_untyped {t u : Tree} (hl : u.LaidOut) (nodup : u.ids.Nodup)
    (hk : u.root.kind = .program) (same : t.untyped = u.untyped) :
    t.resolutions = u.resolutions := by
  have kind := (root_of_untyped same).2
  rw [← looks_eq_resolutions hl nodup hk,
    ← looks_eq_resolutions (hl.of_untyped same) (ids_of_untyped same ▸ nodup) (kind.trans hk),
    ← looks_untyped t, same, looks_untyped u]

/-! ## Uses by their numbers -/

mutual

theorem Tree.nodes_occurrencesAt (t : Tree) (above : List Node) (index : Nat) :
    (t.occurrencesAt above index).map (·.node) = t.nodes := by
  cases t with
  | node root children =>
    rw [occurrencesAt, List.map_cons, nodes_occurrencesFrom children]
    rfl

theorem Tree.nodes_occurrencesFrom (ts : List Tree) (above : List Node) (index : Nat) :
    (occurrencesFrom above index ts).map (·.node) = (subtreesAll ts).map root := by
  cases ts with
  | nil => rfl
  | cons t ts =>
    rw [occurrencesFrom, List.map_append, nodes_occurrencesAt t, nodes_occurrencesFrom ts,
      subtreesAll, List.map_append]
    rfl

end

theorem ids_resolutionsAfter (before os : List Occurrence) :
    ((resolutionsAfter before os).map (·.id)).Sublist (os.map (·.node.id)) := by
  induction os generalizing before with
  | nil => exact List.Sublist.refl _
  | cons o os ih =>
    rw [resolutionsAfter, List.map_append, List.map_cons]
    split
    · exact (ih _).cons_cons _
    · exact (ih _).cons _

/-- Each use is looked up once. -/
theorem Tree.ids_resolutions (t : Tree) : (t.resolutions.map (·.id)).Sublist t.ids := by
  have nodes := congrArg (List.map (·.id)) (t.nodes_occurrencesAt [] 0)
  rw [List.map_map] at nodes
  rw [ids, ← nodes]
  exact ids_resolutionsAfter [] t.occurrences

end Mamuth
