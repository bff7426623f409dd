-- Types that are given to some of the nodes of a tree, told by the ways to them. They go into any
-- tree, what is given later goes before what was given first, and nothing else of the tree changes.
import Mamuth.Proofs.Checking

namespace Mamuth

/-! ## Types for some of the nodes -/

/-- Types for nodes that are told by the ways to them: the indices of the children on the way
down. -/
abbrev Decoration := List Nat → Option Ty

namespace Tree

mutual

/-- The tree with the types that are given to its nodes. A node that is given none keeps what it
has. -/
def decorate (given : Decoration) : Tree → Tree
  | node root children =>
    node { root with type := (given []).or root.type }
      (decorateAll (fun i way => given (i :: way)) children)

/-- The same for trees next to each other, the first of them at the index zero. -/
def decorateAll (given : Nat → Decoration) : List Tree → List Tree
  | [] => []
  | t :: ts => decorate (given 0) t :: decorateAll (fun i => given (i + 1)) ts

end

/-- The types of the nodes of a tree. -/
def types : Tree → Decoration
  | t, [] => t.root.type
  | t, i :: way => (t.children[i]?).bind fun c => c.types way

mutual

@[simp] theorem untyped_decorate (given : Decoration) (t : Tree) :
    (t.decorate given).untyped = t.untyped := by
  cases t with
  | node root children =>
    rw [decorate, untyped_node, untyped_node, untyped_decorateAll]

@[simp] theorem untyped_decorateAll (given : Nat → Decoration) (ts : List Tree) :
    (decorateAll given ts).map untyped = ts.map untyped := by
  cases ts with
  | nil => rfl
  | cons t ts =>
    rw [decorateAll, List.map_cons, List.map_cons, untyped_decorate _ t, untyped_decorateAll _ ts]

end

mutual

/-- What is given later goes before what was given first. -/
theorem decorate_decorate (given later : Decoration) (t : Tree) :
    (t.decorate given).decorate later = t.decorate fun way => (later way).or (given way) := by
  cases t with
  | node root children =>
    rw [decorate, decorate, decorate, decorateAll_decorateAll, Option.or_assoc]

theorem decorateAll_decorateAll (given later : Nat → Decoration) (ts : List Tree) :
    decorateAll later (decorateAll given ts) =
      decorateAll (fun i way => (later i way).or (given i way)) ts := by
  cases ts with
  | nil => rfl
  | cons t ts =>
    rw [decorateAll, decorateAll, decorateAll, decorate_decorate, decorateAll_decorateAll]

end

mutual

theorem decorate_nothing (t : Tree) : t.decorate (fun _ => none) = t := by
  cases t with
  | node root children =>
    rw [decorate, decorateAll_nothing, Option.none_or]

theorem decorateAll_nothing (ts : List Tree) : decorateAll (fun _ _ => none) ts = ts := by
  cases ts with
  | nil => rfl
  | cons t ts => rw [decorateAll, decorate_nothing t, decorateAll_nothing ts]

end

mutual

/-- The types that a tree without types is given are the ones that it has then. -/
theorem decorate_types_untyped (given : Decoration) (t : Tree) :
    t.decorate (t.untyped.decorate given).types = t.decorate given := by
  cases t with
  | node root children =>
    have below : (fun i way => ((node root children).untyped.decorate given).types (i :: way)) =
        fun i way => (((decorateAll (fun i way => given (i :: way))
          (children.map untyped))[i]?).bind fun c => c.types way) := by
      rw [untyped_node, decorate]
      rfl
    rw [decorate, decorate, below, decorateAll_types_untyped]
    simp [types, decorate, Tree.root]

theorem decorateAll_types_untyped (given : Nat → Decoration) (ts : List Tree) :
    decorateAll (fun i way => ((decorateAll given (ts.map untyped))[i]?).bind fun c => c.types way)
      ts = decorateAll given ts := by
  cases ts with
  | nil => rfl
  | cons t ts =>
    rw [decorateAll, decorateAll]
    congr 1
    · exact decorate_types_untyped (given 0) t
    · exact decorateAll_types_untyped (fun i => given (i + 1)) ts

end

/-! ## The same types in two trees -/

/-- Two trees are given the same types at the same nodes. -/
def GivenBoth (t u t' u' : Tree) : Prop :=
  ∃ given : Decoration, t' = t.decorate given ∧ u' = u.decorate given

/-- The same of trees next to each other. -/
def GivenAllBoth (ts us ts' us' : List Tree) : Prop :=
  ∃ given : Nat → Decoration, ts' = decorateAll given ts ∧ us' = decorateAll given us

variable {t u t' u' t'' u'' : Tree} {ts us ts' us' : List Tree}

theorem GivenBoth.refl (t u : Tree) : GivenBoth t u t u :=
  ⟨fun _ => none, (decorate_nothing t).symm, (decorate_nothing u).symm⟩

theorem GivenBoth.trans (h : GivenBoth t u t' u') (h' : GivenBoth t' u' t'' u'') :
    GivenBoth t u t'' u'' := by
  obtain ⟨given, rfl, rfl⟩ := h
  obtain ⟨later, rfl, rfl⟩ := h'
  exact ⟨_, decorate_decorate given later t, decorate_decorate given later u⟩

theorem GivenBoth.typed (t u : Tree) (type : Ty) :
    GivenBoth t u (t.typed type) (u.typed type) := by
  have atRoot : ∀ t : Tree,
      t.typed type = t.decorate fun way => if way = [] then type else none := by
    intro t
    cases t with
    | node root children =>
      simp [Tree.typed, Tree.root, Tree.children, decorate, decorateAll_nothing]
  exact ⟨_, atRoot t, atRoot u⟩

/-- What is given to the children is given to the nodes above them. -/
theorem GivenAllBoth.above (root root' : Node) (h : GivenAllBoth ts us ts' us') :
    GivenBoth (node root ts) (node root' us) (node root ts') (node root' us') := by
  obtain ⟨given, rfl, rfl⟩ := h
  refine ⟨fun | [] => none | i :: way => given i way, ?_, ?_⟩ <;> rw [decorate, Option.none_or]

theorem GivenAllBoth.refl (ts us : List Tree) : GivenAllBoth ts us ts us :=
  ⟨fun _ _ => none, (decorateAll_nothing ts).symm, (decorateAll_nothing us).symm⟩

theorem GivenAllBoth.cons (h : GivenBoth t u t' u') (hs : GivenAllBoth ts us ts' us') :
    GivenAllBoth (t :: ts) (u :: us) (t' :: ts') (u' :: us') := by
  obtain ⟨given, rfl, rfl⟩ := h
  obtain ⟨others, rfl, rfl⟩ := hs
  exact ⟨fun i => i.casesOn given others, rfl, rfl⟩

theorem GivenBoth.untyped (h : GivenBoth t u t' u') (same : t.untyped = u.untyped) :
    t'.untyped = u'.untyped := by
  obtain ⟨given, rfl, rfl⟩ := h
  rw [untyped_decorate, untyped_decorate, same]

theorem GivenAllBoth.untyped (h : GivenAllBoth ts us ts' us')
    (same : ts.map Tree.untyped = us.map Tree.untyped) :
    ts'.map Tree.untyped = us'.map Tree.untyped := by
  obtain ⟨given, rfl, rfl⟩ := h
  rw [untyped_decorateAll, untyped_decorateAll, same]

end Tree

end Mamuth
