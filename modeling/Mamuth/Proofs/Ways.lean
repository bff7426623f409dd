-- Ways down a tree, and how far a check goes on one. A check that fails at the end of a way fails
-- as a whole, with the same fault, and leaves there what it left of the tree at the end.
import Mamuth.Proofs.Failures
import Mamuth.Proofs.Places

namespace Mamuth

namespace Tree

/-- The tree at the end of a way, which tells for each node the index of the child to go to. -/
def at? : Tree → List Nat → Option Tree
  | t, [] => some t
  | t, i :: way => t.children[i]?.bind (·.at? way)

/-- The tree with another one at the end of a way. -/
def replace : Tree → List Nat → Tree → Tree
  | _, [], new => new
  | node root children, i :: way, new => node root (children.modify i (·.replace way new))

@[simp] theorem at?_nil (t : Tree) : t.at? [] = some t := by cases t; rfl

@[simp] theorem replace_nil (t new : Tree) : t.replace [] new = new := by cases t; rfl

@[simp] theorem at?_cons (root : Node) (children : List Tree) (i : Nat) (way : List Nat) :
    (node root children).at? (i :: way) = children[i]?.bind (·.at? way) := rfl

/-- A way goes through one of the children. -/
theorem at?_split (root : Node) (before after : List Tree) (c : Tree) (way : List Nat) :
    (node root (before ++ c :: after)).at? (before.length :: way) = c.at? way := by
  simp

theorem replace_split (root : Node) (before after : List Tree) (c new : Tree) (way : List Nat) :
    (node root (before ++ c :: after)).replace (before.length :: way) new =
      node root (before ++ c.replace way new :: after) := by
  rw [replace, List.modify_eq_take_drop]
  simp

/-- What holds at the end of a way, and of a node when it does of the child that the way goes
through, holds at the start of the way. -/
theorem way_induction {u : Tree} {P : ∀ t way, at? t way = some u → Prop}
    (here : P u [] (at?_nil u))
    (inside : ∀ root before c after way (h : c.at? way = some u), P c way h →
      P (node root (before ++ c :: after)) (before.length :: way)
        ((at?_split root before after c way).trans h))
    {t : Tree} {way : List Nat} (h : t.at? way = some u) : P t way h := by
  induction way generalizing t with
  | nil =>
    obtain rfl : t = u := Option.some.inj ((at?_nil t).symm.trans h)
    exact here
  | cons i way ih =>
    obtain ⟨root, children⟩ := t
    have through := h
    rw [at?_cons] at through
    obtain ⟨c, hc, below⟩ := Option.bind_eq_some_iff.mp through
    obtain ⟨hi, rfl⟩ := List.getElem?_eq_some_iff.mp hc
    obtain ⟨before, after, split, index⟩ :
        ∃ before after, children = before ++ children[i] :: after ∧ i = before.length := by
      refine ⟨children.take i, children.drop (i + 1), ?_, ?_⟩
      · rw [← List.drop_eq_getElem_cons hi, List.take_append_drop]
      · rw [List.length_take, Nat.min_eq_left (Nat.le_of_lt hi)]
    generalize children[i] = c at split below
    subst split index
    exact inside root before c after way below (ih below)

theorem at?_replace {t u : Tree} {way : List Nat} (h : t.at? way = some u) (new : Tree) :
    (t.replace way new).at? way = some new := by
  induction h using way_induction with
  | here => simp
  | inside root before c after way _ ih => rw [replace_split, at?_split, ih]

/-- A tree of the same kind and type does not change these of the root. -/
theorem root_replace {t u new : Tree} {way : List Nat} (h : t.at? way = some u)
    (kind : new.root.kind = u.root.kind) (type : new.type = u.type) :
    (t.replace way new).root.kind = t.root.kind ∧ (t.replace way new).type = t.type := by
  induction h using way_induction with
  | here => exact ⟨kind, type⟩
  | inside root before c after way _ _ =>
    rw [replace_split]
    exact ⟨rfl, rfl⟩

theorem mem_subtrees_of_at? {t u : Tree} {way : List Nat} (h : t.at? way = some u) :
    u ∈ t.subtrees := by
  induction h using way_induction with
  | here => exact u.self_mem_subtrees
  | inside root before c after way _ ih => exact .tail _ (mem_subtreesAll.mpr ⟨c, by simp, ih⟩)

theorem ids_at? {t u : Tree} {way : List Nat} (h : t.at? way = some u) : u.ids ⊆ t.ids := by
  induction h using way_induction with
  | here => exact List.Subset.refl _
  | inside root before c after way _ ih =>
    refine List.Subset.trans ih fun i hi => ?_
    rw [ids_node]
    exact List.mem_cons_of_mem _ (List.mem_flatMap.mpr ⟨c, by simp, hi⟩)

end Tree

namespace Typing

/-- A check of the first tree that starts in the first state comes, on this way, to the check of
the other tree, which starts in the other state. -/
inductive Reaches : Tree → State → List Nat → Tree → State → Prop
  | here {t s} : Reaches t s [] t s
  | inside {root children s i c s₁ s₂ way u s'} (first : ComesTo root children s i c s₁)
    (asked : (Place.of root.kind i).before c.root s₁ = .ok ((), s₂))
    (below : Reaches c s₂ way u s') : Reaches (.node root children) s (i :: way) u s'

/-- A node fails when one of its children does. What is left of the child stands between what the
children before it became and those behind it. -/
theorem ComesTo.error {root : Node} {children : List Tree} {s s₁ s₂ : State} {i : Nat} {c : Tree}
    (first : ComesTo root children s i c s₁)
    (asked : (Place.of root.kind i).before c.root s₁ = .ok ((), s₂)) {e : Stopped Tree}
    (own : check c s₂ = .error e) :
    ∃ before s₀, checkAll (Place.of root.kind) (children.take i) s₀ = .ok (before, s₁) ∧
      before.length = i ∧ check (.node root children) s =
        .error ⟨e.fault, .node root (before ++ e.left :: children.drop (i + 1)), e.state⟩ := by
  obtain ⟨plain, hi, named, s₀, before, entered, walked⟩ := first
  have around : (Place.of root.kind i).around c (check c) s₁ = .error e := by
    rw [Place.around_eq plain, Step.bind_of_ok (Step.leaving_ok.mpr asked), Step.bind_error]
    exact .inl own
  have below := checkAll_error.mpr ⟨i, c, before, s₁, e, hi, walked, around, rfl⟩
  refine ⟨before, s₀, walked, ?_, ?_⟩
  · rw [(checkAll_skipped walked).1, List.length_take]
    exact Nat.min_eq_left (Nat.le_of_lt (List.getElem?_eq_some_iff.mp hi).1)
  · rw [check, Step.bind_of_ok (Step.leaving_ok.mpr entered), Step.bind_error]
    exact .inl (Step.leaving_error.mpr ⟨_, below, rfl⟩)

/-- A check that fails at the end of a way fails. -/
theorem Reaches.error {t u : Tree} {s s' : State} {way : List Nat} (h : Reaches t s way u s')
    {e : Stopped Tree} (fails : check u s' = .error e) :
    ∃ left, check t s = .error ⟨e.fault, left, e.state⟩ ∧ left.at? way = some e.left := by
  induction h with
  | here => exact ⟨e.left, fails, by simp⟩
  | inside first asked _ ih =>
    obtain ⟨left, own, place⟩ := ih fails
    obtain ⟨before, -, -, length, whole⟩ := first.error asked own
    refine ⟨_, whole, ?_⟩
    rw [← length, Tree.at?_split, place]

end Typing

end Mamuth
