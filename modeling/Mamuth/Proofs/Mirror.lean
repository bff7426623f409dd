-- The types by number are those of the nodes, at every moment of a check. A node is given its type
-- once, so a type that is known of a declaration is the one that the declaring node keeps.
import Mamuth.Proofs.InPlace

namespace Mamuth

/-! ## A type for one node -/

namespace Tree

/-- The node at the end of a way. -/
def nodeAt? (t : Tree) (way : List Nat) : Option Node := (t.at? way).map root

theorem nodeAt?_cons (root : Node) (children : List Tree) (i : Nat) (way : List Nat) :
    (node root children).nodeAt? (i :: way) = children[i]?.bind (·.nodeAt? way) := by
  rw [nodeAt?, at?_cons, Option.map_bind]
  rfl

section

variable {t u : Tree} {way : List Nat} (h : t.at? way = some u) (type : Ty)
include h

theorem untyped_replace_typed : (t.replace way (u.typed type)).untyped = t.untyped := by
  induction h using way_induction with
  | here => rw [replace_nil, untyped_typed]
  | inside root before c after way _ ih => simp [replace_split, ih]

/-- One of the nodes changes, and only in its type. -/
theorem nodes_replace_typed : ∃ before after, t.nodes = before ++ u.root :: after ∧
    (t.replace way (u.typed type)).nodes =
      before ++ { u.root with type := some type } :: after := by
  induction h using way_induction with
  | here =>
    obtain ⟨root, children⟩ := u
    exact ⟨[], (subtreesAll children).map Tree.root, rfl, by rw [replace_nil]; rfl⟩
  | inside root before c after way _ ih =>
    obtain ⟨first, last, old, new⟩ := ih
    refine ⟨root :: (subtreesAll before).map Tree.root ++ first,
      last ++ (subtreesAll after).map Tree.root, ?_, ?_⟩
    · rw [nodes] at old
      simp [nodes, subtrees, subtreesAll_append, subtreesAll, old, Tree.root]
    · rw [nodes] at new
      simp [replace_split, nodes, subtrees, subtreesAll_append, subtreesAll, new, Tree.root]

theorem nodeAt?_replace_typed (way' : List Nat) :
    (t.replace way (u.typed type)).nodeAt? way' =
      if way' = way then some { u.root with type := some type } else t.nodeAt? way' := by
  induction h using way_induction generalizing way' with
  | here =>
    rw [replace_nil]
    cases way' with
    | nil => simp [nodeAt?, typed, Tree.root]
    | cons i way' =>
      obtain ⟨root, children⟩ := u
      rw [if_neg (List.cons_ne_nil i way'), nodeAt?_cons, typed, nodeAt?_cons]
      rfl
  | inside root before c after way _ ih =>
    rw [replace_split]
    cases way' with
    | nil => simp [nodeAt?, Tree.root]
    | cons i way' =>
      rw [nodeAt?_cons, nodeAt?_cons]
      by_cases here : i = before.length
      · simp [here, ih]
      · have beside : (before ++ c.replace way (u.typed type) :: after)[i]? =
            (before ++ c :: after)[i]? := by
          rw [List.getElem?_append, List.getElem?_append, List.getElem?_cons, List.getElem?_cons]
          grind
        rw [beside, if_neg fun same => here (List.cons.inj same).1]

end

end Tree

namespace Typing

/-! ## Moments -/

/-- The types by number are those of the nodes. The nodes are those of a tree in the beginning, and
those with types were given them once. -/
structure Moment.Mirrors (t : Tree) (m : Moment) : Prop where
  nodes : m.tree.untyped = t.untyped
  types : ∀ id type, m.state.types[id]? = some type ↔
    ∃ n ∈ m.tree.nodes, n.id = id ∧ n.type = some type
  given : ∀ way, way ∈ m.given ↔ ∃ n, m.tree.nodeAt? way = some n ∧ n.type.isSome
  once : m.given.Nodup

/-- What is known of the type of a declaration is still known at a later moment, and is then the
type of the declaring node. -/
def Moment.SettledIn (m later : Moment) : Prop :=
  ∀ symbol id type, symbol.declaration = .node id → m.state.typeOf? symbol = some type →
    later.state.typeOf? symbol = some type ∧ ∃ n ∈ later.tree.nodes, n.id = id ∧ n.type = some type

section

variable {t : Tree} {m m' : Moment}

theorem mirrors_start (bare : t.IsUntyped) : Moment.Mirrors t ⟨t, .start, []⟩ where
  nodes := rfl
  types id type := by
    refine iff_of_false (by simp [State.start]) ?_
    rintro ⟨n, hn, -, typed⟩
    obtain ⟨u, hu, rfl⟩ := List.mem_map.mp hn
    cases (bare u hu).symm.trans typed
  given way := by
    refine iff_of_false List.not_mem_nil ?_
    rintro ⟨n, hn, typed⟩
    obtain ⟨u, hu, rfl⟩ := Option.map_eq_some_iff.mp hn
    rw [bare u (Tree.mem_subtrees_of_at? hu)] at typed
    cases typed
  once := List.nodup_nil

/-- Where a node shares its number with no other one, it alone tells what has been given to it. -/
theorem typed_iff_of_alone {before after : List Node} {n n' : Node} {id : Nat} {type : Ty}
    (alone : ∀ k ∈ before ++ after, k.id ≠ n.id) (same : n'.id = n.id) :
    (∃ k ∈ before ++ n' :: after, k.id = id ∧ k.type = some type) ↔
      if n.id = id then n'.type = some type
      else ∃ k ∈ before ++ after, k.id = id ∧ k.type = some type := by
  have middle (k : Node) : k ∈ before ++ n' :: after ↔ k = n' ∨ k ∈ before ++ after := by
    simp [or_left_comm]
  simp only [middle, or_and_right, exists_or, exists_eq_left, same]
  split
  case isTrue here =>
    subst here
    refine (or_iff_left ?_).trans (and_iff_right rfl)
    rintro ⟨k, hk, found, -⟩
    exact alone k hk found
  case isFalse apart => exact or_iff_right fun h => apart h.1

theorem Moment.Mirrors.next (h : m.Mirrors t) (distinct : t.ids.Nodup) (next : m.Next m') :
    m'.Mirrors t ∧
      ∀ (id : Nat) (type : Ty),
        m.state.types[id]? = some type → m'.state.types[id]? = some type := by
  cases next with
  | ask same =>
    refine ⟨⟨h.nodes, fun id type => ?_, h.given, h.once⟩, fun id type known => ?_⟩
    · rw [same]
      exact h.types id type
    · rw [same]
      exact known
  | @give way u type place bare =>
    obtain ⟨before, after, old, new⟩ := Tree.nodes_replace_typed place type
    have known := h.types
    have alone : ∀ n ∈ before ++ after, n.id ≠ u.root.id := by
      have nodup : m.tree.ids.Nodup := Tree.ids_of_untyped h.nodes ▸ distinct
      rw [Tree.ids, old, List.map_append, List.map_cons, List.nodup_middle, ← List.map_append]
        at nodup
      exact fun n hn same => (List.nodup_cons.mp nodup).1 (same ▸ List.mem_map_of_mem hn)
    simp only [old, typed_iff_of_alone alone rfl, bare] at known
    have unknown : m.state.types[u.root.id]? = none := by
      rw [Option.eq_none_iff_forall_ne_some]
      intro other h
      have := (known _ _).mp h
      rw [if_pos rfl] at this
      cases this
    have fresh : way ∉ m.given := by
      rw [h.given way, Tree.nodeAt?, place]
      simp [bare]
    refine ⟨⟨(Tree.untyped_replace_typed place type).trans h.nodes, fun id other => ?_,
      fun way' => ?_, List.nodup_cons.mpr ⟨fresh, h.once⟩⟩, fun id other h => ?_⟩
    · have number : ({ u.root with type := some type } : Node).id = u.root.id := rfl
      rw [new, getElem?_insert_type, typed_iff_of_alone alone number]
      split
      · exact Iff.rfl
      · rename_i apart
        rw [known, if_neg apart]
    · rw [List.mem_cons, h.given way', Tree.nodeAt?_replace_typed place]
      split <;> simp [*]
    · rw [getElem?_insert_type, if_neg, h]
      rintro rfl
      cases unknown.symm.trans h

/-- The moments of a run that started where the types mirrored the nodes. -/
theorem Leads.mirrored {start r : Run} (h : Leads start r) (distinct : t.ids.Nodup)
    (first : start.past = []) (mirrors : start.now.Mirrors t) :
    r.moments.getLast? = some start.now ∧
      r.moments.IsChain (fun later earlier => earlier.Next later) ∧
      (∀ m ∈ r.moments, m.Mirrors t) ∧
      r.moments.Pairwise fun later earlier => ∀ (id : Nat) (type : Ty),
        earlier.state.types[id]? = some type → later.state.types[id]? = some type := by
  induction h with
  | refl =>
    rw [Run.moments, first]
    exact ⟨rfl, .singleton _, by simpa using mirrors, List.pairwise_singleton _ _⟩
  | @tail r _ _ next ih =>
    obtain ⟨m, next, rfl⟩ := next
    obtain ⟨begins, chain, all, settled⟩ := ih
    obtain ⟨mirrors, kept⟩ := (all r.now List.mem_cons_self).next distinct next
    refine ⟨?_, .cons_cons next chain, List.forall_mem_cons.mpr ⟨mirrors, all⟩,
      List.pairwise_cons.mpr ⟨fun earlier he id type known => ?_, settled⟩⟩
    · rw [← begins]
      rfl
    · rcases List.mem_cons.mp he with rfl | he
      · exact kept id type known
      · exact kept id type ((List.pairwise_cons.mp settled).1 earlier he id type known)

end

end Typing

/-- The check of the tree in its own place ends as the check that gives a new tree, with success or
with a fault. It starts with the tree as it is given; from one moment to the next at most one node,
which has no type yet, is given one. At every moment the types by number are those of the nodes, and
what is known of the type of a declaration stays. -/
structure Tree.Mirrored (t : Tree) : Prop where
  ends : t.verify = Typing.Run.outcome t.verifyInPlace
  start : t.verifyInPlace.2.moments.getLast? = some ⟨t, .start, []⟩
  steps : t.verifyInPlace.2.moments.IsChain fun later earlier => earlier.Next later
  mirrors : ∀ m ∈ t.verifyInPlace.2.moments, m.Mirrors t
  settled : t.verifyInPlace.2.moments.Pairwise fun later earlier => earlier.SettledIn later

/-- The types by number mirror the tree at every moment of the check of a tree without types whose
nodes have different numbers, and however it ends: with success, with a fault, or at a node without
the children that its rule reads. -/
theorem Tree.verify_mirrored {t : Tree} (bare : t.IsUntyped) (distinct : t.ids.Nodup) :
    t.Mirrored := by
  obtain ⟨leads, ends⟩ := verify_inPlace bare
  obtain ⟨start, steps, mirrors, known⟩ := leads.mirrored distinct rfl (Typing.mirrors_start bare)
  refine ⟨ends, start, steps, mirrors, known.imp_of_mem ?_⟩
  intro later _ hl _ kept symbol id type declares h
  rw [Typing.State.typeOf?_node declares] at h ⊢
  have still := kept id type h
  exact ⟨still, ((mirrors later hl).types id type).mp still⟩

/-- The check comes to a comparison without its right side, when an assignment has its types. -/
theorem Tree.verify_mirrored_malformed :
    let leaf (id : Nat) (kind : Node.Kind) (text : String) (column : Nat) : Tree :=
      .node ⟨id, kind, some text, ⟨1, column⟩, none⟩ []
    let t : Tree := .node ⟨9, .program, none, ⟨1, 1⟩, none⟩
      [.node ⟨4, .assignment, none, ⟨1, 1⟩, none⟩
          [leaf 7 .identifier "x" 1, leaf 2 .integer "1" 11],
        .node ⟨0, .comparison, none, ⟨1, 14⟩, none⟩
          [leaf 3 .identifier "x" 14, leaf 8 .comparator "panas" 16]]
    t.IsUntyped ∧ t.ids.Nodup ∧ (∃ e, t.verify = .error e ∧ e.fault = .malformed .comparison) ∧
      t.Mirrored := by
  intro leaf t
  have bare : t.IsUntyped := by
    unfold IsUntyped
    decide
  have distinct : t.ids.Nodup := by decide
  have verdict : t.verdict.1 = some (.malformed .comparison) := by decide
  exact ⟨bare, distinct, error_of_verdict verdict, verify_mirrored bare distinct⟩

end Mamuth
