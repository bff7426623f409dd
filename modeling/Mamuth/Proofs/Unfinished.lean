-- What a check that fails leaves of a tree. The nodes on the way to the fault have no types yet,
-- and beside that way each tree was checked to its end or not at all.
import Mathlib.Data.List.Chain
import Mamuth.Proofs.Soundness
import Mamuth.Proofs.TokenYield
import Mamuth.Proofs.Ways

namespace Mamuth

namespace Tree

/-- Every node has a type. -/
def IsTyped (t : Tree) : Prop := ∀ u ∈ t.subtrees, u.root.type.isSome

/-- No node has a type. -/
def IsUntyped (t : Tree) : Prop := ∀ u ∈ t.subtrees, u.root.type = none

/-- The root has no type, but some node below it has one. -/
def isOpen (t : Tree) : Bool := t.root.type = none && t.subtrees.any (·.root.type.isSome)

/-- What is left of a tree in whose check the child at an index failed. -/
structure Unfinished (t left : Tree) (i : Nat) : Prop where
  untyped : left.untyped = t
  root : left.root.type = none
  before : ∀ j < i, ∀ c, left.children[j]? = some c → c.IsTyped
  failed : ∃ c, left.children[i]? = some c ∧ c.root.type = none
  after : ∀ j > i, ∀ c, left.children[j]? = some c → c.IsUntyped
  /-- Below a node with a type all nodes have types. -/
  below : ∀ u ∈ left.subtrees, u.root.type.isSome → u.IsTyped
  /-- Of the nodes without a type that have one below them, each is a child of the one before. -/
  chain : (left.subtrees.filter isOpen).IsChain fun u v => v ∈ u.children
  top : ∀ u ∈ (left.subtrees.filter isOpen).head?, u = left

end Tree

/-- The check of a tree comes to the child at the index, and the check of the child fails. -/
def Typing.FailsIn (t : Tree) (s : State) (i : Nat) : Prop :=
  ∃ c s' e, Reaches t s [i] c s' ∧ check c s' = .error e

namespace Tree

/-! ## Trees with and without types -/

section

variable {root : Node} {children : List Tree}

theorem forall_subtrees_node {P : Tree → Prop} :
    (∀ u ∈ (node root children).subtrees, P u) ↔
      P (node root children) ∧ ∀ c ∈ children, ∀ u ∈ c.subtrees, P u := by
  rw [subtrees, List.forall_mem_cons]
  refine and_congr_right fun _ => ⟨fun h c hc u hu => ?_, fun h u hu => ?_⟩
  · exact h u (mem_subtreesAll.mpr ⟨c, hc, hu⟩)
  · obtain ⟨c, hc, hu⟩ := mem_subtreesAll.mp hu
    exact h c hc u hu

theorem isTyped_node :
    (node root children).IsTyped ↔ root.type.isSome ∧ ∀ c ∈ children, c.IsTyped :=
  forall_subtrees_node

theorem isUntyped_node :
    (node root children).IsUntyped ↔ root.type = none ∧ ∀ c ∈ children, c.IsUntyped :=
  forall_subtrees_node

end

theorem subtrees_subset {t u : Tree} (h : u ∈ t.subtrees) : u.subtrees ⊆ t.subtrees := by
  induction t using ofChildren with
  | step root children ih =>
    rcases List.mem_cons.mp h with rfl | h
    · exact List.Subset.refl _
    · obtain ⟨c, hc, hu⟩ := mem_subtreesAll.mp h
      exact fun v hv => List.mem_cons_of_mem _ (mem_subtreesAll.mpr ⟨c, hc, ih c hc hu hv⟩)

theorem IsTyped.subtree {t u : Tree} (h : t.IsTyped) (hu : u ∈ t.subtrees) : u.IsTyped :=
  fun v hv => h v (subtrees_subset hu hv)

theorem filter_isOpen {t : Tree} (h : t.IsTyped ∨ t.IsUntyped) : t.subtrees.filter isOpen = [] := by
  rw [List.filter_eq_nil_iff]
  intro u hu
  rcases h with h | h
  · have := h u hu
    simp [isOpen, Option.isSome_iff_ne_none.mp this]
  · have none : ∀ v ∈ u.subtrees, v.root.type = none := fun v hv => h v (subtrees_subset hu hv)
    simpa [isOpen] using fun _ => none

theorem filter_isOpen_all {ts : List Tree} (h : ∀ t ∈ ts, t.IsTyped ∨ t.IsUntyped) :
    (subtreesAll ts).filter isOpen = [] := by
  rw [List.filter_eq_nil_iff]
  intro u hu
  obtain ⟨t, ht, hu⟩ := mem_subtreesAll.mp hu
  exact List.filter_eq_nil_iff.mp (filter_isOpen (h t ht)) u hu

theorem untyped_of_isUntyped {t : Tree} (h : t.IsUntyped) : t.untyped = t := by
  induction t using ofChildren with
  | step root children ih =>
    obtain ⟨own, below⟩ := isUntyped_node.mp h
    rw [untyped_node, ← own]
    refine congrArg (node root) ((List.map_congr_left fun c hc => ?_).trans (List.map_id children))
    exact ih c hc (below c hc)

/-- What is left when a check stops at a node, or inside the check of one of the children. -/
inductive PartlyTyped : Tree → Prop
  | stopped {root children} (own : root.type = none)
    (below : ∀ c ∈ children, c.IsTyped ∨ c.IsUntyped) : PartlyTyped (node root children)
  | inside {root before c after} (own : root.type = none)
    (beside : ∀ d ∈ before ++ after, d.IsTyped ∨ d.IsUntyped) (inner : c.PartlyTyped) :
    PartlyTyped (node root (before ++ c :: after))

theorem PartlyTyped.root {t : Tree} (h : t.PartlyTyped) : t.root.type = none := by
  cases h <;> assumption

theorem PartlyTyped.typed_below {t : Tree} (h : t.PartlyTyped) :
    ∀ u ∈ t.subtrees, u.root.type.isSome → u.IsTyped := by
  have settled {t : Tree} (h : t.IsTyped ∨ t.IsUntyped) : ∀ u ∈ t.subtrees,
      u.root.type.isSome → u.IsTyped := fun u hu typed =>
    h.elim (·.subtree hu) fun h => by rw [h u hu] at typed; cases typed
  induction h with
  | stopped own below =>
    refine forall_subtrees_node.mpr ⟨fun typed => ?_, fun c hc => settled (below c hc)⟩
    rw [Tree.root, own] at typed
    cases typed
  | @inside root before c after own beside _ ih =>
    refine forall_subtrees_node.mpr ⟨fun typed => ?_, fun d hd => ?_⟩
    · rw [Tree.root, own] at typed
      cases typed
    · rcases List.mem_append.mp hd with hd | hd
      · exact settled (beside d (List.mem_append_left _ hd))
      · rcases List.mem_cons.mp hd with rfl | hd
        · exact ih
        · exact settled (beside d (List.mem_append_right _ hd))

/-- The nodes without a type that have one below them lie on one way down from the root. -/
theorem PartlyTyped.open_chain {t : Tree} (h : t.PartlyTyped) :
    (t.subtrees.filter isOpen).IsChain (fun u v => v ∈ u.children) ∧
      ∀ u ∈ (t.subtrees.filter isOpen).head?, u = t := by
  induction h with
  | @stopped root children own below =>
    rw [subtrees, List.filter_cons, filter_isOpen_all below]
    split <;> simp
  | @inside root before c after own beside inner ih =>
    rw [List.forall_mem_append] at beside
    have along : (subtreesAll (before ++ c :: after)).filter isOpen = c.subtrees.filter isOpen := by
      rw [subtreesAll_append, subtreesAll, List.filter_append, List.filter_append,
        filter_isOpen_all beside.1, filter_isOpen_all beside.2, List.nil_append, List.append_nil]
    rw [subtrees, List.filter_cons, along]
    split
    · refine ⟨List.isChain_cons.mpr ⟨fun u hu => ?_, ih.1⟩, by simp⟩
      rw [ih.2 u hu]
      simp [children]
    · rename_i closed
      have none : c.subtrees.filter isOpen = [] := by
        refine List.filter_eq_nil_iff.mpr fun u hu isOpen => closed ?_
        obtain ⟨v, hv, typed⟩ := List.any_eq_true.mp (Bool.and_eq_true _ _ |>.mp isOpen).2
        have inside : v ∈ (node root (before ++ c :: after)).subtrees :=
          List.mem_cons_of_mem _ (mem_subtreesAll.mpr ⟨c, by simp, subtrees_subset hu hv⟩)
        exact Bool.and_eq_true _ _ |>.mpr ⟨decide_eq_true own,
          List.any_eq_true.mpr ⟨v, inside, typed⟩⟩
      rw [none]
      simp

/-- There is one child only in which the check can have failed. -/
theorem Unfinished.not_lt {t left : Tree} {i j : Nat} (h : t.Unfinished left i)
    (h' : t.Unfinished left j) : ¬ j < i := by
  intro lt
  obtain ⟨c, hc, own⟩ := h'.failed
  have typed := h.before j lt c hc c c.self_mem_subtrees
  rw [own] at typed
  cases typed

end Tree

namespace Typing

/-! ## What a check leaves -/

/-- Trees that were walked along were checked, or skipped and left as they were. -/
theorem checkAll_typed {place : Nat → Place} {ts ts' : List Tree} {s s' : State}
    (own : ∀ c ∈ ts, ∀ s c' s', check c s = .ok (c', s') → c'.IsTyped)
    (h : checkAll place ts s = .ok (ts', s')) :
    ∀ i c', ts'[i]? = some c' → place i ≠ .skipped ∧ c'.IsTyped ∨
      place i = .skipped ∧ ts[i]? = some c' := by
  induction ts generalizing place s ts' with
  | nil =>
    cases h
    intro i c' hc
    cases hc
  | cons t ts ih =>
    rw [List.forall_mem_cons] at own
    obtain ⟨t', s₁, ts', first, rest, rfl⟩ := checkAll_cons_ok.mp h
    intro i c' hc
    rcases i with _ | i
    · cases hc
      by_cases skipped : place 0 = .skipped
      · rw [skipped] at first
        cases first
        exact .inr ⟨skipped, rfl⟩
      · rw [Place.around_eq skipped] at first
        obtain ⟨_, s₃, -, first⟩ := Step.bind_ok.mp first
        obtain ⟨d, s₄, checked, first⟩ := Step.bind_ok.mp first
        obtain ⟨_, s₅, -, first⟩ := Step.bind_ok.mp first
        cases first
        exact .inl ⟨skipped, own.1 _ _ _ checked⟩
    · exact ih own.2 rest i c' hc

theorem isTyped_typed {c : Tree} (leaf : c.children = []) (type : Ty) : (c.typed type).IsTyped := by
  rw [Tree.typed, Tree.isTyped_node, leaf]
  exact ⟨rfl, by simp⟩

/-- A node that is left has types all over when the children that were checked have. -/
theorem typed_of_leave {root : Node} {named : Option Symbol} {children children' : List Tree}
    {s s' : State} {t : Tree} (hl : (Tree.node root children).LaidOut)
    (unnamed : root.kind.opensBlock → named = none) (length : children'.length = children.length)
    (inside : ∀ i c, children'[i]? = some c → Place.of root.kind i ≠ .skipped ∧ c.IsTyped ∨
      Place.of root.kind i = .skipped ∧ children[i]? = some c)
    (h : leave root named children' s = .ok (t, s')) : t.IsTyped := by
  have checked {i : Nat} {c : Tree} (hc : children'[i]? = some c)
      (hp : Place.of root.kind i ≠ .skipped) : c.IsTyped :=
    ((inside i c hc).resolve_right fun h => hp h.1).2
  have leaf {i : Nat} {c : Tree} (hc : children'[i]? = some c)
      (hp : Place.of root.kind i = .skipped) : c.children = [] := by
    have same := ((inside i c hc).resolve_left fun h => h.1 hp).2
    exact Tree.children_of_isLeaf (hl.child c (List.mem_of_getElem? same))
      ((hl.suits same).leaf (by simp [hp]))
  by_cases ha : root.kind = .assignment
  · obtain ⟨target, value, rfl, -⟩ := hl.assignment ha
    obtain ⟨target', value', rfl⟩ := List.length_eq_two.mp length
    obtain ⟨rfl, -⟩ := leave_assignment ha h
    have first := isTyped_typed (leaf (i := 0) rfl (by rw [ha]; rfl)) value'.type
    have second := checked (i := 1) (c := value') rfl (by rw [ha]; decide)
    exact Tree.isTyped_node.mpr ⟨rfl, by simp [first, second]⟩
  by_cases hc : root.kind = .comparison
  · obtain ⟨left, sign, right, rfl, -⟩ := hl.comparison hc
    obtain ⟨left', sign', right', rfl⟩ := List.length_eq_three.mp length
    obtain ⟨common, -, rfl, -⟩ := leave_comparison hc h
    have first := checked (i := 0) (c := left') rfl (by rw [hc]; decide)
    have second := isTyped_typed (leaf (i := 1) rfl (by rw [hc]; rfl)) common
    have third := checked (i := 2) (c := right') rfl (by rw [hc]; decide)
    exact Tree.isTyped_node.mpr ⟨rfl, by simp [first, second, third]⟩
  · obtain ⟨type, -, rfl, -⟩ := leave_other ha hc unnamed h
    refine Tree.isTyped_node.mpr ⟨rfl, fun c mem => ?_⟩
    obtain ⟨i, hi⟩ := List.getElem?_of_mem mem
    rcases inside i c hi with ⟨-, typed⟩ | ⟨skipped, same⟩
    · exact typed
    · rcases hl.skipped same skipped with ⟨_, hk, -⟩ | ⟨_, _, hk, -⟩
      · exact absurd hk ha
      · exact absurd hk hc

theorem unnamed_of_enter {root : Node} {children : List Tree} {named : Option Symbol}
    {s s' : State} (h : enter root children s = .ok (named, s')) (block : root.kind.opensBlock) :
    named = none :=
  enter_unnamed (by cases hk : root.kind <;> simp_all [Node.Kind.opensBlock]) h

/-- What is left when the check of a tree comes to its end has types all over. -/
theorem typed_of_check {t t' : Tree} (hl : t.LaidOut) {s s' : State}
    (h : check t s = .ok (t', s')) : t'.IsTyped := by
  induction t using Tree.ofChildren generalizing s t' s' with
  | step root children ih =>
    rw [check] at h
    obtain ⟨named, s₁, entered, h⟩ := Step.bind_ok.mp h
    obtain ⟨children', s₂, walked, left⟩ := Step.bind_ok.mp h
    have walked := Step.leaving_ok.mp walked
    exact typed_of_leave hl (unnamed_of_enter (Step.leaving_ok.mp entered))
      (checkAll_skipped walked).1
      (checkAll_typed (fun c hc _ _ _ => ih c hc (hl.child c hc)) walked) left

theorem left_of_leave {root : Node} {named : Option Symbol} {children : List Tree} {s : State}
    {e : Stopped Tree} (h : leave root named children s = .error e) :
    e.left = .node root children := by
  generalize hx : leave root named children = step at h
  unfold leave at hx
  split at hx <;> subst hx
  case h_2 left sign right hk =>
    cases common : left.type.common? right.type <;> rw [common] at h <;> cases h
    rfl
  case h_8 => cases named <;> cases h
  all_goals cases h

/-- A check that stops leaves types beside the way to the fault only. -/
theorem partlyTyped_of_error {t : Tree} (hl : t.LaidOut) (bare : t.IsUntyped) {s : State}
    {e : Stopped Tree} (h : check t s = .error e) : e.left.PartlyTyped := by
  induction t using Tree.ofChildren generalizing s e with
  | step root children ih =>
    obtain ⟨own, bare⟩ := Tree.isUntyped_node.mp bare
    have walked {i : Nat} {before : List Tree} {s s' : State}
        (h : checkAll (Place.of root.kind) (children.take i) s = .ok (before, s')) :
        ∀ c ∈ before, c.IsTyped ∨ c.IsUntyped := by
      intro c hc
      obtain ⟨j, hj⟩ := List.getElem?_of_mem hc
      have all : ∀ c ∈ children.take i, ∀ s c' s', check c s = .ok (c', s') → c'.IsTyped :=
        fun c hc _ _ _ => typed_of_check (hl.child c (List.mem_of_mem_take hc))
      rcases checkAll_typed all h j c hj with ⟨-, typed⟩ | ⟨-, same⟩
      · exact .inl typed
      · exact .inr (bare c (List.mem_of_mem_take (List.mem_of_getElem? same)))
    rw [check] at h
    rcases Step.bind_error.mp h with h | ⟨named, s₁, -, h⟩
    · obtain ⟨e', -, rfl⟩ := Step.leaving_error.mp h
      exact .stopped own fun c hc => .inr (bare c hc)
    rcases Step.bind_error.mp h with h | ⟨children', s₂, all, h⟩
    · obtain ⟨e', he, rfl⟩ := Step.leaving_error.mp h
      obtain ⟨i, c, before, s', e'', hi, along, fails, rfl⟩ := checkAll_error.mp he
      have mem : c ∈ children := List.mem_of_getElem? hi
      have beside : ∀ d ∈ before ++ children.drop (i + 1), d.IsTyped ∨ d.IsUntyped := by
        refine List.forall_mem_append.mpr ⟨walked along, fun d hd => .inr ?_⟩
        exact bare d (List.mem_of_mem_drop hd)
      have settled (whole : e''.left.IsTyped ∨ e''.left.IsUntyped) :
          (Tree.node root (before ++ e''.left :: children.drop (i + 1))).PartlyTyped := by
        refine .stopped own fun d hd => ?_
        rw [List.mem_append, List.mem_cons] at hd
        rcases hd with hd | rfl | hd
        · exact beside d (List.mem_append_left _ hd)
        · exact whole
        · exact beside d (List.mem_append_right _ hd)
      obtain ⟨-, ⟨_, -, rfl⟩ | ⟨s₂, -, inner | ⟨c', s₃, _, checked, -, rfl⟩⟩⟩ :=
        Place.around_error fails
      · exact settled (.inr (bare c mem))
      · exact .inside own beside (ih c mem (hl.child c mem) (bare c mem) inner)
      · exact settled (.inl (typed_of_check (hl.child c mem) checked))
    · rw [left_of_leave h]
      refine .stopped own ?_
      have all := Step.leaving_ok.mp all
      rw [← List.take_length (l := children)] at all
      exact walked all

/-! ## Programs -/

theorem place_program {root : Node} (hk : root.kind = .program) (i : Nat) :
    Place.of root.kind i = .plain := by
  rw [hk]
  rfl

/-- A program fails in one of the constructs at its top. -/
theorem exists_failsIn {t : Tree} (hk : t.root.kind = .program) {s : State} {e : Stopped Tree}
    (h : check t s = .error e) : ∃ i, FailsIn t s i := by
  obtain ⟨root, children⟩ := t
  change root.kind = .program at hk
  have plain : root.kind.isPlain := by rw [hk]; decide
  have entered : enter root children s = .ok (none, s) := by
    rw [enter_plain plain]
    rfl
  rw [check, Step.bind_of_ok (Step.leaving_ok.mpr entered)] at h
  rcases Step.bind_error.mp h with h | ⟨_, _, -, h⟩
  · obtain ⟨e', he, rfl⟩ := Step.leaving_error.mp h
    obtain ⟨i, c, before, s', e'', hi, walked, fails, rfl⟩ := checkAll_error.mp he
    rw [place_program hk] at fails
    have first : ComesTo root children s i c s' :=
      ⟨by rw [place_program hk]; decide, hi, none, s, before, entered, walked⟩
    exact ⟨i, c, s', e'', .inside first (by rw [place_program hk]; rfl) .here, fails⟩
  · rw [leave_plain plain] at h
    cases h

theorem unfinished_of_failsIn {t : Tree} (hk : t.root.kind = .program) (hl : t.LaidOut)
    (bare : t.IsUntyped) {i : Nat} {e : Stopped Tree} (h : t.verify = .error e)
    (fails : FailsIn t .start i) : t.Unfinished e.left i := by
  obtain ⟨root, children⟩ := t
  change root.kind = .program at hk
  obtain ⟨c, s', e', reached, failed⟩ := fails
  cases reached with
  | inside first asked below =>
    cases below
    have mem := List.mem_of_getElem? first.2.1
    have inner :=
      partlyTyped_of_error (hl.child c mem) ((Tree.isUntyped_node.mp bare).2 c mem) failed
    obtain ⟨before, s₀, walked, length, whole⟩ := first.error asked failed
    have partly := partlyTyped_of_error hl bare h
    have same : (Tree.node root children).checked = e.left := by rw [Tree.checked, h]
    obtain rfl := Except.error.inj (h.symm.trans whole)
    refine ⟨?_, partly.root, fun j hj d hd => ?_, ⟨e'.left, ?_, inner.root⟩, fun j hj d hd => ?_,
      partly.typed_below, partly.open_chain.1, partly.open_chain.2⟩
    · rw [← same, Tree.untyped_checked, Tree.untyped_of_isUntyped bare]
    · rw [Tree.children, List.getElem?_append_left (length ▸ hj)] at hd
      have all : ∀ c ∈ children.take i, ∀ s c' s', check c s = .ok (c', s') → c'.IsTyped :=
        fun c hc _ _ _ => typed_of_check (hl.child c (List.mem_of_mem_take hc))
      refine ((checkAll_typed all walked j d hd).resolve_right fun skipped => ?_).2
      rw [place_program hk] at skipped
      cases skipped.1
    · rw [Tree.children, List.getElem?_append_right (Nat.le_of_eq length), length, Nat.sub_self]
      rfl
    · rw [Tree.children, List.getElem?_append_right (length ▸ Nat.le_of_lt hj)] at hd
      obtain ⟨k, hk⟩ : ∃ k, j - before.length = k + 1 := ⟨j - i - 1, by omega⟩
      rw [hk, List.getElem?_cons_succ] at hd
      exact (Tree.isUntyped_node.mp bare).2 d (List.mem_of_mem_drop (List.mem_of_getElem? hd))

end Typing

/-- The tree that a program leaves when its check fails: it fails in one construct at the top. Those
before it have types all over and those behind it none. In the whole tree, there are types all over
below a node that has one, and the nodes above these lie on one way down from the root. -/
theorem Program.verify_unfinished {tokens : List Token} {p : Program}
    (h : ofTokens tokens = .ok p) {e : Typing.Stopped Tree} (fails : p.tree.verify = .error e) :
    ∃ i, (∀ j, Typing.FailsIn p.tree .start j ↔ j = i) ∧ p.tree.Unfinished e.left i := by
  have bare : p.tree.IsUntyped := fun u hu => type_of_mem_nodes h u.root (List.mem_map_of_mem hu)
  have unfinished {i : Nat} (failsIn : Typing.FailsIn p.tree .start i) :
      p.tree.Unfinished e.left i :=
    Typing.unfinished_of_failsIn rfl p.laidOut_tree bare fails failsIn
  obtain ⟨i, failsIn⟩ := Typing.exists_failsIn rfl fails
  refine ⟨i, fun j => ⟨fun failsIn' => ?_, fun same => same ▸ failsIn⟩, unfinished failsIn⟩
  rcases Nat.lt_trichotomy j i with lt | same | lt
  · exact absurd lt ((unfinished failsIn).not_lt (unfinished failsIn'))
  · exact same
  · exact absurd lt ((unfinished failsIn').not_lt (unfinished failsIn))

/-- The second assignment of `x anotado 1. y anotado # 2 bobMar z #. maracuya() xD messirve. v:`
fails at its last operand. -/
theorem Program.verify_unfinished_operand :
    let tokens : List Token := [⟨.identifier, "x", ⟨1, 1⟩⟩, ⟨.assignment, "anotado", ⟨1, 3⟩⟩,
      ⟨.integer, "1", ⟨1, 11⟩⟩, ⟨.punctuation, ".", ⟨1, 12⟩⟩, ⟨.identifier, "y", ⟨1, 14⟩⟩,
      ⟨.assignment, "anotado", ⟨1, 16⟩⟩, ⟨.punctuation, "#", ⟨1, 24⟩⟩, ⟨.integer, "2", ⟨1, 26⟩⟩,
      ⟨.operator, "bobMar", ⟨1, 28⟩⟩, ⟨.identifier, "z", ⟨1, 35⟩⟩, ⟨.punctuation, "#", ⟨1, 37⟩⟩,
      ⟨.punctuation, ".", ⟨1, 38⟩⟩, ⟨.keyword, "maracuya", ⟨1, 40⟩⟩, ⟨.punctuation, "(", ⟨1, 48⟩⟩,
      ⟨.punctuation, ")", ⟨1, 49⟩⟩, ⟨.punctuation, "xD", ⟨1, 51⟩⟩, ⟨.keyword, "messirve", ⟨1, 54⟩⟩,
      ⟨.punctuation, ".", ⟨1, 62⟩⟩, ⟨.punctuation, "v:", ⟨1, 64⟩⟩]
    ∃ p e, ofTokens tokens = .ok p ∧ p.tree.verify = .error e ∧
      e.fault = .undeclared "z" ⟨1, 35⟩ ∧
      ∃ i, (∀ j, Typing.FailsIn p.tree .start j ↔ j = i) ∧ p.tree.Unfinished e.left i := by
  intro tokens
  let p : Program :=
    ⟨[⟨⟨"x", ⟨1, 1⟩⟩, .value (.literal .integer ⟨"1", ⟨1, 11⟩⟩)⟩,
      ⟨⟨"y", ⟨1, 14⟩⟩, .math ⟨⟨1, 24⟩, .literal .integer ⟨"2", ⟨1, 26⟩⟩,
        [(⟨"bobMar", ⟨1, 28⟩⟩, .identifier ⟨"z", ⟨1, 35⟩⟩)]⟩⟩], [],
      ⟨⟨1, 40⟩, .last (.return ⟨1, 54⟩ none)⟩⟩
  have read : ofTokens tokens = .ok p := rfl
  have verdict : p.tree.verdict.1 = some (.undeclared "z" ⟨1, 35⟩) := by decide
  obtain ⟨e, fails, fault⟩ := Tree.error_of_verdict verdict
  exact ⟨p, e, read, fails, fault, verify_unfinished read fails⟩

end Mamuth
