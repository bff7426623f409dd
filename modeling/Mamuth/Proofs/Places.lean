-- The places of the children in a tree that keeps the child-layout table, and what follows
-- for a check: each node of such a tree has a type once the tree is checked.
import Mathlib.Data.List.Nodup
import Mamuth.Proofs.Checking

namespace Mamuth

open Typing (Place parameter_of_place operand_of_place)

/-! ## Which child stands where -/

/-- Programs and functions stand below no node but a program. -/
theorem Node.Kind.not_mem_of_admits {k top : Kind} {ks : List Kind} (h : k.admits ks)
    (hk : k ≠ program) (ht : top = program ∨ top = function) : top ∉ ks := by
  have values : ¬ top.isValue := by rcases ht with rfl | rfl <;> decide
  have expressions : ¬ top.isExpression := by rcases ht with rfl | rfl <;> decide
  have leaves : ¬ top.isLeaf := by rcases ht with rfl | rfl <;> decide
  unfold admits at h
  split at h
  case h_16 ks =>
    simp only [Bool.or_eq_true, decide_eq_true_eq, List.map_eq_singleton_iff] at h
    grind
  case h_17 k ks =>
    have operands : inTurn ks → top ∉ ks := fun turns hm => leaves (isLeaf_of_inTurn turns _ hm)
    grind
  all_goals grind

/-- The child is the target of an assignment or the sign of a comparison. -/
def Tree.Skips (root : Node) (children : List Tree) (c : Tree) : Prop :=
  (∃ value, root.kind = .assignment ∧ children = [c, value]) ∨
    ∃ left right, root.kind = .comparison ∧ children = [left, c, right]

/-- No other child is skipped. -/
theorem Tree.LaidOut.skipped {root : Node} {children : List Tree}
    (h : (node root children).LaidOut) {i : Nat} {c : Tree} (hc : children[i]? = some c)
    (hs : Place.of root.kind i = .skipped) : Skips root children c := by
  have mem : c ∈ children := List.mem_of_getElem? hc
  by_cases leaf : root.kind.isLeaf
  · rw [show children = [] from children_of_isLeaf h leaf] at mem
    cases mem
  cases hk : root.kind <;> rw [hk] at hs leaf
  case assignment =>
    obtain ⟨target, value, rfl, -, -⟩ := h.assignment hk
    rcases i with _ | i
    · cases hc
      exact Or.inl ⟨value, hk, rfl⟩
    · cases hs
  case comparison =>
    obtain ⟨left, sign, right, rfl, -, -, -⟩ := h.comparison hk
    rcases i with _ | _ | i
    · cases hs
    · cases hc
      exact Or.inr ⟨left, right, hk, rfl⟩
    · simp [Place.of] at hs
  case «return» =>
    obtain rfl | ⟨value, rfl, -⟩ := h.return hk
    · cases hc
    · rcases i with _ | i
      · cases hs
      · cases hc
  all_goals first | exact absurd rfl leaf | cases hs

/-- What the table says of a child by its index: a function stands at the top only, and a child
that is no check of its own or comes without one is a leaf. -/
structure Suits (k : Node.Kind) (index : Nat) (child : Tree) : Prop where
  inner : child.root.kind ≠ .program
  function : child.root.kind = .function → k = .program
  leaf : Place.of k index ∈ [.skipped, .parameter, .operand] → child.root.kind.isLeaf

theorem Tree.LaidOut.suits {root : Node} {children : List Tree}
    (h : (node root children).LaidOut) {i : Nat} {c : Tree} (hc : children[i]? = some c) :
    Suits root.kind i c := by
  have mem : c ∈ children := List.mem_of_getElem? hc
  have kind : c.root.kind ∈ children.map (·.root.kind) := List.mem_map_of_mem mem
  refine ⟨fun hi => ?_, fun hf => ?_, fun hp => ?_⟩
  · by_cases hk : root.kind = .program
    · obtain ⟨assignments, functions, main, rfl, ha, hf, hm⟩ := h.program hk
      simp only [List.mem_append, List.mem_singleton] at mem
      rcases mem with mem | mem | rfl
      · cases (ha c mem).symm.trans hi
      · cases (hf c mem).symm.trans hi
      · cases hm.symm.trans hi
    · exact Node.Kind.not_mem_of_admits h.admits hk (Or.inl hi) kind
  · apply Decidable.byContradiction
    intro hk
    exact Node.Kind.not_mem_of_admits h.admits hk (Or.inr hf) kind
  · simp only [List.mem_cons, List.not_mem_nil, or_false] at hp
    rcases hp with hp | hp | hp
    · rcases h.skipped hc hp with ⟨value, hk, rfl⟩ | ⟨left, right, hk, rfl⟩
      · obtain ⟨_, _, shape, ht, -⟩ := h.assignment hk
        cases shape
        rw [ht]
        rfl
      · obtain ⟨_, _, _, shape, -, hs, -⟩ := h.comparison hk
        cases shape
        rw [hs]
        rfl
    · rw [h.parameters (parameter_of_place hp) c mem]
      rfl
    · exact h.operands (operand_of_place hp) c mem

/-! ## Every node gets a type -/

namespace Typing

/-- Whether the node of this number has been given a type. -/
def State.Typed (s : State) (i : Nat) : Prop := (s.types[i]?).isSome

theorem State.Typed.insert {s s' : State} {i j : Nat} {type : Ty}
    (h : s'.types = s.types.insert i type) (hj : j = i ∨ s.Typed j) : s'.Typed j := by
  rw [State.Typed, h, getElem?_insert_type]
  by_cases hi : i = j
  · rw [if_pos hi]
    rfl
  · rw [if_neg hi]
    exact hj.resolve_left (Ne.symm hi)

/-- Leaving a node gives it a type, and takes none away. -/
theorem leave_typed {root : Node} {named : Option Symbol} {children : List Tree} {s s' : State}
    {t : Tree} (h : leave root named children s = .ok (t, s')) {i : Nat}
    (hi : i = root.id ∨ s.Typed i) : s'.Typed i := by
  generalize hx : leave root named children = step at h
  unfold leave at hx
  split at hx <;> subst hx
  case h_1 target value hk =>
    obtain ⟨_, s₁, hg, h⟩ := Step.bind_ok.mp h
    cases hg
    cases h
    exact State.Typed.insert rfl (hi.imp_right fun hi => State.Typed.insert rfl (Or.inr hi))
  case h_2 left comparator right hk =>
    cases hc : left.type.common? right.type with
    | none =>
      simp only [hc] at h
      cases h
    | some common =>
      simp only [hc] at h
      obtain ⟨_, s₁, hg, h⟩ := Step.bind_ok.mp h
      cases hg
      cases h
      exact State.Typed.insert rfl (hi.imp_right fun hi => State.Typed.insert rfl (Or.inr hi))
  case h_8 =>
    cases named <;>
    · cases h
      exact State.Typed.insert rfl hi
  all_goals
    obtain ⟨_, s₁, hc, h⟩ := Step.bind_ok.mp h
    cases hc
    cases h
    exact State.Typed.insert rfl hi

/-- The children that are skipped get their types when their node is left. -/
theorem leave_skipped {root : Node} {named : Option Symbol} {children : List Tree} {s s' : State}
    {t c : Tree} (h : leave root named children s = .ok (t, s'))
    (hc : Tree.Skips root children c) : s'.Typed c.root.id := by
  rcases hc with ⟨value, hk, rfl⟩ | ⟨left, right, hk, rfl⟩
  · simp only [leave, hk] at h
    obtain ⟨_, s₁, hg, h⟩ := Step.bind_ok.mp h
    cases hg
    cases h
    exact State.Typed.insert rfl (Or.inr (State.Typed.insert rfl (Or.inl rfl)))
  · simp only [leave, hk] at h
    cases hc : left.type.common? right.type with
    | none =>
      simp only [hc] at h
      cases h
    | some common =>
      simp only [hc] at h
      obtain ⟨_, s₁, hg, h⟩ := Step.bind_ok.mp h
      cases hg
      cases h
      exact State.Typed.insert rfl (Or.inr (State.Typed.insert rfl (Or.inl rfl)))

/-- A successful check gives a type to each node of the tree, and takes none away. -/
def Decorates (t : Tree) : Prop :=
  ∀ (s s' : State) (t' : Tree), check t s = .ok (t', s') →
    ∀ i, i ∈ t.ids ∨ s.Typed i → s'.Typed i

theorem SameButHistory.typed {s s' : State} (h : SameButHistory s s') {i : Nat} (hi : s.Typed i) :
    s'.Typed i := by
  rw [State.Typed, h.2]
  exact hi

theorem Decorates.around {c : Tree} (h : Decorates c) {place : Place} {s s' : State} {c' : Tree}
    (hx : place.around c (check c) s = .ok (c', s')) {i : Nat}
    (hi : place ≠ .skipped ∧ i ∈ c.ids ∨ s.Typed i) : s'.Typed i := by
  cases place with
  | skipped =>
    cases hx
    exact hi.resolve_left fun hi => hi.1 rfl
  | plain => exact h _ _ _ hx i (hi.imp_left And.right)
  | parameter =>
    obtain ⟨_, s₁, hd, hx⟩ := Step.bind_ok.mp hx
    cases hd
    exact h _ _ _ hx i (hi.imp_left And.right)
  | argument =>
    obtain ⟨_, s₁, hl, hx⟩ := Step.bind_ok.mp hx
    have same := refuseFunction_ok (Step.leaving_ok.mp hl)
    exact h _ _ _ hx i (hi.imp And.right same.typed)
  | compared =>
    obtain ⟨_, s₁, hl, hx⟩ := Step.bind_ok.mp hx
    have same := lookUpIfNamed_ok (Step.leaving_ok.mp hl)
    exact h _ _ _ hx i (hi.imp And.right same.typed)
  | operand =>
    obtain ⟨_, s₁, hc, hx⟩ := Step.bind_ok.mp hx
    obtain ⟨_, s₂, hl, hx⟩ := Step.bind_ok.mp hx
    cases hx
    have same := requireNumeric_ok (Step.leaving_ok.mp hl)
    exact same.typed (h _ _ _ hc i (hi.imp_left And.right))

theorem Decorates.all {ts : List Tree} (h : ∀ t ∈ ts, Decorates t) {place : Nat → Place}
    {s s' : State} {ts' : List Tree} (hx : checkAll place ts s = .ok (ts', s')) {i : Nat}
    (hi : (∃ j c, ts[j]? = some c ∧ place j ≠ .skipped ∧ i ∈ c.ids) ∨ s.Typed i) :
    s'.Typed i := by
  induction ts generalizing place s ts' with
  | nil =>
    cases hx
    exact hi.resolve_left fun ⟨_, _, h, _⟩ => by cases h
  | cons t ts ih =>
    rw [List.forall_mem_cons] at h
    obtain ⟨t', s₁, ts', hc, hr, rfl⟩ := checkAll_cons_ok.mp hx
    apply ih h.2 hr
    rcases hi with ⟨j, c, hj, hp, hi⟩ | hi
    · rcases j with _ | j
      · cases hj
        exact Or.inr (h.1.around hc (Or.inl ⟨hp, hi⟩))
      · exact Or.inl ⟨j, c, hj, hp, hi⟩
    · exact Or.inr (h.1.around hc (Or.inr hi))

/-- A child that is skipped is left as it is. -/
theorem checkAll_skipped {place : Nat → Place} {ts ts' : List Tree} {s s' : State}
    (h : checkAll place ts s = .ok (ts', s')) :
    ts'.length = ts.length ∧ ∀ i, place i = .skipped → ts'[i]? = ts[i]? := by
  induction ts generalizing place s ts' with
  | nil =>
    cases h
    exact ⟨rfl, fun _ _ => rfl⟩
  | cons t ts ih =>
    obtain ⟨t', s₁, ts', hc, hr, rfl⟩ := checkAll_cons_ok.mp h
    obtain ⟨length, same⟩ := ih hr
    refine ⟨by simp [length], fun i hi => ?_⟩
    rcases i with _ | i
    · rw [hi] at hc
      cases hc
      rfl
    · exact same i hi

/-- The child that is skipped stays where it is. -/
theorem checkAll_shape {root : Node} {children children' : List Tree} {s s' : State} {c : Tree}
    (h : checkAll (Place.of root.kind) children s = .ok (children', s'))
    (hc : Tree.Skips root children c) : Tree.Skips root children' c := by
  obtain ⟨length, same⟩ := checkAll_skipped h
  rcases hc with ⟨value, hk, rfl⟩ | ⟨left, right, hk, rfl⟩
  · obtain ⟨target', value', rfl⟩ := List.length_eq_two.mp length
    cases same 0 (by rw [hk]; rfl)
    exact Or.inl ⟨value', hk, rfl⟩
  · obtain ⟨left', sign', right', rfl⟩ := List.length_eq_three.mp length
    cases same 1 (by rw [hk]; rfl)
    exact Or.inr ⟨left', right', hk, rfl⟩

/-- Every node of a tree that keeps the table is given a type. -/
theorem decorates {t : Tree} (hl : t.LaidOut) : Decorates t := by
  induction t using Tree.ofChildren with
  | step root children ih =>
    intro s s' t' h i hi
    rw [check] at h
    obtain ⟨named, s₁, he, h⟩ := Step.bind_ok.mp h
    obtain ⟨children', s₂, hc, hx⟩ := Step.bind_ok.mp h
    have entered := (enter_ok (Step.leaving_ok.mp he)).1
    have walked := Step.leaving_ok.mp hc
    have inside {i : Nat} := Decorates.all (i := i) (fun c hc => ih c hc (hl.child c hc)) walked
    rw [Tree.ids_node, List.mem_cons, or_assoc] at hi
    rcases hi with hi | hi | hi
    · exact leave_typed hx (Or.inl hi)
    · obtain ⟨c, hm, hi⟩ := List.mem_flatMap.mp hi
      obtain ⟨j, hj⟩ := List.getElem?_of_mem hm
      by_cases skipped : Place.of root.kind j = .skipped
      · have leaf : c.children = [] :=
          Tree.children_of_isLeaf (hl.child c hm) ((hl.suits hj).leaf (by simp [skipped]))
        obtain rfl : i = c.root.id := by
          obtain ⟨node, below⟩ := c
          obtain rfl : below = [] := leaf
          simpa [Tree.root] using hi
        exact leave_skipped hx (checkAll_shape walked (hl.skipped hj skipped))
      · exact leave_typed hx (Or.inr (inside (Or.inl ⟨j, c, hj, skipped, hi⟩)))
    · refine leave_typed hx (Or.inr (inside (Or.inr ?_)))
      rw [State.Typed, entered]
      exact hi

end Typing

end Mamuth
