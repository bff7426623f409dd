-- How a check fails. The walk comes down to one node and stops there: when it enters the node,
-- before or after the check of one of the children, or when it leaves the node. So every fault
-- names something of a node in the tree, and tells what kind of node that is.
import Mathlib.Data.List.Basic
import Mamuth.Proofs.Rechecking

namespace Mamuth

namespace Typing

/-! ## Before and after the check of a child -/

/-- What its place asks of a child before its check. -/
def Place.before (place : Place) (child : Node) : Step Unit Unit :=
  match place with
  | parameter => declare child.name .parameter child
  | argument => refuseFunction child
  | compared => do
    let _ ← lookUpIfNamed child
    return ()
  | skipped | plain | operand => return ()

/-- What its place asks of a child after its check. -/
def Place.after (place : Place) (child : Tree) : Step Unit Unit :=
  match place with
  | operand => requireNumeric child
  | skipped | plain | parameter | argument | compared => return ()

theorem Place.around_eq {place : Place} (hp : place ≠ .skipped) (child : Tree)
    (check : Step Tree Tree) :
    place.around child check = (do
      (place.before child.root).leaving fun _ => child
      let child ← check
      (place.after child).leaving fun _ => child
      return child) := by
  cases place with
  | skipped => exact absurd rfl hp
  | plain | operand => simp [around, before, after]
  | parameter => simp [around, before, after, Step.leaving_declare]
  | argument => simp [around, before, after]
  | compared => simp [around, before, after, Step.leaving_bind, -bind_pure_comp]

/-- Of two steps one after another, the first fails or the second does, from where it ends. -/
theorem Step.bind_error {x : Step σ α} {f : α → Step σ β} {s : State} {e : Stopped σ} :
    (x >>= f) s = .error e ↔ x s = .error e ∨ ∃ a s', x s = .ok (a, s') ∧ f a s' = .error e := by
  rw [Step.bind_apply]
  cases hx : x s with
  | ok p =>
    refine ⟨fun h => .inr ⟨p.1, p.2, rfl, h⟩, ?_⟩
    rintro (h | ⟨_, _, he, h⟩)
    · cases h
    · cases he
      exact h
  | error e' => simp

/-! ## What a step keeps -/

/-- What is seen of the state stays as it was, whether the step gives something or stops. -/
def Keeps (seen : State → γ) (s : State) : Except (Stopped σ) (α × State) → Prop
  | .ok (_, s') => seen s' = seen s
  | .error e => seen e.state = seen s

theorem Keeps.bind {seen : State → γ} {s : State} {x : Step σ α} {f : α → Step σ β}
    (hx : Keeps seen s (x s)) (hf : ∀ a s', Keeps seen s' (f a s')) :
    Keeps seen s ((x >>= f) s) := by
  rw [Step.bind_apply]
  rcases h : x s with e | ⟨a, s'⟩ <;> rw [h] at hx
  · exact hx
  · have rest := hf a s'
    dsimp only
    rcases h' : f a s' with e | ⟨b, s''⟩ <;> rw [h'] at rest
    · exact Eq.trans rest hx
    · exact Eq.trans rest hx

section

variable {seen : State → γ} (noting : ∀ s use, seen (s.noting use) = seen s)
include noting

theorem keeps_lookUp (use : Node) (s : State) : Keeps seen s (lookUp use s) := by
  rw [lookUp_apply]
  split <;> exact noting s use

theorem keeps_lookUpIfNamed (use : Node) (s : State) : Keeps seen s (lookUpIfNamed use s) := by
  rw [lookUpIfNamed_apply]
  split
  · split <;> exact noting s use
  · exact rfl

theorem keeps_refuseFunction (argument : Node) (s : State) :
    Keeps seen s (refuseFunction argument s) := by
  rw [refuseFunction_apply]
  split
  · split
    · split <;> exact noting s argument
    · exact noting s argument
  · exact rfl

theorem keeps_requireNumeric (operand : Tree) (s : State) :
    Keeps seen s (requireNumeric operand s) := by
  rw [requireNumeric_apply]
  split
  · split
    · split <;> exact noting s operand.root
    · exact noting s operand.root
  all_goals exact rfl

theorem Place.keeps_after (place : Place) (c : Tree) (s : State) :
    Keeps seen s (place.after c s) := by
  cases place with
  | operand => exact keeps_requireNumeric noting c s
  | skipped | plain | parameter | argument | compared => exact rfl

variable (declaring : ∀ (s : State) name category declaration,
  seen { s with table := s.table.insert name category declaration } = seen s)
include declaring

theorem Place.keeps_before (place : Place) (c : Node) (s : State) :
    Keeps seen s (place.before c s) := by
  cases place with
  | parameter => exact declaring s _ _ _
  | argument => exact keeps_refuseFunction noting c s
  | compared => exact (keeps_lookUpIfNamed noting c s).bind fun _ _ => rfl
  | skipped | plain | operand => exact rfl

theorem keeps_enter {root : Node}
    (opening : root.kind.opensBlock → ∀ s, Keeps seen s ((openBlock root.kind : Step Unit Unit) s))
    (children : List Tree) (s : State) : Keeps seen s (enter root children s) := by
  generalize hx : enter root children = step
  unfold enter at hx
  split at hx <;> subst hx
  case h_1 target value _ =>
    exact (keeps_lookUpIfNamed noting value.root s).bind fun _ s => declaring s _ _ _
  case h_5 callee _ _ =>
    refine (keeps_lookUp noting callee.root s).bind fun symbol s' => ?_
    split <;> exact rfl
  case h_7 value _ _ => exact keeps_lookUpIfNamed noting value.root s
  case h_8 kind =>
    refine Keeps.bind (x := declare root.name .function root) (declaring s _ _ _) fun _ s => ?_
    exact (opening (by rw [kind]; rfl) s).bind fun _ _ => rfl
  case h_9 kind | h_10 kind | h_11 kind | h_12 kind =>
    exact (opening (by rw [kind]; rfl) s).bind fun _ _ => rfl
  all_goals exact rfl

end

/-! ## The way to the fault -/

/-- The walk enters a node and comes to the child at an index. -/
def ComesTo (root : Node) (children : List Tree) (s : State) (i : Nat) (c : Tree) (s' : State) :
    Prop :=
  Place.of root.kind i ≠ .skipped ∧ children[i]? = some c ∧
    ∃ named s₁ before, enter root children s = .ok (named, s₁) ∧
      checkAll (Place.of root.kind) (children.take i) s₁ = .ok (before, s')

/-- A check that starts in a state fails, and where on the way: the node at which it stops is
the one of the first rule, and each use of `inside` is a node above it. -/
inductive Fails : Tree → State → Fault → State → Prop
  | entering {root children s e} (h : enter root children s = .error e) :
    Fails (.node root children) s e.fault e.state
  | before {root children s i c s₁ e} (way : ComesTo root children s i c s₁)
    (h : (Place.of root.kind i).before c.root s₁ = .error e) :
    Fails (.node root children) s e.fault e.state
  | inside {root children s i c s₁ s₂ fault s'} (way : ComesTo root children s i c s₁)
    (h : (Place.of root.kind i).before c.root s₁ = .ok ((), s₂)) (below : Fails c s₂ fault s') :
    Fails (.node root children) s fault s'
  | after {root children s i c s₁ s₂ c' s₃ e} (way : ComesTo root children s i c s₁)
    (h : (Place.of root.kind i).before c.root s₁ = .ok ((), s₂))
    (own : check c s₂ = .ok (c', s₃)) (h' : (Place.of root.kind i).after c' s₃ = .error e) :
    Fails (.node root children) s e.fault e.state
  | leaving {root children s named s₁ children' s₂ e}
    (entered : enter root children s = .ok (named, s₁))
    (walked : checkAll (Place.of root.kind) children s₁ = .ok (children', s₂))
    (h : leave root named children' s₂ = .error e) :
    Fails (.node root children) s e.fault e.state

/-- Trees next to each other fail when one of them does in its place. What is left of it stands
between what the trees before it became and those behind it. -/
theorem checkAll_error {place : Nat → Place} {ts : List Tree} {s : State}
    {e : Stopped (List Tree)} : checkAll place ts s = .error e ↔
      ∃ i c before s' e', ts[i]? = some c ∧ checkAll place (ts.take i) s = .ok (before, s') ∧
        (place i).around c (check c) s' = .error e' ∧
        e = ⟨e'.fault, before ++ e'.left :: ts.drop (i + 1), e'.state⟩ := by
  induction ts generalizing place s e with
  | nil =>
    constructor
    · intro h
      cases h
    · rintro ⟨i, c, before, s', e', hi, -⟩
      cases hi
  | cons t ts ih =>
    rw [checkAll, Step.bind_error]
    constructor
    · rintro (h | ⟨t', s₁, first, h⟩)
      · obtain ⟨e', he, rfl⟩ := Step.leaving_error.mp h
        exact ⟨0, t, [], s, e', rfl, rfl, he, rfl⟩
      · rcases Step.bind_error.mp h with h | ⟨_, _, -, h⟩
        · obtain ⟨e', he, rfl⟩ := Step.leaving_error.mp h
          obtain ⟨i, c, before, s', e'', hi, walked, fails, rfl⟩ := ih.mp he
          exact ⟨i + 1, c, t' :: before, s', e'', hi,
            checkAll_cons_ok.mpr ⟨t', s₁, before, Step.leaving_ok.mp first, walked, rfl⟩, fails,
            rfl⟩
        · cases h
    · rintro ⟨i, c, before, s', e', hi, walked, fails, rfl⟩
      cases i with
      | zero =>
        cases hi
        cases walked
        exact .inl (Step.leaving_error.mpr ⟨e', fails, rfl⟩)
      | succ i =>
        rw [List.take_succ_cons] at walked
        obtain ⟨t', s₁, before', first, rest, rfl⟩ := checkAll_cons_ok.mp walked
        have later := ih.mpr ⟨i, c, before', s', e', hi, rest, fails, rfl⟩
        exact .inr ⟨t', s₁, Step.leaving_ok.mpr first,
          Step.bind_error.mpr (.inl (Step.leaving_error.mpr ⟨_, later, rfl⟩))⟩

theorem length_left_of_checkAll {place : Nat → Place} {ts : List Tree} {s : State}
    {e : Stopped (List Tree)} (h : checkAll place ts s = .error e) :
    e.left.length = ts.length := by
  induction ts generalizing place s e with
  | nil => cases h
  | cons t ts ih =>
    rw [checkAll] at h
    rcases Step.bind_error.mp h with h | ⟨t', s₁, -, h⟩
    · obtain ⟨e', -, rfl⟩ := Step.leaving_error.mp h
      rfl
    · rcases Step.bind_error.mp h with h | ⟨_, _, -, h⟩
      · obtain ⟨e', he, rfl⟩ := Step.leaving_error.mp h
        exact congrArg (· + 1) (ih he)
      · cases h

/-- A child fails in its place before its own check, in it, or after it. -/
theorem Place.around_error {place : Place} {c : Tree} {s : State} {e : Stopped Tree}
    (h : place.around c (check c) s = .error e) : place ≠ .skipped ∧
      ((∃ e', place.before c.root s = .error e' ∧ e = ⟨e'.fault, c, e'.state⟩) ∨
        ∃ s₁, place.before c.root s = .ok ((), s₁) ∧
          (check c s₁ = .error e ∨ ∃ c' s₂ e', check c s₁ = .ok (c', s₂) ∧
            place.after c' s₂ = .error e' ∧ e = ⟨e'.fault, c', e'.state⟩)) := by
  have plain : place ≠ .skipped := by
    rintro rfl
    cases h
  refine ⟨plain, ?_⟩
  rw [Place.around_eq plain] at h
  rcases Step.bind_error.mp h with h | ⟨⟨⟩, s₁, asked, h⟩
  · exact .inl (Step.leaving_error.mp h)
  refine .inr ⟨s₁, Step.leaving_ok.mp asked, ?_⟩
  rcases Step.bind_error.mp h with h | ⟨c', s₂, own, h⟩
  · exact .inl h
  rcases Step.bind_error.mp h with h | ⟨_, _, -, h⟩
  · obtain ⟨e', asking, rfl⟩ := Step.leaving_error.mp h
    exact .inr ⟨c', s₂, e', own, asking, rfl⟩
  · cases h

/-- Every check that fails does so in one of these ways. -/
theorem fails_of_error {t : Tree} {s : State} {e : Stopped Tree} (h : check t s = .error e) :
    Fails t s e.fault e.state := by
  induction t using Tree.ofChildren generalizing s e with
  | step root children ih =>
    rw [check] at h
    rcases Step.bind_error.mp h with h | ⟨named, s₁, entered, h⟩
    · obtain ⟨e', he, rfl⟩ := Step.leaving_error.mp h
      exact .entering he
    have entered := Step.leaving_ok.mp entered
    rcases Step.bind_error.mp h with h | ⟨children', s₂, walked, h⟩
    · obtain ⟨e', he, rfl⟩ := Step.leaving_error.mp h
      obtain ⟨i, c, before, s', e'', hi, walked, fails, rfl⟩ := checkAll_error.mp he
      show Fails _ s e''.fault e''.state
      obtain ⟨plain, asking⟩ := Place.around_error fails
      have way : ComesTo root children s i c s' := ⟨plain, hi, named, s₁, before, entered, walked⟩
      rcases asking with ⟨e', asking, rfl⟩ | ⟨s₂, asked, own | ⟨c', s₃, e', own, asking, rfl⟩⟩
      · exact .before way asking
      · exact .inside way asked (ih c (List.mem_of_getElem? hi) own)
      · exact .after way asked own asking
    · exact .leaving entered (Step.leaving_ok.mp walked) h

end Typing

/-! ## What a fault tells -/

/-- The kind of the nodes that the rule is about. -/
def Shape.kind : Shape → Node.Kind
  | assignment => .assignment
  | comparison => .comparison
  | invocation => .invocation

/-- The numbers of children that the rule can read. -/
def Shape.Fits : Shape → Nat → Prop
  | assignment, n => n = 2
  | comparison, n => n = 3
  | invocation, n => 1 ≤ n

/-- The fault tells of the root of a tree and its children what there is to see. The types that
it names are left open. -/
inductive Tree.Shows : Tree → Fault → Prop
  | undeclared {root children use} (h : use ∈ children)
    (named : use.root.kind = .identifier ∨ root.kind = .invocation ∧ children.head? = some use) :
    Shows (.node root children) (.undeclared use.root.name use.root.position)
  | notNumeric {root children operand found} (hk : root.kind = .mathExpression)
    (h : operand ∈ children) :
    Shows (.node root children) (.notNumeric operand.root.name found operand.root.position)
  | notCallable {root callee rest} (hk : root.kind = .invocation) :
    Shows (.node root (callee :: rest)) (.notCallable callee.root.name callee.root.position)
  | functionArgument {root children argument} (hk : root.kind = .invocationArguments)
    (h : argument ∈ children) (named : argument.root.kind = .identifier) :
    Shows (.node root children) (.functionArgument argument.root.name argument.root.position)
  | incomparable {root left comparator right leftType rightType} (hk : root.kind = .comparison) :
    Shows (.node root [left, comparator, right])
      (.incomparable comparator.root.name leftType rightType root.position)
  | malformed {root children shape} (hk : root.kind = shape.kind)
    (h : ¬ shape.Fits children.length) : Shows (.node root children) (.malformed shape)

namespace Typing

section

variable {s : State}

theorem name_of_find? {name : String} {y : Symbol} (h : s.find? name = some y) : y.name = name :=
  (SymbolTable.of_find?_eq_some h).2.1

theorem lookUp_error {use : Node} {e : Stopped Unit} (h : lookUp use s = .error e) :
    e.fault = .undeclared use.name use.position := by
  rw [lookUp_apply] at h
  split at h <;> cases h
  rfl

theorem lookUpIfNamed_error {use : Node} {e : Stopped Unit} (h : lookUpIfNamed use s = .error e) :
    use.kind = .identifier ∧ e.fault = .undeclared use.name use.position := by
  rw [lookUpIfNamed_apply] at h
  split at h
  · rename_i hk
    split at h <;> cases h
    exact ⟨hk, rfl⟩
  · cases h

theorem refuseFunction_error {argument : Node} {e : Stopped Unit}
    (h : refuseFunction argument s = .error e) :
    argument.kind = .identifier ∧ (e.fault = .undeclared argument.name argument.position ∨
      e.fault = .functionArgument argument.name argument.position) := by
  rw [refuseFunction_apply] at h
  split at h
  · rename_i hk
    split at h
    · rename_i hy
      split at h <;> cases h
      exact ⟨hk, .inr (by rw [name_of_find? hy])⟩
    · cases h
      exact ⟨hk, .inl rfl⟩
  · cases h

theorem requireNumeric_error {operand : Tree} {e : Stopped Unit}
    (h : requireNumeric operand s = .error e) :
    operand.root.kind = .identifier ∧
        e.fault = .undeclared operand.root.name operand.root.position ∨
      ∃ found, e.fault = .notNumeric operand.root.name found operand.root.position := by
  rw [requireNumeric_apply] at h
  split at h
  · rename_i hk
    split at h
    · split at h <;> cases h
      exact .inr ⟨_, rfl⟩
    · cases h
      exact .inl ⟨hk, rfl⟩
  · cases h
  · cases h
  · cases h
    exact .inr ⟨_, rfl⟩

theorem enter_shows {root : Node} {children : List Tree} {e : Stopped Unit}
    (h : enter root children s = .error e) : (Tree.node root children).Shows e.fault := by
  generalize hx : enter root children = step at h
  unfold enter at hx
  split at hx <;> subst hx
  case h_1 target value hk =>
    rcases Step.bind_error.mp h with h | ⟨_, _, -, h⟩
    · obtain ⟨named, he⟩ := lookUpIfNamed_error h
      rw [he]
      exact .undeclared (by simp) (.inl named)
    · cases h
  case h_2 hk shape =>
    cases h
    exact .malformed hk fun fits => (List.length_eq_two.mp fits).elim fun a ⟨b, hc⟩ => shape a b hc
  case h_4 hk shape =>
    cases h
    exact .malformed hk fun fits =>
      (List.length_eq_three.mp fits).elim fun a ⟨b, c, hc⟩ => shape a b c hc
  case h_5 callee rest hk =>
    rcases Step.bind_error.mp h with h | ⟨symbol, s₁, looked, h⟩
    · rw [lookUp_error h]
      exact .undeclared (by simp) (.inr ⟨hk, rfl⟩)
    · rw [lookUp_apply] at looked
      split at looked <;> cases looked
      rename_i hy
      split at h <;> cases h
      rw [name_of_find? hy]
      exact .notCallable hk
  case h_6 hk =>
    cases h
    exact .malformed hk (Nat.not_succ_le_zero 0)
  case h_7 value rest hk =>
    obtain ⟨named, he⟩ := lookUpIfNamed_error h
    rw [he]
    exact .undeclared (by simp) (.inl named)
  all_goals cases h

theorem argument_of_place {k : Node.Kind} {index : Nat} (h : Place.of k index = .argument) :
    k = .invocationArguments := by
  cases k <;> grind [Place.of]

theorem before_shows {root : Node} {children : List Tree} {i : Nat} {c : Tree} {e : Stopped Unit}
    (hc : children[i]? = some c) (h : (Place.of root.kind i).before c.root s = .error e) :
    (Tree.node root children).Shows e.fault := by
  have mem : c ∈ children := List.mem_of_getElem? hc
  cases hp : Place.of root.kind i <;> rw [hp] at h
  case argument =>
    obtain ⟨named, he | he⟩ := refuseFunction_error h <;> rw [he]
    · exact .undeclared mem (.inl named)
    · exact .functionArgument (argument_of_place hp) mem named
  case compared =>
    rcases Step.bind_error.mp h with h | ⟨_, _, -, h⟩
    · obtain ⟨named, he⟩ := lookUpIfNamed_error h
      rw [he]
      exact .undeclared mem (.inl named)
    · cases h
  all_goals cases h

theorem after_shows {root : Node} {children : List Tree} {i : Nat} {c c' : Tree}
    {e : Stopped Unit} (hc : children[i]? = some c) (same : c'.untyped = c.untyped)
    (h : (Place.of root.kind i).after c' s = .error e) :
    (Tree.node root children).Shows e.fault := by
  have mem : c ∈ children := List.mem_of_getElem? hc
  have roots := roots_of_untyped same
  have kind : c'.root.kind = c.root.kind := (congrArg Node.kind roots :)
  have name : c'.root.name = c.root.name := (congrArg Node.name roots :)
  have position : c'.root.position = c.root.position := (congrArg Node.position roots :)
  cases hp : Place.of root.kind i <;> rw [hp] at h
  case operand =>
    rcases requireNumeric_error h with ⟨named, he⟩ | ⟨found, he⟩ <;> rw [he, name, position]
    · exact .undeclared mem (.inl (kind ▸ named))
    · exact .notNumeric (operand_of_place hp) mem
  all_goals cases h

theorem leave_shows {root : Node} {named : Option Symbol} {children children' : List Tree}
    {e : Stopped Tree} (same : children'.map Tree.untyped = children.map Tree.untyped)
    (h : leave root named children' s = .error e) : (Tree.node root children).Shows e.fault := by
  generalize hx : leave root named children' = step at h
  unfold leave at hx
  split at hx <;> subst hx
  case h_2 left comparator right hk =>
    rcases children with _ | ⟨left', _ | ⟨comparator', _ | ⟨right', _ | ⟨_, _⟩⟩⟩⟩ <;>
        simp at same
    cases common : left.type.common? right.type <;> rw [common] at h <;> cases h
    have name : comparator.root.name = comparator'.root.name :=
      (congrArg Node.name (roots_of_untyped same.2.1) :)
    rw [name]
    exact .incomparable hk
  case h_8 => cases named <;> cases h
  all_goals cases h

/-- The node at which a check stops is in the tree, and the fault tells of it. -/
theorem Fails.shows {t : Tree} {fault : Fault} {s' : State} (h : Fails t s fault s') :
    ∃ u ∈ t.subtrees, u.Shows fault := by
  induction h with
  | entering h => exact ⟨_, Tree.self_mem_subtrees _, enter_shows h⟩
  | before way h => exact ⟨_, Tree.self_mem_subtrees _, before_shows way.2.1 h⟩
  | inside way _ _ ih =>
    obtain ⟨u, hu, shows⟩ := ih
    exact ⟨u, .tail _ (Tree.mem_subtreesAll.mpr ⟨_, List.mem_of_getElem? way.2.1, hu⟩), shows⟩
  | after way _ own h =>
    exact ⟨_, Tree.self_mem_subtrees _, after_shows way.2.1 (untyped_of_check own) h⟩
  | leaving _ walked h =>
    exact ⟨_, Tree.self_mem_subtrees _, leave_shows (untyped_of_checkAll walked) h⟩

end

end Typing

theorem Tree.shows_of_verify {t : Tree} {e : Typing.Stopped Tree} (h : t.verify = .error e) :
    ∃ u ∈ t.subtrees, u.Shows e.fault := (Typing.fails_of_error h).shows

end Mamuth
