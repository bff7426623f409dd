-- The blocks that a check opens and closes. The log of a check that succeeds has, for each node
-- with a block of its own, the opening and the closing with all that is inside between them. A
-- check that fails has come to a part of this: what it leaves open are the blocks around the node
-- at which it stops.
import Mamuth.Compilation
import Mamuth.Proofs.Failures
import Mamuth.Proofs.Scoping

namespace Mamuth

/-! ## Blocks in a log -/

namespace Log

/-- Blocks that are opened and closed at `depth` blocks inside. Each is closed before the next is
opened beside it, and what comes in between is inside. -/
inductive Nested : Nat → List Event → Prop
  | nil {depth} : Nested depth []
  | block {depth kind inside beside} (hi : Nested (depth + 1) inside) (hb : Nested depth beside) :
    Nested depth (.opened (depth + 1) kind :: (inside ++ .closed depth :: beside))

/-- The blocks that are open after the events, the innermost first, each with its depth and the
kind of its node. -/
def openAfter (already : List (Nat × Node.Kind)) : List Event → List (Nat × Node.Kind)
  | [] => already
  | .opened depth kind :: events => openAfter ((depth, kind) :: already) events
  | .closed _ :: events => openAfter already.tail events
  | _ :: events => openAfter already events

theorem openAfter_append (already : List (Nat × Node.Kind)) (xs ys : List Event) :
    openAfter already (xs ++ ys) = openAfter (openAfter already xs) ys := by
  induction xs generalizing already with
  | nil => rfl
  | cons x xs ih => cases x <;> exact ih _

variable {depth : Nat} {xs ys : List Event}

/-- Nested blocks leave open what was open. -/
theorem Nested.openAfter_eq (h : Nested depth xs) (already : List (Nat × Node.Kind)) :
    openAfter already xs = already := by
  induction h generalizing already with
  | nil => rfl
  | block _ _ inside beside => rw [openAfter, openAfter_append, inside, openAfter, beside]; rfl

theorem Nested.append (hx : Nested depth xs) (hy : Nested depth ys) : Nested depth (xs ++ ys) := by
  induction hx with
  | nil => exact hy
  | block hi _ _ ih =>
    rw [List.cons_append, List.append_assoc, List.cons_append]
    exact .block hi (ih hy)

end Log

/-! ## Blocks in a tree -/

namespace Node

/-- The event for the block of a node, if it has one, with `depth` blocks around the node. -/
def opening (n : Node) (depth : Nat) : List Log.Event :=
  if n.kind.opensBlock then [.opened (depth + 1) n.kind] else []

/-- The event for the end of the block. -/
def closing (n : Node) (depth : Nat) : List Log.Event :=
  if n.kind.opensBlock then [.closed depth] else []

/-- The number of blocks around the children of a node. -/
def inside (n : Node) (depth : Nat) : Nat := if n.kind.opensBlock then depth + 1 else depth

/-- Whether the rule of a node asks something of the children besides their own check. -/
def asksChildren (n : Node) : Prop :=
  n.kind ∈ [.comparison, .mathExpression, .invocationArguments]

theorem opening_of_asksChildren {n : Node} (h : n.asksChildren) (depth : Nat) :
    n.opening depth = [] := by
  rw [asksChildren] at h
  simp only [List.mem_cons, List.not_mem_nil, or_false] at h
  rcases h with h | h | h <;> rw [opening, h] <;> rfl

end Node

/-- The number of blocks that the given nodes have. -/
def blockDepth (above : List Node) : Nat := above.countP (·.kind.opensBlock)

/-- The blocks of the given nodes, the innermost first, each with its depth. -/
def blocksAround : List Node → List (Nat × Node.Kind)
  | [] => []
  | n :: above =>
    if n.kind.opensBlock then (blockDepth above + 1, n.kind) :: blocksAround above
    else blocksAround above

theorem blockDepth_cons (n : Node) (above : List Node) :
    blockDepth (n :: above) = n.inside (blockDepth above) := by
  rw [blockDepth, List.countP_cons, Node.inside]
  split <;> rfl

/-- Behind the opening of a node its block is open too. -/
theorem openAfter_opening (n : Node) (above : List Node) :
    Log.openAfter (blocksAround above) (n.opening (blockDepth above)) =
      blocksAround (n :: above) := by
  rw [Node.opening, blocksAround]
  split <;> rfl

/-- The openings of the blocks of nodes in their places, each with one more than the number of
blocks around the node. -/
def openings (os : List Occurrence) : List Log.Event :=
  (os.filter (·.node.kind.opensBlock)).map fun o => .opened (blockDepth o.above + 1) o.node.kind

theorem openings_append (os ps : List Occurrence) :
    openings (os ++ ps) = openings os ++ openings ps := by
  rw [openings, List.filter_append, List.map_append, openings, openings]

theorem openings_cons (o : Occurrence) (os : List Occurrence) :
    openings (o :: os) = o.node.opening (blockDepth o.above) ++ openings os := by
  rw [openings, List.filter_cons, Node.opening]
  split <;> rfl

/-- Whether the event opens a block. -/
def Log.Event.opens : Log.Event → Bool
  | opened _ _ => true
  | _ => false

namespace Tree

mutual

/-- The events for the blocks of a tree with `depth` blocks around it. -/
def blockEvents (depth : Nat) : Tree → List Log.Event
  | node root children =>
    root.opening depth ++ blockEventsAll (root.inside depth) children ++ root.closing depth

def blockEventsAll (depth : Nat) : List Tree → List Log.Event
  | [] => []
  | t :: ts => blockEvents depth t ++ blockEventsAll depth ts

end

theorem blockEventsAll_append (depth : Nat) (ts us : List Tree) :
    blockEventsAll depth (ts ++ us) = blockEventsAll depth ts ++ blockEventsAll depth us := by
  induction ts with
  | nil => rfl
  | cons t ts ih => rw [List.cons_append, blockEventsAll, blockEventsAll, ih, List.append_assoc]

theorem blockEvents_leaf {t : Tree} (hl : t.LaidOut) (h : t.root.kind.isLeaf) (depth : Nat) :
    t.blockEvents depth = [] := by
  obtain ⟨root, children⟩ := t
  obtain rfl : children = [] := children_of_isLeaf hl h
  change root.kind.isLeaf at h
  have plain : root.kind.opensBlock = false := by
    cases hk : root.kind <;> rw [hk] at h <;> first | rfl | exact absurd h (by decide)
  simp [blockEvents, blockEventsAll, Node.opening, Node.closing, plain]

mutual

theorem nested_blockEvents (depth : Nat) (t : Tree) : Log.Nested depth (t.blockEvents depth) := by
  cases t with
  | node root children =>
    have below := nested_blockEventsAll (root.inside depth) children
    rw [blockEvents, Node.opening, Node.closing]
    rw [Node.inside] at below ⊢
    by_cases hk : root.kind.opensBlock
    · simp only [if_pos hk] at below ⊢
      exact .block below .nil
    · simp only [if_neg hk] at below ⊢
      simpa using below

theorem nested_blockEventsAll (depth : Nat) (ts : List Tree) :
    Log.Nested depth (blockEventsAll depth ts) := by
  cases ts with
  | nil => exact .nil
  | cons t ts => exact (nested_blockEvents depth t).append (nested_blockEventsAll depth ts)

end

theorem opens_opening (n : Node) (depth : Nat) :
    (n.opening depth).filter Log.Event.opens = n.opening depth := by
  rw [Node.opening]
  split <;> rfl

mutual

/-- The openings are those of the nodes in their places, one after the other. -/
theorem opens_blockEvents (t : Tree) (above : List Node) (index : Nat) :
    (t.blockEvents (blockDepth above)).filter Log.Event.opens =
      openings (t.occurrencesAt above index) := by
  cases t with
  | node root children =>
    have below := opens_blockEventsAll children (root :: above) 0
    have closing : (root.closing (blockDepth above)).filter Log.Event.opens = [] := by
      rw [Node.closing]
      split <;> rfl
    rw [blockEvents, occurrencesAt, openings_cons, ← below, blockDepth_cons,
      List.filter_append, List.filter_append, opens_opening, closing, List.append_nil]

theorem opens_blockEventsAll (ts : List Tree) (above : List Node) (index : Nat) :
    (blockEventsAll (blockDepth above) ts).filter Log.Event.opens =
      openings (occurrencesFrom above index ts) := by
  cases ts with
  | nil => rfl
  | cons t ts =>
    rw [blockEventsAll, occurrencesFrom, List.filter_append, openings_append,
      opens_blockEvents t above index, opens_blockEventsAll ts above (index + 1)]

end

theorem blockEventsAll_eq_nil {ts : List Tree} {depth : Nat}
    (h : ∀ t ∈ ts, t.blockEvents depth = []) : blockEventsAll depth ts = [] := by
  induction ts with
  | nil => rfl
  | cons t ts ih =>
    rw [List.forall_mem_cons] at h
    rw [blockEventsAll, h.1, ih h.2, List.nil_append]

/-- A node that asks something of its children has leaves only. -/
theorem LaidOut.blockEvents_asked {root : Node} {children : List Tree}
    (h : (node root children).LaidOut) (asks : root.asksChildren) (depth : Nat) :
    ∀ c ∈ children, c.blockEvents depth = [] := by
  intro c hc
  refine blockEvents_leaf (h.child c hc) ?_ depth
  rw [Node.asksChildren] at asks
  simp only [List.mem_cons, List.not_mem_nil, or_false] at asks
  rcases asks with hk | hk | hk
  · obtain ⟨left, sign, right, rfl, hl, hs, hr⟩ := h.comparison hk
    simp only [List.mem_cons, List.not_mem_nil, or_false] at hc
    rcases hc with rfl | rfl | rfl
    · exact Node.Kind.isLeaf_of_isValue hl
    · rw [hs]
      rfl
    · exact Node.Kind.isLeaf_of_isValue hr
  · exact h.operands hk c hc
  · exact Node.Kind.isLeaf_of_isValue (h.arguments hk c hc)

/-! ## On the way to a node -/

theorem occurrencesFrom_append (ts us : List Tree) (above : List Node) (index : Nat) :
    occurrencesFrom above index (ts ++ us) =
      occurrencesFrom above index ts ++ occurrencesFrom above (index + ts.length) us := by
  induction ts generalizing index with
  | nil => rfl
  | cons t ts ih =>
    rw [List.cons_append, occurrencesFrom, occurrencesFrom, ih, List.append_assoc,
      List.length_cons, Nat.add_right_comm, Nat.add_assoc]

/-- The events of a walk that has come to a node in its place, and no further: of the blocks in
the tree those before the node are opened, and the ones that are around it are still open. -/
structure WalkedTo (t : Tree) (above : List Node) (index : Nat) (o : Occurrence)
    (events : List Log.Event) : Prop where
  part : events <+: t.blockEvents (blockDepth above)
  opened : ∃ before after, t.occurrencesAt above index = before ++ o :: after ∧
    events.filter Log.Event.opens = openings before
  around : Log.openAfter (blocksAround above) events = blocksAround o.above

section

variable {above : List Node} {index : Nat} {o : Occurrence} {events : List Log.Event}

theorem walkedTo_root (t : Tree) : t.WalkedTo above index ⟨above, index, t.root⟩ [] where
  part := List.nil_prefix
  opened := ⟨[], _, occurrencesAt_eq t above index, rfl⟩
  around := rfl

/-- On the way into a child the block of the root is opened, and those in the children before are
opened and closed. -/
theorem WalkedTo.child {root : Node} {ts us : List Tree} {c : Tree}
    (h : c.WalkedTo (root :: above) ts.length o events) :
    (node root (ts ++ c :: us)).WalkedTo above index o
      (root.opening (blockDepth above) ++
        (blockEventsAll (root.inside (blockDepth above)) ts ++ events)) where
  part := by
    obtain ⟨rest, hr⟩ := h.part
    rw [blockDepth_cons] at hr
    refine ⟨rest ++ (blockEventsAll (root.inside (blockDepth above)) us ++
      root.closing (blockDepth above)), ?_⟩
    rw [blockEvents, blockEventsAll_append, blockEventsAll, ← hr]
    simp only [List.append_assoc]
  opened := by
    obtain ⟨before, after, places, opened⟩ := h.opened
    refine ⟨⟨above, index, root⟩ :: (occurrencesFrom (root :: above) 0 ts ++ before),
      after ++ occurrencesFrom (root :: above) (ts.length + 1) us, ?_, ?_⟩
    · rw [occurrencesAt, occurrencesFrom_append, occurrencesFrom, Nat.zero_add, places]
      simp only [List.append_assoc, List.cons_append]
    · rw [List.filter_append, List.filter_append, opens_opening, ← blockDepth_cons,
        opens_blockEventsAll ts (root :: above) 0, opened, openings_cons, openings_append]
  around := by
    rw [Log.openAfter_append, openAfter_opening, Log.openAfter_append,
      (nested_blockEventsAll _ ts).openAfter_eq, h.around]

/-- A walk with these events has come to a node that shows the fault. -/
def ShowsAfter (t : Tree) (above : List Node) (index : Nat) (fault : Fault)
    (events : List Log.Event) : Prop :=
  ∃ o, t.WalkedTo above index o events ∧ ∃ u ∈ t.subtrees, u.root = o.node ∧ u.Shows fault

variable {fault : Fault}

theorem Shows.showsAfter {t : Tree} (h : t.Shows fault) : t.ShowsAfter above index fault [] :=
  ⟨_, t.walkedTo_root, t, t.self_mem_subtrees, rfl, h⟩

theorem ShowsAfter.child {root : Node} {ts us : List Tree} {c : Tree}
    (h : c.ShowsAfter (root :: above) ts.length fault events) :
    (node root (ts ++ c :: us)).ShowsAfter above index fault
      (root.opening (blockDepth above) ++
        (blockEventsAll (root.inside (blockDepth above)) ts ++ events)) := by
  obtain ⟨o, walked, u, hu, shown⟩ := h
  exact ⟨o, walked.child, u, .tail _ (mem_subtreesAll.mpr ⟨c, by simp, hu⟩), shown⟩

end

end Tree

namespace Typing

open Compiler (events)

/-! ## Steps that open and close no block -/

/-- Nothing is added to the log, whether the step gives something or stops. -/
def Quiet (s : State) : Except (Stopped σ) (α × State) → Prop
  | .ok (_, s') => events s' = events s
  | .error e => events e.state = events s

section

variable {s s' : State} {root : Node} {children : List Tree}

theorem events_noting (s : State) (use : Node) : events (s.noting use) = events s := by
  simp [events, State.noting, Log.Event.ofCheck?]

theorem quiet_iff {r : Except (Stopped σ) (α × State)} : Quiet s r ↔ Keeps events s r := by
  cases r <;> exact Iff.rfl

theorem Place.quiet_before (place : Place) (c : Node) (s : State) :
    Quiet s (place.before c s) :=
  quiet_iff.mpr (keeps_before events_noting (fun _ _ _ _ => rfl) place c s)

theorem Place.quiet_after (place : Place) (c : Tree) (s : State) : Quiet s (place.after c s) :=
  quiet_iff.mpr (keeps_after events_noting place c s)

/-! ## Before and after the children -/

theorem quiet_enter (hk : root.kind.opensBlock = false) (children : List Tree) (s : State) :
    Quiet s (enter root children s) :=
  quiet_iff.mpr (keeps_enter events_noting (fun _ _ _ _ => rfl) (by simp [hk]) children s)

/-- Entering a node opens its block, if it has one. -/
theorem events_enter {named : Option Symbol} (h : enter root children s = .ok (named, s')) :
    events s' = events s ++ root.opening s.table.depth := by
  rw [Node.opening]
  by_cases hk : root.kind.opensBlock
  · rw [if_pos hk]
    by_cases function : root.kind = .function
    · simp only [enter, function] at h
      cases h
      simp [events, Log.Event.ofCheck?, SymbolTable.openBlock, function]
    · rw [enter_block hk function] at h
      cases h
      simp [events, Log.Event.ofCheck?, SymbolTable.openBlock]
  · have quiet := quiet_enter (by simpa using hk) children s
    rw [h] at quiet
    rw [if_neg hk, List.append_nil]
    exact quiet

theorem quiet_leave (hk : root.kind.opensBlock = false) (named : Option Symbol)
    (children : List Tree) (s : State) : Quiet s (leave root named children s) := by
  generalize hx : leave root named children = step
  unfold leave at hx
  split at hx <;> subst hx
  case h_2 left comparator right _ => cases left.type.common? right.type <;> exact rfl
  case h_3 kind | h_4 kind | h_5 kind | h_6 kind | h_7 kind =>
    rw [kind] at hk
    cases hk
  case h_8 => cases named <;> exact rfl
  exact rfl

/-- Leaving a node closes its block. -/
theorem events_leave {named : Option Symbol} {t : Tree}
    (h : leave root named children s = .ok (t, s')) :
    events s' = events s ++ root.closing (s.table.depth - 1) := by
  rw [Node.closing]
  by_cases hk : root.kind.opensBlock
  · rw [if_pos hk]
    rw [leave_block hk] at h
    obtain ⟨_, s₁, closed, h⟩ := Step.bind_ok.mp h
    cases h
    cases closed
    simp [events, Log.Event.ofCheck?, SymbolTable.closeBlock]
  · have quiet := quiet_leave (by simpa using hk) named children s
    rw [h] at quiet
    rw [if_neg hk, List.append_nil]
    exact quiet

/-- A node with a block of its own has nothing to look up when it is entered. -/
theorem events_enter_error {e : Stopped Unit} (h : enter root children s = .error e) :
    events e.state = events s := by
  by_cases hk : root.kind.opensBlock
  · by_cases function : root.kind = .function
    · simp only [enter, function] at h
      cases h
    · rw [enter_block hk function] at h
      cases h
  · have quiet := quiet_enter (by simpa using hk) children s
    rw [h] at quiet
    exact quiet

theorem events_leave_error {named : Option Symbol} {e : Stopped Tree}
    (h : leave root named children s = .error e) : events e.state = events s := by
  by_cases hk : root.kind.opensBlock
  · rw [leave_block hk] at h
    cases h
  · have quiet := quiet_leave (by simpa using hk) named children s
    rw [h] at quiet
    exact quiet

theorem depth_enter {named : Option Symbol} (h : enter root children s = .ok (named, s')) :
    s'.table.depth = root.inside s.table.depth := by
  rw [(enter_ok h).2, Node.inside]
  split <;> rfl

/-! ## The walk -/

theorem Place.before_table {place : Place} {c : Node} (hb : s.table.Bounded)
    (h : place.before c s = .ok ((), s')) :
    s'.table.Bounded ∧ s'.table.depth = s.table.depth := by
  cases place with
  | parameter =>
    cases h
    exact ⟨hb.adding (by simp), rfl⟩
  | argument =>
    rw [(refuseFunction_ok h).1]
    exact ⟨hb, rfl⟩
  | compared =>
    obtain ⟨_, s₁, looked, h⟩ := Step.bind_ok.mp h
    cases h
    rw [(lookUpIfNamed_ok looked).1]
    exact ⟨hb, rfl⟩
  | skipped | plain | operand =>
    cases h
    exact ⟨hb, rfl⟩

theorem Place.around_table {place : Place} {c c' : Tree} (hb : s.table.Bounded)
    (h : place.around c (check c) s = .ok (c', s')) :
    s'.table.Bounded ∧ s'.table.depth = s.table.depth := by
  rw [(Place.around_ok (fun hb h => check_ok c hb h) hb h).2.1]
  exact ⟨hb.adding fun y hy => (Place.mem_declared hy (Typing.mem_declared _ c)).1, rfl⟩

/-- A check that succeeds logs the blocks of the tree. -/
def LogsBlocks (t : Tree) : Prop := ∀ s s' t', s.table.Bounded → check t s = .ok (t', s') →
  events s' = events s ++ t.blockEvents s.table.depth

theorem LogsBlocks.around {place : Place} {c c' : Tree} (own : LogsBlocks c)
    (hp : place ≠ .skipped) (hb : s.table.Bounded)
    (h : place.around c (check c) s = .ok (c', s')) :
    events s' = events s ++ c.blockEvents s.table.depth := by
  rw [Place.around_eq hp] at h
  obtain ⟨_, s₁, before, h⟩ := Step.bind_ok.mp h
  obtain ⟨c₁, s₂, walked, h⟩ := Step.bind_ok.mp h
  obtain ⟨_, s₃, after, h⟩ := Step.bind_ok.mp h
  cases h
  have before := Step.leaving_ok.mp before
  have after := Step.leaving_ok.mp after
  obtain ⟨bounded, depth⟩ := Place.before_table hb before
  have first := place.quiet_before c.root s
  have last := place.quiet_after c' s₂
  rw [before] at first
  rw [after] at last
  calc events s' = events s₂ := last
    _ = events s₁ ++ c.blockEvents s₁.table.depth := own s₁ s₂ c' bounded walked
    _ = events s ++ c.blockEvents s.table.depth := by
      rw [show events s₁ = events s from first, depth]

/-- Trees next to each other log their blocks one after the other. What is skipped has none. -/
theorem LogsBlocks.all {place : Nat → Place} {ts ts' : List Tree} (own : ∀ c ∈ ts, LogsBlocks c)
    (skipped : ∀ i c, ts[i]? = some c → place i = .skipped → ∀ depth, c.blockEvents depth = [])
    (hb : s.table.Bounded) (h : checkAll place ts s = .ok (ts', s')) :
    events s' = events s ++ Tree.blockEventsAll s.table.depth ts := by
  induction ts generalizing place s ts' with
  | nil =>
    cases h
    simp [Tree.blockEventsAll]
  | cons c ts ih =>
    rw [List.forall_mem_cons] at own
    obtain ⟨c', s₁, ts', first, others, rfl⟩ := checkAll_cons_ok.mp h
    have here : events s₁ = events s ++ c.blockEvents s.table.depth := by
      by_cases hp : place 0 = .skipped
      · rw [hp] at first
        cases first
        rw [skipped 0 c rfl hp, List.append_nil]
      · exact own.1.around hp hb first
    obtain ⟨bounded, depth⟩ := Place.around_table hb first
    rw [ih own.2 (fun i => skipped (i + 1)) bounded others, here, depth, Tree.blockEventsAll,
      List.append_assoc]

/-- A leaf has no blocks, and no other child is skipped. -/
theorem blockEvents_skipped (hl : (Tree.node root children).LaidOut) :
    ∀ i c, children[i]? = some c → Place.of root.kind i = .skipped →
      ∀ depth, c.blockEvents depth = [] := by
  intro i c hc hp
  have mem : c ∈ children := List.mem_of_getElem? hc
  exact Tree.blockEvents_leaf (hl.child c mem) ((hl.suits hc).leaf (by simp [hp]))

theorem logsBlocks {t : Tree} (hl : t.LaidOut) : LogsBlocks t := by
  induction t using Tree.ofChildren with
  | step root children ih =>
    intro s s' t' hb h
    rw [check] at h
    obtain ⟨named, s₁, entered, h⟩ := Step.bind_ok.mp h
    obtain ⟨children', s₂, walked, left⟩ := Step.bind_ok.mp h
    have entered := Step.leaving_ok.mp entered
    have walked := Step.leaving_ok.mp walked
    have bounded := enter_bounded hb entered
    have inside := LogsBlocks.all (fun c hc => ih c hc (hl.child c hc)) (blockEvents_skipped hl)
      bounded walked
    have depth : s₂.table.depth = root.inside s.table.depth := by
      rw [(checkAll_ok _ _ bounded walked).table, ← depth_enter entered]
      rfl
    -- The children leave the depth as it was, so the block is closed at the depth it was opened at.
    have closing : root.closing (root.inside s.table.depth - 1) = root.closing s.table.depth := by
      rw [Node.closing, Node.closing, Node.inside]
      split <;> rfl
    rw [events_leave left, inside, events_enter entered, depth_enter entered, depth, closing,
      Tree.blockEvents, List.append_assoc, List.append_assoc, List.append_assoc]

/-- When the walk comes to a child, the block of the node is open and those before the child are
over. -/
theorem ComesTo.logged {i : Nat} {c : Tree} (way : ComesTo root children s i c s')
    (hl : (Tree.node root children).LaidOut) (hb : s.table.Bounded) :
    s'.table.Bounded ∧ s'.table.depth = root.inside s.table.depth ∧
      events s' = events s ++ (root.opening s.table.depth ++
        Tree.blockEventsAll (root.inside s.table.depth) (children.take i)) := by
  obtain ⟨-, -, named, s₁, before, entered, walked⟩ := way
  have bounded := enter_bounded hb entered
  have checked := checkAll_ok _ _ bounded walked
  have taken {j : Nat} {d : Tree} (hd : (children.take i)[j]? = some d) :
      children[j]? = some d := by
    rw [List.getElem?_take] at hd
    split at hd
    · exact hd
    · cases hd
  have logged := LogsBlocks.all
    (fun d hd => logsBlocks (hl.child d (List.mem_of_mem_take hd)))
    (fun j d hd => blockEvents_skipped hl j d (taken hd)) bounded walked
  refine ⟨?_, ?_, ?_⟩
  · rw [checked.table]
    exact bounded.adding depth_of_mem_declared
  · rw [checked.table, ← depth_enter entered]
    rfl
  · rw [logged, events_enter entered, depth_enter entered, List.append_assoc]

/-! ## Where a check stops -/

theorem asksChildren_of_before {i : Nat} {c : Node} {e : Stopped Unit}
    (h : (Place.of root.kind i).before c s = .error e) : root.asksChildren := by
  rw [Node.asksChildren]
  cases hk : root.kind <;> rw [hk] at h <;>
    first
    | simp only [List.mem_cons, reduceCtorEq, true_or, or_true]; done
    | cases h
    | simp only [Place.of] at h
      split at h <;> cases h

theorem asksChildren_of_leave {named : Option Symbol} {e : Stopped Tree}
    (h : leave root named children s = .error e) : root.asksChildren := by
  suffices root.kind = .comparison by simp [Node.asksChildren, this]
  generalize hx : leave root named children = step at h
  unfold leave at hx
  split at hx <;> subst hx
  case h_2 hk => exact hk
  case h_8 => cases named <;> cases h
  all_goals cases h

/-- Nothing is logged on the way to a child of which the rule asks something. -/
theorem ComesTo.quiet {i : Nat} {c : Tree} (way : ComesTo root children s i c s')
    (hl : (Tree.node root children).LaidOut) (hb : s.table.Bounded)
    (asks : root.asksChildren) : events s' = events s := by
  have none := hl.blockEvents_asked asks (root.inside s.table.depth)
  rw [(way.logged hl hb).2.2, Node.opening_of_asksChildren asks,
    Tree.blockEventsAll_eq_nil fun d hd => none d (List.mem_of_mem_take hd), List.append_nil,
    List.append_nil]

/-- A check that fails has come to a node that shows the fault, and has logged the blocks on the
way. -/
theorem Fails.logged {t : Tree} {fault : Fault} (h : Fails t s fault s') (hl : t.LaidOut)
    (hb : s.table.Bounded) {above : List Node} (depth : s.table.depth = blockDepth above)
    (index : Nat) :
    ∃ logged, events s' = events s ++ logged ∧ t.ShowsAfter above index fault logged := by
  -- Only the way into a child logs anything. At the node itself a check stops either before the
  -- block is opened, or over children that are leaves.
  induction h generalizing above index with
  | entering h =>
    exact ⟨[], by rw [events_enter_error h, List.append_nil], (enter_shows h).showsAfter⟩
  | @before root children s i c s₁ e way h =>
    have quiet := (Place.of root.kind i).quiet_before c.root s₁
    rw [h] at quiet
    refine ⟨[], ?_, (before_shows way.2.1 h).showsAfter⟩
    rw [List.append_nil, ← way.quiet hl hb (asksChildren_of_before h)]
    exact quiet
  | @inside root children s i c s₁ s₂ fault s' way h _ ih =>
    have hc : c ∈ children := List.mem_of_getElem? way.2.1
    obtain ⟨bounded, level, reached⟩ := way.logged hl hb
    obtain ⟨bounded, same⟩ := Place.before_table bounded h
    have quiet : events s₂ = events s₁ := by
      have := (Place.of root.kind i).quiet_before c.root s₁
      rwa [h] at this
    have parted : children.take i ++ c :: children.drop (i + 1) = children := by
      obtain ⟨hi, rfl⟩ := List.getElem?_eq_some_iff.mp way.2.1
      rw [← List.drop_eq_getElem_cons hi, List.take_append_drop]
    have length : (children.take i).length = i :=
      List.length_take_of_le (Nat.le_of_lt (List.getElem?_eq_some_iff.mp way.2.1).1)
    have below : s₂.table.depth = blockDepth (root :: above) := by
      rw [same, level, depth, blockDepth_cons]
    obtain ⟨logged, rest, shows⟩ := ih (hl.child c hc) bounded below i
    refine ⟨_, ?_, parted ▸ Tree.ShowsAfter.child (length.symm ▸ shows)⟩
    rw [rest, quiet, reached, depth]
    simp only [List.append_assoc]
  | @after root children s i c s₁ s₂ c' s₃ e way h own h' =>
    have hc : c ∈ children := List.mem_of_getElem? way.2.1
    have asks : root.asksChildren := by
      cases hp : Place.of root.kind i <;> rw [hp] at h'
      case operand => simp [Node.asksChildren, operand_of_place hp]
      all_goals cases h'
    obtain ⟨bounded, -⟩ := Place.before_table (way.logged hl hb).1 h
    have first := (Place.of root.kind i).quiet_before c.root s₁
    have last := (Place.of root.kind i).quiet_after c' s₃
    rw [h] at first
    rw [h'] at last
    have none : c.blockEvents s₂.table.depth = [] := hl.blockEvents_asked asks _ c hc
    have shows := after_shows way.2.1 (untyped_of_check own) h'
    refine ⟨[], ?_, shows.showsAfter⟩
    rw [List.append_nil]
    calc events e.state = events s₃ := last
      _ = events s₂ := by
        rw [logsBlocks (hl.child c hc) s₂ s₃ c' bounded own, none, List.append_nil]
      _ = events s₁ := first
      _ = events s := way.quiet hl hb asks
  | @leaving root children s named s₁ children' s₂ e entered walked h =>
    have asks := asksChildren_of_leave h
    have inside := LogsBlocks.all (fun c hc => logsBlocks (hl.child c hc))
      (blockEvents_skipped hl) (enter_bounded hb entered) walked
    refine ⟨[], ?_, (leave_shows (untyped_of_checkAll walked) h).showsAfter⟩
    rw [events_leave_error h, inside, events_enter entered, Node.opening_of_asksChildren asks,
      Tree.blockEventsAll_eq_nil (hl.blockEvents_asked asks _)]
    simp only [List.append_nil]

end

end Typing

end Mamuth
