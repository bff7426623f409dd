-- The check of a tree in its own place. The walk changes the one tree that it is given, node by
-- node, and the types by number along with it, and every point of it is kept. It ends as the check
-- does that gives a new tree: with the same fault, and with the same tree and state.
import Mathlib.Logic.Relation
import Mamuth.Proofs.Unfinished

namespace Mamuth

/-! ## Gaps in trees -/

namespace Tree

/-- What is put into the gap stands at the end of the way. -/
structure Frame (way : List Nat) (F : Tree → Tree) : Prop where
  at? : ∀ u, (F u).at? way = some u
  replace : ∀ u v, (F u).replace way v = F v

theorem frame_whole : Frame [] fun u => u := ⟨at?_nil, replace_nil⟩

theorem at?_append (t : Tree) (way way' : List Nat) :
    t.at? (way ++ way') = (t.at? way).bind (·.at? way') := by
  induction way generalizing t with
  | nil => simp
  | cons i way ih =>
    obtain ⟨root, children⟩ := t
    rw [List.cons_append, at?_cons, at?_cons, Option.bind_assoc]
    exact congrArg _ (funext ih)

theorem replace_append {t u : Tree} {way : List Nat} (h : t.at? way = some u) (way' : List Nat)
    (new : Tree) : t.replace (way ++ way') new = t.replace way (u.replace way' new) := by
  induction h using way_induction with
  | here => simp
  | inside root before c after way _ ih => rw [List.cons_append, replace_split, replace_split, ih]

/-- A gap in place of one of the children. -/
theorem Frame.child {way : List Nat} {F : Tree → Tree} (h : Frame way F) (root : Node)
    (before after : List Tree) :
    Frame (way ++ [before.length]) fun c => F (node root (before ++ c :: after)) where
  at? u := by rw [at?_append, h.at?, Option.bind_some, at?_split, at?_nil]
  replace u v := by rw [replace_append (h.at? _), replace_split, replace_nil, h.replace]

end Tree

namespace Typing

/-! ## Walks in place -/

/-- A point of a walk: the tree and the state as they are then, and the ways to the nodes that were
given types so far, the latest first. -/
structure Moment where
  tree : Tree
  state : State
  given : List (List Nat)

/-- A walk so far, the latest moment first. -/
structure Run where
  now : Moment
  past : List Moment

def Run.moments (r : Run) : List Moment := r.now :: r.past

/-- The run comes to another moment. -/
def Run.goOn (r : Run) (m : Moment) : Run := ⟨m, r.moments⟩

/-- A part of a walk, which changes what it is given also when it stops. -/
abbrev Walk := ExceptT Fault (StateM Run)

/-- A step that gives no types. -/
def ask (step : Step Unit α) : Walk α := fun r =>
  match step r.now.state with
  | .ok (x, s) => (.ok x, r.goOn { r.now with state := s })
  | .error e => (.error e.fault, r.goOn { r.now with state := e.state })

/-- Gives a type to the node at the end of a way, and to its number. -/
def give (way : List Nat) (type : Ty) : Walk Unit := fun r =>
  match r.now.tree.at? way with
  | some u => (.ok (), r.goOn
      { tree := r.now.tree.replace way (u.typed type)
        state := { r.now.state with types := r.now.state.types.insert u.root.id type }
        given := way :: r.now.given })
  | none => (.ok (), r)

/-- What has become of a tree at the end of a way. -/
def look (way : List Nat) (t : Tree) : Walk Tree := fun r =>
  (.ok ((r.now.tree.at? way).getD t), r)

/-- Gives the node at the end of a way the type of what it names, or else the one that comes from
its children. -/
def settleAt (way : List Nat) (named : Option Symbol) (root : Node) (children : List Tree) :
    Walk Unit :=
  match named with
  | some symbol => do
    let type ← ask do return (← get).typeOf? symbol
    give way (type.getD .any)
  | none => give way (typeFrom root children)

/-- What the node at the end of a way does once its children are checked. -/
def leaveAt (way : List Nat) (named : Option Symbol) (root : Node) (children : List Tree) :
    Walk Unit :=
  match root.kind, children with
  | .assignment, [_, value] => do
    give (way ++ [0]) value.type
    give way value.type
  | .comparison, [left, comparator, right] =>
    match left.type.common? right.type with
    | some common => do
      give (way ++ [1]) common
      give way .boolean
    | none => throw (.incomparable comparator.root.name left.type right.type root.position)
  | .function, _ | .main, _ | .loop, _ | .ifBranch, _ | .elseBranch, _ => do
    ask closeBlock
    give way (typeFrom root children)
  | _, _ => settleAt way named root children

/-- The check of a child in its place, around its own check. -/
def aroundAt (way : List Nat) (place : Place) (child : Tree) (own : Walk Unit) : Walk Unit :=
  if place = .skipped then return
  else do
    ask (place.before child.root)
    own
    ask (place.after (← look way child))

mutual

/-- Checks the tree at the end of a way. -/
def visit (way : List Nat) : Tree → Walk Unit
  | .node root children => do
    let named ← ask (enter root children)
    visitAll way (Place.of root.kind) 0 children
    let t ← look way (.node root children)
    leaveAt way named t.root t.children

/-- Checks the children from an index on of the node at the end of a way. -/
def visitAll (way : List Nat) (place : Nat → Place) (i : Nat) : List Tree → Walk Unit
  | [] => return
  | child :: rest => do
    aroundAt (way ++ [i]) (place i) child (visit (way ++ [i]) child)
    visitAll way place (i + 1) rest

end

end Typing

/-- Checks a whole tree in place, with nothing but the standard functions in sight. -/
def Tree.verifyInPlace (t : Tree) : Except Fault Unit × Typing.Run :=
  Typing.visit [] t ⟨⟨t, .start, []⟩, []⟩

namespace Typing

/-! ## From one moment to the next -/

/-- At most one node is given a type from one moment to the next, and that node had none. -/
inductive Moment.Next (m : Moment) : Moment → Prop
  | ask {s} (h : s.types = m.state.types) : Next m { m with state := s }
  | give {way u} (type : Ty) (h : m.tree.at? way = some u) (bare : u.root.type = none) :
    Next m
      { tree := m.tree.replace way (u.typed type)
        state := { m.state with types := m.state.types.insert u.root.id type }
        given := way :: m.given }

/-- A run goes on to another one from moment to moment. -/
def Leads : Run → Run → Prop := Relation.ReflTransGen fun r r' => ∃ m, r.now.Next m ∧ r' = r.goOn m

theorem Walk.bind_apply (w : Walk α) (g : α → Walk β) (r : Run) :
    (w >>= g) r = match w r with
      | (.ok a, r') => g a r'
      | (.error fault, r') => (.error fault, r') := by
  show ExceptT.bindCont g (w r).1 (w r).2 = _
  rcases w r with ⟨_ | _, _⟩ <;> rfl

theorem look_bind {r : Run} {way : List Nat} {u : Tree} (h : r.now.tree.at? way = some u) (t : Tree)
    (g : Tree → Walk β) : (look way t >>= g) r = g u r := by
  rw [Walk.bind_apply, look, h]
  rfl

/-! ## Walks that act as steps -/

/-- A walk ends as a step does: where the step leaves a part, the walk has put it in its place. -/
inductive EndsAs (left : σ → Tree) (done : α → Tree) (value : α → β) :
    Except (Stopped σ) (α × State) → Except Fault β × Run → Prop
  | ok {a s r} (tree : r.now.tree = done a) (state : r.now.state = s) :
    EndsAs left done value (.ok (a, s)) (.ok (value a), r)
  | error {fault l s r} (tree : r.now.tree = left l) (state : r.now.state = s) :
    EndsAs left done value (.error ⟨fault, l, s⟩) (.error fault, r)

/-- From a run on, a walk acts as a step does. -/
structure Acts (r : Run) (left : σ → Tree) (done : α → Tree) (value : α → β) (x : Step σ α)
    (w : Walk β) : Prop where
  ends : EndsAs left done value (x r.now.state) (w r)
  leads : Leads r (w r).2

section

variable {r : Run} {left : σ → Tree} {done : α → Tree} {value : α → β} {x : Step σ α} {w : Walk β}

theorem Acts.bind {done' : γ → Tree} {value' : γ → δ} {f : α → Step σ γ} {g : β → Walk δ}
    (h : Acts r left done value x w)
    (hf : ∀ a r', x r.now.state = .ok (a, r'.now.state) → r'.now.tree = done a →
      Acts r' left done' value' (f a) (g (value a))) :
    Acts r left done' value' (x >>= f) (w >>= g) := by
  obtain ⟨ends, leads⟩ := h
  constructor
  · rw [Step.bind_apply, Walk.bind_apply]
    generalize hx : x r.now.state = result at ends
    generalize w r = ended at ends
    cases ends with
    | ok tree state =>
      subst state
      exact (hf _ _ hx tree).ends
    | error tree state => exact .error tree state
  · rw [Walk.bind_apply]
    generalize hx : x r.now.state = result at ends
    generalize w r = ended at ends leads
    cases ends with
    | ok tree state =>
      subst state
      exact leads.trans (hf _ _ hx tree).leads
    | error tree state => exact leads

theorem Acts.leaving {f : τ → σ} {x : Step τ α}
    (h : Acts r (fun l => left (f l)) done value x w) :
    Acts r left done value (x.leaving f) w := by
  refine ⟨?_, h.leads⟩
  have ends := h.ends
  rw [Step.leaving]
  generalize x r.now.state = result at ends
  generalize w r = ended at ends
  cases ends with
  | ok tree state => exact .ok tree state
  | error tree state => exact .error tree state

/-- A step only makes something of what the walk has done. -/
theorem Acts.map {done : γ → Tree} {f : α → γ} {w : Walk Unit}
    (h : Acts r left (fun a => done (f a)) (fun _ => ()) x w) :
    Acts r left done (fun _ => ()) (do return f (← x)) w := by
  refine ⟨?_, h.leads⟩
  have ends := h.ends
  rw [Step.bind_apply]
  generalize x r.now.state = result at ends
  generalize w r = ended at ends
  cases ends with
  | ok tree state => exact .ok tree state
  | error tree state => exact .error tree state

/-- A step that gives no types and leaves the tree as it is. -/
theorem acts_ask {step : Step Unit α} {f : Unit → σ} {t : Tree}
    (keeps : Keeps State.types r.now.state (step r.now.state)) (tree : r.now.tree = t)
    (same : left (f ()) = t) :
    Acts r left (fun _ => t) (fun a => a) (step.leaving f) (ask step) := by
  constructor
  · rw [Step.leaving, ask]
    cases step r.now.state with
    | ok result => exact .ok tree rfl
    | error e => exact .error (tree.trans same.symm) rfl
  · rw [ask]
    generalize step r.now.state = result at keeps
    cases result with
    | ok result => exact .single ⟨_, .ask keeps, rfl⟩
    | error e => exact .single ⟨_, .ask keeps, rfl⟩

end

section

variable {way : List Nat} {F : Tree → Tree} (frame : Tree.Frame way F) {r : Run}
include frame

theorem acts_give {left : σ → Tree} {u : Tree} (tree : r.now.tree = F u) (bare : u.root.type = none)
    (type : Ty) : Acts r left F (fun _ => ()) (giveType u type) (give way type) := by
  have place : r.now.tree.at? way = some u := by rw [tree, frame.at?]
  have placed : r.now.tree.replace way (u.typed type) = F (u.typed type) := by
    rw [tree, frame.replace]
  have given : give way type r = (.ok (), r.goOn
      { tree := r.now.tree.replace way (u.typed type)
        state := { r.now.state with types := r.now.state.types.insert u.root.id type }
        given := way :: r.now.given }) := by
    rw [give, place]
  constructor
  · rw [given]
    exact .ok placed rfl
  · rw [given]
    exact .single ⟨_, .give type place bare, rfl⟩

section

variable {root : Node} {children : List Tree}

theorem acts_leave_block (tree : r.now.tree = F (.node root children)) (bare : root.type = none)
    (type : Ty) : Acts r F F (fun _ => ())
      (do
        closeBlock
        giveType (.node root children) type)
      (do
        ask closeBlock
        give way type) := by
  have closed : (closeBlock : Step Tree Unit) =
      (closeBlock : Step Unit Unit).leaving fun _ => .node root children := rfl
  rw [closed]
  have keeps (s : State) : Keeps State.types s ((closeBlock : Step Unit Unit) s) := rfl
  exact (acts_ask (keeps _) tree rfl).bind fun _ _ _ tree => acts_give frame tree bare type

theorem acts_leave_named (tree : r.now.tree = F (.node root children)) (bare : root.type = none)
    (symbol : Symbol) : Acts r F F (fun _ => ())
      (do giveType (.node root children) (((← get).typeOf? symbol).getD .any))
      (do
        let type ← ask do return (← get).typeOf? symbol
        give way (type.getD .any)) := by
  have asked : (do giveType (.node root children) (((← get).typeOf? symbol).getD .any)) =
      (do
        let type ← (do return (← get).typeOf? symbol : Step Unit _).leaving fun _ =>
          Tree.node root children
        giveType (.node root children) (type.getD .any)) := rfl
  rw [asked]
  have keeps (s : State) : Keeps State.types s
      ((do return (← get).typeOf? symbol : Step Unit _) s) := rfl
  exact (acts_ask (keeps _) tree rfl).bind fun type _ _ tree => acts_give frame tree bare _

theorem acts_leave_assignment {target value : Tree}
    (tree : r.now.tree = F (.node root [target, value])) (bare : root.type = none)
    (skipped : target.root.type = none) (type : Ty) : Acts r F F (fun _ => ())
      (do
        let target ← giveType target type
        giveType (.node root [target, value]) type)
      (do
        give (way ++ [0]) type
        give way type) :=
  (acts_give (frame.child root [] [value]) tree skipped type).bind fun _ _ _ same =>
    acts_give frame same bare type

theorem acts_leave_comparison {left comparator right : Tree}
    (tree : r.now.tree = F (.node root [left, comparator, right])) (bare : root.type = none)
    (skipped : comparator.root.type = none) (type : Ty) : Acts r F F (fun _ => ())
      (do
        let comparator ← giveType comparator type
        giveType (.node root [left, comparator, right]) .boolean)
      (do
        give (way ++ [1]) type
        give way .boolean) :=
  (acts_give (frame.child root [left] [right]) tree skipped type).bind fun _ _ _ same =>
    acts_give frame same bare .boolean

/-- Leaving a node, of which the children that were skipped have no types yet. -/
theorem acts_leave (named : Option Symbol) (tree : r.now.tree = F (.node root children))
    (bare : root.type = none)
    (skipped : ∀ i c, Place.of root.kind i = .skipped → children[i]? = some c →
      c.root.type = none) :
    Acts r F F (fun _ => ()) (leave root named children) (leaveAt way named root children) := by
  generalize hx : leave root named children = step
  unfold leave at hx
  split at hx <;> subst hx
  case h_1 target value hk =>
    have untyped := skipped 0 target (by rw [hk]; rfl) rfl
    simp only [leaveAt, hk]
    exact acts_leave_assignment frame tree bare untyped value.type
  case h_2 left comparator right hk =>
    have untyped := skipped 1 comparator (by rw [hk]; rfl) rfl
    simp only [leaveAt, hk]
    cases left.type.common? right.type with
    | some common => exact acts_leave_comparison frame tree bare untyped common
    | none => exact ⟨.error tree rfl, .refl⟩
  case h_3 hk | h_4 hk | h_5 hk | h_6 hk | h_7 hk =>
    simp only [leaveAt, hk]
    exact acts_leave_block frame tree bare _
  case h_8 us _ _ _ _ _ _ _ _ _ =>
    have settles : leaveAt way named root us = settleAt way named root us := by
      unfold leaveAt
      split
      case h_8 => rfl
      all_goals simp_all
    rw [settles]
    cases named with
    | some symbol => exact acts_leave_named frame tree bare symbol
    | none => exact acts_give frame tree bare _

end

end

/-! ## The whole walk -/

theorem keepsTypes_enter (root : Node) (children : List Tree) (s : State) :
    Keeps State.types s (enter root children s) := by
  have opening (s : State) : Keeps State.types s ((openBlock root.kind : Step Unit Unit) s) := rfl
  exact keeps_enter (fun _ _ => rfl) (fun _ _ _ _ => rfl) (fun _ => opening) children s

theorem Place.keepsTypes_before (place : Place) (c : Node) (s : State) :
    Keeps State.types s (place.before c s) :=
  keeps_before (fun _ _ => rfl) (fun _ _ _ _ => rfl) place c s

theorem Place.keepsTypes_after (place : Place) (c : Tree) (s : State) :
    Keeps State.types s (place.after c s) :=
  keeps_after (fun _ _ => rfl) place c s

/-- The walk finds at the end of a way what has been put there. -/
theorem Acts.look {way : List Nat} {F : Tree → Tree} (frame : Tree.Frame way F) {r : Run} {u : Tree}
    (tree : r.now.tree = F u) {left : σ → Tree} {done : α → Tree} {value : α → β} {x : Step σ α}
    {g : Tree → Walk β} (h : Acts r left done value x (g u)) (t : Tree) :
    Acts r left done value x (look way t >>= g) := by
  have found : (Typing.look way t >>= g) r = g u r :=
    look_bind (by rw [tree, frame.at?]) t g
  exact ⟨found ▸ h.ends, found ▸ h.leads⟩

/-- A child is checked in its place as it is without. -/
theorem acts_aroundAt {way : List Nat} {F : Tree → Tree} (frame : Tree.Frame way F) {t : Tree}
    {own : Walk Unit} (h : ∀ {r : Run}, r.now.tree = F t → Acts r F F (fun _ => ()) (check t) own)
    {r : Run} (tree : r.now.tree = F t) (place : Place) :
    Acts r F F (fun _ => ()) (place.around t (check t)) (aroundAt way place t own) := by
  rw [aroundAt]
  split
  case isTrue skipped =>
    rw [skipped]
    exact ⟨.ok tree rfl, .refl⟩
  case isFalse plain =>
    rw [Place.around_eq plain]
    refine (acts_ask (place.keepsTypes_before t.root _) tree rfl).bind fun _ _ _ tree => ?_
    refine (h tree).bind fun t' r' _ tree => ?_
    have asked : Acts r' F (fun _ => F t') (fun _ => ())
        ((place.after t').leaving fun _ => t') (ask (place.after t')) :=
      acts_ask (place.keepsTypes_after t' _) tree rfl
    exact .look frame tree (.map asked) t

mutual

/-- Checking a tree in its place acts as checking it does. -/
theorem acts_visit (t : Tree) (bare : t.IsUntyped) {way : List Nat} {F : Tree → Tree}
    (frame : Tree.Frame way F) {r : Run} (tree : r.now.tree = F t) :
    Acts r F F (fun _ => ()) (check t) (visit way t) := by
  cases t with
  | node root children =>
    obtain ⟨own, below⟩ := Tree.isUntyped_node.mp bare
    rw [check, visit]
    refine (acts_ask (keepsTypes_enter root children _) tree rfl).bind fun named r₁ _ tree => ?_
    have inside : Acts r₁ (fun us => F (.node root ([] ++ us)))
        (fun us => F (.node root ([] ++ us))) (fun _ => ()) (checkAll (Place.of root.kind) children)
        (visitAll way (Place.of root.kind) [].length children) :=
      acts_visitAll children below frame tree fun i => congrArg _ (Nat.zero_add i).symm
    refine inside.leaving.bind fun children' r₂ walked
      (tree : r₂.now.tree = F (.node root children')) => ?_
    -- The children that were skipped are still those of the tree without types.
    have unchanged := (checkAll_skipped (Step.leaving_ok.mp walked)).2
    refine .look frame tree (acts_leave frame named tree own fun i c skipped hc => ?_) _
    rw [unchanged i skipped] at hc
    exact below c (List.mem_of_getElem? hc) c c.self_mem_subtrees

theorem acts_visitAll (ts : List Tree) (bare : ∀ t ∈ ts, t.IsUntyped) {way : List Nat}
    {F : Tree → Tree} (frame : Tree.Frame way F) {r : Run} {root : Node} {before : List Tree}
    (tree : r.now.tree = F (.node root (before ++ ts))) {place place' : Nat → Place}
    (hp : ∀ i, place' i = place (before.length + i)) :
    Acts r (fun us => F (.node root (before ++ us))) (fun us => F (.node root (before ++ us)))
      (fun _ => ()) (checkAll place' ts) (visitAll way place before.length ts) := by
  cases ts with
  | nil =>
    rw [checkAll, visitAll]
    exact ⟨.ok tree rfl, .refl⟩
  | cons t ts =>
    rw [List.forall_mem_cons] at bare
    rw [checkAll, visitAll]
    have here := frame.child root before ts
    have first : Acts r (fun us => F (.node root (before ++ us)))
        (fun t' => F (.node root (before ++ t' :: ts))) (fun _ => ())
        (((place' 0).around t (check t)).leaving (· :: ts))
        (aroundAt (way ++ [before.length]) (place before.length) t
          (visit (way ++ [before.length]) t)) := by
      rw [hp 0]
      exact .leaving (acts_aroundAt here (acts_visit t bare.1 here) tree _)
    refine first.bind fun t' r₁ _ tree => ?_
    have length : (before ++ [t']).length = before.length + 1 := List.length_append
    have rest : Acts r₁ (fun us => F (.node root ((before ++ [t']) ++ us)))
        (fun us => F (.node root ((before ++ [t']) ++ us))) (fun _ => ())
        (checkAll (fun i => place' (i + 1)) ts) (visitAll way place (before ++ [t']).length ts) :=
      acts_visitAll ts bare.2 frame (by simpa using tree) fun i => by
        rw [hp, length, Nat.add_right_comm, Nat.add_assoc]
    simp only [length, List.append_assoc, List.singleton_append] at rest
    have behind : Acts r₁ (fun us => F (.node root (before ++ us)))
        (fun us => F (.node root (before ++ t' :: us))) (fun _ => ())
        ((checkAll (fun i => place' (i + 1)) ts).leaving (t' :: ·))
        (visitAll way place (before.length + 1) ts) := .leaving rest
    exact .map behind

end

/-- What a walk in place gives, as a check gives it: the tree and the state that it leaves. -/
def Run.outcome : Except Fault Unit × Run → Except (Stopped Tree) (Tree × State)
  | (.ok (), run) => .ok (run.now.tree, run.now.state)
  | (.error fault, run) => .error ⟨fault, run.now.tree, run.now.state⟩

end Typing

/-- The walk in place goes from moment to moment, and ends as the check does. -/
theorem Tree.verify_inPlace {t : Tree} (bare : t.IsUntyped) :
    Typing.Leads ⟨⟨t, .start, []⟩, []⟩ t.verifyInPlace.2 ∧
      t.verify = Typing.Run.outcome t.verifyInPlace := by
  obtain ⟨ends, leads⟩ : Typing.Acts ⟨⟨t, .start, []⟩, []⟩ (fun u => u) (fun u => u) (fun _ => ())
      (Typing.check t) (Typing.visit [] t) := Typing.acts_visit t bare frame_whole rfl
  refine ⟨leads, ?_⟩
  rw [verify, verifyInPlace]
  dsimp only at ends
  generalize Typing.check t .start = result at ends
  generalize Typing.visit [] t ⟨⟨t, .start, []⟩, []⟩ = ended at ends
  cases ends with
  | ok tree state =>
    subst tree state
    rfl
  | error tree state =>
    subst tree state
    rfl

end Mamuth
