-- A check never looks at the types that a tree has before it. What it gives to a tree it gives to
-- every tree that differs in its types only, and for the same reasons it stops. So a tree that
-- was checked can be checked again, any number of times, and nothing changes.
import Mathlib.Logic.Function.Iterate
import Mamuth.Proofs.Decorations
import Mamuth.Proofs.TwoRuns

namespace Mamuth

/-- The node as it is before it is checked. -/
def Node.untyped (n : Node) : Node := { n with type := none }

namespace Typing

/-- The event without the type of the node that is looked up. -/
def Event.untyped : Event → Event
  | lookedUp use found => lookedUp use.untyped found
  | event => event

/-- The state without the types that nodes had before they were looked up. -/
def State.untyped (s : State) : State := { s with history := s.history.map Event.untyped }

/-- Two runs end alike: for the same reason, and with states that agree on all that a run
can know. -/
abbrev EndAlike (A : α → β → Prop) (L : σ → τ → Prop) :
    Except (Stopped σ) (α × State) → Except (Stopped τ) (β × State) → Prop :=
  Matches (fun s s' => s.untyped = s'.untyped) Eq A L

variable {s s' : State}

/-! ## Steps -/

theorem find?_of_untyped (h : s.untyped = s'.untyped) (name : String) :
    s.find? name = s'.find? name := (congrArg (State.find? · name) h :)

theorem typeOf?_of_untyped (h : s.untyped = s'.untyped) (symbol : Symbol) :
    s.typeOf? symbol = s'.typeOf? symbol := (congrArg (State.typeOf? · symbol) h :)

theorem untyped_declare (h : s.untyped = s'.untyped) (name : String)
    (category : Symbol.Category) (declaration : Symbol.Declaration) :
    State.untyped { s with table := s.table.insert name category declaration } =
      State.untyped { s' with table := s'.table.insert name category declaration } :=
  (congrArg (fun s => { s with table := s.table.insert name category declaration }) h :)

theorem untyped_noting {use use' : Node} (hu : use.untyped = use'.untyped)
    (h : s.untyped = s'.untyped) : (s.noting use).untyped = (s'.noting use').untyped := by
  have name : use.name = use'.name := (congrArg Node.name hu :)
  have events : s.history.map Event.untyped = s'.history.map Event.untyped :=
    (congrArg State.history h :)
  have noted : ∀ (s : State) (use : Node), (s.noting use).untyped =
      { s.untyped with
        history := .lookedUp use.untyped (s.find? use.name) :: s.history.map Event.untyped } :=
    fun _ _ => rfl
  rw [noted, noted, h, hu, events, name, find?_of_untyped h]

theorem untyped_giveType (h : s.untyped = s'.untyped) (id : Nat) (type : Ty) :
    State.untyped { s with types := s.types.insert id type } =
      State.untyped { s' with types := s'.types.insert id type } :=
  (congrArg (fun s => { s with types := s.types.insert id type }) h :)

theorem lookUp_alike {use use' : Node} (hu : use.untyped = use'.untyped)
    (h : s.untyped = s'.untyped) :
    EndAlike Eq (fun _ _ => True) (lookUp use s) (lookUp use' s') := by
  have name : use.name = use'.name := (congrArg Node.name hu :)
  have position : use.position = use'.position := (congrArg Node.position hu :)
  rw [lookUp_apply, lookUp_apply, name, position, find?_of_untyped h]
  cases s'.find? use'.name with
  | some symbol => exact ⟨rfl, untyped_noting hu h⟩
  | none => exact ⟨rfl, trivial, untyped_noting hu h⟩

theorem lookUpIfNamed_alike {use use' : Node} (hu : use.untyped = use'.untyped)
    (h : s.untyped = s'.untyped) :
    EndAlike Eq (fun _ _ => True) (lookUpIfNamed use s) (lookUpIfNamed use' s') := by
  have kind : use.kind = use'.kind := (congrArg Node.kind hu :)
  unfold lookUpIfNamed
  rw [kind]
  split
  · rw [map_eq_pure_bind, map_eq_pure_bind]
    refine (lookUp_alike hu h).bind ?_
    rintro symbol _ t t' rfl ht
    exact ⟨rfl, ht⟩
  · exact ⟨rfl, h⟩

theorem refuseFunction_alike {argument argument' : Node}
    (hu : argument.untyped = argument'.untyped) (h : s.untyped = s'.untyped) :
    EndAlike Eq (fun _ _ => True) (refuseFunction argument s) (refuseFunction argument' s') := by
  have position : argument.position = argument'.position := (congrArg Node.position hu :)
  refine (lookUpIfNamed_alike hu h).bind ?_
  rintro named _ t t' rfl ht
  cases named with
  | none => exact ⟨rfl, ht⟩
  | some symbol =>
    dsimp only
    split
    · exact ⟨by rw [position], trivial, ht⟩
    · exact ⟨rfl, ht⟩

/-- The type at an operand is the one that it was given just now. -/
theorem requireNumeric_alike {operand operand' : Tree} (hu : operand.untyped = operand'.untyped)
    (ht : operand.type = operand'.type) (h : s.untyped = s'.untyped) :
    EndAlike Eq (fun _ _ => True) (requireNumeric operand s) (requireNumeric operand' s') := by
  have root : operand.root.untyped = operand'.root.untyped := by
    cases operand
    cases operand'
    exact congrArg Tree.root hu
  have kind : operand.root.kind = operand'.root.kind := (congrArg Node.kind root :)
  have name : operand.root.name = operand'.root.name := (congrArg Node.name root :)
  have position : operand.root.position = operand'.root.position := (congrArg Node.position root :)
  have found := find?_of_untyped h operand'.root.name
  rw [requireNumeric_apply, requireNumeric_apply, kind, name, position, found, ht]
  split
  · split
    · rename_i symbol _
      rw [typeOf?_of_untyped h symbol]
      split
      · exact ⟨rfl, untyped_noting root h⟩
      · exact ⟨rfl, trivial, untyped_noting root h⟩
    · exact ⟨rfl, trivial, untyped_noting root h⟩
  · exact ⟨rfl, h⟩
  · exact ⟨rfl, h⟩
  · exact ⟨rfl, trivial, h⟩

/-! ## Before and after the children -/

section

variable {σ τ : Type} {L : σ → τ → Prop}

theorem openBlock_alike (kind : Node.Kind) (h : s.untyped = s'.untyped) :
    EndAlike Eq L ((openBlock kind : Step σ Unit) s) ((openBlock kind : Step τ Unit) s') :=
  ⟨rfl, (congrArg (fun s : State =>
    State.mk s.table.openBlock s.types (.opened s.table.openBlock.depth kind :: s.history)) h :)⟩

theorem closeBlock_alike (h : s.untyped = s'.untyped) :
    EndAlike Eq L ((closeBlock : Step σ Unit) s) ((closeBlock : Step τ Unit) s') :=
  ⟨rfl, (congrArg (fun s : State =>
    State.mk s.table.closeBlock s.types (.closed s.table.closeBlock.depth :: s.history)) h :)⟩

variable {root root' : Node} {ts us : List Tree}

theorem roots_of_untyped {t u : Tree} (h : t.untyped = u.untyped) :
    t.root.untyped = u.root.untyped := by
  cases t
  cases u
  exact (congrArg Tree.root h :)

theorem untyped_whole (hr : root.untyped = root'.untyped)
    (hc : ts.map Tree.untyped = us.map Tree.untyped) :
    (Tree.node root ts).untyped = (Tree.node root' us).untyped := by
  rw [Tree.untyped_node, Tree.untyped_node, hc]
  exact (congrArg (Tree.node · (us.map Tree.untyped)) hr :)

theorem enter_alike (hr : root.untyped = root'.untyped)
    (hc : ts.map Tree.untyped = us.map Tree.untyped) (h : s.untyped = s'.untyped) :
    EndAlike Eq (fun _ _ => True) (enter root ts s) (enter root' us s') := by
  obtain ⟨id, kind, content, position, type⟩ := root
  obtain ⟨id', kind', content', position', type'⟩ := root'
  obtain ⟨rfl, rfl, rfl, rfl, -⟩ := Node.mk.inj hr
  cases kind with
  | assignment =>
    rcases ts with _ | ⟨target, _ | ⟨value, _ | ⟨_, _⟩⟩⟩ <;>
      rcases us with _ | ⟨target', _ | ⟨value', _ | ⟨_, _⟩⟩⟩ <;> simp at hc
    case cons.cons.nil.cons.cons.nil =>
      refine (lookUpIfNamed_alike (roots_of_untyped hc.2) h).bind ?_
      rintro _ _ t t' - ht
      have declaring := roots_of_untyped hc.1
      have id : target.root.id = target'.root.id := (congrArg Node.id declaring :)
      have name : target.root.name = target'.root.name := (congrArg Node.name declaring :)
      refine ⟨rfl, ?_⟩
      rw [id, name]
      exact untyped_declare ht _ _ _
    all_goals exact ⟨rfl, trivial, h⟩
  | comparison =>
    rcases ts with _ | ⟨_, _ | ⟨_, _ | ⟨_, _ | ⟨_, _⟩⟩⟩⟩ <;>
      rcases us with _ | ⟨_, _ | ⟨_, _ | ⟨_, _ | ⟨_, _⟩⟩⟩⟩ <;> simp at hc <;>
      first | exact ⟨rfl, h⟩ | exact ⟨rfl, trivial, h⟩
  | invocation =>
    rcases ts with _ | ⟨callee, ts⟩ <;> rcases us with _ | ⟨callee', us⟩ <;> simp at hc
    · exact ⟨rfl, trivial, h⟩
    · have named := roots_of_untyped hc.1
      have position : callee.root.position = callee'.root.position :=
        (congrArg Node.position named :)
      refine (lookUp_alike named h).bind ?_
      rintro symbol _ t t' rfl ht
      split
      · exact ⟨rfl, ht⟩
      · exact ⟨by rw [position], trivial, ht⟩
  | «return» =>
    rcases ts with _ | ⟨value, ts⟩ <;> rcases us with _ | ⟨value', us⟩ <;> simp at hc
    · exact ⟨rfl, h⟩
    · exact lookUpIfNamed_alike (roots_of_untyped hc.1) h
  | function =>
    refine Matches.bind (A := Eq) ⟨rfl, untyped_declare h _ _ _⟩ ?_
    rintro _ _ t t' - ht
    exact (openBlock_alike _ ht).bind fun _ _ _ _ _ ht => ⟨rfl, ht⟩
  | main | loop | ifBranch | elseBranch =>
    exact (openBlock_alike _ h).bind fun _ _ _ _ _ ht => ⟨rfl, ht⟩
  | _ => exact ⟨rfl, h⟩

/-- Two nodes are given the same types, and both their roots are given one. -/
def TypedBoth (t u t' u' : Tree) : Prop := Tree.GivenBoth t u t' u' ∧ t'.type = u'.type

theorem giveType_alike {t u : Tree} (hu : t.untyped = u.untyped) (type : Ty)
    (h : s.untyped = s'.untyped) :
    EndAlike (TypedBoth t u) L ((giveType t type : Step σ Tree) s)
      ((giveType u type : Step τ Tree) s') := by
  have id : t.root.id = u.root.id := (congrArg Node.id (roots_of_untyped hu) :)
  refine ⟨⟨Tree.GivenBoth.typed t u type, rfl⟩, ?_⟩
  rw [id]
  exact untyped_giveType h _ _

/-- A node gets its type after some of the nodes below it. -/
theorem giveType_above {ts' us' : List Tree} (hr : root.untyped = root'.untyped)
    (given : Tree.GivenAllBoth ts us ts' us')
    (hc : ts'.map Tree.untyped = us'.map Tree.untyped) (type : Ty) (h : s.untyped = s'.untyped) :
    EndAlike (TypedBoth (.node root ts) (.node root' us)) L
      ((giveType (.node root ts') type : Step σ Tree) s)
      ((giveType (.node root' us') type : Step τ Tree) s') :=
  (giveType_alike (untyped_whole hr hc) type h).mono
    (fun _ _ r => ⟨(given.above root root').trans r.1, r.2⟩) fun _ _ l => l

/-- The checked children of two nodes have the same types at the places that ask for a check. -/
def SameTypes (place : Nat → Place) (ts us : List Tree) : Prop :=
  ∀ i, place i ≠ .skipped → ts[i]?.map Tree.type = us[i]?.map Tree.type

/-- The type of a node comes from the kinds and the types of its children. -/
theorem typeFrom_congr (root : Node)
    (h : ts.map (fun t => (t.root.kind, t.type)) = us.map fun u => (u.root.kind, u.type)) :
    typeFrom root ts = typeFrom root us := by
  have first (ts : List Tree) : ts.head?.map Tree.type =
      (ts.map fun t => (t.root.kind, t.type)).head?.map Prod.snd := by
    rw [List.head?_map, Option.map_map]
    rfl
  have block (ts : List Tree) : typeOfBlock ts =
      (((ts.map fun t => (t.root.kind, t.type)).map Prod.snd).filter (· ≠ .none)).getLast?.getD
        .none := by
    rw [List.map_map]
    rfl
  have inBlock (ts : List Tree) : (ts.find? (·.root.kind = .instructionBlock)).map Tree.type =
      ((ts.map fun t => (t.root.kind, t.type)).find? (·.1 = .instructionBlock)).map Prod.snd := by
    rw [List.find?_map, Option.map_map]
    rfl
  simp only [typeFrom, first, block, inBlock, h]

theorem typeFrom_alike (hr : root.untyped = root'.untyped)
    (hc : ts.map Tree.untyped = us.map Tree.untyped)
    (ht : SameTypes (Place.of root.kind) ts us) : typeFrom root ts = typeFrom root' us := by
  have first : Place.of root.kind 0 ≠ .skipped →
      ts.head?.map Tree.type = us.head?.map Tree.type := by
    simpa [List.head?_eq_getElem?] using ht 0
  have every (hp : ∀ i, Place.of root.kind i ≠ .skipped) :
      ts.map (fun t => (t.root.kind, t.type)) = us.map fun u => (u.root.kind, u.type) := by
    refine List.ext_getElem? fun i => ?_
    have kinds := congrArg (·[i]?) hc
    have types := ht i (hp i)
    simp only [List.getElem?_map] at kinds ⊢
    cases hi : ts[i]? <;> cases hj : us[i]? <;> simp [hi, hj] at kinds types ⊢
    exact ⟨(congrArg Node.kind (roots_of_untyped kinds) :), types⟩
  obtain ⟨id, kind, content, position, type⟩ := root
  obtain ⟨id', kind', content', position', type'⟩ := root'
  obtain ⟨rfl, rfl, rfl, rfl, -⟩ := Node.mk.inj hr
  cases kind with
  | instruction | «return» => simp only [typeFrom, first (by simp [Place.of])]
  | instructionBlock | function | main | loop | ifBranch | elseBranch =>
    exact typeFrom_congr _ (every fun i => by simp [Place.of])
  | _ => rfl

/-- A node gets the type of what it names, or else the one that its children give it. -/
theorem settle_alike (whole : (Tree.node root ts).untyped = (Tree.node root' us).untyped)
    (fromChildren : typeFrom root ts = typeFrom root' us) (named : Option Symbol)
    (h : s.untyped = s'.untyped) :
    EndAlike (TypedBoth (.node root ts) (.node root' us))
      (Tree.GivenBoth (.node root ts) (.node root' us))
      ((match named with
        | some symbol => do giveType (.node root ts) (((← get).typeOf? symbol).getD .any)
        | none => giveType (.node root ts) (typeFrom root ts) : Step Tree Tree) s)
      ((match named with
        | some symbol => do giveType (.node root' us) (((← get).typeOf? symbol).getD .any)
        | none => giveType (.node root' us) (typeFrom root' us) : Step Tree Tree) s') := by
  cases named with
  | none =>
    rw [fromChildren]
    exact giveType_alike whole _ h
  | some symbol =>
    refine Matches.bind (A := fun t t' => t.untyped = t'.untyped) ⟨h, h⟩ fun t t' r r' ht hr => ?_
    rw [typeOf?_of_untyped ht symbol]
    exact giveType_alike whole _ hr

theorem leave_alike (hr : root.untyped = root'.untyped)
    (hc : ts.map Tree.untyped = us.map Tree.untyped)
    (ht : SameTypes (Place.of root.kind) ts us) (named : Option Symbol)
    (h : s.untyped = s'.untyped) :
    EndAlike (TypedBoth (.node root ts) (.node root' us))
      (Tree.GivenBoth (.node root ts) (.node root' us))
      (leave root named ts s) (leave root' named us s') := by
  have whole := untyped_whole hr hc
  have fromChildren := typeFrom_alike hr hc ht
  have settled := settle_alike whole fromChildren named h
  have hr' := hr
  obtain ⟨id, kind, content, position, type⟩ := root
  obtain ⟨id', kind', content', position', type'⟩ := root'
  obtain ⟨rfl, rfl, rfl, rfl, -⟩ := Node.mk.inj hr
  cases kind with
  | assignment =>
    rcases ts with _ | ⟨target, _ | ⟨value, _ | ⟨_, _⟩⟩⟩ <;>
      rcases us with _ | ⟨target', _ | ⟨value', _ | ⟨_, _⟩⟩⟩ <;> simp at hc
    case cons.cons.nil.cons.cons.nil =>
      have types : value.type = value'.type := by simpa using ht 1 nofun
      refine Matches.bind (x := giveType target value.type) (y := giveType target' value'.type)
        (A := TypedBoth target target') ?_ ?_
      · exact types ▸ giveType_alike hc.1 _ h
      · rintro t t' r r' ⟨given, -⟩ hr
        rw [types]
        refine giveType_above hr' (.cons given (.refl [value] [value'])) ?_ _ hr
        simp [Tree.GivenBoth.untyped given hc.1, hc.2]
    all_goals exact settled
  | comparison =>
    rcases ts with _ | ⟨left, _ | ⟨comparator, _ | ⟨right, _ | ⟨_, _⟩⟩⟩⟩ <;>
      rcases us with _ | ⟨left', _ | ⟨comparator', _ | ⟨right', _ | ⟨_, _⟩⟩⟩⟩ <;> simp at hc
    case cons.cons.cons.nil.cons.cons.cons.nil =>
      have lefts : left.type = left'.type := by simpa using ht 0 nofun
      have rights : right.type = right'.type := by simpa using ht 2 nofun
      cases common : left'.type.common? right'.type with
      | none =>
        have sign : comparator.root.name = comparator'.root.name :=
          (congrArg Node.name (roots_of_untyped hc.2.1) :)
        simp only [leave, lefts, rights, common]
        exact ⟨by rw [sign], .refl _ _, h⟩
      | some type =>
        simp only [leave, lefts, rights, common]
        refine (giveType_alike (L := Tree.GivenBoth _ _) hc.2.1 type h).bind ?_
        rintro t t' r r' ⟨given, -⟩ hr
        refine giveType_above hr' (.cons (.refl left left') (.cons given (.refl [right] [right'])))
          ?_ _ hr
        simp [hc.1, Tree.GivenBoth.untyped given hc.2.1, hc.2.2]
    all_goals exact settled
  | function | main | loop | ifBranch | elseBranch =>
    refine (closeBlock_alike h).bind fun _ _ _ _ _ hr => ?_
    exact fromChildren ▸ giveType_alike whole _ hr
  | _ => exact settled

end

/-! ## The walk -/

theorem around_alike {t u : Tree} {x y : Step Tree Tree} (place : Place)
    (hu : t.untyped = u.untyped)
    (own : ∀ s s', s.untyped = s'.untyped →
      EndAlike (TypedBoth t u) (Tree.GivenBoth t u) (x s) (y s'))
    (h : s.untyped = s'.untyped) :
    EndAlike (fun t' u' => Tree.GivenBoth t u t' u' ∧ (place ≠ .skipped → t'.type = u'.type))
      (Tree.GivenBoth t u) (place.around t x s) (place.around u y s') := by
  have root := roots_of_untyped hu
  have checked {s s' : State} (h : s.untyped = s'.untyped) :
      EndAlike (fun t' u' => Tree.GivenBoth t u t' u' ∧ (place ≠ .skipped → t'.type = u'.type))
        (Tree.GivenBoth t u) (x s) (y s') :=
    (own s s' h).mono (fun _ _ r => ⟨r.1, fun _ => r.2⟩) fun _ _ l => l
  have untouched : Tree.GivenBoth t u t u := .refl t u
  cases place with
  | skipped => exact ⟨⟨untouched, fun hp => absurd rfl hp⟩, h⟩
  | plain => exact checked h
  | parameter =>
    have id : t.root.id = u.root.id := (congrArg Node.id root :)
    have name : t.root.name = u.root.name := (congrArg Node.name root :)
    refine Matches.bind (A := Eq) ⟨rfl, ?_⟩ fun _ _ _ _ _ hr => checked hr
    rw [id, name]
    exact untyped_declare h _ _ _
  | argument =>
    exact ((refuseFunction_alike root h).leaving fun _ _ _ => untouched).bind
      fun _ _ _ _ _ hr => checked hr
  | compared =>
    exact ((lookUpIfNamed_alike root h).leaving fun _ _ _ => untouched).bind
      fun _ _ _ _ _ hr => checked hr
  | operand =>
    refine (own s s' h).bind fun t' u' r r' given hr => ?_
    refine ((requireNumeric_alike (given.1.untyped hu) given.2 hr).leaving
      fun _ _ _ => given.1).bind fun _ _ _ _ _ hr => ?_
    exact ⟨⟨given.1, fun _ => given.2⟩, hr⟩

mutual

/-- A check ends alike on trees that differ in their types only, and gives the same types to
the same nodes. -/
theorem check_alike (t u : Tree) (hu : t.untyped = u.untyped) (s s' : State)
    (h : s.untyped = s'.untyped) :
    EndAlike (TypedBoth t u) (Tree.GivenBoth t u) (check t s) (check u s') := by
  cases t with
  | node root ts =>
    obtain ⟨root', us⟩ := u
    have hr : root.untyped = root'.untyped := roots_of_untyped hu
    have hc : ts.map Tree.untyped = us.map Tree.untyped := by
      rw [Tree.untyped_node, Tree.untyped_node] at hu
      exact (Tree.node.inj hu).2
    have kind : root.kind = root'.kind := (congrArg Node.kind hr :)
    rw [check, check, ← kind]
    refine ((enter_alike hr hc h).leaving fun _ _ _ => .refl _ _).bind ?_
    rintro named _ r r' rfl hs
    refine ((checkAll_alike (Place.of root.kind) ts us hc r r' hs).leaving
      fun _ _ given => given.above root root').bind ?_
    rintro ts' us' r r' ⟨given, types⟩ hs
    have above := given.above root root'
    exact (leave_alike hr (given.untyped hc) types named hs).mono
      (fun _ _ left => ⟨above.trans left.1, left.2⟩) fun _ _ left => above.trans left

/-- The same of trees next to each other. -/
theorem checkAll_alike (place : Nat → Place) (ts us : List Tree)
    (hu : ts.map Tree.untyped = us.map Tree.untyped) (s s' : State)
    (h : s.untyped = s'.untyped) :
    EndAlike (fun ts' us' => Tree.GivenAllBoth ts us ts' us' ∧ SameTypes place ts' us')
      (Tree.GivenAllBoth ts us) (checkAll place ts s) (checkAll place us s') := by
  cases ts with
  | nil =>
    obtain rfl : us = [] := by simpa using hu
    exact ⟨⟨.refl _ _, fun _ _ => rfl⟩, h⟩
  | cons t ts =>
    obtain _ | ⟨u, us⟩ := us
    · cases hu
    obtain ⟨ht, hts⟩ := List.cons.inj hu
    rw [checkAll, checkAll]
    refine ((around_alike (place 0) ht (check_alike t u ht) h).leaving
      fun _ _ given => .cons given (.refl ts us)).bind fun t' u' r r' one hr => ?_
    refine ((checkAll_alike (fun i => place (i + 1)) ts us hts r r' hr).leaving
      fun _ _ given => .cons one.1 given).bind fun ts' us' r r' others hr => ?_
    refine ⟨⟨.cons one.1 others.1, fun i hp => ?_⟩, hr⟩
    cases i with
    | zero => simpa using one.2 hp
    | succ i => simpa using others.2 i hp

end

/-- A checked tree is the tree with types. -/
theorem untyped_of_check {t t' : Tree} (h : check t s = .ok (t', s')) :
    t'.untyped = t.untyped := by
  have alike := check_alike t t rfl s s rfl
  rw [h] at alike
  obtain ⟨given, rfl, -⟩ := alike.1.1
  exact Tree.untyped_decorate given t

theorem kind_of_check {t t' : Tree} (h : check t s = .ok (t', s')) :
    t'.root.kind = t.root.kind :=
  (congrArg Node.kind (roots_of_untyped (untyped_of_check h)) :)

theorem untyped_of_checkAll {place : Nat → Place} {ts ts' : List Tree}
    (h : checkAll place ts s = .ok (ts', s')) : ts'.map Tree.untyped = ts.map Tree.untyped := by
  have alike := checkAll_alike place ts ts rfl s s rfl
  rw [h] at alike
  obtain ⟨given, rfl, -⟩ := alike.1.1
  exact Tree.untyped_decorateAll given ts

end Typing

/-! ## Whole checks -/

namespace Tree

/-- The tree that a check leaves, whether it comes to its end or stops. -/
def checked (t : Tree) : Tree :=
  match t.verify with
  | .ok (t', _) => t'
  | .error e => e.left

/-- What a check comes to besides the tree: the fault that stops it, and the state at its end. -/
def verdict (t : Tree) : Option Fault × Typing.State :=
  match t.verify with
  | .ok (_, s) => (none, s.untyped)
  | .error e => (some e.fault, e.state.untyped)

theorem ok_of_verdict {t : Tree} (h : t.verdict.1 = none) : ∃ s, t.verify = .ok (t.checked, s) := by
  unfold verdict at h
  unfold checked
  cases he : t.verify with
  | ok checked => exact ⟨checked.2, rfl⟩
  | error e =>
    rw [he] at h
    cases h

theorem error_of_verdict {t : Tree} {fault : Fault} (h : t.verdict.1 = some fault) :
    ∃ e, t.verify = .error e ∧ e.fault = fault := by
  unfold verdict at h
  cases he : t.verify with
  | ok checked =>
    rw [he] at h
    cases h
  | error e =>
    rw [he] at h
    exact ⟨e, rfl, Option.some.inj h⟩

/-- The types that a check gives, and the nodes that it gives them to. -/
def given (t : Tree) : Decoration := t.untyped.checked.types

variable {t u : Tree}

theorem verdict_of_untyped (same : t.untyped = u.untyped) : t.verdict = u.verdict := by
  have alike := Typing.check_alike t u same .start .start rfl
  unfold verdict verify
  cases ht : Typing.check t .start with
  | ok r =>
    cases hu : Typing.check u .start with
    | ok r' =>
      rw [ht, hu] at alike
      exact congrArg (Prod.mk none) alike.2
    | error e =>
      rw [ht, hu] at alike
      exact alike.elim
  | error e =>
    cases hu : Typing.check u .start with
    | ok r =>
      rw [ht, hu] at alike
      exact alike.elim
    | error e' =>
      rw [ht, hu] at alike
      exact Prod.ext (congrArg some alike.1) alike.2.2

theorem givenBoth_checked (same : t.untyped = u.untyped) :
    GivenBoth t u t.checked u.checked := by
  have alike := Typing.check_alike t u same .start .start rfl
  unfold checked verify
  cases ht : Typing.check t .start <;> cases hu : Typing.check u .start <;> rw [ht, hu] at alike
  · exact alike.2.1
  · exact alike.elim
  · exact alike.elim
  · exact alike.1.1

@[simp] theorem untyped_untyped (t : Tree) : t.untyped.untyped = t.untyped := by
  induction t using ofChildren with
  | step root children ih =>
    rw [untyped_node, untyped_node, List.map_map]
    exact congrArg (node _) (List.map_congr_left ih)

theorem checked_eq (t : Tree) : t.checked = t.decorate t.given := by
  obtain ⟨given, left, right⟩ := givenBoth_checked (t := t) (u := t.untyped) (by simp)
  rw [Tree.given, right, decorate_types_untyped, left]

theorem given_of_untyped (same : t.untyped = u.untyped) : t.given = u.given := by
  rw [given, same, given]

theorem untyped_checked (t : Tree) : t.checked.untyped = t.untyped := by
  rw [checked_eq, untyped_decorate]

theorem checked_checked (t : Tree) : t.checked.checked = t.checked := by
  rw [checked_eq t.checked, given_of_untyped t.untyped_checked, checked_eq t, decorate_decorate]
  simp only [Option.or_self]

/-- Trees that differ in their types only come to the same verdict, and the same nodes are given
the same types in them; all else of a tree stays as it is. So a tree that was checked before
comes to the verdict that it came to first, and stays as the first check left it. -/
theorem verify_of_untyped (same : t.untyped = u.untyped) :
    t.verdict = u.verdict ∧ t.checked = t.decorate t.given ∧ u.checked = u.decorate t.given ∧
      t.checked.untyped = t.untyped ∧
      ∀ n, (checked^[n] t).verdict = t.verdict ∧ checked^[n + 1] t = t.checked := by
  have kept (n : Nat) : (checked^[n] t).untyped = t.untyped := by
    induction n with
    | zero => rfl
    | succ n ih => rw [Function.iterate_succ_apply', untyped_checked, ih]
  refine ⟨verdict_of_untyped same, checked_eq t, ?_, untyped_checked t, fun n =>
    ⟨verdict_of_untyped (kept n), ?_⟩⟩
  · rw [checked_eq u, given_of_untyped same]
  · induction n with
    | zero => rfl
    | succ n ih => rw [Function.iterate_succ_apply', ih, checked_checked]

/-- A comparison with two operands of the same type before the check, and of different types
after it. The second child is given no type, since the check stops. -/
theorem verify_of_untyped_comparison :
    let tree (first second : Option Ty) : Tree :=
      .node ⟨0, .comparison, none, .start, some .boolean⟩
        [.node ⟨0, .text, some "a", .start, first⟩ [],
          .node ⟨1, .comparator, some "panas", .start, second⟩ [],
          .node ⟨2, .integer, some "1", .start, some .number⟩ []]
    let t := tree (some .number) (some .float)
    let u := tree none none
    t.untyped = u.untyped ∧ t.verdict = u.verdict ∧
      t.verdict.1 = some (.incomparable "panas" .text .number .start) ∧
      t.checked = t.decorate t.given ∧ u.checked = u.decorate t.given ∧
      t.checked.children.map type = [.text, .float, .number] ∧
      ∀ n, (checked^[n] t).verdict = t.verdict ∧ checked^[n + 1] t = t.checked := by
  intro tree t u
  obtain ⟨verdicts, left, right, -, again⟩ := verify_of_untyped (t := t) (u := u) rfl
  exact ⟨rfl, verdicts, by decide, left, right, by decide, again⟩

end Tree

end Mamuth
