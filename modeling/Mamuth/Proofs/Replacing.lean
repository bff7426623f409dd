-- A block in place of another one. A check of the whole tree comes to the new block as it came to
-- the old one. It fails there, or goes on behind the block as before: nothing that was declared
-- inside, and no type inside but the one of the block, reaches what follows.
import Mamuth.Proofs.Bystanders
import Mamuth.Proofs.Ways

namespace Mamuth

/-! ## Nodes above a block -/

/-- The kinds of the nodes that a block can stand in, and of those that are one. -/
def Node.Kind.holdsBlocks (k : Node.Kind) : Bool :=
  k ∈ [program, function, main, instructionBlock, instruction, loop, conditional, ifBranch,
    elseBranch]

theorem Node.Kind.holdsBlocks_of_opensBlock {k : Kind} (h : k.opensBlock) : k.holdsBlocks := by
  cases k <;> first | rfl | simp [opensBlock] at h

/-- No other node has such a child. -/
theorem Node.Kind.holdsBlocks_of_admits {k top : Kind} {ks : List Kind} (h : k.admits ks)
    (below : top ∈ ks) (inner : top.holdsBlocks) : k.holdsBlocks := by
  have values : ¬ top.isValue := by cases top <;> first | decide | simp [holdsBlocks] at inner
  have expressions : ¬ top.isExpression := by
    cases top <;> first | decide | simp [holdsBlocks] at inner
  have leaves : ¬ top.isLeaf := by cases top <;> first | decide | simp [holdsBlocks] at inner
  have names : top ≠ identifier ∧ top ≠ functionParameters ∧ top ≠ invocationArguments ∧
      top ≠ comparison ∧ top ≠ comparator ∧ top ≠ logicalOperator := by
    refine ⟨?_, ?_, ?_, ?_, ?_, ?_⟩ <;> rintro rfl <;> simp [holdsBlocks] at inner
  unfold admits at h
  split at h
  case h_1 => rfl
  case h_16 ks =>
    simp only [Bool.or_eq_true, decide_eq_true_eq, List.map_eq_singleton_iff] at h
    grind
  case h_17 k ks =>
    have operands : inTurn ks → top ∉ ks := fun turns hm => leaves (isLeaf_of_inTurn turns _ hm)
    grind
  all_goals first | rfl | grind

theorem Tree.LaidOut.holdsBlocks {t u : Tree} {way : List Nat} (h : t.at? way = some u)
    (laidOut : t.LaidOut) (inner : u.root.kind.holdsBlocks) : t.root.kind.holdsBlocks := by
  induction h using Tree.way_induction with
  | here => exact inner
  | inside root before c after way _ ih =>
    have below := ih (laidOut.child c (by simp))
    exact Node.Kind.holdsBlocks_of_admits laidOut.admits (by simp) below

/-- A child shares no number with the node and the other children. -/
theorem Tree.apart_of_nodup {root : Node} {before after : List Tree} {c : Tree}
    (nodup : (node root (before ++ c :: after)).ids.Nodup) :
    c.ids.Nodup ∧ ∀ i ∈ c.ids, i ≠ root.id ∧ i ∉ idsAll before ∧ i ∉ idsAll after := by
  rw [ids_node, idsAll, List.flatMap_append, List.flatMap_cons] at nodup
  obtain ⟨apart, nodup⟩ := List.nodup_cons.mp nodup
  obtain ⟨-, nodup, first⟩ := List.nodup_append.mp nodup
  obtain ⟨own, -, last⟩ := List.nodup_append.mp nodup
  refine ⟨own, fun i hi => ⟨?_, fun hb => ?_, fun ha => ?_⟩⟩
  · rintro rfl
    exact apart (by simp [hi])
  · exact first i hb i (by simp [hi]) rfl
  · exact last i hi i ha rfl

namespace Typing

section

variable {root : Node} {s : State}

theorem places_holdsBlocks (h : root.kind.holdsBlocks) :
    Place.of root.kind = fun _ => .plain := by
  obtain ⟨id, kind, content, position, type⟩ := root
  cases kind <;> first | rfl | simp [Node.Kind.holdsBlocks] at h

/-- What happens before the children does not depend on them. -/
theorem enter_holdsBlocks (h : root.kind.holdsBlocks) (s : State) :
    ∃ s', (∀ children, enter root children s = .ok (none, s')) ∧
      ∀ is, root.id ∉ is → Fresh s is → Fresh s' is := by
  obtain ⟨id, kind, content, position, type⟩ := root
  cases kind with
  | function =>
    refine ⟨_, fun _ => rfl, fun is apart fresh => ?_⟩
    exact (fresh.declare apart rfl rfl : Fresh ⟨s.table.insert _ .function _, _, s.history⟩ is)
  | program | main | instructionBlock | instruction | loop | conditional | ifBranch | elseBranch =>
    exact ⟨_, fun _ => rfl, fun is _ fresh => fresh⟩
  | _ => simp [Node.Kind.holdsBlocks] at h

/-- What happens after the children depends on the type that they give to the node. -/
theorem leave_holdsBlocks (h : root.kind.holdsBlocks) (s : State) (type : Ty) :
    ∃ s', ∀ children, typeFrom root children = type →
      leave root none children s = .ok ((Tree.node root children).typed type, s') := by
  have kinds : root.kind.isPlain ∨ root.kind.opensBlock := by
    cases hk : root.kind <;> rw [hk] at h <;>
      first | decide | simp [Node.Kind.holdsBlocks] at h
  rcases kinds with plain | block
  · refine ⟨{ s with types := s.types.insert root.id type }, fun children given => ?_⟩
    rw [leave_plain plain, given]
    rfl
  · refine ⟨⟨s.table.closeBlock, s.types.insert root.id type,
      .closed s.table.closeBlock.depth :: s.history⟩, fun children given => ?_⟩
    rw [leave_block block, given]
    rfl

/-- The walk enters a node, whatever its children are, and passes the first of them. -/
def Passes (root : Node) (s : State) (before before' : List Tree) (s' : State) : Prop :=
  ∃ s₁, (∀ children, enter root children s = .ok (none, s₁)) ∧
    (∀ is, root.id ∉ is → Fresh s is → Fresh s₁ is) ∧
    checkAll (fun _ => .plain) before s₁ = .ok (before', s')

section

variable {before before' after : List Tree} {c : Tree} {s s₁ : State}

theorem exists_passes (h : root.kind.holdsBlocks) {r : Tree × State}
    (checked : check (.node root (before ++ c :: after)) s = .ok r) :
    ∃ before' s₁, Passes root s before before' s₁ := by
  obtain ⟨s₀, entered, fresh⟩ := enter_holdsBlocks h s
  rw [check, Step.bind_of_ok (Step.leaving_ok.mpr (entered _)), places_holdsBlocks h] at checked
  obtain ⟨_, _, walked, -⟩ := Step.bind_ok.mp checked
  obtain ⟨before', s₁, _, first, -⟩ := checkAll_append_ok.mp (Step.leaving_ok.mp walked)
  exact ⟨before', s₁, s₀, entered, fresh, first⟩

/-- The next child is checked where the walk has passed the first ones, then those behind it. -/
theorem Passes.check_ok (passes : Passes root s before before' s₁) (h : root.kind.holdsBlocks)
    {r : Tree × State} : check (.node root (before ++ c :: after)) s = .ok r ↔
      ∃ c' s₂ after' s₃, check c s₁ = .ok (c', s₂) ∧
        checkAll (fun _ => .plain) after s₂ = .ok (after', s₃) ∧
        leave root none (before' ++ c' :: after') s₃ = .ok r := by
  obtain ⟨s₀, entered, -, first⟩ := passes
  rw [check, Step.bind_of_ok (Step.leaving_ok.mpr (entered _)), places_holdsBlocks h]
  constructor
  · intro checked
    obtain ⟨_, s₃, walked, left⟩ := Step.bind_ok.mp checked
    obtain ⟨_, _, _, first', rest, rfl⟩ := checkAll_append_ok.mp (Step.leaving_ok.mp walked)
    cases first.symm.trans first'
    obtain ⟨c', s₂, after', own, behind, rfl⟩ := checkAll_cons_ok.mp rest
    exact ⟨c', s₂, after', s₃, own, behind, left⟩
  · rintro ⟨c', s₂, after', s₃, own, behind, left⟩
    have rest : checkAll (fun _ => .plain) (c :: after) s₁ = .ok (c' :: after', s₃) :=
      checkAll_cons_ok.mpr ⟨c', s₂, after', own, behind, rfl⟩
    have walked := checkAll_append_ok.mpr ⟨before', s₁, _, first, rest, rfl⟩
    exact Step.bind_ok.mpr ⟨_, s₃, Step.leaving_ok.mpr walked, left⟩

theorem Passes.comesTo (passes : Passes root s before before' s₁) (h : root.kind.holdsBlocks)
    (c : Tree) (after : List Tree) : ComesTo root (before ++ c :: after) s before.length c s₁ := by
  obtain ⟨s₀, entered, -, first⟩ := passes
  refine ⟨?_, by simp, none, s₀, before', entered _, ?_⟩
  · simp [places_holdsBlocks h]
  · rw [List.take_left, places_holdsBlocks h, first]

theorem Passes.length (passes : Passes root s before before' s₁) :
    before.length = before'.length := by
  obtain ⟨s₀, -, -, first⟩ := passes
  exact (checkAll_skipped first).1.symm

theorem Passes.bounded (passes : Passes root s before before' s₁) (bounded : s.table.Bounded) :
    s₁.table.Bounded := by
  obtain ⟨s₀, entered, -, first⟩ := passes
  have bounded := enter_bounded bounded (entered [])
  rw [(checkAll_ok _ before bounded first).table]
  exact bounded.adding depth_of_mem_declared

theorem Passes.fresh (passes : Passes root s before before' s₁) (bounded : s.table.Bounded)
    {is : List Nat} (fresh : Fresh s is) (apart : ∀ i ∈ is, i ≠ root.id ∧ i ∉ Tree.idsAll before) :
    Fresh s₁ is := by
  obtain ⟨s₀, entered, kept, first⟩ := passes
  have fresh := kept is (fun hi => (apart _ hi).1 rfl) fresh
  exact (checkAll_ok _ before (enter_bounded bounded (entered [])) first).fresh fresh
    fun i hi => (apart i hi).2

end

/-- Behind one child and another that has become of the same kind and type, the check of such a node
comes to the same end. -/
theorem behind_agree (h : root.kind.holdsBlocks) {is : List Nat} {unused : String → Prop}
    {before after after' : List Tree} {c d t : Tree} {s s' s₁ s₂ : State}
    (agree : s.AgreeBut is unused s') (avoids : ∀ u ∈ after, u.Avoids is unused)
    (same : d.root.kind = c.root.kind ∧ d.type = c.type)
    (behind : checkAll (fun _ => .plain) after s = .ok (after', s₁))
    (left : leave root none (before ++ c :: after') s₁ = .ok (t, s₂)) :
    ∃ type s₁' s₂', t = (Tree.node root (before ++ c :: after')).typed type ∧
      checkAll (fun _ => .plain) after s' = .ok (after', s₁') ∧
      leave root none (before ++ d :: after') s₁' =
        .ok ((Tree.node root (before ++ d :: after')).typed type, s₂') ∧
      s₂.AgreeBut is unused s₂' := by
  have walked := checkAll_agree (fun _ => .plain) after avoids s s' agree
  rw [behind] at walked
  obtain ⟨_, s₁', behind', rfl, agree⟩ := walked.of_ok
  obtain ⟨_, leaving⟩ := leave_holdsBlocks h s₁ (typeFrom root (before ++ c :: after'))
  cases (leaving _ rfl).symm.trans left
  have sameType : typeFrom root (before ++ d :: after') = typeFrom root (before ++ c :: after') :=
    typeFrom_congr root (by simp [same])
  have ended : EndSame is unused Eq Eq (leave root none (before ++ d :: after') s₁)
      (leave root none (before ++ d :: after') s₁') := leave_agree agree (by simp)
  rw [leaving _ sameType] at ended
  obtain ⟨_, s₂', left', rfl, agree⟩ := ended.of_ok
  exact ⟨_, s₁', s₂', rfl, behind', left', agree⟩

end

/-! ## The same place, another block -/

theorem Fresh.not_isOf {s : State} {is : List Nat} (h : Fresh s is) :
    ∀ y ∈ s.table.symbols, y.isOf is = false := by
  intro y hy
  unfold Symbol.isOf
  split
  · rename_i i declared
    exact decide_eq_false fun hi => (h i hi).2 y hy declared
  · rfl

variable {old new : Tree}

/-- Behind two blocks that were checked from the same state, there is nothing to tell which of
them it was but the types inside. -/
theorem agree_of_blocks (block : old.root.kind.opensBlock) (inner : old.root.kind ≠ .function)
    (kind : new.root.kind = old.root.kind) {s s₁ s₂ : State} {old' new' : Tree}
    (bounded : s.table.Bounded) (fresh : Fresh s (old.ids ++ new.ids))
    (checked : check old s = .ok (old', s₁)) (checked' : check new s = .ok (new', s₂)) :
    s₁.AgreeBut (old.ids ++ new.ids) (fun _ => False) s₂ := by
  have first := check_ok old bounded checked
  have second := check_ok new bounded checked'
  have same : s₁.table = s.table := by
    rw [first.table, declared_block block inner, SymbolTable.adding_nil]
  have same' : s₂.table = s.table := by
    rw [second.table, declared_block (kind ▸ block) (kind ▸ inner), SymbolTable.adding_nil]
  refine ⟨by rw [same, same'], by rw [same, same'], fun y hy own => ?_, fun i hi => ?_⟩
  · rw [same, same', List.mem_append, or_self] at hy
    rw [fresh.not_isOf y hy] at own
    cases own
  · rw [List.mem_append, not_or] at hi
    rw [first.frame i hi.1, second.frame i hi.2]

/-- A check comes to the new block as it comes to the old one. If it goes on behind the new block
with the same type, it goes on behind it as it does behind the old one. -/
theorem check_replaced {t : Tree} {way : List Nat} (place : t.at? way = some old)
    (block : old.root.kind.opensBlock) (inner : old.root.kind ≠ .function)
    (kind : new.root.kind = old.root.kind) (laidOut : t.LaidOut) (ids : t.ids.Nodup)
    (ids' : (t.replace way new).ids.Nodup) {s s' : State} {t' : Tree} (bounded : s.table.Bounded)
    (fresh : Fresh s (old.ids ++ new.ids)) (h : check t s = .ok (t', s')) :
    ∃ s₀ old', Reaches (t.replace way new) s way new s₀ ∧ t'.at? way = some old' ∧
      old'.root.kind = new.root.kind ∧
      ∀ new' s₁, check new s₀ = .ok (new', s₁) → new'.type = old'.type →
        ∃ s'', check (t.replace way new) s = .ok (t'.replace way new', s'') ∧
          s'.AgreeBut (old.ids ++ new.ids) (fun _ => False) s'' := by
  induction place using Tree.way_induction generalizing s s' t' with
  | here =>
    rw [Tree.replace_nil]
    refine ⟨s, t', .here, Tree.at?_nil t', (kind_of_check h).trans kind.symm,
      fun new' s₁ checked _ => ⟨s₁, ?_, ?_⟩⟩
    · rw [Tree.replace_nil, checked]
    · exact agree_of_blocks block inner kind bounded fresh h checked
  | inside root before c after way below ih =>
    rw [Tree.replace_split] at ids' ⊢
    generalize hd : c.replace way new = d at *
    have holds : root.kind.holdsBlocks :=
      Node.Kind.holdsBlocks_of_admits laidOut.admits (by simp)
        ((laidOut.child c (by simp)).holdsBlocks below
          (Node.Kind.holdsBlocks_of_opensBlock block))
    have apart : ∀ i ∈ old.ids ++ new.ids,
        i ≠ root.id ∧ i ∉ Tree.idsAll before ∧ i ∉ Tree.idsAll after := by
      intro i hi
      rcases List.mem_append.mp hi with hi | hi
      · exact (Tree.apart_of_nodup ids).2 i (Tree.ids_at? below hi)
      · exact (Tree.apart_of_nodup ids').2 i (Tree.ids_at? (hd ▸ Tree.at?_replace below new) hi)
    -- The children before are the same, so the walk comes to the child in the same state.
    obtain ⟨before', s₁, passes⟩ := exists_passes holds h
    obtain ⟨c', s₂, after', s₃, own, behind, left⟩ := (passes.check_ok holds).mp h
    have freshInside := passes.fresh bounded fresh fun i hi => ⟨(apart i hi).1, (apart i hi).2.1⟩
    obtain ⟨s₀, old', reached, place', kind', onward⟩ :=
      ih (laidOut.child c (by simp)) (Tree.apart_of_nodup ids).1 (Tree.apart_of_nodup ids').1
        (passes.bounded bounded) freshInside own
    refine ⟨s₀, old', .inside (passes.comesTo holds d after) ?_ reached, ?_, kind',
      fun new' s₄ checked type => ?_⟩
    · rw [places_holdsBlocks holds]
      rfl
    · obtain ⟨_, leaving⟩ := leave_holdsBlocks holds s₃ (typeFrom root (before' ++ c' :: after'))
      cases (leaving _ rfl).symm.trans left
      rw [passes.length]
      exact (Tree.at?_split _ before' after' c' way).trans place'
    · obtain ⟨s₂', own', agree⟩ := onward new' s₄ checked type
      -- Those behind have no number of either block, so they see no difference.
      have avoids : ∀ u ∈ after, u.Avoids (old.ids ++ new.ids) fun _ => False := by
        refine fun u hu => ⟨laidOut.child u (by simp [hu]), fun i hi own => ?_, fun _ _ _ h => h⟩
        exact (apart i own).2.2 (List.mem_flatMap.mpr ⟨u, hu, hi⟩)
      have same := Tree.root_replace place' ((kind_of_check checked).trans kind'.symm) type
      obtain ⟨type, s₃', s'', rfl, behind', left', agree⟩ :=
        behind_agree holds agree avoids same behind left
      refine ⟨s'', ?_, agree⟩
      rw [(passes.check_ok holds).mpr ⟨_, s₂', after', s₃', own', behind', left'⟩, passes.length]
      exact congrArg (fun t => Except.ok (t, s''))
        (Tree.replace_split _ before' after' c' new' way).symm

end Typing

/-- In the tree of a program that passes its check, a loop or a branch of a conditional is replaced
by a tree of the same kind, of whatever shape. The check comes to the new block, and fails if it
fails there. Else, if the block has got the type of the old one, the check succeeds, gives all nodes
around the block the types that they had, and leaves the same table. -/
theorem Program.verify_replaced {p : Program} {t : Tree} {s : Typing.State}
    (h : p.tree.verify = .ok (t, s)) {way : List Nat} {old new : Tree}
    (place : p.tree.at? way = some old) (block : old.root.kind ∈ [.loop, .ifBranch, .elseBranch])
    (kind : new.root.kind = old.root.kind) (ids : (p.tree.replace way new).ids.Nodup) :
    ∃ s₀, Typing.Reaches (p.tree.replace way new) .start way new s₀ ∧
      (∀ e, Typing.check new s₀ = .error e →
        ∃ left, (p.tree.replace way new).verify = .error ⟨e.fault, left, e.state⟩ ∧
          left.at? way = some e.left) ∧
      ∀ new' s₁, Typing.check new s₀ = .ok (new', s₁) → (t.at? way).map Tree.type = some new'.type →
        ∃ s', (p.tree.replace way new).verify = .ok (t.replace way new', s') ∧
          s'.table = s.table := by
  have kinds : old.root.kind.opensBlock ∧ old.root.kind ≠ .function := by
    simp only [List.mem_cons, List.not_mem_nil, or_false] at block
    rcases block with hk | hk | hk <;> rw [hk] <;> decide
  obtain ⟨s₀, old', reached, place', -, onward⟩ := Typing.check_replaced place kinds.1 kinds.2 kind
    p.laidOut_tree p.nodup_ids_tree ids Typing.bounded_start (Typing.fresh_start _) h
  refine ⟨s₀, reached, fun e fails => reached.error fails, fun new' s₁ checked type => ?_⟩
  rw [place', Option.map_some, Option.some.injEq] at type
  obtain ⟨s', verified, agree⟩ := onward new' s₁ checked type.symm
  exact ⟨s', verified, agree.table_eq.symm⟩

/-- The branch of `x anotado ツaツ. maracuya() xD siuuu (1 panas 1) xD y anotado 1. v: messirve x. v:`
is replaced by one that declares `x` again as a number. Outside, `x` is still a text. -/
theorem Program.verify_replaced_shadowing :
    let condition : Condition :=
      ⟨⟨.literal .integer ⟨"1", ⟨1, 37⟩⟩, ⟨"panas", ⟨1, 39⟩⟩, .literal .integer ⟨"1", ⟨1, 45⟩⟩⟩,
        none⟩
    let body (name value : String) : Block :=
      .last (.assignment ⟨⟨name, ⟨1, 51⟩⟩, .value (.literal .integer ⟨value, ⟨1, 61⟩⟩)⟩)
    let p : Program :=
      ⟨[⟨⟨"x", ⟨1, 1⟩⟩, .value (.literal .text ⟨"ツaツ", ⟨1, 11⟩⟩)⟩], [],
        ⟨⟨1, 16⟩, .more (.branch ⟨1, 30⟩ condition (body "y" "1"))
          (.last (.return ⟨1, 67⟩ (some (.value (.identifier ⟨"x", ⟨1, 76⟩⟩)))))⟩⟩
    let new : Tree := ((Tree.inner .ifBranch ⟨1, 30⟩
      [condition.tree, (body "x" "2").tree]).numberFrom 100).1
    let replaced := p.tree.replace [1, 0, 0, 0, 0] new
    (∃ old, p.tree.at? [1, 0, 0, 0, 0] = some old ∧ old.root.kind = .ifBranch) ∧
      replaced.ids.Nodup ∧ ∃ s s', p.tree.verify = .ok (p.tree.checked, s) ∧
        replaced.verify = .ok (p.tree.checked.replace [1, 0, 0, 0, 0] new.checked, s') ∧
        s'.table = s.table := by
  intro condition body p new replaced
  have place : (p.tree.at? [1, 0, 0, 0, 0]).map (·.root.kind) = some .ifBranch := by decide
  obtain ⟨old, place, kind⟩ := Option.map_eq_some_iff.mp place
  have ids : replaced.ids.Nodup := by decide
  obtain ⟨s, verified⟩ := Tree.ok_of_verdict (show p.tree.verdict.1 = none by decide +kernel)
  obtain ⟨s₀, -, -, onward⟩ := verify_replaced verified place (by rw [kind]; decide)
    (kind.symm ▸ rfl : new.root.kind = old.root.kind) ids
  have type : (p.tree.checked.at? [1, 0, 0, 0, 0]).map Tree.type = some new.checked.type := by
    decide +kernel
  obtain ⟨s₁, checked⟩ : ∃ s₁, Typing.check new s₀ = .ok (new.checked, s₁) := ⟨_, rfl⟩
  obtain ⟨s', again, table⟩ := onward _ s₁ checked type
  exact ⟨⟨old, place, kind⟩, ids, s, s', verified, again, table⟩

end Mamuth
