-- The soundness of a check: the tree that it leaves is well typed. Each node gets its type from
-- what is known when the node is left, and the rule that it keeps then it keeps to the end.
import Mamuth.Proofs.KnownTypes
import Mamuth.Proofs.Untyped

namespace Mamuth

namespace Typing

/-! ## Children in their places -/

/-- What a place makes sure of, besides the check of the child. -/
def Place.Settles (place : Place) (f : Settled) (child : Node) : Prop :=
  match place with
  | argument => f.KnownValue child
  | compared => f.Known child
  | operand => f.Numeric child
  | skipped | plain | parameter => True

/-- All nodes have the types that the state has for them. -/
def Recorded (s : State) (t : Tree) : Prop :=
  ∀ n ∈ t.nodes, ∃ type, n.type = some type ∧ s.types[n.id]? = some type

/-- By what is settled in the end, a checked tree keeps the rules. -/
structure Sound (S : State) (around : List Nat) (t : Tree) : Prop where
  wellTyped : t.WellTyped S.settled around
  recorded : Recorded S t

/-- The check of a tree gives a sound one, whatever comes after it. -/
def ChecksSoundly (S : State) (t : Tree) : Prop :=
  ∀ (around : List Nat) (s s' : State) (t' : Tree), Ready s around t.ids →
    check t s = .ok (t', s') → Later s' S → Sound S around t'

theorem recorded_typed {S : State} {c : Tree} {type : Ty} (leaf : c.children = [])
    (h : S.types[c.root.id]? = some type) : Recorded S (c.typed type) := by
  intro n hn
  obtain ⟨root, children⟩ := c
  obtain rfl : children = [] := leaf
  obtain rfl : n = { root with type := some type } := by
    simpa [Tree.nodes, Tree.typed, Tree.subtrees, Tree.subtreesAll, Tree.root, Tree.children]
      using hn
  exact ⟨type, rfl, h⟩

theorem sound_identifier {S : State} {around : List Nat} {root : Node}
    (hk : root.kind = .identifier) (recorded : S.types[root.id]? = some .any) :
    Sound S around (.node { root with type := some .any } []) where
  wellTyped := .node (.own (by simp [hk, Node.Kind.ownType?]) (by simp [hk, Node.Kind.ownType?]))
    (by simp)
  recorded := recorded_typed (c := .node root []) rfl recorded

/-- A parameter is declared before its check, so that its number is not fresh there. -/
theorem sound_parameter {S : State} {around : List Nat} {c c' : Tree} {s s' : State}
    (hl : c.LaidOut) (hk : c.root.kind = .identifier) (untyped : s.types[c.root.id]? = none)
    (hx : Place.parameter.around c (check c) s = .ok (c', s')) (later : Later s' S) :
    Later s s' ∧ Sound S around c' := by
  obtain ⟨root, children⟩ := c
  obtain rfl : children = [] := Tree.children_of_isLeaf hl (by rw [hk]; rfl)
  change root.kind = .identifier at hk
  obtain ⟨_, s₁, hd, hx⟩ := Step.bind_ok.mp hx
  cases hd
  rw [check_leaf (by rw [hk]; rfl), show typeFrom root [] = .any by rw [typeFrom, hk]] at hx
  cases hx
  refine ⟨later_insert untyped rfl rfl, sound_identifier hk (later.types _ _ ?_)⟩
  exact (getElem?_insert_type _ _ _ _).trans (if_pos rfl)

/-- A look-up before the check of a tree changes nothing for it. -/
theorem ChecksSoundly.afterLookUp {S : State} {around : List Nat} {c c' : Tree} {s s₁ s' : State}
    (on : ChecksSoundly S c) (hl : c.LaidOut) (nodup : c.ids.Nodup) (ready : Ready s around c.ids)
    (same : SameButHistory s s₁) (before : Later s s₁) (hx : check c s₁ = .ok (c', s'))
    (later : Later s' S) :
    Later s s' ∧ Later s₁ S ∧ Sound S around c' ∧
      c'.root.id = c.root.id ∧ c'.root.kind = c.root.kind := by
  have ready₁ := ready.sameButHistory same
  have after := ready₁.later hl nodup hx
  exact ⟨before.trans after, after.trans later, on around s₁ s' c' ready₁ hx later,
    Tree.root_of_untyped (check_ok c ready₁.bounded hx).untyped⟩

section

variable {S : State} (once : (S.lookUps.map (·.id)).Nodup) {around : List Nat}
include once

theorem ChecksSoundly.inPlace {c c' : Tree} (on : ChecksSoundly S c) (hl : c.LaidOut)
    (nodup : c.ids.Nodup) {place : Place} (hp : place ≠ .skipped)
    (name : place = .parameter → c.root.kind = .identifier) {s s' : State}
    (ready : Ready s around c.ids) (hx : place.around c (check c) s = .ok (c', s'))
    (later : Later s' S) :
    Later s s' ∧ Sound S around c' ∧ place.Settles S.settled c'.root := by
  cases place with
  | skipped => exact absurd rfl hp
  | plain => exact ⟨ready.later hl nodup hx, on around s s' c' ready hx later, trivial⟩
  | parameter =>
    have untyped := (ready.fresh c.root.id c.id_mem_ids).1
    exact (sound_parameter hl (name rfl) untyped hx later).imp_right fun sound => ⟨sound, trivial⟩
  | argument =>
    obtain ⟨_, s₁, hr, hx⟩ := Step.bind_ok.mp hx
    have asked := Step.leaving_ok.mp hr
    have same := refuseFunction_ok asked
    have before := (traces_refuseFunction ready.bounded c.root).later asked same.2
    obtain ⟨whole, rest, sound, id, kind⟩ := on.afterLookUp hl nodup ready same before hx later
    exact ⟨whole, sound, (refuseFunction_settled ready.bounded once asked rest).congr id kind⟩
  | compared =>
    obtain ⟨named, s₁, hr, hx⟩ := Step.bind_ok.mp hx
    have asked := Step.leaving_ok.mp hr
    have same := lookUpIfNamed_ok asked
    have before := (traces_lookUpIfNamed ready.bounded c.root).later asked same.2
    obtain ⟨whole, rest, sound, id, kind⟩ := on.afterLookUp hl nodup ready same before hx later
    exact ⟨whole, sound, (known_of_lookUpIfNamed ready.bounded once asked rest).congr id kind⟩
  | operand =>
    obtain ⟨child, s₁, hc, hx⟩ := Step.bind_ok.mp hx
    obtain ⟨_, s₂, hr, hx⟩ := Step.bind_ok.mp hx
    cases hx
    have asked := Step.leaving_ok.mp hr
    have checked := check_ok c ready.bounded hc
    have bounded : s₁.table.Bounded := by
      rw [checked.table]
      exact ready.bounded.adding fun y hy => (mem_declared _ c hy).1
    have after := (traces_requireNumeric bounded c').later asked (requireNumeric_ok asked).2
    exact ⟨(ready.later hl nodup hc).trans after,
      on around s s₁ c' ready hc (after.trans later),
      requireNumeric_settled bounded once asked later⟩

/-- Trees next to each other are sound if each is, in its place. -/
theorem ChecksSoundly.all {place : Nat → Place} {ts ts' : List Tree}
    (on : ∀ c ∈ ts, ChecksSoundly S c) (hl : ∀ c ∈ ts, c.LaidOut)
    (name : ∀ i c, ts[i]? = some c → place i = .parameter → c.root.kind = .identifier)
    (nodup : (Tree.idsAll ts).Nodup) {s s' : State}
    (ready : ∀ i c, ts[i]? = some c → place i ≠ .skipped → Ready s around c.ids)
    (hx : checkAll place ts s = .ok (ts', s')) (later : Later s' S) :
    Later s s' ∧ ∀ i c', ts'[i]? = some c' → place i ≠ .skipped →
      Sound S around c' ∧ (place i).Settles S.settled c'.root := by
  induction ts generalizing place s ts' with
  | nil =>
    cases hx
    exact ⟨Later.refl _, fun i c' hc => by cases hc⟩
  | cons c cs ih =>
    rw [List.forall_mem_cons] at on hl
    rw [Tree.idsAll_cons] at nodup
    obtain ⟨nodupFirst, nodupRest, disjoint⟩ := List.nodup_append.mp nodup
    obtain ⟨first, s₁, rest, hc, hr, rfl⟩ := checkAll_cons_ok.mp hx
    have readyRest : ∀ i c', cs[i]? = some c' → place (i + 1) ≠ .skipped →
        Ready s₁ around c'.ids := by
      intro i c' hc' hp'
      by_cases hp : place 0 = .skipped
      · rw [hp] at hc
        cases hc
        exact ready (i + 1) c' hc' hp'
      · refine (ready (i + 1) c' hc' hp').behind (ready 0 c rfl hp) hl.1 hp ?_ hc
        intro j hj hi
        exact disjoint j hi j (List.mem_flatMap.mpr ⟨c', List.mem_of_getElem? hc', hj⟩) rfl
    obtain ⟨after, sound⟩ := ih on.2 hl.2 (fun i c' => name (i + 1) c') nodupRest readyRest hr
    by_cases hp : place 0 = .skipped
    · rw [hp] at hc
      cases hc
      refine ⟨after, fun i c' hi hpi => ?_⟩
      rcases i with _ | i
      · exact absurd hp hpi
      · exact sound i c' hi hpi
    · obtain ⟨before, own⟩ := on.1.inPlace once hl.1 nodupFirst hp (name 0 c rfl)
        (ready 0 c rfl hp) hc (after.trans later)
      refine ⟨before.trans after, fun i c' hi hpi => ?_⟩
      rcases i with _ | i
      · cases hi
        exact own
      · exact sound i c' hi hpi

end

/-! ## Leaving a node -/

section

variable {root : Node} {named : Option Symbol} {s s' : State}

theorem leave_assignment {target value t : Tree} (hk : root.kind = .assignment)
    (h : leave root named [target, value] s = .ok (t, s')) :
    t = .node { root with type := some value.type } [target.typed value.type, value] ∧
      s'.lookUps = s.lookUps ∧
      s'.types = (s.types.insert target.root.id value.type).insert root.id value.type := by
  simp only [leave, hk] at h
  cases h
  exact ⟨rfl, rfl, rfl⟩

theorem leave_comparison {left sign right t : Tree} (hk : root.kind = .comparison)
    (h : leave root named [left, sign, right] s = .ok (t, s')) :
    ∃ common, left.type.Meet right.type common ∧
      t = .node { root with type := some .boolean } [left, sign.typed common, right] ∧
      s'.lookUps = s.lookUps ∧
      s'.types = (s.types.insert sign.root.id common).insert root.id .boolean := by
  simp only [leave, hk] at h
  cases hc : left.type.common? right.type with
  | none =>
    rw [hc] at h
    cases h
  | some common =>
    rw [hc] at h
    cases h
    exact ⟨common, Ty.common?_eq_some.mp hc, rfl, rfl, rfl⟩

/-- Any other node gets its type and nothing else happens to the types. -/
theorem leave_other {children : List Tree} {t : Tree} (ha : root.kind ≠ .assignment)
    (hc : root.kind ≠ .comparison) (hb : root.kind.opensBlock → named = none)
    (h : leave root named children s = .ok (t, s')) :
    ∃ type, type = (named.map fun y => (s.typeOf? y).getD .any).getD (typeFrom root children) ∧
      t = .node { root with type := some type } children ∧ s'.lookUps = s.lookUps ∧
      s'.types = s.types.insert root.id type := by
  by_cases block : root.kind.opensBlock
  · rw [leave_block block] at h
    cases h
    rw [hb block]
    exact ⟨_, rfl, rfl, by simp [State.lookUps], rfl⟩
  · generalize hx : leave root named children = step at h
    unfold leave at hx
    split at hx <;> subst hx
    case h_8 =>
      cases named <;>
      · cases h
        exact ⟨_, rfl, rfl, rfl, rfl⟩
    all_goals simp_all [Node.Kind.opensBlock]

end

/-- Children that are skipped get no types from the walk. -/
theorem checkAll_frame {place : Nat → Place} {ts ts' : List Tree} {s s' : State}
    (hb : s.table.Bounded) (h : checkAll place ts s = .ok (ts', s')) {i : Nat}
    (apart : ∀ j c, ts[j]? = some c → place j ≠ .skipped → i ∉ c.ids) :
    s'.types[i]? = s.types[i]? := by
  induction ts generalizing place s ts' with
  | nil =>
    cases h
    rfl
  | cons c cs ih =>
    obtain ⟨c', s₁, cs', hc, hr, rfl⟩ := checkAll_cons_ok.mp h
    obtain ⟨-, table, frame⟩ := Place.around_ok (fun hb h => check_ok c hb h) hb hc
    have bounded : s₁.table.Bounded := by
      rw [table]
      exact hb.adding fun y hy => (Place.mem_declared hy (mem_declared _ c)).1
    rw [ih bounded hr fun j c hj => apart (j + 1) c hj]
    by_cases hp : place 0 = .skipped
    · rw [hp] at hc
      cases hc
      rfl
    · exact frame i (apart 0 c rfl hp)

/-! ## Nodes and their rules -/

theorem Sound.type {S : State} {around : List Nat} {t : Tree} (h : Sound S around t) :
    t.root.type = some t.type := by
  obtain ⟨type, ht, -⟩ := h.recorded t.root (by
    obtain ⟨root, children⟩ := t
    simp [Tree.nodes, Tree.subtrees, Tree.root])
  rw [Tree.type, ht]
  rfl

/-- A node is sound if it keeps its rule and the trees below it are. -/
theorem Sound.node {S : State} {around : List Nat} {root : Node} {children : List Tree} {type : Ty}
    (rule : TypeRule S.settled around { root with type := some type } children)
    (own : S.types[root.id]? = some type)
    (below : ∀ i c, children[i]? = some c → root.kind.typesChild i = false →
      Sound S (root.id :: around) c)
    (given : ∀ i c, children[i]? = some c → root.kind.typesChild i = true → Recorded S c) :
    Sound S around (.node { root with type := some type } children) where
  wellTyped := .node rule fun i c hc hi => (below i c hc hi).wellTyped
  recorded n hn := by
    obtain ⟨t, ht, rfl⟩ := List.mem_map.mp hn
    rcases List.mem_cons.mp ht with rfl | ht
    · exact ⟨type, rfl, own⟩
    · obtain ⟨c, hc, ht⟩ := Tree.mem_subtreesAll.mp ht
      obtain ⟨i, hi⟩ := List.getElem?_of_mem hc
      have recorded : Recorded S c := by
        cases h : root.kind.typesChild i with
        | false => exact (below i c hi h).recorded
        | true => exact given i c hi h
      exact recorded t.root (List.mem_map_of_mem ht)

theorem typeFrom_own {root : Node} (h : root.kind.ownType?.isSome) (children : List Tree) :
    root.kind.ownType? = some (typeFrom root children) := by
  cases hk : root.kind <;> simp_all [Node.Kind.ownType?, typeFrom]

section

variable {S : State} {around : List Nat} {root : Node} {children : List Tree}

theorem typeRule_opensBlock (hl : (Tree.node root children).LaidOut) (block : root.kind.opensBlock)
    (typed : ∀ c ∈ children, c.root.type = some c.type) :
    TypeRule S.settled around { root with type := some (typeFrom root children) } children := by
  obtain ⟨b, hb, hbk⟩ := hl.block (of_decide_eq_true block)
  obtain ⟨first, hf⟩ := Option.isSome_iff_exists.mp (List.find?_isSome.mpr
    ⟨b, hb, decide_eq_true hbk⟩ : (children.find? (·.root.kind = .instructionBlock)).isSome)
  have mem := List.mem_of_find?_eq_some hf
  have firstKind : first.root.kind = .instructionBlock := by simpa using List.find?_some hf
  have from_block : typeFrom root children = first.type := by
    cases kind : root.kind <;> rw [kind] at block <;>
      first
      | exact absurd block (by decide)
      | simp [typeFrom, kind, hf]
  refine .withBlock block mem firstKind ?_
  rw [from_block, typed first mem]

/-- The rule of a node that looks nothing up. -/
theorem typeRule_typeFrom (hl : (Tree.node root children).LaidOut)
    (hk : root.kind ∉ [.assignment, .comparison, .invocation, .return])
    (inside : ∀ i c, children[i]? = some c → Sound S (root.id :: around) c ∧
      (Place.of root.kind i).Settles S.settled c.root) :
    TypeRule S.settled around { root with type := some (typeFrom root children) } children := by
  have typed : ∀ c ∈ children, c.root.type = some c.type := fun c hc => by
    obtain ⟨i, hi⟩ := List.getElem?_of_mem hc
    exact (inside i c hi).1.type
  by_cases own : root.kind.ownType?.isSome
  · exact .own own (typeFrom_own own children).symm
  by_cases block : root.kind.opensBlock
  · exact typeRule_opensBlock hl block typed
  have which : root.kind = .comparator ∨ root.kind = .mathExpression ∨
      root.kind = .invocationArguments ∨ root.kind = .instruction ∨
      root.kind = .instructionBlock := by
    cases h : root.kind <;> simp_all [Node.Kind.ownType?, Node.Kind.opensBlock]
  rcases which with kind | kind | kind | kind | kind
  · obtain rfl : children = [] := Tree.children_of_isLeaf hl (by rw [Tree.root, kind]; rfl)
    refine .comparator kind ?_
    rw [typeFrom, kind]
    rfl
  · refine .mathExpression kind (fun c hc => ?_) (by rw [typeFrom, kind])
    obtain ⟨i, hi⟩ := List.getElem?_of_mem hc
    have settles := (inside i c hi).2
    rwa [kind] at settles
  · refine .invocationArguments kind (fun c hc => ?_) (by rw [typeFrom, kind])
    obtain ⟨i, hi⟩ := List.getElem?_of_mem hc
    have settles := (inside i c hi).2
    rwa [kind] at settles
  · obtain ⟨content, rfl⟩ := hl.instruction kind
    refine .instruction kind ?_
    rw [typed content (by simp), typeFrom, kind]
    rfl
  · exact .instructionBlock kind (endsIn_typeOfBlock children) (by rw [typeFrom, kind])

end

/-! ## Whole trees -/

section

variable {S : State} {around : List Nat} {root : Node} {children children' : List Tree}
  {named : Option Symbol} {s s₁ s₂ s' : State} {t : Tree}
  (once : (S.lookUps.map (·.id)).Nodup) (hl : (Tree.node root children).LaidOut)
  (nodup : (Tree.node root children).ids.Nodup) (on : ∀ c ∈ children, ChecksSoundly S c)
  (ready : Ready s around (Tree.node root children).ids)
  (entered : enter root children s = .ok (named, s₁))
  (walked : checkAll (Place.of root.kind) children s₁ = .ok (children', s₂))

include once hl nodup on ready entered walked in
theorem sound_children (later : Later s₂ S) :
    Later s₁ S ∧ ∀ i c, children'[i]? = some c → Place.of root.kind i ≠ .skipped →
      Sound S (root.id :: around) c ∧ (Place.of root.kind i).Settles S.settled c.root := by
  have inner : (Tree.idsAll children).Nodup := by
    rw [Tree.ids_node] at nodup
    exact (List.nodup_cons.mp nodup).2
  have name : ∀ i c, children[i]? = some c → Place.of root.kind i = .parameter →
      c.root.kind = .identifier := fun i c hc hp =>
    hl.parameters (parameter_of_place hp) c (List.mem_of_getElem? hc)
  obtain ⟨before, sound⟩ := ChecksSoundly.all once on hl.child name inner
    (fun i c hc hp => ready.below nodup entered hc hp) walked later
  exact ⟨before.trans later, sound⟩

include nodup ready entered walked in
/-- Before a node is left, it has no type. -/
theorem untyped_root : s₂.types[root.id]? = none := by
  rw [Tree.ids_node, List.nodup_cons] at nodup
  rw [checkAll_frame (enter_bounded ready.bounded entered) walked, (enter_ok entered).1]
  · exact (ready.fresh _ (by simp)).1
  · exact fun j c hc _ hi => nodup.1 (List.mem_flatMap.mpr ⟨c, List.mem_of_getElem? hc, hi⟩)

include nodup ready entered walked in
/-- Before a node is left, a child that is skipped has no type. -/
theorem untyped_skipped {i : Nat} {c : Tree} (hc : children[i]? = some c)
    (hp : Place.of root.kind i = .skipped) :
    s₂.types[c.root.id]? = none ∧ c.root.id ≠ root.id := by
  rw [Tree.ids_node, List.nodup_cons] at nodup
  have below : c.root.id ∈ Tree.idsAll children :=
    List.mem_flatMap.mpr ⟨c, List.mem_of_getElem? hc, c.id_mem_ids⟩
  refine ⟨?_, fun same => nodup.1 (same ▸ below)⟩
  rw [checkAll_frame (enter_bounded ready.bounded entered) walked, (enter_ok entered).1]
  · exact (ready.fresh _ (by simp [below])).1
  · intro j d hd hpd hi
    have other : i ≠ j := fun same => hpd (same ▸ hp)
    exact Tree.disjoint_ids nodup.2 hc hd other c.id_mem_ids hi

include once hl nodup on ready entered walked in
theorem sound_assignment (hk : root.kind = .assignment)
    (hx : leave root named children' s₂ = .ok (t, s')) (later : Later s' S) : Sound S around t := by
  obtain ⟨target, value, rfl, targetKind, -⟩ := hl.assignment hk
  obtain ⟨length, same⟩ := checkAll_skipped walked
  obtain ⟨_, value', rfl⟩ := List.length_eq_two.mp length
  cases same 0 (by rw [hk]; rfl)
  obtain ⟨rfl, looked, given⟩ := leave_assignment hk hx
  obtain ⟨targetUntyped, apart⟩ := untyped_skipped nodup ready entered walked (i := 0) rfl
    (by rw [hk]; rfl)
  obtain ⟨last, targetTyped, rootTyped⟩ := later_insert_insert targetUntyped
    (untyped_root nodup ready entered walked) apart looked given
  obtain ⟨before, inside⟩ := sound_children once hl nodup on ready entered walked (last.trans later)
  have sound := (inside 1 value' rfl (by rw [hk]; decide)).1
  obtain ⟨id, kind⟩ : value'.root.id = value.root.id ∧ value'.root.kind = value.root.kind := by
    have untyped := (checkAll_ok _ _ (enter_bounded ready.bounded entered) walked).untyped
    simp only [List.map_cons, List.cons.injEq] at untyped
    exact Tree.root_of_untyped untyped.2.1
  have known := (enter_assignment ready.bounded once hk entered before).congr id kind
  refine Sound.node (.assignment hk known ?_ sound.type.symm) (later.types _ _ rootTyped) ?_ ?_
  · exact sound.type.symm
  · intro i c hc hi
    rcases i with _ | _ | i <;> cases hc
    · simp [hk, Node.Kind.typesChild] at hi
    · exact sound
  · intro i c hc hi
    rcases i with _ | _ | i <;> cases hc
    · exact recorded_typed (Tree.children_of_isLeaf (hl.child target (by simp))
        (by rw [targetKind]; rfl)) (later.types _ _ targetTyped)
    · simp [hk, Node.Kind.typesChild] at hi

include once hl nodup on ready entered walked in
theorem sound_comparison (hk : root.kind = .comparison)
    (hx : leave root named children' s₂ = .ok (t, s')) (later : Later s' S) : Sound S around t := by
  obtain ⟨left, sign, right, rfl, -, signKind, -⟩ := hl.comparison hk
  obtain ⟨length, same⟩ := checkAll_skipped walked
  obtain ⟨left', _, right', rfl⟩ := List.length_eq_three.mp length
  cases same 1 (by rw [hk]; rfl)
  obtain ⟨common, meet, rfl, looked, given⟩ := leave_comparison hk hx
  obtain ⟨signUntyped, apart⟩ := untyped_skipped nodup ready entered walked (i := 1) rfl
    (by rw [hk]; rfl)
  obtain ⟨last, signTyped, rootTyped⟩ := later_insert_insert signUntyped
    (untyped_root nodup ready entered walked) apart looked given
  obtain ⟨-, inside⟩ := sound_children once hl nodup on ready entered walked (last.trans later)
  rw [hk] at inside
  obtain ⟨soundLeft, knownLeft⟩ := inside 0 left' rfl (by decide)
  obtain ⟨soundRight, knownRight⟩ := inside 2 right' rfl (by decide)
  refine Sound.node (.comparison hk knownLeft knownRight meet rfl rfl)
    (later.types _ _ rootTyped) ?_ ?_
  · intro i c hc hi
    rcases i with _ | _ | _ | i <;> cases hc
    · exact soundLeft
    · simp [hk, Node.Kind.typesChild] at hi
    · exact soundRight
  · intro i c hc hi
    rcases i with _ | _ | _ | i <;> cases hc
    · simp [hk, Node.Kind.typesChild] at hi
    · exact recorded_typed (Tree.children_of_isLeaf (hl.child sign (by simp))
        (by rw [signKind]; rfl)) (later.types _ _ signTyped)
    · simp [hk, Node.Kind.typesChild] at hi

include ready entered walked in
/-- The type of a name is the same before and after the children are checked. -/
theorem typeFrom?_named {name : String} {y : Symbol} (hy : s.find? name = some y)
    (later : Later s₁ S) :
    some ((s₂.typeOf? y).getD .any) = S.settled.typeFrom? around y := by
  have frame : ∀ i ∉ (Tree.node root children).ids, s₂.types[i]? = s.types[i]? := by
    intro i hi
    rw [Tree.ids_node, List.mem_cons, not_or] at hi
    rw [(checkAll_ok _ _ (enter_bounded ready.bounded entered) walked).frame i hi.2,
      (enter_ok entered).1]
  rw [ready.fresh.keeps frame y (SymbolTable.of_find?_eq_some hy).1]
  have before : Later s s₁ :=
    (traces_enter ready.bounded root children).later entered (enter_ok entered).1
  exact (ready.typeFrom? (before.trans later) hy).symm

include once ready entered walked in
theorem typeRule_invocation (hk : root.kind = .invocation) (later : Later s₁ S)
    (laidOut : (Tree.node root children').LaidOut)
    (same : children'.map Tree.untyped = children.map Tree.untyped) {type : Ty}
    (ht : type = (named.map fun y => (s₂.typeOf? y).getD .any).getD (typeFrom root children')) :
    TypeRule S.settled around { root with type := some type } children' := by
  obtain ⟨callee', rest', rfl, -, -⟩ := laidOut.invocation hk
  obtain ⟨callee, rest, rfl, hu, -⟩ := List.map_eq_cons_iff.mp same.symm
  obtain ⟨y, rfl, category, hy, stands⟩ := enter_invocation ready.bounded once hk entered later
  rw [(Tree.root_of_untyped hu).1] at stands
  refine .invocation hk stands category ?_
  rw [ht]
  exact typeFrom?_named ready entered walked hy later

include once ready entered walked in
theorem typeRule_return (hk : root.kind = .return) (later : Later s₁ S)
    (laidOut : (Tree.node root children').LaidOut)
    (same : children'.map Tree.untyped = children.map Tree.untyped)
    (typed : ∀ c ∈ children', c.root.type = some c.type) {type : Ty}
    (ht : type = (named.map fun y => (s₂.typeOf? y).getD .any).getD (typeFrom root children')) :
    TypeRule S.settled around { root with type := some type } children' := by
  obtain rfl | ⟨value', rfl, -⟩ := laidOut.return hk
  · obtain rfl : children = [] := by simpa using same.symm
    rw [enter_return_nothing hk entered] at ht
    refine .returnNothing hk ?_
    rw [ht, Option.map_none, Option.getD_none, typeFrom, hk]
    rfl
  · obtain ⟨value, rfl, hu⟩ := List.map_eq_singleton_iff.mp same.symm
    obtain ⟨id, kind⟩ := Tree.root_of_untyped hu
    have looked : lookUpIfNamed value.root s = .ok (named, s₁) := by
      simpa only [enter, hk] using entered
    obtain ⟨found, nothing⟩ := lookUpIfNamed_settled ready.bounded once looked later
    by_cases hv : value.root.kind = .identifier
    · obtain ⟨y, rfl, hy, stands⟩ := found hv
      rw [id] at stands
      refine .returnName hk (kind ▸ hv) stands ?_
      rw [ht]
      exact typeFrom?_named ready entered walked hy later
    · rw [nothing hv] at ht
      refine .returnValue hk (kind ▸ hv) ?_
      rw [ht, typed value' (by simp), Option.map_none, Option.getD_none, typeFrom, hk]
      rfl

include once hl nodup on ready entered walked in
theorem sound_other (ha : root.kind ≠ .assignment) (hc : root.kind ≠ .comparison)
    (hx : leave root named children' s₂ = .ok (t, s')) (later : Later s' S) : Sound S around t := by
  have block : root.kind.opensBlock → named = none := fun hb => enter_unnamed
    (by cases h : root.kind <;> simp_all [Node.Kind.opensBlock]) entered
  obtain ⟨type, ht, rfl, looked, given⟩ := leave_other ha hc block hx
  have last : Later s₂ s' := later_insert (untyped_root nodup ready entered walked) looked given
  have rootTyped : s'.types[root.id]? = some type := by rw [given, getElem?_insert_type, if_pos rfl]
  obtain ⟨before, sound⟩ := sound_children once hl nodup on ready entered walked (last.trans later)
  have same := (checkAll_ok _ _ (enter_bounded ready.bounded entered) walked).untyped
  have laidOut : (Tree.node root children').LaidOut :=
    hl.of_untyped (by rw [Tree.untyped_node, Tree.untyped_node, same])
  have inside : ∀ i c, children'[i]? = some c → Sound S (root.id :: around) c ∧
      (Place.of root.kind i).Settles S.settled c.root := fun i c hi =>
    sound i c hi fun hp => by
      rcases laidOut.skipped hi hp with ⟨_, hk, -⟩ | ⟨_, _, hk, -⟩
      · exact ha hk
      · exact hc hk
  refine Sound.node ?_ (later.types _ _ rootTyped) (fun i c hi _ => (inside i c hi).1)
    fun i c hi _ => (inside i c hi).1.recorded
  by_cases hi : root.kind = .invocation
  · exact typeRule_invocation once ready entered walked hi before laidOut same ht
  by_cases hr : root.kind = .return
  · refine typeRule_return once ready entered walked hr before laidOut same (fun c hm => ?_) ht
    obtain ⟨i, hi⟩ := List.getElem?_of_mem hm
    exact (inside i c hi).1.type
  · rw [enter_unnamed (by simp [hi, hr]) entered] at ht
    rw [ht]
    exact typeRule_typeFrom laidOut (by simp [ha, hc, hi, hr]) inside

end

theorem checksSoundly {S : State} (once : (S.lookUps.map (·.id)).Nodup) {t : Tree}
    (hl : t.LaidOut) (nodup : t.ids.Nodup) : ChecksSoundly S t := by
  induction t using Tree.ofChildren with
  | step root children ih =>
    intro around s s' t' ready hx later
    have inner : (Tree.idsAll children).Nodup := by
      rw [Tree.ids_node] at nodup
      exact (List.nodup_cons.mp nodup).2
    have on : ∀ c ∈ children, ChecksSoundly S c := fun c hc =>
      ih c hc (hl.child c hc) ((List.nodup_flatMap.mp inner).1 c hc)
    rw [check] at hx
    obtain ⟨named, s₁, he, hx⟩ := Step.bind_ok.mp hx
    obtain ⟨children', s₂, hc, hx⟩ := Step.bind_ok.mp hx
    have entered := Step.leaving_ok.mp he
    have walked := Step.leaving_ok.mp hc
    by_cases ha : root.kind = .assignment
    · exact sound_assignment once hl nodup on ready entered walked ha hx later
    by_cases hc : root.kind = .comparison
    · exact sound_comparison once hl nodup on ready entered walked hc hx later
    · exact sound_other once hl nodup on ready entered walked ha hc hx later

/-! ## What is left in the end -/

theorem Recorded.typeAt? {s : State} {t : Tree} (h : Recorded s t) {id : Nat}
    (outside : id ∉ t.ids → s.types[id]? = none) : t.typeAt? id = s.types[id]? := by
  rw [Tree.typeAt?]
  cases found : t.nodes.find? (·.id = id) with
  | none =>
    rw [outside]
    · rfl
    · intro hi
      obtain ⟨n, hn, same⟩ := List.mem_map.mp hi
      exact absurd same (by simpa using List.find?_eq_none.mp found n hn)
  | some n =>
    obtain ⟨type, ht, hs⟩ := h n (List.mem_of_find?_eq_some found)
    have same : n.id = id := by simpa using List.find?_some found
    rw [Option.bind_some, ht, ← same, hs]

/-- The tree says of itself what the state says in the end. -/
theorem settled_eq {s : State} {t : Tree} (recorded : Recorded s t)
    (outside : ∀ i ∉ t.ids, s.types[i]? = none) (looked : s.lookUps = t.resolutions) :
    s.settled = t.settled := by
  rw [State.settled, Tree.settled, looked]
  congr 1
  funext y
  unfold State.typeOf?
  cases y.declaration with
  | builtin type => rfl
  | node id => exact (recorded.typeAt? (outside id)).symm

theorem ready_start (ids : List Nat) : Ready .start [] ids where
  bounded := bounded_start
  fresh := fresh_start ids
  apart := by simp
  pending := by simp
  unsettled y hy _ ht := by
    obtain ⟨type, hd⟩ := builtin_start y hy
    rw [State.typeOf?, hd] at ht
    cases ht

end Typing

/-! ## Programs -/

/-- A check that succeeds gives each node of a program its type, and leaves the rest of the tree
as it was. The types keep the rules, where names stand for what the scoping of the tree says and
declarations have the types that are left in the tree. -/
theorem Program.verify_wellTyped {p : Program} {t : Tree} {s : Typing.State}
    (h : p.tree.verify = .ok (t, s)) :
    t.untyped = p.tree.untyped ∧ (∀ n ∈ t.nodes, n.type.isSome) ∧ t.WellTyped t.settled [] := by
  have checked := Typing.check_ok p.tree Typing.bounded_start h
  have looked : s.lookUps = p.tree.resolutions := by
    have traces := p.traces_check
    rw [show Typing.check p.tree .start = .ok (t, s) from h] at traces
    exact traces.1
  have once : (s.lookUps.map (·.id)).Nodup := by
    rw [looked]
    exact p.tree.ids_resolutions.nodup p.nodup_ids_tree
  have sound := Typing.checksSoundly once p.laidOut_tree p.nodup_ids_tree [] .start s t
    (Typing.ready_start _) h (Typing.Later.refl s)
  have same : s.settled = t.settled := by
    refine Typing.settled_eq sound.recorded (fun i hi => ?_) ?_
    · rw [checked.frame i (Tree.ids_of_untyped checked.untyped ▸ hi)]
      rfl
    · rw [looked]
      exact (Tree.resolutions_of_untyped p.laidOut_tree p.nodup_ids_tree rfl checked.untyped).symm
  refine ⟨checked.untyped, fun n hn => ?_, same ▸ sound.wellTyped⟩
  obtain ⟨type, ht, -⟩ := sound.recorded n hn
  rw [ht]
  rfl

/-- The entry point gives back a variable from the top of the program. -/
theorem Program.verify_wellTyped_variable :
    let leaf (text : String) : Leaf := ⟨text, .start⟩
    let p : Program := ⟨[⟨leaf "x", .value (.literal .integer (leaf "1"))⟩], [],
      ⟨.start, .last (.return .start (some (.value (.identifier (leaf "x")))))⟩⟩
    ∃ t s, p.tree.verify = .ok (t, s) ∧ t.untyped = p.tree.untyped ∧
      (∀ n ∈ t.nodes, n.type.isSome) ∧ t.WellTyped t.settled [] := by
  intro leaf p
  have succeeds : p.tree.verify.toOption.isSome := by decide
  cases h : p.tree.verify with
  | error e =>
    rw [h] at succeeds
    cases succeeds
  | ok r => exact ⟨r.1, r.2, rfl, Program.verify_wellTyped h⟩

end Mamuth
