-- The operands that a check refuses. An operand is refused for its type, with one exception: the
-- name of a function that the operand stands in has no type yet, and is refused although a name
-- of an unknown type would be taken anywhere else.
import Mamuth.Proofs.Failures
import Mamuth.Proofs.Soundness

namespace Mamuth

namespace Typing

/-! ## On the way down -/

/-- The walk has come to nodes of the numbers `ids` below the given nodes. What these declare, as
far as it is in sight, they declare as functions. -/
structure Inside (s : State) (above : List Node) (ids : List Nat) : Prop where
  ready : Ready s (above.map (·.id)) ids
  functions : ∀ y ∈ s.table.symbols, ∀ f ∈ above, y.declaration = .node f.id → f.kind = .function

section

variable {s s' : State} {around : List Nat} {above : List Node}

/-- Next to each other, what has not been met is ready when the walk comes to it. -/
theorem Ready.across {place : Nat → Place} {ts before : List Tree} {i : Nat} {c : Tree}
    (hl : ∀ c ∈ ts, c.LaidOut) (nodup : (Tree.idsAll ts).Nodup)
    (ready : ∀ i c, ts[i]? = some c → place i ≠ .skipped → Ready s around c.ids)
    (walked : checkAll place (ts.take i) s = .ok (before, s')) (hc : ts[i]? = some c)
    (hp : place i ≠ .skipped) : Ready s' around c.ids := by
  induction ts generalizing place s before i with
  | nil => cases hc
  | cons t ts ih =>
    cases i with
    | zero =>
      cases walked
      exact ready 0 c hc hp
    | succ i =>
      rw [Tree.idsAll_cons] at nodup
      obtain ⟨-, nodupRest, disjoint⟩ := List.nodup_append.mp nodup
      rw [List.take_succ_cons] at walked
      obtain ⟨t', s₁, rest, first, others, rfl⟩ := checkAll_cons_ok.mp walked
      refine ih (fun d hd => hl d (.tail _ hd)) nodupRest (fun j d hd hq => ?_) others hc hp
      by_cases skipped : place 0 = .skipped
      · rw [skipped] at first
        cases first
        exact ready (j + 1) d hd hq
      · refine (ready (j + 1) d hd hq).behind (ready 0 t rfl skipped) (hl t (by simp)) skipped ?_
          first
        intro k hk ht
        exact disjoint k ht k (List.mem_flatMap.mpr ⟨d, List.mem_of_getElem? hd, hk⟩) rfl

/-- What a node declares before its children is one of them, or the node itself if it is a
function. -/
theorem declares_of_mem {depth : Nat} {root : Node} {children : List Tree} {y : Symbol}
    (h : y ∈ declaredOnEntry depth root children) :
    (∃ c ∈ children, y.declaration = .node c.root.id) ∨
      root.kind = .function ∧ y.declaration = .node root.id := by
  unfold declaredOnEntry at h
  split at h
  case h_1 target rest _ =>
    cases List.mem_singleton.mp h
    exact .inl ⟨target, by simp, rfl⟩
  case h_2 hk =>
    cases List.mem_singleton.mp h
    exact .inr ⟨hk, rfl⟩
  case h_3 => cases h

/-- A child is inside the node above it. -/
theorem Inside.child {root : Node} {children : List Tree} {i : Nat} {c : Tree}
    (h : Inside s above (Tree.node root children).ids) (hl : (Tree.node root children).LaidOut)
    (nodup : (Tree.node root children).ids.Nodup) (way : ComesTo root children s i c s') :
    Inside s' (root :: above) c.ids := by
  obtain ⟨hp, hc, named, s₁, before, entered, walked⟩ := way
  obtain ⟨apart, below⟩ := List.nodup_cons.mp (Tree.ids_node root children ▸ nodup)
  -- The numbers below the node are none of those on the way to it.
  have unmet : ∀ f ∈ root :: above, f.id ∉ Tree.idsAll children := by
    rintro f (_ | ⟨_, hf⟩) hi
    · exact apart hi
    · exact h.ready.apart f.id (List.mem_map_of_mem hf) (by simp [hi])
  refine ⟨Ready.across hl.child below (fun j d hd hq => h.ready.below nodup entered hd hq) walked
    hc hp, fun y hy f hf hd => ?_⟩
  rw [(checkAll_ok _ _ (enter_bounded h.ready.bounded entered) walked).table] at hy
  rcases List.mem_append.mp hy with hy | hy
  · rw [(enter_symbols entered).2, List.mem_append] at hy
    rcases hy with hy | hy
    · rcases hf with _ | ⟨_, hf⟩
      · exact absurd hd ((h.ready.fresh root.id (by simp)).2 y hy)
      · exact h.functions y hy f hf hd
    · rcases declares_of_mem hy with ⟨c, hc, hdc⟩ | ⟨hk, hdr⟩
      · have same : f.id = c.root.id := Symbol.Declaration.node.inj (hd.symm.trans hdc)
        exact absurd (Tree.map_id_subset _ (List.mem_map.mpr ⟨c, hc, same.symm⟩)) (unmet f hf)
      · rcases hf with _ | ⟨_, hf⟩
        · exact hk
        · have same : f.id = root.id := Symbol.Declaration.node.inj (hd.symm.trans hdr)
          exact absurd (by simp [same]) (h.ready.apart f.id (List.mem_map_of_mem hf))
  · obtain ⟨-, j, hj, hdj⟩ := mem_declaredAll _ _ _ hy
    have same : f.id = j := Symbol.Declaration.node.inj (hd.symm.trans hdj)
    obtain ⟨d, hd, hi⟩ := List.mem_flatMap.mp hj
    exact absurd (List.mem_flatMap.mpr ⟨d, List.mem_of_mem_take hd, same ▸ hi⟩) (unmet f hf)

theorem Inside.sameButHistory {ids : List Nat} (h : Inside s above ids)
    (same : SameButHistory s s') : Inside s' above ids :=
  ⟨h.ready.sameButHistory same, same.1 ▸ h.functions⟩

/-- When a leaf has its type, the nodes above it still have none. -/
theorem Inside.typed {i : Nat} (h : Inside s above [i]) (type : Ty) :
    Inside { s with types := s.types.insert i type } above [] where
  ready :=
    { bounded := h.ready.bounded
      fresh := by simp [Fresh]
      apart := by simp
      pending := fun j hj => by
        have apart : i ≠ j := fun he => h.ready.apart j hj (by simp [he])
        rw [getElem?_insert_type, if_neg apart, h.ready.pending j hj]
      unsettled := fun y hy hc ht => by
        refine h.ready.unsettled y hy hc ?_
        unfold State.typeOf? at ht ⊢
        split at ht
        · exact ht
        · rw [getElem?_insert_type] at ht
          split at ht
          · cases ht
          · exact ht }
  functions := h.functions

/-- Of the names in sight, those of the functions around are the ones without a type. -/
theorem Inside.typeOf?_eq_none {ids : List Nat} (h : Inside s above ids) {name : String}
    {y : Symbol} (hy : s.find? name = some y) :
    s.typeOf? y = none ↔ ∃ f ∈ above, f.kind = .function ∧ y.declaration = .node f.id := by
  obtain ⟨mem, -, -, counts⟩ := SymbolTable.of_find?_eq_some hy
  constructor
  · intro ht
    have category : y.category ≠ .variable := by simpa [ht] using counts
    obtain ⟨i, hi, hd⟩ := h.ready.unsettled y mem category ht
    obtain ⟨f, hf, rfl⟩ := List.mem_map.mp hi
    exact ⟨f, hf, h.functions y mem f hf hd, hd⟩
  · rintro ⟨f, hf, -, hd⟩
    rw [State.typeOf?_node hd]
    exact h.ready.pending f.id (List.mem_map_of_mem hf)

end

/-! ## Down to the operand -/

theorem before_ok {place : Place} {c : Node} {s s' : State} (hp : place ≠ .parameter)
    (h : place.before c s = .ok ((), s')) : SameButHistory s s' := by
  cases place with
  | parameter => exact absurd rfl hp
  | argument => exact refuseFunction_ok h
  | compared =>
    obtain ⟨_, s₁, looked, h⟩ := Step.bind_ok.mp h
    cases h
    exact lookUpIfNamed_ok looked
  | skipped | plain | operand =>
    cases h
    exact ⟨rfl, rfl⟩

/-- Nothing fails at a leaf. -/
theorem not_fails_leaf {root : Node} (hk : root.kind.isLeaf) {s s' : State} {fault : Fault} :
    ¬ Fails (.node root []) s fault s' := by
  intro h
  obtain ⟨id, kind, content, position, type⟩ := root
  change kind.isLeaf at hk
  cases h with
  | entering h => cases kind <;> first | exact absurd hk (by decide) | cases h
  | before way => cases way.2.1
  | inside way => cases way.2.1
  | after way => cases way.2.1
  | leaving entered walked h =>
    cases walked
    cases kind <;> first | exact absurd hk (by decide) | (cases entered; cases h)

/-- Why an operand is refused: a literal for its type, and a name for the type of what it stands
for, or because that is a function around it. -/
structure Refuses (s : State) (o : Occurrence) (found : Ty) : Prop where
  place : o.parentKind? = some .mathExpression
  notNumber : found ≠ .number
  literal : o.node.kind ≠ .identifier → found ≠ .any
  named : o.node.kind = .identifier → ∃ l ∈ s.lookUps, l.id = o.node.id ∧ ∃ y, l.found = some y ∧
    (found = .any ↔ ∃ f ∈ o.above, f.kind = .function ∧ y.declaration = .node f.id)

theorem refuses_of_requireNumeric {s : State} {c : Tree} {above : List Node} (index : Nat)
    {name : String} {found : Ty} {position : Position} {e : Stopped Unit}
    (hk : c.root.kind.isValue ∨ c.root.kind = .operator) (h : Inside s above [])
    (parent : above.head?.map (·.kind) = some .mathExpression)
    (own : c.type = typeFrom c.root []) (failed : requireNumeric c s = .error e)
    (hf : e.fault = .notNumeric name found position) :
    c.root.name = name ∧ c.root.position = position ∧
      Refuses e.state ⟨above, index, c.root⟩ found := by
  rw [requireNumeric_apply] at failed
  split at failed
  · rename_i hk
    split at failed
    · rename_i y hy
      split at failed <;> cases failed
      rename_i refused
      cases hf
      have unknown := h.typeOf?_eq_none hy
      refine ⟨rfl, rfl, parent, ?_, fun other => absurd hk other, fun _ => ?_⟩
      · intro number
        cases ht : s.typeOf? y <;> simp_all [Ty.isNumeric]
      · refine ⟨c.root.lookUp s.known, ?_, rfl, y, ?_, ?_⟩
        · rw [State.lookUps_noting h.ready.bounded]
          simp
        · rw [Node.lookUp, ← State.find?_eq h.ready.bounded, hy]
        · rw [← unknown]
          cases ht : s.typeOf? y <;> simp_all [Ty.isNumeric]
    · cases failed
      cases hf
  · cases failed
  · cases failed
  · rename_i notName notInteger notOperator
    cases failed
    cases hf
    have value : c.type = .text ∨ c.type = .float ∨ c.type = .boolean := by
      rw [own]
      cases kind : c.root.kind <;> simp_all [Node.Kind.isValue, typeFrom]
    refine ⟨rfl, rfl, parent, ?_, fun _ => ?_, fun name => absurd name notName⟩
    · rcases value with h | h | h <;> simp [h]
    · rcases value with h | h | h <;> simp [h]

/-- A check that fails for an operand does so at one in the tree. -/
theorem Fails.operand {t : Tree} {s s' : State} {fault : Fault} (h : Fails t s fault s')
    {name : String} {found : Ty} {position : Position}
    (hf : fault = .notNumeric name found position) (above : List Node) (index : Nat)
    (inside : Inside s above t.ids) (hl : t.LaidOut) (nodup : t.ids.Nodup) :
    ∃ o ∈ t.occurrencesAt above index, o.node.name = name ∧ o.node.position = position ∧
      Refuses s' o found := by
  induction h generalizing above index with
  | entering h =>
    have shows := enter_shows h
    rw [hf] at shows
    cases shows with
    | notNumeric hk =>
      rw [enter_plain (by rw [hk]; rfl)] at h
      cases h
  | @before root children _ i _ _ _ way h =>
    have shows := before_shows way.2.1 h
    rw [hf] at shows
    cases shows with
    | notNumeric hk =>
      rw [hk] at h
      cases h
  | @inside root children _ i c s₁ _ _ _ way h below ih =>
    have mem : c ∈ children := List.mem_of_getElem? way.2.1
    have hp : Place.of root.kind i ≠ .parameter := by
      intro hp
      have leaf : c.root.kind.isLeaf := by rw [hl.parameters (parameter_of_place hp) c mem]; rfl
      obtain ⟨n, ds⟩ := c
      obtain rfl : ds = [] := Tree.children_of_isLeaf (hl.child _ mem) leaf
      exact not_fails_leaf leaf below
    have deeper := (inside.child hl nodup way).sameButHistory (before_ok hp h)
    have once : c.ids.Nodup := by
      rw [Tree.ids_node, List.nodup_cons] at nodup
      exact (List.nodup_flatMap.mp nodup.2).1 c mem
    obtain ⟨o, ho, rest⟩ := ih hf (root :: above) i deeper (hl.child c mem) once
    refine ⟨o, ?_, rest⟩
    rw [Tree.occurrencesAt]
    exact .tail _ (Tree.mem_occurrencesFrom way.2.1 (by rwa [Nat.zero_add]))
  | @after root children _ i c s₁ s₂ c' s₃ e way h own failed =>
    have shows := after_shows way.2.1 (untyped_of_check own) failed
    rw [hf] at shows
    cases shows with
    | notNumeric hk _ =>
      have mem : c ∈ children := List.mem_of_getElem? way.2.1
      have place : Place.of root.kind i = .operand := by rw [hk]; rfl
      rw [place] at h failed
      cases h
      have deeper := inside.child hl nodup way
      have leaf := hl.operands hk c mem
      have sort := hl.operand hk c mem
      obtain ⟨n, ds⟩ := c
      obtain rfl : ds = [] := Tree.children_of_isLeaf (hl.child _ mem) leaf
      rw [check_leaf (show n.kind.isLeaf from leaf)] at own
      cases own
      have typed := (show Inside s₁ (root :: above) [n.id] from deeper).typed (typeFrom n [])
      obtain ⟨name, position, refuses⟩ := refuses_of_requireNumeric i
        (c := (Tree.node n []).typed (typeFrom n [])) sort typed
        (by rw [List.head?_cons, ← hk]; rfl) rfl failed hf
      refine ⟨⟨root :: above, i, n⟩, ?_, name, position, ?_⟩
      · rw [Tree.occurrencesAt]
        refine .tail _ (Tree.mem_occurrencesFrom way.2.1 ?_)
        rw [Tree.occurrencesAt, Nat.zero_add]
        exact List.mem_cons_self
      · exact ⟨refuses.place, refuses.notNumber, refuses.literal, refuses.named⟩
  | leaving entered walked h =>
    have shows := leave_shows (untyped_of_checkAll walked) h
    rw [hf] at shows
    cases shows with
    | notNumeric hk =>
      rw [enter_plain (by rw [hk]; rfl)] at entered
      cases entered
      rw [leave_plain (by rw [hk]; rfl)] at h
      cases h

end Typing

/-! ## Programs -/

/-- When a check fails for the type of an operand, the type is not the one of a number, and it is
the unknown one exactly for the name of a function that the operand stands in. -/
theorem Program.verify_notNumeric {p : Program} {e : Typing.Stopped Tree} {name : String}
    {found : Ty} {position : Position} (h : p.tree.verify = .error e)
    (hf : e.fault = .notNumeric name found position) :
    ∃ o ∈ p.tree.occurrences, o.node.name = name ∧ o.node.position = position ∧
      o.parentKind? = some .mathExpression ∧ found ≠ .number ∧
      (found = .any ↔ o.node.kind = .identifier ∧ ∃ l ∈ p.tree.resolutions, l.id = o.node.id ∧
        ∃ y, l.found = some y ∧ ∃ f ∈ o.above, f.kind = .function ∧ y.declaration = .node f.id) := by
  have start : Typing.Inside .start [] p.tree.ids :=
    ⟨Typing.ready_start _, fun _ _ _ hf => by cases hf⟩
  obtain ⟨o, ho, hn, hp, refuses⟩ := (Typing.fails_of_error h).operand hf [] 0 start
    p.laidOut_tree p.nodup_ids_tree
  have looked : e.state.lookUps <+: p.tree.resolutions := by
    have resolved := p.verify_resolutions
    rw [h] at resolved
    exact resolved.1
  have once : (p.tree.resolutions.map (·.id)).Nodup :=
    p.tree.ids_resolutions.nodup p.nodup_ids_tree
  refine ⟨o, ho, hn, hp, refuses.place, refuses.notNumber, fun any => ?_, ?_⟩
  · have hk : o.node.kind = .identifier := by_contra fun hk => refuses.literal hk any
    obtain ⟨l, hl, hi, y, hy, unknown⟩ := refuses.named hk
    exact ⟨hk, l, looked.subset hl, hi, y, hy, unknown.mp any⟩
  · rintro ⟨hk, l, hl, hi, y, hy, around⟩
    obtain ⟨l', hl', hi', y', hy', unknown⟩ := refuses.named hk
    obtain rfl : l = l' :=
      List.inj_on_of_nodup_map once hl (looked.subset hl') (hi.trans hi'.symm)
    cases hy.symm.trans hy'
    exact unknown.mpr around

/-- A function whose body adds one to its own name. -/
def Program.sumOfOwnName : Program :=
  ⟨[], [⟨⟨1, 1⟩, ⟨"f", ⟨1, 5⟩⟩, [], .last (.return ⟨1, 12⟩ (some (.math
    ⟨⟨1, 21⟩, .identifier ⟨"f", ⟨1, 22⟩⟩, [(⟨"bobMar", ⟨1, 24⟩⟩,
      .literal .integer ⟨"1", ⟨1, 31⟩⟩)]⟩)))⟩],
    ⟨⟨1, 38⟩, .last (.return ⟨1, 52⟩ none)⟩⟩

theorem Program.sumOfOwnName_refused : ∃ e, sumOfOwnName.tree.verify = .error e ∧
    e.fault = .notNumeric "f" .any ⟨1, 22⟩ := Tree.error_of_verdict (by decide)

/-- The name in the sum is that of the function around it. -/
theorem Program.verify_notNumeric_ownName :
    ∃ o ∈ sumOfOwnName.tree.occurrences, o.node.name = "f" ∧ o.node.position = ⟨1, 22⟩ ∧
      ∃ l ∈ sumOfOwnName.tree.resolutions, l.id = o.node.id ∧
        ∃ y, l.found = some y ∧ ∃ f ∈ o.above, f.kind = .function ∧ y.declaration = .node f.id := by
  obtain ⟨e, h, hf⟩ := sumOfOwnName_refused
  obtain ⟨o, ho, name, position, -, -, unknown⟩ := verify_notNumeric h hf
  exact ⟨o, ho, name, position, (unknown.mp rfl).2⟩

/-- So it is not so that an operand of unknown type is never refused. -/
theorem Program.verify_notNumeric_unknown : ¬ ∀ (p : Program) (e : Typing.Stopped Tree)
    (name : String) (found : Ty) (position : Position), p.tree.verify = .error e →
      e.fault = .notNumeric name found position → found.isNumeric = false := by
  intro accepted
  obtain ⟨e, h, hf⟩ := sumOfOwnName_refused
  cases accepted sumOfOwnName e "f" .any ⟨1, 22⟩ h hf

end Mamuth
