-- The look-ups of a check. A check keeps no places of nodes: it finds a name in a table that
-- it fills, purges and reads as it walks. What it looks up, and what it finds, is all the same
-- what the scoping of the tree says, use by use, up to the first name that is not declared.
import Mathlib.Data.List.Find
import Mamuth.Proofs.Scoping

namespace Mamuth.Typing

/-! ## What a state knows -/

namespace State

/-- The look-ups so far, the oldest first. -/
def lookUps (s : State) : List LookUp :=
  s.history.reverse.filterMap fun
    | .lookedUp use found => some ⟨use.id, use.name, use.position, found⟩
    | _ => none

/-- Whether a symbol counts: a variable does only once its type is known. -/
def knows (s : State) (y : Symbol) : Bool := y.category ≠ .variable || (s.typeOf? y).isSome

/-- The symbols that can be found. -/
def known (s : State) : List Symbol := s.table.symbols.filter s.knows

theorem find?_eq {s : State} (hb : s.table.Bounded) (name : String) :
    s.find? name = lastNamed s.known name := by
  rw [lastNamed, known, List.filter_filter, List.getLast?_eq_head?_reverse, ← List.filter_reverse,
    List.head?_filter, find?, SymbolTable.find?]
  refine List.find?_congr fun y hy => ?_
  have shallow : y.depth ≤ s.table.depth := hb y (List.mem_reverse.mp hy)
  simp [knows, shallow]

theorem lookUps_noting {s : State} (hb : s.table.Bounded) (use : Node) :
    (s.noting use).lookUps = s.lookUps ++ [use.lookUp s.known] := by
  simp [noting, lookUps, Node.lookUp, find?_eq hb]

/-- New symbols come last, where the types of the old ones are kept. -/
theorem known_adding {s s' : State} {symbols : List Symbol}
    (ht : s'.table.symbols = s.table.symbols ++ symbols)
    (keeps : ∀ y ∈ s.table.symbols, s'.typeOf? y = s.typeOf? y) :
    s'.known = s.known ++ symbols.filter s'.knows := by
  rw [known, ht, List.filter_append, known]
  congr 1
  apply List.filter_congr
  intro y hy
  rw [knows, knows, keeps y hy]

theorem known_same {s s' : State} (ht : s'.table = s.table)
    (keeps : ∀ y ∈ s.table.symbols, s'.typeOf? y = s.typeOf? y) : s'.known = s.known := by
  have added : s'.table.symbols = s.table.symbols ++ [] := by rw [ht, List.append_nil]
  rw [known_adding added keeps, List.filter_nil, List.append_nil]

end State

theorem SameButHistory.known {s s' : State} (h : SameButHistory s s') : s'.known = s.known :=
  State.known_same h.1 fun _ _ => by simp only [State.typeOf?, h.2]

/-! ## Steps and their look-ups -/

/-- How look-ups end in a fault. If a name is not declared, it is the last one that was looked
up, and the only one that was not found. -/
def Explains (fault : Fault) (done : List LookUp) : Prop :=
  match fault with
  | .undeclared name position => ∃ found last, done = found ++ [last] ∧
      (∀ l ∈ found, l.found.isSome) ∧ last.found = none ∧ last.name = name ∧
      last.position = position
  | _ => ∀ l ∈ done, l.found.isSome

theorem Explains.after {fault : Fault} {xs ys : List LookUp} (h : Explains fault ys)
    (hx : ∀ l ∈ xs, l.found.isSome) : Explains fault (xs ++ ys) := by
  cases fault
  case undeclared name position =>
    obtain ⟨found, last, rfl, hf, rest⟩ := h
    exact ⟨xs ++ found, last, by simp, List.forall_mem_append.mpr ⟨hx, hf⟩, rest⟩
  all_goals exact List.forall_mem_append.mpr ⟨hx, h⟩

/-- A success looks up all of what is expected and finds it, and a failure a part that explains
the fault. -/
def Traces (s : State) (expected : List LookUp) : Except (Stopped σ) (α × State) → Prop
  | .ok (_, s') => s'.lookUps = s.lookUps ++ expected ∧ ∀ l ∈ expected, l.found.isSome
  | .error e => ∃ done rest, expected = done ++ rest ∧ e.state.lookUps = s.lookUps ++ done ∧
      Explains e.fault done

/-- What was found before does not matter. -/
theorem Traces.after {s s' : State} {xs ys : List LookUp}
    {r : Except (Stopped σ) (α × State)} (h : Traces s' ys r)
    (hl : s'.lookUps = s.lookUps ++ xs) (hx : ∀ l ∈ xs, l.found.isSome) :
    Traces s (xs ++ ys) r := by
  cases r with
  | ok r =>
    obtain ⟨hl', found⟩ := h
    exact ⟨by rw [hl', hl, List.append_assoc], List.forall_mem_append.mpr ⟨hx, found⟩⟩
  | error e =>
    obtain ⟨done, rest, rfl, hl', he⟩ := h
    exact ⟨xs ++ done, rest, by simp, by rw [hl', hl, List.append_assoc], he.after hx⟩

theorem Traces.same {s s' : State} {xs : List LookUp} {r : Except (Stopped σ) (α × State)}
    (h : Traces s' xs r) (hl : s'.lookUps = s.lookUps) : Traces s xs r :=
  h.after (hl.trans (List.append_nil _).symm) (List.forall_mem_nil _)

theorem Traces.bind {x : Step σ α} {f : α → Step σ β} {s : State} {xs ys : List LookUp}
    (h : Traces s xs (x s)) (hf : ∀ a s', x s = .ok (a, s') → Traces s' ys (f a s')) :
    Traces s (xs ++ ys) ((x >>= f) s) := by
  rw [Step.bind_apply]
  cases hx : x s with
  | error e =>
    rw [hx] at h
    obtain ⟨done, rest, rfl, hl, he⟩ := h
    exact ⟨done, rest ++ ys, by simp, hl, he⟩
  | ok r =>
    rw [hx] at h
    exact (hf r.1 r.2 hx).after h.1 h.2

theorem Traces.leaving {x : Step σ α} {f : σ → τ} {s : State} {xs : List LookUp}
    (h : Traces s xs (x s)) : Traces s xs (x.leaving f s) := by
  unfold Step.leaving
  cases hx : x s <;> rw [hx] at h <;> exact h

theorem Traces.of_nil {s : State} {xs : List LookUp} {r : Except (Stopped σ) (α × State)}
    (hx : xs = []) (h : Traces s [] r) : Traces s xs r := by
  rw [hx]
  exact h

/-- A step that looks nothing up. -/
theorem traces_ok {s s' : State} {a : α} (h : s'.lookUps = s.lookUps) :
    Traces s [] (.ok (a, s') : Except (Stopped σ) (α × State)) :=
  ⟨by rw [h, List.append_nil], by simp⟩

theorem traces_stop {s s' : State} {fault : Fault} {left : σ} (h : s'.lookUps = s.lookUps)
    (he : ∀ name position, fault ≠ .undeclared name position) :
    Traces s [] (.error ⟨fault, left, s'⟩ : Except (Stopped σ) (α × State)) := by
  refine ⟨[], [], rfl, by rw [h, List.append_nil], ?_⟩
  cases fault
  case undeclared name position => exact absurd rfl (he name position)
  all_goals simp [Explains]

/-! ## Looking names up -/

section

variable {s : State} (hb : s.table.Bounded) {use : Node}
include hb

theorem traces_found {y : Symbol} (hy : s.find? use.name = some y)
    {r : Except (Stopped σ) (α × State)} (h : Traces (s.noting use) [] r) :
    Traces s [use.lookUp s.known] r := by
  apply h.after (State.lookUps_noting hb use)
  rw [List.forall_mem_singleton, Node.lookUp, ← State.find?_eq hb, hy]
  rfl

theorem traces_unfound (hy : s.find? use.name = none) (left : σ) :
    Traces s [use.lookUp s.known] (.error ⟨.undeclared use.name use.position, left,
      s.noting use⟩ : Except (Stopped σ) (α × State)) := by
  refine ⟨_, [], (List.append_nil _).symm, State.lookUps_noting hb use, [], _, rfl, by simp, ?_⟩
  rw [Node.lookUp, ← State.find?_eq hb, hy]
  exact ⟨rfl, rfl, rfl⟩

theorem traces_lookUp : Traces s [use.lookUp s.known] (lookUp use s) := by
  rw [lookUp_apply]
  cases hy : s.find? use.name with
  | none => exact traces_unfound hb hy ()
  | some y => exact traces_found hb hy (traces_ok rfl)

end

section

variable {s : State} (hb : s.table.Bounded)
include hb

theorem traces_lookUpIfNamed (use : Node) :
    Traces s (use.lookUpIfNamed s.known) (lookUpIfNamed use s) := by
  rw [lookUpIfNamed_apply, Node.lookUpIfNamed]
  by_cases hk : use.kind = .identifier
  · rw [if_pos hk, if_pos hk]
    cases hy : s.find? use.name with
    | none => exact traces_unfound hb hy ()
    | some y => exact traces_found hb hy (traces_ok rfl)
  · rw [if_neg hk, if_neg hk]
    exact traces_ok rfl

theorem traces_refuseFunction (argument : Node) :
    Traces s (argument.lookUpIfNamed s.known) (refuseFunction argument s) := by
  rw [refuseFunction_apply, Node.lookUpIfNamed]
  by_cases hk : argument.kind = .identifier
  · rw [if_pos hk, if_pos hk]
    cases hy : s.find? argument.name with
    | none => exact traces_unfound hb hy ()
    | some y =>
      apply traces_found hb hy
      dsimp only
      split
      · exact traces_stop rfl (by simp)
      · exact traces_ok rfl
  · rw [if_neg hk, if_neg hk]
    exact traces_ok rfl

theorem traces_requireNumeric (operand : Tree) :
    Traces s (operand.root.lookUpIfNamed s.known) (requireNumeric operand s) := by
  rw [requireNumeric_apply, Node.lookUpIfNamed]
  cases hk : operand.root.kind
  case identifier =>
    rw [if_pos rfl]
    cases hy : s.find? operand.root.name with
    | none => exact traces_unfound hb hy ()
    | some y =>
      apply traces_found hb hy
      dsimp only
      split
      · exact traces_ok rfl
      · exact traces_stop rfl (by simp)
  case integer | operator =>
    rw [if_neg (by decide)]
    exact traces_ok rfl
  all_goals
    rw [if_neg (by decide)]
    exact traces_stop rfl (by simp)

end

/-! ## Before the children -/

/-- What a node looks up before its children are checked. -/
def asked (known : List Symbol) (root : Node) (children : List Tree) : List LookUp :=
  match root.kind, children with
  | .assignment, [_, value] => value.root.lookUpIfNamed known
  | .invocation, callee :: _ => [callee.root.lookUp known]
  | .return, value :: _ => value.root.lookUpIfNamed known
  | _, _ => []

theorem traces_enter {s : State} (hb : s.table.Bounded) (root : Node) (children : List Tree) :
    Traces s (asked s.known root children) (enter root children s) := by
  generalize hx : enter root children = step
  unfold enter at hx
  split at hx <;> subst hx
  case h_1 target value hk =>
    simp only [asked, hk]
    rw [← List.append_nil (value.root.lookUpIfNamed s.known)]
    exact (traces_lookUpIfNamed hb value.root).bind fun _ _ _ => traces_ok rfl
  case h_5 callee _ hk =>
    simp only [asked, hk]
    rw [← List.append_nil [callee.root.lookUp s.known]]
    apply (traces_lookUp hb).bind
    intro y s' _
    split
    · exact traces_ok rfl
    · exact traces_stop rfl (by simp)
  case h_7 value _ hk =>
    simp only [asked, hk]
    exact traces_lookUpIfNamed hb value.root
  all_goals
    apply Traces.of_nil (by unfold asked; split <;> simp_all)
    first
    | exact traces_stop rfl (by simp)
    | exact traces_ok (by simp [State.lookUps])

/-! ## Children in their places -/

/-- Whether a child in the place is looked up, if it is an identifier. -/
def Place.asks : Place → Bool
  | argument | compared | operand => true
  | skipped | plain | parameter => false

/-- The check of a tree follows its look-ups, wherever its numbers have not been met. -/
def Follows (t : Tree) : Prop :=
  ∀ s : State, s.table.Bounded → Fresh s t.ids →
    Traces s (t.looks s.known s.table.depth) (check t s)

theorem looks_leaf {t : Tree} (h : t.children = []) (known : List Symbol) (depth : Nat) :
    t.looks known depth = [] := by
  obtain ⟨root, children⟩ := t
  obtain rfl : children = [] := h
  rfl

/-- What a child adds to what is known is what it leaves declared. -/
theorem known_around {place : Place} {c c' : Tree} (hl : c.LaidOut) {s s' : State}
    (hb : s.table.Bounded) (fresh : place ≠ .skipped → Fresh s c.ids)
    (h : place.around c (check c) s = .ok (c', s')) :
    s'.known = s.known ++
      place.declared s.table.depth c.root (declared s.table.depth c) := by
  by_cases skipped : place = .skipped
  · subst skipped
    cases h
    exact (List.append_nil _).symm
  obtain ⟨-, table, frame⟩ := Place.around_ok (fun hb h => check_ok c hb h) hb h
  have added : s'.table.symbols = s.table.symbols ++
      place.declared s.table.depth c.root (declared s.table.depth c) := by
    rw [table]
    rfl
  rw [State.known_adding added ((fresh skipped).keeps frame), List.filter_eq_self.mpr]
  intro y hy
  obtain ⟨-, i, hi, hd⟩ := Place.mem_declared hy (mem_declared _ c)
  have typed : s'.Typed i := (decorates hl).around h (Or.inl ⟨skipped, hi⟩)
  rw [State.knows, State.typeOf?, hd, Bool.or_eq_true]
  exact Or.inr typed

/-- A leaf is checked without a look-up, and what is known stays so. -/
theorem check_leaf_ok {c : Tree} (hl : c.LaidOut) (leaf : c.root.kind.isLeaf) (s : State) :
    ∃ type, check c s =
      .ok (c.typed type, { s with types := s.types.insert c.root.id type }) := by
  obtain ⟨root, children⟩ := c
  obtain rfl : children = [] := Tree.children_of_isLeaf hl leaf
  exact ⟨_, check_leaf leaf s⟩

theorem Follows.around {c : Tree} (h : Follows c) (hl : c.LaidOut) {place : Place}
    (leaf : place ∈ [.skipped, .parameter, .operand] → c.root.kind.isLeaf) {s : State}
    (hb : s.table.Bounded) (fresh : place ≠ .skipped → Fresh s c.ids) :
    Traces s ((if place.asks then c.root.lookUpIfNamed s.known else []) ++
      c.looks s.known s.table.depth) (place.around c (check c) s) := by
  have nothing (hp : place ∈ [.skipped, .parameter, .operand]) :
      c.looks s.known s.table.depth = [] := looks_leaf (Tree.children_of_isLeaf hl (leaf hp)) _ _
  cases place with
  | skipped =>
    rw [nothing (by simp)]
    exact traces_ok rfl
  | plain => exact h s hb (fresh (by decide))
  | parameter =>
    rw [nothing (by simp)]
    let s₁ : State := { s with table := s.table.insert c.root.name .parameter (.node c.root.id) }
    obtain ⟨type, hc⟩ := check_leaf_ok hl (leaf (by simp)) s₁
    have checked : Place.parameter.around c (check c) s = check c s₁ := rfl
    rw [checked, hc]
    exact traces_ok rfl
  | argument =>
    apply (traces_refuseFunction hb c.root).leaving.bind
    intro _ s' hx
    have same := refuseFunction_ok (Step.leaving_ok.mp hx)
    rw [← same.known, ← same.1]
    exact h s' (same.1 ▸ hb) ((fresh (by decide)).sameButHistory same)
  | compared =>
    apply (traces_lookUpIfNamed hb c.root).leaving.bind
    intro _ s' hx
    have same := lookUpIfNamed_ok (Step.leaving_ok.mp hx)
    rw [← same.known, ← same.1]
    exact h s' (same.1 ▸ hb) ((fresh (by decide)).sameButHistory same)
  | operand =>
    rw [nothing (by simp)]
    obtain ⟨type, hc⟩ := check_leaf_ok hl (leaf (by simp)) s
    let s₁ : State := { s with types := s.types.insert c.root.id type }
    have known : s₁.known = s.known := by
      refine State.known_same rfl ((fresh (by decide)).keeps fun i hi => ?_)
      rw [getElem?_insert_type, if_neg]
      rintro rfl
      exact hi c.id_mem_ids
    have use : (c.typed type).root.lookUpIfNamed s₁.known = c.root.lookUpIfNamed s.known := by
      rw [known]
      rfl
    have bounded : s₁.table.Bounded := hb
    have required := traces_requireNumeric bounded (c.typed type)
    rw [use] at required
    rw [Place.around, Step.bind_of_ok hc]
    exact (required.leaving.bind fun _ _ _ => traces_ok rfl).same rfl

theorem Follows.all {place : Nat → Place} {ts : List Tree} (h : ∀ c ∈ ts, Follows c)
    (hl : ∀ c ∈ ts, c.LaidOut)
    (leaf : ∀ i c, ts[i]? = some c → place i ∈ [.skipped, .parameter, .operand] →
      c.root.kind.isLeaf)
    (nodup : (Tree.idsAll ts).Nodup) {s : State} (hb : s.table.Bounded)
    (fresh : ∀ i c, ts[i]? = some c → place i ≠ .skipped → Fresh s c.ids) :
    Traces s (Tree.looksAll (fun i => (place i).asks) place s.known s.table.depth ts)
      (checkAll place ts s) := by
  induction ts generalizing place s with
  | nil => exact traces_ok rfl
  | cons c cs ih =>
    rw [List.forall_mem_cons] at h hl
    rw [Tree.idsAll_cons] at nodup
    obtain ⟨-, nodupRest, disjoint⟩ := List.nodup_append.mp nodup
    have first := h.1.around hl.1 (leaf 0 c rfl) hb (fresh 0 c rfl)
    rw [Tree.looksAll, checkAll]
    apply first.leaving.bind
    intro c' s₁ hx
    have hx := Step.leaving_ok.mp hx
    have known := known_around hl.1 hb (fresh 0 c rfl) hx
    obtain ⟨-, table, -⟩ := Place.around_ok (fun hb h => check_ok c hb h) hb hx
    have depth : s₁.table.depth = s.table.depth := by rw [table]; rfl
    have bounded : s₁.table.Bounded := by
      rw [table]
      exact hb.adding fun y hy => (Place.mem_declared hy (mem_declared _ c)).1
    have rest : Traces s₁ (Tree.looksAll (fun i => (place (i + 1)).asks) (fun i => place (i + 1))
        s₁.known s₁.table.depth cs) (checkAll (fun i => place (i + 1)) cs s₁) := by
      apply ih h.2 hl.2 (fun i c' hc => leaf (i + 1) c' hc) nodupRest bounded
      intro i c' hc hp
      apply Place.fresh_around hb hx (fresh (i + 1) c' hc hp)
      intro j hj hi
      exact disjoint j hi j (List.mem_flatMap.mpr ⟨c', List.mem_of_getElem? hc, hj⟩) rfl
    rw [known, depth] at rest
    rw [← List.append_nil (Tree.looksAll _ _ _ _ cs)]
    exact rest.leaving.bind fun _ _ _ => traces_ok rfl

/-! ## Whole trees -/

section

variable {root : Node} {children : List Tree} {s s' : State} {named : Option Symbol}

theorem enter_symbols (h : enter root children s = .ok (named, s')) :
    s'.types = s.types ∧
      s'.table.symbols = s.table.symbols ++ declaredOnEntry s.table.depth root children := by
  obtain ⟨types, table⟩ := enter_ok h
  refine ⟨types, ?_⟩
  rw [table]
  split <;> rfl

/-- A function is known inside itself, and a variable is not known in its own assignment. -/
theorem known_enter (fresh : Fresh s (Tree.node root children).ids)
    (h : enter root children s = .ok (named, s')) :
    s'.known = s.known ++ declaredBelow s.table.depth root := by
  obtain ⟨types, symbols⟩ := enter_symbols h
  rw [State.known_adding symbols fun y _ => by simp only [State.typeOf?, types]]
  congr 1
  unfold declaredOnEntry
  split
  case h_1 target rest hk =>
    have untyped : s'.types[target.root.id]? = none := by
      rw [types]
      exact (fresh _ (by simp [target.id_mem_ids])).1
    simp [State.knows, State.typeOf?, untyped, declaredBelow, hk]
  case h_2 hk => simp [State.knows, declaredBelow, hk]
  case h_3 hk _ =>
    rw [declaredBelow, if_neg hk]
    rfl

/-- The numbers of the children that are checked have still not been met. -/
theorem fresh_enter (nodup : (Tree.node root children).ids.Nodup)
    (fresh : Fresh s (Tree.node root children).ids)
    (h : enter root children s = .ok (named, s')) {i : Nat} {c : Tree}
    (hc : children[i]? = some c) (hp : Place.of root.kind i ≠ .skipped) : Fresh s' c.ids := by
  obtain ⟨types, symbols⟩ := enter_symbols h
  rw [Tree.ids_node] at nodup fresh
  obtain ⟨apart, inner⟩ := List.nodup_cons.mp nodup
  intro j hj
  have below : j ∈ Tree.idsAll children :=
    List.mem_flatMap.mpr ⟨c, List.mem_of_getElem? hc, hj⟩
  obtain ⟨untyped, undeclared⟩ := fresh j (List.mem_cons_of_mem _ below)
  rw [types]
  refine ⟨untyped, fun y hy => ?_⟩
  rw [symbols, List.mem_append] at hy
  rcases hy with hy | hy
  · exact undeclared y hy
  · unfold declaredOnEntry at hy
    split at hy
    case h_1 target rest hk =>
      cases List.mem_singleton.mp hy
      rintro ⟨⟩
      rcases i with _ | i
      · exact hp (by rw [hk]; rfl)
      · rw [Tree.idsAll_cons] at inner
        exact (List.nodup_append.mp inner).2.2 _ target.id_mem_ids _
          (List.mem_flatMap.mpr ⟨c, List.mem_of_getElem? hc, hj⟩) rfl
    case h_2 =>
      cases List.mem_singleton.mp hy
      rintro ⟨⟩
      exact apart below
    case h_3 => cases hy

/-- What is looked up on entry and in the places of the children are the uses below. -/
theorem asked_append (hl : (Tree.node root children).LaidOut) (known : List Symbol)
    (depth : Nat) :
    asked known root children ++ Tree.looksAll (fun i => (Place.of root.kind i).asks)
        (Place.of root.kind) (known ++ declaredBelow depth root)
        (if root.kind.opensBlock then depth + 1 else depth) children =
      (Tree.node root children).looks known depth := by
  rw [Tree.looks]
  have leaves {c : Tree} (hc : c ∈ children) (h : c.root.kind.isLeaf) (known : List Symbol)
      (depth : Nat) : c.looks known depth = [] :=
    looks_leaf (Tree.children_of_isLeaf (hl.child c hc) h) known depth
  cases hk : root.kind
  case assignment =>
    obtain ⟨target, value, rfl, ht, -⟩ := hl.assignment hk
    have nothing := leaves (c := target) (by simp) (by rw [ht]; rfl)
    simp [asked, hk, Tree.looksAll, Place.of, Place.asks, Place.declared, declaredBelow, nothing,
      Node.Kind.usesChild]
  case invocation =>
    obtain ⟨callee, rest, rfl, hc, -⟩ := hl.invocation hk
    simp [asked, hk, Tree.looksAll, Place.of, Place.asks, Place.declared, declaredBelow,
      Node.Kind.usesChild, Node.lookUpIfNamed, hc]
  case «return» =>
    obtain rfl | ⟨value, rfl, -⟩ := hl.return hk
    · simp [asked, hk, Tree.looksAll]
    · simp [asked, hk, Tree.looksAll, Place.of, Place.asks, declaredBelow, Node.Kind.usesChild]
  case comparison =>
    have same : (fun i => (Place.of .comparison i).asks) = Node.Kind.comparison.usesChild := by
      funext i
      by_cases hi : i = 1 <;> simp [Place.of, Place.asks, Node.Kind.usesChild, hi]
    rw [same]
    simp [asked, hk]
  all_goals
    simp only [asked, hk]
    rfl

/-- Leaving a node looks nothing up. -/
theorem traces_leave : Traces s [] (leave root named children s) := by
  generalize hx : leave root named children = step
  unfold leave at hx
  split at hx <;> subst hx
  case h_1 => exact traces_ok rfl
  case h_2 left comparator right hk =>
    cases hc : left.type.common? right.type with
    | none => exact traces_stop rfl (by simp)
    | some common => exact traces_ok rfl
  case h_8 => cases named <;> exact traces_ok rfl
  all_goals exact traces_ok (by simp [State.lookUps])

end

theorem follows {t : Tree} (hl : t.LaidOut) (nodup : t.ids.Nodup) : Follows t := by
  induction t using Tree.ofChildren with
  | step root children ih =>
    intro s hb fresh
    have inner : (Tree.idsAll children).Nodup := by
      rw [Tree.ids_node] at nodup
      exact (List.nodup_cons.mp nodup).2
    have on : ∀ c ∈ children, Follows c := fun c hc =>
      ih c hc (hl.child c hc) ((List.nodup_flatMap.mp inner).1 c hc)
    rw [check, ← asked_append hl]
    apply (traces_enter hb root children).leaving.bind
    intro named s₁ he
    have he := Step.leaving_ok.mp he
    obtain ⟨-, table⟩ := enter_ok he
    have bounded := enter_bounded hb he
    have depth : s₁.table.depth =
        if root.kind.opensBlock then s.table.depth + 1 else s.table.depth := by
      rw [table]
      split <;> rfl
    have walk := Follows.all on hl.child (fun i c hc => (hl.suits hc).leaf) inner bounded
      fun i c hc => fresh_enter nodup fresh he hc
    rw [known_enter fresh he, depth] at walk
    rw [← List.append_nil (Tree.looksAll _ _ _ _ _)]
    exact walk.leaving.bind fun _ _ _ => traces_leave

end Mamuth.Typing

namespace Mamuth

theorem Program.traces_check (p : Program) :
    Typing.Traces .start p.tree.resolutions (Typing.check p.tree .start) := by
  have kind : p.tree.root.kind = .program := rfl
  have looks : p.tree.looks Typing.State.start.known Typing.State.start.table.depth =
      p.tree.resolutions := Tree.looks_eq_resolutions p.laidOut_tree p.nodup_ids_tree kind
  rw [← looks]
  exact Typing.follows p.laidOut_tree p.nodup_ids_tree .start Typing.bounded_start
    (Typing.fresh_start _)

/-- A check looks up the uses of a program in their order, and finds for each the last
declaration of its name in sight. It fails for want of a declaration at the first use that has
none. -/
theorem Program.verify_resolutions (p : Program) :
    match p.tree.verify with
    | .ok (_, s) =>
      s.lookUps = p.tree.resolutions ∧ ∀ l ∈ p.tree.resolutions, l.found.isSome
    | .error e =>
      e.state.lookUps <+: p.tree.resolutions ∧
        match e.fault with
        | .undeclared name position => ∃ l,
            p.tree.resolutions.find? (·.found.isNone) = some l ∧
            e.state.lookUps.getLast? = some l ∧ l.name = name ∧ l.position = position
        | _ => ∀ l ∈ e.state.lookUps, l.found.isSome := by
  have traces := p.traces_check
  rw [Tree.verify]
  cases hx : Typing.check p.tree .start with
  | ok r =>
    rw [hx] at traces
    exact traces
  | error e =>
    rw [hx] at traces
    obtain ⟨done, rest, he, hl, explains⟩ := traces
    replace hl : e.state.lookUps = done := hl
    dsimp only
    refine ⟨⟨rest, by rw [hl, he]⟩, ?_⟩
    rw [hl, he]
    cases hf : e.fault <;> rw [hf] at explains
    case undeclared name position =>
      obtain ⟨found, last, rfl, hfound, hlast, hn, hp⟩ := explains
      refine ⟨last, ?_, List.getLast?_concat, hn, hp⟩
      have none_before : found.find? (·.found.isNone) = none := by
        refine List.find?_eq_none.mpr fun l hm => ?_
        have := hfound l hm
        cases hl : l.found <;> simp_all
      rw [List.append_assoc, List.find?_append, none_before]
      simp [hlast]
    all_goals exact explains

end Mamuth
