-- What a check does to its state. It declares the names of a tree and forgets those of
-- the blocks inside, gives types to the nodes of the tree only, and leaves everything
-- else as it was. These laws hold for trees of any shape.
import Mamuth.Proofs.Layout
import Mamuth.Typing

namespace Mamuth

/-- The tree as it is before it is checked. -/
def Tree.untyped : Tree → Tree := Tree.map fun n => { n with type := none }

@[simp] theorem Tree.untyped_node (root : Node) (children : List Tree) :
    (node root children).untyped =
      node { root with type := none } (children.map Tree.untyped) := map_node _ _ _

@[simp] theorem Tree.untyped_typed (t : Tree) (type : Ty) : (t.typed type).untyped = t.untyped := by
  cases t
  simp [typed, Tree.root, Tree.children]

namespace Typing

/-! ## Steps one after another -/

@[simp] theorem Step.pure_apply (a : α) (s : State) : (pure a : Step σ α) s = .ok (a, s) := rfl

theorem Step.bind_apply (x : Step σ α) (f : α → Step σ β) (s : State) :
    (x >>= f) s = match x s with
      | .ok (a, s') => f a s'
      | .error e => .error e := by
  show StateT.bind x f s = _
  unfold StateT.bind
  cases x s <;> rfl

theorem Step.bind_of_ok {x : Step σ α} {s s' : State} {a : α} (h : x s = .ok (a, s'))
    (f : α → Step σ β) : (x >>= f) s = f a s' := by rw [Step.bind_apply, h]

/-- Two steps succeed when the first does, and the second does from where it ends. -/
@[simp] theorem Step.bind_ok {x : Step σ α} {f : α → Step σ β} {s : State} {r : β × State} :
    (x >>= f) s = .ok r ↔ ∃ a s', x s = .ok (a, s') ∧ f a s' = .ok r := by
  rw [Step.bind_apply]
  cases hx : x s with
  | ok p =>
    obtain ⟨a, s'⟩ := p
    constructor
    · exact fun h => ⟨a, s', rfl, h⟩
    · rintro ⟨_, _, he, h⟩
      cases he
      exact h
  | error e => simp

@[simp] theorem get_apply (s : State) : (get : Step σ State) s = .ok (s, s) := rfl

@[simp] theorem record_apply (event : Event) (s : State) :
    (record event : Step σ Unit) s = .ok ((), { s with history := event :: s.history }) := rfl

@[simp] theorem Step.leaving_pure (g : σ → τ) (a : α) :
    (pure a : Step σ α).leaving g = pure a := rfl

theorem Step.leaving_leaving (f : σ → τ) (g : τ → υ) (x : Step σ α) :
    (x.leaving f).leaving g = x.leaving fun left => g (f left) := by
  funext s
  unfold Step.leaving
  cases x s <;> rfl

/-- Leaving goes inside. -/
theorem Step.leaving_bind (g : σ → τ) (x : Step σ α) (f : α → Step σ β) :
    (x >>= f).leaving g = x.leaving g >>= fun a => (f a).leaving g := by
  funext s
  rw [Step.bind_apply, Step.leaving, Step.leaving, Step.bind_apply]
  cases x s <;> rfl

@[simp] theorem stop_apply (fault : Fault) (left : σ) (s : State) :
    (stop fault left : Step σ α) s = .error ⟨fault, left, s⟩ := rfl

@[simp] theorem declare_apply (name : String) (category : Symbol.Category) (node : Node)
    (s : State) : (declare name category node : Step σ Unit) s =
      .ok ((), { s with table := s.table.insert name category (.node node.id) }) := rfl

theorem Step.leaving_declare (f : σ → τ) (name : String) (category : Symbol.Category)
    (node : Node) : (declare name category node : Step σ Unit).leaving f =
      declare name category node := rfl

/-- The state after a look-up. -/
def State.noting (s : State) (use : Node) : State :=
  { s with history := .lookedUp use (s.find? use.name) :: s.history }

theorem lookUp_apply (use : Node) (s : State) :
    lookUp use s = match s.find? use.name with
      | some symbol => .ok (symbol, s.noting use)
      | none => .error ⟨.undeclared use.name use.position, (), s.noting use⟩ := by
  simp only [lookUp, Step.bind_apply, get_apply, record_apply, State.noting]
  cases s.find? use.name <;> rfl

theorem lookUpIfNamed_apply (use : Node) (s : State) :
    lookUpIfNamed use s = if use.kind = .identifier then
        match s.find? use.name with
        | some symbol => .ok (some symbol, s.noting use)
        | none => .error ⟨.undeclared use.name use.position, (), s.noting use⟩
      else .ok (none, s) := by
  unfold lookUpIfNamed
  split
  · rw [map_eq_pure_bind, Step.bind_apply, lookUp_apply]
    cases s.find? use.name <;> rfl
  · rfl

theorem refuseFunction_apply (argument : Node) (s : State) :
    refuseFunction argument s = if argument.kind = .identifier then
        match s.find? argument.name with
        | some symbol =>
          if symbol.category = .function then
            .error ⟨.functionArgument symbol.name argument.position, (), s.noting argument⟩
          else .ok ((), s.noting argument)
        | none => .error ⟨.undeclared argument.name argument.position, (), s.noting argument⟩
      else .ok ((), s) := by
  rw [refuseFunction, Step.bind_apply, lookUpIfNamed_apply]
  by_cases hk : argument.kind = .identifier
  · rw [if_pos hk, if_pos hk]
    cases s.find? argument.name with
    | none => rfl
    | some symbol => by_cases hc : symbol.category = .function <;> simp [hc]
  · rw [if_neg hk, if_neg hk]
    rfl

theorem requireNumeric_apply (operand : Tree) (s : State) :
    requireNumeric operand s = match operand.root.kind with
      | .identifier =>
        match s.find? operand.root.name with
        | some symbol =>
          if (s.typeOf? symbol).any Ty.isNumeric then .ok ((), s.noting operand.root)
          else .error ⟨.notNumeric operand.root.name ((s.typeOf? symbol).getD .any)
            operand.root.position, (), s.noting operand.root⟩
        | none => .error ⟨.undeclared operand.root.name operand.root.position, (),
            s.noting operand.root⟩
      | .integer | .operator => .ok ((), s)
      | _ => .error ⟨.notNumeric operand.root.name operand.type operand.root.position, (), s⟩ := by
  cases hk : operand.root.kind <;> simp only [requireNumeric, hk] <;> try rfl
  rw [Step.bind_apply, lookUp_apply]
  cases s.find? operand.root.name with
  | none => rfl
  | some symbol =>
    simp only [Step.bind_apply, get_apply]
    have same : (s.noting operand.root).typeOf? symbol = s.typeOf? symbol := rfl
    by_cases hn : (s.typeOf? symbol).any Ty.isNumeric <;> simp [same, hn]

/-! ## Looking up changes nothing but the history -/

/-- Two states that may differ in their history only. -/
def SameButHistory (s s' : State) : Prop := s'.table = s.table ∧ s'.types = s.types

theorem lookUp_ok {use : Node} {s s' : State} {symbol : Symbol}
    (h : lookUp use s = .ok (symbol, s')) : SameButHistory s s' := by
  rw [lookUp_apply] at h
  split at h <;> cases h
  exact ⟨rfl, rfl⟩

theorem lookUpIfNamed_ok {use : Node} {s s' : State} {named : Option Symbol}
    (h : lookUpIfNamed use s = .ok (named, s')) : SameButHistory s s' := by
  rw [lookUpIfNamed_apply] at h
  split at h
  · split at h <;> cases h
    exact ⟨rfl, rfl⟩
  · cases h
    exact ⟨rfl, rfl⟩

theorem refuseFunction_ok {argument : Node} {s s' : State}
    (h : refuseFunction argument s = .ok ((), s')) : SameButHistory s s' := by
  rw [refuseFunction_apply] at h
  split at h
  · split at h
    · split at h <;> cases h
      exact ⟨rfl, rfl⟩
    · cases h
  · cases h
    exact ⟨rfl, rfl⟩

theorem requireNumeric_ok {operand : Tree} {s s' : State}
    (h : requireNumeric operand s = .ok ((), s')) : SameButHistory s s' := by
  rw [requireNumeric_apply] at h
  split at h
  · split at h
    · split at h <;> cases h
      exact ⟨rfl, rfl⟩
    · cases h
  all_goals cases h
  all_goals exact ⟨rfl, rfl⟩

/-! ## Trees next to each other -/

/-- They are checked when the first one is in its place, and the others are from there on. -/
theorem checkAll_cons_ok {place : Nat → Place} {t : Tree} {ts us : List Tree} {s s' : State} :
    checkAll place (t :: ts) s = .ok (us, s') ↔
      ∃ t' s₁ ts', (place 0).around t (check t) s = .ok (t', s₁) ∧
        checkAll (fun i => place (i + 1)) ts s₁ = .ok (ts', s') ∧ us = t' :: ts' := by
  rw [checkAll]
  constructor
  · intro h
    obtain ⟨t', s₁, first, h⟩ := Step.bind_ok.mp h
    obtain ⟨ts', s₂, rest, h⟩ := Step.bind_ok.mp h
    cases h
    exact ⟨t', s₁, ts', Step.leaving_ok.mp first, Step.leaving_ok.mp rest, rfl⟩
  · rintro ⟨t', s₁, ts', first, rest, rfl⟩
    rw [Step.bind_of_ok (Step.leaving_ok.mpr first), Step.bind_of_ok (Step.leaving_ok.mpr rest)]
    rfl

/-- Trees behind others are checked where these end. -/
theorem checkAll_append (place : Nat → Place) (ts us : List Tree) :
    checkAll place (ts ++ us) = (do
      let ts' ← (checkAll place ts).leaving (· ++ us)
      let us' ← (checkAll (fun i => place (i + ts.length)) us).leaving (ts' ++ ·)
      return ts' ++ us') := by
  induction ts generalizing place with
  | nil =>
    have same (step : Step (List Tree) (List Tree)) : step.leaving (fun us => us) = step := by
      funext s
      unfold Step.leaving
      cases step s <;> rfl
    simpa [checkAll] using (same _).symm
  | cons t ts ih =>
    simp only [List.cons_append, checkAll, ih, Step.leaving_bind, Step.leaving_leaving,
      Step.leaving_pure, bind_assoc, pure_bind, List.length_cons, Nat.add_assoc]

theorem checkAll_append_ok {place : Nat → Place} {ts us rs : List Tree} {s s' : State} :
    checkAll place (ts ++ us) s = .ok (rs, s') ↔
      ∃ ts' s₁ us', checkAll place ts s = .ok (ts', s₁) ∧
        checkAll (fun i => place (i + ts.length)) us s₁ = .ok (us', s') ∧ rs = ts' ++ us' := by
  rw [checkAll_append]
  constructor
  · intro h
    obtain ⟨ts', s₁, walked, h⟩ := Step.bind_ok.mp h
    obtain ⟨us', s₂, behind, h⟩ := Step.bind_ok.mp h
    cases h
    exact ⟨ts', s₁, us', Step.leaving_ok.mp walked, Step.leaving_ok.mp behind, rfl⟩
  · rintro ⟨ts', s₁, us', walked, behind, rfl⟩
    rw [Step.bind_of_ok (Step.leaving_ok.mpr walked), Step.bind_of_ok (Step.leaving_ok.mpr behind)]
    rfl

/-! ## Before and after the children -/

end Typing

/-- The kinds of nodes that have a block of their own. -/
def Node.Kind.opensBlock (k : Node.Kind) : Bool :=
  k ∈ [function, main, loop, ifBranch, elseBranch]

namespace Typing

/-- What a node declares before its children are checked. -/
def declaredOnEntry (depth : Nat) (root : Node) (children : List Tree) : List Symbol :=
  match root.kind, children with
  | .assignment, target :: _ =>
    [⟨target.root.name, depth, .variable, .node target.root.id⟩]
  | .function, _ => [⟨root.name, depth, .function, .node root.id⟩]
  | _, _ => []

end Typing

/-- More declarations at the end of a table. -/
def SymbolTable.adding (t : SymbolTable) (symbols : List Symbol) : SymbolTable :=
  { t with symbols := t.symbols ++ symbols }

@[simp] theorem SymbolTable.adding_nil (t : SymbolTable) : t.adding [] = t := by simp [adding]

@[simp] theorem SymbolTable.depth_adding (t : SymbolTable) (symbols : List Symbol) :
    (t.adding symbols).depth = t.depth := rfl

theorem SymbolTable.adding_adding (t : SymbolTable) (xs ys : List Symbol) :
    (t.adding xs).adding ys = t.adding (xs ++ ys) := by simp [adding]

namespace Typing

theorem enter_ok {root : Node} {children : List Tree} {s s' : State} {named : Option Symbol}
    (h : enter root children s = .ok (named, s')) :
    s'.types = s.types ∧
      s'.table = if root.kind.opensBlock then
          (s.table.adding (declaredOnEntry s.table.depth root children)).openBlock
        else s.table.adding (declaredOnEntry s.table.depth root children) := by
  generalize hx : enter root children = step at h
  unfold enter at hx
  split at hx <;> subst hx
  case h_1 target value hk =>
    obtain ⟨_, s₁, hl, h⟩ := Step.bind_ok.mp h
    obtain ⟨ht, hy⟩ := lookUpIfNamed_ok hl
    cases h
    simp [hk, Node.Kind.opensBlock, declaredOnEntry, SymbolTable.adding, SymbolTable.insert, ht, hy]
  case h_5 callee _ hk =>
    obtain ⟨symbol, s₁, hl, h⟩ := Step.bind_ok.mp h
    obtain ⟨ht, hy⟩ := lookUp_ok hl
    split at h <;> cases h
    simp [hk, Node.Kind.opensBlock, declaredOnEntry, ht, hy]
  case h_7 value _ hk =>
    obtain ⟨ht, hy⟩ := lookUpIfNamed_ok h
    simp [hk, Node.Kind.opensBlock, declaredOnEntry, ht, hy]
  case h_8 hk =>
    cases h
    simp [hk, Node.Kind.opensBlock, declaredOnEntry, SymbolTable.adding, SymbolTable.insert,
      SymbolTable.openBlock]
  case h_13 =>
    cases h
    cases hk : root.kind <;> simp_all [Node.Kind.opensBlock, declaredOnEntry]
  all_goals cases h
  all_goals simp [*, Node.Kind.opensBlock, declaredOnEntry]

theorem getElem?_insert_type (types : Std.TreeMap Nat Ty) (i j : Nat) (t : Ty) :
    (types.insert i t)[j]? = if i = j then some t else types[j]? := by
  simp [Std.TreeMap.getElem?_insert]

/-- Giving a node its type, when some of its children were given theirs. -/
theorem giveType_ok {root : Node} (children : List Tree) {children' : List Tree} {type : Ty}
    {s s' : State} {t : Tree} (hu : children'.map Tree.untyped = children.map Tree.untyped)
    (h : (giveType (.node root children') type : Step Tree Tree) s = .ok (t, s')) :
    t.untyped = (Tree.node root children).untyped ∧ s'.types[root.id]? = some t.type ∧
      (∀ i ≠ root.id, s'.types[i]? = s.types[i]?) ∧ s'.table = s.table := by
  cases h
  refine ⟨by simp [hu], by simp [Tree.root, Tree.type, Tree.typed], fun i hi => ?_, rfl⟩
  exact (getElem?_insert_type _ _ _ _).trans (if_neg (Ne.symm hi))

/-- Leaving a node closes its block, and gives types to it and some of its children. -/
theorem leave_ok {root : Node} {named : Option Symbol} {children : List Tree} {s s' : State}
    {t : Tree} (h : leave root named children s = .ok (t, s')) :
    (t.untyped = (Tree.node root children).untyped ∧
      s'.types[root.id]? = some t.type ∧
      ∀ i ∉ root.id :: children.map (·.root.id), s'.types[i]? = s.types[i]?) ∧
    s'.table = if root.kind.opensBlock then s.table.closeBlock else s.table := by
  generalize hx : leave root named children = step at h
  unfold leave at hx
  split at hx <;> subst hx
  case h_1 target value hk =>
    obtain ⟨_, s₁, hg, h⟩ := Step.bind_ok.mp h
    cases hg
    obtain ⟨hu, hr, hf, ht⟩ := giveType_ok [target, value] (by simp) h
    refine ⟨⟨hu, hr, fun i hi => ?_⟩, by simp [hk, Node.Kind.opensBlock, ht]⟩
    simp only [List.map_cons, List.mem_cons, not_or] at hi
    rw [hf i hi.1, getElem?_insert_type, if_neg (Ne.symm hi.2.1)]
  case h_2 left comparator right hk =>
    cases hc : left.type.common? right.type with
    | none =>
      simp only [hc] at h
      cases h
    | some common =>
      simp only [hc] at h
      obtain ⟨_, s₁, hg, h⟩ := Step.bind_ok.mp h
      cases hg
      obtain ⟨hu, hr, hf, ht⟩ := giveType_ok [left, comparator, right] (by simp) h
      refine ⟨⟨hu, hr, fun i hi => ?_⟩, by simp [hk, Node.Kind.opensBlock, ht]⟩
      simp only [List.map_cons, List.mem_cons, not_or] at hi
      rw [hf i hi.1, getElem?_insert_type, if_neg (Ne.symm hi.2.2.1)]
  case h_8 =>
    have hk : root.kind.opensBlock = false := by
      cases hk : root.kind <;> simp_all [Node.Kind.opensBlock]
    cases named <;>
    · obtain ⟨hu, hr, hf, ht⟩ := giveType_ok _ rfl h
      exact ⟨⟨hu, hr, fun i hi => hf i (List.ne_of_not_mem_cons hi)⟩, by simp [hk, ht]⟩
  all_goals
    obtain ⟨_, s₁, hc, h⟩ := Step.bind_ok.mp h
    cases hc
    obtain ⟨hu, hr, hf, ht⟩ := giveType_ok _ rfl h
    exact ⟨⟨hu, hr, fun i hi => hf i (List.ne_of_not_mem_cons hi)⟩,
      by simp [*, Node.Kind.opensBlock]⟩

/-! ## What a tree leaves declared -/

/-- What a child in its place leaves declared, given what its own check does. -/
def Place.declared (place : Place) (depth : Nat) (child : Node) (own : List Symbol) :
    List Symbol :=
  match place with
  | skipped => []
  | parameter => ⟨child.name, depth, .parameter, .node child.id⟩ :: own
  | plain | argument | compared | operand => own

mutual

/-- The declarations that the check of a tree leaves in the table: its own, and those of the
nodes below it that are in no block of their own. -/
def declared (depth : Nat) : Tree → List Symbol
  | .node root children =>
    declaredOnEntry depth root children ++
      if root.kind.opensBlock then [] else declaredAll depth (Place.of root.kind) children

def declaredAll (depth : Nat) (place : Nat → Place) : List Tree → List Symbol
  | [] => []
  | child :: rest =>
    (place 0).declared depth child.root (declared depth child) ++
      declaredAll depth (fun i => place (i + 1)) rest

end

theorem mem_declaredOnEntry {depth : Nat} {root : Node} {children : List Tree} {y : Symbol}
    (h : y ∈ declaredOnEntry depth root children) :
    y.depth = depth ∧ ∃ i ∈ (Tree.node root children).ids, y.declaration = .node i := by
  unfold declaredOnEntry at h
  split at h
  · cases List.mem_singleton.mp h
    exact ⟨rfl, _, by simp [Tree.id_mem_ids], rfl⟩
  · cases List.mem_singleton.mp h
    exact ⟨rfl, _, by simp, rfl⟩
  · cases h

theorem Place.mem_declared {place : Place} {depth : Nat} {child : Tree} {own : List Symbol}
    {y : Symbol} (h : y ∈ place.declared depth child.root own)
    (hown : y ∈ own → y.depth = depth ∧ ∃ i ∈ child.ids, y.declaration = .node i) :
    y.depth = depth ∧ ∃ i ∈ child.ids, y.declaration = .node i := by
  cases place <;> simp only [Place.declared, List.not_mem_nil, List.mem_cons] at h
  case parameter =>
    rcases h with rfl | h
    · exact ⟨rfl, _, child.id_mem_ids, rfl⟩
    · exact hown h
  all_goals exact hown h

mutual

/-- What a tree declares has the depth at hand, and is declared by one of its nodes. -/
theorem mem_declared (depth : Nat) (t : Tree) {y : Symbol} (h : y ∈ declared depth t) :
    y.depth = depth ∧ ∃ i ∈ t.ids, y.declaration = .node i := by
  cases t with
  | node root children =>
    rw [declared, List.mem_append] at h
    rcases h with h | h
    · exact mem_declaredOnEntry h
    · split at h
      · cases h
      · obtain ⟨hd, i, hi, he⟩ := mem_declaredAll depth _ children h
        exact ⟨hd, i, by simp [hi], he⟩

theorem mem_declaredAll (depth : Nat) (place : Nat → Place) (ts : List Tree) {y : Symbol}
    (h : y ∈ declaredAll depth place ts) :
    y.depth = depth ∧ ∃ i ∈ Tree.idsAll ts, y.declaration = .node i := by
  cases ts with
  | nil => cases h
  | cons child rest =>
    rw [declaredAll, List.mem_append] at h
    rcases h with h | h
    · obtain ⟨hd, i, hi, he⟩ := Place.mem_declared h (mem_declared depth child)
      exact ⟨hd, i, by simp [hi], he⟩
    · obtain ⟨hd, i, hi, he⟩ := mem_declaredAll depth _ rest h
      exact ⟨hd, i, by simp [hi], he⟩

end

end Typing

/-! ## Tables between an opened block and its end -/

/-- No declaration is deeper than the current block. -/
def SymbolTable.Bounded (t : SymbolTable) : Prop := ∀ y ∈ t.symbols, y.depth ≤ t.depth

theorem SymbolTable.Bounded.adding {t : SymbolTable} {symbols : List Symbol} (h : t.Bounded)
    (hs : ∀ y ∈ symbols, y.depth = t.depth) : (t.adding symbols).Bounded := by
  intro y hy
  rcases List.mem_append.mp hy with hy | hy
  · exact h y hy
  · exact Nat.le_of_eq (hs y hy)

theorem SymbolTable.Bounded.openBlock {t : SymbolTable} (h : t.Bounded) : t.openBlock.Bounded :=
  fun y hy => Nat.le_succ_of_le (h y hy)

/-- The end of a block forgets what was declared in it, and nothing else. -/
theorem SymbolTable.closeBlock_adding {t : SymbolTable} {symbols : List Symbol} (h : t.Bounded)
    (hs : ∀ y ∈ symbols, y.depth = t.openBlock.depth) :
    (t.openBlock.adding symbols).closeBlock = t := by
  show SymbolTable.mk ((t.symbols ++ symbols).filter _) _ = t
  rw [List.filter_append, List.filter_eq_self.mpr, List.filter_eq_nil_iff.mpr, List.append_nil]
  · rfl
  · intro y hy
    simp [hs y hy]
  · intro y hy
    exact decide_eq_true (Nat.ne_of_lt (Nat.lt_succ_of_le (h y hy)))

namespace Typing

/-! ## A successful check -/

/-- What a successful check does to a tree and to the state: the tree has new types only, the
table has the new declarations at its end, the types of other nodes are as before, and the
root has the type that the state gives it. -/
structure Checked (t : Tree) (s : State) (t' : Tree) (s' : State) : Prop where
  untyped : t'.untyped = t.untyped
  table : s'.table = s.table.adding (declared s.table.depth t)
  frame : ∀ i ∉ t.ids, s'.types[i]? = s.types[i]?
  settled : s'.types[t.root.id]? = some t'.type

/-- What a successful check of several trees does. -/
structure CheckedAll (place : Nat → Place) (ts : List Tree) (s : State) (ts' : List Tree)
    (s' : State) : Prop where
  untyped : ts'.map Tree.untyped = ts.map Tree.untyped
  table : s'.table = s.table.adding (declaredAll s.table.depth place ts)
  frame : ∀ i ∉ Tree.idsAll ts, s'.types[i]? = s.types[i]?

/-- Around the check of a child, nothing happens but what its place says. -/
theorem Place.around_ok {place : Place} {child t' : Tree} {s s' : State}
    (own : ∀ {s s' : State} {t' : Tree}, s.table.Bounded → check child s = .ok (t', s') →
      Checked child s t' s')
    (hb : s.table.Bounded) (h : place.around child (check child) s = .ok (t', s')) :
    t'.untyped = child.untyped ∧
      s'.table = s.table.adding
        (place.declared s.table.depth child.root (Typing.declared s.table.depth child)) ∧
      ∀ i ∉ child.ids, s'.types[i]? = s.types[i]? := by
  cases place with
  | skipped =>
    cases h
    exact ⟨rfl, by simp [Place.declared], fun _ _ => rfl⟩
  | plain =>
    have checked := own hb h
    exact ⟨checked.untyped, checked.table, checked.frame⟩
  | parameter =>
    obtain ⟨_, s₁, hd, h⟩ := Step.bind_ok.mp h
    cases hd
    have checked := own (hb.adding (by simp)) h
    refine ⟨checked.untyped, ?_, checked.frame⟩
    rw [checked.table]
    simp [Place.declared, SymbolTable.adding, SymbolTable.insert]
  | argument =>
    obtain ⟨_, s₁, hl, h⟩ := Step.bind_ok.mp h
    obtain ⟨ht, hy⟩ := refuseFunction_ok (Step.leaving_ok.mp hl)
    have checked := own (ht ▸ hb) h
    exact ⟨checked.untyped, by rw [checked.table, ht]; rfl, by simpa [hy] using checked.frame⟩
  | compared =>
    obtain ⟨_, s₁, hl, h⟩ := Step.bind_ok.mp h
    obtain ⟨ht, hy⟩ := lookUpIfNamed_ok (Step.leaving_ok.mp hl)
    have checked := own (ht ▸ hb) h
    exact ⟨checked.untyped, by rw [checked.table, ht]; rfl, by simpa [hy] using checked.frame⟩
  | operand =>
    obtain ⟨child', s₁, hc, h⟩ := Step.bind_ok.mp h
    have checked := own hb hc
    obtain ⟨_, s₂, hl, h⟩ := Step.bind_ok.mp h
    obtain ⟨ht, hy⟩ := requireNumeric_ok (Step.leaving_ok.mp hl)
    cases h
    exact ⟨checked.untyped, by rw [ht, checked.table]; rfl, by simpa [hy] using checked.frame⟩

theorem depth_of_mem_declared {place : Nat → Place} {ts : List Tree} {depth : Nat} :
    ∀ y ∈ declaredAll depth place ts, y.depth = depth :=
  fun _ hy => (mem_declaredAll depth place ts hy).1

/-- The numbers of the roots are among those of the trees. -/
theorem Tree.map_id_subset (ts : List Tree) : ts.map (·.root.id) ⊆ Tree.idsAll ts := by
  intro i hi
  obtain ⟨t, ht, rfl⟩ := List.mem_map.mp hi
  exact List.mem_flatMap.mpr ⟨t, ht, t.id_mem_ids⟩

theorem Tree.map_id_of_untyped {ts us : List Tree}
    (h : ts.map Tree.untyped = us.map Tree.untyped) :
    ts.map (·.root.id) = us.map (·.root.id) := by
  have ids : ∀ t : Tree, t.untyped.root.id = t.root.id := fun t => by simp [Tree.untyped]
  have := congrArg (List.map (·.root.id)) h
  simpa [Function.comp_def, ids] using this

theorem enter_bounded {root : Node} {children : List Tree} {named : Option Symbol} {s s' : State}
    (hb : s.table.Bounded) (h : enter root children s = .ok (named, s')) : s'.table.Bounded := by
  have added : (s.table.adding (declaredOnEntry s.table.depth root children)).Bounded :=
    hb.adding fun y hy => (mem_declaredOnEntry hy).1
  rw [(enter_ok h).2]
  split
  · exact added.openBlock
  · exact added

mutual

/-- What a successful check does. -/
theorem check_ok (t : Tree) {s s' : State} {t' : Tree} (hb : s.table.Bounded)
    (h : check t s = .ok (t', s')) : Checked t s t' s' := by
  cases t with
  | node root children =>
    rw [check] at h
    obtain ⟨named, s₁, he, h⟩ := Step.bind_ok.mp h
    obtain ⟨children', s₂, hc, hl⟩ := Step.bind_ok.mp h
    obtain ⟨typesIn, tableIn⟩ := enter_ok (Step.leaving_ok.mp he)
    obtain ⟨⟨untyped, settled, frameOut⟩, tableOut⟩ := leave_ok hl
    have added : ∀ y ∈ declaredOnEntry s.table.depth root children, y.depth = s.table.depth :=
      fun y hy => (mem_declaredOnEntry hy).1
    have bounded := enter_bounded hb (Step.leaving_ok.mp he)
    have inside := checkAll_ok (Place.of root.kind) children bounded (Step.leaving_ok.mp hc)
    refine ⟨?_, ?_, fun i hi => ?_, settled⟩
    · rw [untyped, Tree.untyped_node, Tree.untyped_node, inside.untyped]
    · rw [tableOut, inside.table, tableIn, declared]
      split
      · rw [SymbolTable.closeBlock_adding (hb.adding added) depth_of_mem_declared]
        simp
      · rw [SymbolTable.adding_adding]
        rfl
    · simp only [Tree.ids_node, List.mem_cons, not_or] at hi
      rw [frameOut i, inside.frame i hi.2, typesIn]
      rw [Tree.map_id_of_untyped inside.untyped, List.mem_cons, not_or]
      exact ⟨hi.1, fun h => hi.2 (Tree.map_id_subset _ h)⟩

theorem checkAll_ok (place : Nat → Place) (ts : List Tree) {s s' : State} {ts' : List Tree}
    (hb : s.table.Bounded) (h : checkAll place ts s = .ok (ts', s')) :
    CheckedAll place ts s ts' s' := by
  cases ts with
  | nil =>
    rw [checkAll] at h
    cases h
    exact ⟨rfl, by simp [declaredAll], fun _ _ => rfl⟩
  | cons child rest =>
    obtain ⟨child', s₁, rest', hc, hr, rfl⟩ := checkAll_cons_ok.mp h
    obtain ⟨untyped, table, frame⟩ :=
      Place.around_ok (fun hb h => check_ok child hb h) hb hc
    have bounded : s₁.table.Bounded := by
      rw [table]
      exact hb.adding fun y hy => (Place.mem_declared hy (mem_declared _ child)).1
    have others := checkAll_ok (fun i => place (i + 1)) rest bounded hr
    refine ⟨by simp [untyped, others.untyped], ?_, fun i hi => ?_⟩
    · rw [others.table, table, SymbolTable.adding_adding, declaredAll]
      rfl
    · simp only [Tree.idsAll_cons, List.mem_append, not_or] at hi
      rw [others.frame i hi.2, frame i hi.1]

end

/-- A block that was opened, filled and closed leaves the table as it was, and types to the
nodes of the block only. -/
theorem block_closed {children children' : List Tree} {place : Nat → Place}
    {s s₁ s₂ : State} (root : Node) (type : Ty) (hb : s.table.Bounded)
    (ht : s₁.table = s.table.openBlock) (hk : s₁.types = s.types)
    (hc : checkAll place children s₁ = .ok (children', s₂)) :
    s₂.table.closeBlock = s.table ∧ ∀ i ∉ root.id :: Tree.idsAll children,
      (s₂.types.insert root.id type)[i]? = s.types[i]? := by
  have checked := checkAll_ok place children (ht ▸ hb.openBlock) hc
  refine ⟨?_, fun i hi => ?_⟩
  · rw [checked.table, ht]
    exact SymbolTable.closeBlock_adding hb depth_of_mem_declared
  · rw [List.mem_cons, not_or] at hi
    rw [getElem?_insert_type, if_neg (Ne.symm hi.1), checked.frame i hi.2, hk]

/-! ## Numbers that were not met yet -/

/-- None of the numbers has a type or declares anything. -/
def Fresh (s : State) (is : List Nat) : Prop :=
  ∀ i ∈ is, s.types[i]? = none ∧ ∀ y ∈ s.table.symbols, y.declaration ≠ .node i

/-- Before a check, the standard functions are declared and nothing else. -/
theorem builtin_start : ∀ y ∈ State.start.table.symbols, ∃ t, y.declaration = .builtin t := by
  simp [State.start, SymbolTable.withStandard, standardFunctions, SymbolTable.insert,
    SymbolTable.empty]

/-- Nothing is declared by a node before a check. -/
theorem fresh_start (is : List Nat) : Fresh .start is := by
  refine fun i _ => ⟨rfl, fun y hy h => ?_⟩
  obtain ⟨t, ht⟩ := builtin_start y hy
  rw [ht] at h
  cases h

theorem bounded_start : State.start.table.Bounded := by
  unfold SymbolTable.Bounded
  decide

theorem Fresh.mono {s : State} {is js : List Nat} (h : Fresh s is) (hs : js ⊆ is) : Fresh s js :=
  fun i hi => h i (hs hi)

/-- What was declared keeps its type while fresh numbers get theirs. -/
theorem Fresh.keeps {s s' : State} {is : List Nat} (h : Fresh s is)
    (frame : ∀ i ∉ is, s'.types[i]? = s.types[i]?) :
    ∀ y ∈ s.table.symbols, s'.typeOf? y = s.typeOf? y := by
  intro y hy
  unfold State.typeOf?
  split
  · rfl
  · rename_i i hd
    exact frame i fun hi => (h i hi).2 y hy hd

/-- Numbers stay fresh while others are met. -/
theorem Fresh.after {s s' : State} {is js : List Nat} {symbols : List Symbol} (h : Fresh s is)
    (apart : ∀ i ∈ is, i ∉ js) (frame : ∀ i ∉ js, s'.types[i]? = s.types[i]?)
    (table : s'.table.symbols = s.table.symbols ++ symbols)
    (met : ∀ y ∈ symbols, ∃ j ∈ js, y.declaration = .node j) : Fresh s' is := by
  intro i hi
  rw [frame i (apart i hi)]
  refine ⟨(h i hi).1, fun y hy => ?_⟩
  rw [table, List.mem_append] at hy
  rcases hy with hy | hy
  · exact (h i hi).2 y hy
  · obtain ⟨j, hj, hd⟩ := met y hy
    rw [hd]
    rintro ⟨⟩
    exact apart i hi hj

theorem Fresh.declare {s s' : State} {is : List Nat} {name : String}
    {category : Symbol.Category} {i : Nat} (h : Fresh s is) (hi : i ∉ is)
    (ht : s'.table = s.table.insert name category (.node i)) (hk : s'.types = s.types) :
    Fresh s' is := by
  intro j hj
  rw [hk]
  refine ⟨(h j hj).1, fun y hy => ?_⟩
  rw [ht, SymbolTable.insert, List.mem_append, List.mem_singleton] at hy
  rcases hy with hy | rfl
  · exact (h j hj).2 y hy
  · rintro ⟨⟩
    exact hi hj

theorem Fresh.sameButHistory {s s' : State} {is : List Nat} (h : Fresh s is)
    (hs : SameButHistory s s') : Fresh s' is := by
  intro i hi
  rw [hs.1, hs.2]
  exact h i hi

theorem Checked.fresh {t t' : Tree} {s s' : State} {is : List Nat} (h : Checked t s t' s')
    (hf : Fresh s is) (apart : ∀ i ∈ is, i ∉ t.ids) : Fresh s' is :=
  hf.after apart h.frame (by rw [h.table]; rfl) fun _ hy => (mem_declared _ t hy).2

/-- Around the check of a child, only the numbers of the child are met. -/
theorem Place.fresh_around {place : Place} {child t' : Tree} {s s' : State} {is : List Nat}
    (hb : s.table.Bounded) (h : place.around child (check child) s = .ok (t', s'))
    (hf : Fresh s is) (apart : ∀ i ∈ is, i ∉ child.ids) : Fresh s' is := by
  obtain ⟨-, table, frame⟩ := Place.around_ok (fun hb h => check_ok child hb h) hb h
  apply hf.after apart frame (by rw [table]; rfl)
  intro y hy
  exact (Place.mem_declared hy (Typing.mem_declared _ child)).2

theorem CheckedAll.fresh {place : Nat → Place} {ts ts' : List Tree} {s s' : State}
    {is : List Nat} (h : CheckedAll place ts s ts' s') (hf : Fresh s is)
    (apart : ∀ i ∈ is, i ∉ Tree.idsAll ts) : Fresh s' is :=
  hf.after apart h.frame (by rw [h.table]; rfl) fun _ hy => (mem_declaredAll _ _ ts hy).2

/-! ## Leaves -/

theorem check_leaf {root : Node} (h : root.kind.isLeaf) (s : State) :
    check (.node root []) s = .ok ((Tree.node root []).typed (typeFrom root []),
      { s with types := s.types.insert root.id (typeFrom root []) }) := by
  cases hk : root.kind <;> rw [hk] at h <;>
    first
    | exact absurd h (by decide)
    | simp only [check, enter, leave, hk]; rfl

/-! ## Nodes that have their children checked and no more -/

end Typing

/-- The kinds of the nodes that declare nothing, open no block and look nothing up. -/
def Node.Kind.isPlain (k : Node.Kind) : Bool :=
  k ∈ [program, functionParameters, invocationArguments, instruction, instructionBlock,
    conditional, conditionalExpression, mathExpression]

namespace Typing

theorem enter_plain {root : Node} (h : root.kind.isPlain) (children : List Tree) :
    enter root children = pure none := by
  obtain ⟨id, kind, content, position, type⟩ := root
  cases kind <;> first | rfl | simp [Node.Kind.isPlain] at h

theorem leave_plain {root : Node} (h : root.kind.isPlain) (children : List Tree) :
    leave root none children = giveType (.node root children) (typeFrom root children) := by
  obtain ⟨id, kind, content, position, type⟩ := root
  cases kind <;> first | rfl | simp [Node.Kind.isPlain] at h

/-! ## Nodes with a block of their own -/

theorem enter_block {root : Node} (h : root.kind.opensBlock) (hf : root.kind ≠ .function)
    (children : List Tree) :
    enter root children = (do
      openBlock root.kind
      return none) := by
  obtain ⟨id, kind, content, position, type⟩ := root
  cases kind <;> first | rfl | exact absurd rfl hf | simp [Node.Kind.opensBlock] at h

theorem leave_block {root : Node} (h : root.kind.opensBlock) (named : Option Symbol)
    (children : List Tree) :
    leave root named children = (do
      closeBlock
      giveType (.node root children) (typeFrom root children)) := by
  obtain ⟨id, kind, content, position, type⟩ := root
  cases kind <;> first | rfl | simp [Node.Kind.opensBlock] at h

/-! ## Nodes with a fixed number of children -/

theorem check_assignment {root : Node} {target value : Tree} (hk : root.kind = .assignment) :
    check (.node root [target, value]) = (do
      let _ ← (lookUpIfNamed value.root).leaving fun _ => .node root [target, value]
      declare target.root.name .variable target.root
      let value ← (check value).leaving fun v => .node root [target, v]
      let target ← giveType target value.type
      giveType (.node root [target, value]) value.type) := by
  simp only [check, enter, leave, hk, checkAll, Place.of, Place.around, Step.leaving_bind,
    Step.leaving_leaving, Step.leaving_pure, Step.leaving_declare, bind_assoc, pure_bind, if_pos,
    Nat.succ_ne_zero, if_false]

theorem check_comparison {root : Node} {left comparator right : Tree}
    (hk : root.kind = .comparison) :
    check (.node root [left, comparator, right]) = (do
      let _ ← (lookUpIfNamed left.root).leaving fun _ => .node root [left, comparator, right]
      let left ← (check left).leaving fun l => .node root [l, comparator, right]
      let _ ← (lookUpIfNamed right.root).leaving fun _ => .node root [left, comparator, right]
      let right ← (check right).leaving fun r => .node root [left, comparator, r]
      leave root none [left, comparator, right]) := by
  simp +decide only [check, enter, hk, checkAll, Place.of, Place.around, Step.leaving_bind,
    Step.leaving_leaving, Step.leaving_pure, bind_assoc, pure_bind, if_pos, if_false]

theorem check_invocation {root : Node} {callee : Tree} {rest : List Tree}
    (hk : root.kind = .invocation) :
    check (.node root (callee :: rest)) = (do
      let symbol ← (lookUp callee.root).leaving fun _ => .node root (callee :: rest)
      if symbol.category = .function then
        let children ← (checkAll (fun _ => .plain) (callee :: rest)).leaving (.node root)
        leave root (some symbol) children
      else stop (.notCallable symbol.name callee.root.position) (.node root (callee :: rest))) := by
  rw [check, hk]
  simp only [enter, hk, Step.leaving_bind, bind_assoc]
  congr 1
  funext symbol
  split <;> rfl

theorem check_return {root : Node} {value : Tree} (hk : root.kind = .return) :
    check (.node root [value]) = (do
      let named ← (lookUpIfNamed value.root).leaving fun _ => .node root [value]
      let value ← (check value).leaving fun v => .node root [v]
      leave root named [value]) := by
  simp only [check, enter, hk, checkAll, Place.of, Place.around, Step.leaving_bind,
    Step.leaving_leaving, Step.leaving_pure, bind_assoc, pure_bind, if_pos]

theorem check_return_nothing {root : Node} (hk : root.kind = .return) (s : State) :
    check (.node root []) s =
      .ok ((Tree.node root []).typed .none, { s with types := s.types.insert root.id .none }) := by
  obtain ⟨id, kind, content, position, type⟩ := root
  cases hk
  rfl

/-! ## What the place of a child tells -/

theorem parameter_of_place {k : Node.Kind} {index : Nat} (h : Place.of k index = .parameter) :
    k = .functionParameters := by
  cases k <;> grind [Place.of]

theorem operand_of_place {k : Node.Kind} {index : Nat} (h : Place.of k index = .operand) :
    k = .mathExpression := by
  cases k <;> grind [Place.of]

theorem declared_function {t : Tree} (h : t.root.kind = .function) (depth : Nat) :
    declared depth t = [⟨t.root.name, depth, .function, .node t.root.id⟩] := by
  obtain ⟨root, children⟩ := t
  change root.kind = .function at h
  simp [declared, declaredOnEntry, h, Node.Kind.opensBlock, Tree.root]

/-- A block leaves nothing declared but the name of a function. -/
theorem declared_block {t : Tree} (hk : t.root.kind.opensBlock) (hf : t.root.kind ≠ .function)
    (depth : Nat) : declared depth t = [] := by
  obtain ⟨root, children⟩ := t
  change root.kind.opensBlock at hk
  change root.kind ≠ .function at hf
  rw [declared, if_pos hk, List.append_nil]
  unfold declaredOnEntry
  split <;> simp_all [Node.Kind.opensBlock]

/-- A child that is no parameter leaves what its own check does, unless it is skipped. -/
theorem declared_of_place {place : Place} {depth : Nat} {child : Node} {own : List Symbol}
    (hp : place ≠ .parameter) (hs : place = .skipped → own = []) :
    place.declared depth child own = own := by
  cases place with
  | parameter => exact absurd rfl hp
  | skipped => exact (hs rfl).symm
  | plain | argument | compared | operand => rfl

/-! ## Trees that declare nothing -/

theorem declared_leaf {depth : Nat} {t : Tree} (hl : t.LaidOut) (h : t.root.kind.isLeaf) :
    declared depth t = [] := by
  obtain ⟨root, children⟩ := t
  obtain rfl : children = [] := Tree.children_of_isLeaf hl h
  change root.kind.isLeaf at h
  rw [declared, declaredAll]
  cases hk : root.kind <;> simp [declaredOnEntry, hk]
  rw [hk] at h
  exact absurd h (by decide)

theorem declaredAll_nil {depth : Nat} {place : Nat → Place} {ts : List Tree}
    (hp : ∀ i, place i ≠ .parameter) (h : ∀ t ∈ ts, declared depth t = []) :
    declaredAll depth place ts = [] := by
  induction ts generalizing place with
  | nil => rfl
  | cons t ts ih =>
    rw [List.forall_mem_cons] at h
    rw [declaredAll, ih (fun i => hp (i + 1)) h.2, h.1]
    cases hp' : place 0 <;> simp [Place.declared]
    exact hp 0 hp'

/-- A node without declarations of its own declares what its children do. -/
theorem declared_nil {depth : Nat} {root : Node} {children : List Tree}
    (hk : root.kind ≠ .assignment ∧ root.kind ≠ .function ∧ root.kind ≠ .functionParameters)
    (h : ∀ t ∈ children, declared depth t = []) : declared depth (.node root children) = [] := by
  have place : ∀ i, Place.of root.kind i ≠ .parameter := fun _ hi => hk.2.2 (parameter_of_place hi)
  have entry : declaredOnEntry depth root children = [] := by
    unfold declaredOnEntry
    split <;> simp_all
  rw [declared, entry, declaredAll_nil place h]
  simp

theorem declared_arguments {depth : Nat} {t : Tree} (hl : t.LaidOut)
    (hk : t.root.kind = .invocationArguments) : declared depth t = [] := by
  obtain ⟨root, children⟩ := t
  change root.kind = .invocationArguments at hk
  refine declared_nil (by simp [hk]) fun t ht => declared_leaf (hl.child t ht) ?_
  exact Node.Kind.isLeaf_of_isValue (hl.arguments hk t ht)

/-- What is assigned or given back declares nothing. -/
theorem declared_expression {depth : Nat} {t : Tree} (hl : t.LaidOut)
    (h : t.root.kind.isExpression) : declared depth t = [] := by
  obtain ⟨root, children⟩ := t
  change root.kind.isExpression at h
  simp only [Node.Kind.isExpression, Bool.or_eq_true, decide_eq_true_eq] at h
  rcases h with (hk | hk) | hk
  · exact declared_nil (by simp [hk]) fun t ht =>
      declared_leaf (hl.child t ht) (hl.operands hk t ht)
  · apply declared_nil (by simp [hk])
    intro t ht
    obtain ⟨callee, rest, rfl, hc, rfl | ⟨arguments, rfl, ha⟩⟩ := hl.invocation hk
    · obtain rfl := List.mem_singleton.mp ht
      exact declared_leaf (hl.child t ht) (by rw [hc]; rfl)
    · have hlt := hl.child t ht
      simp only [List.mem_cons, List.not_mem_nil, or_false] at ht
      rcases ht with rfl | rfl
      · exact declared_leaf hlt (by rw [hc]; rfl)
      · exact declared_arguments hlt ha
  · exact declared_leaf hl (Node.Kind.isLeaf_of_isValue hk)

end Typing

end Mamuth
