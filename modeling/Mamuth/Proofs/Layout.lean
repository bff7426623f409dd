-- The child-layout table: which children a node of each kind has. The tree of every
-- program keeps it, and no two nodes of such a tree have the same number.
import Mamuth.ProgramTree

namespace Mamuth

namespace Node.Kind

/-! ## The table -/

def isLeaf (k : Kind) : Bool :=
  k ∈ [text, integer, float, boolean, operator, logicalOperator, comparator, identifier]

/-- The leaves that stand for a value. -/
def isValue (k : Kind) : Bool := k ∈ [identifier, text, integer, float, boolean]

/-- What an assignment assigns and a return gives back. -/
def isExpression (k : Kind) : Bool := k = mathExpression || k = invocation || k.isValue

/-- An operator and a value, any number of times. -/
def inTurn : List Kind → Bool
  | [] => true
  | sign :: value :: rest => sign = operator && value.isValue && inTurn rest
  | _ => false

/-- Whether a node of the kind may have children of these kinds, in this order. -/
def admits : Kind → List Kind → Bool
  | program, ks => (ks.dropWhile (· = assignment)).dropWhile (· = function) = [main]
  | assignment, [target, value] => target = identifier && value.isExpression
  | function, name :: ks =>
    name = identifier && (ks = [instructionBlock] || ks = [functionParameters, instructionBlock])
  | invocation, callee :: ks => callee = identifier && (ks = [] || ks = [invocationArguments])
  | functionParameters, k :: ks => (k :: ks).all (· = identifier)
  | invocationArguments, k :: ks => (k :: ks).all isValue
  | main, ks | elseBranch, ks => ks = [instructionBlock]
  | instructionBlock, k :: ks => (k :: ks).all (· = instruction)
  | instruction, [k] => k ∈ [loop, assignment, conditional, .return]
  | loop, ks => ks = [instructionBlock, conditionalExpression]
  | conditional, ks => ks = [ifBranch] || ks = [ifBranch, elseBranch]
  | ifBranch, ks => ks = [conditionalExpression, instructionBlock]
  | conditionalExpression, ks => ks = [comparison] || ks = [comparison, logicalOperator, comparison]
  | comparison, [left, sign, right] => left.isValue && sign = comparator && right.isValue
  | .return, ks => ks = [] || ks.map isExpression = [true]
  | mathExpression, k :: ks => k.isValue && inTurn ks
  | k, ks => k.isLeaf && ks = []

theorem isLeaf_of_isValue {k : Kind} (h : k.isValue) : k.isLeaf := by
  cases k <;> first | rfl | exact absurd h (by decide)

theorem isLeaf_of_inTurn {ks : List Kind} (h : inTurn ks) : ∀ k ∈ ks, k.isLeaf := by
  induction ks using inTurn.induct with
  | case1 => simp
  | case2 sign value rest ih =>
    simp only [inTurn, Bool.and_eq_true, decide_eq_true_eq] at h
    obtain ⟨⟨rfl, hv⟩, hr⟩ := h
    simpa [isLeaf_of_isValue hv] using ⟨rfl, ih hr⟩
  | case3 ks h₁ h₂ => simp [inTurn] at h

theorem isValue_of_inTurn {ks : List Kind} (h : inTurn ks) :
    ∀ k ∈ ks, k.isValue ∨ k = operator := by
  induction ks using inTurn.induct with
  | case1 => simp
  | case2 sign value rest ih =>
    simp only [inTurn, Bool.and_eq_true, decide_eq_true_eq] at h
    obtain ⟨⟨rfl, hv⟩, hr⟩ := h
    simpa [hv] using ih hr
  | case3 ks h₁ h₂ => simp [inTurn] at h

end Node.Kind

attribute [local simp] Node.Kind.admits

namespace Tree

/-- A leaf holds its text, a function or an invocation the name of its first child, and any
other node nothing. -/
def contentFits (root : Node) (children : List Tree) : Bool :=
  if root.kind.isLeaf then root.content.isSome
  else if root.kind = .function || root.kind = .invocation then
    root.content.isSome && root.content = children.head?.bind (·.root.content)
  else root.content = none

/-- Whether the table allows the root with these children. -/
def fits (root : Node) (children : List Tree) : Bool :=
  root.kind.admits (children.map (·.root.kind)) && contentFits root children

/-- A tree all of whose nodes are as the table says. -/
def LaidOut (t : Tree) : Prop := ∀ u ∈ t.subtrees, fits u.root u.children

instance (t : Tree) : Decidable t.LaidOut := inferInstanceAs (Decidable (∀ u ∈ t.subtrees, _))

mutual

/-- What holds of a tree when it does of its children holds of all trees. -/
theorem ofChildren {P : Tree → Prop}
    (step : ∀ root children, (∀ c ∈ children, P c) → P (node root children)) (t : Tree) : P t := by
  cases t with
  | node root children => exact step root children (ofChildrenAll step children)

theorem ofChildrenAll {P : Tree → Prop}
    (step : ∀ root children, (∀ c ∈ children, P c) → P (node root children)) (ts : List Tree) :
    ∀ t ∈ ts, P t := by
  cases ts with
  | nil => simp
  | cons t ts => exact List.forall_mem_cons.mpr ⟨ofChildren step t, ofChildrenAll step ts⟩

end

theorem mem_subtreesAll {u : Tree} {ts : List Tree} :
    u ∈ subtreesAll ts ↔ ∃ t ∈ ts, u ∈ t.subtrees := by
  induction ts with
  | nil => simp [subtreesAll]
  | cons t ts ih => simp [subtreesAll, ih]

theorem self_mem_subtrees (t : Tree) : t ∈ t.subtrees := by
  cases t
  exact List.mem_cons_self

/-- A part of a part is a part. -/
theorem child_mem_subtrees {t u c : Tree} (h : u ∈ t.subtrees) (hc : c ∈ u.children) :
    c ∈ t.subtrees := by
  induction t using ofChildren with
  | step root children ih =>
    rcases List.mem_cons.mp h with rfl | h
    · exact .tail _ (mem_subtreesAll.mpr ⟨c, hc, self_mem_subtrees c⟩)
    · obtain ⟨d, hd, h⟩ := mem_subtreesAll.mp h
      exact .tail _ (mem_subtreesAll.mpr ⟨d, hd, ih d hd h⟩)

@[simp] theorem laidOut_node {root : Node} {children : List Tree} :
    (node root children).LaidOut ↔ fits root children ∧ ∀ c ∈ children, c.LaidOut := by
  constructor
  · intro h
    refine ⟨h (node root children) (by simp [subtrees]), fun c hc u hu => h u ?_⟩
    simp only [subtrees, List.mem_cons]
    exact Or.inr (mem_subtreesAll.mpr ⟨c, hc, hu⟩)
  · rintro ⟨hr, hc⟩ u hu
    simp only [subtrees, List.mem_cons] at hu
    rcases hu with rfl | hu
    · exact hr
    · obtain ⟨c, hm, hu⟩ := mem_subtreesAll.mp hu
      exact hc c hm u hu

theorem LaidOut.admits {root : Node} {children : List Tree} (h : (node root children).LaidOut) :
    root.kind.admits (children.map (·.root.kind)) := by
  have := (laidOut_node.mp h).1
  rw [fits, Bool.and_eq_true] at this
  exact this.1

theorem LaidOut.child {root : Node} {children : List Tree} (h : (node root children).LaidOut) :
    ∀ c ∈ children, c.LaidOut := (laidOut_node.mp h).2

theorem LaidOut.subtree {t u : Tree} (h : t.LaidOut) (hu : u ∈ t.subtrees) : u.LaidOut := by
  induction t using ofChildren with
  | step root children ih =>
    rcases List.mem_cons.mp hu with rfl | hu
    · exact h
    · obtain ⟨c, hc, hu⟩ := mem_subtreesAll.mp hu
      exact ih c hc (h.child c hc) hu

theorem LaidOut.content {root : Node} {children : List Tree} (h : (node root children).LaidOut)
    (hk : root.kind.isLeaf = false) :
    root.content = if root.kind = .function ∨ root.kind = .invocation then
      children.head?.bind (·.root.content) else none := by
  have fits := (laidOut_node.mp h).1
  rw [Tree.fits, Bool.and_eq_true, contentFits, hk] at fits
  have content := fits.2
  by_cases named : root.kind = .function ∨ root.kind = .invocation
  · rw [if_pos named]
    simp [named] at content
    exact content.2
  · rw [if_neg named]
    simpa [named] using content

theorem LaidOut.isSome_content {root : Node} {children : List Tree}
    (h : (node root children).LaidOut) (hk : root.kind.isLeaf) : root.content.isSome := by
  have fits := (laidOut_node.mp h).1
  rw [Tree.fits, Bool.and_eq_true, contentFits, if_pos hk] at fits
  exact fits.2

theorem children_of_isLeaf {t : Tree} (h : t.LaidOut) (hk : t.root.kind.isLeaf) :
    t.children = [] := by
  obtain ⟨root, children⟩ := t
  have := h.admits
  change root.kind.isLeaf at hk
  cases hr : root.kind <;> rw [hr] at this hk <;>
    first
    | exact absurd hk (by decide)
    | simp only [Node.Kind.admits, Bool.and_eq_true, decide_eq_true_eq, List.map_eq_nil_iff] at this
      exact this.2

theorem LaidOut.assignment {root : Node} {children : List Tree}
    (h : (node root children).LaidOut) (hk : root.kind = .assignment) :
    ∃ target value, children = [target, value] ∧ target.root.kind = .identifier ∧
      value.root.kind.isExpression := by
  have := h.admits
  rw [hk] at this
  rcases children with _ | ⟨target, _ | ⟨value, _ | ⟨_, _⟩⟩⟩
  case cons.cons.nil =>
    simp only [List.map_cons, List.map_nil, Node.Kind.admits, Bool.and_eq_true,
      decide_eq_true_eq] at this
    exact ⟨target, value, rfl, this⟩
  all_goals exact absurd this (by simp [Node.Kind.isLeaf])

theorem LaidOut.comparison {root : Node} {children : List Tree}
    (h : (node root children).LaidOut) (hk : root.kind = .comparison) :
    ∃ left sign right, children = [left, sign, right] ∧ left.root.kind.isValue ∧
      sign.root.kind = .comparator ∧ right.root.kind.isValue := by
  have := h.admits
  rw [hk] at this
  rcases children with _ | ⟨left, _ | ⟨sign, _ | ⟨right, _ | ⟨_, _⟩⟩⟩⟩
  case cons.cons.cons.nil =>
    simp only [List.map_cons, List.map_nil, Node.Kind.admits, Bool.and_eq_true,
      decide_eq_true_eq] at this
    exact ⟨left, sign, right, rfl, this.1.1, this.1.2, this.2⟩
  all_goals exact absurd this (by simp [Node.Kind.isLeaf])

theorem LaidOut.invocation {root : Node} {children : List Tree}
    (h : (node root children).LaidOut) (hk : root.kind = .invocation) :
    ∃ callee rest, children = callee :: rest ∧ callee.root.kind = .identifier ∧
      (rest = [] ∨ ∃ arguments, rest = [arguments] ∧
        arguments.root.kind = .invocationArguments) := by
  have := h.admits
  rw [hk] at this
  rcases children with _ | ⟨callee, rest⟩
  · exact absurd this (by simp [Node.Kind.isLeaf])
  · simp only [List.map_cons, Node.Kind.admits, Bool.and_eq_true, Bool.or_eq_true,
      decide_eq_true_eq, List.map_eq_nil_iff, List.map_eq_singleton_iff] at this
    obtain ⟨hc, rfl | ⟨arguments, rfl, ha⟩⟩ := this
    · exact ⟨callee, [], rfl, hc, Or.inl rfl⟩
    · exact ⟨callee, [arguments], rfl, hc, Or.inr ⟨arguments, rfl, ha⟩⟩

theorem LaidOut.parameters {root : Node} {children : List Tree}
    (h : (node root children).LaidOut) (hk : root.kind = .functionParameters) :
    ∀ c ∈ children, c.root.kind = .identifier := by
  have := h.admits
  rw [hk] at this
  cases children with
  | nil => simp
  | cons c cs => simpa using this

theorem LaidOut.arguments {root : Node} {children : List Tree}
    (h : (node root children).LaidOut) (hk : root.kind = .invocationArguments) :
    ∀ c ∈ children, c.root.kind.isValue := by
  have := h.admits
  rw [hk] at this
  cases children with
  | nil => simp
  | cons c cs => simpa using this

theorem LaidOut.operands {root : Node} {children : List Tree}
    (h : (node root children).LaidOut) (hk : root.kind = .mathExpression) :
    ∀ c ∈ children, c.root.kind.isLeaf := by
  have := h.admits
  rw [hk] at this
  cases children with
  | nil => simp
  | cons c cs =>
    simp only [List.map_cons, Node.Kind.admits, Bool.and_eq_true] at this
    have rest := Node.Kind.isLeaf_of_inTurn this.2
    simpa [Node.Kind.isLeaf_of_isValue this.1] using rest

/-- An operand is a value or an operator. -/
theorem LaidOut.operand {root : Node} {children : List Tree} (h : (node root children).LaidOut)
    (hk : root.kind = .mathExpression) :
    ∀ c ∈ children, c.root.kind.isValue ∨ c.root.kind = .operator := by
  have := h.admits
  rw [hk] at this
  cases children with
  | nil => simp
  | cons c cs =>
    simp only [List.map_cons, Node.Kind.admits, Bool.and_eq_true] at this
    have rest := Node.Kind.isValue_of_inTurn this.2
    simpa [this.1] using rest

theorem LaidOut.return {root : Node} {children : List Tree} (h : (node root children).LaidOut)
    (hk : root.kind = .return) :
    children = [] ∨ ∃ value, children = [value] ∧ value.root.kind.isExpression := by
  have := h.admits
  rw [hk] at this
  rcases children with _ | ⟨value, _ | ⟨_, _⟩⟩
  · exact Or.inl rfl
  · exact Or.inr ⟨value, rfl, by simpa using this⟩
  · exact absurd this (by simp)

theorem exists_pair {ts : List Tree} {a b : Node.Kind} (h : ts.map (·.root.kind) = [a, b]) :
    ∃ t u, ts = [t, u] ∧ t.root.kind = a ∧ u.root.kind = b := by
  obtain ⟨t, rest, rfl, ht, hrest⟩ := List.map_eq_cons_iff.mp h
  obtain ⟨u, rfl, hu⟩ := List.map_eq_singleton_iff.mp hrest
  exact ⟨t, u, rfl, ht, hu⟩

theorem exists_triple {ts : List Tree} {a b c : Node.Kind}
    (h : ts.map (·.root.kind) = [a, b, c]) :
    ∃ t u v, ts = [t, u, v] ∧ t.root.kind = a ∧ u.root.kind = b ∧ v.root.kind = c := by
  obtain ⟨t, rest, rfl, ht, hrest⟩ := List.map_eq_cons_iff.mp h
  obtain ⟨u, v, rfl, hu, hv⟩ := exists_pair hrest
  exact ⟨t, u, v, rfl, ht, hu, hv⟩

theorem LaidOut.function {root : Node} {children : List Tree} (h : (node root children).LaidOut)
    (hk : root.kind = .function) :
    children.map (·.root.kind) = [.identifier, .instructionBlock] ∨
      children.map (·.root.kind) = [.identifier, .functionParameters, .instructionBlock] := by
  have := h.admits
  rw [hk] at this
  cases children with
  | nil => exact absurd this (by simp [Node.Kind.isLeaf])
  | cons name rest =>
    simp only [List.map_cons, Node.Kind.admits, Bool.and_eq_true, Bool.or_eq_true,
      decide_eq_true_eq] at this
    obtain ⟨hn, hr | hr⟩ := this
    · exact Or.inl (by rw [List.map_cons, hn, hr])
    · exact Or.inr (by rw [List.map_cons, hn, hr])

theorem LaidOut.instruction {root : Node} {children : List Tree}
    (h : (node root children).LaidOut) (hk : root.kind = .instruction) :
    ∃ content, children = [content] := by
  have := h.admits
  rw [hk] at this
  rcases children with _ | ⟨content, _ | ⟨_, _⟩⟩
  case cons.nil => exact ⟨content, rfl⟩
  all_goals exact absurd this (by simp [Node.Kind.isLeaf])

/-- The nodes with a block of their own hold its instructions. -/
theorem LaidOut.block {root : Node} {children : List Tree} (h : (node root children).LaidOut)
    (hk : root.kind ∈ [.function, .main, .loop, .ifBranch, .elseBranch]) :
    ∃ block ∈ children, block.root.kind = .instructionBlock := by
  suffices .instructionBlock ∈ children.map (·.root.kind) from List.mem_map.mp this
  have admits := h.admits
  simp only [List.mem_cons, List.not_mem_nil, or_false] at hk
  rcases hk with hk | hk
  · rcases h.function hk with hks | hks <;> simp [hks]
  · rcases hk with hk | hk | hk | hk <;> rw [hk] at admits <;>
      simp only [Node.Kind.admits, decide_eq_true_eq] at admits <;> simp [admits]

theorem LaidOut.program {root : Node} {children : List Tree} (h : (node root children).LaidOut)
    (hk : root.kind = .program) : ∃ assignments functions main,
      children = assignments ++ (functions ++ [main]) ∧
        (∀ a ∈ assignments, a.root.kind = .assignment) ∧
        (∀ f ∈ functions, f.root.kind = .function) ∧ main.root.kind = .main := by
  have := h.admits
  rw [hk] at this
  simp only [Node.Kind.admits, List.dropWhile_map, decide_eq_true_eq] at this
  obtain ⟨main, hm, hmk⟩ := List.map_eq_singleton_iff.mp this
  refine ⟨children.takeWhile (·.root.kind = .assignment),
    (children.dropWhile (·.root.kind = .assignment)).takeWhile (·.root.kind = .function), main,
    ?_, ?_, ?_, hmk⟩
  · rw [← hm]
    exact (List.takeWhile_append_dropWhile.symm.trans
      (congrArg _ List.takeWhile_append_dropWhile.symm))
  · intro a ha
    exact of_decide_eq_true (List.all_eq_true.mp List.all_takeWhile a ha)
  · intro f hf
    exact of_decide_eq_true (List.all_eq_true.mp List.all_takeWhile f hf)

/-! ## Trees that differ in what their nodes hold -/

mutual

/-- The tree with each node changed, and its shape kept. -/
def map (f : Node → Node) : Tree → Tree
  | node root children => node (f root) (mapAll f children)

def mapAll (f : Node → Node) : List Tree → List Tree
  | [] => []
  | t :: ts => map f t :: mapAll f ts

end

@[simp] theorem mapAll_eq (f : Node → Node) (ts : List Tree) : mapAll f ts = ts.map (map f) := by
  induction ts with
  | nil => rfl
  | cons t ts ih => simp [mapAll, ih]

@[simp] theorem map_node (f : Node → Node) (root : Node) (children : List Tree) :
    map f (node root children) = node (f root) (children.map (map f)) := by
  rw [map, mapAll_eq]

@[simp] theorem root_map (f : Node → Node) (t : Tree) : (t.map f).root = f t.root := by
  cases t; simp [root]

/-- The kinds, contents and children of a tree, with nothing else. -/
def bare : Tree → Tree := map fun n => ⟨0, n.kind, n.content, .start, none⟩

@[simp] theorem bare_node (root : Node) (children : List Tree) :
    (node root children).bare =
      node ⟨0, root.kind, root.content, .start, none⟩ (children.map bare) := map_node _ _ _

@[simp] theorem kind_bare (t : Tree) : t.bare.root.kind = t.root.kind := by simp [bare]

@[simp] theorem content_bare (t : Tree) : t.bare.root.content = t.root.content := by simp [bare]

theorem head_content_bare (ts : List Tree) :
    (ts.map bare).head?.bind (·.root.content) = ts.head?.bind (·.root.content) := by
  cases ts <;> simp

/-- Whether the table allows a node is seen on the bare tree. -/
theorem fits_bare (root : Node) (children : List Tree) :
    fits ⟨0, root.kind, root.content, .start, none⟩ (children.map bare) = fits root children := by
  have kinds : (children.map bare).map (·.root.kind) = children.map (·.root.kind) := by
    simp [Function.comp_def]
  rw [fits, fits, contentFits, contentFits, head_content_bare, kinds]

mutual

theorem laidOut_bare (t : Tree) : t.bare.LaidOut ↔ t.LaidOut := by
  cases t with
  | node root children =>
    rw [bare_node, laidOut_node, laidOut_node, fits_bare, laidOutAll_bare children]

theorem laidOutAll_bare (ts : List Tree) :
    (∀ c ∈ ts.map bare, c.LaidOut) ↔ ∀ c ∈ ts, c.LaidOut := by
  cases ts with
  | nil => simp
  | cons t ts =>
    have := laidOutAll_bare ts
    simp only [List.map_cons, List.forall_mem_cons, laidOut_bare t, this]

end

theorem laidOut_congr {t u : Tree} (h : t.bare = u.bare) : t.LaidOut ↔ u.LaidOut := by
  rw [← laidOut_bare t, h, laidOut_bare]

/-! ## Numbers -/

/-- The numbers of the nodes, each before those below it. -/
def ids (t : Tree) : List Nat := t.nodes.map (·.id)

/-- The numbers of the nodes of several trees. -/
def idsAll (ts : List Tree) : List Nat := ts.flatMap ids

@[simp] theorem ids_node (root : Node) (children : List Tree) :
    (node root children).ids = root.id :: idsAll children := by
  have below : (subtreesAll children).map (fun t => t.root.id) = idsAll children := by
    induction children with
    | nil => rfl
    | cons t ts ih =>
      rw [subtreesAll, List.map_append, ih]
      simp [idsAll, ids, nodes, Function.comp_def]
  simp only [ids, nodes, subtrees, List.map_cons, List.map_map, Function.comp_def, below]
  rfl

@[simp] theorem idsAll_nil : idsAll [] = [] := rfl

@[simp] theorem idsAll_cons (t : Tree) (ts : List Tree) : idsAll (t :: ts) = t.ids ++ idsAll ts :=
  rfl

theorem id_mem_ids (t : Tree) : t.root.id ∈ t.ids := by
  cases t; simp [Tree.root]

mutual

/-- Numbering is not seen without the numbers. -/
theorem map_numberFrom {f : Node → Node} (hf : ∀ n id, f { n with id } = f n) (n : Nat)
    (t : Tree) : (t.numberFrom n).1.map f = t.map f := by
  cases t with
  | node root children => simp [numberFrom, hf, map_numberAllFrom hf n children]

theorem map_numberAllFrom {f : Node → Node} (hf : ∀ n id, f { n with id } = f n) (n : Nat)
    (ts : List Tree) : (numberAllFrom n ts).1.map (map f) = ts.map (map f) := by
  cases ts with
  | nil => rfl
  | cons t ts => simp [numberAllFrom, map_numberFrom hf n t, map_numberAllFrom hf _ ts]

end

mutual

/-- The numbers given lie between the first and the next one. -/
theorem mem_ids_numberFrom (n : Nat) (t : Tree) :
    ∀ i ∈ (t.numberFrom n).1.ids, n ≤ i ∧ i < (t.numberFrom n).2 := by
  cases t with
  | node root children =>
    have below := mem_ids_numberAllFrom n children
    have count := numberAllFrom_snd n children
    simp only [numberFrom, ids_node, List.mem_cons]
    rintro i (rfl | hi)
    · omega
    · have := below i hi
      omega

theorem mem_ids_numberAllFrom (n : Nat) (ts : List Tree) :
    ∀ i ∈ idsAll (numberAllFrom n ts).1, n ≤ i ∧ i < (numberAllFrom n ts).2 := by
  cases ts with
  | nil => simp [numberAllFrom]
  | cons t ts =>
    have first := mem_ids_numberFrom n t
    have others := mem_ids_numberAllFrom (t.numberFrom n).2 ts
    have count := numberFrom_snd n t
    have counts := numberAllFrom_snd (t.numberFrom n).2 ts
    simp only [numberAllFrom, idsAll_cons, List.mem_append]
    rintro i (hi | hi)
    · have := first i hi
      omega
    · have := others i hi
      omega

end

mutual

theorem nodup_ids_numberFrom (n : Nat) (t : Tree) : (t.numberFrom n).1.ids.Nodup := by
  cases t with
  | node root children =>
    simp only [numberFrom, ids_node, List.nodup_cons]
    refine ⟨fun h => ?_, nodup_ids_numberAllFrom n children⟩
    have := mem_ids_numberAllFrom n children _ h
    omega

theorem nodup_ids_numberAllFrom (n : Nat) (ts : List Tree) :
    (idsAll (numberAllFrom n ts).1).Nodup := by
  cases ts with
  | nil => simp [numberAllFrom]
  | cons t ts =>
    simp only [numberAllFrom, idsAll_cons]
    refine List.nodup_append.mpr ⟨nodup_ids_numberFrom n t, nodup_ids_numberAllFrom _ ts, ?_⟩
    rintro i hi j hj rfl
    have := mem_ids_numberFrom n t i hi
    have := mem_ids_numberAllFrom _ ts i hj
    omega

end

theorem bare_numbered (t : Tree) : t.numbered.bare = t.bare := map_numberFrom (fun _ _ => rfl) 0 t

theorem nodup_ids_numbered (t : Tree) : t.numbered.ids.Nodup := nodup_ids_numberFrom 0 t

end Tree

/-! ## The trees of programs -/

open Mamuth.Tree

/-- Of an inner node only the children matter. -/
theorem Tree.laidOut_inner {k : Node.Kind} {p : Position} {ts : List Tree}
    (hk : k.isLeaf = false ∧ k ≠ .function ∧ k ≠ .invocation) :
    (inner k p ts).LaidOut ↔ k.admits (ts.map (·.root.kind)) ∧ ∀ t ∈ ts, t.LaidOut := by
  rw [inner, laidOut_node]
  simp [fits, contentFits, hk]

@[simp] theorem Tree.kind_inner (k : Node.Kind) (p : Position) (ts : List Tree) :
    (inner k p ts).root.kind = k := rfl

@[simp] theorem Leaf.kind_tree (k : Node.Kind) (leaf : Leaf) : (leaf.tree k).root.kind = k := rfl

theorem Leaf.laidOut_tree {k : Node.Kind} (leaf : Leaf) (hk : k.isLeaf) :
    (leaf.tree k).LaidOut := by
  rw [Leaf.tree, laidOut_node]
  refine ⟨?_, by simp⟩
  cases k <;> first | rfl | exact absurd hk (by decide)

@[simp] theorem Value.isValue_tree (v : Value) : v.tree.root.kind.isValue := by
  cases v with
  | identifier leaf => rfl
  | literal form leaf => cases form <;> rfl

@[simp] theorem Value.laidOut_tree (v : Value) : v.tree.LaidOut := by
  cases v with
  | identifier leaf => exact leaf.laidOut_tree rfl
  | literal form leaf => exact leaf.laidOut_tree (by cases form <;> rfl)

/-- The part of a math expression after its first value. -/
theorem Math.inTurn_rest (rest : List (Leaf × Value)) :
    Node.Kind.inTurn ((rest.flatMap fun (sign, value) =>
      [sign.tree .operator, value.tree]).map (·.root.kind)) := by
  induction rest with
  | nil => rfl
  | cons pair rest ih => simpa [Node.Kind.inTurn] using ih

theorem Math.laidOut_tree (m : Math) : m.tree.LaidOut := by
  rw [Math.tree, laidOut_inner (by decide)]
  refine ⟨by simp [Math.inTurn_rest], ?_⟩
  simp only [List.forall_mem_cons, List.forall_mem_flatMap]
  refine ⟨m.first.laidOut_tree, fun (sign, value) _ => ?_⟩
  simp [sign.laidOut_tree (rfl : Node.Kind.isLeaf .operator)]

/-- A group of one part or more is one node, and a group of none is no node. -/
theorem Tree.kinds_group (k : Node.Kind) (ts : List Tree) :
    (group k ts).map (·.root.kind) = if ts = [] then [] else [k] := by
  cases ts <;> simp [group]

theorem Tree.laidOut_group {k : Node.Kind} {ts : List Tree}
    (hk : k.isLeaf = false ∧ k ≠ .function ∧ k ≠ .invocation)
    (hts : ts ≠ [] → k.admits (ts.map (·.root.kind))) (h : ∀ t ∈ ts, t.LaidOut) :
    ∀ t ∈ group k ts, t.LaidOut := by
  cases ts with
  | nil => simp [group]
  | cons t ts =>
    simp only [group, List.mem_singleton, forall_eq]
    exact (laidOut_inner hk).mpr ⟨hts (by simp), h⟩

/-- A node with a name takes it from its first child. -/
theorem Tree.laidOut_named {k : Node.Kind} {name : Leaf} {p : Position} {ts : List Tree}
    (hk : k = .function ∨ k = .invocation)
    (admitted : k.admits (.identifier :: ts.map (·.root.kind))) (h : ∀ t ∈ ts, t.LaidOut) :
    (named k name p (name.tree .identifier :: ts)).LaidOut := by
  rw [named, laidOut_node]
  refine ⟨?_, List.forall_mem_cons.mpr ⟨name.laidOut_tree rfl, h⟩⟩
  have leaf : k.isLeaf = false := by rcases hk with rfl | rfl <;> rfl
  simpa [fits, contentFits, leaf, hk, Leaf.tree, Tree.root] using admitted

theorem Invocation.laidOut_tree (i : Invocation) : i.tree.LaidOut := by
  refine laidOut_named (Or.inr rfl) ?_ (laidOut_group (by decide) (fun h => ?_) (by simp))
  · rw [kinds_group]
    split <;> rfl
  · obtain ⟨v, vs, hv⟩ := List.exists_cons_of_ne_nil (show i.arguments ≠ [] by simpa using h)
    simp [hv]

@[simp] theorem Expression.isExpression_tree (e : Expression) :
    e.tree.root.kind.isExpression := by
  cases e with
  | math m => rfl
  | invocation i => rfl
  | value v => simp [Expression.tree, Node.Kind.isExpression]

@[simp] theorem Expression.laidOut_tree (e : Expression) : e.tree.LaidOut := by
  cases e with
  | math m => exact m.laidOut_tree
  | invocation i => exact i.laidOut_tree
  | value v => exact v.laidOut_tree

theorem Assignment.laidOut_tree (a : Assignment) : a.tree.LaidOut := by
  rw [Assignment.tree, laidOut_inner (by decide)]
  simp [a.target.laidOut_tree (rfl : Node.Kind.isLeaf .identifier)]

@[simp] theorem Comparison.kind_tree (c : Comparison) : c.tree.root.kind = .comparison := rfl

@[simp] theorem Comparison.laidOut_tree (c : Comparison) : c.tree.LaidOut := by
  rw [Comparison.tree, laidOut_inner (by decide)]
  simp [c.comparator.laidOut_tree (rfl : Node.Kind.isLeaf .comparator)]

@[simp] theorem Condition.kind_tree (c : Condition) :
    c.tree.root.kind = .conditionalExpression := rfl

@[simp] theorem Condition.laidOut_tree (c : Condition) : c.tree.LaidOut := by
  rw [Condition.tree, laidOut_inner (by decide)]
  rcases c.second with _ | ⟨sign, second⟩
  · simp
  · simp [sign.laidOut_tree (rfl : Node.Kind.isLeaf .logicalOperator)]

/-- A block is as the table says if its instructions are. -/
theorem Block.laidOut_inner {b : Block} (p : Position)
    (h : ∀ t ∈ b.trees, t.root.kind = .instruction ∧ t.LaidOut) :
    (inner .instructionBlock p b.trees).LaidOut := by
  rw [Tree.laidOut_inner (by decide)]
  refine ⟨?_, fun t ht => (h t ht).2⟩
  cases b <;> simp_all [Block.trees]

mutual

theorem Instruction.laidOut_tree (i : Instruction) : i.tree.LaidOut := by
  rw [Instruction.tree, laidOut_inner (by decide)]
  cases i with
  | assignment a => exact ⟨rfl, by simp [Instruction.content, a.laidOut_tree]⟩
  | loop p body condition =>
    refine ⟨rfl, ?_⟩
    rw [Instruction.content, List.forall_mem_singleton, laidOut_inner (by decide)]
    simp [Block.laidOut_inner _ body.laidOut_trees]
  | branch p condition body =>
    refine ⟨rfl, ?_⟩
    have := Block.laidOut_inner body.position body.laidOut_trees
    simp [Instruction.content, laidOut_inner, Node.Kind.isLeaf, this]
  | branches p condition body q otherBody =>
    refine ⟨rfl, ?_⟩
    have := Block.laidOut_inner body.position body.laidOut_trees
    have := Block.laidOut_inner otherBody.position otherBody.laidOut_trees
    simp [Instruction.content, laidOut_inner, Node.Kind.isLeaf, *]
  | «return» p value =>
    refine ⟨rfl, ?_⟩
    cases value <;> simp [Instruction.content, laidOut_inner, Node.Kind.isLeaf]

theorem Block.laidOut_trees (b : Block) :
    ∀ t ∈ b.trees, t.root.kind = .instruction ∧ t.LaidOut := by
  cases b with
  | last i => exact List.forall_mem_singleton.mpr ⟨rfl, i.laidOut_tree⟩
  | more i rest => exact List.forall_mem_cons.mpr ⟨⟨rfl, i.laidOut_tree⟩, rest.laidOut_trees⟩

end

@[simp] theorem Block.kind_tree (b : Block) : b.tree.root.kind = .instructionBlock := rfl

@[simp] theorem Block.laidOut_tree (b : Block) : b.tree.LaidOut :=
  Block.laidOut_inner b.position b.laidOut_trees

theorem Function.laidOut_tree (f : Function) : f.tree.LaidOut := by
  rw [Function.tree, List.cons_append]
  refine laidOut_named (Or.inl rfl) ?_ (List.forall_mem_append.mpr
    ⟨laidOut_group (by decide) (fun h => ?_) fun t ht => ?_, by simp⟩)
  · rw [List.map_append, kinds_group]
    split <;> rfl
  · obtain ⟨p, ps, hp⟩ := List.exists_cons_of_ne_nil (show f.parameters ≠ [] by simpa using h)
    simp [hp]
  · obtain ⟨p, -, rfl⟩ := List.mem_map.mp ht
    exact p.laidOut_tree rfl

@[simp] theorem Assignment.kind_tree (a : Assignment) : a.tree.root.kind = .assignment := rfl

@[simp] theorem Function.kind_tree (f : Function) : f.tree.root.kind = .function := rfl

@[simp] theorem EntryPoint.kind_tree (e : EntryPoint) : e.tree.root.kind = .main := rfl

theorem EntryPoint.laidOut_tree (e : EntryPoint) : e.tree.LaidOut := by
  rw [EntryPoint.tree, laidOut_inner (by decide)]
  simp

/-- The tree of a program is as the table says. -/
theorem Program.laidOut_tree (p : Program) : p.tree.LaidOut := by
  rw [Program.tree, laidOut_congr (bare_numbered _), laidOut_inner (by decide)]
  constructor
  · have rest : (p.functions.map (fun _ => Node.Kind.function) ++ [Node.Kind.main]).dropWhile
        (· = Node.Kind.assignment) =
        p.functions.map (fun _ => Node.Kind.function) ++ [Node.Kind.main] := by
      cases p.functions <;> rfl
    simp only [List.map_append, List.map_map, List.append_assoc, Node.Kind.admits,
      Function.comp_def, List.map_cons, List.map_nil, EntryPoint.kind_tree, Function.kind_tree,
      decide_eq_true_eq]
    rw [List.dropWhile_append_of_pos (by simp), rest, List.dropWhile_append_of_pos (by simp)]
    rfl
  · simp only [List.mem_append, List.mem_map, List.mem_singleton]
    rintro t ((⟨a, -, rfl⟩ | ⟨f, -, rfl⟩) | rfl)
    · exact a.laidOut_tree
    · exact f.laidOut_tree
    · exact p.main.laidOut_tree

/-- No two nodes of the tree of a program have the same number. -/
theorem Program.nodup_ids_tree (p : Program) : p.tree.ids.Nodup := nodup_ids_numbered _

end Mamuth
