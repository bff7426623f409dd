-- Names, numbers and places are labels. A check compares names with names and numbers with
-- numbers, and reads nothing else off them; places it does not compare at all. So with other
-- labels, as long as different names and numbers stay different, it gives the same types, keeps
-- the same table under the new labels, and fails at the same node for the same reason, with the
-- same types given so far.
import Mamuth.Proofs.Rechecking
import Mamuth.Proofs.Untyped

namespace Mamuth

/-- Other names and numbers. What is different stays different, and the standard functions keep
their names. -/
structure Renaming where
  name : String → String
  id : Nat → Nat
  name_injective : Function.Injective name
  id_injective : Function.Injective id
  standard : ∀ f ∈ standardFunctions, name f.1 = f.1

/-- Other names, numbers and places. Different places need not stay different. -/
structure Relabelling extends Renaming where
  position : Position → Position

/-- The kinds of nodes whose content is a name. -/
def Node.Kind.isNaming (k : Node.Kind) : Bool := k ∈ [identifier, function, invocation]

variable (r : Relabelling)

/-! ## What is relabelled -/

def Node.relabelled (n : Node) : Node :=
  { n with
    id := r.id n.id
    content := if n.kind.isNaming then n.content.map r.name else n.content
    position := r.position n.position }

def Tree.relabelled : Tree → Tree := Tree.map (Node.relabelled r)

def Symbol.Declaration.relabelled : Symbol.Declaration → Symbol.Declaration
  | node id => node (r.id id)
  | builtin type => builtin type

def Symbol.relabelled (y : Symbol) : Symbol :=
  { y with name := r.name y.name, declaration := y.declaration.relabelled r }

def SymbolTable.relabelled (t : SymbolTable) : SymbolTable :=
  { t with symbols := t.symbols.map (Symbol.relabelled r) }

/-- The same fault of the same types, at the new place. The words that a fault tells are names,
but for comparators, which stay as they are, and for operands: what is told of an operand is what
its node, one of the given ones, then holds. -/
inductive Fault.Relabelled (nodes : List Node) : Fault → Fault → Prop
  | undeclared (name : String) (place : Position) :
    Relabelled nodes (.undeclared name place) (.undeclared (r.name name) (r.position place))
  | notNumeric (operand : Node) (h : operand ∈ nodes) (found : Ty) :
    Relabelled nodes (.notNumeric operand.name found operand.position)
      (.notNumeric (operand.relabelled r).name found (r.position operand.position))
  | notCallable (name : String) (place : Position) :
    Relabelled nodes (.notCallable name place) (.notCallable (r.name name) (r.position place))
  | functionArgument (name : String) (place : Position) :
    Relabelled nodes (.functionArgument name place)
      (.functionArgument (r.name name) (r.position place))
  | incomparable (sign : String) (left right : Ty) (place : Position) :
    Relabelled nodes (.incomparable sign left right place)
      (.incomparable sign left right (r.position place))
  | malformed (shape : Shape) : Relabelled nodes (.malformed shape) (.malformed shape)

variable {r}

@[simp] theorem Node.kind_relabelled (n : Node) : (n.relabelled r).kind = n.kind := rfl

@[simp] theorem Symbol.category_relabelled (y : Symbol) :
    (y.relabelled r).category = y.category := rfl

namespace Tree

@[simp] theorem relabelled_node (root : Node) (children : List Tree) :
    (node root children).relabelled r =
      node (root.relabelled r) (children.map (Tree.relabelled r)) := map_node _ _ _

@[simp] theorem root_relabelled (t : Tree) : (t.relabelled r).root = t.root.relabelled r :=
  root_map _ _

@[simp] theorem type_relabelled (t : Tree) : (t.relabelled r).type = t.type := by
  rw [type, root_relabelled]
  rfl

@[simp] theorem typed_relabelled (t : Tree) (type : Ty) :
    (t.relabelled r).typed type = (t.typed type).relabelled r := by
  cases t
  rw [relabelled_node, typed, typed, relabelled_node]
  rfl

end Tree

/-! ## Names -/

/-- A node that is to have a name has one. -/
def Node.Labelled (n : Node) : Prop := n.kind.isNaming → n.content.isSome

theorem Node.name_relabelled {n : Node} (hn : n.Labelled) (hk : n.kind.isNaming) :
    (n.relabelled r).name = r.name n.name := by
  obtain ⟨text, ht⟩ := Option.isSome_iff_exists.mp (hn hk)
  rw [name, name, relabelled, if_pos hk, ht]
  rfl

/-- What is no name stays as it is. -/
theorem Node.name_relabelled_of_not_isNaming {n : Node} (hk : n.kind.isNaming = false) :
    (n.relabelled r).name = n.name := by
  rw [name, relabelled, hk]
  rfl

theorem Tree.LaidOut.labelled {t : Tree} (hl : t.LaidOut) : t.root.Labelled := by
  intro hk
  obtain ⟨root, children⟩ := t
  have fits := (laidOut_node.mp hl).1
  rw [Tree.fits, Bool.and_eq_true, contentFits] at fits
  change root.kind.isNaming at hk
  change root.content.isSome
  by_cases leaf : root.kind.isLeaf
  · rw [if_pos leaf] at fits
    exact fits.2
  · rw [if_neg leaf] at fits
    have inner : root.kind = .function ∨ root.kind = .invocation := by
      cases kind : root.kind <;> simp_all [Node.Kind.isNaming, Node.Kind.isLeaf]
    simp [inner] at fits
    exact fits.2.1

namespace Typing

/-! ## States -/

/-- The second state knows under the new labels what the first one knows. -/
structure State.Relabelled (r : Relabelling) (s s' : State) : Prop where
  table : s'.table = s.table.relabelled r
  types : ∀ id : Nat, s'.types[r.id id]? = s.types[id]?

variable {s s' : State}

theorem State.Relabelled.typeOf? (h : State.Relabelled r s s') (y : Symbol) :
    s'.typeOf? (y.relabelled r) = s.typeOf? y := by
  obtain ⟨name, depth, category, declaration⟩ := y
  cases declaration with
  | node id => exact h.types id
  | builtin type => rfl

theorem State.Relabelled.find? (h : State.Relabelled r s s') (name : String) :
    s'.find? (r.name name) = (s.find? name).map (Symbol.relabelled r) := by
  rw [State.find?, State.find?, h.table, SymbolTable.find?, SymbolTable.find?,
    SymbolTable.relabelled, ← List.map_reverse, List.find?_map]
  congr 2
  funext y
  simp only [Function.comp_apply, h.typeOf?]
  simp only [Symbol.relabelled, r.name_injective.eq_iff]
  rfl

theorem State.Relabelled.noting (h : State.Relabelled r s s') (use use' : Node) :
    State.Relabelled r (s.noting use) (s'.noting use') := ⟨h.table, h.types⟩

theorem State.Relabelled.declare (h : State.Relabelled r s s') (name : String)
    (category : Symbol.Category) (id : Nat) :
    State.Relabelled r { s with table := s.table.insert name category (.node id) }
      { s' with table := s'.table.insert (r.name name) category (.node (r.id id)) } := by
  refine ⟨?_, h.types⟩
  simp only [h.table, SymbolTable.insert, SymbolTable.relabelled, List.map_append]
  rfl

theorem State.Relabelled.giveType (h : State.Relabelled r s s') (id : Nat) (type : Ty) :
    State.Relabelled r { s with types := s.types.insert id type }
      { s' with types := s'.types.insert (r.id id) type } := by
  refine ⟨h.table, fun other => ?_⟩
  simp only [getElem?_insert_type, r.id_injective.eq_iff, h.types]

theorem State.Relabelled.start : State.Relabelled r .start .start := by
  refine ⟨?_, fun id => rfl⟩
  have table : State.start.table =
      ⟨standardFunctions.map fun f => ⟨f.1, 0, .function, .builtin f.2⟩, 0⟩ := rfl
  rw [table, SymbolTable.relabelled, List.map_map]
  congr 1
  refine List.map_congr_left fun f hf => ?_
  rw [Function.comp_apply, Symbol.relabelled, r.standard f hf]
  rfl

/-- Two runs that end in the same way but for the labels. A fault tells of one of the nodes. -/
abbrev EndsRelabelled (r : Relabelling) (nodes : List Node) (A : α → β → Prop)
    (L : σ → τ → Prop) :
    Except (Stopped σ) (α × State) → Except (Stopped τ) (β × State) → Prop :=
  Matches (State.Relabelled r) (Fault.Relabelled r nodes) A L

variable {nodes : List Node}

/-! ## Steps -/

/-- What is found, under the new labels. -/
abbrev FoundRelabelled (r : Relabelling) (named named' : Option Symbol) : Prop :=
  named' = named.map (Symbol.relabelled r)

theorem lookUp_relabelled {use : Node} (hn : use.Labelled) (hk : use.kind.isNaming)
    (h : State.Relabelled r s s') :
    EndsRelabelled r nodes (fun y y' => y' = y.relabelled r) Eq (lookUp use s)
      (lookUp (use.relabelled r) s') := by
  have noted := h.noting use (use.relabelled r)
  rw [lookUp_apply, lookUp_apply, use.name_relabelled hn hk, h.find?]
  cases s.find? use.name with
  | some symbol => exact ⟨rfl, noted⟩
  | none => exact ⟨.undeclared use.name use.position, rfl, noted⟩

theorem lookUpIfNamed_relabelled {use : Node} (hn : use.Labelled) (h : State.Relabelled r s s') :
    EndsRelabelled r nodes (FoundRelabelled r) Eq (lookUpIfNamed use s)
      (lookUpIfNamed (use.relabelled r) s') := by
  unfold lookUpIfNamed
  by_cases hk : use.kind = .identifier
  · rw [if_pos hk, if_pos (use.kind_relabelled.trans hk), map_eq_pure_bind, map_eq_pure_bind]
    refine (lookUp_relabelled hn (hk ▸ rfl) h).bind ?_
    rintro symbol _ t t' rfl ht
    exact ⟨rfl, ht⟩
  · rw [if_neg hk, if_neg fun kind => hk (use.kind_relabelled.symm.trans kind)]
    exact ⟨rfl, h⟩

theorem refuseFunction_relabelled {argument : Node} (hn : argument.Labelled)
    (h : State.Relabelled r s s') :
    EndsRelabelled r nodes Eq Eq (refuseFunction argument s)
      (refuseFunction (argument.relabelled r) s') := by
  refine (lookUpIfNamed_relabelled hn h).bind ?_
  rintro named _ t t' rfl ht
  cases named with
  | none => exact ⟨rfl, ht⟩
  | some symbol =>
    rw [Option.map_some]
    dsimp only
    rw [Symbol.category_relabelled]
    by_cases function : symbol.category = .function
    · rw [if_pos function, if_pos function]
      exact ⟨.functionArgument symbol.name argument.position, rfl, ht⟩
    · rw [if_neg function, if_neg function]
      exact ⟨rfl, ht⟩

/-- An operand is refused alike. By then it has its type, and `unchecked` is its node before. -/
theorem requireNumeric_relabelled {operand : Tree} {unchecked : Node}
    (same : operand.root.untyped = unchecked.untyped) (hm : unchecked ∈ nodes)
    (hn : operand.root.Labelled) (h : State.Relabelled r s s') :
    EndsRelabelled r nodes Eq Eq (requireNumeric operand s)
      (requireNumeric (operand.relabelled r) s') := by
  have noted := h.noting operand.root (operand.root.relabelled r)
  have refused (found : Ty) : Fault.Relabelled r nodes
      (.notNumeric operand.root.name found operand.root.position)
      (.notNumeric (operand.root.relabelled r).name found (operand.root.relabelled r).position) := by
    obtain ⟨⟨id, kind, content, position, type⟩, children⟩ := operand
    obtain ⟨_, _, _, _, type'⟩ := unchecked
    cases same
    exact .notNumeric _ hm found
  rw [requireNumeric_apply, requireNumeric_apply, Tree.root_relabelled, Node.kind_relabelled,
    Tree.type_relabelled]
  cases hk : operand.root.kind with
  | identifier =>
    have name : (operand.root.relabelled r).name = r.name operand.root.name :=
      Node.name_relabelled hn (hk ▸ rfl)
    rw [name] at refused ⊢
    rw [h.find?]
    cases s.find? operand.root.name with
    | none => exact ⟨.undeclared operand.root.name operand.root.position, rfl, noted⟩
    | some symbol =>
      simp only [Option.map_some, h.typeOf?]
      by_cases numeric : (s.typeOf? symbol).any Ty.isNumeric
      · rw [if_pos numeric, if_pos numeric]
        exact ⟨rfl, noted⟩
      · rw [if_neg numeric, if_neg numeric]
        exact ⟨refused _, rfl, noted⟩
  | integer | operator => exact ⟨rfl, h⟩
  | _ => exact ⟨refused operand.type, rfl, h⟩

section

variable {σ τ : Type} {L : σ → τ → Prop}

theorem declare_relabelled {declaring : Node} (hn : declaring.Labelled)
    (hk : declaring.kind.isNaming) (category : Symbol.Category) (h : State.Relabelled r s s') :
    EndsRelabelled r nodes Eq L ((declare declaring.name category declaring : Step σ Unit) s)
      ((declare (declaring.relabelled r).name category (declaring.relabelled r) :
        Step τ Unit) s') := by
  rw [Node.name_relabelled hn hk]
  exact ⟨rfl, h.declare declaring.name category declaring.id⟩

theorem openBlock_relabelled (kind : Node.Kind) (h : State.Relabelled r s s') :
    EndsRelabelled r nodes Eq L ((openBlock kind : Step σ Unit) s)
      ((openBlock kind : Step τ Unit) s') := by
  refine ⟨rfl, ?_, h.types⟩
  change s'.table.openBlock = s.table.openBlock.relabelled r
  rw [h.table]
  rfl

theorem closeBlock_relabelled (h : State.Relabelled r s s') :
    EndsRelabelled r nodes Eq L ((closeBlock : Step σ Unit) s)
      ((closeBlock : Step τ Unit) s') := by
  refine ⟨rfl, ?_, h.types⟩
  change s'.table.closeBlock = s.table.closeBlock.relabelled r
  rw [h.table, SymbolTable.closeBlock, SymbolTable.closeBlock, SymbolTable.relabelled,
    SymbolTable.relabelled, List.filter_map]
  rfl

/-- The tree under the new labels. -/
abbrev TreeRelabelled (r : Relabelling) (t t' : Tree) : Prop := t' = t.relabelled r

theorem giveType_relabelled (t : Tree) (type : Ty) (h : State.Relabelled r s s') :
    EndsRelabelled r nodes (TreeRelabelled r) L ((giveType t type : Step σ Tree) s)
      ((giveType (t.relabelled r) type : Step τ Tree) s') := by
  refine ⟨t.typed_relabelled type, ?_⟩
  rw [Tree.root_relabelled]
  exact h.giveType t.root.id type

end

/-! ## Before and after the children -/

variable {root : Node} {ts : List Tree}

theorem enter_relabelled (hl : (Tree.node root ts).LaidOut) (h : State.Relabelled r s s') :
    EndsRelabelled r nodes (FoundRelabelled r) Eq (enter root ts s)
      (enter (root.relabelled r) (ts.map (Tree.relabelled r)) s') := by
  have child {t : Tree} (ht : t ∈ ts) : t.root.Labelled := (hl.child t ht).labelled
  cases hk : root.kind with
  | assignment =>
    obtain ⟨target, value, rfl, identifier, -⟩ := hl.assignment hk
    simp only [enter, Node.kind_relabelled, hk, List.map_cons, List.map_nil, Tree.root_relabelled]
    refine (lookUpIfNamed_relabelled (child (by simp)) h).bind ?_
    rintro _ _ t t' - ht
    refine (declare_relabelled (child (by simp)) (identifier ▸ rfl) .variable ht).bind ?_
    rintro _ _ t t' - ht
    exact ⟨rfl, ht⟩
  | comparison =>
    obtain ⟨left, sign, right, rfl, -⟩ := hl.comparison hk
    simp only [enter, Node.kind_relabelled, hk, List.map_cons, List.map_nil]
    exact ⟨rfl, h⟩
  | invocation =>
    obtain ⟨callee, rest, rfl, identifier, -⟩ := hl.invocation hk
    simp only [enter, Node.kind_relabelled, hk, List.map_cons, Tree.root_relabelled]
    refine (lookUp_relabelled (child (by simp)) (identifier ▸ rfl) h).bind ?_
    rintro symbol _ t t' rfl ht
    rw [Symbol.category_relabelled]
    by_cases function : symbol.category = .function
    · rw [if_pos function, if_pos function]
      exact ⟨rfl, ht⟩
    · rw [if_neg function, if_neg function]
      exact ⟨.notCallable symbol.name callee.root.position, rfl, ht⟩
  | «return» =>
    rcases hl.return hk with rfl | ⟨value, rfl, -⟩
    · simp only [enter, Node.kind_relabelled, hk, List.map_nil]
      exact ⟨rfl, h⟩
    · simp only [enter, Node.kind_relabelled, hk, List.map_cons, List.map_nil,
        Tree.root_relabelled]
      exact lookUpIfNamed_relabelled (child (by simp)) h
  | function =>
    simp only [enter, Node.kind_relabelled, hk]
    refine (declare_relabelled hl.labelled (hk ▸ rfl) .function h).bind ?_
    rintro _ _ t t' - ht
    refine (openBlock_relabelled _ ht).bind ?_
    rintro _ _ t t' - ht
    exact ⟨rfl, ht⟩
  | main | loop | ifBranch | elseBranch =>
    simp only [enter, Node.kind_relabelled, hk]
    refine (openBlock_relabelled _ h).bind ?_
    rintro _ _ t t' - ht
    exact ⟨rfl, ht⟩
  | _ =>
    simp only [enter, Node.kind_relabelled, hk]
    exact ⟨rfl, h⟩

theorem typeFrom_relabelled (root : Node) (ts : List Tree) :
    typeFrom (root.relabelled r) (ts.map (Tree.relabelled r)) = typeFrom root ts := by
  have types : Tree.type ∘ Tree.relabelled r = Tree.type := funext Tree.type_relabelled
  cases hk : root.kind with
  | instruction | «return» =>
    simp only [typeFrom, Node.kind_relabelled, hk, List.head?_map, Option.map_map, types]
  | instructionBlock =>
    simp only [typeFrom, Node.kind_relabelled, hk, typeOfBlock, List.map_map, types]
  | function | main | loop | ifBranch | elseBranch =>
    simp only [typeFrom, Node.kind_relabelled, hk, List.find?_map, Option.map_map, types,
      Function.comp_def, Tree.root_relabelled]
  | comparator =>
    simp only [typeFrom, Node.kind_relabelled, hk]
    rw [Node.name_relabelled_of_not_isNaming (hk ▸ rfl)]
  | _ => simp only [typeFrom, Node.kind_relabelled, hk]

theorem leave_relabelled (hl : (Tree.node root ts).LaidOut) {named named' : Option Symbol}
    (found : FoundRelabelled r named named') (h : State.Relabelled r s s') :
    EndsRelabelled r nodes (TreeRelabelled r) (TreeRelabelled r) (leave root named ts s)
      (leave (root.relabelled r) named' (ts.map (Tree.relabelled r)) s') := by
  have gives {s s' : State} (ts : List Tree) (type : Ty) (h : State.Relabelled r s s') :
      EndsRelabelled r nodes (TreeRelabelled r) (TreeRelabelled r)
        ((giveType (.node root ts) type : Step Tree Tree) s)
        ((giveType (.node (root.relabelled r) (ts.map (Tree.relabelled r))) type :
          Step Tree Tree) s') := by
    rw [← Tree.relabelled_node]
    exact giveType_relabelled (.node root ts) type h
  cases hk : root.kind with
  | assignment =>
    obtain ⟨target, value, rfl, -⟩ := hl.assignment hk
    simp only [leave, Node.kind_relabelled, hk, List.map_cons, List.map_nil, Tree.type_relabelled]
    refine (giveType_relabelled target value.type h).bind ?_
    rintro target' _ t t' rfl ht
    exact gives [target', value] value.type ht
  | comparison =>
    obtain ⟨left, sign, right, rfl, -, comparator, -⟩ := hl.comparison hk
    simp only [leave, Node.kind_relabelled, hk, List.map_cons, List.map_nil, Tree.type_relabelled]
    cases left.type.common? right.type with
    | none =>
      have text : (sign.relabelled r).root.name = sign.root.name := by
        rw [Tree.root_relabelled, Node.name_relabelled_of_not_isNaming (comparator ▸ rfl)]
      simp only [stop_apply, text]
      exact ⟨.incomparable sign.root.name left.type right.type root.position,
        (Tree.relabelled_node root [left, sign, right]).symm, h⟩
    | some common =>
      refine (giveType_relabelled sign common h).bind ?_
      rintro sign' _ t t' rfl ht
      exact gives [left, sign', right] .boolean ht
  | function | main | loop | ifBranch | elseBranch =>
    simp only [leave, Node.kind_relabelled, hk, typeFrom_relabelled]
    refine (closeBlock_relabelled h).bind ?_
    rintro _ _ t t' - ht
    exact gives ts _ ht
  | _ =>
    simp only [leave, Node.kind_relabelled, hk, typeFrom_relabelled]
    cases named with
    | none =>
      subst found
      exact gives ts _ h
    | some symbol =>
      subst found
      simp only [Option.map_some, Step.bind_apply, get_apply, h.typeOf?]
      exact gives ts _ h

/-! ## The walk -/

/-- What is asked of a child besides its own check is asked alike. A parameter is an
identifier, so that what is declared for it is its name. -/
theorem around_relabelled {t : Tree} (place : Place) (hl : t.LaidOut) (hm : t.root ∈ nodes)
    (hp : place = .parameter → t.root.kind = .identifier)
    (own : ∀ s s', State.Relabelled r s s' → EndsRelabelled r nodes (TreeRelabelled r)
      (TreeRelabelled r) (check t s) (check (t.relabelled r) s'))
    (h : State.Relabelled r s s') :
    EndsRelabelled r nodes (TreeRelabelled r) (TreeRelabelled r) (place.around t (check t) s)
      (place.around (t.relabelled r) (check (t.relabelled r)) s') := by
  have left (u : Tree) : TreeRelabelled r u (u.relabelled r) := rfl
  unfold Place.around
  cases place with
  | skipped => exact ⟨rfl, h⟩
  | plain => exact own s s' h
  | parameter =>
    rw [Tree.root_relabelled]
    refine (declare_relabelled hl.labelled (hp rfl ▸ rfl) .parameter h).bind ?_
    exact fun _ _ t t' _ ht => own t t' ht
  | argument =>
    rw [Tree.root_relabelled]
    refine ((refuseFunction_relabelled hl.labelled h).leaving fun _ _ _ => left t).bind ?_
    exact fun _ _ t t' _ ht => own t t' ht
  | compared =>
    rw [Tree.root_relabelled]
    refine ((lookUpIfNamed_relabelled hl.labelled h).leaving fun _ _ _ => left t).bind ?_
    exact fun _ _ t t' _ ht => own t t' ht
  | operand =>
    refine (own s s' h).bind_of_ok ?_
    rintro checked _ t t' run rfl ht
    have same := untyped_of_check run
    have labelled := (hl.of_untyped same).labelled
    refine ((requireNumeric_relabelled (roots_of_untyped same) hm labelled ht).leaving
      fun _ _ _ => left checked).bind ?_
    exact fun _ _ t t' _ ht => ⟨rfl, ht⟩

mutual

/-- A check ends alike on a tree with other labels. -/
theorem check_relabelled (t : Tree) (hl : t.LaidOut) (hm : t.nodes ⊆ nodes) (s s' : State)
    (h : State.Relabelled r s s') :
    EndsRelabelled r nodes (TreeRelabelled r) (TreeRelabelled r) (check t s)
      (check (t.relabelled r) s') := by
  cases t with
  | node root ts =>
    rw [Tree.relabelled_node, check, check, Node.kind_relabelled]
    have parameters (i : Nat) (c : Tree) (hi : ts[i]? = some c)
        (place : Place.of root.kind i = .parameter) : c.root.kind = .identifier :=
      hl.parameters (parameter_of_place place) c (List.mem_of_getElem? hi)
    have below : (Tree.subtreesAll ts).map Tree.root ⊆ nodes := fun n hn => hm (.tail _ hn)
    have whole (us : List Tree) : TreeRelabelled r (.node root us)
        (.node (root.relabelled r) (us.map (Tree.relabelled r))) := (Tree.relabelled_node root us).symm
    refine ((enter_relabelled hl h).leaving fun _ _ _ => whole ts).bind ?_
    intro named named' s s' found h
    refine ((checkAll_relabelled (Place.of root.kind) ts hl.child parameters below s s' h).leaving
      ?_).bind_of_ok ?_
    · rintro us _ rfl
      exact whole us
    rintro ts' _ s s' run rfl h
    have laid : (Tree.node root ts').LaidOut := by
      refine hl.of_untyped ?_
      rw [Tree.untyped_node, Tree.untyped_node, untyped_of_checkAll (Step.leaving_ok.mp run)]
    exact leave_relabelled laid found h

/-- The same of trees next to each other. -/
theorem checkAll_relabelled (place : Nat → Place) (ts : List Tree) (hl : ∀ t ∈ ts, t.LaidOut)
    (hp : ∀ i t, ts[i]? = some t → place i = .parameter → t.root.kind = .identifier)
    (hm : (Tree.subtreesAll ts).map Tree.root ⊆ nodes) (s s' : State)
    (h : State.Relabelled r s s') :
    EndsRelabelled r nodes (fun us us' => us' = us.map (Tree.relabelled r))
      (fun us us' => us' = us.map (Tree.relabelled r)) (checkAll place ts s)
      (checkAll place (ts.map (Tree.relabelled r)) s') := by
  cases ts with
  | nil => exact ⟨rfl, h⟩
  | cons t ts =>
    rw [List.forall_mem_cons] at hl
    rw [Tree.subtreesAll, List.map_append, List.append_subset] at hm
    rw [List.map_cons, checkAll, checkAll]
    have own := check_relabelled t hl.1 hm.1
    have here : t.root ∈ nodes := hm.1 (List.mem_map_of_mem t.self_mem_subtrees)
    refine ((around_relabelled (place 0) hl.1 here (hp 0 t rfl) own h).leaving ?_).bind ?_
    · rintro u _ rfl
      rfl
    rintro u _ s s' rfl h
    refine ((checkAll_relabelled (fun i => place (i + 1)) ts hl.2 (fun i => hp (i + 1)) hm.2 s s'
      h).leaving ?_).bind ?_
    · rintro us _ rfl
      rfl
    rintro us _ s s' rfl h
    exact ⟨rfl, h⟩

end

end Typing

/-! ## Whole checks -/

/-- With other labels, a tree that keeps the child-layout table passes its check or fails as
before. -/
theorem Tree.verify_relabelled (r : Relabelling) {t : Tree} (hl : t.LaidOut) :
    Typing.EndsRelabelled r t.nodes (Typing.TreeRelabelled r) (Typing.TreeRelabelled r) t.verify
      (t.relabelled r).verify :=
  Typing.check_relabelled t hl (List.Subset.refl _) .start .start .start

end Mamuth
