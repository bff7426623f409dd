-- The rules of types, read off a tree that has them. A node has the type of its kind, or takes
-- it from the nodes below it, or from what a name below it stands for. A name gives the type
-- that is left at the node that declares it, but a function has no type yet inside itself.
import Mathlib.Data.List.Induction
import Mamuth.Proofs.Scoping

namespace Mamuth

/-! ## Types of several nodes -/

namespace Ty

/-- Values of these types can be compared, as values of the third: they are of one type, or one
of them may be of any. -/
def Meet (s t common : Ty) : Prop :=
  (s = t ∧ common = s) ∨ ((s = any ∨ t = any) ∧ common = any)

theorem common?_eq_some {s t common : Ty} : s.common? t = some common ↔ s.Meet t common := by
  unfold common? compatible Meet
  by_cases hs : s = any <;> by_cases ht : t = any <;> by_cases he : s = t <;>
    simp_all [eq_comm]

/-- The type is the last one that is of a value, or there is none. -/
def EndsIn (types : List Ty) (t : Ty) : Prop :=
  (∃ before after, types = before ++ t :: after ∧ t ≠ none ∧ ∀ u ∈ after, u = none) ∨
    (t = none ∧ ∀ u ∈ types, u = none)

theorem endsIn_getLast? (types : List Ty) :
    EndsIn types ((types.filter (· ≠ none)).getLast?.getD none) := by
  induction types using List.reverseRecOn with
  | nil => exact Or.inr ⟨rfl, by simp⟩
  | append_singleton types u ih =>
    by_cases hu : u = none
    · rw [List.filter_append, hu]
      simp only [List.filter_cons, List.filter_nil, ne_eq, not_true_eq_false, decide_false,
        Bool.false_eq_true, if_false, List.append_nil]
      rcases ih with ⟨before, after, split, value, rest⟩ | ⟨same, all⟩
      · refine Or.inl ⟨before, after ++ [none], ?_, value, ?_⟩
        · conv_lhs => rw [split]
          simp
        · simpa [or_imp, forall_and] using rest
      · exact Or.inr ⟨same, by simpa [or_imp, forall_and] using all⟩
    · rw [List.filter_append]
      refine Or.inl ⟨types, [], ?_⟩
      simp [hu]

end Ty

theorem Typing.endsIn_typeOfBlock (children : List Tree) :
    Ty.EndsIn (children.map Tree.type) (typeOfBlock children) := Ty.endsIn_getLast? _

/-! ## What names stand for -/

/-- What a finished check has settled. -/
structure Settled where
  /-- What the use at the node of this number stands for. -/
  standsFor? : Nat → Option Symbol
  /-- The type of a declaration in the end. -/
  typeOf? : Symbol → Option Ty

namespace Settled

variable (f : Settled)

/-- The type that a name gives below nodes of these numbers. -/
def typeFrom? (around : List Nat) (y : Symbol) : Option Ty :=
  if ∃ i ∈ around, y.declaration = .node i then some .any else f.typeOf? y

/-- Whether a leaf can stand in a math expression. -/
def Numeric (leaf : Node) : Prop :=
  match leaf.kind with
  | .integer | .operator => True
  | .identifier => ∃ y, f.standsFor? leaf.id = some y ∧
      (f.typeOf? y = some .number ∨ f.typeOf? y = some .any)
  | _ => False

/-- Whether the name at a node, if it is an identifier, stands for something. -/
def Known (n : Node) : Prop := n.kind = .identifier → ∃ y, f.standsFor? n.id = some y

/-- Whether the name at a node, if it is an identifier, stands for something but a function. -/
def KnownValue (n : Node) : Prop :=
  n.kind = .identifier → ∃ y, f.standsFor? n.id = some y ∧ y.category ≠ .function

variable {f} {m n : Node}

theorem Known.congr (h : f.Known n) (id : m.id = n.id) (kind : m.kind = n.kind) : f.Known m := by
  rw [Known, id, kind]
  exact h

theorem KnownValue.congr (h : f.KnownValue n) (id : m.id = n.id) (kind : m.kind = n.kind) :
    f.KnownValue m := by
  rw [KnownValue, id, kind]
  exact h

end Settled

namespace Tree

/-- The type that a tree has at the node of this number. -/
def typeAt? (t : Tree) (id : Nat) : Option Ty := (t.nodes.find? (·.id = id)).bind (·.type)

/-- What a tree settles: names stand for what its scoping says, and a declaration has the type
of the node that declares it. -/
def settled (t : Tree) : Settled where
  standsFor? use := (t.resolutions.find? (·.id = use)).bind (·.found)
  typeOf? y := match y.declaration with
    | .builtin type => some type
    | .node id => t.typeAt? id

end Tree

/-! ## The rules -/

namespace Node.Kind

/-- The type of the nodes that need nothing but their kind for it. -/
def ownType? : Kind → Option Ty
  | text => some .text
  | integer | operator => some .number
  | float => some .float
  | boolean | conditionalExpression => some .boolean
  | logicalOperator => some .logicalComparator
  | identifier | conditional => some .any
  | program | functionParameters => some .none
  | _ => none

/-- Whether the child at this index gets its type from the node: the target of an assignment
does, and the sign of a comparison. -/
def typesChild (k : Kind) (index : Nat) : Bool :=
  k = assignment && index = 0 || k = comparison && index = 1

end Node.Kind

/-- The rule that a node keeps, with its children and below nodes of the numbers `around`. -/
inductive TypeRule (f : Settled) (around : List Nat) (root : Node) : List Tree → Prop
  | own {children : List Tree} (kind : root.kind.ownType?.isSome)
      (type : root.type = root.kind.ownType?) : TypeRule f around root children
  | comparator (kind : root.kind = .comparator) (type : root.type = some (.ofComparator root.name)) :
      TypeRule f around root []
  | assignment {target value : Tree} (kind : root.kind = .assignment)
      (known : f.Known value.root) (targetType : target.root.type = value.root.type)
      (type : root.type = value.root.type) : TypeRule f around root [target, value]
  | comparison {left sign right : Tree} {common : Ty} (kind : root.kind = .comparison)
      (knownLeft : f.Known left.root) (knownRight : f.Known right.root)
      (meet : left.type.Meet right.type common) (signType : sign.root.type = some common)
      (type : root.type = some .boolean) : TypeRule f around root [left, sign, right]
  | mathExpression {children : List Tree} (kind : root.kind = .mathExpression)
      (operands : ∀ c ∈ children, f.Numeric c.root)
      (type : root.type = some .number) : TypeRule f around root children
  | invocation {callee : Tree} {rest : List Tree} {y : Symbol} (kind : root.kind = .invocation)
      (stands : f.standsFor? callee.root.id = some y) (category : y.category = .function)
      (type : root.type = f.typeFrom? around y) : TypeRule f around root (callee :: rest)
  | invocationArguments {children : List Tree} (kind : root.kind = .invocationArguments)
      (arguments : ∀ c ∈ children, f.KnownValue c.root)
      (type : root.type = some .none) : TypeRule f around root children
  | returnNothing (kind : root.kind = .return) (type : root.type = some .none) :
      TypeRule f around root []
  | returnName {name : Tree} {y : Symbol} (kind : root.kind = .return)
      (nameKind : name.root.kind = .identifier) (stands : f.standsFor? name.root.id = some y)
      (type : root.type = f.typeFrom? around y) : TypeRule f around root [name]
  | returnValue {value : Tree} (kind : root.kind = .return)
      (valueKind : value.root.kind ≠ .identifier) (type : root.type = value.root.type) :
      TypeRule f around root [value]
  | instruction {child : Tree} (kind : root.kind = .instruction)
      (type : root.type = child.root.type) : TypeRule f around root [child]
  | instructionBlock {children : List Tree} {t : Ty} (kind : root.kind = .instructionBlock)
      (last : Ty.EndsIn (children.map Tree.type) t) (type : root.type = some t) :
      TypeRule f around root children
  | withBlock {children : List Tree} {block : Tree} (kind : root.kind.opensBlock)
      (child : block ∈ children) (blockKind : block.root.kind = .instructionBlock)
      (type : root.type = block.root.type) : TypeRule f around root children

/-- Every node keeps its rule, or has its type from the rule of the node above it. -/
inductive Tree.WellTyped (f : Settled) : List Nat → Tree → Prop
  | node {around : List Nat} {root : Node} {children : List Tree}
      (rule : TypeRule f around root children)
      (below : ∀ i c, children[i]? = some c → root.kind.typesChild i = false →
        WellTyped f (root.id :: around) c) : WellTyped f around (.node root children)

end Mamuth
