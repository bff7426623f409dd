-- A second checker, which keeps nested scopes in place of one flat table and of the types
-- by number. It hands an environment down the tree and goes back to the old one when a
-- block ends, and the type of a declaration stands in its entry. On the tree of every
-- program the two checkers have the same outcome.
import Mathlib.Data.List.Find
import Mathlib.Data.List.Nodup
import Mamuth.Proofs.Checking

namespace Mamuth.Nested

open Typing (typeFrom)

/-! ## Environments -/

/-- A declared name. Its type is unknown until what declares it has been checked. -/
structure Entry where
  name : String
  category : Symbol.Category
  declaration : Symbol.Declaration
  type : Option Ty

/-- The entries of one block, the latest first. -/
abbrev Scope := List Entry

/-- The scopes around a place in a tree: the innermost one, and those outside it from the
nearest on. -/
structure Env where
  inner : Scope
  outer : List Scope

namespace Env

/-- Only the standard functions are declared. -/
def start : Env :=
  ⟨(standardFunctions.map fun (name, t) => ⟨name, .function, .builtin t, some t⟩).reverse, []⟩

def push (env : Env) : Env := ⟨[], env.inner :: env.outer⟩

def declare (env : Env) (e : Entry) : Env := { env with inner := e :: env.inner }

/-- What a name stands for: the latest entry of the innermost scope that has one. A variable of
unknown type is passed over. -/
def find? (env : Env) (name : String) : Option Entry :=
  (env.inner :: env.outer).findSome? fun scope =>
    scope.find? fun e => e.name = name && (e.category ≠ .variable || e.type.isSome)

/-- The entries of scopes as symbols, outermost and oldest first. -/
def symbolsOf : List Scope → List Symbol
  | [] => []
  | scope :: outer =>
    symbolsOf outer ++
      scope.reverse.map fun e => ⟨e.name, outer.length, e.category, e.declaration⟩

def symbols (env : Env) : List Symbol := symbolsOf (env.inner :: env.outer)

end Env

/-! ## The checker -/

/-- A check gives an `α`, or fails and leaves a `σ` of the part that it was given. -/
abbrev Outcome (σ α : Type) := Except (Fault × σ) α

/-- The outcome of a part, where a failure leaves the whole. -/
def within (f : σ → τ) : Outcome σ α → Outcome τ α
  | .ok a => .ok a
  | .error (fault, left) => .error (fault, f left)

def lookUp (env : Env) (use : Node) (left : σ) : Outcome σ Entry :=
  match env.find? use.name with
  | some e => .ok e
  | none => .error (.undeclared use.name use.position, left)

/-- An identifier has to stand for something; any other node names nothing. -/
def lookUpIfNamed (env : Env) (use : Node) (left : σ) : Outcome σ (Option Entry) :=
  if use.kind = .identifier then some <$> lookUp env use left else return none

/-- An argument must not name a function. -/
def refuseFunction (env : Env) (argument : Node) (left : σ) : Outcome σ Unit := do
  match ← lookUpIfNamed env argument left with
  | some e =>
    if e.category = .function then throw (.functionArgument e.name argument.position, left)
    else return
  | none => return

/-- An operand has to be a name of which the type is numeric by now, or an integer. -/
def requireNumeric (env : Env) (operand : Tree) (left : σ) : Outcome σ Unit := do
  let node := operand.root
  match node.kind with
  | .identifier =>
    let e ← lookUp env node left
    if e.type.any Ty.isNumeric then return
    else throw (.notNumeric node.name (e.type.getD .any) node.position, left)
  | .integer | .operator => return
  | _ => throw (.notNumeric node.name operand.type node.position, left)

mutual

/-- Checks a tree, and gives it with its types and with the environment of what follows. -/
def check (env : Env) : Tree → Outcome Tree (Tree × Env)
  | .node root children =>
    let done (children : List Tree) : Tree :=
      (Tree.node root children).typed (typeFrom root children)
    match root.kind with
    | .text | .integer | .float | .boolean | .identifier | .operator | .logicalOperator
    | .comparator => return (done children, env)
    | .program | .conditional | .conditionalExpression | .instruction | .instructionBlock => do
      let (children, env) ← within (.node root) (checkAll env children)
      return (done children, env)
    | .main | .loop | .ifBranch | .elseBranch => do
      let (children, _) ← within (.node root) (checkAll env.push children)
      return (done children, env)
    | .function => do
      let own : Entry := ⟨root.name, .function, .node root.id, none⟩
      let (children, _) ← within (.node root) (checkAll (env.declare own).push children)
      return (done children, env.declare { own with type := typeFrom root children })
    | .functionParameters => do
      let (children, env) ← within (.node root) (checkParameters env children)
      return (done children, env)
    | .invocationArguments => do
      let (children, env) ← within (.node root) (checkArguments env children)
      return (done children, env)
    | .mathExpression => do
      let (children, env) ← within (.node root) (checkOperands env children)
      return (done children, env)
    | .assignment =>
      match children with
      | [target, value] => do
        let _ ← lookUpIfNamed env value.root (.node root [target, value])
        let own : Entry := ⟨target.root.name, .variable, .node target.root.id, none⟩
        let (value, _) ← within (fun v => .node root [target, v]) (check (env.declare own) value)
        return ((Tree.node root [target.typed value.type, value]).typed value.type,
          env.declare { own with type := value.type })
      | _ => throw (.malformed .assignment, .node root children)
    | .invocation =>
      match children with
      | [] => throw (.malformed .invocation, .node root [])
      | callee :: rest => do
        let e ← lookUp env callee.root (.node root (callee :: rest))
        if e.category = .function then
          let (children, env) ← within (.node root) (checkAll env (callee :: rest))
          return ((Tree.node root children).typed (e.type.getD .any), env)
        else throw (.notCallable e.name callee.root.position, .node root (callee :: rest))
    | .return =>
      match children with
      | [] => return ((Tree.node root []).typed .none, env)
      | value :: rest => do
        let named ← lookUpIfNamed env value.root (.node root (value :: rest))
        let (value, env) ← within (fun v => .node root (v :: rest)) (check env value)
        let type := match named with
          | some e => e.type.getD .any
          | none => value.type
        return ((Tree.node root (value :: rest)).typed type, env)
    | .comparison =>
      match children with
      | [left, comparator, right] => do
        let _ ← lookUpIfNamed env left.root (.node root [left, comparator, right])
        let (left, env) ← within (fun l => .node root [l, comparator, right]) (check env left)
        let _ ← lookUpIfNamed env right.root (.node root [left, comparator, right])
        let (right, env) ← within (fun r => .node root [left, comparator, r]) (check env right)
        match left.type.common? right.type with
        | some common =>
          return ((Tree.node root [left, comparator.typed common, right]).typed .boolean, env)
        | none =>
          throw (.incomparable comparator.root.name left.type right.type root.position,
            .node root [left, comparator, right])
      | _ => throw (.malformed .comparison, .node root children)

/-- Checks trees from left to right. -/
def checkAll (env : Env) : List Tree → Outcome (List Tree) (List Tree × Env)
  | [] => return ([], env)
  | t :: ts => do
    let (t, env) ← within (· :: ts) (check env t)
    let (ts, env) ← within (t :: ·) (checkAll env ts)
    return (t :: ts, env)

/-- Checks parameters, each of which is declared first. -/
def checkParameters (env : Env) : List Tree → Outcome (List Tree) (List Tree × Env)
  | [] => return ([], env)
  | t :: ts => do
    let own : Entry := ⟨t.root.name, .parameter, .node t.root.id, none⟩
    let (t, _) ← within (· :: ts) (check (env.declare own) t)
    let env := env.declare { own with type := t.type }
    let (ts, env) ← within (t :: ·) (checkParameters env ts)
    return (t :: ts, env)

/-- Checks arguments. -/
def checkArguments (env : Env) : List Tree → Outcome (List Tree) (List Tree × Env)
  | [] => return ([], env)
  | t :: ts => do
    refuseFunction env t.root (t :: ts)
    let (t, env) ← within (· :: ts) (check env t)
    let (ts, env) ← within (t :: ·) (checkArguments env ts)
    return (t :: ts, env)

/-- Checks the operands and operators of a math expression. -/
def checkOperands (env : Env) : List Tree → Outcome (List Tree) (List Tree × Env)
  | [] => return ([], env)
  | t :: ts => do
    let (t, env) ← within (· :: ts) (check env t)
    requireNumeric env t (t :: ts)
    let (ts, env) ← within (t :: ·) (checkOperands env ts)
    return (t :: ts, env)

end

attribute [local grind =] check checkAll checkParameters checkArguments checkOperands

/-- Checks a whole tree: the tree with its types and the symbols that are left, or the fault and
the tree with the types that it has got. -/
def verify (t : Tree) : Outcome Tree (Tree × List Symbol) := do
  let (t, env) ← check .start t
  return (t, env.symbols)

/-! ## The relation between the two states -/

open Typing (State Stopped Step Fresh SameButHistory Place enter leave giveType)

theorem Env.depth_of_mem_symbolsOf {scopes : List Scope} {y : Symbol}
    (h : y ∈ Env.symbolsOf scopes) : y.depth < scopes.length := by
  induction scopes with
  | nil => cases h
  | cons scope outer ih =>
    rw [Env.symbolsOf, List.mem_append, List.mem_map] at h
    rcases h with h | ⟨e, -, rfl⟩
    · exact Nat.lt_succ_of_lt (ih h)
    · exact Nat.lt_succ_self _

/-- A symbol with the type that the state knows for it. -/
def entryOf (s : State) (y : Symbol) : Entry := ⟨y.name, y.category, y.declaration, s.typeOf? y⟩

/-- The table holds the scopes one after the other, with their numbers as depths, and the
entries have the types that the state knows. -/
structure Mirrors (s : State) (env : Env) : Prop where
  table : s.table = ⟨env.symbols, env.outer.length⟩
  entries : (env.inner :: env.outer).flatten = s.table.symbols.reverse.map (entryOf s)

theorem Mirrors.bounded {s : State} {env : Env} (h : Mirrors s env) : s.table.Bounded := by
  rw [h.table]
  exact fun y hy => Nat.le_of_lt_succ (Env.depth_of_mem_symbolsOf hy)

/-- Both find the same declaration of a name. -/
theorem Mirrors.find? {s : State} {env : Env} (h : Mirrors s env) (name : String) :
    env.find? name = (s.find? name).map (entryOf s) := by
  rw [Env.find?, ← List.find?_flatten, h.entries, List.find?_map, State.find?,
    SymbolTable.find?]
  congr 1
  refine List.find?_congr fun y hy => ?_
  have shallow : y.depth ≤ s.table.depth := h.bounded y (List.mem_reverse.mp hy)
  simp [entryOf, shallow]
  rfl

theorem mem_of_find? {s : State} {name : String} {y : Symbol} (h : s.find? name = some y) :
    y ∈ s.table.symbols := (SymbolTable.of_find?_eq_some h).1

/-- The relation is kept where the table and the types of what it holds are. -/
theorem Mirrors.same {s s' : State} {env : Env} (h : Mirrors s env) (ht : s'.table = s.table)
    (hk : ∀ y ∈ s.table.symbols, s'.typeOf? y = s.typeOf? y) : Mirrors s' env := by
  refine ⟨ht.trans h.table, ?_⟩
  rw [h.entries, ht]
  apply List.map_congr_left
  intro y hy
  rw [entryOf, entryOf, hk y (List.mem_reverse.mp hy)]

theorem Mirrors.push {s s' : State} {env : Env} (h : Mirrors s env)
    (ht : s'.table = s.table.openBlock) (hk : s'.types = s.types) : Mirrors s' env.push := by
  refine ⟨?_, ?_⟩
  · rw [ht, h.table]
    simp [SymbolTable.openBlock, Env.symbols, Env.push, Env.symbolsOf]
  · have same : entryOf s' = entryOf s := by
      funext y
      simp [entryOf, State.typeOf?, hk]
    rw [ht, same]
    exact h.entries

theorem Mirrors.declare {s s' : State} {env : Env} {name : String}
    {category : Symbol.Category} {i : Nat} {type : Option Ty} (h : Mirrors s env)
    (ht : s'.table = s.table.insert name category (.node i))
    (hk : ∀ y ∈ s.table.symbols, s'.typeOf? y = s.typeOf? y) (hi : s'.types[i]? = type) :
    Mirrors s' (env.declare ⟨name, category, .node i, type⟩) := by
  refine ⟨?_, ?_⟩
  · rw [ht, h.table]
    simp [SymbolTable.insert, Env.symbols, Env.declare, Env.symbolsOf]
  · have same : Mirrors { s' with table := s.table } env := h.same rfl hk
    have entries := same.entries
    rw [ht]
    simp only [Env.declare, SymbolTable.insert, List.reverse_append, List.reverse_cons,
      List.reverse_nil, List.nil_append, List.map_cons, List.flatten_cons,
      List.cons_append]
    rw [← List.flatten_cons, entries]
    simp [entryOf, State.typeOf?, ← hi]

theorem mirrors_start : Mirrors State.start Env.start := by
  refine ⟨rfl, rfl⟩

/-! ## Equal outcomes -/

/-- Both outcomes are failures that leave the same, or both give the same and end in related
states. -/
def Agrees : Except (Stopped σ) (α × State) → Outcome σ (α × Env) → Prop
  | .ok (a, s), .ok (b, env) => a = b ∧ Mirrors s env
  | .error e, .error f => (e.fault, e.left) = f
  | _, _ => False

theorem Agrees.bind {x : Step σ α} {f : α → Step σ β} {s : State} {q : Outcome σ (α × Env)}
    {g : α × Env → Outcome σ (β × Env)} (h : Agrees (x s) q)
    (hf : ∀ a s' env', x s = .ok (a, s') → Mirrors s' env' → Agrees (f a s') (g (a, env'))) :
    Agrees ((x >>= f) s) (q >>= g) := by
  rw [Step.bind_apply]
  rcases hx : x s with e | ⟨a, s'⟩ <;> rcases q with e' | ⟨b, env⟩ <;> rw [hx] at h
  · exact h
  · exact h.elim
  · exact h.elim
  · obtain ⟨rfl, hm⟩ := h
    exact hf a s' env hx hm

theorem Agrees.within {x : Step σ α} {s : State} {q : Outcome σ (α × Env)} {f : σ → τ}
    (h : Agrees (x s) q) : Agrees (x.leaving f s) (within f q) := by
  unfold Step.leaving
  rcases hx : x s with e | ⟨a, s'⟩ <;> rcases q with e' | ⟨b, env⟩ <;> rw [hx] at h
  · cases h
    rfl
  · exact h.elim
  · exact h.elim
  · exact h

/-! ## Look-ups -/

theorem Mirrors.sameButHistory {s s' : State} {env : Env} (h : Mirrors s env)
    (hs : SameButHistory s s') : Mirrors s' env :=
  h.same hs.1 fun y _ => by simp only [State.typeOf?, hs.2]

theorem lookUp_eq {s : State} {env : Env} (h : Mirrors s env) (use : Node) (left : σ) :
    lookUp env use left = match s.find? use.name with
      | some y => .ok (entryOf s y)
      | none => .error (.undeclared use.name use.position, left) := by
  rw [lookUp, h.find?]
  cases s.find? use.name <;> rfl

section

variable {s : State} {env : Env} (hm : Mirrors s env) {left : τ}
include hm

theorem agrees_lookUp (use : Node) {f : Symbol → Step τ β} {g : Entry → Outcome τ (β × Env)}
    (hf : ∀ y ∈ s.table.symbols, ∀ s', SameButHistory s s' →
      Agrees (f y s') (g (entryOf s y))) :
    Agrees (((Typing.lookUp use).leaving (fun _ => left) >>= f) s)
      (lookUp env use left >>= g) := by
  rw [Step.bind_apply, Step.leaving, Typing.lookUp_apply, lookUp_eq hm]
  cases hy : s.find? use.name with
  | none => rfl
  | some y => exact hf y (mem_of_find? hy) _ ⟨rfl, rfl⟩

theorem agrees_lookUpIfNamed (use : Node) {f : Option Symbol → Step τ β}
    {g : Option Entry → Outcome τ (β × Env)}
    (hf : ∀ named : Option Symbol, (∀ y ∈ named, y ∈ s.table.symbols) → ∀ s',
      SameButHistory s s' → Agrees (f named s') (g (named.map (entryOf s)))) :
    Agrees (((Typing.lookUpIfNamed use).leaving (fun _ => left) >>= f) s)
      (lookUpIfNamed env use left >>= g) := by
  rw [Step.bind_apply, Step.leaving, Typing.lookUpIfNamed_apply, lookUpIfNamed]
  by_cases hk : use.kind = .identifier
  · rw [if_pos hk, if_pos hk, lookUp_eq hm]
    cases hy : s.find? use.name with
    | none => rfl
    | some y => exact hf (some y) (by simp [mem_of_find? hy]) _ ⟨rfl, rfl⟩
  · rw [if_neg hk, if_neg hk]
    exact hf none (by simp) s ⟨rfl, rfl⟩

theorem agrees_refuseFunction (argument : Node) {f : Unit → Step τ β}
    {g : Unit → Outcome τ (β × Env)}
    (hf : ∀ s', SameButHistory s s' → Agrees (f () s') (g ())) :
    Agrees (((Typing.refuseFunction argument).leaving (fun _ => left) >>= f) s)
      (refuseFunction env argument left >>= g) := by
  rw [Step.bind_apply, Step.leaving, Typing.refuseFunction_apply, refuseFunction, lookUpIfNamed]
  by_cases hk : argument.kind = .identifier
  · rw [if_pos hk, if_pos hk, lookUp_eq hm]
    cases hy : s.find? argument.name with
    | none => rfl
    | some y =>
      by_cases hc : y.category = .function
      · have : (entryOf s y).category = .function := hc
        simp only [hc, if_true]
        show Agrees _ ((if _ then _ else _) >>= g)
        rw [if_pos this]
        rfl
      · have : ¬ (entryOf s y).category = .function := hc
        simp only [hc, if_false]
        show Agrees _ ((if _ then _ else _) >>= g)
        rw [if_neg this]
        exact hf _ ⟨rfl, rfl⟩
  · rw [if_neg hk, if_neg hk]
    exact hf s ⟨rfl, rfl⟩

theorem agrees_requireNumeric (operand : Tree) {f : Unit → Step τ β}
    {g : Unit → Outcome τ (β × Env)}
    (hf : ∀ s', SameButHistory s s' → Agrees (f () s') (g ())) :
    Agrees (((Typing.requireNumeric operand).leaving (fun _ => left) >>= f) s)
      (requireNumeric env operand left >>= g) := by
  rw [Step.bind_apply, Step.leaving, Typing.requireNumeric_apply]
  cases hk : operand.root.kind <;> simp only [requireNumeric, hk] <;> try rfl
  case identifier =>
    rw [lookUp_eq hm]
    cases hy : s.find? operand.root.name with
    | none => rfl
    | some y =>
      by_cases hn : (s.typeOf? y).any Ty.isNumeric
      · have : (entryOf s y).type.any Ty.isNumeric := hn
        simp only [hn, if_true]
        show Agrees _ ((if _ then _ else _) >>= g)
        rw [if_pos this]
        exact hf _ ⟨rfl, rfl⟩
      · have : ¬ (entryOf s y).type.any Ty.isNumeric := hn
        simp only [hn]
        show Agrees _ ((if _ then _ else _) >>= g)
        rw [if_neg this]
        rfl
  all_goals exact hf s ⟨rfl, rfl⟩

end

/-! ## Both checkers agree -/

theorem Mirrors.frame {s s' : State} {env : Env} {is : List Nat} (h : Mirrors s env)
    (hf : Fresh s is) (ht : s'.table = s.table)
    (frame : ∀ i ∉ is, s'.types[i]? = s.types[i]?) : Mirrors s' env :=
  h.same ht (hf.keeps frame)

/-- A new type for a fresh number changes no entry. -/
theorem Mirrors.typed {s : State} {env : Env} {i : Nat} {t : Ty} (h : Mirrors s env)
    (hf : Fresh s [i]) : Mirrors { s with types := s.types.insert i t } env := by
  refine h.frame hf rfl fun j hj => ?_
  rw [Typing.getElem?_insert_type, if_neg]
  rintro rfl
  exact hj (List.mem_singleton_self _)

theorem fresh_root {root : Node} {children children' : List Tree} {place : Nat → Place}
    {s s' : State} (hf : Fresh s [root.id]) (apart : root.id ∉ Tree.idsAll children)
    (hb : s.table.Bounded) (h : Typing.checkAll place children s = .ok (children', s')) :
    Fresh s' [root.id] := by
  apply (Typing.checkAll_ok place children hb h).fresh hf
  intro i hi
  rw [List.mem_singleton.mp hi]
  exact apart

section

variable {root : Node} {children : List Tree} {s : State} {env : Env}
  (hm : Mirrors s env) (fresh : Fresh s (root.id :: Tree.idsAll children))
  (apart : root.id ∉ Tree.idsAll children)
include hm fresh apart

/-- A node that only has its children checked. -/
theorem agrees_node {q : Outcome (List Tree) (List Tree × Env)}
    (he : enter root children = pure none)
    (hl : ∀ cs, leave root none cs = giveType (.node root cs) (typeFrom root cs))
    (hc : Agrees (Typing.checkAll (Place.of root.kind) children s) q) :
    Agrees (Typing.check (.node root children) s)
      (within (.node root) q >>= fun r =>
        .ok ((Tree.node root r.1).typed (typeFrom root r.1), r.2)) := by
  rw [Typing.check, he, Step.leaving_pure, pure_bind]
  apply hc.within.bind
  intro cs s' env' h hm'
  have hf := fresh_root (fresh.mono (by simp)) apart hm.bounded (Step.leaving_ok.mp h)
  rw [hl]
  exact ⟨rfl, hm'.typed hf⟩

omit apart in
/-- A node with a block of its own, the children of which are checked in a new scope. -/
theorem agrees_block {q : Outcome (List Tree) (List Tree × Env)}
    (hb : root.kind.opensBlock) (hf : root.kind ≠ .function)
    (hc : ∀ s', Mirrors s' env.push → Fresh s' (Tree.idsAll children) →
      Agrees (Typing.checkAll (Place.of root.kind) children s') q) :
    Agrees (Typing.check (.node root children) s)
      (within (.node root) q >>= fun r =>
        .ok ((Tree.node root r.1).typed (typeFrom root r.1), env)) := by
  obtain ⟨s₁, ho, ht, hk⟩ : ∃ s₁, (Typing.openBlock root.kind).leaving
      (fun _ : Unit => Tree.node root children) s = .ok ((), s₁) ∧
      s₁.table = s.table.openBlock ∧ s₁.types = s.types := ⟨_, rfl, rfl, rfl⟩
  rw [Typing.check, Typing.enter_block hb hf, Step.leaving_bind, bind_assoc, Step.bind_of_ok ho,
    Step.leaving_pure, pure_bind]
  have inside : Fresh s₁ (Tree.idsAll children) := fun i hi => by
    rw [hk, ht]
    exact fresh i (List.mem_cons_of_mem _ hi)
  apply (hc s₁ (hm.push ht hk) inside).within.bind
  intro cs s₂ env' h _
  rw [Typing.leave_block hb]
  refine ⟨rfl, ?_⟩
  obtain ⟨table, frame⟩ :=
    Typing.block_closed root (typeFrom root cs) hm.bounded ht hk (Step.leaving_ok.mp h)
  exact hm.frame fresh table frame

/-- A function is declared outside its block, with its type unknown until the block has ended. -/
theorem agrees_function {q : Outcome (List Tree) (List Tree × Env)} (hk : root.kind = .function)
    (hc : ∀ s', Mirrors s' (env.declare ⟨root.name, .function, .node root.id, none⟩).push →
      Fresh s' (Tree.idsAll children) →
      Agrees (Typing.checkAll (Place.of root.kind) children s') q) :
    Agrees (Typing.check (.node root children) s)
      (within (.node root) q >>= fun r =>
        .ok ((Tree.node root r.1).typed (typeFrom root r.1),
          env.declare ⟨root.name, .function, .node root.id, some (typeFrom root r.1)⟩)) := by
  obtain ⟨s₁, hd, hd'⟩ : ∃ s₁, (Typing.declare root.name .function root).leaving
      (fun _ : Unit => Tree.node root children) s = .ok ((), s₁) ∧
      s₁ = { s with table := s.table.insert root.name .function (.node root.id) } :=
    ⟨_, rfl, rfl⟩
  obtain ⟨s₂, ho, ht, hy⟩ : ∃ s₂, (Typing.openBlock root.kind).leaving
      (fun _ : Unit => Tree.node root children) s₁ = .ok ((), s₂) ∧
      s₂.table = s₁.table.openBlock ∧ s₂.types = s₁.types := ⟨_, rfl, rfl, rfl⟩
  have own : Mirrors s₁ (env.declare ⟨root.name, .function, .node root.id, none⟩) := by
    rw [hd']
    exact hm.declare rfl (fun _ _ => rfl) (fresh root.id (by simp)).1
  have inside : Fresh s₂ (Tree.idsAll children) := by
    have : Fresh s₁ (Tree.idsAll children) :=
      (fresh.mono (List.subset_cons_self _ _)).declare apart (by rw [hd']) (by rw [hd'])
    intro i hi
    rw [hy, ht]
    exact this i hi
  have he : enter root children = (do
      Typing.declare root.name .function root
      Typing.openBlock root.kind
      return none) := by
    simp only [enter, hk]
  rw [Typing.check, he, Step.leaving_bind, bind_assoc, Step.bind_of_ok hd, Step.leaving_bind,
    bind_assoc, Step.bind_of_ok ho, Step.leaving_pure, pure_bind]
  apply (hc s₂ (own.push ht hy) inside).within.bind
  intro cs s₃ env' h _
  rw [Typing.leave_block (by rw [hk]; rfl)]
  refine ⟨rfl, ?_⟩
  obtain ⟨table, frame⟩ := Typing.block_closed root (typeFrom root cs) own.bounded ht hy
    (Step.leaving_ok.mp h)
  refine hm.declare (table.trans (by rw [hd'])) (fresh.keeps fun i hi => ?_) ?_
  · exact (frame i hi).trans (by rw [hd'])
  · exact (Typing.getElem?_insert_type _ _ _ _).trans (if_pos rfl)

end

/-- The two checkers agree on a tree, wherever its numbers have not been met. -/
def AgreeOn (t : Tree) : Prop :=
  ∀ s env, Fresh s t.ids → Mirrors s env → Agrees (Typing.check t s) (check env t)

/-! ### Children from left to right -/

/-- After the first tree the numbers of the others are still fresh. -/
theorem fresh_rest (place : Place) {t t' : Tree} {ts : List Tree} {s s' : State}
    (hb : s.table.Bounded) (fresh : Fresh s (Tree.idsAll (t :: ts)))
    (nodup : (Tree.idsAll (t :: ts)).Nodup)
    (h : place.around t (Typing.check t) s = .ok (t', s')) : Fresh s' (Tree.idsAll ts) := by
  rw [Tree.idsAll_cons] at fresh nodup
  apply Place.fresh_around hb h (fresh.mono (List.subset_append_right _ _))
  intro i hi ht
  exact (List.nodup_append.mp nodup).2.2 i ht i hi rfl

theorem agrees_all {place : Nat → Place} (hp : ∀ i, place i = .plain) {ts : List Tree}
    (on : ∀ t ∈ ts, AgreeOn t) (nodup : (Tree.idsAll ts).Nodup) {s : State} {env : Env}
    (fresh : Fresh s (Tree.idsAll ts)) (hm : Mirrors s env) :
    Agrees (Typing.checkAll place ts s) (checkAll env ts) := by
  induction ts generalizing place s env with
  | nil => exact ⟨rfl, hm⟩
  | cons t ts ih =>
    rw [List.forall_mem_cons] at on
    have head : Fresh s t.ids := fresh.mono (by simp)
    have others : (Tree.idsAll ts).Nodup := by
      rw [Tree.idsAll_cons] at nodup
      exact (List.nodup_append.mp nodup).2.1
    rw [Typing.checkAll, checkAll, hp 0]
    apply (on.1 s env head hm).within.bind
    intro t' s₁ env₁ h hm₁
    have rest : Fresh s₁ (Tree.idsAll ts) :=
      fresh_rest .plain hm.bounded fresh nodup (Step.leaving_ok.mp h)
    apply (ih (fun i => hp (i + 1)) on.2 others rest hm₁).within.bind
    intro ts' s₂ env₂ _ hm₂
    exact ⟨rfl, hm₂⟩

theorem check_leaf {root : Node} (h : root.kind.isLeaf) (env : Env) :
    check env (.node root []) = .ok ((Tree.node root []).typed (typeFrom root []), env) := by
  cases hk : root.kind <;> rw [hk] at h <;>
    first
    | exact absurd h (by decide)
    | simp only [check, hk]; rfl

/-- A parameter is declared with the type that its own check gives it. -/
theorem agrees_parameters {ts : List Tree}
    (leaf : ∀ t ∈ ts, t.root.kind = .identifier ∧ t.children = [])
    (nodup : (Tree.idsAll ts).Nodup) {s : State} {env : Env}
    (fresh : Fresh s (Tree.idsAll ts)) (hm : Mirrors s env) :
    Agrees (Typing.checkAll (fun _ => .parameter) ts s) (checkParameters env ts) := by
  induction ts generalizing s env with
  | nil => exact ⟨rfl, hm⟩
  | cons t ts ih =>
    obtain ⟨root, children⟩ := t
    obtain ⟨⟨hk, rfl⟩, leaves⟩ := List.forall_mem_cons.mp leaf
    change root.kind = .identifier at hk
    have isLeaf : root.kind.isLeaf := by rw [hk]; rfl
    let type := typeFrom root []
    let s₁ : State := { s with table := s.table.insert root.name .parameter (.node root.id)
                               types := s.types.insert root.id type }
    have step : Place.parameter.around (.node root []) (Typing.check (.node root [])) s =
        .ok ((Tree.node root []).typed type, s₁) :=
      (Step.bind_of_ok (Typing.declare_apply _ _ _ _) _).trans (Typing.check_leaf isLeaf _)
    have own : Fresh s [root.id] := fresh.mono (by simp)
    have others := fresh_rest .parameter hm.bounded fresh nodup step
    have hm₁ : Mirrors s₁ (env.declare ⟨root.name, .parameter, .node root.id, some type⟩) := by
      refine hm.declare rfl (own.keeps fun i hi => ?_) ?_
      · rw [Typing.getElem?_insert_type, if_neg]
        exact fun h => hi (List.mem_singleton.mpr h.symm)
      · rw [Typing.getElem?_insert_type, if_pos rfl]
    rw [Tree.idsAll_cons] at nodup
    rw [Typing.checkAll, checkParameters, check_leaf isLeaf]
    rw [Step.bind_of_ok (Step.leaving_ok.mpr step)]
    apply Agrees.bind (ih leaves (List.nodup_append.mp nodup).2.1 others hm₁).within
    exact fun ts' s₂ env₂ _ hm₂ => ⟨rfl, hm₂⟩

theorem agrees_arguments {ts : List Tree} (on : ∀ t ∈ ts, AgreeOn t)
    (nodup : (Tree.idsAll ts).Nodup) {s : State} {env : Env}
    (fresh : Fresh s (Tree.idsAll ts)) (hm : Mirrors s env) :
    Agrees (Typing.checkAll (fun _ => .argument) ts s) (checkArguments env ts) := by
  induction ts generalizing s env with
  | nil => exact ⟨rfl, hm⟩
  | cons t ts ih =>
    rw [List.forall_mem_cons] at on
    have rest : (Tree.idsAll ts).Nodup := by
      rw [Tree.idsAll_cons] at nodup
      exact (List.nodup_append.mp nodup).2.1
    rw [Typing.checkAll, checkArguments, Place.around, Step.leaving_bind, bind_assoc,
      Step.leaving_leaving]
    apply agrees_refuseFunction hm t.root
    intro s₀ hs
    have fresh₀ := fresh.sameButHistory hs
    have hm₀ := hm.sameButHistory hs
    have head : Fresh s₀ t.ids := fresh₀.mono (by simp)
    apply (on.1 s₀ env head hm₀).within.bind
    intro t' s₁ env₁ h hm₁
    have others : Fresh s₁ (Tree.idsAll ts) :=
      fresh_rest .plain hm₀.bounded fresh₀ nodup (Step.leaving_ok.mp h)
    apply (ih on.2 rest others hm₁).within.bind
    intro ts' s₂ env₂ _ hm₂
    exact ⟨rfl, hm₂⟩

theorem agrees_operands {ts : List Tree} (on : ∀ t ∈ ts, AgreeOn t)
    (nodup : (Tree.idsAll ts).Nodup) {s : State} {env : Env}
    (fresh : Fresh s (Tree.idsAll ts)) (hm : Mirrors s env) :
    Agrees (Typing.checkAll (fun _ => .operand) ts s) (checkOperands env ts) := by
  induction ts generalizing s env with
  | nil => exact ⟨rfl, hm⟩
  | cons t ts ih =>
    rw [List.forall_mem_cons] at on
    have rest : (Tree.idsAll ts).Nodup := by
      rw [Tree.idsAll_cons] at nodup
      exact (List.nodup_append.mp nodup).2.1
    have head : Fresh s t.ids := fresh.mono (by simp)
    rw [Typing.checkAll, checkOperands, Place.around, Step.leaving_bind, bind_assoc]
    apply (on.1 s env head hm).within.bind
    intro t' s₁ env₁ h hm₁
    have others : Fresh s₁ (Tree.idsAll ts) :=
      fresh_rest .plain hm.bounded fresh nodup (Step.leaving_ok.mp h)
    rw [Step.leaving_bind, bind_assoc, Step.leaving_leaving]
    apply agrees_requireNumeric hm₁ t'
    intro s₂ hs
    rw [Step.leaving_pure, pure_bind]
    apply (ih on.2 rest (others.sameButHistory hs) (hm₁.sameButHistory hs)).within.bind
    exact fun ts' s₃ env₃ _ hm₃ => ⟨rfl, hm₃⟩

/-! ### Nodes with checks of their own -/

section

variable {root : Node} {s : State} {env : Env}

/-- The value of an assignment declares nothing, so that the name is the only new one. -/
theorem agrees_assignment {target value : Tree} (hk : root.kind = .assignment)
    (on : AgreeOn value) (nothing : ∀ depth, Typing.declared depth value = [])
    (nodup : (Tree.node root [target, value]).ids.Nodup)
    (fresh : Fresh s (Tree.node root [target, value]).ids) (hm : Mirrors s env) :
    Agrees (Typing.check (.node root [target, value]) s)
      (check env (.node root [target, value])) := by
  simp only [Tree.ids_node, Tree.idsAll_cons, Tree.idsAll_nil, List.append_nil] at nodup fresh
  rw [Typing.check_assignment hk]
  unfold check
  simp only [hk]
  apply agrees_lookUpIfNamed hm value.root
  intro _ _ s₀ hs
  have hm₀ := hm.sameButHistory hs
  have fresh₀ := fresh.sameButHistory hs
  have apart : target.root.id ∉ value.ids := fun h =>
    (List.nodup_append.mp (List.nodup_cons.mp nodup).2).2.2 _ target.id_mem_ids _ h rfl
  have own : Fresh s₀ [target.root.id] := fresh₀.mono (by simp [Tree.id_mem_ids])
  let s₁ : State := { s₀ with
    table := s₀.table.insert target.root.name .variable (.node target.root.id) }
  have hm₁ : Mirrors s₁ (env.declare ⟨target.root.name, .variable, .node target.root.id, none⟩) :=
    hm₀.declare rfl (fun _ _ => rfl) (own _ (List.mem_singleton_self _)).1
  have fresh₁ : Fresh s₁ value.ids :=
    (fresh₀.mono (by simp)).declare apart rfl rfl
  rw [Step.bind_of_ok (Typing.declare_apply _ _ _ _)]
  refine (on s₁ _ fresh₁ hm₁).within.bind fun value' s₂ env₂ h _ => ⟨rfl, ?_⟩
  have checked := Typing.check_ok value hm₁.bounded (Step.leaving_ok.mp h)
  have table : s₂.table = s₁.table := by rw [checked.table, nothing, SymbolTable.adding_nil]
  refine hm₀.declare table (fresh₀.keeps fun i hi => ?_) ?_
  · simp only [List.mem_cons, List.mem_append, not_or] at hi
    obtain ⟨hroot, htarget, hvalue⟩ := hi
    have htarget : target.root.id ≠ i := fun h => htarget (h ▸ target.id_mem_ids)
    have hframe : s₂.types[i]? = s₀.types[i]? := checked.frame i hvalue
    show ((s₂.types.insert target.root.id _).insert root.id _)[i]? = _
    rw [Typing.getElem?_insert_type, if_neg (Ne.symm hroot), Typing.getElem?_insert_type,
      if_neg htarget, hframe]
  · show ((s₂.types.insert target.root.id _).insert root.id _)[target.root.id]? = _
    rw [Typing.getElem?_insert_type, Typing.getElem?_insert_type, if_pos rfl]
    exact ite_self _

/-- A call has the type of what it calls, which the check of its arguments does not change. -/
theorem agrees_invocation {callee : Tree} {rest : List Tree} (hk : root.kind = .invocation)
    (on : ∀ t ∈ callee :: rest, AgreeOn t)
    (nodup : (Tree.node root (callee :: rest)).ids.Nodup)
    (fresh : Fresh s (Tree.node root (callee :: rest)).ids) (hm : Mirrors s env) :
    Agrees (Typing.check (.node root (callee :: rest)) s)
      (check env (.node root (callee :: rest))) := by
  rw [Tree.ids_node] at nodup fresh
  rw [Typing.check_invocation hk]
  unfold check
  simp only [hk]
  apply agrees_lookUp hm callee.root
  intro y hy s₀ hs
  have hm₀ := hm.sameButHistory hs
  have fresh₀ := fresh.sameButHistory hs
  by_cases hc : y.category = .function
  · have hc' : (entryOf s y).category = .function := hc
    rw [if_pos hc, if_pos hc']
    have inner : Fresh s₀ (Tree.idsAll (callee :: rest)) :=
      fresh₀.mono (List.subset_cons_self _ _)
    have all := agrees_all (fun _ => rfl) on (List.nodup_cons.mp nodup).2 inner hm₀
    apply all.within.bind
    intro children s₁ env₁ h hm₁
    have checked := Typing.checkAll_ok _ _ hm₀.bounded (Step.leaving_ok.mp h)
    have known : s₁.typeOf? y = s.typeOf? y := by
      rw [inner.keeps checked.frame y (hs.1 ▸ hy), State.typeOf?, hs.2]
      rfl
    have own : Fresh s₁ [root.id] := checked.fresh (fresh₀.mono (by simp)) fun i hi => by
      rw [List.mem_singleton.mp hi]
      exact (List.nodup_cons.mp nodup).1
    simp only [leave, hk]
    rw [Step.bind_of_ok (Typing.get_apply _), known]
    exact ⟨rfl, hm₁.typed own⟩
  · have hc' : ¬ (entryOf s y).category = .function := hc
    rw [if_neg hc, if_neg hc']
    rfl

theorem agrees_return {value : Tree} (hk : root.kind = .return) (on : AgreeOn value)
    (nodup : (Tree.node root [value]).ids.Nodup)
    (fresh : Fresh s (Tree.node root [value]).ids) (hm : Mirrors s env) :
    Agrees (Typing.check (.node root [value]) s) (check env (.node root [value])) := by
  simp only [Tree.ids_node, Tree.idsAll_cons, Tree.idsAll_nil, List.append_nil] at nodup fresh
  rw [Typing.check_return hk]
  unfold check
  simp only [hk]
  apply agrees_lookUpIfNamed hm value.root
  intro named hn s₀ hs
  have hm₀ := hm.sameButHistory hs
  have fresh₀ := fresh.sameButHistory hs
  have inner : Fresh s₀ value.ids := fresh₀.mono (List.subset_cons_self _ _)
  apply (on s₀ _ inner hm₀).within.bind
  intro value' s₁ env₁ h hm₁
  have checked := Typing.check_ok value hm₀.bounded (Step.leaving_ok.mp h)
  have own : Fresh s₁ [root.id] := checked.fresh (fresh₀.mono (by simp)) fun i hi => by
    rw [List.mem_singleton.mp hi]
    exact (List.nodup_cons.mp nodup).1
  simp only [leave, hk]
  cases named with
  | none => exact ⟨by simp [typeFrom, hk], hm₁.typed own⟩
  | some y =>
    have known : s₁.typeOf? y = s.typeOf? y := by
      rw [inner.keeps checked.frame y (hs.1 ▸ hn y rfl), State.typeOf?, hs.2]
      rfl
    dsimp only
    rw [Step.bind_of_ok (Typing.get_apply _), known]
    exact ⟨rfl, hm₁.typed own⟩

/-- Comparing looks up both sides, the right one after the left one is checked. -/
theorem agrees_comparison {left comparator right : Tree} (hk : root.kind = .comparison)
    (onLeft : AgreeOn left) (onRight : AgreeOn right)
    (nodup : (Tree.node root [left, comparator, right]).ids.Nodup)
    (fresh : Fresh s (Tree.node root [left, comparator, right]).ids) (hm : Mirrors s env) :
    Agrees (Typing.check (.node root [left, comparator, right]) s)
      (check env (.node root [left, comparator, right])) := by
  simp only [Tree.ids_node, Tree.idsAll_cons, Tree.idsAll_nil, List.append_nil] at nodup fresh
  rw [Typing.check_comparison hk]
  unfold check
  simp only [hk]
  apply agrees_lookUpIfNamed hm left.root
  intro _ _ s₀ hs
  have hm₀ := hm.sameButHistory hs
  have fresh₀ := fresh.sameButHistory hs
  have inLeft : Fresh s₀ left.ids := fresh₀.mono (by simp)
  apply (onLeft s₀ _ inLeft hm₀).within.bind
  intro left' s₁ env₁ h₁ hm₁
  obtain ⟨hroot, nodup⟩ := List.nodup_cons.mp nodup
  obtain ⟨-, nodup, hleft⟩ := List.nodup_append.mp nodup
  obtain ⟨-, -, hright⟩ := List.nodup_append.mp nodup
  have fresh₁ : Fresh s₁ (root.id :: (comparator.ids ++ right.ids)) := by
    refine (Typing.check_ok left hm₀.bounded (Step.leaving_ok.mp h₁)).fresh ?_ ?_
    · exact fresh₀.mono (by simp)
    · intro i hi h
      rcases List.mem_cons.mp hi with rfl | hi
      · exact hroot (List.mem_append_left _ h)
      · exact hleft i h i hi rfl
  apply agrees_lookUpIfNamed hm₁ right.root
  intro _ _ s₂ hs₂
  have hm₂ := hm₁.sameButHistory hs₂
  have fresh₂ := fresh₁.sameButHistory hs₂
  have inRight : Fresh s₂ right.ids := fresh₂.mono (by simp)
  apply (onRight s₂ _ inRight hm₂).within.bind
  intro right' s₃ env₃ h₃ hm₃
  have fresh₃ : Fresh s₃ [root.id, comparator.root.id] := by
    refine (Typing.check_ok right hm₂.bounded (Step.leaving_ok.mp h₃)).fresh ?_ ?_
    · exact fresh₂.mono (by simp [Tree.id_mem_ids])
    · intro i hi h
      rcases List.mem_cons.mp hi with rfl | hi
      · exact hroot (List.mem_append_right _ (List.mem_append_right _ h))
      · rw [List.mem_singleton.mp hi] at h
        exact hright _ comparator.id_mem_ids _ h rfl
  simp only [leave, hk]
  cases left'.type.common? right'.type with
  | none => exact rfl
  | some common =>
    refine ⟨rfl, hm₃.frame fresh₃ rfl fun i hi => ?_⟩
    simp only [List.mem_cons, List.not_mem_nil, or_false, not_or] at hi
    show ((s₃.types.insert comparator.root.id _).insert root.id _)[i]? = _
    rw [Typing.getElem?_insert_type, if_neg (Ne.symm hi.1), Typing.getElem?_insert_type,
      if_neg (Ne.symm hi.2)]

end

/-! ### Whole trees -/

theorem agreeOn (t : Tree) (hl : t.LaidOut) (nodup : t.ids.Nodup) : AgreeOn t := by
  induction t using Tree.ofChildren with
  | step root children ih =>
    intro s env fresh hm
    have whole := nodup
    rw [Tree.ids_node, List.nodup_cons] at nodup
    obtain ⟨apart, inner⟩ := nodup
    have on : ∀ c ∈ children, AgreeOn c := fun c hc =>
      ih c hc (hl.child c hc) ((List.nodup_flatMap.mp inner).1 c hc)
    have fresh' := fresh
    rw [Tree.ids_node] at fresh
    have below : Fresh s (Tree.idsAll children) := fresh.mono (List.subset_cons_self _ _)
    have plain (h : root.kind.isPlain) {q} := agrees_node (q := q) hm fresh apart
      (Typing.enter_plain h children) (Typing.leave_plain h)
    by_cases leaf : root.kind.isLeaf
    · obtain rfl : children = [] := Tree.children_of_isLeaf hl leaf
      rw [Typing.check_leaf leaf, check_leaf leaf]
      exact ⟨rfl, hm.typed (fresh.mono (by simp))⟩
    cases hk : root.kind
    case program | instruction | instructionBlock | conditional | conditionalExpression =>
      unfold check
      simp only [hk]
      apply plain (by rw [hk]; rfl)
      rw [hk]
      exact agrees_all (fun _ => rfl) on inner below hm
    case functionParameters =>
      unfold check
      simp only [hk]
      apply plain (by rw [hk]; rfl)
      rw [hk]
      refine agrees_parameters (fun c hc => ?_) inner below hm
      have kind := hl.parameters hk c hc
      exact ⟨kind, Tree.children_of_isLeaf (hl.child c hc) (by rw [kind]; rfl)⟩
    case invocationArguments =>
      unfold check
      simp only [hk]
      apply plain (by rw [hk]; rfl)
      rw [hk]
      exact agrees_arguments on inner below hm
    case mathExpression =>
      unfold check
      simp only [hk]
      apply plain (by rw [hk]; rfl)
      rw [hk]
      exact agrees_operands on inner below hm
    case main | loop | ifBranch | elseBranch =>
      unfold check
      simp only [hk]
      apply agrees_block hm fresh (by rw [hk]; rfl) (by rw [hk]; decide)
      intro s₁ hm₁ fresh₁
      rw [hk]
      exact agrees_all (fun _ => rfl) on inner fresh₁ hm₁
    case function =>
      unfold check
      simp only [hk]
      apply agrees_function hm fresh apart hk
      intro s₁ hm₁ fresh₁
      rw [hk]
      exact agrees_all (fun _ => rfl) on inner fresh₁ hm₁
    case assignment =>
      obtain ⟨target, value, rfl, -, expression⟩ := hl.assignment hk
      refine agrees_assignment hk (on value (by simp)) (fun depth => ?_) whole fresh' hm
      exact Typing.declared_expression (hl.child value (by simp)) expression
    case invocation =>
      obtain ⟨callee, rest, rfl, -, -⟩ := hl.invocation hk
      exact agrees_invocation hk on whole fresh' hm
    case «return» =>
      obtain rfl | ⟨value, rfl, -⟩ := hl.return hk
      · rw [Typing.check_return_nothing hk]
        unfold check
        simp only [hk]
        exact ⟨rfl, hm.typed (fresh.mono (by simp))⟩
      · exact agrees_return hk (on value (by simp)) whole fresh' hm
    case comparison =>
      obtain ⟨left, sign, right, rfl, -, -, -⟩ := hl.comparison hk
      exact agrees_comparison hk (on left (by simp)) (on right (by simp)) whole fresh' hm
    all_goals
      rw [hk] at leaf
      exact absurd rfl leaf

end Mamuth.Nested

namespace Mamuth

/-- How a check went: the tree with its types and the symbols that are left, or the fault and the
tree with the types that it has got. -/
def Typing.outcome : Except (Typing.Stopped Tree) (Tree × Typing.State) →
    Except (Fault × Tree) (Tree × List Symbol)
  | .ok (t, s) => .ok (t, s.table.symbols)
  | .error e => .error (e.fault, e.left)

open Nested in
/-- One flat table, purged by depth, and the types by number do what nested scopes do. -/
theorem Program.verify_tree (p : Program) :
    Typing.outcome p.tree.verify = Nested.verify p.tree := by
  have agree := agreeOn p.tree p.laidOut_tree p.nodup_ids_tree .start .start
    (Typing.fresh_start _) mirrors_start
  unfold Tree.verify Nested.verify
  rcases hx : Typing.check p.tree .start with e | ⟨t, s⟩ <;>
    rcases hy : Nested.check .start p.tree with e' | ⟨u, env⟩ <;> rw [hx, hy] at agree
  · cases agree
    rfl
  · exact agree.elim
  · exact agree.elim
  · obtain ⟨rfl, hm⟩ := agree
    show Except.ok _ = Except.ok _
    rw [hm.table]

end Mamuth
