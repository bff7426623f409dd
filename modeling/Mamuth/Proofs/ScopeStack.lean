-- The symbol table as a stack of scopes. The table is one flat list in which each symbol has a
-- depth, and the end of a block forgets a depth. Whatever is done with a new table, it
-- answers as scopes do that are pushed and popped: nothing in it tells the two apart.
import Mathlib.Data.List.Find
import Mamuth.Symbol

namespace Mamuth

/-! ## Operations -/

namespace SymbolTable

/-- What can be done with a table and asked of it. -/
inductive Operation where
  | openBlock
  | closeBlock
  | insert (name : String) (category : Symbol.Category) (declaration : Symbol.Declaration)
  | withStandard
  | get? (name : String)
  | find? (name : String) (test : Symbol → Bool)
  | symbols
  | depth

/-- What an operation gives back. -/
inductive Answer where
  | done
  | found (symbol : Option Symbol)
  | symbols (symbols : List Symbol)
  | depth (depth : Nat)

/-- One operation on a table. -/
def perform (t : SymbolTable) : Operation → SymbolTable × Answer
  | .openBlock => (t.openBlock, .done)
  | .closeBlock => (t.closeBlock, .done)
  | .insert name category declaration => (t.insert name category declaration, .done)
  | .withStandard => (t.withStandard, .done)
  | .get? name => (t, .found (t.get? name))
  | .find? name test => (t, .found (t.find? name test))
  | .symbols => (t, .symbols t.symbols)
  | .depth => (t, .depth t.depth)

/-- Operations one after another, with what each of them gives back. -/
def run (perform : σ → Operation → σ × Answer) (s : σ) : List Operation → σ × List Answer
  | [] => (s, [])
  | op :: ops =>
    let (s, answer) := perform s op
    let (s, answers) := run perform s ops
    (s, answer :: answers)

theorem run_cons (perform : σ → Operation → σ × Answer) (s : σ) (op : Operation)
    (ops : List Operation) :
    (run perform s (op :: ops)).1 = (run perform (perform s op).1 ops).1 := rfl

theorem run_append (perform : σ → Operation → σ × Answer) (s : σ) (ops more : List Operation) :
    (run perform s (ops ++ more)).1 = (run perform (run perform s ops).1 more).1 := by
  induction ops generalizing s with
  | nil => rfl
  | cons op ops ih => exact ih (perform s op).1

/-- Whether the operations close every block that they open and, besides, the `n` blocks that
were opened before. -/
def closes : (n : Nat) → List Operation → Bool
  | n, [] => n = 0
  | n, .openBlock :: ops => closes (n + 1) ops
  | 0, .closeBlock :: _ => false
  | n + 1, .closeBlock :: ops => closes n ops
  | n, _ :: ops => closes n ops

/-- Whether the operations close the blocks that they open, and no others. -/
def balanced (ops : List Operation) : Bool := closes 0 ops

end SymbolTable

open SymbolTable (Operation Answer run run_cons run_append)

/-! ## Scopes -/

/-- A symbol without its depth. -/
structure Declared where
  name : String
  category : Symbol.Category
  declaration : Symbol.Declaration

def Declared.symbol (d : Declared) (depth : Nat) : Symbol :=
  ⟨d.name, depth, d.category, d.declaration⟩

/-- The declarations of one block, oldest first. -/
abbrev Scope := List Declared

namespace Scope

/-- The symbols of scopes from the bottom to the top, when the top one comes first. The depth of
a symbol is the number of scopes below its own. -/
def symbolsOf : List Scope → List Symbol
  | [] => []
  | top :: below => symbolsOf below ++ top.map (·.symbol below.length)

attribute [local grind =] symbolsOf

/-- The latest symbol that passes the test, of the topmost scope that has one. -/
def findIn (test : Symbol → Bool) : List Scope → Option Symbol
  | [] => none
  | top :: below =>
    match (top.map (·.symbol below.length)).reverse.find? test with
    | some y => some y
    | none => findIn test below

end Scope

/-- A stack of scopes, of which there is always one. -/
structure ScopeStack where
  top : Scope
  /-- The scopes below, the nearest first. -/
  below : List Scope

namespace ScopeStack

/-- One scope, with nothing in it. -/
def start : ScopeStack := ⟨[], []⟩

def scopes (s : ScopeStack) : List Scope := s.top :: s.below

def depth (s : ScopeStack) : Nat := s.scopes.length - 1

def symbols (s : ScopeStack) : List Symbol := Scope.symbolsOf s.scopes

def push (s : ScopeStack) : ScopeStack := ⟨[], s.scopes⟩

/-- Takes the top scope away, or empties the only one. -/
def pop (s : ScopeStack) : ScopeStack :=
  match s.below with
  | [] => start
  | top :: below => ⟨top, below⟩

def append (s : ScopeStack) (more : Scope) : ScopeStack := { s with top := s.top ++ more }

def find? (s : ScopeStack) (name : String) (test : Symbol → Bool) : Option Symbol :=
  Scope.findIn (fun y => y.name = name && test y) s.scopes

/-- The standard functions as a scope declares them. -/
def standard : Scope := standardFunctions.map fun (name, t) => ⟨name, .function, .builtin t⟩

/-- One operation on a stack of scopes. -/
def perform (s : ScopeStack) : Operation → ScopeStack × Answer
  | .openBlock => (s.push, .done)
  | .closeBlock => (s.pop, .done)
  | .insert name category declaration => (s.append [⟨name, category, declaration⟩], .done)
  | .withStandard => (s.append standard, .done)
  | .get? name => (s, .found (s.find? name fun _ => true))
  | .find? name test => (s, .found (s.find? name test))
  | .symbols => (s, .symbols s.symbols)
  | .depth => (s, .depth s.depth)

/-! ## The table of a stack -/

/-- The flat table that holds the same declarations. -/
def table (s : ScopeStack) : SymbolTable := ⟨s.symbols, s.depth⟩

theorem depth_lt_of_mem_symbolsOf {scopes : List Scope} {y : Symbol}
    (h : y ∈ Scope.symbolsOf scopes) : y.depth < scopes.length := by
  induction scopes with
  | nil => cases h
  | cons top below ih =>
    rw [Scope.symbolsOf, List.mem_append, List.mem_map] at h
    rw [List.length_cons]
    rcases h with h | ⟨d, -, rfl⟩
    · have := ih h
      omega
    · exact Nat.lt_succ_self _

theorem depth_le_of_mem_symbols {s : ScopeStack} {y : Symbol} (h : y ∈ s.symbols) :
    y.depth ≤ s.depth := by
  have := depth_lt_of_mem_symbolsOf h
  unfold depth
  omega

/-- A scope has one depth, and it is beyond those of the scopes below. -/
theorem pairwise_symbolsOf (scopes : List Scope) :
    ((Scope.symbolsOf scopes).map (·.depth)).Pairwise (· ≤ ·) := by
  induction scopes with
  | nil => exact List.Pairwise.nil
  | cons top below ih =>
    rw [Scope.symbolsOf, List.map_append, List.pairwise_append]
    refine ⟨ih, ?_, ?_⟩
    · rw [List.map_map, List.pairwise_map]
      exact List.pairwise_of_forall fun _ _ => Nat.le_refl below.length
    · intro i hi j hj
      obtain ⟨y, hy, rfl⟩ := List.mem_map.mp hi
      rw [List.map_map, List.mem_map] at hj
      obtain ⟨d, -, rfl⟩ := hj
      exact Nat.le_of_lt (depth_lt_of_mem_symbolsOf hy)

theorem table_push (s : ScopeStack) : s.push.table = s.table.openBlock := by
  simp [table, push, symbols, depth, scopes, Scope.symbolsOf, SymbolTable.openBlock]

/-- Forgetting a depth takes the top scope away, since no other scope has that depth. -/
theorem table_pop (s : ScopeStack) : s.pop.table = s.table.closeBlock := by
  obtain ⟨top, below⟩ := s
  have kept : (Scope.symbolsOf below).filter (·.depth ≠ below.length) =
      Scope.symbolsOf below := by
    refine List.filter_eq_self.mpr fun y hy => ?_
    have := depth_lt_of_mem_symbolsOf hy
    simp
    omega
  have dropped : (top.map (·.symbol below.length)).filter (·.depth ≠ below.length) = [] := by
    simp [List.filter_eq_nil_iff, Declared.symbol]
  have closed : (table ⟨top, below⟩).closeBlock =
      ⟨Scope.symbolsOf below, below.length - 1⟩ := by
    unfold SymbolTable.closeBlock table symbols depth scopes
    rw [Scope.symbolsOf, List.length_cons, Nat.add_sub_cancel, List.filter_append, kept, dropped,
      List.append_nil]
  rw [closed]
  cases below with
  | nil => rfl
  | cons next below => rfl

theorem table_append (s : ScopeStack) (d : Declared) :
    (s.append [d]).table = s.table.insert d.name d.category d.declaration := by
  simp [table, append, symbols, depth, scopes, Scope.symbolsOf, SymbolTable.insert,
    Declared.symbol]

theorem append_append (s : ScopeStack) (more yet : Scope) :
    (s.append more).append yet = s.append (more ++ yet) := by
  simp [append]

theorem table_standard (s : ScopeStack) : (s.append standard).table = s.table.withStandard := by
  have folded (fs : List (String × Ty)) (s : ScopeStack) :
      (s.append (fs.map fun (name, t) => ⟨name, .function, .builtin t⟩)).table =
        fs.foldl (fun t (name, type) => t.insert name .function (.builtin type)) s.table := by
    induction fs generalizing s with
    | nil => simp [append]
    | cons f fs ih =>
      obtain ⟨name, t⟩ := f
      have first : s.table.insert name .function (.builtin t) = _ := (s.table_append ⟨_, _, _⟩).symm
      simp only [List.foldl_cons]
      rw [first, ← ih, append_append]
      rfl
  exact folded standardFunctions s

/-- The last match in the flat list is the last one of the topmost scope that has a match. -/
theorem find?_symbolsOf (test : Symbol → Bool) (scopes : List Scope) :
    (Scope.symbolsOf scopes).reverse.find? test = Scope.findIn test scopes := by
  induction scopes with
  | nil => rfl
  | cons top below ih =>
    rw [Scope.symbolsOf, List.reverse_append, List.find?_append, ih, Scope.findIn]
    cases (top.map (·.symbol below.length)).reverse.find? test <;> rfl

theorem table_find? (s : ScopeStack) (name : String) (test : Symbol → Bool) :
    s.table.find? name test = s.find? name test := by
  rw [find?, ← find?_symbolsOf, SymbolTable.find?]
  refine List.find?_congr fun y hy => ?_
  have shallow : y.depth ≤ s.table.depth := depth_le_of_mem_symbols (List.mem_reverse.mp hy)
  simp [shallow]

/-! ## Runs -/

/-- One operation has the same effect and the same answer on both sides. -/
theorem perform_table (s : ScopeStack) (op : Operation) :
    s.table.perform op = ((s.perform op).1.table, (s.perform op).2) := by
  cases op with
  | openBlock => exact congrArg (·, Answer.done) s.table_push.symm
  | closeBlock => exact congrArg (·, Answer.done) s.table_pop.symm
  | insert name category declaration =>
    exact congrArg (·, Answer.done) (s.table_append ⟨name, category, declaration⟩).symm
  | withStandard => exact congrArg (·, Answer.done) s.table_standard.symm
  | get? name => exact congrArg (s.table, Answer.found ·) (s.table_find? name _)
  | find? name test => exact congrArg (s.table, Answer.found ·) (s.table_find? name test)
  | symbols => rfl
  | depth => rfl

theorem run_table (s : ScopeStack) (ops : List Operation) :
    run SymbolTable.perform s.table ops =
      ((run perform s ops).1.table, (run perform s ops).2) := by
  induction ops generalizing s with
  | nil => rfl
  | cons op ops ih => simp only [run, perform_table, ih]

/-- Operations that close their blocks and `n` more only add to the scope below these. -/
theorem run_closes {n : Nat} {ops : List Operation} (h : SymbolTable.closes n ops)
    {s : ScopeStack} {base : Scope} {below : List Scope} (hs : s.scopes.drop n = base :: below) :
    ∃ more, (run perform s ops).1 = ⟨base ++ more, below⟩ := by
  induction ops generalizing n s base with
  | nil =>
    obtain rfl : n = 0 := by simpa [SymbolTable.closes] using h
    cases hs
    exact ⟨[], by rw [List.append_nil]; rfl⟩
  | cons op ops ih =>
    -- In every case but the two of blocks the operation adds to the top scope or to none.
    have adding (more : Scope) (hop : (s.perform op).1 = s.append more)
        (rest : SymbolTable.closes n ops) : ∃ more, (run perform s (op :: ops)).1 =
          ⟨base ++ more, below⟩ := by
      rw [run_cons, hop]
      cases n with
      | zero =>
        cases hs
        obtain ⟨yet, hy⟩ := ih (s := s.append more) rest rfl
        exact ⟨more ++ yet, by rw [← List.append_assoc]; exact hy⟩
      | succ n => exact ih (s := s.append more) rest hs
    have same (hop : (s.perform op).1 = s) (rest : SymbolTable.closes n ops) :=
      adding [] (by rw [hop, append, List.append_nil]) rest
    cases op with
    | openBlock => exact ih (s := s.push) (n := n + 1) (by simpa [SymbolTable.closes] using h) hs
    | closeBlock =>
      cases n with
      | zero => cases h
      | succ n =>
        obtain ⟨top, _ | ⟨next, rest⟩⟩ := s
        · simp [scopes] at hs
        · exact ih (s := ⟨next, rest⟩) (by simpa [SymbolTable.closes] using h) hs
    | insert name category declaration =>
      exact adding [⟨name, category, declaration⟩] rfl (by cases n <;> exact h)
    | withStandard => exact adding standard rfl (by cases n <;> exact h)
    | get? | find? | symbols | depth => exact same rfl (by cases n <;> exact h)

end ScopeStack

open ScopeStack in
/-- Whatever is done with a new table, it answers as a stack of scopes does. Its symbols stand
in the order of their depths, none of them deeper than the open blocks, and a block that was
opened and closed leaves no trace. -/
theorem SymbolTable.run_eq_scopes (ops : List Operation) :
    (run perform empty ops).2 = (run ScopeStack.perform .start ops).2 ∧
      let t := (run perform empty ops).1
      (t.symbols.map (·.depth)).Pairwise (· ≤ ·) ∧ (∀ y ∈ t.symbols, y.depth ≤ t.depth) ∧
        ∀ inner, balanced inner →
          (run perform t (.openBlock :: inner ++ [.closeBlock])).1 = t := by
  have same : run perform empty ops = _ := run_table .start ops
  rw [same]
  refine ⟨rfl, pairwise_symbolsOf _, fun y hy => depth_le_of_mem_symbols hy, fun inner hb => ?_⟩
  generalize (run ScopeStack.perform .start ops).1 = s
  have opened : s.push.scopes.drop 0 = [] :: s.scopes := rfl
  obtain ⟨more, hm⟩ := run_closes hb opened
  have back : (run ScopeStack.perform s (.openBlock :: inner ++ [.closeBlock])).1 = s := by
    rw [List.cons_append, run_cons, run_append]
    exact congrArg pop hm
  rw [run_table, back]

/-- A name declared in two open blocks, with one close too many before, and inside a block
another one that declares it again. -/
theorem SymbolTable.run_eq_scopes_twice_declared :
    let ops : List Operation := [.insert "x" .function (.node 0), .closeBlock,
      .insert "x" .function (.node 1), .openBlock, .insert "x" .variable (.node 2), .get? "x",
      .find? "x" (·.category = .function)]
    let inner : List Operation := [.openBlock, .insert "x" .parameter (.node 3), .closeBlock]
    (run perform empty ops).2 = [.done, .done, .done, .done, .done,
      .found (some ⟨"x", 1, .variable, .node 2⟩), .found (some ⟨"x", 0, .function, .node 1⟩)] ∧
    balanced inner ∧
    (run perform (run perform empty ops).1 (.openBlock :: inner ++ [.closeBlock])).1 =
      ⟨[⟨"x", 0, .function, .node 1⟩, ⟨"x", 1, .variable, .node 2⟩], 1⟩ := by
  intro ops inner
  obtain ⟨answers, -, -, back⟩ := run_eq_scopes ops
  exact ⟨answers.trans rfl, rfl, (back inner rfl).trans rfl⟩

end Mamuth
