-- The symbol table: the declarations in sight, oldest first, each with the depth of the
-- block that made it. Closing a block forgets what was declared at its depth, and the
-- latest declaration of a name hides those before it.
import Mamuth.Outline

namespace Mamuth

namespace Symbol

/-- What introduced a symbol. -/
inductive Category where
  | variable
  | parameter
  | function
  deriving DecidableEq, Repr

def Category.name : Category → String
  | .variable => "Variable"
  | .parameter => "Parameter"
  | .function => "Function"

def Category.all : List Category := [.variable, .parameter, .function]

/-- Where the type of a symbol comes from. -/
inductive Declaration where
  /-- The type that the node of this number gets. -/
  | node (id : Nat)
  /-- A standard function that returns this type. -/
  | builtin (type : Ty)
  deriving DecidableEq, Repr

def Declaration.inWords : Declaration → String
  | .node id => s!"node {id}"
  | .builtin t => s!"builtin returning {t.name}"

end Symbol

/-- A declared name. -/
structure Symbol where
  name : String
  depth : Nat
  category : Symbol.Category
  declaration : Symbol.Declaration
  deriving DecidableEq, Repr

/-- One line of a symbol listing, without its indentation and its newline. -/
def Symbol.line (s : Symbol) : String :=
  s!"{Text.field 20 s.name} depth: {s.depth}, {s.category.name}, {s.declaration.inWords}"

/-- The declarations in sight and the depth that new ones get. -/
structure SymbolTable where
  /-- All declarations that are kept, oldest first. -/
  symbols : List Symbol
  /-- The number of open blocks. -/
  depth : Nat
  deriving DecidableEq, Repr

namespace SymbolTable

/-- Nothing is declared and no block is open. -/
def empty : SymbolTable := ⟨[], 0⟩

/-- Opens a block; what is in sight stays in sight. -/
def openBlock (t : SymbolTable) : SymbolTable := { t with depth := t.depth + 1 }

/-- Forgets what was declared at the current depth. The top level cannot be left, but what
was declared there is forgotten too. -/
def closeBlock (t : SymbolTable) : SymbolTable :=
  ⟨t.symbols.filter (·.depth ≠ t.depth), t.depth - 1⟩

/-- Declares a name at the current depth. -/
def insert (t : SymbolTable) (name : String) (category : Symbol.Category)
    (declaration : Symbol.Declaration) : SymbolTable :=
  { t with symbols := t.symbols ++ [⟨name, t.depth, category, declaration⟩] }

/-- The latest declaration of a name, among those in sight that pass the test. -/
def find? (t : SymbolTable) (name : String) (test : Symbol → Bool) : Option Symbol :=
  t.symbols.reverse.find? fun s => s.name = name && s.depth ≤ t.depth && test s

/-- The latest declaration of a name. -/
def get? (t : SymbolTable) (name : String) : Option Symbol := t.find? name fun _ => true

@[simp] theorem depth_insert (t : SymbolTable) (name : String) (category : Symbol.Category)
    (declaration : Symbol.Declaration) :
    (t.insert name category declaration).depth = t.depth := rfl

/-- A new declaration hides the older ones of its name, if it passes the test. -/
theorem find?_insert (t : SymbolTable) (name : String) (category : Symbol.Category)
    (declaration : Symbol.Declaration) (other : String) (test : Symbol → Bool) :
    (t.insert name category declaration).find? other test =
      if name = other ∧ test ⟨name, t.depth, category, declaration⟩ then
        some ⟨name, t.depth, category, declaration⟩
      else t.find? other test := by
  simp only [find?, insert, List.reverse_append, List.reverse_cons, List.reverse_nil,
    List.nil_append, List.cons_append, List.find?_cons]
  by_cases h : name = other <;>
    cases ht : test ⟨name, t.depth, category, declaration⟩ <;> simp [h] <;> rfl

/-- What is found was declared under the name, is in sight and passes the test. -/
theorem of_find?_eq_some {t : SymbolTable} {name : String} {test : Symbol → Bool} {s : Symbol}
    (h : t.find? name test = some s) :
    s ∈ t.symbols ∧ s.name = name ∧ s.depth ≤ t.depth ∧ test s := by
  have hm := List.mem_of_find?_eq_some h
  have hp := List.find?_some h
  simp only [Bool.and_eq_true, decide_eq_true_eq] at hp
  exact ⟨List.mem_reverse.mp hm, hp.1.1, hp.1.2, hp.2⟩

/-- The listing of the table. -/
def listing (t : SymbolTable) : String :=
  "SYMBOL TABLE\n" ++
    String.join (t.symbols.map fun s => Text.indentation (s.depth + 1) ++ s.line ++ "\n")

end SymbolTable

/-! ## The standard functions -/

/-- The functions that every program may call, with what they return. -/
def standardFunctions : List (String × Ty) :=
  [("curcuma", .text), ("nel", .number), ("intnt", .boolean), ("me_perdonas", .none),
    ("aber", .none), ("duren", .text), ("corona", .text), ("amimir", .none),
    ("f_en_el_chat", .none), ("lolazo", .integer)]

/-- Declares the standard functions at the current depth. -/
def SymbolTable.withStandard (t : SymbolTable) : SymbolTable :=
  standardFunctions.foldl (fun t (name, type) => t.insert name .function (.builtin type)) t

end Mamuth
