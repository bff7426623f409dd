-- Positions in a source text: lines and columns, both counted from one and in
-- characters. Only the newline character ends a line.

namespace Mamuth

/-- A place in a source text. -/
structure Position where
  line : Nat
  column : Nat
  deriving DecidableEq, Repr, Inhabited

namespace Position

/-- Where a source text starts. -/
def start : Position := ⟨1, 1⟩

/-- The position after one character. -/
def next (p : Position) (c : Char) : Position :=
  if c = '\n' then ⟨p.line + 1, 1⟩ else ⟨p.line, p.column + 1⟩

/-- The position after a run of characters. -/
def after (p : Position) (chars : List Char) : Position := chars.foldl next p

@[simp] theorem after_nil (p : Position) : p.after [] = p := rfl

@[simp] theorem after_cons (p : Position) (c : Char) (cs : List Char) :
    p.after (c :: cs) = (p.next c).after cs := rfl

theorem after_append (p : Position) (cs ds : List Char) :
    p.after (cs ++ ds) = (p.after cs).after ds := by simp [after]

/-- The position in the words of the listings and of most messages. -/
def inWords (p : Position) : String := s!"line {p.line}, column {p.column}"

/-- The position as a pair, as the messages of the first two stages write it. -/
def asPair (p : Position) : String := s!"({p.line}, {p.column})"

end Position

end Mamuth
