-- The outline of a tree: one line for each node, indented by its level, with all that
-- the node holds but its number.
import Mamuth.Text.Field
import Mamuth.Text.Quoted
import Mamuth.Tree

namespace Mamuth

/-- What stands before a line at the given level. -/
def Text.indentation : Nat → String
  | 0 => ""
  | level + 1 => Text.blanks (3 * level) ++ "|__"

/-- What the outline says of one node. -/
def Node.summary (n : Node) : String :=
  let content := match n.content with
    | some text => " " ++ Text.quoted text
    | none => ""
  let type := match n.type with
    | some t => " : " ++ t.name
    | none => ""
  s!"{n.kind.name}{content} ({n.position.inWords}){type}"

namespace Tree

mutual

/-- The lines of a tree whose root is at the given level. -/
def linesAt (level : Nat) : Tree → List String
  | node root children =>
    (Text.indentation level ++ root.summary) :: linesAllAt (level + 1) children

def linesAllAt (level : Nat) : List Tree → List String
  | [] => []
  | t :: ts => linesAt level t ++ linesAllAt level ts

end

/-- The outline, each line with its newline. -/
def outline (t : Tree) : String := String.join ((t.linesAt 0).map (· ++ "\n"))

end Tree

end Mamuth
