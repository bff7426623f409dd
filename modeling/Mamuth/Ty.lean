-- The types that checking gives to the parts of a program, and how they meet in
-- comparisons.

namespace Mamuth

/-- `any` is a type that is not known yet, and `none` marks what gives no value. -/
inductive Ty where
  | text
  | number
  | integer
  | float
  | boolean
  | any
  | logicalComparator
  | none
  deriving DecidableEq, Repr, Inhabited

namespace Ty

/-- The name of a type in listings and messages. -/
def name : Ty → String
  | text => "Text"
  | number => "Number"
  | integer => "Integer"
  | float => "Float"
  | boolean => "Boolean"
  | any => "Any"
  | logicalComparator => "LogicalComparator"
  | none => "None"

/-- Every type. -/
def all : List Ty := [text, number, integer, float, boolean, any, logicalComparator, none]

/-- The types of which an operand of a math expression may be. -/
def isNumeric (t : Ty) : Bool := t = number || t = any

/-- Values can be compared if they are of one type or if one of them may be of any. -/
def compatible (s t : Ty) : Bool := s = t || s = any || t = any

/-- The type that two compared values have in common. -/
def common? (s t : Ty) : Option Ty :=
  if !s.compatible t then .none
  else if s = any || t = any then some any
  else some s

/-- The type of a comparator on its own: equality is for any values, an order for numbers. -/
def ofComparator (word : String) : Ty :=
  if word = "panas" || word = "nolocrick" then any else number

theorem common?_comm (s t : Ty) : common? s t = common? t s := by
  cases s <;> cases t <;> rfl

end Ty

end Mamuth
