-- Lexemes: the pieces into which a source text falls. At each place the forms are
-- tried in one fixed order, and the first that fits takes as many characters as it can.
-- Every character is in some form, so the pieces together are the source.
import Mamuth.Position

namespace Mamuth

namespace Lexeme

/-- The forms a lexeme can have, in the order in which they are tried. -/
inductive Form where
  /-- Digits or semicolons with letters right after them: neither a number nor a name. -/
  | malformed
  /-- From its mark to the end of the line. -/
  | comment
  /-- From one text mark to the last one on the same line. -/
  | text
  | punctuation
  | float
  | integer
  /-- A name or a reserved word. -/
  | word
  | newline
  | blank
  /-- A single character that starts nothing else. -/
  | stray
  deriving DecidableEq, Repr

/-! ## Characters -/

/-- The characters of a number: the ASCII digits and the mark of its fraction. -/
def isFigure (c : Char) : Bool := c.isDigit || c = ';'

/-- The characters that a word may start with: the ASCII letters and the underscore. -/
def isLetter (c : Char) : Bool := c.isAlpha || c = '_'

/-- The characters that a word may go on with. -/
def isWordChar (c : Char) : Bool := isLetter c || c.isDigit

/-- The characters between the words of a line. -/
def isBlank (c : Char) : Bool := c = ' ' || c = '\t' || c = '\r'

/-- What a comment starts with. -/
def commentMark : List Char := "muchoTexto:".toList

/-- What a text starts and ends with. -/
def textMark : Char := 'ツ'

/-- The fixed marks; no one of them starts another. -/
def punctuationMarks : List (List Char) :=
  ["xD", "v:", "(", ")", ".", ",", "#"].map String.toList

/-! ## The longest lexeme of a form -/

/-- The characters before the first newline. -/
def line (s : List Char) : List Char := s.takeWhile (· ≠ '\n')

/-- The longest run at the front whose characters all pass the test; an empty run is none. -/
def run? (test : Char → Bool) (s : List Char) : Option (List Char) :=
  match s.takeWhile test with
  | [] => none
  | c :: cs => some (c :: cs)

/-- Everything up to and with the last occurrence of the mark. -/
def throughLast? (mark : Char) : List Char → Option (List Char)
  | [] => none
  | c :: cs =>
    match throughLast? mark cs with
    | some w => some (c :: w)
    | none => if c = mark then some [c] else none

/-- A minus sign, if there is one. -/
def sign (s : List Char) : List Char := s.take 1 |>.filter (· = '-')

/-- Digits, with a sign before them or not. -/
def integer? (s : List Char) : Option (List Char) := do
  let digits ← run? Char.isDigit (s.drop (sign s).length)
  return sign s ++ digits

/-- An integer, the mark of the fraction, and digits. -/
def float? (s : List Char) : Option (List Char) := do
  let whole ← integer? s
  match s.drop whole.length with
  | ';' :: rest => return whole ++ ';' :: (← run? Char.isDigit rest)
  | _ => none

/-- The longest beginning of the text that has the form. -/
def Form.longest? : Form → List Char → Option (List Char)
  | malformed, s => do
    let figures ← run? isFigure s
    return figures ++ (← run? isLetter (s.drop figures.length))
  | comment, s => if commentMark.isPrefixOf s then some (line s) else none
  | text, s =>
    match s with
    | c :: cs => if c = textMark then (throughLast? textMark (line cs)).map (c :: ·) else none
    | [] => none
  | punctuation, s => punctuationMarks.find? (·.isPrefixOf s)
  | float, s => float? s
  | integer, s => integer? s
  | word, s =>
    match s with
    | c :: cs => if isLetter c then some (c :: cs.takeWhile isWordChar) else none
    | [] => none
  | newline, s => if s.head? = some '\n' then some ['\n'] else none
  | blank, s => run? isBlank s
  | stray, s => if s.head? = some '\n' then none else s.head?.map ([·])

/-- The forms, first tried first. -/
def Form.inOrder : List Form :=
  [malformed, comment, text, punctuation, float, integer, word, newline, blank, stray]

end Lexeme

/-- A piece of a source text. -/
structure Lexeme where
  form : Lexeme.Form
  chars : List Char
  deriving DecidableEq, Repr

namespace Lexeme

/-- The lexeme at the front of a text. -/
def first? (s : List Char) : Option Lexeme :=
  Form.inOrder.findSome? fun form => (form.longest? s).map (Lexeme.mk form)

/-- The lexemes of a text whose first `k` characters belong to an earlier one. -/
def segmentAfter : (k : Nat) → List Char → List Lexeme
  | _, [] => []
  | k + 1, _ :: cs => segmentAfter k cs
  | 0, c :: cs =>
    match first? (c :: cs) with
    | some lexeme => lexeme :: segmentAfter (lexeme.chars.length - 1) cs
    | none => []

/-- The lexemes of a text, from its start to its end. -/
def segment (s : List Char) : List Lexeme := segmentAfter 0 s

/-! ## Nothing is skipped -/

theorem segmentAfter_eq (k : Nat) (s : List Char) : segmentAfter k s = segment (s.drop k) := by
  induction s generalizing k with
  | nil => cases k <;> rfl
  | cons c cs ih =>
    cases k with
    | zero => rfl
    | succ k => simpa [segmentAfter] using ih k

theorem segment_nil : segment [] = [] := rfl

/-- A character is a newline or, failing all else, a stray: no text is without a lexeme. -/
theorem first?_cons_ne_none (c : Char) (cs : List Char) : first? (c :: cs) ≠ none := by
  intro h
  rw [first?, List.findSome?_eq_none_iff] at h
  have atNewline := h .newline (by simp [Form.inOrder])
  have atStray := h .stray (by simp [Form.inOrder])
  simp [Form.longest?] at atNewline atStray
  exact atNewline atStray

end Lexeme

end Mamuth
