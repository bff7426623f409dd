-- Texts of a least width: blanks after a text fill its field, and a text that is
-- wider than its field is kept whole.

namespace Mamuth.Text

/-- A run of `n` blanks. -/
def blanks (n : Nat) : String := String.ofList (List.replicate n ' ')

/-- The text at the left of a field of `width` characters. -/
def field (width : Nat) (text : String) : String := text ++ blanks (width - text.length)

theorem length_blanks (n : Nat) : (blanks n).length = n := by simp [blanks]

/-- A field is as wide as asked, or as wide as its text where that is wider. -/
theorem length_field (width : Nat) (text : String) :
    (field width text).length = max width text.length := by
  simp [field, length_blanks]; omega

end Mamuth.Text
