/-
# Formula.Text.Blank — the white space of Unicode

The characters with the property White_Space: tab to carriage return, space,
next line, the no-break and typographic spaces, and the line and paragraph
separators. The zero-width characters are not among them.
-/
import Formula.Text.CodePoints

namespace Formula.Text

set_option autoImplicit false

/-- The ranges of the property White_Space. -/
def blanks : CodePoints :=
  [(0x9, 0xD), (0x20, 0x20), (0x85, 0x85), (0xA0, 0xA0), (0x1680, 0x1680), (0x2000, 0x200A),
   (0x2028, 0x2029), (0x202F, 0x202F), (0x205F, 0x205F), (0x3000, 0x3000)]

/-- Whether a character is white space. -/
def isBlank (c : Char) : Bool := blanks.has c

end Formula.Text
