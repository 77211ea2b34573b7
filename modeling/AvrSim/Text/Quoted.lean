import AvrSim.Text.Digits
import AvrSim.Text.Printable
import AvrSim.Text.Utf8

/-!
# Quoted text

A quoted text stands between double quotes on one line. Printable characters are shown as they are,
the usual control characters by their one-letter escapes, other control characters and stray bytes
as `\xhh`, and what remains by its code point, `\uhhhh` or `\Uhhhhhhhh`.
-/

namespace AvrSim.Text

/-- The letter that names a control character after a backslash. -/
def escapeLetter? : Char → Option Char
  | '\x07' => some 'a'
  | '\x08' => some 'b'
  | '\x0c' => some 'f'
  | '\n' => some 'n'
  | '\r' => some 'r'
  | '\t' => some 't'
  | '\x0b' => some 'v'
  | _ => none

/-- A character inside a quoted text. -/
def quotedChar (c : Char) : String :=
  if c == '"' then "\\\""
  else if c == '\\' then "\\\\"
  else if isPrintable c then c.toString
  else match escapeLetter? c with
    | some letter => "\\" ++ letter.toString
    | none =>
      if c.toNat < 0x20 || c.toNat == 0x7F then "\\x" ++ hex 2 c.toNat
      else if c.toNat < 0x10000 then "\\u" ++ hex 4 c.toNat
      else "\\U" ++ hex 8 c.toNat

/-- A glyph inside a quoted text. -/
def quotedGlyph : Glyph → String
  | .char c => quotedChar c
  | .stray b => "\\x" ++ hex 2 b.toNat

/-- A text between double quotes. -/
def quoted (text : Bytes) : String :=
  "\"" ++ String.join ((glyphs text).map quotedGlyph) ++ "\""

end AvrSim.Text
