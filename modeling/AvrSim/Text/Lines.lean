import AvrSim.Text.Bytes

/-!
# Lines of a text

Lines end at a line feed; a carriage return just before it, or at the very end of the text, is not
part of the line. A final piece without line feed is a line unless it is empty. Reading stops at a
line of `lineLimit` bytes or more, its carriage return counted: such a line and all that follows it
are not delivered.
-/

namespace AvrSim.Text

/-- A line must be shorter than this many bytes. -/
def lineLimit : Nat := 65536

/-- The lines read from a text, and whether reading stopped at a line that is too long. -/
structure Lines where
  lines : List Bytes
  tooLong : Bool
  deriving DecidableEq, Repr

/-- A line without the carriage return that may end it. -/
def dropReturn (line : Bytes) : Bytes :=
  if line.getLast? == some '\r'.toUInt8 then line.dropLast else line

/-- The pieces between line feeds; a last piece that is empty is no line. -/
def pieces (text : Bytes) : List Bytes :=
  let all := Bytes.fields '\n'.toUInt8 text
  if all.getLast? == some [] then all.dropLast else all

/-- Short enough to be delivered. -/
def isShort (piece : Bytes) : Bool := piece.length < lineLimit

/-- Reads a text line by line. -/
def lines (text : Bytes) : Lines :=
  let all := pieces text
  ⟨(all.takeWhile isShort).map dropReturn, !all.all isShort⟩

end AvrSim.Text
