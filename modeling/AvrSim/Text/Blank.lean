import AvrSim.Text.Bytes

/-!
# Blanks around a line

The blanks are the characters that Unicode gives the property White_Space: the ASCII blanks, the next
line and no-break spaces, and the spaces and separators of the general punctuation block. They are
listed by their UTF-8 bytes, so trimming works on byte texts. No blank begins or ends inside another
character, since a first byte is never a continuation byte.
-/

namespace AvrSim.Text

/-- The UTF-8 bytes of every blank. -/
def blanks : List Bytes :=
  [[0x09], [0x0A], [0x0B], [0x0C], [0x0D], [0x20],
   [0xC2, 0x85], [0xC2, 0xA0], [0xE1, 0x9A, 0x80],
   [0xE2, 0x80, 0x80], [0xE2, 0x80, 0x81], [0xE2, 0x80, 0x82], [0xE2, 0x80, 0x83],
   [0xE2, 0x80, 0x84], [0xE2, 0x80, 0x85], [0xE2, 0x80, 0x86], [0xE2, 0x80, 0x87],
   [0xE2, 0x80, 0x88], [0xE2, 0x80, 0x89], [0xE2, 0x80, 0x8A],
   [0xE2, 0x80, 0xA8], [0xE2, 0x80, 0xA9], [0xE2, 0x80, 0xAF],
   [0xE2, 0x81, 0x9F], [0xE3, 0x80, 0x80]]

/-- Drops from the front of a text as many of the given words as stand there one after another; `fuel`
bounds their number. -/
def dropWords (words : List Bytes) : Nat → Bytes → Bytes
  | 0, text => text
  | fuel + 1, text =>
    match words.find? (·.isPrefixOf text) with
    | some word => dropWords words fuel (text.drop word.length)
    | none => text

/-- The text without blanks at its front. -/
def trimFront (text : Bytes) : Bytes := dropWords blanks text.length text

/-- The text without blanks at its end. -/
def trimEnd (text : Bytes) : Bytes :=
  (dropWords (blanks.map List.reverse) text.length text.reverse).reverse

/-- The text without blanks at either end. -/
def trim (text : Bytes) : Bytes := trimEnd (trimFront text)

end AvrSim.Text
