import AvrSim.Text.Bytes

/-!
# Reading bytes as UTF-8

A byte text is read as a list of glyphs: well-formed UTF-8 characters, and bytes that belong to none.
Overlong forms, surrogates and code points past U+10FFFF are not well formed; each byte of such a
form stands alone.

* `glyphs` reads a text; it never fails and consumes every byte.
* `Bytes.toText` shows a text as a string, with U+FFFD for each byte that belongs to no character.
-/

namespace AvrSim

namespace Text

/-- A character of a text, or a byte that is not part of one. -/
inductive Glyph
  | char (c : Char)
  | stray (b : UInt8)
  deriving DecidableEq, Repr

namespace Glyph

/-- A byte that continues a character. -/
def isTail (b : UInt8) : Bool := 0x80 ≤ b && b ≤ 0xBF

/-- The six payload bits of a continuation byte. -/
def tailBits (b : UInt8) : Nat := b.toNat % 64

/-- The second byte of a three byte character must lie in a narrower range after 0xE0, where the form
would be overlong, and after 0xED, where it would be a surrogate. -/
def isSecondOfThree (a b : UInt8) : Bool :=
  isTail b && !(a == 0xE0 && b < 0xA0) && !(a == 0xED && 0x9F < b)

/-- Likewise for four bytes, after 0xF0 and, past the last code point, after 0xF4. -/
def isSecondOfFour (a b : UInt8) : Bool :=
  isTail b && !(a == 0xF0 && b < 0x90) && !(a == 0xF4 && 0x8F < b)

/-- The glyph at the start of the text `a :: rest`, and how many bytes of `rest` belong to it. -/
def first (a : UInt8) (rest : Bytes) : Glyph × Nat :=
  if a < 0x80 then (.char (Char.ofNat a.toNat), 0)
  else if 0xC2 ≤ a && a ≤ 0xDF then
    match rest with
    | b :: _ =>
      if isTail b then (.char (Char.ofNat (a.toNat % 32 * 64 + tailBits b)), 1) else (.stray a, 0)
    | _ => (.stray a, 0)
  else if 0xE0 ≤ a && a ≤ 0xEF then
    match rest with
    | b :: c :: _ =>
      if isSecondOfThree a b && isTail c then
        (.char (Char.ofNat ((a.toNat % 16 * 64 + tailBits b) * 64 + tailBits c)), 2)
      else (.stray a, 0)
    | _ => (.stray a, 0)
  else if 0xF0 ≤ a && a ≤ 0xF4 then
    match rest with
    | b :: c :: d :: _ =>
      if isSecondOfFour a b && isTail c && isTail d then
        (.char (Char.ofNat
          (((a.toNat % 8 * 64 + tailBits b) * 64 + tailBits c) * 64 + tailBits d)), 3)
      else (.stray a, 0)
    | _ => (.stray a, 0)
  else (.stray a, 0)

/-- The character shown for a glyph. -/
def shown : Glyph → Char
  | .char c => c
  | .stray _ => '�'

end Glyph

/-- Reads a text whose first `skip` bytes belong to the glyph before it; `found` holds the glyphs read
so far, the latest first. -/
def glyphsAfter : Nat → Bytes → List Glyph → List Glyph
  | _, [], found => found.reverse
  | skip + 1, _ :: rest, found => glyphsAfter skip rest found
  | 0, a :: rest, found =>
    let (glyph, more) := Glyph.first a rest
    glyphsAfter more rest (glyph :: found)

/-- The glyphs of a text, in order. -/
def glyphs (text : Bytes) : List Glyph := glyphsAfter 0 text []

end Text

/-- A text as a string, with U+FFFD for each byte that belongs to no character. -/
def Bytes.toText (text : Bytes) : String :=
  String.ofList ((Text.glyphs text).map Text.Glyph.shown)

end AvrSim
