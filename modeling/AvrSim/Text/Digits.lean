/-!
# Written numbers

Numbers are written in lower case with a least number of digits, filled with zeros from the left.
Addresses carry the mark `0x`, which does not count among the digits.
-/

namespace AvrSim.Text

/-- Fills a text with `fill` from the left up to `width` characters. -/
def padLeft (width : Nat) (fill : Char) (text : String) : String :=
  String.ofList (List.replicate (width - text.length) fill) ++ text

/-- The digits of `n` in a base up to 16, lower case, at least `width` of them. -/
def digits (base width n : Nat) : String :=
  padLeft width '0' (String.ofList (Nat.toDigits base n))

/-- Decimal with at least `width` digits. -/
def decimal (width n : Nat) : String := digits 10 width n

/-- Hexadecimal with at least `width` digits. -/
def hex (width n : Nat) : String := digits 16 width n

/-- Hexadecimal with the mark `0x` before at least `width` digits. -/
def hexMarked (width n : Nat) : String := "0x" ++ hex width n

/-- Hexadecimal in upper case, without filling. -/
def hexUpper (n : Nat) : String := (hex 1 n).toUpper

/-- Bytes as pairs of hexadecimal digits. -/
def hexPairs (bytes : List UInt8) : String :=
  String.join (bytes.map fun b => hex 2 b.toNat)

end AvrSim.Text
