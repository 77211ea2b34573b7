import AvrSim.Numeral

/-!
# Bytes written as hexadecimal pairs

HEX records and debugger packets write each byte as two hexadecimal digits of either case.

* `Hex.decode` reads pairs; the first byte that is no digit is reported, even if the number of digits
  is odd as well.
* `Hex.encodeUpper` and `Hex.encodeLower` write them.
-/

namespace AvrSim.Hex

/-- Why a text is not a sequence of hexadecimal pairs. -/
inductive DigitFault
  | notADigit (b : UInt8)
  | oddLength
  deriving DecidableEq, Repr

/-- The code point of a byte, with the character if it can be shown. -/
def codePoint (b : UInt8) : String :=
  let c := Char.ofNat b.toNat
  "U+" ++ (Text.hex 4 b.toNat).toUpper ++
    (if Text.isPrintable c then " '" ++ c.toString ++ "'" else "")

/-- The wording of a fault. -/
def DigitFault.message : DigitFault → String
  | .notADigit b => "encoding/hex: invalid byte: " ++ codePoint b
  | .oddLength => "encoding/hex: odd length hex string"

/-- The value of a hexadecimal digit of either case. -/
def digit? (b : UInt8) : Option Nat := (Numeral.digit? b).filter (· < 16)

/-- Whether a byte is a hexadecimal digit. -/
def isDigit (b : UInt8) : Bool := (digit? b).isSome

/-- The value of a digit, 0 for any other byte. -/
def digitValue (b : UInt8) : Nat := (digit? b).getD 0

/-- The bytes that pairs of digits stand for. -/
def pairs : Bytes → List UInt8
  | a :: b :: rest => UInt8.ofNat (digitValue a * 16 + digitValue b) :: pairs rest
  | _ => []

/-- Reads a sequence of hexadecimal pairs. -/
def decode (text : Bytes) : Except DigitFault (List UInt8) :=
  match text.find? (!isDigit ·) with
  | some b => .error (.notADigit b)
  | none => if text.length % 2 = 1 then .error .oddLength else .ok (pairs text)

/-- The upper case digit of a value below 16. -/
def upperDigit (n : Nat) : UInt8 := UInt8.ofNat (if n < 10 then 48 + n else 55 + n)

/-- The lower case digit of a value below 16. -/
def lowerDigit (n : Nat) : UInt8 := UInt8.ofNat (if n < 10 then 48 + n else 87 + n)

/-- Bytes as pairs of upper case digits. -/
def encodeUpper (bytes : List UInt8) : Bytes :=
  bytes.flatMap fun b => [upperDigit (b.toNat / 16), upperDigit (b.toNat % 16)]

/-- Bytes as pairs of lower case digits. -/
def encodeLower (bytes : List UInt8) : Bytes :=
  bytes.flatMap fun b => [lowerDigit (b.toNat / 16), lowerDigit (b.toNat % 16)]

end AvrSim.Hex
