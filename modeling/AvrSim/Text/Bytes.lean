/-!
# Byte texts

Assembly sources, HEX files and debugger packets are sequences of bytes, which need not be valid
UTF-8. They are kept as lists of bytes, so that reading them is recursion on the list.

* `Bytes` is the type, `Bytes.ofString` the UTF-8 bytes of a string.
* `Bytes.lower` folds ASCII letters, `Bytes.cut` splits at the first occurrence of a byte and
  `Bytes.fields` at every occurrence.
-/

namespace AvrSim

/-- A text as the bytes it is stored in. -/
abbrev Bytes := List UInt8

namespace Bytes

/-- The UTF-8 bytes of a string. -/
def ofString (s : String) : Bytes := s.toUTF8.toList

/-! ## Classes of bytes -/

/-- An ASCII digit. -/
def isDigit (b : UInt8) : Bool := '0'.toUInt8 ≤ b && b ≤ '9'.toUInt8

/-- An ASCII letter of either case. -/
def isLetter (b : UInt8) : Bool :=
  ('a'.toUInt8 ≤ b && b ≤ 'z'.toUInt8) || ('A'.toUInt8 ≤ b && b ≤ 'Z'.toUInt8)

/-- ASCII lower case; every other byte is left alone. -/
def lowerByte (b : UInt8) : UInt8 :=
  if 'A'.toUInt8 ≤ b && b ≤ 'Z'.toUInt8 then b + 32 else b

/-- ASCII lower case of a text. -/
def lower (text : Bytes) : Bytes := text.map lowerByte

/-! ## Splitting -/

/-- The text before the first `mark` and the text after it, or nothing if `mark` does not occur. -/
def cut (mark : UInt8) (text : Bytes) : Option (Bytes × Bytes) :=
  match text.dropWhile (· != mark) with
  | [] => none
  | _ :: after => some (text.takeWhile (· != mark), after)

/-- The pieces between the occurrences of `mark`; there is always at least one. -/
def fields (mark : UInt8) (text : Bytes) : List Bytes :=
  text.foldr
    (fun b found =>
      if b == mark then [] :: found
      else match found with
        | piece :: pieces => (b :: piece) :: pieces
        | [] => [[b]])
    [[]]

end Bytes

end AvrSim
