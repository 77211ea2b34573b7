import AvrSim.Isa.Instr
import AvrSim.Numeral

/-!
# Tokens

The words of an assembly line. A word is sorted by its first bytes: directives begin with a dot,
characters with a quote, numbers with a digit or `$`; what reads as a pointer operand is a pointer, and
everything else an identifier.

* `TokenKind.ofText` sorts a word.
* `literal?`, `character?`, `register?` and `PointerOperand.parse?` read its value.
-/

namespace AvrSim.Asm

/-- Where something stands: line and column count from 1, bytes from 0. `lineByte` is where the line
begins and `size` the number of bytes meant. -/
structure Position where
  line : Nat
  column : Nat
  byte : Nat
  size : Nat
  lineByte : Nat
  deriving DecidableEq, Repr

/-- The kinds of words. -/
inductive TokenKind
  | identifier
  | directive
  | literal
  | character
  | pointer
  deriving DecidableEq, Repr

namespace TokenKind

/-- The kind of a code; code 0 and codes past the last are no kind. -/
def ofCode? : Nat → Option TokenKind
  | 1 => some identifier
  | 2 => some directive
  | 3 => some literal
  | 4 => some character
  | 5 => some pointer
  | _ => none

/-- The name of a kind in messages. -/
def name : TokenKind → String
  | identifier => "Identifier"
  | directive => "Directive"
  | literal => "Literal"
  | character => "Character"
  | pointer => "Pointer"

/-- The name of a code. -/
def nameOfCode (code : Nat) : String := ((ofCode? code).map name).getD "<invalid>"

end TokenKind

/-! ## Pointer operands -/

/-- How an operand uses a pointer register. -/
inductive PointerMode
  | plain
  | postIncrement
  | preDecrement
  | displaced (q : Int)
  deriving DecidableEq, Repr

/-- A pointer register and how it is used. -/
structure PointerOperand where
  pointer : Pointer
  mode : PointerMode
  deriving DecidableEq, Repr

/-- The pointer register of a lower case letter. -/
def pointer? (b : UInt8) : Option Pointer :=
  if b == 'x'.toUInt8 then some .x
  else if b == 'y'.toUInt8 then some .y
  else if b == 'z'.toUInt8 then some .z
  else none

/-- The use announced by what follows the pointer's letter. Only `Y` and `Z` take a displacement. -/
def PointerMode.ofSuffix? (pointer : Pointer) : Bytes → Option PointerMode
  | [] => some .plain
  | [0x2B] => some .postIncrement
  | 0x2B :: number =>
    if pointer = .x then none
    else match Numeral.number number with
      | .ok q => some (.displaced q)
      | .error _ => none
  | _ => none

/-- Reads `X`, `X+`, `-X` or `Y+q` in either case. -/
def PointerOperand.parse? (text : Bytes) : Option PointerOperand :=
  match Bytes.lower text with
  | [0x2D, letter] => (pointer? letter).map (⟨·, .preDecrement⟩)
  | letter :: suffix =>
    match pointer? letter with
    | none => none
    | some pointer => (PointerMode.ofSuffix? pointer suffix).map (⟨pointer, ·⟩)
  | [] => none

/-! ## Kinds of words -/

/-- Sorts a word. -/
def TokenKind.ofText : Bytes → TokenKind
  | [] => .identifier
  | text@(first :: rest) =>
    if first == '.'.toUInt8 then .directive
    else if first == '\''.toUInt8 then .character
    else if Bytes.isDigit first || first == '$'.toUInt8 then .literal
    else if first == '-'.toUInt8 && rest.head?.any Bytes.isDigit then .literal
    else if (PointerOperand.parse? text).isSome then .pointer
    else .identifier

/-- A word and where it stands. -/
structure Token where
  kind : TokenKind
  position : Position
  text : Bytes
  deriving DecidableEq, Repr

/-! ## Values of words -/

/-- The value of a number of hexadecimal digits. -/
def hexDigits? (digits : Bytes) : Option Nat :=
  (Numeral.accumulate 16 (1 <<< (4 * digits.length)) false digits 0).toOption

/-- The byte of a character escape, given what stands between the backslash and the closing quote.
Code points past 0x7F take more than one byte. -/
def escapedByte? : Bytes → Option UInt8
  | [0x61] => some 0x07
  | [0x62] => some 0x08
  | [0x66] => some 0x0C
  | [0x6E] => some 0x0A
  | [0x72] => some 0x0D
  | [0x74] => some 0x09
  | [0x76] => some 0x0B
  | [0x5C] => some 0x5C
  | [0x27] => some 0x27
  | 0x78 :: digits => if digits.length = 2 then (hexDigits? digits).map UInt8.ofNat else none
  | 0x75 :: digits =>
    if digits.length = 4 then ((hexDigits? digits).filter (· < 0x80)).map UInt8.ofNat else none
  | 0x55 :: digits =>
    if digits.length = 8 then ((hexDigits? digits).filter (· < 0x80)).map UInt8.ofNat else none
  | digits =>
    if digits.length = 3 then (Numeral.accumulate 8 255 false digits 0).toOption.map UInt8.ofNat
    else none

/-- The byte of a character literal such as `'a'` or `'\n'`. -/
def character? : Bytes → Option UInt8
  | 0x27 :: 0x5C :: rest =>
    if 2 ≤ rest.length && rest.getLast? == some 0x27 then escapedByte? rest.dropLast else none
  | [0x27, b, 0x27] => if b < 0x80 && b != 0x27 then some b else none
  | _ => none

/-- A number without its leading minus sign: binary after `0b`, else any spelling of a number. -/
def magnitude? : Bytes → Option Int
  | 0x30 :: mark :: d :: digits =>
    if Bytes.lowerByte mark == 'b'.toUInt8 then
      (Numeral.signed (.fixed 2) 32 (d :: digits)).toOption
    else (Numeral.number (0x30 :: mark :: d :: digits)).toOption
  | text => (Numeral.number text).toOption

/-- The value of a number with an optional leading minus sign. -/
def number? : Bytes → Option Int
  | 0x2D :: text => (magnitude? text).map (- ·)
  | text => magnitude? text

/-- The value of a number or a character. -/
def Token.literal? (token : Token) : Option Int :=
  if token.kind = .character then (character? token.text).map fun b => (b.toNat : Int)
  else number? token.text

/-- The number of a register, `r0` to `r31`. -/
def Token.register? (token : Token) : Option (Fin 32) :=
  match token.kind, token.text with
  | .identifier, letter :: d :: digits =>
    if Bytes.lowerByte letter == 'r'.toUInt8 then
      match Numeral.unsigned (.fixed 10) 8 (d :: digits) with
      | .ok n => if h : n < 32 then some ⟨n, h⟩ else none
      | .error _ => none
    else none
  | _, _ => none

end AvrSim.Asm
