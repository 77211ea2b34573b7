import AvrSim.Text.Quoted

/-!
# Numerals

Reading numbers from byte texts. A numeral is refused at its first digit that does not belong to the
base, or at the first digit with which the value no longer fits, whichever comes first; misplaced
underscores are noticed only after all digits were read.

* `Numeral.unsigned` and `Numeral.signed` read a numeral of a given width in bits.
* `Numeral.hex`, `Numeral.integer` and `Numeral.number` read the spellings of the assembler:
  `0x1F`, `$1F` and `x1F` are hexadecimal, `#31` and `31` decimal.
-/

namespace AvrSim.Numeral

/-- What is wrong with a numeral. -/
inductive Fault
  | malformed
  | outOfRange
  deriving DecidableEq, Repr

/-- How the base of a numeral is known. Only a numeral that names its own base may hold
underscores. -/
inductive Base
  | fixed (base : Nat)
  | marked
  deriving DecidableEq, Repr

/-! ## Digits -/

/-- The value of a digit in bases up to 36. -/
def digit? (b : UInt8) : Option Nat :=
  if Bytes.isDigit b then some (b.toNat - 48)
  else if Bytes.isLetter b then some ((Bytes.lowerByte b).toNat - 87)
  else none

/-- Reads digits after a part worth `value`. -/
def accumulate (base limit : Nat) (underscores : Bool) : Bytes → Nat → Except Fault Nat
  | [], value => .ok value
  | b :: rest, value =>
    if underscores && b == '_'.toUInt8 then accumulate base limit underscores rest value
    else match digit? b with
      | none => .error .malformed
      | some d =>
        if base ≤ d then .error .malformed
        else if limit < value * base + d then .error .outOfRange
        else accumulate base limit underscores rest (value * base + d)

/-- The base that a mark such as `0x` announces, and the digits after the mark. A mark needs a digit
after it; a zero with anything else after it announces octal. -/
def splitMark : Bytes → Nat × Bytes
  | 0x30 :: mark :: d :: rest =>
    if Bytes.lowerByte mark == 'b'.toUInt8 then (2, d :: rest)
    else if Bytes.lowerByte mark == 'o'.toUInt8 then (8, d :: rest)
    else if Bytes.lowerByte mark == 'x'.toUInt8 then (16, d :: rest)
    else (8, mark :: d :: rest)
  | 0x30 :: rest => (8, rest)
  | text => (10, text)

/-- What stood before a byte, as far as underscores care. -/
inductive Before
  | digit
  | underscore
  | other
  deriving DecidableEq, Repr

/-- Each underscore stands between digits; a mark counts as a digit. -/
def underscoresFit (hexDigits : Bool) : Bytes → Before → Bool
  | [], before => before != .underscore
  | b :: rest, before =>
    if Bytes.isDigit b || (hexDigits && (digit? b).any (· < 16)) then
      underscoresFit hexDigits rest .digit
    else if b == '_'.toUInt8 then before == .digit && underscoresFit hexDigits rest .underscore
    else before != .underscore && underscoresFit hexDigits rest .other

/-- `underscoresFit` for a whole numeral with its mark, if it has one. -/
def underscoresPlaced : Bytes → Bool
  | 0x30 :: mark :: rest =>
    let m := Bytes.lowerByte mark
    if m == 'b'.toUInt8 || m == 'o'.toUInt8 || m == 'x'.toUInt8 then
      underscoresFit (m == 'x'.toUInt8) rest .digit
    else underscoresFit false (0x30 :: mark :: rest) .other
  | text => underscoresFit false text .other

/-! ## Unsigned and signed numerals -/

/-- An unsigned numeral of at most `bits` bits. -/
def unsigned (base : Base) (bits : Nat) (text : Bytes) : Except Fault Nat :=
  if text.isEmpty then .error .malformed
  else match base with
    | .fixed base => accumulate base (1 <<< bits - 1) false text 0
    | .marked => do
      let (base, digits) := splitMark text
      let value ← accumulate base (1 <<< bits - 1) true digits 0
      if text.contains '_'.toUInt8 && !underscoresPlaced text then .error .malformed
      else .ok value

/-- The sign of a numeral, true if it is negative, and what follows it. -/
def splitSign : Bytes → Bool × Bytes
  | 0x2B :: rest => (false, rest)
  | 0x2D :: rest => (true, rest)
  | text => (false, text)

/-- A signed numeral of at most `bits` bits, in two's complement range. -/
def signed (base : Base) (bits : Nat) (text : Bytes) : Except Fault Int := do
  let (negative, magnitude) := splitSign text
  let value ← unsigned base bits magnitude
  if negative then
    if 1 <<< (bits - 1) < value then .error .outOfRange else .ok (-value)
  else if 1 <<< (bits - 1) ≤ value then .error .outOfRange
  else .ok value

/-! ## Refusals and their wording -/

/-- What a text was read as. -/
inductive Kind
  | unsigned
  | signed
  | truth
  deriving DecidableEq, Repr

/-- A text that could not be read, and why. -/
structure Refusal where
  kind : Kind
  text : Bytes
  fault : Fault
  deriving DecidableEq, Repr

/-- The reader's name as messages give it. -/
def Kind.reader : Kind → String
  | .unsigned => "ParseUint"
  | .signed => "ParseInt"
  | .truth => "ParseBool"

/-- The wording of a fault. -/
def Fault.message : Fault → String
  | .malformed => "invalid syntax"
  | .outOfRange => "value out of range"

/-- The message of a refusal, with the text it is about. -/
def Refusal.message (r : Refusal) : String :=
  "strconv." ++ r.kind.reader ++ ": parsing " ++ Text.quoted r.text ++ ": " ++ r.fault.message

/-- Names the text in the fault of an unsigned numeral. -/
def readUnsigned (base : Base) (bits : Nat) (text : Bytes) : Except Refusal Nat :=
  (unsigned base bits text).mapError (⟨.unsigned, text, ·⟩)

/-- Names the text in the fault of a signed numeral. -/
def readSigned (base : Base) (bits : Nat) (text : Bytes) : Except Refusal Int :=
  (signed base bits text).mapError (⟨.signed, text, ·⟩)

/-! ## Spellings -/

/-- Why a spelling was refused: it has no hexadecimal form at all, or its numeral is refused. -/
inductive SpellingError
  | notHex
  | refused (refusal : Refusal)
  deriving DecidableEq, Repr

/-- The wording of a refused spelling. -/
def SpellingError.message : SpellingError → String
  | .notHex => "Invalid hex string"
  | .refused refusal => refusal.message

/-- The letter of the mark `0x`, in either case. -/
def isHexLetter (b : UInt8) : Bool := b == 'x'.toUInt8 || b == 'X'.toUInt8

/-- A hexadecimal spelling with the mark `0x` written out: `$` stands for the mark, and its zero may be
left out. -/
def withHexMark : Bytes → Option Bytes
  | 0x24 :: rest => some (0x30 :: 'x'.toUInt8 :: rest)
  | text =>
    match text.findIdx? isHexLetter with
    | some 0 => some (0x30 :: text)
    | some 1 => if text.head? == some 0x30 then some text else none
    | _ => none

/-- A hexadecimal spelling: `0x1F`, `x1F` or `$1F`. -/
def hex (text : Bytes) : Except SpellingError UInt32 :=
  match withHexMark text with
  | none => .error .notHex
  | some numeral =>
    match readUnsigned .marked 32 numeral with
    | .ok value => .ok (UInt32.ofNat value)
    | .error refusal => .error (.refused refusal)

/-- A decimal spelling, `#31` or `31`, with an optional sign. -/
def integer (text : Bytes) : Except SpellingError Int :=
  let numeral := if text.head? == some '#'.toUInt8 then text.tail else text
  (readSigned (.fixed 10) 32 numeral).mapError .refused

/-- A hexadecimal spelling if a mark occurs anywhere in it, else a decimal one. -/
def number (text : Bytes) : Except SpellingError Int :=
  if text.any fun b => isHexLetter b || b == '$'.toUInt8 then
    (hex text).map fun value => (value.toNat : Int)
  else integer text

/-- The spellings of truth values. -/
def truth (text : Bytes) : Except Refusal Bool :=
  if ["1", "t", "T", "TRUE", "true", "True"].any (Bytes.ofString · == text) then .ok true
  else if ["0", "f", "F", "FALSE", "false", "False"].any (Bytes.ofString · == text) then .ok false
  else .error ⟨.truth, text, .malformed⟩

end AvrSim.Numeral
