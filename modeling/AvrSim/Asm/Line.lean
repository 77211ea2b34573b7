import AvrSim.Asm.Error

/-!
# Reading a line

A line is cut into words at blanks and commas, up to a comment. A first word followed by a colon is a
label. Bytes that fit nowhere are reported where they stand; if one is inside a word, the word stays
open, and an identifier or directive that holds one reports its first such byte again when it ends.

`readLine` gives the words of a line and the errors found in it; a line with errors has no meaning.
-/

namespace AvrSim.Asm

/-- Where a line stands: its number and its first byte. -/
structure LineStart where
  line : Nat
  byte : Nat
  deriving DecidableEq, Repr

/-- The position of `size` bytes of a line from `start` on. -/
def LineStart.position (origin : LineStart) (start size : Nat) : Position :=
  ⟨origin.line, start + 1, origin.byte + start, size, origin.byte⟩

/-- A byte that can stand in a word. -/
def isWordByte (b : UInt8) : Bool :=
  Bytes.isLetter b || Bytes.isDigit b || b == '_'.toUInt8 || b == '.'.toUInt8 ||
    b == '$'.toUInt8 || b == '+'.toUInt8 || b == '-'.toUInt8

/-- A byte that can stand in a name. -/
def isNameByte (b : UInt8) : Bool := Bytes.isLetter b || Bytes.isDigit b || b == '_'.toUInt8

/-- A blank or a comma. -/
def isSeparator (b : UInt8) : Bool :=
  b == ' '.toUInt8 || b == '\t'.toUInt8 || b == '\r'.toUInt8 || b == ','.toUInt8

/-- What has been read of a line. -/
structure LineReader where
  /-- The number of bytes read, and the last of them. -/
  index : Nat := 0
  previous : UInt8 := 0
  /-- The open word: where it begins, and its bytes with the last one first. -/
  word : Option (Nat × Bytes) := none
  /-- Whether the open word is a character literal. -/
  quoted : Bool := false
  /-- Whether a comment has begun. -/
  comment : Bool := false
  label : Option Token := none
  tokens : Array Token := #[]
  errors : Array Error := #[]

namespace LineReader

/-- Reports an error. -/
def report (r : LineReader) (e : Error) : LineReader := { r with errors := r.errors.push e }

/-- Reports a byte that cannot stand at `index`. -/
def unexpected (r : LineReader) (origin : LineStart) (index : Nat) (b : UInt8) : LineReader :=
  r.report (.unexpectedCharacter (origin.position index 1) b)

/-- The first byte that cannot stand in an identifier or directive, with its index. The dot of a
directive is not looked at. -/
def firstBad? (kind : TokenKind) (start : Nat) (text : Bytes) : Option (Nat × UInt8) :=
  let name := match kind with
    | .identifier => some (start, text)
    | .directive => some (start + 1, text.tail)
    | _ => none
  match name with
  | none => none
  | some (start, bytes) =>
    match bytes.findIdx? (!isNameByte ·) with
    | some i => some (start + i, bytes.getD i 0)
    | none => none

/-- Ends the open word. -/
def close (r : LineReader) (origin : LineStart) : LineReader :=
  match r.word with
  | none => r
  | some (start, reversed) =>
    let text := reversed.reverse
    let kind := TokenKind.ofText text
    let r := match firstBad? kind start text with
      | some (index, b) => r.unexpected origin index b
      | none => r
    { r with
      word := none
      tokens := r.tokens.push ⟨kind, origin.position start text.length, text⟩ }

/-- Adds a byte to the open word, if there is one. -/
def extend (r : LineReader) (b : UInt8) : LineReader :=
  { r with word := r.word.map fun (start, bytes) => (start, b :: bytes) }

/-- Opens a word with its first byte. -/
def start (r : LineReader) (b : UInt8) : LineReader := { r with word := some (r.index, [b]) }

/-- A colon ends a label, which must be the first word and an identifier. -/
def colon (r : LineReader) (origin : LineStart) (b : UInt8) : LineReader :=
  if r.word.isNone || !r.tokens.isEmpty || r.label.isSome then
    (r.unexpected origin r.index b).extend b
  else
    let r := r.close origin
    match r.tokens[0]? with
    | none => r
    | some token =>
      let r := { r with tokens := #[] }
      if token.kind = .identifier then { r with label := some token }
      else r.report (.invalidOperand token.position [.identifier] token.kind)

/-- Reads a byte outside comments and character literals. -/
def plainByte (r : LineReader) (origin : LineStart) (b : UInt8) : LineReader :=
  if b == ';'.toUInt8 then { r.close origin with comment := true }
  else if isSeparator b then r.close origin
  else if b == ':'.toUInt8 then r.colon origin b
  else if b == '\''.toUInt8 then
    if r.word.isSome then (r.unexpected origin r.index b).extend b
    else { r.start b with quoted := true }
  else if isWordByte b then if r.word.isSome then r.extend b else r.start b
  else (r.unexpected origin r.index b).extend b

/-- Reads a byte. A character literal ends at a quote that no backslash precedes. -/
def step (origin : LineStart) (r : LineReader) (b : UInt8) : LineReader :=
  let next :=
    if r.comment then r
    else if r.quoted then
      let r := r.extend b
      if b == '\''.toUInt8 && r.previous != '\\'.toUInt8 then { r.close origin with quoted := false }
      else r
    else r.plainByte origin b
  { next with index := r.index + 1, previous := b }

/-- Ends the line. A character literal that is still open is invalid. -/
def finish (r : LineReader) (origin : LineStart) : LineReader :=
  if r.quoted then
    match r.word with
    | some (start, bytes) =>
      { r.report (.invalidLiteral (origin.position start bytes.length)) with
        word := none, quoted := false }
    | none => r
  else r.close origin

end LineReader

/-- The meaning of a line: the label it defines and its words. -/
structure LineWords where
  label : Option Token
  tokens : List Token
  deriving DecidableEq, Repr

/-- Reads a line. -/
def readLine (origin : LineStart) (line : Bytes) : Except (List Error) LineWords :=
  let r := (line.foldl (LineReader.step origin) {}).finish origin
  if r.errors.isEmpty then .ok ⟨r.label, r.tokens.toList⟩ else .error r.errors.toList

end AvrSim.Asm
