import AvrSim.Asm.Token

/-!
# Errors of a source

What can be wrong with a source, where, and how it is worded. Every error but the last says where it is.
-/

namespace AvrSim.Asm

/-- What is wrong with a source. -/
inductive Error
  | invalidOperand (position : Position) (required : List TokenKind) (received : TokenKind)
  | operandCount (position : Position) (required received : Nat)
  | outOfRange (position : Position) (low high value : Int)
  | invalidLiteral (position : Position)
  /-- A register outside the allowed ones, which are even if `even`. -/
  | invalidRegister (position : Position) (low high : Nat) (even : Bool)
  | unexpectedCharacter (position : Position) (b : UInt8)
  | redeclared (position : Position) (name : Bytes)
  | unknownSymbol (position : Position) (name : Bytes)
  | unknownStatement (position : Position) (name : Bytes)
  | overlap (position : Position) (address : UInt32)
  | unaligned (position : Position) (address : UInt32)
  | emptyProgram
  deriving DecidableEq, Repr

namespace Error

/-- Where the error is. -/
def position? : Error → Option Position
  | invalidOperand p _ _ | operandCount p _ _ | outOfRange p _ _ _ | invalidLiteral p
  | invalidRegister p _ _ _ | unexpectedCharacter p _ | redeclared p _ | unknownSymbol p _
  | unknownStatement p _ | overlap p _ | unaligned p _ => some p
  | emptyProgram => none

/-- What the error says after its position. -/
def text : Error → String
  | invalidOperand _ required received =>
    "Invalid operand\n\twant:" ++ " or ".intercalate (required.map TokenKind.name) ++
      "\n\thave:" ++ received.name
  | operandCount _ required received =>
    "Invalid number of operands\n\twant:" ++ toString required ++ "\n\thave:" ++ toString received
  | outOfRange _ low high value =>
    "Value out of range\n\twant:" ++ toString low ++ ".." ++ toString high ++ "\n\thave:" ++
      toString value
  | invalidLiteral _ => "Invalid numeric literal"
  | invalidRegister _ low high even =>
    "Invalid register\n\twant:r" ++ toString low ++ "-r" ++ toString high ++
      (if even then " (even)" else "")
  | unexpectedCharacter _ b => "Unexpected character '" ++ (Char.ofNat b.toNat).toString ++ "'"
  | redeclared _ name => "Redeclaration of symbol '" ++ name.toText ++ "'"
  | unknownSymbol _ name => "Unknown symbol '" ++ name.toText ++ "'"
  | unknownStatement _ name => "Unknown instruction or directive '" ++ name.toText ++ "'"
  | overlap _ address => "Code overlaps address " ++ Text.hexMarked 5 address.toNat
  | unaligned _ address => "Origin " ++ Text.hexMarked 1 address.toNat ++ " is not word aligned"
  | emptyProgram => "Program contains no code"

/-- The whole message. -/
def message (e : Error) : String :=
  match e.position? with
  | some p => Text.decimal 2 p.line ++ ":" ++ Text.decimal 2 p.column ++ ": " ++ e.text
  | none => e.text

end Error

end AvrSim.Asm
