import AvrSim.Asm.Line
import AvrSim.Asm.Operand
import AvrSim.Text.Lines

/-!
# Laying out a source

The first pass over a source reads it line by line, gives every statement its address and collects the
names it defines. Sizes are known from the mnemonics, so no operand of an instruction is looked at;
those of `.org` and `.equ` are, with the names defined so far.

* `Layout.line` is the effect of one line.
* `Layout.ofSource` lays out a whole source.
-/

namespace AvrSim.Asm

/-- What a statement puts into memory: an instruction, or its operands as words. -/
inductive Action
  | instruction (mnemonic : Mnemonic)
  | words
  deriving DecidableEq, Repr

/-- A statement that puts something into memory, with its address. -/
structure Statement where
  keyword : Token
  operands : List Token
  address : UInt32
  action : Action
  deriving DecidableEq, Repr

/-- The number of bytes of a statement. -/
def Statement.size (s : Statement) : Nat :=
  match s.action with
  | .instruction m => m.size
  | .words => 2 * s.operands.length

/-- What the lines read so far have defined. Labels are symbols too. -/
structure Layout where
  symbols : Symbols := ∅
  labels : Std.HashMap Bytes UInt32 := ∅
  statements : Array Statement := #[]
  errors : Array Error := #[]
  address : UInt32 := 0

/-- The directives. -/
inductive Directive
  | org
  | word
  | equ
  deriving DecidableEq, Repr

/-- The directive of a name in any case. -/
def Directive.ofName? (name : Bytes) : Option Directive :=
  let lower := Bytes.lower name
  if lower == Bytes.ofString ".org" then some .org
  else if lower == Bytes.ofString ".word" then some .word
  else if lower == Bytes.ofString ".equ" then some .equ
  else none

namespace Layout

/-- Reports errors. -/
def report (l : Layout) (errors : List Error) : Layout :=
  { l with errors := l.errors ++ errors.toArray }

/-- Defines a name, which must be new. -/
def define (l : Layout) (name : Token) (value : Int) : Layout :=
  if l.symbols.contains name.text then l.report [.redeclared name.position name.text]
  else { l with symbols := l.symbols.insert name.text value }

/-- Defines a label at the present address. -/
def label (l : Layout) (name : Token) : Layout :=
  let l := l.define name l.address.toNat
  { l with labels := l.labels.insert name.text l.address }

/-- Adds a statement at the present address. -/
def statement (l : Layout) (keyword : Token) (operands : List Token) (action : Action) : Layout :=
  let s : Statement := ⟨keyword, operands, l.address, action⟩
  { l with
    statements := l.statements.push s
    address := l.address + UInt32.ofNat s.size }

/-- `.org` continues at another address, which must be even. -/
def org (l : Layout) (keyword : Token) : List Token → Layout
  | [operand] =>
    match l.symbols.value operand 0 0x3FFFFF with
    | .error e => l.report e
    | .ok value =>
      if value % 2 ≠ 0 then l.report [.unaligned operand.position (UInt32.ofNat value.toNat)]
      else { l with address := UInt32.ofNat value.toNat }
  | operands => l.report [.operandCount keyword.position 1 operands.length]

/-- `.equ` defines a name. -/
def equ (l : Layout) (keyword : Token) : List Token → Layout
  | [name, operand] =>
    if name.kind ≠ .identifier then
      l.report [.invalidOperand name.position [.identifier] name.kind]
    else match l.symbols.value operand (-0x80000000) 0xFFFFFFFF with
      | .error e => l.report e
      | .ok value => l.define name value
  | operands => l.report [.operandCount keyword.position 2 operands.length]

/-- The mnemonic of a word, which must be an identifier. -/
def mnemonic? (keyword : Token) : Option Mnemonic :=
  if keyword.kind = .identifier then Mnemonic.ofName? keyword.text else none

/-- The effect of the words of a line after its label. -/
def words (l : Layout) (keyword : Token) (operands : List Token) : Layout :=
  match mnemonic? keyword with
  | some m => l.statement keyword operands (.instruction m)
  | none =>
    match Directive.ofName? keyword.text with
    | some .org => l.org keyword operands
    | some .word =>
      if operands.isEmpty then l.report [.operandCount keyword.position 1 0]
      else l.statement keyword operands .words
    | some .equ => l.equ keyword operands
    | none => l.report [.unknownStatement keyword.position keyword.text]

/-- The effect of a line. A line with errors has no other effect. -/
def line (l : Layout) (origin : LineStart) (text : Bytes) : Layout :=
  match readLine origin text with
  | .error errors => l.report errors
  | .ok content =>
    let l := match content.label with
      | some name => l.label name
      | none => l
    match content.tokens with
    | [] => l
    | keyword :: operands => l.words keyword operands

/-- Where the next line is taken to begin: one byte after the end of this one. -/
def nextLine (origin : LineStart) (text : Bytes) : LineStart :=
  ⟨origin.line + 1, origin.byte + text.length + 1⟩

/-- Lays out a source. Nothing after a line that is too long is read. -/
def ofSource (source : Bytes) : Layout :=
  ((Text.lines source).lines.foldl
    (fun (state : Layout × LineStart) text =>
      (state.1.line state.2 text, nextLine state.2 text))
    ({}, ⟨1, 0⟩)).1

end Layout

end AvrSim.Asm
