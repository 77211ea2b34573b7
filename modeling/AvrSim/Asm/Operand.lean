import AvrSim.Asm.Mnemonic
import Std.Data.HashMap

/-!
# Operands and instructions

What the operands of a statement stand for. Every operand of an instruction is looked at before the
instruction is given up, so that one statement can have several errors; only the pointer of `lpm` is not
looked at if its register is wrong.

* `Symbols.value` is the value of a number, a character or a name, checked against a range.
* `Statement.instr` is the instruction of a statement.
-/

namespace AvrSim.Asm

/-- The values of the names a source defines. -/
abbrev Symbols := Std.HashMap Bytes Int

/-- What was checked, or all that is wrong with it. -/
abbrev Checked (α : Type) := Except (List Error) α

namespace Checked

/-- Two things together; what is wrong with either is wrong with the whole. -/
def both {α β : Type} : Checked α → Checked β → Checked (α × β)
  | .ok a, .ok b => .ok (a, b)
  | .ok _, .error e => .error e
  | .error e, .ok _ => .error e
  | .error e, .error f => .error (e ++ f)

/-- Builds something from two operands. -/
def map₂ {α β γ : Type} (f : α → β → γ) (a : Checked α) (b : Checked β) : Checked γ :=
  (both a b).map fun (x, y) => f x y

end Checked

/-! ## Single operands -/

/-- The value of an operand, before its range is checked. -/
def Symbols.rawValue (symbols : Symbols) (token : Token) : Checked Int :=
  match token.kind with
  | .literal | .character =>
    match token.literal? with
    | some value => .ok value
    | none => .error [.invalidLiteral token.position]
  | .identifier =>
    match symbols[token.text]? with
    | some value => .ok value
    | none => .error [.unknownSymbol token.position token.text]
  | kind =>
    .error [.invalidOperand token.position [.literal, .character, .identifier] kind]

/-- The value of an operand, which must lie between two bounds. -/
def Symbols.value (symbols : Symbols) (token : Token) (low high : Int) : Checked Int :=
  match symbols.rawValue token with
  | .error e => .error e
  | .ok value =>
    if value < low ∨ high < value then .error [.outOfRange token.position low high value]
    else .ok value

/-- A register between two bounds. -/
def register (token : Token) (low high : Nat) (even : Bool) : Checked (Fin 32) :=
  match token.register? with
  | some r =>
    if r.val < low || high < r.val || (even && r.val % 2 != 0) then
      .error [.invalidRegister token.position low high even]
    else .ok r
  | none => .error [.invalidRegister token.position low high even]

/-- Any register. -/
def anyRegister (token : Token) : Checked (Fin 32) := register token 0 31 false

/-- One of the upper sixteen registers, counted from the first of them. -/
def upperRegister (token : Token) : Checked (Fin 16) :=
  (register token 16 31 false).map fun r => wrap 15 (r.val - 16)

/-- A register pair by its even register, counted in pairs. -/
def registerPair (token : Token) : Checked (Fin 16) :=
  (register token 0 30 true).map fun r => wrap 15 (r.val / 2)

/-- One of the four upper register pairs. -/
def upperPair (token : Token) : Checked (Fin 4) :=
  (register token 24 30 true).map fun r => wrap 3 ((r.val - 24) / 2)

/-- A number from 0 to `last`. -/
def Symbols.field (symbols : Symbols) (last : Nat) (token : Token) : Checked (Fin (last + 1)) :=
  (symbols.value token 0 last).map fun value => wrap last value.toNat

/-- A byte constant, signed or unsigned. -/
def Symbols.byte (symbols : Symbols) (token : Token) : Checked UInt8 :=
  (symbols.value token (-128) 255).map UInt8.ofInt

/-- A data address. -/
def Symbols.address (symbols : Symbols) (token : Token) : Checked UInt16 :=
  (symbols.value token 0 0xFFFF).map fun value => UInt16.ofNat value.toNat

/-- The word address of a jump target, which is given as an even byte address. -/
def Symbols.target (symbols : Symbols) (token : Token) : Checked Nat :=
  match symbols.value token 0 0x7FFFFF with
  | .error e => .error e
  | .ok value =>
    if value % 2 ≠ 0 then .error [.unaligned token.position (UInt32.ofNat value.toNat)]
    else .ok (value.toNat / 2)

/-- The distance from the statement after `address` to a jump target, in words, as a field with
`last + 1` values, half of them negative. -/
def Symbols.relative (symbols : Symbols) (address : UInt32) (last : Nat) (token : Token) :
    Checked (Fin (last + 1)) :=
  match symbols.target token with
  | .error e => .error e
  | .ok target =>
    let offset : Int := target - (address.toNat / 2 : Nat) - 1
    let limit : Int := ((last + 1) / 2 : Nat)
    if offset < -limit ∨ limit ≤ offset then
      .error [.outOfRange token.position (-limit) (limit - 1) offset]
    else .ok (wrap last (offset % (last + 1)).toNat)

/-- The pointer operand of a token. -/
def pointerOperand (token : Token) : Checked PointerOperand :=
  match token.kind, PointerOperand.parse? token.text with
  | .pointer, some operand => .ok operand
  | kind, _ => .error [.invalidOperand token.position [.pointer] kind]

/-- An access through a pointer: without displacement, or with one from `Y` if the flag is set and else
from `Z`. -/
inductive Access
  | indirect (mode : Indirect)
  | displaced (y : Bool) (q : Fin 64)
  deriving DecidableEq, Repr

/-- The access that a pointer operand asks for. `Y` and `Z` alone are displacements of zero. -/
def access (token : Token) : Checked Access :=
  match pointerOperand token with
  | .error e => .error e
  | .ok ⟨pointer, mode⟩ =>
    match mode, pointer with
    | .plain, .x => .ok (.indirect .x)
    | .plain, .y => .ok (.displaced true (wrap 63 0))
    | .plain, .z => .ok (.displaced false (wrap 63 0))
    | .postIncrement, .x => .ok (.indirect .xInc)
    | .postIncrement, .y => .ok (.indirect .yInc)
    | .postIncrement, .z => .ok (.indirect .zInc)
    | .preDecrement, .x => .ok (.indirect .xDec)
    | .preDecrement, .y => .ok (.indirect .yDec)
    | .preDecrement, .z => .ok (.indirect .zDec)
    | .displaced q, _ =>
      if q < 0 ∨ 63 < q then .error [.outOfRange token.position 0 63 q]
      else .ok (.displaced (pointer == .y) (wrap 63 q.toNat))

/-- Whether `lpm` increments `Z`, which must be its pointer. -/
def programPointer (token : Token) : Checked Bool :=
  match token.kind, PointerOperand.parse? token.text with
  | .pointer, some ⟨.z, .plain⟩ => .ok false
  | .pointer, some ⟨.z, .postIncrement⟩ => .ok true
  | kind, _ => .error [.invalidOperand token.position [.pointer] kind]

/-! ## Instructions -/

/-- A load through a pointer. -/
def loadInstr (d : Fin 32) : Access → Instr
  | .indirect mode => .ld d mode
  | .displaced y q => .ldd d y q

/-- A store through a pointer. -/
def storeInstr : Access → Fin 32 → Instr
  | .indirect mode, r => .st mode r
  | .displaced y q, r => .std y q r

/-- The instruction of a mnemonic with operands, in a statement at `address` whose first word stands at
`position`. -/
def instruction (symbols : Symbols) (address : UInt32) (position : Position) :
    Mnemonic → List Token → Checked Instr
  | .plain instr, [] => .ok instr
  | .binary op, [d, r] => .map₂ (.binary op) (anyRegister d) (anyRegister r)
  | .doubled op, [d] => (anyRegister d).map fun d => .binary op d d
  | .immediate op, [d, k] => .map₂ (.immediate op) (upperRegister d) (symbols.byte k)
  | .ser, [d] => (upperRegister d).map (.immediate .ldi · 0xFF)
  | .unary op, [d] => (anyRegister d).map (.unary op)
  | .push, [r] => (anyRegister r).map .push
  | .pop, [d] => (anyRegister d).map .pop
  | .movw, [d, r] => .map₂ .movw (registerPair d) (registerPair r)
  | .pair op, [d, k] => .map₂ (.pair op) (upperPair d) (symbols.field 63 k)
  | .rjmp, [k] => (symbols.relative address 4095 k).map .rjmp
  | .rcall, [k] => (symbols.relative address 4095 k).map .rcall
  | .jmp, [k] => (symbols.target k).map fun k => .jmp (wrap 4194303 k)
  | .call, [k] => (symbols.target k).map fun k => .call (wrap 4194303 k)
  | .branch s set, [k] => (symbols.relative address 127 k).map (.branch s set)
  | .input, [d, a] => .map₂ .input (anyRegister d) (symbols.field 63 a)
  | .output, [a, r] => .map₂ .output (symbols.field 63 a) (anyRegister r)
  | .ioBit op, [a, b] => .map₂ (.ioBit op) (symbols.field 31 a) (symbols.field 7 b)
  | .regBit op, [r, b] => .map₂ (.regBit op) (anyRegister r) (symbols.field 7 b)
  | .lds, [d, k] => .map₂ .lds (anyRegister d) (symbols.address k)
  | .sts, [k, r] => .map₂ .sts (symbols.address k) (anyRegister r)
  | .load, [d, p] => .map₂ loadInstr (anyRegister d) (access p)
  | .store, [p, r] => .map₂ storeInstr (access p) (anyRegister r)
  | .lpm, [] => .ok .lpmZero
  | .lpm, [d, p] =>
    match anyRegister d with
    | .error e => .error e
    | .ok d => (programPointer p).map (.lpm d)
  | m, operands => .error [.operandCount position (required m) operands.length]
where
  /-- The number of operands. -/
  required : Mnemonic → Nat
    | .plain _ => 0
    | .doubled _ | .ser | .unary _ | .push | .pop | .rjmp | .rcall | .jmp | .call
    | .branch _ _ => 1
    | _ => 2

end AvrSim.Asm
