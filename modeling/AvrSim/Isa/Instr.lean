/-!
# Instructions

The instruction set as data: one constructor per instruction shape, with operands in the ranges that
their fields can hold. `Instr.encode` gives the program words of an instruction, put together from its
fields by arithmetic on natural numbers; `Instr.size` is its length in bytes.

Field letters follow the usual bit diagrams: `d` and `r` are registers, `k` a constant or an offset,
`a` an I/O address, `b` a bit number, `q` a displacement, `s` a flag.
-/

namespace AvrSim

/-! ## Operations -/

/-- Operations on two registers. -/
inductive BinaryOp
  | cpc | sbc | add | cpse | cp | sub | adc | and | eor | or | mov | mul
  deriving DecidableEq, Repr

/-- Operations on an upper register and a constant. -/
inductive ImmediateOp
  | cpi | sbci | subi | ori | andi | ldi
  deriving DecidableEq, Repr

/-- Operations on one register. -/
inductive UnaryOp
  | com | neg | swap | inc | asr | lsr | ror | dec
  deriving DecidableEq, Repr

/-- Operations on an upper register pair and a constant. -/
inductive PairOp
  | adiw | sbiw
  deriving DecidableEq, Repr

/-- Operations on a bit of an I/O register. -/
inductive IoBitOp
  | cbi | sbic | sbi | sbis
  deriving DecidableEq, Repr

/-- Operations on a bit of a register. -/
inductive RegBitOp
  | bld | bst | sbrc | sbrs
  deriving DecidableEq, Repr

/-- The pointer registers. -/
inductive Pointer
  | x | y | z
  deriving DecidableEq, Repr

/-- Indirect addressing without displacement: the pointer may be incremented afterwards or decremented
before. `Y` and `Z` alone are displacements of zero. -/
inductive Indirect
  | x | xInc | xDec | yInc | yDec | zInc | zDec
  deriving DecidableEq, Repr

/-! ## Instructions -/

/-- A number as the value of a field with `last + 1` values; what does not fit is cut off. -/
def wrap (last n : Nat) : Fin (last + 1) := ⟨n % (last + 1), Nat.mod_lt n last.succ_pos⟩

/-- An instruction with its operands. -/
inductive Instr
  | nop
  | ret
  | reti
  | sleep
  | breakpoint
  | wdr
  | ijmp
  | icall
  /-- Load r0 from program memory at `Z`. -/
  | lpmZero
  | movw (d r : Fin 16)
  | binary (op : BinaryOp) (d r : Fin 32)
  | immediate (op : ImmediateOp) (d : Fin 16) (k : UInt8)
  | unary (op : UnaryOp) (d : Fin 32)
  | pair (op : PairOp) (d : Fin 4) (k : Fin 64)
  | push (r : Fin 32)
  | pop (d : Fin 32)
  /-- Load with displacement from `Y` if `y`, else from `Z`. -/
  | ldd (d : Fin 32) (y : Bool) (q : Fin 64)
  | std (y : Bool) (q : Fin 64) (r : Fin 32)
  | ld (d : Fin 32) (mode : Indirect)
  | st (mode : Indirect) (r : Fin 32)
  | lds (d : Fin 32) (address : UInt16)
  | sts (address : UInt16) (r : Fin 32)
  /-- Load from program memory at `Z`, which is incremented if `inc`. -/
  | lpm (d : Fin 32) (inc : Bool)
  | input (d : Fin 32) (a : Fin 64)
  | output (a : Fin 64) (r : Fin 32)
  | rjmp (k : Fin 4096)
  | rcall (k : Fin 4096)
  | jmp (k : Fin 4194304)
  | call (k : Fin 4194304)
  /-- Branch if flag `s` is `set`. -/
  | branch (s : Fin 8) (set : Bool) (k : Fin 128)
  | bset (s : Fin 8)
  | bclr (s : Fin 8)
  | ioBit (op : IoBitOp) (a : Fin 32) (b : Fin 8)
  | regBit (op : RegBitOp) (r : Fin 32) (b : Fin 8)
  deriving DecidableEq, Repr

/-! ## Encoding -/

/-- The opcode with all operand bits zero. -/
def BinaryOp.opcode : BinaryOp → Nat
  | .cpc => 0x0400
  | .sbc => 0x0800
  | .add => 0x0C00
  | .cpse => 0x1000
  | .cp => 0x1400
  | .sub => 0x1800
  | .adc => 0x1C00
  | .and => 0x2000
  | .eor => 0x2400
  | .or => 0x2800
  | .mov => 0x2C00
  | .mul => 0x9C00

@[inherit_doc BinaryOp.opcode]
def ImmediateOp.opcode : ImmediateOp → Nat
  | .cpi => 0x3000
  | .sbci => 0x4000
  | .subi => 0x5000
  | .ori => 0x6000
  | .andi => 0x7000
  | .ldi => 0xE000

@[inherit_doc BinaryOp.opcode]
def UnaryOp.opcode : UnaryOp → Nat
  | .com => 0x9400
  | .neg => 0x9401
  | .swap => 0x9402
  | .inc => 0x9403
  | .asr => 0x9405
  | .lsr => 0x9406
  | .ror => 0x9407
  | .dec => 0x940A

@[inherit_doc BinaryOp.opcode]
def PairOp.opcode : PairOp → Nat
  | .adiw => 0x9600
  | .sbiw => 0x9700

@[inherit_doc BinaryOp.opcode]
def IoBitOp.opcode : IoBitOp → Nat
  | .cbi => 0x9800
  | .sbic => 0x9900
  | .sbi => 0x9A00
  | .sbis => 0x9B00

@[inherit_doc BinaryOp.opcode]
def RegBitOp.opcode : RegBitOp → Nat
  | .bld => 0xF800
  | .bst => 0xFA00
  | .sbrc => 0xFC00
  | .sbrs => 0xFE00

/-- The low four bits of an indirect load or store. -/
def Indirect.nibble : Indirect → Nat
  | .zInc => 0x1
  | .zDec => 0x2
  | .yInc => 0x9
  | .yDec => 0xA
  | .x => 0xC
  | .xInc => 0xD
  | .xDec => 0xE

namespace Instr

/-- The bits of a displacement, which stand in three fields, and of its base. -/
def displacement (y : Bool) (q : Fin 64) : Nat :=
  q.val / 32 * 8192 + q.val / 8 % 4 * 1024 + (if y then 8 else 0) + q.val % 8

/-- The bits of a six bit I/O address, which stand in two fields. -/
def ioAddress (a : Fin 64) : Nat := a.val / 16 * 512 + a.val % 16

/-- The bits of a 22 bit target that stand in the first word. -/
def targetHigh (k : Fin 4194304) : Nat := k.val / 131072 * 16 + k.val / 65536 % 2

/-- The first program word. -/
def word : Instr → Nat
  | nop => 0x0000
  | ret => 0x9508
  | reti => 0x9518
  | sleep => 0x9588
  | breakpoint => 0x9598
  | wdr => 0x95A8
  | ijmp => 0x9409
  | icall => 0x9509
  | lpmZero => 0x95C8
  | movw d r => 0x0100 + d.val * 16 + r.val
  | binary op d r => op.opcode + r.val / 16 * 512 + d.val * 16 + r.val % 16
  | immediate op d k => op.opcode + k.toNat / 16 * 256 + d.val * 16 + k.toNat % 16
  | unary op d => op.opcode + d.val * 16
  | pair op d k => op.opcode + k.val / 16 * 64 + d.val * 16 + k.val % 16
  | push r => 0x920F + r.val * 16
  | pop d => 0x900F + d.val * 16
  | ldd d y q => 0x8000 + displacement y q + d.val * 16
  | std y q r => 0x8200 + displacement y q + r.val * 16
  | ld d mode => 0x9000 + d.val * 16 + mode.nibble
  | st mode r => 0x9200 + r.val * 16 + mode.nibble
  | lds d _ => 0x9000 + d.val * 16
  | sts _ r => 0x9200 + r.val * 16
  | lpm d inc => 0x9004 + d.val * 16 + (if inc then 1 else 0)
  | input d a => 0xB000 + ioAddress a + d.val * 16
  | output a r => 0xB800 + ioAddress a + r.val * 16
  | rjmp k => 0xC000 + k.val
  | rcall k => 0xD000 + k.val
  | jmp k => 0x940C + targetHigh k
  | call k => 0x940E + targetHigh k
  | branch s set k => (if set then 0xF000 else 0xF400) + k.val * 8 + s.val
  | bset s => 0x9408 + s.val * 16
  | bclr s => 0x9488 + s.val * 16
  | ioBit op a b => op.opcode + a.val * 8 + b.val
  | regBit op r b => op.opcode + r.val * 16 + b.val

/-- The second program word, if there is one. -/
def extension? : Instr → Option UInt16
  | lds _ address => some address
  | sts address _ => some address
  | jmp k => some (UInt16.ofNat k.val)
  | call k => some (UInt16.ofNat k.val)
  | _ => none

/-- The program words. -/
def encode (i : Instr) : List UInt16 := UInt16.ofNat i.word :: i.extension?.toList

/-- The length in bytes. -/
def size (i : Instr) : Nat := if i.extension?.isSome then 4 else 2

end Instr

end AvrSim
