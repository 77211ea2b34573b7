import AvrSim.Asm.Error
import AvrSim.Core.Registers

/-!
# Mnemonics

The instruction names of a source and the operands each takes. Several names can stand for one
instruction: `clr r` is `eor r, r`, `brlo` is `brcs`, and a flag's name is part of its instruction's.

* `Mnemonic.table` lists the names.
* `Mnemonic.size` is the size of the instruction, known before its operands are.
-/

namespace AvrSim.Asm

/-- An instruction name, by the operands it takes. -/
inductive Mnemonic
  /-- No operands. -/
  | plain (instr : Instr)
  | binary (op : BinaryOp)
  /-- One register that is both operands. -/
  | doubled (op : BinaryOp)
  | immediate (op : ImmediateOp)
  /-- Load 0xFF. -/
  | ser
  | unary (op : UnaryOp)
  | push
  | pop
  | movw
  | pair (op : PairOp)
  | rjmp
  | rcall
  | jmp
  | call
  | branch (s : Flag) (set : Bool)
  | input
  | output
  | ioBit (op : IoBitOp)
  | regBit (op : RegBitOp)
  | lds
  | sts
  | load
  | store
  | lpm
  deriving DecidableEq, Repr

namespace Mnemonic

/-- The names, in lower case. -/
def table : List (String × Mnemonic) :=
  [("nop", plain .nop), ("ret", plain .ret), ("reti", plain .reti), ("sleep", plain .sleep),
   ("break", plain .breakpoint), ("wdr", plain .wdr), ("ijmp", plain .ijmp),
   ("icall", plain .icall),
   ("sec", plain (.bset Flag.c)), ("clc", plain (.bclr Flag.c)), ("sez", plain (.bset Flag.z)),
   ("clz", plain (.bclr Flag.z)), ("sen", plain (.bset Flag.n)), ("cln", plain (.bclr Flag.n)),
   ("sev", plain (.bset Flag.v)), ("clv", plain (.bclr Flag.v)), ("ses", plain (.bset Flag.s)),
   ("cls", plain (.bclr Flag.s)), ("seh", plain (.bset Flag.h)), ("clh", plain (.bclr Flag.h)),
   ("set", plain (.bset Flag.t)), ("clt", plain (.bclr Flag.t)), ("sei", plain (.bset Flag.i)),
   ("cli", plain (.bclr Flag.i)),
   ("add", binary .add), ("adc", binary .adc), ("sub", binary .sub), ("sbc", binary .sbc),
   ("and", binary .and), ("or", binary .or), ("eor", binary .eor), ("mov", binary .mov),
   ("cp", binary .cp), ("cpc", binary .cpc), ("cpse", binary .cpse), ("mul", binary .mul),
   ("clr", doubled .eor), ("lsl", doubled .add), ("rol", doubled .adc), ("tst", doubled .and),
   ("ldi", immediate .ldi), ("cpi", immediate .cpi), ("subi", immediate .subi),
   ("sbci", immediate .sbci), ("andi", immediate .andi), ("ori", immediate .ori), ("ser", ser),
   ("com", unary .com), ("neg", unary .neg), ("swap", unary .swap), ("inc", unary .inc),
   ("asr", unary .asr), ("lsr", unary .lsr), ("ror", unary .ror), ("dec", unary .dec),
   ("push", push), ("pop", pop), ("movw", movw), ("adiw", pair .adiw), ("sbiw", pair .sbiw),
   ("rjmp", rjmp), ("rcall", rcall), ("jmp", jmp), ("call", call),
   ("brcs", branch .c true), ("brlo", branch .c true), ("breq", branch .z true),
   ("brmi", branch .n true), ("brvs", branch .v true), ("brlt", branch .s true),
   ("brhs", branch .h true), ("brts", branch .t true), ("brie", branch .i true),
   ("brcc", branch .c false), ("brsh", branch .c false), ("brne", branch .z false),
   ("brpl", branch .n false), ("brvc", branch .v false), ("brge", branch .s false),
   ("brhc", branch .h false), ("brtc", branch .t false), ("brid", branch .i false),
   ("in", input), ("out", output),
   ("cbi", ioBit .cbi), ("sbic", ioBit .sbic), ("sbi", ioBit .sbi), ("sbis", ioBit .sbis),
   ("bld", regBit .bld), ("bst", regBit .bst), ("sbrc", regBit .sbrc), ("sbrs", regBit .sbrs),
   ("lds", lds), ("sts", sts), ("ld", load), ("ldd", load), ("st", store), ("std", store),
   ("lpm", lpm)]

/-- The mnemonic of a name in any case. -/
def ofName? (name : Bytes) : Option Mnemonic :=
  let lower := (Bytes.lower name).toText
  (table.find? (·.1 == lower)).map (·.2)

/-- The size of the instruction in bytes. -/
def size : Mnemonic → Nat
  | jmp | call | lds | sts => 4
  | _ => 2

end Mnemonic

end AvrSim.Asm
