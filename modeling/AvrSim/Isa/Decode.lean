import AvrSim.Isa.Instr

/-!
# Decoding

`Instr.decode` reads an instruction from a program word and the word after it, which counts only for
the four instructions of two words. `isLong` tells these from the first word alone, as a skip must.
A word that is no instruction decodes to nothing.
-/

namespace AvrSim

/-- Whether a program word is the first of two: a jump or call with a 22 bit target, or a load or store
with a 16 bit address. -/
def isLong (w : UInt16) : Bool :=
  let n := w.toNat
  (n / 512 == 0x4A && n / 4 % 4 == 3) || (n / 1024 == 0x24 && n % 16 == 0)

namespace Instr

/-! ## Operand fields -/

/-- The register in bits 8 to 4. -/
def fieldD (n : Nat) : Fin 32 := Fin.ofNat 32 (n / 16)

/-- The register in bits 9 and 3 to 0. -/
def fieldR (n : Nat) : Fin 32 := Fin.ofNat 32 (n / 512 % 2 * 16 + n % 16)

/-- The upper register in bits 7 to 4. -/
def fieldUpper (n : Nat) : Fin 16 := Fin.ofNat 16 (n / 16)

/-- The constant in bits 11 to 8 and 3 to 0. -/
def fieldK (n : Nat) : UInt8 := UInt8.ofNat (n / 256 % 16 * 16 + n % 16)

/-- The displacement in bits 13, 11 to 10 and 2 to 0. -/
def fieldQ (n : Nat) : Fin 64 := Fin.ofNat 64 (n / 8192 % 2 * 32 + n / 1024 % 4 * 8 + n % 8)

/-- The I/O address in bits 10 to 9 and 3 to 0. -/
def fieldA (n : Nat) : Fin 64 := Fin.ofNat 64 (n / 512 % 4 * 16 + n % 16)

/-- The target in bits 8 to 4 and 0 of a first word and in the second word. -/
def fieldTarget (n ext : Nat) : Fin 4194304 :=
  Fin.ofNat 4194304 ((n / 16 % 32 * 2 + n % 2) * 65536 + ext)

/-! ## Families of opcodes -/

/-- Indirect addressing by the low four bits. -/
def indirect? : Nat → Option Indirect
  | 0x1 => some .zInc
  | 0x2 => some .zDec
  | 0x9 => some .yInc
  | 0xA => some .yDec
  | 0xC => some .x
  | 0xD => some .xInc
  | 0xE => some .xDec
  | _ => none

/-- `1001 000d dddd ....`: loads. -/
def decodeLoad (n ext : Nat) : Option Instr :=
  match n % 16 with
  | 0x0 => some (lds (fieldD n) (UInt16.ofNat ext))
  | 0x4 => some (lpm (fieldD n) false)
  | 0x5 => some (lpm (fieldD n) true)
  | 0xF => some (pop (fieldD n))
  | low => (indirect? low).map (ld (fieldD n))

/-- `1001 001r rrrr ....`: stores. -/
def decodeStore (n ext : Nat) : Option Instr :=
  match n % 16 with
  | 0x0 => some (sts (UInt16.ofNat ext) (fieldD n))
  | 0xF => some (push (fieldD n))
  | low => (indirect? low).map (st · (fieldD n))

/-- `1001 010. .... 1000`: flags and control without operands. -/
def decodeControl (n : Nat) : Option Instr :=
  match n / 16 % 32 with
  | 0x10 => some ret
  | 0x11 => some reti
  | 0x18 => some sleep
  | 0x19 => some breakpoint
  | 0x1A => some wdr
  | 0x1C => some lpmZero
  | low =>
    if low < 8 then some (bset (Fin.ofNat 8 low))
    else if low < 16 then some (bclr (Fin.ofNat 8 low))
    else none

/-- `1001 010. .... ....`: operations on one register, control, long jumps. -/
def decodeUnary (n ext : Nat) : Option Instr :=
  match n % 16 with
  | 0x0 => some (unary .com (fieldD n))
  | 0x1 => some (unary .neg (fieldD n))
  | 0x2 => some (unary .swap (fieldD n))
  | 0x3 => some (unary .inc (fieldD n))
  | 0x5 => some (unary .asr (fieldD n))
  | 0x6 => some (unary .lsr (fieldD n))
  | 0x7 => some (unary .ror (fieldD n))
  | 0x8 => decodeControl n
  | 0x9 =>
    match n / 16 % 32 with
    | 0x00 => some ijmp
    | 0x10 => some icall
    | _ => none
  | 0xA => some (unary .dec (fieldD n))
  | 0xC | 0xD => some (jmp (fieldTarget n ext))
  | 0xE | 0xF => some (call (fieldTarget n ext))
  | _ => none

/-- `1001 .... .... ....` -/
def decodeNine (n ext : Nat) : Option Instr :=
  match n / 256 % 16 with
  | 0x0 | 0x1 => decodeLoad n ext
  | 0x2 | 0x3 => decodeStore n ext
  | 0x4 | 0x5 => decodeUnary n ext
  | 0x6 => some (pair .adiw (Fin.ofNat 4 (n / 16)) (Fin.ofNat 64 (n / 64 % 4 * 16 + n % 16)))
  | 0x7 => some (pair .sbiw (Fin.ofNat 4 (n / 16)) (Fin.ofNat 64 (n / 64 % 4 * 16 + n % 16)))
  | 0x8 => some (ioBit .cbi (Fin.ofNat 32 (n / 8)) (Fin.ofNat 8 n))
  | 0x9 => some (ioBit .sbic (Fin.ofNat 32 (n / 8)) (Fin.ofNat 8 n))
  | 0xA => some (ioBit .sbi (Fin.ofNat 32 (n / 8)) (Fin.ofNat 8 n))
  | 0xB => some (ioBit .sbis (Fin.ofNat 32 (n / 8)) (Fin.ofNat 8 n))
  | _ => some (binary .mul (fieldD n) (fieldR n))

/-- `0000 .... .... ....` -/
def decodeZero (n : Nat) : Option Instr :=
  match n / 1024 % 4 with
  | 0 =>
    if n = 0 then some nop
    else if n / 256 = 1 then some (movw (Fin.ofNat 16 (n / 16)) (Fin.ofNat 16 n))
    else none
  | 1 => some (binary .cpc (fieldD n) (fieldR n))
  | 2 => some (binary .sbc (fieldD n) (fieldR n))
  | _ => some (binary .add (fieldD n) (fieldR n))

/-- `1111 .... .... ....`: branches, and operations on a bit of a register. -/
def decodeFifteen (n : Nat) : Option Instr :=
  if n / 2048 % 2 = 0 then
    some (branch (Fin.ofNat 8 n) (n / 1024 % 2 == 0) (Fin.ofNat 128 (n / 8)))
  else if n / 8 % 2 = 1 then none
  else match n / 512 % 4 with
    | 0 => some (regBit .bld (fieldD n) (Fin.ofNat 8 n))
    | 1 => some (regBit .bst (fieldD n) (Fin.ofNat 8 n))
    | 2 => some (regBit .sbrc (fieldD n) (Fin.ofNat 8 n))
    | _ => some (regBit .sbrs (fieldD n) (Fin.ofNat 8 n))

/-- The operation on two registers that bits 13 to 10 select among the opcodes 0x1000 to 0x2FFF. -/
def binaryOp : Nat → BinaryOp
  | 4 => .cpse
  | 5 => .cp
  | 6 => .sub
  | 7 => .adc
  | 8 => .and
  | 9 => .eor
  | 10 => .or
  | _ => .mov

/-- The instruction of a first word and the word after it. -/
def decodeNat (n ext : Nat) : Option Instr :=
  match n / 4096 with
  | 0x0 => decodeZero n
  | 0x1 | 0x2 => some (binary (binaryOp (n / 1024)) (fieldD n) (fieldR n))
  | 0x3 => some (immediate .cpi (fieldUpper n) (fieldK n))
  | 0x4 => some (immediate .sbci (fieldUpper n) (fieldK n))
  | 0x5 => some (immediate .subi (fieldUpper n) (fieldK n))
  | 0x6 => some (immediate .ori (fieldUpper n) (fieldK n))
  | 0x7 => some (immediate .andi (fieldUpper n) (fieldK n))
  | 0x8 | 0xA =>
    if n / 512 % 2 = 0 then some (ldd (fieldD n) (n / 8 % 2 == 1) (fieldQ n))
    else some (std (n / 8 % 2 == 1) (fieldQ n) (fieldD n))
  | 0x9 => decodeNine n ext
  | 0xB =>
    if n / 2048 % 2 = 0 then some (input (fieldD n) (fieldA n))
    else some (output (fieldA n) (fieldD n))
  | 0xC => some (rjmp (Fin.ofNat 4096 n))
  | 0xD => some (rcall (Fin.ofNat 4096 n))
  | 0xE => some (immediate .ldi (fieldUpper n) (fieldK n))
  | _ => decodeFifteen n

/-- The instruction of a program word and the word after it. -/
def decode (w ext : UInt16) : Option Instr := decodeNat w.toNat ext.toNat

end Instr

end AvrSim
