import AvrSim.Core.Alu
import AvrSim.Core.Bus
import AvrSim.Isa.Decode

/-!
# Executing instructions

`Machine.execute` fetches the instruction at the program counter, advances the counter past it and
performs it. `Machine.perform` is the effect of an instruction once the counter stands behind it.

A fault in the middle of an instruction crashes the core, but what the instruction still has to do is
done, with zero in place of what could not be read.
-/

namespace AvrSim.Machine

/-! ## Program memory -/

/-- The program word at a byte address. -/
def fetch (m : Machine) (pc : UInt32) : UInt16 × Machine :=
  if pc.toNat + 1 < m.flash.size then
    ((m.flash.get pc.toNat).toUInt16 ||| ((m.flash.get (pc.toNat + 1)).toUInt16 <<< 8), m)
  else
    (0, m.onCore fun core =>
      core.crash "fetch out of flash" "addr" (Core.shownAddress 5 pc.toNat))

/-- The byte of program memory at an address, which takes two cycles more. -/
def programByte (m : Machine) (address : UInt16) : UInt8 × Machine :=
  let m := { m with cycle := m.cycle + 2 }
  if address.toNat < m.flash.size then (m.flash.get address.toNat, m)
  else
    (0, m.onCore fun core =>
      core.crash "program memory read out of range" "addr" (Core.shownAddress 5 address.toNat))

/-! ## Small effects -/

/-- Changes the data space without any access being noted. -/
@[inline] def onData (f : Memory → Memory) (m : Machine) : Machine :=
  { m with data := f m.data }

/-- Takes more cycles. -/
def spend (n : UInt64) (m : Machine) : Machine := { m with cycle := m.cycle + n }

/-- Continues at an address. -/
def goto (pc : UInt32) (m : Machine) : Machine := { m with program := pc }

/-- A field of `2 * half` values as a two's complement number. -/
def signed (half k : Nat) : Int := if k < half then k else k - (2 * half : Nat)

/-- Continues a number of words after the next instruction. -/
def branch (offset : Int) (m : Machine) : Machine :=
  { m with program := m.program + UInt32.ofInt (2 * offset) }

/-- Passes over the next instruction. -/
def skip (m : Machine) : Machine :=
  let (next, m) := m.fetch m.program
  if isLong next then { m with program := m.program + 4, cycle := m.cycle + 2 }
  else { m with program := m.program + 2, cycle := m.cycle + 1 }

/-- The word address of the next instruction. -/
def returnAddress (m : Machine) : UInt32 := m.program >>> 1

/-- The register pair of a pointer. -/
def pointerRegister : Pointer → Nat
  | .x => 26
  | .y => 28
  | .z => 30

/-- The pointer of an indirect access, and how it changes: the address used and the pointer after. -/
def indirectPointer : Indirect → Pointer
  | .x | .xInc | .xDec => .x
  | .yInc | .yDec => .y
  | .zInc | .zDec => .z

/-- The address of an indirect access; the pointer is changed before the access is made. -/
def indirectAddress (mode : Indirect) (m : Machine) : UInt16 × Machine :=
  let r := pointerRegister (indirectPointer mode)
  let pointer := m.data.pair r
  let m := m.spend 1
  match mode with
  | .x => (pointer, m)
  | .xInc | .yInc | .zInc => (pointer, m.onData (·.setPair r (pointer + 1)))
  | .xDec | .yDec | .zDec => (pointer - 1, m.onData (·.setPair r (pointer - 1)))

/-- The address of an access with displacement. -/
def displacedAddress (y : Bool) (q : Fin 64) (m : Machine) : UInt16 :=
  m.data.pair (pointerRegister (if y then .y else .z)) + UInt16.ofNat q.val

/-- Stores what was read in a register. -/
def load (d : Nat) (result : UInt8 × Machine) : Machine :=
  result.2.onData (·.set d result.1)

/-- The data address of an I/O register. -/
def ioAddress (a : Nat) : UInt16 := UInt16.ofNat (ioStart + a)

/-- Whether bit `b` of a byte is set. -/
def hasBit (value : UInt8) (b : Fin 8) : Bool := value.toNat.testBit b.val

/-- A byte with bit `b` set or cleared. -/
def withBit (value : UInt8) (b : Fin 8) (on : Bool) : UInt8 := Status.put value b on

/-! ## Instructions -/

/-- Control instructions without operands that end or hold the run. A core that sleeps or loops for
ever with interrupts off can do nothing more and is done. -/
def sleep (m : Machine) : Machine :=
  if m.data.flag Flag.i.val then
    { m.onCore (·.report .debug "sleeping" []) with run := .sleeping }
  else
    { m.onCore (·.report .info "sleeping with interrupts off, quitting gracefully" []) with
      run := .done }

/-- A relative jump. -/
def relativeJump (k : Fin 4096) (m : Machine) : Machine :=
  let offset := signed 2048 k.val
  if offset = -1 && !m.data.flag Flag.i.val then
    { m.onCore (·.report .info "infinite loop with interrupts off, quitting gracefully" []) with
      program := m.program - 2, run := .done }
  else (m.branch offset).spend 1

/-- A call: the address of the next instruction is pushed. -/
def callTo (target : UInt32) (m : Machine) : Machine :=
  (m.pushAddress m.returnAddress).goto target

/-- A return. -/
def returnFrom (m : Machine) : Machine :=
  let (address, m) := m.popAddress
  (m.goto (address <<< 1)).spend 3

/-- Operations on a bit of an I/O register. -/
def performIoBit (op : IoBitOp) (a : Fin 32) (b : Fin 8) (m : Machine) : Machine :=
  let address := ioAddress a.val
  let (value, m) := m.read address
  match op with
  | .cbi => (m.write address (withBit value b false)).spend 1
  | .sbi => (m.write address (withBit value b true)).spend 1
  | .sbic => if hasBit value b then m else m.skip
  | .sbis => if hasBit value b then m.skip else m

/-- Operations on a bit of a register. -/
def performRegBit (op : RegBitOp) (r : Fin 32) (b : Fin 8) (m : Machine) : Machine :=
  let value := m.data.get r.val
  match op with
  | .bld => m.onData fun data => data.set r.val (withBit value b (data.flag Flag.t.val))
  | .bst => m.onData (·.setFlag .t (hasBit value b))
  | .sbrc => if hasBit value b then m else m.skip
  | .sbrs => if hasBit value b then m.skip else m

/-- The target of a long jump or call as a byte address. -/
def longTarget (k : Fin 4194304) : UInt32 := UInt32.ofNat (2 * k.val)

/-- The effect of an instruction, with the program counter behind it and its first cycle spent. -/
def perform (m : Machine) : Instr → Machine
  | .nop => m
  | .ret => m.returnFrom
  | .reti =>
    let m := m.returnFrom
    { m.onData (·.setFlag .i true) with interruptDelay := true }
  | .sleep => m.sleep
  | .breakpoint => if m.probed then { m with run := .stopped } else m
  | .wdr => m
  | .ijmp => (m.goto ((m.data.pair 30).toUInt32 <<< 1)).spend 1
  | .icall =>
    let m := m.pushAddress m.returnAddress
    (m.goto ((m.data.pair 30).toUInt32 <<< 1)).spend 2
  | .lpmZero => load 0 (m.programByte (m.data.pair 30))
  | .movw d r =>
    m.onData fun data =>
      let data := data.set (2 * d.val) (data.get (2 * r.val))
      data.set (2 * d.val + 1) (data.get (2 * r.val + 1))
  | .binary .cpse d r => if m.data.get d.val == m.data.get r.val then m.skip else m
  | .binary .mul d r => (m.onData (Alu.binary .mul d.val r.val)).spend 1
  | .binary op d r => m.onData (Alu.binary op d.val r.val)
  | .immediate op d k => m.onData (Alu.immediate op (16 + d.val) k)
  | .unary op d => m.onData (Alu.unary op d.val)
  | .pair op d k => (m.onData (Alu.pair op (24 + 2 * d.val) (UInt16.ofNat k.val))).spend 1
  | .push r => (m.push (m.data.get r.val)).spend 1
  | .pop d => (load d.val m.pop).spend 1
  | .ldd d y q =>
    let address := m.displacedAddress y q
    load d.val ((m.spend 1).read address)
  | .std y q r =>
    let address := m.displacedAddress y q
    let value := m.data.get r.val
    (m.spend 1).write address value
  | .ld d mode =>
    let (address, m) := m.indirectAddress mode
    load d.val (m.read address)
  | .st mode r =>
    let value := m.data.get r.val
    let (address, m) := m.indirectAddress mode
    m.write address value
  | .lds d address => load d.val ((m.spend 1).read address)
  | .sts address r =>
    let value := m.data.get r.val
    (m.spend 1).write address value
  | .lpm d inc =>
    let pointer := m.data.pair 30
    let m := load d.val (m.programByte pointer)
    if inc then m.onData (·.setPair 30 (pointer + 1)) else m
  | .input d a => load d.val (m.read (ioAddress a.val))
  | .output a r => m.write (ioAddress a.val) (m.data.get r.val)
  | .rjmp k => m.relativeJump k
  | .rcall k => ((m.pushAddress m.returnAddress).branch (signed 2048 k.val)).spend 2
  | .jmp k => (m.goto (longTarget k)).spend 2
  | .call k => (m.callTo (longTarget k)).spend 3
  | .branch s set k =>
    if m.data.flag s.val == set then (m.branch (signed 64 k.val)).spend 1 else m
  | .bset s =>
    let m := m.onData (·.setFlag s true)
    if s = Flag.i then { m with interruptDelay := true } else m
  | .bclr s => m.onData (·.setFlag s false)
  | .ioBit op a b => m.performIoBit op a b
  | .regBit op r b => m.performRegBit op r b

/-- A word that is no instruction crashes the core where it stands. -/
def illegal (w : UInt16) (m : Machine) : Machine :=
  { m with program := m.program - 2 }.onCore fun core =>
    core.crash "invalid opcode" "opcode" (Core.shownAddress 4 w.toNat)

/-- Reports an instruction about to be executed. -/
def traceStep (m : Machine) (w : UInt16) : Machine :=
  if m.journal.keeps .trace then
    m.onCore fun core => core.report .trace "step"
      [core.shownProgram, ("op", .ofString (Text.hex 4 w.toNat)),
        ("sreg", .ofString (Text.digits 2 8 core.data.status.toNat))]
  else m

/-- The second word of an instruction whose first word is `w`, if it has two; the program counter moves
past it. -/
def fetchExtension (m : Machine) (w : UInt16) : UInt16 × Machine :=
  if isLong w then
    let (ext, m) := m.fetch m.program
    (ext, { m with program := m.program + 2 })
  else (0, m)

/-- Executes the instruction at the program counter. -/
def execute (m : Machine) : Machine :=
  if m.codeEnd < m.program then
    m.onCore fun core =>
      core.crash "execution past code end" "codeend" (Core.shownAddress 5 core.codeEnd.toNat)
  else
    let (w, m) := m.fetch m.program
    if m.run ≠ .running then m
    else
      let m := m.traceStep w
      let m := { m with program := m.program + 2, cycle := m.cycle + 1 }
      let (ext, m) := m.fetchExtension w
      match Instr.decode w ext with
      | some instr => m.perform instr
      | none => m.illegal w

end AvrSim.Machine
