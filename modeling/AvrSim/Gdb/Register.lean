import AvrSim.Core.Machine

/-!
# Registers and memory as a client sees them

A client numbers the registers: 0 to 31 are the registers proper, 32 is the status register, 33 the stack
pointer and 34 the program counter. Values are bytes, lowest first.

* `Machine.registerBytes` is all registers in order, `Machine.storeRegisters?` changes them.
* `Machine.register?` and `Machine.storeRegister?` deal with a single one.
-/

namespace AvrSim.Machine

/-- The numbers of the status register, the stack pointer and the program counter. -/
def statusNumber : Nat := 32
def stackNumber : Nat := 33
def programNumber : Nat := 34

/-- A 16 bit number as bytes. -/
def wordBytes (w : UInt16) : List UInt8 := [w.toUInt8, (w >>> 8).toUInt8]

/-- A 32 bit number as bytes. -/
def longBytes (n : UInt32) : List UInt8 :=
  [n.toUInt8, (n >>> 8).toUInt8, (n >>> 16).toUInt8, (n >>> 24).toUInt8]

/-- The 32 bit number that bytes stand for; only the first four count. -/
def longOfBytes (bytes : List UInt8) : UInt32 :=
  bytes.foldr (fun b n => (n <<< 8) ||| b.toUInt32) 0

/-- All registers. -/
def registerBytes (m : Machine) : List UInt8 :=
  m.data.slice 0 32 ++ m.data.status :: wordBytes m.data.sp ++ longBytes m.program

/-- A single register. -/
def register? (m : Machine) (n : Nat) : Option (List UInt8) :=
  if n < 32 then some [m.data.get n]
  else if n = statusNumber then some [m.data.status]
  else if n = stackNumber then some (wordBytes m.data.sp)
  else if n = programNumber then some (longBytes m.program)
  else none

/-- Changes a single register. The value has the width of the register; for the program counter any
width from two bytes on will do. -/
def storeRegister? (m : Machine) (n : Nat) (value : List UInt8) : Option Machine :=
  match value with
  | [b] =>
    if n < 32 then some { m with data := m.data.set n b }
    else if n = statusNumber then some { m with data := m.data.setStatus b }
    else none
  | low :: high :: rest =>
    if n = programNumber then some { m with program := longOfBytes value }
    else if n = stackNumber && rest.isEmpty then
      some { m with data := (m.data.set splAddress low).set sphAddress high }
    else none
  | [] => none

/-- Changes all registers, or all but the program counter if there are not enough bytes for it. -/
def storeRegisters? (m : Machine) (bytes : List UInt8) : Option Machine :=
  match bytes.drop 32 with
  | status :: low :: high :: program =>
    let data := (m.data.store 0 (bytes.take 32)).setStatus status
    let m := { m with data := (data.set splAddress low).set sphAddress high }
    some (if program.length < 4 then m else { m with program := longOfBytes (program.take 4) })
  | _ => none

end AvrSim.Machine
