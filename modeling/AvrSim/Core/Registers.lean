import AvrSim.Memory

/-!
# Registers and flags

The data space begins with the 32 registers and the I/O registers, among them the stack pointer and the
status register. This module names those places and reads and writes them.
-/

namespace AvrSim

/-! ## The status register -/

/-- The position of a flag in the status register. -/
abbrev Flag := Fin 8

namespace Flag

def c : Flag := ⟨0, by decide⟩
def z : Flag := ⟨1, by decide⟩
def n : Flag := ⟨2, by decide⟩
def v : Flag := ⟨3, by decide⟩
def s : Flag := ⟨4, by decide⟩
def h : Flag := ⟨5, by decide⟩
def t : Flag := ⟨6, by decide⟩
def i : Flag := ⟨7, by decide⟩

/-- The mask of one bit. -/
def mask (f : Flag) : UInt8 := UInt8.ofNat (1 <<< f.val)

end Flag

/-- A status register. -/
abbrev Status := UInt8

namespace Status

/-- Whether a flag is set. Positions past 7 are never set. -/
def get (status : Status) (bit : Nat) : Bool := status.toNat.testBit bit

/-- The status with one flag changed. -/
def put (status : Status) (f : Flag) (value : Bool) : Status :=
  if value then status ||| f.mask else status &&& ~~~f.mask

/-- The carry as a number. -/
def carry (status : Status) : UInt8 := status &&& 1

end Status

/-! ## Places in the data space -/

/-- The low byte of the stack pointer. -/
def splAddress : Nat := 0x5D
/-- The high byte of the stack pointer. -/
def sphAddress : Nat := 0x5E
/-- The status register. -/
def sregAddress : Nat := 0x5F
/-- The first I/O register. -/
def ioStart : Nat := 0x20

namespace Memory

/-- The status register. -/
def status (m : Memory) : Status := m.get sregAddress

/-- Changes the status register. -/
def setStatus (m : Memory) (value : Status) : Memory := m.set sregAddress value

/-- Whether a flag is set. -/
def flag (m : Memory) (bit : Nat) : Bool := m.status.get bit

/-- Changes a flag. -/
def setFlag (m : Memory) (f : Flag) (value : Bool) : Memory := m.setStatus (m.status.put f value)

/-- A 16 bit number, low byte first. -/
def getWord (m : Memory) (low high : Nat) : UInt16 :=
  (m.get low).toUInt16 ||| ((m.get high).toUInt16 <<< 8)

/-- Stores a 16 bit number, low byte first. -/
def setWord (m : Memory) (low high : Nat) (value : UInt16) : Memory :=
  (m.set low value.toUInt8).set high (value >>> 8).toUInt8

/-- The stack pointer. -/
def sp (m : Memory) : UInt16 := m.getWord splAddress sphAddress

/-- Changes the stack pointer. -/
def setSp (m : Memory) (value : UInt16) : Memory := m.setWord splAddress sphAddress value

/-- A pair of registers as a 16 bit number. -/
def pair (m : Memory) (r : Nat) : UInt16 := m.getWord r (r + 1)

/-- Changes a pair of registers. -/
def setPair (m : Memory) (r : Nat) (value : UInt16) : Memory := m.setWord r (r + 1) value

end Memory

end AvrSim
