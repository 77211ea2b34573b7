import AvrSim.Core.Registers
import AvrSim.Isa.Instr

/-!
# Arithmetic and logic

The effect of the arithmetic instructions on the registers and the status register. Carries and borrows
are computed bit by bit from the operands and the result: a bit position carries out if two of its three
inputs are set, which shows in the operands and the result.
-/

namespace AvrSim.Alu

/-- The sign bit. -/
def isNegative (value : UInt8) : Bool := value &&& 0x80 != 0

/-- Sets Z and N from a result, and S from N and V. -/
def signFlags (status : Status) (zero negative : Bool) : Status :=
  let status := (status.put .z zero).put .n negative
  status.put .s (status.get Flag.n.val != status.get Flag.v.val)

/-- The flags after an addition. -/
def addFlags (status : Status) (a b result : UInt8) : Status :=
  let carries := (a &&& b) ||| (b &&& ~~~result) ||| (~~~result &&& a)
  let overflow := (a &&& b &&& ~~~result) ||| (~~~a &&& ~~~b &&& result)
  let status := ((status.put .h (carries &&& 0x08 != 0)).put .c (isNegative carries)).put .v
    (isNegative overflow)
  signFlags status (result == 0) (isNegative result)

/-- The flags after a subtraction. With a borrow coming in, Z can only be cleared, so that a chain of
subtractions shows whether the whole difference is zero. -/
def subFlags (status : Status) (a b result : UInt8) (chained : Bool) : Status :=
  let borrows := (~~~a &&& b) ||| (b &&& result) ||| (result &&& ~~~a)
  let overflow := (a &&& ~~~b &&& ~~~result) ||| (~~~a &&& b &&& result)
  let zero := result == 0 && (!chained || status.get Flag.z.val)
  let status := ((status.put .h (borrows &&& 0x08 != 0)).put .c (isNegative borrows)).put .v
    (isNegative overflow)
  signFlags status zero (isNegative result)

/-- The flags after a bitwise operation. -/
def logicFlags (status : Status) (result : UInt8) : Status :=
  signFlags (status.put .v false) (result == 0) (isNegative result)

/-- Stores a result and the flags that go with it. -/
def store (m : Memory) (d : Nat) (result : UInt8) (status : Status) : Memory :=
  (m.set d result).setStatus status

/-- Operations on two registers, except for the skip. -/
def binary (op : BinaryOp) (d r : Nat) (m : Memory) : Memory :=
  let a := m.get d
  let b := m.get r
  let status := m.status
  match op with
  | .cpc => m.setStatus (subFlags status a b (a - b - status.carry) true)
  | .sbc => store m d (a - b - status.carry) (subFlags status a b (a - b - status.carry) true)
  | .add => store m d (a + b) (addFlags status a b (a + b))
  | .cpse => m
  | .cp => m.setStatus (subFlags status a b (a - b) false)
  | .sub => store m d (a - b) (subFlags status a b (a - b) false)
  | .adc => store m d (a + b + status.carry) (addFlags status a b (a + b + status.carry))
  | .and => store m d (a &&& b) (logicFlags status (a &&& b))
  | .eor => store m d (a ^^^ b) (logicFlags status (a ^^^ b))
  | .or => store m d (a ||| b) (logicFlags status (a ||| b))
  | .mov => m.set d b
  | .mul =>
    let product := a.toUInt16 * b.toUInt16
    (m.setPair 0 product).setStatus
      ((status.put .c (product &&& 0x8000 != 0)).put .z (product == 0))

/-- Operations on a register and a constant. -/
def immediate (op : ImmediateOp) (d : Nat) (k : UInt8) (m : Memory) : Memory :=
  let a := m.get d
  let status := m.status
  match op with
  | .cpi => m.setStatus (subFlags status a k (a - k) false)
  | .sbci => store m d (a - k - status.carry) (subFlags status a k (a - k - status.carry) true)
  | .subi => store m d (a - k) (subFlags status a k (a - k) false)
  | .ori => store m d (a ||| k) (logicFlags status (a ||| k))
  | .andi => store m d (a &&& k) (logicFlags status (a &&& k))
  | .ldi => m.set d k

/-- Stores the result of a shift to the right of `a`, whose lowest bit goes to C. -/
def shiftRight (m : Memory) (d : Nat) (a result : UInt8) (overflow : Bool) : Memory :=
  let status := (m.status.put .c (a &&& 1 == 1)).put .v overflow
  store m d result (signFlags status (result == 0) (isNegative result))

/-- Operations on one register. -/
def unary (op : UnaryOp) (d : Nat) (m : Memory) : Memory :=
  let a := m.get d
  let low := a &&& 1 == 1
  let finish (result : UInt8) (status : Status) : Memory :=
    store m d result (signFlags status (result == 0) (isNegative result))
  match op with
  | .com => finish (~~~a) ((m.status.put .c true).put .v false)
  | .neg =>
    let result := 0 - a
    finish result (((m.status.put .h ((result ||| a) &&& 0x08 != 0)).put .v (result == 0x80)).put .c
      (result != 0))
  | .swap => m.set d ((a <<< 4) ||| (a >>> 4))
  | .inc => finish (a + 1) (m.status.put .v (a + 1 == 0x80))
  | .asr =>
    let result := (a >>> 1) ||| (a &&& 0x80)
    shiftRight m d a result (isNegative result != low)
  | .lsr => shiftRight m d a (a >>> 1) low
  | .ror =>
    let result := (a >>> 1) ||| (m.status.carry <<< 7)
    shiftRight m d a result (isNegative result != low)
  | .dec => finish (a - 1) (m.status.put .v (a - 1 == 0x7F))

/-- Operations on a register pair and a constant. -/
def pair (op : PairOp) (d : Nat) (k : UInt16) (m : Memory) : Memory :=
  let a := m.pair d
  let before := a &&& 0x8000 != 0
  let result := match op with
    | .adiw => a + k
    | .sbiw => a - k
  let after := result &&& 0x8000 != 0
  let status := match op with
    | .adiw => (m.status.put .v (!before && after)).put .c (before && !after)
    | .sbiw => (m.status.put .v (before && !after)).put .c (!before && after)
  (m.setPair d result).setStatus (signFlags status (result == 0) after)

end AvrSim.Alu
