import AvrSim.Proofs.Core.Course

/-!
# Accesses that check every index

Memory is total: it reads as zero past its end and ignores what is written there. The functions here are
those of the core with the same names, except that they fail at the first index into the data space or
the flash that is out of range. On a machine whose data space has room for the registers, the I/O
registers and the UART they never fail, so the core does not rely on what memory does past its end.

* `Strict.get` and `Strict.set` are the accesses that fail; all others are made of them.
* `Strict.Fits` is the room that is needed.
* `Strict.read_eq` and `Strict.write_eq`: the accesses of instructions do not fail.
-/

namespace AvrSim.Strict

open Machine (ucsra ucsrb ubrrl ubrrh udr rxc txc udre txen)

/-! ## Memory -/

/-- The byte at an address, which must be in range. -/
def get (m : Memory) (address : Nat) : Option UInt8 :=
  if address < m.size then some (m.get address) else none

/-- The memory with one byte changed, which must be in range. -/
def set (m : Memory) (address : Nat) (value : UInt8) : Option Memory :=
  if address < m.size then some (m.set address value) else none

def status (m : Memory) : Option Status := get m sregAddress

def setStatus (m : Memory) (value : Status) : Option Memory := set m sregAddress value

def flag (m : Memory) (bit : Nat) : Option Bool := do
  return (← status m).get bit

def setFlag (m : Memory) (f : Flag) (value : Bool) : Option Memory := do
  setStatus m ((← status m).put f value)

def getWord (m : Memory) (low high : Nat) : Option UInt16 := do
  return (← get m low).toUInt16 ||| ((← get m high).toUInt16 <<< 8)

def setWord (m : Memory) (low high : Nat) (value : UInt16) : Option Memory := do
  set (← set m low value.toUInt8) high (value >>> 8).toUInt8

def sp (m : Memory) : Option UInt16 := getWord m splAddress sphAddress

def setSp (m : Memory) (value : UInt16) : Option Memory := setWord m splAddress sphAddress value

def pair (m : Memory) (r : Nat) : Option UInt16 := getWord m r (r + 1)

def setPair (m : Memory) (r : Nat) (value : UInt16) : Option Memory := setWord m r (r + 1) value

theorem get_eq {m : Memory} {address : Nat} (h : address < m.size) :
    get m address = some (m.get address) := if_pos h

theorem set_eq {m : Memory} {address : Nat} (h : address < m.size) (value : UInt8) :
    set m address value = some (m.set address value) := if_pos h

/-- A memory with room for the registers, the I/O registers and the UART. -/
def Roomy (m : Memory) : Prop := 0x100 ≤ m.size

theorem Roomy.of_size {m m' : Memory} (h : Roomy m) (hsize : m'.size = m.size) : Roomy m' := by
  unfold Roomy
  rwa [hsize]

section

variable {m : Memory} (h : Roomy m)

include h

theorem Roomy.lt {address : Nat} (ha : address < 0x100) : address < m.size := Nat.lt_of_lt_of_le ha h

theorem status_eq : status m = some m.status := get_eq (h.lt (by decide))

theorem setStatus_eq (value : Status) : setStatus m value = some (m.setStatus value) :=
  set_eq (h.lt (by decide)) value

theorem flag_eq (bit : Nat) : flag m bit = some (m.flag bit) := by
  rw [flag, status_eq h]
  rfl

theorem setFlag_eq (f : Flag) (value : Bool) : setFlag m f value = some (m.setFlag f value) := by
  rw [setFlag, status_eq h]
  exact setStatus_eq h _

theorem getWord_eq {low high : Nat} (hlow : low < 0x100) (hhigh : high < 0x100) :
    getWord m low high = some (m.getWord low high) := by
  rw [getWord, get_eq (h.lt hlow), get_eq (h.lt hhigh)]
  rfl

theorem setWord_eq {low high : Nat} (hlow : low < 0x100) (hhigh : high < 0x100) (value : UInt16) :
    setWord m low high value = some (m.setWord low high value) := by
  rw [setWord, set_eq (h.lt hlow)]
  exact set_eq ((h.of_size (Memory.size_set ..)).lt hhigh) _

theorem sp_eq : sp m = some m.sp := getWord_eq h (by decide) (by decide)

theorem setSp_eq (value : UInt16) : setSp m value = some (m.setSp value) :=
  setWord_eq h (by decide) (by decide) value

theorem pair_eq {r : Nat} (hr : r < 0xFF) : pair m r = some (m.pair r) :=
  getWord_eq h (by omega) (by omega)

theorem setPair_eq {r : Nat} (hr : r < 0xFF) (value : UInt16) :
    setPair m r value = some (m.setPair r value) :=
  setWord_eq h (by omega) (by omega) value

end

/-! ## Arithmetic and logic -/

namespace Alu

open AvrSim.Alu (isNegative signFlags addFlags subFlags logicFlags)

def store (m : Memory) (d : Nat) (result : UInt8) (status : Status) : Option Memory := do
  setStatus (← set m d result) status

def binary (op : BinaryOp) (d r : Nat) (m : Memory) : Option Memory := do
  let a ← get m d
  let b ← get m r
  let status ← status m
  match op with
  | .cpc => setStatus m (subFlags status a b (a - b - status.carry) true)
  | .sbc => store m d (a - b - status.carry) (subFlags status a b (a - b - status.carry) true)
  | .add => store m d (a + b) (addFlags status a b (a + b))
  | .cpse => return m
  | .cp => setStatus m (subFlags status a b (a - b) false)
  | .sub => store m d (a - b) (subFlags status a b (a - b) false)
  | .adc => store m d (a + b + status.carry) (addFlags status a b (a + b + status.carry))
  | .and => store m d (a &&& b) (logicFlags status (a &&& b))
  | .eor => store m d (a ^^^ b) (logicFlags status (a ^^^ b))
  | .or => store m d (a ||| b) (logicFlags status (a ||| b))
  | .mov => set m d b
  | .mul =>
    let product := a.toUInt16 * b.toUInt16
    setStatus (← setPair m 0 product)
      ((status.put .c (product &&& 0x8000 != 0)).put .z (product == 0))

def immediate (op : ImmediateOp) (d : Nat) (k : UInt8) (m : Memory) : Option Memory := do
  let a ← get m d
  let status ← status m
  match op with
  | .cpi => setStatus m (subFlags status a k (a - k) false)
  | .sbci => store m d (a - k - status.carry) (subFlags status a k (a - k - status.carry) true)
  | .subi => store m d (a - k) (subFlags status a k (a - k) false)
  | .ori => store m d (a ||| k) (logicFlags status (a ||| k))
  | .andi => store m d (a &&& k) (logicFlags status (a &&& k))
  | .ldi => set m d k

def shiftRight (m : Memory) (d : Nat) (a result : UInt8) (overflow : Bool) : Option Memory := do
  let status := ((← status m).put .c (a &&& 1 == 1)).put .v overflow
  store m d result (signFlags status (result == 0) (isNegative result))

def unary (op : UnaryOp) (d : Nat) (m : Memory) : Option Memory := do
  let a ← get m d
  let status ← status m
  let low := a &&& 1 == 1
  let finish (result : UInt8) (status : Status) : Option Memory :=
    store m d result (signFlags status (result == 0) (isNegative result))
  match op with
  | .com => finish (~~~a) ((status.put .c true).put .v false)
  | .neg =>
    let result := 0 - a
    finish result (((status.put .h ((result ||| a) &&& 0x08 != 0)).put .v (result == 0x80)).put .c
      (result != 0))
  | .swap => set m d ((a <<< 4) ||| (a >>> 4))
  | .inc => finish (a + 1) (status.put .v (a + 1 == 0x80))
  | .asr =>
    let result := (a >>> 1) ||| (a &&& 0x80)
    shiftRight m d a result (isNegative result != low)
  | .lsr => shiftRight m d a (a >>> 1) low
  | .ror =>
    let result := (a >>> 1) ||| (status.carry <<< 7)
    shiftRight m d a result (isNegative result != low)
  | .dec => finish (a - 1) (status.put .v (a - 1 == 0x7F))

def pair (op : PairOp) (d : Nat) (k : UInt16) (m : Memory) : Option Memory := do
  let a ← Strict.pair m d
  let before := a &&& 0x8000 != 0
  let result := match op with
    | .adiw => a + k
    | .sbiw => a - k
  let after := result &&& 0x8000 != 0
  let status ← status m
  let status := match op with
    | .adiw => (status.put .v (!before && after)).put .c (before && !after)
    | .sbiw => (status.put .v (before && !after)).put .c (!before && after)
  setStatus (← setPair m d result) (signFlags status (result == 0) after)

section

variable {m : Memory} (h : Roomy m) {d r : Nat}

include h

theorem store_eq (hd : d < 0x100) (result : UInt8) (status : Status) :
    store m d result status = some (AvrSim.Alu.store m d result status) := by
  rw [store, set_eq (h.lt hd)]
  exact setStatus_eq (h.of_size (Memory.size_set ..)) status

theorem binary_eq (op : BinaryOp) (hd : d < 0x100) (hr : r < 0x100) :
    binary op d r m = some (AvrSim.Alu.binary op d r m) := by
  have hmul := fun value => setStatus_eq (h.of_size (Memory.size_setPair m 0 value))
  have hpair := setPair_eq h (r := 0) (by decide)
  rw [binary, get_eq (h.lt hd), get_eq (h.lt hr), status_eq h]
  cases op <;> simp [AvrSim.Alu.binary, setStatus_eq h, store_eq h hd, set_eq (h.lt hd), hpair, hmul]

theorem immediate_eq (op : ImmediateOp) (hd : d < 0x100) (k : UInt8) :
    immediate op d k m = some (AvrSim.Alu.immediate op d k m) := by
  rw [immediate, get_eq (h.lt hd), status_eq h]
  cases op <;> simp [AvrSim.Alu.immediate, setStatus_eq h, store_eq h hd, set_eq (h.lt hd)]

theorem shiftRight_eq (hd : d < 0x100) (a result : UInt8) (overflow : Bool) :
    shiftRight m d a result overflow = some (AvrSim.Alu.shiftRight m d a result overflow) := by
  rw [shiftRight, status_eq h]
  exact store_eq h hd _ _

theorem unary_eq (op : UnaryOp) (hd : d < 0x100) :
    unary op d m = some (AvrSim.Alu.unary op d m) := by
  rw [unary, get_eq (h.lt hd), status_eq h]
  cases op <;> simp [AvrSim.Alu.unary, store_eq h hd, set_eq (h.lt hd), shiftRight_eq h hd]

theorem pair_eq (op : PairOp) (hd : d < 0xFF) (k : UInt16) :
    pair op d k m = some (AvrSim.Alu.pair op d k m) := by
  have hset := fun value => setStatus_eq (h.of_size (Memory.size_setPair m d value))
  rw [pair, Strict.pair_eq h hd, status_eq h]
  cases op <;> simp [AvrSim.Alu.pair, setPair_eq h hd, hset]

end

end Alu

/-! ## Accesses -/

/-- A machine whose data space has room for what the core uses without looking at the size. -/
structure Fits (m : Machine) : Prop where
  data : Roomy m.data
  uart : m.model.uart.base.toNat + udr < 0x100

namespace Fits

variable {m m' : Machine}

theorem of_eq (h : Fits m) (hmodel : m'.model = m.model) (hsize : m'.data.size = m.data.size) :
    Fits m' where
  data := h.data.of_size hsize
  uart := by rw [hmodel]; exact h.uart

theorem access (h : Fits m) (ha : Core.Access m.toCore m'.toCore) : Fits m' :=
  h.of_eq ha.model ha.size

theorem course (h : Fits m) (hcourse : Machine.Course m m') : Fits m' :=
  h.of_eq (Machine.stays_course hcourse).model (Machine.stays_course hcourse).size

theorem uartAddress_lt (h : Fits m) {offset : Nat} (ho : offset ≤ udr) :
    m.uartAddress offset < m.data.size := by
  have hbase := h.uart
  exact h.data.lt (by unfold Machine.uartAddress; omega)

end Fits

def onData (f : Memory → Option Memory) (m : Machine) : Option Machine := do
  return { m with data := ← f m.data }

def uartStatus (m : Machine) : Option UInt8 := do
  let kept := ((← get m.data (m.uartAddress ucsra)) &&& ~~~(rxc ||| txc)) ||| udre
  let kept := if m.uart.pending.isEmpty then kept else kept ||| rxc
  return if m.uart.transmitted then kept ||| txc else kept

def refreshStatus (m : Machine) : Option Machine := do
  return { m with data := ← set m.data (m.uartAddress ucsra) (← uartStatus m) }

def uartRead (m : Machine) (offset : Nat) : Option (UInt8 × Machine) := do
  if offset = ucsra then return (← uartStatus m, m)
  else if offset = udr then return m.receivedByte
  else return (← get m.data (m.uartAddress offset), m)

def reportRate (m : Machine) : Option Machine := do
  let rate := (← get m.data (m.uartAddress ubrrl)).toNat +
    (← get m.data (m.uartAddress ubrrh)).toNat % 16 * 256
  if m.frequency = 0 then return m
  else
    return m.onCore fun core => core.report .debug "uart baud rate"
      [core.uartName, ("baud", .number (core.frequency.toNat / (16 * (rate + 1)) : Nat))]

def transmit (value : UInt8) (m : Machine) : Option Machine := do
  let m ← refreshStatus { m with uart := { m.uart with transmitted := true } }
  return m.raise (m.lineOf .output) value.toUInt32

def send (m : Machine) (value : UInt8) : Option Machine := do
  if (← get m.data (m.uartAddress ucsrb)) &&& txen == 0 then
    transmit value (m.onCore fun core =>
      core.report .debug "uart write with transmitter disabled" [core.uartName])
  else transmit value m

def uartWrite (m : Machine) (offset : Nat) (value : UInt8) : Option Machine :=
  if offset = ucsra then
    let m :=
      if value &&& txc != 0 then { m with uart := { m.uart with transmitted := false } } else m
    refreshStatus m
  else if offset = ubrrl || offset = ubrrh then reportRate m
  else if offset = udr then send m value
  else some m

def update (address : UInt16) (m : Machine) : Option Machine :=
  match m.uartOffset? address with
  | none => some m
  | some offset => do
    let (value, m) ← uartRead m offset
    onData (set · address.toNat value) m

def forward (address : UInt16) (value : UInt8) (m : Machine) : Option Machine :=
  match m.uartOffset? address with
  | none => some m
  | some offset => uartWrite m offset value

def read (m : Machine) (address : UInt16) : Option (UInt8 × Machine) := do
  if address.toNat < m.data.size then
    let m ← update address m
    let value ← get m.data address.toNat
    return (value, m.noted (.read address value))
  else
    return (0, m.onCore fun core =>
      core.crash "data read out of range" "addr" (Core.shownAddress 4 address.toNat))

def write (m : Machine) (address : UInt16) (value : UInt8) : Option Machine := do
  if address.toNat < m.data.size then
    let m ← forward address value (← onData (set · address.toNat value) m)
    return m.noted (.write address (← get m.data address.toNat))
  else
    return m.onCore fun core =>
      core.crash "data write out of range" "addr" (Core.shownAddress 4 address.toNat)

def push (m : Machine) (value : UInt8) : Option Machine := do
  let sp ← sp m.data
  onData (setSp · (sp - 1)) (← write m sp value)

def pop (m : Machine) : Option (UInt8 × Machine) := do
  let sp ← sp m.data
  read (← onData (setSp · (sp + 1)) m) (sp + 1)

def pushAddress (m : Machine) (address : UInt32) : Option Machine := do
  push (← push m address.toUInt8) (address >>> 8).toUInt8

def popAddress (m : Machine) : Option (UInt32 × Machine) := do
  let (high, m) ← pop m
  let (low, m) ← pop m
  return ((high.toUInt32 <<< 8) ||| low.toUInt32, m)

section Accesses

theorem onData_set {m : Machine} {address : Nat} (ha : address < m.data.size) (value : UInt8) :
    onData (set · address value) m = some (m.onData (·.set address value)) := by
  rw [onData, set_eq ha]
  rfl

theorem onData_setSp {m : Machine} (h : Roomy m.data) (value : UInt16) :
    onData (setSp · value) m = some (m.onData (·.setSp value)) := by
  rw [onData, setSp_eq h]
  rfl

theorem uartOffset?_le {m : Machine} {address : UInt16} {offset : Nat}
    (ho : m.uartOffset? address = some offset) : offset ≤ udr := by
  unfold Machine.uartOffset? at ho
  dsimp only at ho
  split at ho
  · cases ho
    omega
  · cases ho

variable {m : Machine} (h : Fits m)

include h

theorem uartStatus_eq : uartStatus m = some m.uartStatus := by
  rw [uartStatus, get_eq (h.uartAddress_lt (by decide))]
  rfl

theorem refreshStatus_eq : refreshStatus m = some m.refreshStatus := by
  have hset := set_eq (h.uartAddress_lt (show ucsra ≤ udr by decide)) m.uartStatus
  simp only [refreshStatus, uartStatus_eq h, Option.bind_eq_bind, Option.bind_some, hset]
  rfl

theorem uartRead_eq {offset : Nat} (ho : offset ≤ udr) :
    uartRead m offset = some (m.uartRead offset) := by
  unfold uartRead Machine.uartRead
  split
  · rw [uartStatus_eq h]
    rfl
  · split
    · rfl
    · rw [get_eq (h.uartAddress_lt ho)]
      rfl

theorem reportRate_eq : reportRate m = some m.reportRate := by
  have hlow : m.uartAddress ubrrl < m.data.size := h.uartAddress_lt (by decide)
  have hhigh : m.uartAddress ubrrh < m.data.size := h.uartAddress_lt (by decide)
  rw [reportRate, get_eq hlow, get_eq hhigh]
  simp only [Option.bind_eq_bind, Option.bind_some, Machine.reportRate]
  split <;> rfl

theorem transmit_eq (value : UInt8) : transmit value m = some (m.transmit value) := by
  have hm : Fits { m with uart := { m.uart with transmitted := true } } := h.of_eq rfl rfl
  rw [transmit, refreshStatus_eq hm]
  rfl

theorem send_eq (value : UInt8) : send m value = some (m.send value) := by
  rw [send, get_eq (h.uartAddress_lt (by decide)), Machine.send_eq]
  simp only [Option.bind_eq_bind, Option.bind_some]
  split
  · have hreported : Fits (m.onCore fun core =>
        core.report .debug "uart write with transmitter disabled" [core.uartName]) :=
      h.of_eq rfl rfl
    exact transmit_eq hreported value
  · exact transmit_eq h value

theorem uartWrite_eq (offset : Nat) (value : UInt8) :
    uartWrite m offset value = some (m.uartWrite offset value) := by
  unfold uartWrite Machine.uartWrite
  split
  · dsimp only
    split
    · exact refreshStatus_eq (h.of_eq rfl rfl)
    · exact refreshStatus_eq h
  · split
    · exact reportRate_eq h
    · split
      · exact send_eq h value
      · rfl

theorem update_eq {address : UInt16} (haddress : address.toNat < m.data.size) :
    update address m = some (m.update address) := by
  unfold update Machine.update
  cases ho : m.uartOffset? address with
  | none => rfl
  | some offset =>
    have hsize := (Machine.access_uartRead m offset).size
    dsimp only
    rw [uartRead_eq h (uartOffset?_le ho)]
    generalize m.uartRead offset = result at hsize
    exact onData_set (by rwa [hsize]) result.1

theorem forward_eq (address : UInt16) (value : UInt8) :
    forward address value m = some (m.forward address value) := by
  unfold forward Machine.forward
  cases m.uartOffset? address with
  | none => rfl
  | some offset => exact uartWrite_eq h offset value

omit h in
theorem size_update (address : UInt16) : (m.update address).data.size = m.data.size := by
  unfold Machine.update
  split
  · rfl
  · exact (Memory.size_set ..).trans (Machine.access_uartRead m _).size

omit h in
theorem size_forward (address : UInt16) (value : UInt8) :
    (m.forward address value).data.size = m.data.size := by
  unfold Machine.forward
  split
  · rfl
  · exact (Machine.access_uartWrite m _ value).size

theorem read_eq (address : UInt16) : read m address = some (m.read address) := by
  rw [Machine.read_eq]
  unfold read
  split
  · rename_i hlt
    rw [update_eq h hlt]
    simp only [Option.bind_eq_bind, Option.bind_some, get_eq (size_update address ▸ hlt)]
    rfl
  · rfl

theorem write_eq (address : UInt16) (value : UInt8) :
    write m address value = some (m.write address value) := by
  rw [Machine.write_eq]
  unfold write
  split
  · rename_i hlt
    have hstored : Fits (m.onData (·.set address.toNat value)) := h.of_eq rfl (Memory.size_set ..)
    have hget : address.toNat <
        ((m.onData (·.set address.toNat value)).forward address value).data.size := by
      rw [size_forward]
      exact Nat.lt_of_lt_of_eq hlt (Memory.size_set ..).symm
    rw [onData_set hlt]
    simp only [Option.bind_eq_bind, Option.bind_some, forward_eq hstored, get_eq hget]
    rfl
  · rfl

theorem push_eq (value : UInt8) : push m value = some (m.push value) := by
  have hwritten := h.access (Machine.access_write m m.data.sp value)
  rw [push, sp_eq h.data]
  simp only [Option.bind_eq_bind, Option.bind_some, write_eq h]
  exact onData_setSp hwritten.data _

theorem pop_eq : pop m = some m.pop := by
  have hmoved : Fits (m.onData (·.setSp (m.data.sp + 1))) := h.of_eq rfl (Memory.size_setSp ..)
  rw [pop, sp_eq h.data]
  simp only [Option.bind_eq_bind, Option.bind_some, onData_setSp h.data]
  exact read_eq hmoved _

theorem pushAddress_eq (address : UInt32) : pushAddress m address = some (m.pushAddress address) := by
  have hpushed := h.access (Machine.access_push m address.toUInt8)
  rw [pushAddress, push_eq h, Option.bind_eq_bind, Option.bind_some, push_eq hpushed,
    Machine.pushAddress]

theorem popAddress_eq : popAddress m = some m.popAddress := by
  have hpopped := h.access (Machine.access_pop m)
  rw [popAddress, Machine.popAddress, pop_eq h]
  generalize m.pop = popped at hpopped
  simp only [Option.bind_eq_bind, Option.bind_some, pop_eq hpopped]
  rfl

end Accesses

end AvrSim.Strict
