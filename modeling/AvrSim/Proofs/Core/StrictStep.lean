import AvrSim.Proofs.Core.Strict

/-!
# Steps that check every index

Instructions and steps whose accesses to the data space and the flash fail out of range. They are the
functions of the core with the same names, and on a machine with the room that the core needs they never
fail.

* `Strict.perform_eq` for each instruction, `Strict.step_eq` for a step.
-/

namespace AvrSim.Strict

open Machine (ucsrb rxcie txcie udrie)

/-! ## Instructions -/

def fetch (m : Machine) (pc : UInt32) : Option (UInt16 × Machine) := do
  if pc.toNat + 1 < m.flash.size then
    return ((← get m.flash pc.toNat).toUInt16 |||
      ((← get m.flash (pc.toNat + 1)).toUInt16 <<< 8), m)
  else
    return (0, m.onCore fun core =>
      core.crash "fetch out of flash" "addr" (Core.shownAddress 5 pc.toNat))

def programByte (m : Machine) (address : UInt16) : Option (UInt8 × Machine) := do
  let m := { m with cycle := m.cycle + 2 }
  if address.toNat < m.flash.size then return (← get m.flash address.toNat, m)
  else
    return (0, m.onCore fun core =>
      core.crash "program memory read out of range" "addr" (Core.shownAddress 5 address.toNat))

def skip (m : Machine) : Option Machine := do
  let (next, m) ← fetch m m.program
  if isLong next then return { m with program := m.program + 4, cycle := m.cycle + 2 }
  else return { m with program := m.program + 2, cycle := m.cycle + 1 }

def indirectAddress (mode : Indirect) (m : Machine) : Option (UInt16 × Machine) := do
  let r := Machine.pointerRegister (Machine.indirectPointer mode)
  let pointer ← pair m.data r
  let m := m.spend 1
  match mode with
  | .x => return (pointer, m)
  | .xInc | .yInc | .zInc => return (pointer, ← onData (setPair · r (pointer + 1)) m)
  | .xDec | .yDec | .zDec => return (pointer - 1, ← onData (setPair · r (pointer - 1)) m)

def displacedAddress (y : Bool) (q : Fin 64) (m : Machine) : Option UInt16 := do
  return (← pair m.data (Machine.pointerRegister (if y then .y else .z))) + UInt16.ofNat q.val

def load (d : Nat) (result : UInt8 × Machine) : Option Machine :=
  onData (set · d result.1) result.2

def sleep (m : Machine) : Option Machine := do
  if ← flag m.data Flag.i.val then
    return { m.onCore (·.report .debug "sleeping" []) with run := .sleeping }
  else
    return { m.onCore (·.report .info "sleeping with interrupts off, quitting gracefully" []) with
      run := .done }

def relativeJump (k : Fin 4096) (m : Machine) : Option Machine := do
  let offset := Machine.signed 2048 k.val
  if offset = -1 && !(← flag m.data Flag.i.val) then
    return { m.onCore (·.report .info "infinite loop with interrupts off, quitting gracefully" [])
      with program := m.program - 2, run := .done }
  else return (m.branch offset).spend 1

def callTo (target : UInt32) (m : Machine) : Option Machine := do
  return (← pushAddress m m.returnAddress).goto target

def returnFrom (m : Machine) : Option Machine := do
  let (address, m) ← popAddress m
  return (m.goto (address <<< 1)).spend 3

def performIoBit (op : IoBitOp) (a : Fin 32) (b : Fin 8) (m : Machine) : Option Machine := do
  let address := Machine.ioAddress a.val
  let (value, m) ← read m address
  match op with
  | .cbi => return (← write m address (Machine.withBit value b false)).spend 1
  | .sbi => return (← write m address (Machine.withBit value b true)).spend 1
  | .sbic => if Machine.hasBit value b then return m else skip m
  | .sbis => if Machine.hasBit value b then skip m else return m

def performRegBit (op : RegBitOp) (r : Fin 32) (b : Fin 8) (m : Machine) : Option Machine := do
  let value ← get m.data r.val
  match op with
  | .bld =>
    onData (fun data => do
      set data r.val (Machine.withBit value b (← flag data Flag.t.val))) m
  | .bst => onData (setFlag · .t (Machine.hasBit value b)) m
  | .sbrc => if Machine.hasBit value b then return m else skip m
  | .sbrs => if Machine.hasBit value b then skip m else return m

def perform (m : Machine) : Instr → Option Machine
  | .nop => some m
  | .ret => returnFrom m
  | .reti => do
    let m ← onData (setFlag · .i true) (← returnFrom m)
    return { m with interruptDelay := true }
  | .sleep => sleep m
  | .breakpoint => some (if m.probed then { m with run := .stopped } else m)
  | .wdr => some m
  | .ijmp => do return (m.goto ((← pair m.data 30).toUInt32 <<< 1)).spend 1
  | .icall => do
    let m ← pushAddress m m.returnAddress
    return (m.goto ((← pair m.data 30).toUInt32 <<< 1)).spend 2
  | .lpmZero => do load 0 (← programByte m (← pair m.data 30))
  | .movw d r =>
    onData (fun data => do
      let data ← set data (2 * d.val) (← get data (2 * r.val))
      set data (2 * d.val + 1) (← get data (2 * r.val + 1))) m
  | .binary .cpse d r => do
    if (← get m.data d.val) == (← get m.data r.val) then skip m else return m
  | .binary .mul d r => do return (← onData (Alu.binary .mul d.val r.val) m).spend 1
  | .binary op d r => onData (Alu.binary op d.val r.val) m
  | .immediate op d k => onData (Alu.immediate op (16 + d.val) k) m
  | .unary op d => onData (Alu.unary op d.val) m
  | .pair op d k => do
    return (← onData (Alu.pair op (24 + 2 * d.val) (UInt16.ofNat k.val)) m).spend 1
  | .push r => do return (← push m (← get m.data r.val)).spend 1
  | .pop d => do return (← load d.val (← pop m)).spend 1
  | .ldd d y q => do
    let address ← displacedAddress y q m
    load d.val (← read (m.spend 1) address)
  | .std y q r => do
    let address ← displacedAddress y q m
    write (m.spend 1) address (← get m.data r.val)
  | .ld d mode => do
    let (address, m) ← indirectAddress mode m
    load d.val (← read m address)
  | .st mode r => do
    let value ← get m.data r.val
    let (address, m) ← indirectAddress mode m
    write m address value
  | .lds d address => do load d.val (← read (m.spend 1) address)
  | .sts address r => do write (m.spend 1) address (← get m.data r.val)
  | .lpm d inc => do
    let pointer ← pair m.data 30
    let m ← load d.val (← programByte m pointer)
    if inc then onData (setPair · 30 (pointer + 1)) m else return m
  | .input d a => do load d.val (← read m (Machine.ioAddress a.val))
  | .output a r => do write m (Machine.ioAddress a.val) (← get m.data r.val)
  | .rjmp k => relativeJump k m
  | .rcall k => do
    return ((← pushAddress m m.returnAddress).branch (Machine.signed 2048 k.val)).spend 2
  | .jmp k => some ((m.goto (Machine.longTarget k)).spend 2)
  | .call k => do return (← callTo (Machine.longTarget k) m).spend 3
  | .branch s set k => do
    if (← flag m.data s.val) == set then return (m.branch (Machine.signed 64 k.val)).spend 1
    else return m
  | .bset s => do
    let m ← onData (setFlag · s true) m
    return if s = Flag.i then { m with interruptDelay := true } else m
  | .bclr s => onData (setFlag · s false) m
  | .ioBit op a b => performIoBit op a b m
  | .regBit op r b => performRegBit op r b m

section Instructions

theorem onData_setFlag {m : Machine} (h : Roomy m.data) (f : Flag) (value : Bool) :
    onData (setFlag · f value) m = some (m.onData (·.setFlag f value)) := by
  rw [onData, setFlag_eq h]
  rfl

theorem onData_setPair {m : Machine} (h : Roomy m.data) {r : Nat} (hr : r < 0xFF) (value : UInt16) :
    onData (setPair · r value) m = some (m.onData (·.setPair r value)) := by
  rw [onData, setPair_eq h hr]
  rfl

theorem fetch_eq (m : Machine) (pc : UInt32) : fetch m pc = some (m.fetch pc) := by
  unfold fetch Machine.fetch
  split
  · rename_i hpc
    rw [get_eq (Nat.lt_of_succ_lt hpc), get_eq hpc]
    rfl
  · rfl

theorem programByte_eq (m : Machine) (address : UInt16) :
    programByte m address = some (m.programByte address) := by
  unfold programByte Machine.programByte
  dsimp only
  split
  · rename_i haddress
    rw [get_eq haddress]
    rfl
  · rfl

theorem skip_eq (m : Machine) : skip m = some m.skip := by
  unfold skip Machine.skip
  rw [fetch_eq]
  generalize m.fetch m.program = fetched
  simp only [Option.bind_eq_bind, Option.bind_some]
  split <;> rfl

theorem load_eq {d : Nat} (hd : d < 0x100) {result : UInt8 × Machine} (hresult : Fits result.2) :
    load d result = some (Machine.load d result) :=
  onData_set (hresult.data.lt hd) result.1

theorem pointerRegister_lt (p : Pointer) : Machine.pointerRegister p < 0xFF := by
  cases p <;> decide

variable {m : Machine} (h : Fits m)

include h

theorem indirectAddress_eq (mode : Indirect) :
    indirectAddress mode m = some (m.indirectAddress mode) := by
  have hspent : Roomy (m.spend 1).data := h.data
  unfold indirectAddress Machine.indirectAddress
  dsimp only
  rw [pair_eq h.data (pointerRegister_lt _)]
  cases mode <;>
    simp [onData_setPair hspent (pointerRegister_lt _)]

theorem displacedAddress_eq (y : Bool) (q : Fin 64) :
    displacedAddress y q m = some (m.displacedAddress y q) := by
  rw [displacedAddress, pair_eq h.data (pointerRegister_lt _)]
  rfl

theorem sleep_eq : sleep m = some m.sleep := by
  rw [sleep, flag_eq h.data, Machine.sleep]
  simp only [Option.bind_eq_bind, Option.bind_some]
  split <;> rfl

theorem relativeJump_eq (k : Fin 4096) : relativeJump k m = some (m.relativeJump k) := by
  rw [relativeJump, flag_eq h.data, Machine.relativeJump]
  simp only [Option.bind_eq_bind, Option.bind_some]
  split <;> rfl

theorem callTo_eq (target : UInt32) : callTo target m = some (m.callTo target) := by
  rw [callTo, pushAddress_eq h]
  rfl

theorem returnFrom_eq : returnFrom m = some m.returnFrom := by
  rw [returnFrom, popAddress_eq h, Machine.returnFrom]
  generalize m.popAddress = popped
  rfl

theorem performIoBit_eq (op : IoBitOp) (a : Fin 32) (b : Fin 8) :
    performIoBit op a b m = some (m.performIoBit op a b) := by
  have hread := h.access (Machine.access_read m (Machine.ioAddress a.val))
  unfold performIoBit Machine.performIoBit
  dsimp only
  rw [read_eq h]
  generalize m.read (Machine.ioAddress a.val) = result at hread
  cases op <;> simp only [Option.bind_eq_bind, Option.bind_some, write_eq hread, skip_eq]
  case sbic => split <;> rfl
  case sbis => split <;> rfl
  all_goals rfl

theorem performRegBit_eq (op : RegBitOp) (r : Fin 32) (b : Fin 8) :
    performRegBit op r b m = some (m.performRegBit op r b) := by
  have hr : r.val < m.data.size := h.data.lt (by omega)
  unfold performRegBit Machine.performRegBit
  rw [get_eq hr]
  cases op <;> simp only [Option.bind_eq_bind, Option.bind_some, skip_eq]
  case bld =>
    rw [onData, flag_eq h.data, Option.bind_some, set_eq hr]
    rfl
  case bst => exact onData_setFlag h.data _ _
  case sbrc => split <;> rfl
  case sbrs => split <;> rfl

theorem binary_eq {op : BinaryOp} (hop : op ≠ .cpse) (d r : Fin 32) :
    perform m (.binary op d r) = some (m.perform (.binary op d r)) := by
  have hdata : onData (Alu.binary op d.val r.val) m =
      some (m.onData (AvrSim.Alu.binary op d.val r.val)) := by
    rw [onData, Alu.binary_eq h.data op (by omega) (by omega)]
    rfl
  cases op with
  | cpse => exact absurd rfl hop
  | mul =>
    simp only [perform, hdata]
    rfl
  | _ => exact hdata

theorem perform_eq (instr : Instr) : perform m instr = some (m.perform instr) := by
  have hregister : ∀ r : Fin 32, r.val < m.data.size := fun r => h.data.lt (by omega)
  have hspent : Fits (m.spend 1) := h.of_eq rfl rfl
  cases instr with
  | nop => rfl
  | ret => exact returnFrom_eq h
  | reti =>
    have hreturned := h.course (Machine.still_returnFrom m).course
    simp only [perform, returnFrom_eq h, Option.bind_eq_bind, Option.bind_some,
      onData_setFlag hreturned.data]
    rfl
  | sleep => exact sleep_eq h
  | breakpoint => rfl
  | wdr => rfl
  | ijmp =>
    simp only [perform, pair_eq h.data (show 30 < 0xFF by decide)]
    rfl
  | icall =>
    have hpushed := h.access (Machine.access_pushAddress m m.returnAddress)
    simp only [perform, pushAddress_eq h, Option.bind_eq_bind, Option.bind_some,
      pair_eq hpushed.data (show 30 < 0xFF by decide)]
    rfl
  | lpmZero =>
    have hbyte := h.course (Machine.still_programByte m (m.data.pair 30)).course
    simp only [perform, pair_eq h.data (show 30 < 0xFF by decide), Option.bind_eq_bind,
      Option.bind_some, programByte_eq]
    exact load_eq (by decide) hbyte
  | movw d r =>
    have hlow := h.data.of_size (Memory.size_set m.data (2 * d.val) (m.data.get (2 * r.val)))
    simp only [perform, onData, get_eq (h.data.lt (show 2 * r.val < 0x100 by omega)),
      set_eq (h.data.lt (show 2 * d.val < 0x100 by omega)), Option.bind_eq_bind, Option.bind_some,
      get_eq (hlow.lt (show 2 * r.val + 1 < 0x100 by omega)),
      set_eq (hlow.lt (show 2 * d.val + 1 < 0x100 by omega))]
    rfl
  | binary op d r =>
    by_cases hop : op = .cpse
    · subst hop
      simp only [perform, get_eq (hregister d), get_eq (hregister r), Option.bind_eq_bind,
        Option.bind_some, skip_eq, Machine.perform]
      split <;> rfl
    · exact binary_eq h hop d r
  | immediate op d k =>
    simp only [perform, onData, Alu.immediate_eq h.data op (show 16 + d.val < 0x100 by omega)]
    rfl
  | unary op d =>
    simp only [perform, onData, Alu.unary_eq h.data op (show d.val < 0x100 by omega)]
    rfl
  | pair op d k =>
    simp only [perform, onData, Alu.pair_eq h.data op (show 24 + 2 * d.val < 0xFF by omega)]
    rfl
  | push r =>
    simp only [perform, get_eq (hregister r), Option.bind_eq_bind, Option.bind_some, push_eq h]
    rfl
  | pop d =>
    have hpopped := h.access (Machine.access_pop m)
    simp only [perform, pop_eq h, Option.bind_eq_bind, Option.bind_some,
      load_eq (show d.val < 0x100 by omega) hpopped]
    rfl
  | ldd d y q =>
    have hread := hspent.access (Machine.access_read _ (m.displacedAddress y q))
    simp only [perform, displacedAddress_eq h, Option.bind_eq_bind, Option.bind_some, read_eq hspent]
    exact load_eq (show d.val < 0x100 by omega) hread
  | std y q r =>
    simp only [perform, displacedAddress_eq h, Option.bind_eq_bind, Option.bind_some,
      get_eq (hregister r)]
    exact write_eq hspent _ _
  | ld d mode =>
    have hmoved := h.course (Machine.still_indirectAddress m mode).course
    simp only [perform, indirectAddress_eq h, Option.bind_eq_bind, Option.bind_some, read_eq hmoved]
    exact load_eq (show d.val < 0x100 by omega) (hmoved.access (Machine.access_read _ _))
  | st mode r =>
    have hmoved := h.course (Machine.still_indirectAddress m mode).course
    simp only [perform, get_eq (hregister r), indirectAddress_eq h, Option.bind_eq_bind,
      Option.bind_some]
    exact write_eq hmoved _ _
  | lds d address =>
    have hread := hspent.access (Machine.access_read _ address)
    simp only [perform, Option.bind_eq_bind, Option.bind_some, read_eq hspent]
    exact load_eq (show d.val < 0x100 by omega) hread
  | sts address r =>
    simp only [perform, Option.bind_eq_bind, Option.bind_some, get_eq (hregister r)]
    exact write_eq hspent _ _
  | lpm d inc =>
    have hbyte := h.course (Machine.still_programByte m (m.data.pair 30)).course
    have hloaded := hbyte.course (Machine.still_load d.val _).course
    simp only [perform, pair_eq h.data (show 30 < 0xFF by decide), Option.bind_eq_bind,
      Option.bind_some, programByte_eq, load_eq (show d.val < 0x100 by omega) hbyte,
      onData_setPair hloaded.data (show 30 < 0xFF by decide), Machine.perform]
    split <;> rfl
  | input d a =>
    have hread := h.access (Machine.access_read m (Machine.ioAddress a.val))
    simp only [perform, Option.bind_eq_bind, Option.bind_some, read_eq h]
    exact load_eq (show d.val < 0x100 by omega) hread
  | output a r =>
    simp only [perform, Option.bind_eq_bind, Option.bind_some, get_eq (hregister r)]
    exact write_eq h _ _
  | rjmp k => exact relativeJump_eq h k
  | rcall k =>
    simp only [perform, pushAddress_eq h]
    rfl
  | jmp k => rfl
  | call k =>
    simp only [perform, callTo_eq h]
    rfl
  | branch s set k =>
    simp only [perform, flag_eq h.data, Option.bind_eq_bind, Option.bind_some, Machine.perform]
    split <;> rfl
  | bset s =>
    simp only [perform, onData_setFlag h.data, Machine.perform]
    rfl
  | bclr s => exact onData_setFlag h.data s false
  | ioBit op a b => exact performIoBit_eq h op a b
  | regBit op r b => exact performRegBit_eq h op r b

end Instructions

/-! ## Steps -/

def traceStep (w : UInt16) (m : Machine) : Option Machine := do
  if m.journal.keeps .trace then
    let status ← status m.data
    return m.onCore fun core => core.report .trace "step"
      [core.shownProgram, ("op", .ofString (Text.hex 4 w.toNat)),
        ("sreg", .ofString (Text.digits 2 8 status.toNat))]
  else return m

def advanced (w : UInt16) (m : Machine) : Option Machine := do
  let m ← traceStep w m
  return { m with program := m.program + 2, cycle := m.cycle + 1 }

def fetchExtension (m : Machine) (w : UInt16) : Option (UInt16 × Machine) := do
  if isLong w then
    let (ext, m) ← fetch m m.program
    return (ext, { m with program := m.program + 2 })
  else return (0, m)

def dispatch (w : UInt16) (m : Machine) : Option Machine := do
  let (ext, m) ← fetchExtension (← advanced w m) w
  match Instr.decode w ext with
  | some instr => perform m instr
  | none => return m.illegal w

def execute (m : Machine) : Option Machine := do
  if m.codeEnd < m.program then
    return m.onCore fun core =>
      core.crash "execution past code end" "codeend" (Core.shownAddress 5 core.codeEnd.toNat)
  else
    let (w, m) ← fetch m m.program
    if m.run ≠ .running then return m else dispatch w m

def pendingVector (m : Machine) : Option (Option Nat) := do
  let control ← get m.data (m.uartAddress ucsrb)
  let config := m.model.uart
  if control &&& rxcie != 0 && !m.uart.pending.isEmpty then return some config.receiveVector
  else if control &&& udrie != 0 then return some config.emptyVector
  else if control &&& txcie != 0 && m.uart.transmitted then return some config.transmitVector
  else return none

def stackReturn (vector : Nat) (m : Machine) : Option Machine :=
  let m := (m.acknowledge vector).onCore (·.report .debug "interrupt" [("vector", .number vector)])
  pushAddress m m.returnAddress

def vectored (vector : Nat) (m : Machine) : Option Machine := do
  let m ← onData (setFlag · .i false) m
  return { m with
    program := UInt32.ofNat (vector * m.model.vectorSize)
    cycle := m.cycle + 4
    run := .running }

def enterInterrupt (m : Machine) (vector : Nat) : Option Machine := do
  vectored vector (← stackReturn vector m)

def serviceInterrupts (m : Machine) : Option Machine := do
  if m.interruptDelay then return { m with interruptDelay := false }
  else if ← flag m.data Flag.i.val then
    match ← pendingVector m with
    | some vector => enterInterrupt m vector
    | none => return m
  else return m

/-- A step that fails at an index out of range. -/
def step (m : Machine) : Option Machine := do
  match m.run with
  | .done | .crashed => return m
  | .stopped => return if m.probed then m else { m with run := .running }
  | .sleeping => serviceInterrupts { m with cycle := m.cycle + 1 }
  | _ =>
    let m ← execute m
    if m.run = .running then serviceInterrupts m else return m

section Steps

theorem fetchExtension_eq (m : Machine) (w : UInt16) :
    fetchExtension m w = some (m.fetchExtension w) := by
  unfold fetchExtension Machine.fetchExtension
  split
  · rw [fetch_eq]
    rfl
  · rfl

variable {m : Machine} (h : Fits m)

include h

theorem advanced_eq (w : UInt16) : advanced w m = some (m.advanced w) := by
  have htrace : traceStep w m = some (m.traceStep w) := by
    unfold traceStep Machine.traceStep
    split
    · simp only [status_eq h.data, Option.bind_eq_bind, Option.bind_some]
      obtain ⟨core, wiring⟩ := m
      simp only [Option.pure_def, Machine.onCore]
    · rfl
  rw [advanced, htrace]
  rfl

theorem dispatch_eq (w : UInt16) : dispatch w m = some (m.dispatch w) := by
  have hfetched := (h.course (Machine.still_advanced m w).course).course
    (Machine.still_fetchExtension _ w).course
  unfold dispatch Machine.dispatch
  simp only [advanced_eq h, Option.bind_eq_bind, Option.bind_some, fetchExtension_eq]
  generalize (m.advanced w).fetchExtension w = fetched at hfetched
  cases Instr.decode w fetched.1 with
  | none => rfl
  | some instr => exact perform_eq hfetched instr

theorem execute_eq : execute m = some m.execute := by
  unfold execute Machine.execute
  split
  · rfl
  · have hfetched := h.course (Machine.still_fetch m m.program).course
    rw [fetch_eq]
    generalize m.fetch m.program = fetched at hfetched
    simp only [Option.bind_eq_bind, Option.bind_some]
    split
    · rfl
    · exact dispatch_eq hfetched _

theorem pendingVector_eq : pendingVector m = some m.pendingVector? := by
  rw [pendingVector, get_eq (h.uartAddress_lt (by decide))]
  unfold Machine.pendingVector?
  simp only [Option.bind_eq_bind, Option.bind_some]
  split
  · rfl
  · split
    · rfl
    · split <;> rfl

theorem enterInterrupt_eq (vector : Nat) :
    enterInterrupt m vector = some (m.enterInterrupt vector) := by
  have hacknowledged : Fits ((m.acknowledge vector).onCore
      (·.report .debug "interrupt" [("vector", .number vector)])) := by
    unfold Machine.acknowledge
    split
    · exact h.of_eq rfl rfl
    · exact h.of_eq rfl rfl
  have hstack : stackReturn vector m = some (m.stackReturn vector) := pushAddress_eq hacknowledged _
  have hpushed := h.course (Machine.course_stackReturn m vector)
  rw [Machine.enterInterrupt_eq, enterInterrupt, hstack, Option.bind_eq_bind, Option.bind_some,
    vectored, onData_setFlag hpushed.data]
  rfl

theorem serviceInterrupts_eq : serviceInterrupts m = some m.serviceInterrupts := by
  unfold serviceInterrupts Machine.serviceInterrupts
  split
  · rfl
  · simp only [flag_eq h.data, pendingVector_eq h, Option.bind_eq_bind, Option.bind_some]
    split
    · cases m.pendingVector? with
      | none => rfl
      | some vector => exact enterInterrupt_eq h vector
    · rfl

/-- No step uses an index that is out of range. -/
theorem step_eq : step m = some m.step := by
  unfold step Machine.step Machine.tick
  cases hrun : m.run
  case done => rfl
  case crashed => rfl
  case stopped =>
    dsimp only
    split <;> rfl
  case sleeping =>
    have hm : Fits { m with cycle := m.cycle + 1, run := .sleeping } := h.of_eq rfl rfl
    exact serviceInterrupts_eq hm
  all_goals
    have hexecuted := h.course (Machine.course_execute m)
    simp only [execute_eq h, Option.bind_eq_bind, Option.bind_some]
    split
    · exact serviceInterrupts_eq hexecuted
    · rfl

end Steps

end AvrSim.Strict
