import AvrSim.Core.Step

/-!
# Phases of an access and of a step

The functions of the core do several things one after the other. Here each is put together from named
phases, so that a proof can follow one phase at a time: a read brings a UART register up to date before
it looks at the data space, a write stores before it forwards to the UART, an instruction is dispatched
behind its first word, and an interrupt stacks the return address before the core runs on at its vector.
-/

namespace AvrSim.Machine

variable (m : Machine)

/-! ## Accesses -/

/-- The last part of sending a byte, after a complaint about a transmitter that is off. -/
def transmit (value : UInt8) (m : Machine) : Machine :=
  let m := ({ m with uart := { m.uart with transmitted := true } } : Machine).refreshStatus
  m.raise (m.lineOf .output) value.toUInt32

theorem send_eq (value : UInt8) :
    m.send value =
      if m.data.get (m.uartAddress ucsrb) &&& txen == 0 then
        (m.onCore fun core =>
          core.report .debug "uart write with transmitter disabled" [core.uartName]).transmit value
      else m.transmit value := by
  unfold send
  split
  · rfl
  · rfl

/-- The UART's part of a read: the register is brought up to date in the data space. -/
def update (address : UInt16) (m : Machine) : Machine :=
  match m.uartOffset? address with
  | none => m
  | some offset =>
    let (value, m) := m.uartRead offset
    { m with data := m.data.set address.toNat value }

/-- The UART's part of a write, after the value was stored. -/
def forward (address : UInt16) (value : UInt8) (m : Machine) : Machine :=
  match m.uartOffset? address with
  | none => m
  | some offset => m.uartWrite offset value

/-- A note of an access. -/
def noted (n : Note) (m : Machine) : Machine := m.onCore (·.noteAccess n)

theorem read_eq (address : UInt16) :
    m.read address =
      if address.toNat < m.data.size then
        ((m.update address).data.get address.toNat,
          (m.update address).noted
            (.read address ((m.update address).data.get address.toNat)))
      else
        (0, m.onCore fun core =>
          core.crash "data read out of range" "addr" (Core.shownAddress 4 address.toNat)) := by
  unfold read
  split
  · rfl
  · rfl

theorem write_eq (address : UInt16) (value : UInt8) :
    m.write address value =
      if address.toNat < m.data.size then
        let m := ({ m with data := m.data.set address.toNat value } : Machine).forward address value
        m.noted (.write address (m.data.get address.toNat))
      else
        m.onCore fun core =>
          core.crash "data write out of range" "addr" (Core.shownAddress 4 address.toNat) := by
  unfold write
  split
  · rfl
  · rfl

/-! ## Steps -/

/-- The machine behind the first word of an instruction. -/
def advanced (w : UInt16) (m : Machine) : Machine :=
  let m := m.traceStep w
  { m with program := m.program + 2, cycle := m.cycle + 1 }

/-- What is done once the first word of an instruction was fetched. -/
def dispatch (w : UInt16) (m : Machine) : Machine :=
  let (ext, m) := (m.advanced w).fetchExtension w
  match Instr.decode w ext with
  | some instr => m.perform instr
  | none => m.illegal w

/-- The word that stands at the program counter. -/
def currentWord (m : Machine) : UInt16 :=
  (m.flash.get m.program.toNat).toUInt16 |||
    ((m.flash.get (m.program.toNat + 1)).toUInt16 <<< 8)

theorem execute_eq :
    m.execute =
      if m.codeEnd < m.program then
        m.onCore fun core =>
          core.crash "execution past code end" "codeend" (Core.shownAddress 5 core.codeEnd.toNat)
      else if m.program.toNat + 1 < m.flash.size then
        if m.run ≠ .running then m else m.dispatch m.currentWord
      else
        m.onCore fun core =>
          core.crash "fetch out of flash" "addr" (Core.shownAddress 5 m.program.toNat) := by
  unfold execute
  split
  · rfl
  · by_cases hflash : m.program.toNat + 1 < m.flash.size
    · have hfetch : m.fetch m.program = (m.currentWord, m) := if_pos hflash
      rw [hfetch, if_pos hflash]
      rfl
    · have hfetch : m.fetch m.program = (0, m.onCore fun core =>
          core.crash "fetch out of flash" "addr" (Core.shownAddress 5 m.program.toNat)) :=
        if_neg hflash
      rw [hfetch, if_neg hflash]
      rfl

/-- An interrupt's entry up to the pushes of the return address. -/
def stackReturn (vector : Nat) (m : Machine) : Machine :=
  let m := (m.acknowledge vector).onCore (·.report .debug "interrupt" [("vector", .number vector)])
  m.pushAddress m.returnAddress

/-- The rest of an interrupt's entry: interrupts are off and the core runs on at the vector. -/
def vectored (vector : Nat) (m : Machine) : Machine :=
  let m := m.onData (·.setFlag .i false)
  { m with
    program := UInt32.ofNat (vector * m.model.vectorSize)
    cycle := m.cycle + 4
    run := .running }

theorem enterInterrupt_eq (vector : Nat) :
    m.enterInterrupt vector = (m.stackReturn vector).vectored vector := rfl

/-- The vector of the interrupt that is taken when interrupts are looked at. -/
def dueVector? (m : Machine) : Option Nat :=
  if m.interruptDelay || !m.data.flag Flag.i.val then none else m.pendingVector?

theorem serviceInterrupts_eq :
    m.serviceInterrupts =
      match m.dueVector? with
      | some vector => m.enterInterrupt vector
      | none => { m with interruptDelay := false } := by
  unfold serviceInterrupts dueVector?
  cases hdelay : m.interruptDelay with
  | true => rfl
  | false =>
    have hsame : ({ m with interruptDelay := false } : Machine) = m := by
      rw [← hdelay]
    cases hflag : m.data.flag Flag.i.val with
    | true =>
      simp only [Bool.false_or, Bool.not_true, Bool.false_eq_true, if_false, if_true]
      split <;> simp_all
    | false =>
      simp [hsame]

/-- The part of a step behind the instruction. -/
def settled (m : Machine) : Machine := if m.run = .running then m.serviceInterrupts else m

theorem tick_of_isTerminal {m : Machine} (h : m.run.isTerminal) : m.tick = (m, false) := by
  unfold tick
  split
  · rfl
  · rfl
  all_goals simp_all [RunState.isTerminal]

theorem tick_of_sleeping {m : Machine} (h : m.run = .sleeping) :
    m.tick = (({ m with cycle := m.cycle + 1 } : Machine).serviceInterrupts, false) := by
  simp only [tick, h]

theorem tick_of_stopped {m : Machine} (h : m.run = .stopped) :
    m.tick = if m.probed then (m, true) else ({ m with run := .running }, false) := by
  simp only [tick, h]

/-- A step of a core that has not ended, is not stopped and does not sleep. -/
theorem tick_of_active {m : Machine} (hterminal : ¬ m.run.isTerminal) (hstopped : m.run ≠ .stopped)
    (hsleeping : m.run ≠ .sleeping) :
    m.tick = (m.execute.settled,
      m.execute.settled.probed && !m.execute.settled.run.isTerminal) := by
  unfold tick
  split
  case h_5 => rfl
  all_goals simp_all [RunState.isTerminal]

end AvrSim.Machine
