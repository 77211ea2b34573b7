import AvrSim.Proofs.Core.Phases

/-!
# Machines that go in step

A core computes on its data space, its program counter and a few flags, it reports, takes notes and raises
lines. A relation between machines that each of these keeps is kept by a whole step, so two machines that
differ only in what no step looks at go on in the same way. The instructions are gone through here once,
for all such relations.

* `Work` is what a step computes on, `Core.Agree` what two cores must have in common.
* `Machine.Simulation` says what a relation must be kept by.
* `Machine.Simulation.read`, `.write` and `.perform`: accesses and instructions.
* `Machine.Simulation.tick`: steps.
-/

namespace AvrSim

/-! ## What a step computes on -/

/-- The part of a core that a step computes on. -/
structure Work where
  data : Memory
  program : UInt32
  cycle : UInt64
  run : RunState
  interruptDelay : Bool
  uart : Uart

namespace Core

/-- What a step computes on. -/
def work (core : Core) : Work :=
  ⟨core.data, core.program, core.cycle, core.run, core.interruptDelay, core.uart⟩

/-- Two cores agree in all that a step looks at. -/
structure Agree (core core' : Core) : Prop where
  work : core'.work = core.work
  model : core'.model = core.model
  flash : core'.flash = core.flash
  codeEnd : core'.codeEnd = core.codeEnd
  firstLine : core'.firstLine = core.firstLine
  probed : core'.probed = core.probed

namespace Agree

section

variable {core core' : Core} (h : Agree core core')

include h

theorem data : core'.data = core.data := congrArg Work.data h.work

theorem program : core'.program = core.program := congrArg Work.program h.work

theorem cycle : core'.cycle = core.cycle := congrArg Work.cycle h.work

theorem run : core'.run = core.run := congrArg Work.run h.work

theorem interruptDelay : core'.interruptDelay = core.interruptDelay :=
  congrArg Work.interruptDelay h.work

theorem uart : core'.uart = core.uart := congrArg Work.uart h.work

end

variable {m m' : Machine} (h : Agree m.toCore m'.toCore)

include h

theorem uartAddress (offset : Nat) : m'.uartAddress offset = m.uartAddress offset := by
  unfold Machine.uartAddress
  rw [h.model]

theorem uartOffset? (address : UInt16) : m'.uartOffset? address = m.uartOffset? address := by
  unfold Machine.uartOffset?
  rw [h.model]

theorem uartStatus : m'.uartStatus = m.uartStatus := by
  unfold Machine.uartStatus
  rw [h.data, h.uart, h.uartAddress]

theorem lineOf (tag : LineTag) : m'.lineOf tag = m.lineOf tag := by
  cases tag <;> simp [Machine.lineOf, h.firstLine]

theorem pendingVector? : m'.pendingVector? = m.pendingVector? := by
  unfold Machine.pendingVector?
  rw [h.data, h.uart, h.model, h.uartAddress]

theorem dueVector? : m'.dueVector? = m.dueVector? := by
  unfold Machine.dueVector?
  rw [h.interruptDelay, h.data, h.pendingVector?]

theorem returnAddress : m'.returnAddress = m.returnAddress := by
  unfold Machine.returnAddress
  rw [h.program]

theorem currentWord : m'.currentWord = m.currentWord := by
  unfold Machine.currentWord
  rw [h.flash, h.program]

theorem displacedAddress (y : Bool) (q : Fin 64) :
    m'.displacedAddress y q = m.displacedAddress y q := by
  unfold Machine.displacedAddress
  rw [h.data]

end Agree

end Core

namespace Machine

/-- The machine with another state to compute on. -/
def withWork (w : Work) (m : Machine) : Machine :=
  { m with
    data := w.data
    program := w.program
    cycle := w.cycle
    run := w.run
    interruptDelay := w.interruptDelay
    uart := w.uart }

/-! ## Relations that are kept -/

/-- A relation between machines that agree, kept by computing the same, by reports on either side, and by
the same notes and the same raises on both. -/
structure Simulation (R : Machine → Machine → Prop) : Prop where
  agree {m m' : Machine} (h : R m m') : Core.Agree m.toCore m'.toCore
  compute {m m' : Machine} (h : R m m') (w : Work) : R (m.withWork w) (m'.withWork w)
  reportLeft {m m' : Machine} (h : R m m') (level : Level) (message : String)
    (values : Core → List (String × Value)) :
    R (m.onCore fun core => core.report level message (values core)) m'
  reportRight {m m' : Machine} (h : R m m') (level : Level) (message : String)
    (values : Core → List (String × Value)) :
    R m (m'.onCore fun core => core.report level message (values core))
  note {m m' : Machine} (h : R m m') (n : Note) : R (m.onCore (·.note n)) (m'.onCore (·.note n))
  raise {m m' : Machine} (h : R m m') (line : Nat) (value : UInt32) :
    R (m.raise line value) (m'.raise line value)

/-- Equal results, with machines that are related. -/
structure Paired {α : Type} (R : Machine → Machine → Prop) (x x' : α × Machine) : Prop where
  fst : x'.1 = x.1
  snd : R x.2 x'.2

theorem Paired.of {α : Type} {R : Machine → Machine → Prop} {m m' : Machine} (a : α) (h : R m m') :
    Paired R (a, m) (a, m') :=
  ⟨rfl, h⟩

namespace Simulation

variable {R : Machine → Machine → Prop} (hR : Simulation R) {m m' : Machine} (h : R m m')

include hR h

theorem update (f : Work → Work) : R (m.withWork (f m.work)) (m'.withWork (f m'.work)) := by
  rw [(hR.agree h).work]
  exact hR.compute h _

theorem report (level : Level) (message : String) (values values' : Core → List (String × Value)) :
    R (m.onCore fun core => core.report level message (values core))
      (m'.onCore fun core => core.report level message (values' core)) :=
  hR.reportRight (hR.reportLeft h level message values) level message values'

theorem setRun (run : RunState) : R { m with run } { m' with run } :=
  hR.update h fun w => { w with run }

theorem crash (message name : String) (value value' : Core → Value) :
    R (m.onCore fun core => core.crash message name (value core))
      (m'.onCore fun core => core.crash message name (value' core)) :=
  hR.setRun (hR.report h .error message (fun core => [(name, value core), core.shownProgram])
    (fun core => [(name, value' core), core.shownProgram])) .crashed

theorem onData (f : Memory → Memory) : R (m.onData f) (m'.onData f) :=
  hR.update h fun w => { w with data := f w.data }

theorem spend (n : UInt64) : R (m.spend n) (m'.spend n) :=
  hR.update h fun w => { w with cycle := w.cycle + n }

theorem goto (pc : UInt32) : R (m.goto pc) (m'.goto pc) :=
  hR.update h fun w => { w with program := pc }

theorem branch (offset : Int) : R (m.branch offset) (m'.branch offset) :=
  hR.update h fun w => { w with program := w.program + UInt32.ofInt (2 * offset) }

/-! ## Accesses -/

theorem refreshStatus : R m.refreshStatus m'.refreshStatus := by
  unfold Machine.refreshStatus
  rw [(hR.agree h).uartStatus, (hR.agree h).uartAddress]
  exact hR.onData h fun data => data.set (m.uartAddress ucsra) m.uartStatus

theorem receivedByte : Paired R m.receivedByte m'.receivedByte := by
  have hagree := hR.agree h
  unfold Machine.receivedByte
  rw [hagree.uart]
  split
  · exact .of _ (hR.report h .debug _ (fun core => [core.uartName]) (fun core => [core.uartName]))
  · rename_i b rest _
    split
    · have hline : ({ m' with uart := { m.uart with pending := rest, xoff := false } } :
          Machine).lineOf .xon = m.lineOf .xon := hagree.lineOf .xon
      dsimp only
      rw [hline]
      exact .of _ (hR.raise (hR.update h fun w => { w with
        uart := { m.uart with pending := rest, xoff := false } }) _ 1)
    · exact .of _ (hR.update h fun w => { w with uart := { m.uart with pending := rest } })

theorem uartRead (offset : Nat) : Paired R (m.uartRead offset) (m'.uartRead offset) := by
  have hagree := hR.agree h
  unfold Machine.uartRead
  split
  · exact ⟨hagree.uartStatus, h⟩
  · split
    · exact hR.receivedByte h
    · exact ⟨by rw [hagree.data, hagree.uartAddress], h⟩

theorem reportRate : R m.reportRate m'.reportRate := by
  unfold Machine.reportRate
  dsimp only
  -- the speed depends on the frequency, but it is only reported
  split
  · split
    · exact h
    · exact hR.reportRight h _ _ _
  · split
    · exact hR.reportLeft h _ _ _
    · exact hR.reportRight (hR.reportLeft h _ _ _) _ _ _

theorem transmit (value : UInt8) : R (m.transmit value) (m'.transmit value) := by
  have hready := hR.refreshStatus
    (hR.update h fun w => { w with uart := { w.uart with transmitted := true } })
  have hline : m'.lineOf .output = m.lineOf .output := (hR.agree h).lineOf .output
  have hraise := hR.raise hready (m.lineOf .output) value.toUInt32
  unfold Machine.transmit
  dsimp only
  show R _ (Machine.raise _ (m'.lineOf .output) _)
  rw [hline]
  exact hraise

theorem send (value : UInt8) : R (m.send value) (m'.send value) := by
  have hagree := hR.agree h
  rw [send_eq, send_eq, hagree.data, hagree.uartAddress]
  split
  · exact hR.transmit (hR.report h .debug "uart write with transmitter disabled"
      (fun core => [core.uartName]) (fun core => [core.uartName])) value
  · exact hR.transmit h value

theorem uartWrite (offset : Nat) (value : UInt8) :
    R (m.uartWrite offset value) (m'.uartWrite offset value) := by
  unfold Machine.uartWrite
  split
  · dsimp only
    split
    · exact hR.refreshStatus
        (hR.update h fun w => { w with uart := { w.uart with transmitted := false } })
    · exact hR.refreshStatus h
  · split
    · exact hR.reportRate h
    · split
      · exact hR.send h value
      · exact h

theorem noted (n : Note) : R (m.noted n) (m'.noted n) := by
  have hprobed : m'.toCore.probed = m.toCore.probed := (hR.agree h).probed
  unfold Machine.noted Machine.onCore Core.noteAccess
  dsimp only
  rw [hprobed]
  split
  · exact hR.note h n
  · exact h

theorem bringUpToDate (address : UInt16) : R (m.update address) (m'.update address) := by
  have hagree := hR.agree h
  unfold Machine.update
  rw [hagree.uartOffset?]
  split
  · exact h
  · rename_i offset _
    obtain ⟨hvalue, hrest⟩ := hR.uartRead h offset
    generalize m.uartRead offset = x at hvalue hrest ⊢
    generalize m'.uartRead offset = x' at hvalue hrest ⊢
    obtain ⟨value, n⟩ := x
    obtain ⟨value', n'⟩ := x'
    obtain rfl : value' = value := hvalue
    exact hR.onData hrest fun data => data.set address.toNat value'

theorem forward (address : UInt16) (value : UInt8) :
    R (m.forward address value) (m'.forward address value) := by
  unfold Machine.forward
  rw [(hR.agree h).uartOffset?]
  split
  · exact h
  · exact hR.uartWrite h _ value

theorem read (address : UInt16) : Paired R (m.read address) (m'.read address) := by
  have hupdate := hR.bringUpToDate h address
  rw [read_eq, read_eq, (hR.agree h).data, (hR.agree hupdate).data]
  split
  · exact .of _ (hR.noted hupdate _)
  · exact .of _ (hR.crash h _ _ _ _)

theorem noteStored (address : UInt16) :
    R (m.noted (.write address (m.data.get address.toNat)))
      (m'.noted (.write address (m'.data.get address.toNat))) := by
  rw [(hR.agree h).data]
  exact hR.noted h _

theorem write (address : UInt16) (value : UInt8) :
    R (m.write address value) (m'.write address value) := by
  have hsize : m'.data.size = m.data.size := by rw [(hR.agree h).data]
  have hstored := hR.onData h fun data => data.set address.toNat value
  rw [write_eq, write_eq, hsize]
  split
  · exact hR.noteStored (hR.forward hstored address value) address
  · exact hR.crash h _ _ _ _

theorem push (value : UInt8) : R (m.push value) (m'.push value) := by
  unfold Machine.push
  rw [(hR.agree h).data]
  exact hR.onData (hR.write h m.data.sp value) fun data => data.setSp (m.data.sp - 1)

theorem pop : Paired R m.pop m'.pop := by
  unfold Machine.pop
  rw [(hR.agree h).data]
  exact hR.read (hR.onData h fun _ => m.data.setSp (m.data.sp + 1)) (m.data.sp + 1)

theorem pushAddress (address : UInt32) : R (m.pushAddress address) (m'.pushAddress address) :=
  hR.push (hR.push h _) _

theorem popAddress : Paired R m.popAddress m'.popAddress := by
  have hhigh := hR.pop h
  unfold Machine.popAddress
  generalize m.pop = x at hhigh ⊢
  generalize m'.pop = x' at hhigh ⊢
  obtain ⟨high, n⟩ := x
  obtain ⟨high', n'⟩ := x'
  obtain rfl : high' = high := hhigh.fst
  have hlow := hR.pop hhigh.snd
  dsimp only at hlow ⊢
  generalize n.pop = y at hlow ⊢
  generalize n'.pop = y' at hlow ⊢
  obtain ⟨low, k⟩ := y
  obtain ⟨low', k'⟩ := y'
  obtain rfl : low' = low := hlow.fst
  exact .of _ hlow.snd

/-! ## Instructions -/

theorem fetch (pc : UInt32) : Paired R (m.fetch pc) (m'.fetch pc) := by
  unfold Machine.fetch
  rw [(hR.agree h).flash]
  split
  · exact .of _ h
  · exact .of _ (hR.crash h _ _ _ _)

theorem programByte (address : UInt16) : Paired R (m.programByte address) (m'.programByte address) := by
  have hsize : m'.flash.size = m.flash.size := by rw [(hR.agree h).flash]
  have hbyte : m'.flash.get address.toNat = m.flash.get address.toNat := by rw [(hR.agree h).flash]
  unfold Machine.programByte
  dsimp only
  rw [hsize, hbyte]
  split
  · exact .of _ (hR.spend h 2)
  · exact .of _ (hR.crash (hR.spend h 2) _ _ _ _)

omit h in
theorem load (d : Nat) {x x' : UInt8 × Machine} (hx : Paired R x x') :
    R (Machine.load d x) (Machine.load d x') := by
  unfold Machine.load
  rw [hx.fst]
  exact hR.onData hx.snd _

theorem skip : R m.skip m'.skip := by
  have hfetch := hR.fetch h m.program
  unfold Machine.skip
  rw [(hR.agree h).program]
  generalize m.fetch m.program = x at hfetch ⊢
  generalize m'.fetch m.program = x' at hfetch ⊢
  obtain ⟨next, n⟩ := x
  obtain ⟨next', n'⟩ := x'
  obtain ⟨hnext, hrest⟩ := hfetch
  obtain rfl : next' = next := hnext
  dsimp only
  split
  · exact hR.update hrest fun w => { w with program := w.program + 4, cycle := w.cycle + 2 }
  · exact hR.update hrest fun w => { w with program := w.program + 2, cycle := w.cycle + 1 }

theorem indirectAddress (mode : Indirect) :
    Paired R (m.indirectAddress mode) (m'.indirectAddress mode) := by
  have hspend := hR.spend h 1
  cases mode with
  | x =>
    dsimp only [Machine.indirectAddress]
    rw [(hR.agree h).data]
    exact .of _ hspend
  | _ =>
    dsimp only [Machine.indirectAddress]
    rw [(hR.agree h).data]
    exact .of _ (hR.onData hspend _)

theorem sleep : R m.sleep m'.sleep := by
  unfold Machine.sleep
  rw [(hR.agree h).data]
  split
  · exact hR.setRun (hR.report h _ _ (fun _ => []) fun _ => []) .sleeping
  · exact hR.setRun (hR.report h _ _ (fun _ => []) fun _ => []) .done

theorem relativeJump (k : Fin 4096) : R (m.relativeJump k) (m'.relativeJump k) := by
  unfold Machine.relativeJump
  dsimp only
  rw [(hR.agree h).data, (hR.agree h).program]
  split
  · exact hR.update (hR.report h _ _ (fun _ => []) fun _ => []) fun w =>
      { w with program := m.program - 2, run := .done }
  · exact hR.spend (hR.branch h _) 1

theorem returnFrom : R m.returnFrom m'.returnFrom := by
  have hpop := hR.popAddress h
  unfold Machine.returnFrom
  dsimp only
  rw [hpop.fst]
  exact hR.spend (hR.goto hpop.snd _) 3

theorem performIoBit (op : IoBitOp) (a : Fin 32) (b : Fin 8) :
    R (m.performIoBit op a b) (m'.performIoBit op a b) := by
  have hread := hR.read h (ioAddress a.val)
  have hskip := hR.skip hread.snd
  unfold Machine.performIoBit
  dsimp only
  rw [hread.fst]
  cases op with
  | cbi => exact hR.spend (hR.write hread.snd _ _) 1
  | sbi => exact hR.spend (hR.write hread.snd _ _) 1
  | sbic =>
    dsimp only
    split
    · exact hread.snd
    · exact hskip
  | sbis =>
    dsimp only
    split
    · exact hskip
    · exact hread.snd

theorem performRegBit (op : RegBitOp) (r : Fin 32) (b : Fin 8) :
    R (m.performRegBit op r b) (m'.performRegBit op r b) := by
  have hskip := hR.skip h
  unfold Machine.performRegBit
  rw [(hR.agree h).data]
  cases op with
  | bld => exact hR.onData h _
  | bst => exact hR.onData h _
  | sbrc =>
    dsimp only
    split
    · exact h
    · exact hskip
  | sbrs =>
    dsimp only
    split
    · exact hskip
    · exact h

theorem perform (instr : Instr) : R (m.perform instr) (m'.perform instr) := by
  have hagree := hR.agree h
  have hcall := hR.pushAddress h m.returnAddress
  have hspend := hR.spend h 1
  have hskip := hR.skip h
  cases instr with
  | nop => exact h
  | ret => exact hR.returnFrom h
  | reti =>
    have hreturn := hR.returnFrom h
    dsimp only [Machine.perform]
    generalize m.returnFrom = n at hreturn ⊢
    generalize m'.returnFrom = n' at hreturn ⊢
    exact hR.update (hR.onData hreturn fun data => data.setFlag .i true) fun w =>
      { w with interruptDelay := true }
  | sleep => exact hR.sleep h
  | breakpoint =>
    dsimp only [Machine.perform]
    by_cases hprobed : m.probed
    · rw [if_pos hprobed, if_pos (hagree.probed.trans hprobed)]
      exact hR.setRun h .stopped
    · rw [if_neg hprobed, if_neg (by rw [hagree.probed]; exact hprobed)]
      exact h
  | wdr => exact h
  | ijmp =>
    dsimp only [Machine.perform]
    rw [hagree.data]
    exact hR.spend (hR.goto h _) 1
  | icall =>
    dsimp only [Machine.perform]
    rw [hagree.returnAddress]
    generalize m.pushAddress m.returnAddress = n at hcall ⊢
    generalize m'.pushAddress m.returnAddress = n' at hcall ⊢
    rw [(hR.agree hcall).data]
    exact hR.spend (hR.goto hcall _) 2
  | lpmZero =>
    dsimp only [Machine.perform]
    rw [hagree.data]
    exact hR.load 0 (hR.programByte h _)
  | movw d r =>
    dsimp only [Machine.perform]
    exact hR.onData h _
  | binary op d r =>
    cases op with
    | cpse =>
      dsimp only [Machine.perform]
      rw [hagree.data]
      split
      · exact hskip
      · exact h
    | mul => exact hR.spend (hR.onData h _) 1
    | _ => exact hR.onData h _
  | immediate op d k => exact hR.onData h _
  | unary op d => exact hR.onData h _
  | pair op d k => exact hR.spend (hR.onData h _) 1
  | push r =>
    dsimp only [Machine.perform]
    rw [hagree.data]
    exact hR.spend (hR.push h _) 1
  | pop d => exact hR.spend (hR.load d.val (hR.pop h)) 1
  | ldd d y q =>
    dsimp only [Machine.perform]
    rw [hagree.displacedAddress]
    exact hR.load d.val (hR.read hspend _)
  | std y q r =>
    dsimp only [Machine.perform]
    rw [hagree.displacedAddress, hagree.data]
    exact hR.write hspend _ _
  | ld d mode =>
    have hmode := hR.indirectAddress h mode
    dsimp only [Machine.perform]
    rw [hmode.fst]
    exact hR.load d.val (hR.read hmode.snd _)
  | st mode r =>
    have hmode := hR.indirectAddress h mode
    dsimp only [Machine.perform]
    rw [hmode.fst, hagree.data]
    exact hR.write hmode.snd _ _
  | lds d address => exact hR.load d.val (hR.read hspend address)
  | sts address r =>
    dsimp only [Machine.perform]
    rw [hagree.data]
    exact hR.write hspend address _
  | lpm d inc =>
    dsimp only [Machine.perform]
    rw [hagree.data]
    split
    · exact hR.onData (hR.load d.val (hR.programByte h _)) _
    · exact hR.load d.val (hR.programByte h _)
  | input d a => exact hR.load d.val (hR.read h _)
  | output a r =>
    dsimp only [Machine.perform]
    rw [hagree.data]
    exact hR.write h _ _
  | rjmp k => exact hR.relativeJump h k
  | rcall k =>
    dsimp only [Machine.perform]
    rw [hagree.returnAddress]
    exact hR.spend (hR.branch hcall _) 2
  | jmp k => exact hR.spend (hR.goto h _) 2
  | call k =>
    dsimp only [Machine.perform, Machine.callTo]
    rw [hagree.returnAddress]
    exact hR.spend (hR.goto hcall _) 3
  | branch s set k =>
    dsimp only [Machine.perform]
    rw [hagree.data]
    split
    · exact hR.spend (hR.branch h _) 1
    · exact h
  | bset s =>
    dsimp only [Machine.perform]
    split
    · exact hR.update (hR.onData h fun data => data.setFlag s true) fun w =>
        { w with interruptDelay := true }
    · exact hR.onData h _
  | bclr s =>
    dsimp only [Machine.perform]
    exact hR.onData h _
  | ioBit op a b => exact hR.performIoBit h op a b
  | regBit op r b => exact hR.performRegBit h op r b

/-! ## Steps -/

theorem traceStep (w : UInt16) : R (m.traceStep w) (m'.traceStep w) := by
  unfold Machine.traceStep
  split
  · split
    · exact hR.reportRight (hR.reportLeft h _ _ _) _ _ _
    · exact hR.reportLeft h _ _ _
  · split
    · exact hR.reportRight h _ _ _
    · exact h

theorem advanced (w : UInt16) : R (m.advanced w) (m'.advanced w) :=
  hR.update (hR.traceStep h w) fun w => { w with program := w.program + 2, cycle := w.cycle + 1 }

theorem fetchExtension (w : UInt16) : Paired R (m.fetchExtension w) (m'.fetchExtension w) := by
  have hfetch := hR.fetch h m.program
  unfold Machine.fetchExtension
  rw [(hR.agree h).program]
  split
  · exact ⟨hfetch.fst, hR.update hfetch.snd fun w => { w with program := w.program + 2 }⟩
  · exact .of _ h

theorem illegal (w : UInt16) : R (m.illegal w) (m'.illegal w) :=
  hR.crash (hR.update h fun w => { w with program := w.program - 2 }) _ _ _ _

theorem dispatch (w : UInt16) : R (m.dispatch w) (m'.dispatch w) := by
  have hext := hR.fetchExtension (hR.advanced h w) w
  unfold Machine.dispatch
  dsimp only
  rw [hext.fst]
  split
  · exact hR.perform hext.snd _
  · exact hR.illegal hext.snd w

theorem execute : R m.execute m'.execute := by
  have hagree := hR.agree h
  rw [execute_eq, execute_eq, hagree.codeEnd, hagree.program, hagree.flash, hagree.run,
    hagree.currentWord]
  split
  · exact hR.crash h _ _ _ _
  · split
    · split
      · exact h
      · exact hR.dispatch h _
    · exact hR.crash h _ _ _ _

theorem acknowledge (vector : Nat) : R (m.acknowledge vector) (m'.acknowledge vector) := by
  have hvector : m'.model.uart.transmitVector = m.model.uart.transmitVector := by
    rw [(hR.agree h).model]
  unfold Machine.acknowledge
  rw [hvector]
  split
  · exact hR.update h fun w => { w with uart := { w.uart with transmitted := false } }
  · exact h

theorem stackReturn (vector : Nat) : R (m.stackReturn vector) (m'.stackReturn vector) := by
  have hready := hR.report (hR.acknowledge h vector) .debug "interrupt"
    (fun _ => [("vector", .number vector)]) fun _ => [("vector", .number vector)]
  unfold Machine.stackReturn
  dsimp only
  rw [(hR.agree hready).returnAddress]
  exact hR.pushAddress hready _

theorem vectored (vector : Nat) : R (m.vectored vector) (m'.vectored vector) := by
  have hsize : m'.model.vectorSize = m.model.vectorSize := by rw [(hR.agree h).model]
  unfold Machine.vectored
  dsimp only [Machine.onData]
  rw [hsize]
  exact hR.update (hR.onData h fun data => data.setFlag .i false) fun w => { w with
    program := UInt32.ofNat (vector * m.model.vectorSize)
    cycle := w.cycle + 4
    run := .running }

theorem serviceInterrupts : R m.serviceInterrupts m'.serviceInterrupts := by
  rw [serviceInterrupts_eq, serviceInterrupts_eq, (hR.agree h).dueVector?]
  split
  · exact hR.vectored (hR.stackReturn h _) _
  · exact hR.update h fun w => { w with interruptDelay := false }

theorem settled : R m.settled m'.settled := by
  unfold Machine.settled
  rw [(hR.agree h).run]
  split
  · exact hR.serviceInterrupts h
  · exact h

/-- Related machines are related behind a step, and a debugger gets its turn on both or on neither. -/
theorem tick : R m.tick.1 m'.tick.1 ∧ m'.tick.2 = m.tick.2 := by
  have hagree := hR.agree h
  by_cases hterminal : m.run.isTerminal
  · rw [tick_of_isTerminal hterminal, tick_of_isTerminal (by rw [hagree.run]; exact hterminal)]
    exact ⟨h, rfl⟩
  by_cases hstopped : m.run = .stopped
  · rw [tick_of_stopped hstopped, tick_of_stopped (by rw [hagree.run]; exact hstopped)]
    by_cases hprobed : m.probed
    · rw [if_pos hprobed, if_pos (hagree.probed.trans hprobed)]
      exact ⟨h, rfl⟩
    · rw [if_neg hprobed, if_neg (by rw [hagree.probed]; exact hprobed)]
      exact ⟨hR.setRun h .running, rfl⟩
  by_cases hsleeping : m.run = .sleeping
  · rw [tick_of_sleeping hsleeping, tick_of_sleeping (by rw [hagree.run]; exact hsleeping)]
    exact ⟨hR.serviceInterrupts (hR.spend h 1), rfl⟩
  · have hdone := hR.settled (hR.execute h)
    rw [tick_of_active hterminal hstopped hsleeping,
      tick_of_active (by rw [hagree.run]; exact hterminal) (by rw [hagree.run]; exact hstopped)
        (by rw [hagree.run]; exact hsleeping)]
    refine ⟨hdone, ?_⟩
    rw [(hR.agree hdone).probed, (hR.agree hdone).run]

end Simulation

end Machine

end AvrSim
