import AvrSim.Bench
import AvrSim.Proofs.Core.Phases
import AvrSim.Proofs.Wiring.Raise

/-!
# Reporting and watching do not disturb the core

The journal of a core, and the notes that it takes of accesses while an instrument is connected, are
for others to read. `Machine.view` forgets the journal and, unless `watched`, also the instrument with
the notes meant for it. What the core does commutes with forgetting, so it does the same whether or not
anyone reads along; the one instruction that asks whether an instrument is connected is the break
instruction.

* `Machine.view_perform`: performing an instruction commutes with forgetting; where the instrument is
  forgotten too, any instruction but a break.
* `Machine.view_tick`: a whole step commutes with forgetting the journal.
-/

namespace AvrSim

namespace Core

/-- The core without its journal and, unless `watched`, without the instrument and its notes. -/
def view (watched : Bool) (core : Core) : Core :=
  { core with
    journal := { threshold := none }
    probed := watched && core.probed
    notes := if watched then core.notes else core.notes.filter Bench.isPublic }

variable (watched : Bool) (core : Core)

theorem view_halt : (core.view watched).halt = core.halt.view watched := by
  show (if core.run.isTerminal then _ else _) = Core.view watched (if core.run.isTerminal then _ else _)
  split
  · rfl
  · rfl

theorem view_note {n : Note} (h : Bench.isPublic n) :
    (core.view watched).note n = (core.note n).view watched := by
  cases watched with
  | true => rfl
  | false => simp [view, note, h]

theorem view_noteAccess {n : Note} (h : Bench.isPublic n = false) :
    (core.view watched).noteAccess n = (core.noteAccess n).view watched := by
  cases watched with
  | true =>
    show (if (true && core.probed) then _ else _) = Core.view true (if core.probed then _ else _)
    cases core.probed with
    | true => rfl
    | false => rfl
  | false =>
    unfold noteAccess
    cases hp : core.probed with
    | true => simp [view, note, h, hp]
    | false => simp [view, hp]

theorem view_receive (b : UInt8) :
    (core.view watched).receive b = Prod.map (view watched) id (core.receive b) := by
  show (if core.uart.pending.length < Uart.capacity then _ else _) =
    Prod.map (view watched) id (if core.uart.pending.length < Uart.capacity then _ else _)
  split
  · dsimp only
    show (if (core.uart.pending ++ [b]).length = Uart.capacity && !core.uart.xoff then _ else _) =
      Prod.map (view watched) id
        (if (core.uart.pending ++ [b]).length = Uart.capacity && !core.uart.xoff then _ else _)
    split
    · rfl
    · rfl
  · rfl

theorem view_react (observer : Observer) (position : Nat) (line : Line Observer) (value : UInt32) :
    react observer position line value (core.view watched) =
      Prod.map (view watched) id (react observer position line value core) := by
  cases observer with
  | receive => exact view_receive watched core _
  | record tag haltOn =>
    dsimp only [react]
    rw [view_note watched core rfl]
    split
    · rw [view_halt]
      rfl
    · rfl

end Core

namespace Machine

/-- The machine with its core seen without journal and, unless `watched`, without instrument. -/
def view (watched : Bool) (m : Machine) : Machine := m.onCore (·.view watched)

variable (watched : Bool) (m : Machine)

theorem view_raise (line : Nat) (value : UInt32) :
    (m.view watched).raise line value = (m.raise line value).view watched := by
  obtain ⟨core, wiring⟩ := m
  have h := Wiring.raise_map (f := Core.view watched)
    (fun observer position l value core => Core.view_react watched core observer position l value)
    line value wiring core
  simp only [view, onCore, raise, h, Prod.map_snd, Prod.map_fst, id]

/-! ## Accesses -/

theorem view_receivedByte :
    (m.view watched).receivedByte = Prod.map id (view watched) m.receivedByte := by
  have huart : (m.view watched).uart = m.uart := rfl
  unfold receivedByte
  rw [huart]
  split
  · rfl
  · rename_i b rest _
    split
    · exact congrArg (Prod.mk b) (view_raise watched
        ({ m with uart := { m.uart with pending := rest, xoff := false } } : Machine) _ 1)
    · rfl

theorem view_uartRead (offset : Nat) :
    (m.view watched).uartRead offset = Prod.map id (view watched) (m.uartRead offset) := by
  unfold uartRead
  split
  · rfl
  · split
    · exact view_receivedByte watched m
    · rfl

theorem view_reportRate : (m.view watched).reportRate = m.reportRate.view watched := by
  have hfrequency : (m.view watched).frequency = m.frequency := rfl
  simp only [reportRate, hfrequency]
  split
  · rfl
  · rfl

theorem view_transmit (value : UInt8) :
    (m.view watched).transmit value = (m.transmit value).view watched :=
  view_raise watched
    ({ m with uart := { m.uart with transmitted := true } } : Machine).refreshStatus _ _

theorem view_send (value : UInt8) : (m.view watched).send value = (m.send value).view watched := by
  have hcontrol : (m.view watched).data.get ((m.view watched).uartAddress ucsrb) =
    m.data.get (m.uartAddress ucsrb) := rfl
  rw [send_eq, send_eq, hcontrol]
  split
  · exact view_transmit watched (m.onCore fun core => core.report .debug _ [core.uartName]) value
  · exact view_transmit watched m value

theorem view_uartWrite (offset : Nat) (value : UInt8) :
    (m.view watched).uartWrite offset value = (m.uartWrite offset value).view watched := by
  unfold uartWrite
  split
  · dsimp only
    split
    · rfl
    · rfl
  · split
    · exact view_reportRate watched m
    · split
      · exact view_send watched m value
      · rfl

theorem view_update (address : UInt16) :
    (m.view watched).update address = (m.update address).view watched := by
  have hoffset : (m.view watched).uartOffset? address = m.uartOffset? address := rfl
  unfold update
  rw [hoffset]
  split
  · rfl
  · rw [view_uartRead]
    rfl

theorem view_forward (address : UInt16) (value : UInt8) :
    (m.view watched).forward address value = (m.forward address value).view watched := by
  have hoffset : (m.view watched).uartOffset? address = m.uartOffset? address := rfl
  unfold forward
  rw [hoffset]
  split
  · rfl
  · exact view_uartWrite watched m _ value

theorem view_noted {n : Note} (h : Bench.isPublic n = false) :
    (m.view watched).noted n = (m.noted n).view watched :=
  congrArg (Machine.mk · m.wiring) (Core.view_noteAccess watched m.toCore h)

theorem view_read (address : UInt16) :
    (m.view watched).read address = Prod.map id (view watched) (m.read address) := by
  have hsize : (m.view watched).data.size = m.data.size := rfl
  rw [read_eq, read_eq, hsize, view_update]
  split
  · exact congrArg (Prod.mk _) (view_noted watched _ rfl)
  · rfl

theorem view_write (address : UInt16) (value : UInt8) :
    (m.view watched).write address value = (m.write address value).view watched := by
  have hsize : (m.view watched).data.size = m.data.size := rfl
  have hforward := view_forward watched
    ({ m with data := m.data.set address.toNat value } : Machine) address value
  rw [write_eq, write_eq, hsize]
  split
  · refine Eq.trans ?_ (view_noted watched _ rfl)
    exact congrArg (fun m => noted (.write address (m.data.get address.toNat)) m) hforward
  · rfl

theorem view_push (value : UInt8) : (m.view watched).push value = (m.push value).view watched := by
  unfold push
  dsimp only
  rw [show (m.view watched).data = m.data from rfl, view_write]
  rfl

theorem view_pop : (m.view watched).pop = Prod.map id (view watched) m.pop :=
  view_read watched ({ m with data := m.data.setSp (m.data.sp + 1) } : Machine) (m.data.sp + 1)

theorem view_pushAddress (address : UInt32) :
    (m.view watched).pushAddress address = (m.pushAddress address).view watched := by
  unfold pushAddress
  rw [view_push, view_push]

theorem view_popAddress :
    (m.view watched).popAddress = Prod.map id (view watched) m.popAddress := by
  simp only [popAddress, view_pop, Prod.map_fst, Prod.map_snd]
  rfl

/-! ## Instructions -/

theorem view_fetch (pc : UInt32) :
    (m.view watched).fetch pc = Prod.map id (view watched) (m.fetch pc) := by
  have hflash : (m.view watched).flash = m.flash := rfl
  unfold fetch
  rw [hflash]
  split
  · rfl
  · rfl

theorem view_programByte (address : UInt16) :
    (m.view watched).programByte address = Prod.map id (view watched) (m.programByte address) := by
  have hflash : (m.view watched).flash = m.flash := rfl
  simp only [programByte, hflash]
  split
  · rfl
  · rfl

theorem view_spend (n : UInt64) : (m.view watched).spend n = (m.spend n).view watched := rfl

theorem view_goto (pc : UInt32) : (m.view watched).goto pc = (m.goto pc).view watched := rfl

theorem view_branch (offset : Int) :
    (m.view watched).branch offset = (m.branch offset).view watched := rfl

theorem view_load (d : Nat) (result : UInt8 × Machine) :
    load d (Prod.map id (view watched) result) = (load d result).view watched := rfl

theorem view_skip : (m.view watched).skip = m.skip.view watched := by
  have hprogram : (m.view watched).program = m.program := rfl
  unfold skip
  rw [hprogram, view_fetch]
  rcases m.fetch m.program with ⟨next, m'⟩
  dsimp only [Prod.map, id]
  split
  · rfl
  · rfl

theorem view_indirectAddress (mode : Indirect) :
    (m.view watched).indirectAddress mode = Prod.map id (view watched) (m.indirectAddress mode) := by
  cases mode <;> rfl

theorem view_sleep : (m.view watched).sleep = m.sleep.view watched := by
  have hdata : (m.view watched).data = m.data := rfl
  unfold sleep
  rw [hdata]
  split
  · rfl
  · rfl

theorem view_relativeJump (k : Fin 4096) :
    (m.view watched).relativeJump k = (m.relativeJump k).view watched := by
  have hdata : (m.view watched).data = m.data := rfl
  simp only [relativeJump, hdata]
  split
  · rfl
  · rfl

theorem view_callTo (target : UInt32) :
    (m.view watched).callTo target = (m.callTo target).view watched := by
  have haddress : (m.view watched).returnAddress = m.returnAddress := rfl
  unfold callTo
  rw [haddress, view_pushAddress, view_goto]

theorem view_returnFrom : (m.view watched).returnFrom = m.returnFrom.view watched := by
  unfold returnFrom
  rw [view_popAddress]
  rcases m.popAddress with ⟨address, m'⟩
  rfl

theorem view_performIoBit (op : IoBitOp) (a : Fin 32) (b : Fin 8) :
    (m.view watched).performIoBit op a b = (m.performIoBit op a b).view watched := by
  unfold performIoBit
  dsimp only
  rw [view_read]
  rcases m.read (ioAddress a.val) with ⟨value, m'⟩
  dsimp only [Prod.map, id]
  cases op with
  | cbi =>
    dsimp only
    rw [view_write, view_spend]
  | sbi =>
    dsimp only
    rw [view_write, view_spend]
  | sbic =>
    dsimp only
    split
    · rfl
    · exact view_skip watched m'
  | sbis =>
    dsimp only
    split
    · exact view_skip watched m'
    · rfl

theorem view_performRegBit (op : RegBitOp) (r : Fin 32) (b : Fin 8) :
    (m.view watched).performRegBit op r b = (m.performRegBit op r b).view watched := by
  have hdata : (m.view watched).data = m.data := rfl
  unfold performRegBit
  rw [hdata]
  cases op with
  | bld => rfl
  | bst => rfl
  | sbrc =>
    dsimp only
    split
    · rfl
    · exact view_skip watched m
  | sbrs =>
    dsimp only
    split
    · exact view_skip watched m
    · rfl

theorem view_perform {instr : Instr} (h : watched = true ∨ instr ≠ .breakpoint) :
    (m.view watched).perform instr = (m.perform instr).view watched := by
  have hdata : (m.view watched).data = m.data := rfl
  have haddress : (m.view watched).returnAddress = m.returnAddress := rfl
  cases instr with
  | nop => rfl
  | ret => exact view_returnFrom watched m
  | reti =>
    dsimp only [perform]
    rw [view_returnFrom]
    generalize m.returnFrom = m'
    rfl
  | sleep => exact view_sleep watched m
  | breakpoint =>
    obtain rfl : watched = true := h.resolve_right (fun hne => hne rfl)
    dsimp only [perform]
    rw [show (m.view true).probed = m.probed from Bool.true_and _]
    split
    · rfl
    · rfl
  | wdr => rfl
  | ijmp => rfl
  | icall =>
    dsimp only [perform]
    rw [haddress, view_pushAddress]
    generalize m.pushAddress m.returnAddress = m'
    rfl
  | lpmZero =>
    dsimp only [perform]
    rw [hdata, view_programByte, view_load]
  | movw d r => rfl
  | binary op d r =>
    cases op with
    | cpse =>
      dsimp only [perform]
      rw [hdata]
      split
      · exact view_skip watched m
      · rfl
    | _ => rfl
  | immediate op d k => rfl
  | unary op d => rfl
  | pair op d k => rfl
  | push r =>
    dsimp only [perform]
    rw [hdata, view_push, view_spend]
  | pop d =>
    dsimp only [perform]
    rw [view_pop, view_load, view_spend]
  | ldd d y q => exact congrArg (load d.val) (view_read watched (m.spend 1) _)
  | std y q r => exact view_write watched (m.spend 1) _ _
  | ld d mode =>
    dsimp only [perform]
    rw [view_indirectAddress]
    exact congrArg (load d.val) (view_read watched (m.indirectAddress mode).2 _)
  | st mode r =>
    dsimp only [perform]
    rw [hdata, view_indirectAddress]
    exact view_write watched (m.indirectAddress mode).2 _ _
  | lds d address => exact congrArg (load d.val) (view_read watched (m.spend 1) _)
  | sts address r => exact view_write watched (m.spend 1) _ _
  | lpm d inc =>
    dsimp only [perform]
    rw [hdata, view_programByte, view_load]
    split
    · rfl
    · rfl
  | input d a => exact congrArg (load d.val) (view_read watched m _)
  | output a r => exact view_write watched m _ _
  | rjmp k => exact view_relativeJump watched m k
  | rcall k =>
    dsimp only [perform]
    rw [haddress, view_pushAddress, view_branch, view_spend]
  | jmp k => rfl
  | call k =>
    dsimp only [perform]
    rw [view_callTo, view_spend]
  | branch s set k =>
    dsimp only [perform]
    rw [hdata]
    split
    · rfl
    · rfl
  | bset s =>
    dsimp only [perform]
    split
    · rfl
    · rfl
  | bclr s => rfl
  | ioBit op a b => exact view_performIoBit watched m op a b
  | regBit op r b => exact view_performRegBit watched m op r b

theorem view_traceStep (w : UInt16) :
    (m.view watched).traceStep w = (m.traceStep w).view watched := by
  -- a journal that keeps no trace entries drops the entry, so both sides leave all but it alone
  unfold traceStep
  split
  · split
    · rfl
    · rfl
  · split
    · rfl
    · rfl

theorem view_fetchExtension (w : UInt16) :
    (m.view watched).fetchExtension w = Prod.map id (view watched) (m.fetchExtension w) := by
  have hprogram : (m.view watched).program = m.program := rfl
  unfold fetchExtension
  rw [hprogram, view_fetch]
  split
  · rfl
  · rfl

/-! ## Steps -/

theorem view_advanced (w : UInt16) :
    (m.view watched).advanced w = (m.advanced w).view watched := by
  unfold advanced
  rw [view_traceStep]
  rfl

theorem view_dispatch {w : UInt16}
    (h : watched = true ∨ ∀ ext, Instr.decode w ext ≠ some .breakpoint) :
    (m.view watched).dispatch w = (m.dispatch w).view watched := by
  unfold dispatch
  rw [view_advanced, view_fetchExtension]
  rcases (m.advanced w).fetchExtension w with ⟨ext, m'⟩
  dsimp only [Prod.map, id]
  split
  · rename_i instr hdecode
    exact view_perform watched m' (h.imp_right fun h hbreak => h ext (hbreak ▸ hdecode))
  · rfl

theorem view_execute : (m.view true).execute = m.execute.view true := by
  rw [execute_eq, execute_eq]
  show (if m.codeEnd < m.program then _ else
    if m.program.toNat + 1 < m.flash.size then if m.run ≠ .running then _ else _ else _) = _
  split
  · rfl
  · split
    · split
      · rfl
      · exact view_dispatch true m (.inl rfl)
    · rfl

theorem view_acknowledge (vector : Nat) :
    (m.view watched).acknowledge vector = (m.acknowledge vector).view watched := by
  have hmodel : (m.view watched).model = m.model := rfl
  unfold acknowledge
  rw [hmodel]
  split
  · rfl
  · rfl

theorem view_stackReturn (vector : Nat) :
    (m.view watched).stackReturn vector = (m.stackReturn vector).view watched := by
  unfold stackReturn
  rw [view_acknowledge]
  exact view_pushAddress watched ((m.acknowledge vector).onCore
    (·.report .debug "interrupt" [("vector", .number vector)])) _

theorem view_enterInterrupt (vector : Nat) :
    (m.view watched).enterInterrupt vector = (m.enterInterrupt vector).view watched := by
  rw [enterInterrupt_eq, enterInterrupt_eq, view_stackReturn]
  generalize m.stackReturn vector = m'
  rfl

theorem view_serviceInterrupts :
    (m.view watched).serviceInterrupts = m.serviceInterrupts.view watched := by
  have hdelay : (m.view watched).interruptDelay = m.interruptDelay := rfl
  have hdata : (m.view watched).data = m.data := rfl
  have hvector : (m.view watched).pendingVector? = m.pendingVector? := rfl
  unfold serviceInterrupts
  rw [hdelay, hdata, hvector]
  split
  · rfl
  · split
    · split
      · exact view_enterInterrupt watched m _
      · rfl
    · rfl

theorem view_tick : (m.view true).tick = Prod.map (view true) id m.tick := by
  have hrun (m : Machine) : (m.view true).run = m.run := rfl
  have hprobed (m : Machine) : (m.view true).probed = m.probed := Bool.true_and _
  unfold tick
  rw [hrun, hprobed, view_execute]
  split
  · rfl
  · rfl
  · split
    · rfl
    · rfl
  · exact congrArg (·, false) (view_serviceInterrupts true { m with cycle := m.cycle + 1 })
  · dsimp only
    rw [hrun]
    split
    · rw [view_serviceInterrupts, hrun, hprobed]
      rfl
    · rw [hrun, hprobed]
      rfl

end Machine

end AvrSim
