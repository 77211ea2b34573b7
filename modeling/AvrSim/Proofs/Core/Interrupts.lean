import AvrSim.Proofs.Core.Arithmetic
import AvrSim.Proofs.Core.Reachable

/-!
# When an interrupt is taken

A step looks at interrupts behind an instruction that leaves the core running, and in every step of a
core that sleeps. It takes the lowest vector that the UART asks for if interrupts are on, but not behind
the two instructions that switch them on by themselves.

* `Machine.Requests` is what the UART asks for, `Machine.pendingVector?_eq_some_iff` that the core finds
  the lowest of it.
* `Machine.inspected?` is the machine whose interrupts are looked at in a step and `Machine.entered?` the
  vector that the step enters, told by the time it takes and the place where it ends.
* `Machine.interruptDelay_perform`: which instructions delay an interrupt.
* `Machine.entered?_eq_dueVector?`, `Machine.entered?_of_running` and `Machine.entered?_of_sleeping`: the
  rule for one step.
-/

namespace AvrSim.Machine

variable {m k : Machine} {instr : Instr} {part : Model}

/-! ## What the UART asks for -/

/-- A vector that the UART asks for: its source is enabled and pending. The data register is always
ready. -/
inductive Requests (m : Machine) : Nat → Prop
  | receive (henabled : hasBit (m.data.get (m.uartAddress ucsrb)) 7) (hpending : m.uart.pending ≠ []) :
    Requests m m.model.uart.receiveVector
  | empty (henabled : hasBit (m.data.get (m.uartAddress ucsrb)) 5) :
    Requests m m.model.uart.emptyVector
  | transmit (henabled : hasBit (m.data.get (m.uartAddress ucsrb)) 6) (hdone : m.uart.transmitted) :
    Requests m m.model.uart.transmitVector

/-- The lowest vector that the UART asks for. -/
def RequestsFirst (m : Machine) (vector : Nat) : Prop :=
  m.Requests vector ∧ ∀ other, m.Requests other → vector ≤ other

/-- The vectors of a part stand in the order in which the sources are asked, at addresses that the
program counter can hold. -/
theorem vectors_of_mem_all : ∀ part ∈ Model.all,
    part.uart.receiveVector < part.uart.emptyVector ∧
    part.uart.emptyVector < part.uart.transmitVector ∧
    part.uart.transmitVector * part.vectorSize < 2 ^ 32 ∧ 0 < part.vectorSize := by
  decide

theorem pendingVector?_eq (m : Machine) :
    m.pendingVector? =
      if hasBit (m.data.get (m.uartAddress ucsrb)) 7 ∧ m.uart.pending ≠ [] then
        some m.model.uart.receiveVector
      else if hasBit (m.data.get (m.uartAddress ucsrb)) 5 then some m.model.uart.emptyVector
      else if hasBit (m.data.get (m.uartAddress ucsrb)) 6 ∧ m.uart.transmitted then
        some m.model.uart.transmitVector
      else none := by
  have hbit (f : Flag) (value : UInt8) : (value &&& f.mask != 0) = hasBit value f :=
    and_mask_ne_zero value f
  have hreceive := hbit 7 (m.data.get (m.uartAddress ucsrb))
  have hempty := hbit 5 (m.data.get (m.uartAddress ucsrb))
  have htransmit := hbit 6 (m.data.get (m.uartAddress ucsrb))
  change (m.data.get (m.uartAddress ucsrb) &&& rxcie != 0) = _ at hreceive
  change (m.data.get (m.uartAddress ucsrb) &&& udrie != 0) = _ at hempty
  change (m.data.get (m.uartAddress ucsrb) &&& txcie != 0) = _ at htransmit
  unfold pendingVector?
  dsimp only
  rw [hreceive, hempty, htransmit]
  simp only [Bool.and_eq_true, Bool.not_eq_true', List.isEmpty_eq_false_iff]

theorem requestsFirst_of_pendingVector? (hmodel : m.model ∈ Model.all) {vector : Nat}
    (h : m.pendingVector? = some vector) : m.RequestsFirst vector := by
  obtain ⟨hfirst, hsecond, -⟩ := vectors_of_mem_all m.model hmodel
  rw [pendingVector?_eq] at h
  split at h
  · rename_i hreceive
    cases h
    refine ⟨.receive hreceive.1 hreceive.2, fun other hother => ?_⟩
    cases hother with
    | receive => exact Nat.le_refl _
    | empty => exact hfirst.le
    | transmit => exact (hfirst.trans hsecond).le
  · rename_i hreceive
    split at h
    · rename_i hempty
      cases h
      refine ⟨.empty hempty, fun other hother => ?_⟩
      cases hother with
      | receive henabled hpending => exact absurd ⟨henabled, hpending⟩ hreceive
      | empty => exact Nat.le_refl _
      | transmit => exact hsecond.le
    · rename_i hempty
      split at h
      · rename_i htransmit
        cases h
        refine ⟨.transmit htransmit.1 htransmit.2, fun other hother => ?_⟩
        cases hother with
        | receive henabled hpending => exact absurd ⟨henabled, hpending⟩ hreceive
        | empty henabled => exact absurd henabled hempty
        | transmit => exact Nat.le_refl _
      · cases h

theorem not_requests_of_pendingVector? (h : m.pendingVector? = none) (vector : Nat) :
    ¬ m.Requests vector := by
  intro hrequests
  rw [pendingVector?_eq] at h
  cases hrequests with
  | receive henabled hpending => simp [henabled, hpending] at h
  | empty henabled =>
    simp only [henabled, if_true] at h
    split at h <;> cases h
  | transmit henabled hdone =>
    simp only [henabled, hdone, and_self, if_true] at h
    split at h
    · cases h
    · split at h <;> cases h

/-- The core finds the lowest vector that the UART asks for. -/
theorem pendingVector?_eq_some_iff (hmodel : m.model ∈ Model.all) {vector : Nat} :
    m.pendingVector? = some vector ↔ m.RequestsFirst vector := by
  refine ⟨requestsFirst_of_pendingVector? hmodel, fun h => ?_⟩
  cases hpending : m.pendingVector? with
  | none => exact absurd h.1 (not_requests_of_pendingVector? hpending vector)
  | some found =>
    have hfound := requestsFirst_of_pendingVector? hmodel hpending
    rw [Nat.le_antisymm (hfound.2 vector h.1) (h.2 found hfound.1)]

theorem exists_requestsFirst_iff (hmodel : m.model ∈ Model.all) :
    (∃ vector, m.RequestsFirst vector) ↔ ∃ vector, m.Requests vector := by
  refine ⟨fun ⟨vector, h⟩ => ⟨vector, h.1⟩, fun ⟨vector, h⟩ => ?_⟩
  cases hpending : m.pendingVector? with
  | none => exact absurd h (not_requests_of_pendingVector? hpending vector)
  | some found => exact ⟨found, requestsFirst_of_pendingVector? hmodel hpending⟩

/-! ## Steps that look at interrupts -/

/-- The machine whose interrupts are looked at in a step: behind an instruction that leaves the core
running, or while it sleeps. -/
def inspected? (m : Machine) : Option Machine :=
  match m.run with
  | .running => if m.execute.run = .running then some m.execute else none
  | .sleeping => some { m with cycle := m.cycle + 1 }
  | _ => none

/-- The vector of the interrupt that a step enters. Entering takes time, and the step ends at the
vector. -/
def entered? (m : Machine) : Option Nat :=
  match m.inspected? with
  | some inspected =>
    if m.step.cycle = inspected.cycle then none
    else some (m.step.program.toNat / m.model.vectorSize)
  | none => none

theorem step_of_inspected? (h : m.inspected? = some k) : m.step = k.serviceInterrupts := by
  unfold inspected? at h
  split at h
  · rename_i hrun
    split at h
    · rename_i hexecuted
      cases h
      rw [step, tick_of_active (by rw [hrun]; decide) (by rw [hrun]; decide) (by rw [hrun]; decide)]
      exact if_pos hexecuted
    · cases h
  · rename_i hrun
    cases h
    rw [step, tick_of_sleeping hrun]
  · cases h

theorem course_of_inspected? (h : m.inspected? = some k) : Course m k := by
  unfold inspected? at h
  split at h
  · split at h
    · cases h
      exact course_execute m
    · cases h
  · cases h
    have hstill : Still m { m with cycle := m.cycle + 1 } := still_compute rfl rfl
    exact hstill.course
  · cases h

theorem model_of_inspected? (h : m.inspected? = some k) : k.model = m.model :=
  (stays_course (course_of_inspected? h)).model

/-- Where the entry of an interrupt ends. -/
theorem program_enterInterrupt (m : Machine) (vector : Nat) :
    (m.enterInterrupt vector).program = UInt32.ofNat (vector * m.model.vectorSize) := by
  have hmodel := (access_stackReturn m vector).model
  rw [enterInterrupt_eq]
  generalize m.stackReturn vector = stacked at hmodel
  rw [← hmodel]
  rfl

theorem flag_enterInterrupt (hsize : sregAddress < m.data.size) (vector : Nat) :
    (m.enterInterrupt vector).data.flag Flag.i.val = false := by
  have hstacked := (access_stackReturn m vector).size
  rw [enterInterrupt_eq]
  generalize m.stackReturn vector = stacked at hstacked
  change ((stacked.data.setStatus (stacked.data.status.put .i false)).status).get Flag.i.val = false
  rw [Memory.status_setStatus (by rw [hstacked]; exact hsize), Status.get_put, if_pos rfl]

theorem program_of_requests (hmodel : m.model ∈ Model.all) {vector : Nat} (h : m.Requests vector) :
    (m.enterInterrupt vector).program.toNat = vector * m.model.vectorSize := by
  obtain ⟨hfirst, hsecond, hlimit, -⟩ := vectors_of_mem_all m.model hmodel
  have hle : vector ≤ m.model.uart.transmitVector := by
    cases h with
    | receive => exact (hfirst.trans hsecond).le
    | empty => exact hsecond.le
    | transmit => exact Nat.le_refl _
  rw [program_enterInterrupt, UInt32.toNat_ofNat']
  exact Nat.mod_eq_of_lt (Nat.lt_of_le_of_lt (Nat.mul_le_mul_right _ hle) hlimit)

/-- The vector that a step enters is the one that is due. -/
theorem entered?_eq_dueVector? (hmodel : m.model ∈ Model.all) (h : m.inspected? = some k) :
    m.entered? = k.dueVector? := by
  have hsame := model_of_inspected? h
  unfold entered?
  rw [h, step_of_inspected? h, serviceInterrupts_eq]
  dsimp only
  cases hdue : k.dueVector? with
  | none => exact if_pos rfl
  | some vector =>
    have hrequests : k.Requests vector := by
      unfold dueVector? at hdue
      split at hdue
      · cases hdue
      · exact (requestsFirst_of_pendingVector? (hsame ▸ hmodel) hdue).1
    have hcycle : (k.enterInterrupt vector).cycle ≠ k.cycle := by
      rw [cycle_enterInterrupt]
      simp
    obtain ⟨-, -, -, hpositive⟩ := vectors_of_mem_all k.model (hsame ▸ hmodel)
    dsimp only
    rw [if_neg hcycle, program_of_requests (hsame ▸ hmodel) hrequests, ← hsame,
      Nat.mul_div_cancel _ hpositive]

/-! ## Instructions that delay an interrupt -/

/-- The two instructions that switch interrupts on by themselves. -/
def delaying : Instr → Bool
  | .bset s => s == Flag.i
  | .reti => true
  | _ => false

@[simp] theorem interruptDelay_load (d : Nat) (result : UInt8 × Machine) :
    (load d result).interruptDelay = result.2.interruptDelay := rfl

@[simp] theorem interruptDelay_read (address : UInt16) :
    (m.read address).2.interruptDelay = m.interruptDelay := (access_read m address).interruptDelay

@[simp] theorem interruptDelay_write (address : UInt16) (value : UInt8) :
    (m.write address value).interruptDelay = m.interruptDelay :=
  (access_write m address value).interruptDelay

@[simp] theorem interruptDelay_push (value : UInt8) :
    (m.push value).interruptDelay = m.interruptDelay := (access_push m value).interruptDelay

@[simp] theorem interruptDelay_pop : m.pop.2.interruptDelay = m.interruptDelay :=
  (access_pop m).interruptDelay

@[simp] theorem interruptDelay_pushAddress (address : UInt32) :
    (m.pushAddress address).interruptDelay = m.interruptDelay :=
  (access_pushAddress m address).interruptDelay

@[simp] theorem interruptDelay_spend (n : UInt64) : (m.spend n).interruptDelay = m.interruptDelay := rfl

@[simp] theorem interruptDelay_goto (pc : UInt32) : (m.goto pc).interruptDelay = m.interruptDelay := rfl

@[simp] theorem interruptDelay_branch (offset : Int) :
    (m.branch offset).interruptDelay = m.interruptDelay := rfl

@[simp] theorem interruptDelay_onData (f : Memory → Memory) :
    (m.onData f).interruptDelay = m.interruptDelay := rfl

@[simp] theorem interruptDelay_returnFrom : m.returnFrom.interruptDelay = m.interruptDelay := by
  have hpop := (access_popAddress m).interruptDelay
  unfold returnFrom
  generalize m.popAddress = popped at hpop
  exact hpop

@[simp] theorem interruptDelay_skip : m.skip.interruptDelay = m.interruptDelay := by
  have hfetch : (m.fetch m.program).2.interruptDelay = m.interruptDelay := by
    unfold fetch
    split <;> rfl
  unfold skip
  generalize m.fetch m.program = fetched at hfetch
  dsimp only
  split <;> exact hfetch

@[simp] theorem interruptDelay_programByte (address : UInt16) :
    (m.programByte address).2.interruptDelay = m.interruptDelay := by
  unfold programByte
  dsimp only
  split <;> rfl

@[simp] theorem interruptDelay_indirectAddress (mode : Indirect) :
    (m.indirectAddress mode).2.interruptDelay = m.interruptDelay := by
  cases mode <;> rfl

theorem interruptDelay_performIoBit (op : IoBitOp) (a : Fin 32) (b : Fin 8) :
    (m.performIoBit op a b).interruptDelay = m.interruptDelay := by
  cases op with
  | cbi => simp [performIoBit]
  | sbi => simp [performIoBit]
  | sbic =>
    dsimp only [performIoBit]
    split <;> simp
  | sbis =>
    dsimp only [performIoBit]
    split <;> simp

theorem interruptDelay_performRegBit (op : RegBitOp) (r : Fin 32) (b : Fin 8) :
    (m.performRegBit op r b).interruptDelay = m.interruptDelay := by
  cases op with
  | bld => rfl
  | bst => rfl
  | sbrc =>
    dsimp only [performRegBit]
    split <;> simp
  | sbrs =>
    dsimp only [performRegBit]
    split <;> simp

/-- An instruction asks for a delay if it is one of the two, and else leaves the delay alone. -/
theorem interruptDelay_perform (instr : Instr) :
    (m.perform instr).interruptDelay = (delaying instr || m.interruptDelay) := by
  cases instr with
  | bset s =>
    dsimp only [perform]
    by_cases hs : s = Flag.i <;> simp [hs, delaying]
  | reti => simp [perform, delaying]
  | sleep =>
    dsimp only [perform]
    unfold sleep
    split <;> rfl
  | breakpoint =>
    dsimp only [perform]
    split <;> rfl
  | rjmp k =>
    dsimp only [perform]
    unfold relativeJump
    dsimp only
    split <;> rfl
  | branch s set k =>
    dsimp only [perform]
    split <;> rfl
  | binary op d r =>
    cases op with
    | cpse =>
      dsimp only [perform]
      split <;> simp [delaying]
    | _ => simp [perform, delaying]
  | lpm d inc =>
    dsimp only [perform]
    split <;> simp [delaying]
  | call k =>
    dsimp only [perform]
    unfold callTo
    simp [delaying]
  | ioBit op a b => simp [perform, delaying, interruptDelay_performIoBit]
  | regBit op r b => simp [perform, delaying, interruptDelay_performRegBit]
  | _ => simp [perform, delaying]

theorem delaying_iff : delaying instr = true ↔ instr = .bset Flag.i ∨ instr = .reti := by
  cases instr <;> simp [delaying]

/-! ## The rule for one step -/

/-- A core that runs on behind a step has performed an instruction. -/
theorem exists_perform (hrun : m.run = .running) (hexecuted : m.execute.run = .running) :
    ∃ instr, m.decoded? = some instr ∧ m.execute.interruptDelay = (delaying instr || m.interruptDelay) := by
  have hdelay := (interruptDelay_fetchExtension (m.advanced m.currentWord) m.currentWord).trans
    (interruptDelay_advanced m m.currentWord)
  revert hexecuted
  rw [execute_eq]
  split
  · exact fun h => nomatch h
  split
  · rw [if_neg (not_not_intro hrun)]
    unfold dispatch decoded?
    generalize (m.advanced m.currentWord).fetchExtension m.currentWord = fetched at hdelay
    dsimp only
    split
    · rename_i instr hdecode
      exact fun _ => ⟨instr, hdecode, by rw [interruptDelay_perform, hdelay]⟩
    · exact fun h => nomatch h
  · exact fun h => nomatch h

theorem run_execute_of_step (hrun : m.run = .running) (hstep : m.step.run = .running) :
    m.execute.run = .running := by
  by_contra hexecuted
  have hsettled : m.step = m.execute := by
    rw [step, tick_of_active (by rw [hrun]; decide) (by rw [hrun]; decide) (by rw [hrun]; decide)]
    exact if_neg hexecuted
  rw [hsettled] at hstep
  exact hexecuted hstep

theorem inspected?_of_running (hrun : m.run = .running) :
    m.inspected? = if m.execute.run = .running then some m.execute else none := by
  unfold inspected?
  rw [hrun]

theorem inspected?_of_sleeping (hrun : m.run = .sleeping) :
    m.inspected? = some { m with cycle := m.cycle + 1 } := by
  unfold inspected?
  rw [hrun]

/-- Behind an instruction. -/
theorem entered?_of_running (hmodel : m.model ∈ Model.all) (hdelay : m.interruptDelay = false)
    (hrun : m.run = .running) (hstep : m.step.run = .running) :
    ∃ instr, m.decoded? = some instr ∧ ∀ vector, m.entered? = some vector ↔
      m.execute.data.flag Flag.i.val = true ∧ delaying instr = false ∧
        m.execute.RequestsFirst vector := by
  have hexecuted := run_execute_of_step hrun hstep
  have hinspected := inspected?_of_running hrun
  rw [if_pos hexecuted] at hinspected
  have hsame := model_of_inspected? hinspected
  obtain ⟨instr, hdecoded, hasked⟩ := exists_perform hrun hexecuted
  refine ⟨instr, hdecoded, fun vector => ?_⟩
  rw [entered?_eq_dueVector? hmodel hinspected, ← pendingVector?_eq_some_iff (hsame ▸ hmodel),
    dueVector?, hasked, hdelay]
  cases delaying instr <;> cases m.execute.data.flag Flag.i.val <;> simp

/-- While the core sleeps. -/
theorem entered?_of_sleeping (hmodel : m.model ∈ Model.all) (hdelay : m.interruptDelay = false)
    (hrun : m.run = .sleeping) (hflag : m.data.flag Flag.i.val = true) (vector : Nat) :
    m.entered? = some vector ↔ m.RequestsFirst vector := by
  have hdue : ({ m with cycle := m.cycle + 1 } : Machine).dueVector? = m.pendingVector? := by
    change (if (m.interruptDelay || !m.data.flag Flag.i.val) = true then none else m.pendingVector?) = _
    rw [hdelay, hflag]
    rfl
  rw [entered?_eq_dueVector? hmodel (inspected?_of_sleeping hrun), hdue, pendingVector?_eq_some_iff hmodel]

/-- What is known once an interrupt has been entered. -/
theorem enterInterrupt_of_entered? (hmodel : m.model ∈ Model.all) (hsize : m.data.size = m.model.dataSize)
    {vector : Nat} (h : m.entered? = some vector) :
    ∃ inspected, m.inspected? = some inspected ∧ inspected.RequestsFirst vector ∧
      m.step = inspected.enterInterrupt vector ∧
      m.step.program.toNat = vector * m.model.vectorSize ∧ m.step.data.flag Flag.i.val = false := by
  cases hinspected : m.inspected? with
  | none =>
    unfold entered? at h
    rw [hinspected] at h
    cases h
  | some inspected =>
    have hsame := model_of_inspected? hinspected
    rw [entered?_eq_dueVector? hmodel hinspected] at h
    have hfirst : inspected.RequestsFirst vector := by
      unfold dueVector? at h
      split at h
      · cases h
      · exact requestsFirst_of_pendingVector? (hsame ▸ hmodel) h
    have hstep := step_of_inspected? hinspected
    rw [serviceInterrupts_eq, h] at hstep
    dsimp only at hstep
    have hroom : sregAddress < inspected.data.size := by
      rw [(stays_course (course_of_inspected? hinspected)).size, hsize]
      exact Nat.lt_of_lt_of_le (by decide) (roomy_of_mem_all m.model hmodel).1
    refine ⟨inspected, rfl, hfirst, hstep, ?_, ?_⟩
    · rw [hstep, program_of_requests (hsame ▸ hmodel) hfirst.1, hsame]
    · rw [hstep, flag_enterInterrupt hroom]

/-! ## After a delay -/

/-- A core that is not asleep: it runs or has ended. -/
def Awake (m : Machine) : Prop := m.run = .running ∨ m.run.isTerminal

/-- No interrupt is entered behind an instruction that delays it. -/
theorem entered?_of_delaying (hmodel : m.model ∈ Model.all) (hrun : m.run = .running)
    (hdecoded : m.decoded? = some instr) (hdelaying : delaying instr = true) : m.entered? = none := by
  have hinspected := inspected?_of_running hrun
  split at hinspected
  · rename_i hexecuted
    obtain ⟨found, hfound, hasked⟩ := exists_perform hrun hexecuted
    obtain rfl : instr = found := Option.some.inj (hdecoded.symm.trans hfound)
    rw [entered?_eq_dueVector? hmodel hinspected, dueVector?, hasked, hdelaying]
    rfl
  · unfold entered?
    rw [hinspected]

theorem awake_execute_of_delaying (hrun : m.run = .running) (hdecoded : m.decoded? = some instr)
    (hdelaying : delaying instr = true) : m.execute.Awake := by
  have hlasts := ((lasts_advanced m m.currentWord).trans
    (lasts_fetchExtension (m.advanced m.currentWord) m.currentWord)).run
  rw [hrun] at hlasts
  rw [execute_eq]
  split
  · exact .inr rfl
  split
  · rw [if_neg (not_not_intro hrun)]
    unfold decoded? at hdecoded
    unfold dispatch
    generalize (m.advanced m.currentWord).fetchExtension m.currentWord = fetched at hdecoded hlasts
    dsimp only
    rw [hdecoded]
    have hsleep : instr ≠ .sleep := by
      rintro rfl
      cases hdelaying
    have hbreak : instr ≠ .breakpoint := by
      rintro rfl
      cases hdelaying
    rcases (lasts_perform fetched.2 hsleep hbreak).run with hsame | hended
    · rw [← hsame] at hlasts
      exact hlasts
    · exact .inr hended
  · exact .inr rfl

theorem awake_step_of_delaying (hrun : m.run = .running) (hdecoded : m.decoded? = some instr)
    (hdelaying : delaying instr = true) : m.step.Awake := by
  have hawake := awake_execute_of_delaying hrun hdecoded hdelaying
  rw [step, tick_of_active (by rw [hrun]; decide) (by rw [hrun]; decide) (by rw [hrun]; decide)]
  change m.execute.settled.Awake
  unfold settled
  split
  · rename_i hexecuted
    rcases run_serviceInterrupts m.execute with hsame | hrunning
    · exact .inl (hsame.trans hexecuted)
    · exact .inl hrunning
  · exact hawake

/-- Only a step makes a core sleep. -/
theorem awake_handle (h : m.Awake) {event : Event} (hevent : event ≠ .step) : (m.handle event).Awake := by
  have hkept {m' : Machine} (haccess : Core.Access m.toCore m'.toCore) : m'.Awake := by
    rcases haccess.run with hsame | hended
    · unfold Awake
      rw [hsame]
      exact h
    · exact .inr hended
  cases event with
  | load base bytes =>
    dsimp only [handle, loadFlash]
    split
    · rename_i hload
      split at hload
      · cases hload
      · cases hload
        exact h
    · exact h
  | step => exact absurd rfl hevent
  | halt => exact hkept (Core.access_halt m.toCore)
  | reset =>
    dsimp only [handle]
    unfold reset
    exact .inl rfl
  | raise line value => exact hkept (access_raise m line value)
  | wire wiring => exact h

theorem awake_foldl (h : m.Awake) {events : List Event} (hevents : ∀ event ∈ events, event ≠ .step) :
    (events.foldl handle m).Awake := by
  induction events generalizing m with
  | nil => exact h
  | cons event rest ih =>
    have hfirst := awake_handle h (hevents event List.mem_cons_self)
    exact ih hfirst fun other hother => hevents other (List.mem_cons_of_mem _ hother)

/-- A core that is not asleep enters an interrupt only behind an instruction. -/
theorem exists_decoded?_of_entered? (h : m.Awake) {vector : Nat} (hentered : m.entered? = some vector) :
    m.run = .running ∧ ∃ instr, m.decoded? = some instr := by
  rcases h with hrun | hended
  · refine ⟨hrun, ?_⟩
    have hinspected := inspected?_of_running hrun
    split at hinspected
    · rename_i hexecuted
      obtain ⟨instr, hdecoded, -⟩ := exists_perform hrun hexecuted
      exact ⟨instr, hdecoded⟩
    · unfold entered? at hentered
      rw [hinspected] at hentered
      cases hentered
  · have hnone : m.inspected? = none := by
      unfold inspected?
      cases hrun : m.run <;> simp_all [RunState.isTerminal]
    unfold entered? at hentered
    rw [hnone] at hentered
    cases hentered

end AvrSim.Machine
