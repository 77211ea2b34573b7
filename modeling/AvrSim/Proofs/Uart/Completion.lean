import AvrSim.Proofs.Core.Interrupts
import AvrSim.Proofs.Core.Simulation
import AvrSim.Proofs.Uart.Transmission

/-!
# Completed transmissions

Every write to the data register of the UART completes a transmission, and the interrupt of a completed
transmission forgets it. A write can be forgotten without an interrupt, and several writes can come
before one, so there are at most as many such interrupts as writes, however a machine is run.

* `Machine.Credit` is the balance: what is pending or was taken, against what was pending or was written.
  `Machine.credit_course` and `Machine.credit_serviceInterrupts` keep it.
* `Machine.simulation_bare`: what a machine has noted and reported does not matter to it.
* `Machine.charge_step`: the balance of a step, with the writes that an instrument notes.
* `Machine.interrupt_rule`: when an interrupt is taken, and how often over a run.
-/

namespace AvrSim

/-! ## What has been noted and reported -/

namespace Core

/-- A core that has noted and reported nothing. -/
def bare (core : Core) : Core := { core with journal := { threshold := none }, notes := #[] }

theorem bare_halt (core : Core) : core.bare.halt.bare = core.halt.bare := by
  have hrun : core.bare.run = core.run := rfl
  unfold halt
  rw [hrun]
  split <;> rfl

theorem bare_receive (core : Core) (b : UInt8) :
    Prod.map bare id (core.bare.receive b) = Prod.map bare id (core.receive b) := by
  have huart : core.bare.uart = core.uart := rfl
  unfold receive
  rw [huart]
  by_cases hroom : core.uart.pending.length < Uart.capacity
  · rw [if_pos hroom, if_pos hroom]
    by_cases hfull : ((core.uart.pending ++ [b]).length = Uart.capacity && !core.uart.xoff) = true
    · rw [if_pos hfull, if_pos hfull]
      rfl
    · rw [if_neg hfull, if_neg hfull]
      rfl
  · rw [if_neg hroom, if_neg hroom]
    rfl

/-- What observers do to a core, without what is noted and reported. -/
def bareReact : Reaction Observer Core := fun observer position line value core =>
  Prod.map bare id (react observer position line value core)

theorem bareReact_bare (observer : Observer) (position : Nat) (line : Line Observer) (value : UInt32)
    (core : Core) :
    bareReact observer position line value core.bare =
      Prod.map bare id (react observer position line value core) := by
  unfold bareReact
  cases observer with
  | receive => exact bare_receive core _
  | record tag haltOn =>
    dsimp only [react]
    split
    · have hhalt := (bare_halt (core.bare.note (.line tag value))).symm.trans
        (bare_halt (core.note (.line tag value)))
      exact congrArg (·, none) hhalt
    · rfl

end Core

namespace Machine

variable {m m' : Machine} {part : Model}

/-- A machine that has noted and reported nothing. -/
def bare (m : Machine) : Machine := m.onCore Core.bare

theorem bare_raise (h : m'.bare = m.bare) (line : Nat) (value : UInt32) :
    (m'.raise line value).bare = (m.raise line value).bare := by
  have hraise (m : Machine) : ((m.raise line value).wiring, (m.raise line value).bare.toCore) =
      m.bare.wiring.raise Core.bareReact line value m.bare.toCore :=
    (Wiring.raise_map Core.bareReact_bare line value m.wiring m.toCore).symm
  have hboth := hraise m'
  rw [h, ← hraise m] at hboth
  obtain ⟨hwiring, hcore⟩ := Prod.mk.inj hboth
  have hmk (m : Machine) : m.bare = ⟨m.bare.toCore, m.wiring⟩ := rfl
  rw [hmk, hmk (m.raise line value), hwiring, hcore]

theorem simulation_bare : Simulation fun m m' => m'.bare = m.bare where
  agree {m m'} h := by
    have hcore : m'.bare.toCore = m.bare.toCore := congrArg Machine.toCore h
    have hwork := congrArg Core.work hcore
    have hmodel := congrArg Core.model hcore
    have hflash := congrArg Core.flash hcore
    have hcodeEnd := congrArg Core.codeEnd hcore
    have hfirstLine := congrArg Core.firstLine hcore
    have hprobed := congrArg Core.probed hcore
    exact ⟨hwork, hmodel, hflash, hcodeEnd, hfirstLine, hprobed⟩
  compute h w := congrArg (withWork w) h
  reportLeft h _ _ _ := h
  reportRight h _ _ _ := h
  note h _ := h
  raise h line value := bare_raise h line value

/-! ## The balance -/

/-- The completed transmission that is not forgotten, as a number. -/
def pendingCompletions (m : Machine) : Nat := m.uart.transmitted.toNat

/-- The balance on the way from `m` to `m'`: `n` completed transmissions were taken, and what was taken
or is still there was there before or has been written since. -/
structure Credit (n : Nat) (m m' : Machine) : Prop where
  balance : n + m'.pendingCompletions + m.stored.length ≤ m.pendingCompletions + m'.stored.length

theorem Credit.trans {n n' : Nat} {m₁ : Machine} (h : Credit n m m₁) (h' : Credit n' m₁ m') :
    Credit (n + n') m m' := by
  have hfirst := h.balance
  have hsecond := h'.balance
  exact ⟨by omega⟩

/-- Nothing is written, and no transmission is completed or forgotten. -/
structure Idle (m m' : Machine) : Prop where
  stored : m'.stored = m.stored
  transmitted : m'.uart.transmitted = m.uart.transmitted

theorem Idle.refl (m : Machine) : Idle m m := ⟨rfl, rfl⟩

theorem Idle.trans {m₁ : Machine} (h : Idle m m₁) (h' : Idle m₁ m') : Idle m m' :=
  ⟨h'.stored.trans h.stored, h'.transmitted.trans h.transmitted⟩

theorem Idle.credit (h : Idle m m') : Credit 0 m m' where
  balance := by
    unfold pendingCompletions
    rw [h.stored, h.transmitted]
    omega

theorem idle_of_notes (hmodel : m'.model = m.model) (hnotes : m'.notes = m.notes)
    (htransmitted : m'.uart.transmitted = m.uart.transmitted) : Idle m m' := by
  refine ⟨?_, htransmitted⟩
  unfold Core.stored
  rw [hmodel, hnotes]

theorem credit_of_notes (hmodel : m'.model = m.model) (hnotes : m'.notes = m.notes)
    (htransmitted : m'.uart.transmitted = m.uart.transmitted) : Credit 0 m m' :=
  (idle_of_notes hmodel hnotes htransmitted).credit

theorem idle_raise (m : Machine) (line : Nat) (value : UInt32) : Idle m (m.raise line value) := by
  have hkept : (m.raise line value).model = m.model ∧ (m.raise line value).stored = m.stored ∧
      (m.raise line value).uart.transmitted = m.uart.transmitted := by
    refine Wiring.raise_invariant (P := fun core : Core => core.model = m.model ∧
      core.stored = m.stored ∧ core.uart.transmitted = m.uart.transmitted) ?_ line value m.wiring
      m.toCore ⟨rfl, rfl, rfl⟩
    rintro observer position l value core ⟨hmodel, hstored, htransmitted⟩
    cases observer with
    | receive =>
      dsimp only [Core.react]
      unfold Core.receive
      dsimp only
      split
      · split <;> exact ⟨hmodel, hstored, htransmitted⟩
      · exact ⟨hmodel, hstored, htransmitted⟩
    | record tag haltOn =>
      have hnote : (core.note (.line tag value)).stored = m.stored := by
        rw [Core.stored_note, hstored]
        exact List.append_nil _
      dsimp only [Core.react]
      split
      · unfold Core.halt
        split <;> exact ⟨hmodel, hnote, htransmitted⟩
      · exact ⟨hmodel, hnote, htransmitted⟩
  exact ⟨hkept.2.1, hkept.2.2⟩

theorem idle_noted (m : Machine) {n : Note} (h : n.writtenAt? (m.uartAddress udr) = none) :
    Idle m (m.noted n) := by
  have htransmitted : (m.noted n).uart.transmitted = m.uart.transmitted := by
    unfold noted onCore Core.noteAccess
    dsimp only
    split <;> rfl
  refine ⟨?_, htransmitted⟩
  cases hprobed : m.probed with
  | true =>
    rw [stored_noted n hprobed, h]
    exact List.append_nil _
  | false =>
    have hsame : (m.noted n).toCore = m.toCore := if_neg (by simp [hprobed])
    rw [hsame]

theorem idle_receivedByte (m : Machine) : Idle m m.receivedByte.2 := by
  unfold receivedByte
  split
  · exact idle_of_notes rfl rfl rfl
  · rename_i b rest _
    split
    · have hdrained : Idle m { m with uart := { m.uart with pending := rest, xoff := false } } :=
        idle_of_notes rfl rfl rfl
      exact hdrained.trans (idle_raise _ _ _)
    · exact idle_of_notes rfl rfl rfl

theorem idle_read (m : Machine) (address : UInt16) : Idle m (m.read address).2 := by
  have huart (offset : Nat) : Idle m (m.uartRead offset).2 := by
    unfold uartRead
    split
    · exact .refl m
    · split
      · exact idle_receivedByte m
      · exact .refl m
  have hupdate : Idle m (m.update address) := by
    unfold update
    split
    · exact .refl m
    · rename_i offset _
      exact (huart offset).trans (idle_of_notes rfl rfl rfl)
  rw [read_eq]
  split
  · exact hupdate.trans (idle_noted _ rfl)
  · exact idle_of_notes rfl rfl rfl

theorem stored_send (m : Machine) (value : UInt8) : (m.send value).stored = m.stored := by
  have htransmit (m : Machine) : (m.transmit value).stored = m.stored := by
    unfold transmit
    exact (idle_raise _ _ _).stored
  rw [send_eq]
  split
  · exact htransmit (m.onCore _)
  · exact htransmit m

/-- A write to the data register is noted and completes a transmission. -/
theorem credit_write_udr (hprobed : m.probed = true) {address : UInt16}
    (hrange : address.toNat < m.data.size) (haddress : address.toNat = m.uartAddress udr)
    (value : UInt8) : Credit 0 m (m.write address value) := by
  have haccess := access_send { m with data := m.data.set address.toNat value } value
  have hstored := stored_send { m with data := m.data.set address.toNat value } value
  rw [write_udr hrange haddress]
  generalize ({ m with data := m.data.set address.toNat value } : Machine).send value = sent
    at haccess hstored
  have hwritten : Note.writtenAt? (sent.uartAddress udr) (.write address value) = some value := by
    unfold uartAddress
    rw [haccess.model]
    exact if_pos haddress
  have hone : (sent.noted (.write address value)).stored.length = m.stored.length + 1 := by
    rw [stored_noted _ (haccess.probed.trans hprobed), hwritten, hstored]
    exact List.length_append
  have hle : (sent.noted (.write address value)).pendingCompletions ≤ 1 := Bool.toNat_le _
  exact ⟨by omega⟩

/-- The other registers of the UART complete no transmission. -/
theorem transmitted_forward_of_ne (m : Machine) {address : UInt16}
    (haddress : address.toNat ≠ m.uartAddress udr) (value : UInt8) :
    (m.forward address value).pendingCompletions ≤ m.pendingCompletions := by
  unfold pendingCompletions forward
  split
  · exact Nat.le_refl _
  · rename_i offset hoffset
    have hudr : offset ≠ udr := by
      rintro rfl
      exact haddress (address_of_uartOffset? hoffset)
    unfold uartWrite
    split
    · dsimp only
      split
      · exact Nat.zero_le _
      · exact Nat.le_refl _
    · split
      · unfold reportRate
        dsimp only
        split <;> exact Nat.le_refl _
      · exact Nat.le_refl _

/-- A write to another place can only forget a transmission. -/
theorem credit_write_of_ne (m : Machine) {address : UInt16}
    (haddress : address.toNat ≠ m.uartAddress udr) (value : UInt8) :
    Credit 0 m (m.write address value) := by
  rw [write_eq]
  split
  · have haddress' : address.toNat ≠
        ({ m with data := m.data.set address.toNat value } : Machine).uartAddress udr := haddress
    have hnotes := notes_forward_of_ne _ haddress' value
    have hmodel := (access_forward { m with data := m.data.set address.toNat value } address value).model
    have hfewer := transmitted_forward_of_ne _ haddress' value
    dsimp only
    generalize ({ m with data := m.data.set address.toNat value } : Machine).forward address value =
      forwarded at hnotes hmodel hfewer
    have hforwarded : Credit 0 m forwarded := by
      have hstored : forwarded.stored = m.stored := by
        unfold Core.stored
        rw [hnotes, hmodel]
      have hbefore : forwarded.pendingCompletions ≤ m.pendingCompletions := hfewer
      exact ⟨by rw [hstored]; omega⟩
    have hplace : address.toNat ≠ forwarded.uartAddress udr := by
      unfold uartAddress
      rw [hmodel]
      exact haddress
    have hnote : Note.writtenAt? (forwarded.uartAddress udr)
        (.write address (forwarded.data.get address.toNat)) = none := if_neg hplace
    exact hforwarded.trans (idle_noted _ hnote).credit
  · exact credit_of_notes rfl rfl rfl

/-- The machine that has forgotten a completed transmission. -/
def forgetful (m : Machine) : Machine := { m with uart := { m.uart with transmitted := false } }

theorem credit_forgetful (m : Machine) : Credit m.pendingCompletions m m.forgetful where
  balance := by
    have hstored : m.forgetful.stored = m.stored := rfl
    have hforgotten : m.forgetful.pendingCompletions = 0 := rfl
    rw [hstored, hforgotten]
    omega

theorem credit_stroke (hprobed : m.probed = true) (h : Stroke m m') : Credit 0 m m' := by
  cases h with
  | compute hsize hrest =>
    rw [hrest]
    exact credit_of_notes rfl rfl rfl
  | report level message values hmessage => exact credit_of_notes rfl rfl rfl
  | acknowledge =>
    have hbalance := (credit_forgetful m).balance
    have hforgetful : Credit 0 m m.forgetful := ⟨by omega⟩
    exact hforgetful
  | read address => exact (idle_read m address).credit
  | write address value =>
    by_cases haddress : address.toNat = m.uartAddress udr
    · by_cases hrange : address.toNat < m.data.size
      · exact credit_write_udr hprobed hrange haddress value
      · rw [write_eq, if_neg hrange]
        exact credit_of_notes rfl rfl rfl
    · exact credit_write_of_ne m haddress value

theorem credit_course (hprobed : m.probed = true) (h : Course m m') : Credit 0 m m' := by
  induction h with
  | refl => exact (Idle.refl m).credit
  | tail hbefore hstroke ih =>
    exact ih.trans (credit_stroke ((stays_course hbefore).probed.trans hprobed) hstroke)

/-! ## Interrupts -/

theorem transmitted_of_requests (hmodel : m.model ∈ Model.all)
    (h : m.Requests m.model.uart.transmitVector) : m.uart.transmitted = true := by
  obtain ⟨hfirst, hsecond, -⟩ := vectors_of_mem_all m.model hmodel
  generalize hvector : m.model.uart.transmitVector = vector at h
  cases h with
  | receive => omega
  | empty => omega
  | transmit henabled hdone => exact hdone

theorem pending_of_requests (hmodel : m.model ∈ Model.all)
    (h : m.Requests m.model.uart.receiveVector) : m.uart.pending ≠ [] := by
  obtain ⟨hfirst, hsecond, -⟩ := vectors_of_mem_all m.model hmodel
  generalize hvector : m.model.uart.receiveVector = vector at h
  cases h with
  | receive henabled hpending => exact hpending
  | empty => omega
  | transmit => omega

theorem course_enterInterrupt (m : Machine) (vector : Nat) : Course m (m.enterInterrupt vector) := by
  have hstack := course_stackReturn m vector
  rw [enterInterrupt_eq]
  generalize m.stackReturn vector = stacked at hstack
  exact hstack.trans (still_compute (Memory.size_setFlag _ _ _) rfl).course

/-- The entry of the interrupt of a completed transmission forgets it before anything else. -/
theorem enterInterrupt_transmitVector (m : Machine) :
    m.enterInterrupt m.model.uart.transmitVector =
      m.forgetful.enterInterrupt m.model.uart.transmitVector := by
  have hfirst : m.acknowledge m.model.uart.transmitVector = m.forgetful := if_pos rfl
  have hsecond : m.forgetful.acknowledge m.model.uart.transmitVector = m.forgetful := if_pos rfl
  unfold enterInterrupt
  rw [hfirst, hsecond]

theorem credit_enterInterrupt (hprobed : m.probed = true) (htransmitted : m.uart.transmitted = true) :
    Credit 1 m (m.enterInterrupt m.model.uart.transmitVector) := by
  have hone : m.pendingCompletions = 1 := congrArg Bool.toNat htransmitted
  have hforgotten := credit_forgetful m
  have hwatched : m.forgetful.probed = true := hprobed
  rw [hone] at hforgotten
  rw [enterInterrupt_transmitVector]
  exact hforgotten.trans (credit_course hwatched (course_enterInterrupt _ _))

/-- Looking at interrupts takes a completed transmission if its vector is due. -/
theorem credit_serviceInterrupts (hmodel : m.model ∈ Model.all) (hprobed : m.probed = true) :
    Credit (if m.dueVector? = some m.model.uart.transmitVector then 1 else 0) m m.serviceInterrupts := by
  by_cases hdue : m.dueVector? = some m.model.uart.transmitVector
  · have hpending : m.pendingVector? = some m.model.uart.transmitVector := by
      unfold dueVector? at hdue
      split at hdue
      · cases hdue
      · exact hdue
    have hrequests := (requestsFirst_of_pendingVector? hmodel hpending).1
    rw [if_pos hdue, serviceInterrupts_eq, hdue]
    exact credit_enterInterrupt hprobed (transmitted_of_requests hmodel hrequests)
  · rw [if_neg hdue]
    exact credit_course hprobed (course_serviceInterrupts m)

/-! ## Steps -/

/-- The machine with its notes taken away. -/
def unread (m : Machine) : Machine := { m with notes := #[] }

theorem bare_unread (m : Machine) : m.unread.bare = m.bare := rfl

/-- What has been noted does not matter to a step, so an instrument that has noted nothing yet may watch
it. -/
theorem uart_step_watched (hrun : m.run ≠ .stopped) (hprobed : m.probed = false) :
    m.step.uart = m.watched.tick.1.caughtUp.uart := by
  have hagree := simulation_bare.agree (simulation_bare.tick m.bare_unread).1
  have hview := view_tick_watched (m := m.unread) hrun hprobed rfl
  have huart := congrArg (fun seen : Machine => seen.uart) hview
  exact hagree.uart.symm.trans huart

/-- The machine behind an instruction, with and without an instrument. -/
theorem execute_watched (hrun : m.run = .running) (hprobed : m.probed = false) :
    m.watched.execute.released.run = m.execute.run ∧
      m.watched.execute.released.dueVector? = m.execute.dueVector? := by
  have hagree := simulation_bare.agree (simulation_bare.execute m.bare_unread)
  have hactive : m.run ≠ .stopped := by
    rw [hrun]
    nofun
  have hgoes : m.unread.execute.run ≠ .stopped := by
    intro hstopped
    have hwatched : m.probed = true := probed_of_execute (m := m.unread) hactive hstopped
    rw [hprobed] at hwatched
    cases hwatched
  have hseen : m.watched.view false = m.unread.view false := by
    simp [watched, unread, view, onCore, Core.view]
  have hwatched := view_execute_unwatched (m := m.watched) hactive
  have hunwatched := view_execute_unwatched (m := m.unread) hactive
  rw [released_of_ne hgoes] at hunwatched
  rw [hseen, hunwatched] at hwatched
  have hrun := congrArg (fun seen : Machine => seen.run) hwatched
  have hdue := congrArg (fun seen : Machine => seen.dueVector?) hwatched
  exact ⟨hrun.symm.trans hagree.run, hdue.symm.trans hagree.dueVector?⟩

theorem course_released (m : Machine) : Course m m.released := by
  unfold released
  split
  · have hlifted : Still m m.resumed := still_compute rfl rfl
    exact hlifted.course
  · exact .refl

/-- A step of a core that runs. -/
theorem credit_tick_of_running (hmodel : m.model ∈ Model.all) (hrun : m.run = .running)
    (hprobed : m.probed = false) :
    Credit (if m.entered? = some m.model.uart.transmitVector then 1 else 0) m.watched
      m.watched.tick.1.caughtUp := by
  have hwatched : m.watched.run = .running := hrun
  have htick : m.watched.tick.1 = m.watched.execute.settled := by
    rw [tick_of_active (by rw [hwatched]; decide) (by rw [hwatched]; decide) (by rw [hwatched]; decide)]
  obtain ⟨hsame, hdue⟩ := execute_watched hrun hprobed
  have hcourse := (course_execute m.watched).trans (course_released _)
  have hexecuted := credit_course rfl hcourse
  have hstays := stays_course hcourse
  have hpart : m.watched.execute.released.model = m.model := hstays.model
  have hprobed' : m.watched.execute.released.probed = true := hstays.probed
  have hinspected := inspected?_of_running hrun
  rw [htick, ← settled_released]
  generalize m.watched.execute.released = executed at hsame hdue hexecuted hpart hprobed'
  unfold settled
  rw [hsame]
  by_cases hgoes : m.execute.run = .running
  · rw [if_pos hgoes] at hinspected ⊢
    have hservice := credit_serviceInterrupts (hpart ▸ hmodel) hprobed'
    rw [hdue, hpart, ← entered?_eq_dueVector? hmodel hinspected] at hservice
    have hall := hexecuted.trans hservice
    rwa [Nat.zero_add] at hall
  · rw [if_neg hgoes] at hinspected ⊢
    have hnone : m.entered? = none := by
      unfold entered?
      rw [hinspected]
    rw [hnone]
    exact hexecuted

/-- A step of a core that sleeps. -/
theorem credit_tick_of_sleeping (hmodel : m.model ∈ Model.all) (hrun : m.run = .sleeping) :
    Credit (if m.entered? = some m.model.uart.transmitVector then 1 else 0) m.watched
      m.watched.tick.1.caughtUp := by
  have hwatched : m.watched.run = .sleeping := hrun
  have hlater : Credit 0 m.watched { m.watched with cycle := m.cycle + 1 } := credit_of_notes rfl rfl rfl
  have hservice := credit_serviceInterrupts (m := { m.watched with cycle := m.cycle + 1 }) hmodel rfl
  have hactive : ({ m.watched with cycle := m.cycle + 1 } : Machine).serviceInterrupts.run ≠ .stopped :=
    serviceInterrupts_ne_stopped (m := { m.watched with cycle := m.cycle + 1 }) (by rw [hwatched]; nofun)
  have hdue : ({ m.watched with cycle := m.cycle + 1 } : Machine).dueVector? = m.entered? :=
    (entered?_eq_dueVector? hmodel (inspected?_of_sleeping hrun)).symm
  have hall := hlater.trans hservice
  rw [hdue, Nat.zero_add] at hall
  rw [tick_of_sleeping hwatched]
  change Credit _ _ (({ m.watched with cycle := m.cycle + 1 } : Machine).serviceInterrupts).caughtUp
  rw [caughtUp_of_ne hactive]
  exact hall

/-- What a step takes and leaves was there before or is written in the step. -/
theorem charge_step (h : m.Sound part) (hpart : part ∈ Model.all) :
    (if m.entered? = some part.uart.transmitVector then 1 else 0) + m.step.pendingCompletions ≤
      m.pendingCompletions + m.written.length := by
  obtain rfl : m.model = part := h.model
  have hcredit : Credit (if m.entered? = some m.model.uart.transmitVector then 1 else 0) m.watched
      m.watched.tick.1.caughtUp := by
    rcases h.rests with hrun | hrun | ⟨hrun, -⟩
    · exact credit_tick_of_running hpart hrun h.unprobed
    · have hnone : m.entered? = none := by
        unfold entered? inspected?
        cases hstate : m.run <;> simp_all [RunState.isTerminal]
      have hwatched : m.watched.run.isTerminal := hrun
      rw [hnone, tick_of_isTerminal hwatched, caughtUp_of_ne (ne_stopped_of_isTerminal hwatched)]
      exact (Idle.refl _).credit
    · exact credit_tick_of_sleeping hpart hrun
  have hactive : m.run ≠ .stopped := by
    intro hstopped
    rcases h.rests with hrun | hrun | ⟨hrun, -⟩ <;> rw [hstopped] at hrun <;> cases hrun
  have hstep : m.step.pendingCompletions = m.watched.tick.1.caughtUp.pendingCompletions :=
    congrArg (fun uart : Uart => uart.transmitted.toNat) (uart_step_watched hactive h.unprobed)
  have hbalance := hcredit.balance
  have hnothing : m.watched.stored.length = 0 := rfl
  have hbefore : m.watched.pendingCompletions = m.pendingCompletions := rfl
  unfold written
  omega

/-! ## Runs -/

/-- How often an event enters an interrupt: only a step can, and only once. -/
def entries (vector : Nat) (m : Machine) : Event → Nat
  | .step => if m.entered? = some vector then 1 else 0
  | _ => 0

/-- How often an event writes to the data register of the UART. -/
def writes (m : Machine) : Event → Nat
  | .step => m.written.length
  | _ => 0

/-- The sum of a count over all that happens to a machine. -/
def total (count : Machine → Event → Nat) : Machine → List Event → Nat
  | _, [] => 0
  | m, event :: rest => count m event + total count (m.handle event) rest

theorem pendingCompletions_handle (m : Machine) {event : Event} (hevent : event ≠ .step) :
    (m.handle event).pendingCompletions ≤ m.pendingCompletions := by
  cases event with
  | load base bytes =>
    dsimp only [handle, loadFlash]
    split
    · rename_i hload
      split at hload
      · cases hload
      · cases hload
        exact Nat.le_refl _
    · exact Nat.le_refl _
  | step => exact absurd rfl hevent
  | halt =>
    dsimp only [handle, onCore, Core.halt, pendingCompletions]
    split <;> exact Nat.le_refl _
  | reset =>
    dsimp only [handle]
    unfold reset
    exact Nat.zero_le _
  | raise line value => exact (congrArg Bool.toNat (idle_raise m line value).transmitted).le
  | wire wiring => exact Nat.le_refl _

theorem charge_handle (h : m.Sound part) (hpart : part ∈ Model.all) (event : Event) :
    m.entries part.uart.transmitVector event + (m.handle event).pendingCompletions ≤
      m.pendingCompletions + m.writes event := by
  by_cases hevent : event = .step
  · subst hevent
    exact charge_step h hpart
  · have hfewer := pendingCompletions_handle m hevent
    have hnone : m.entries part.uart.transmitVector event = 0 := by
      cases event with
      | step => exact absurd rfl hevent
      | _ => rfl
    omega

/-- Each completed transmission that a run takes was pending at its start or is one of its writes. -/
theorem charge_foldl (h : m.Sound part) (hpart : part ∈ Model.all) (events : List Event) :
    total (entries part.uart.transmitVector) m events + (events.foldl handle m).pendingCompletions ≤
      m.pendingCompletions + total writes m events := by
  induction events generalizing m with
  | nil => exact (Nat.zero_add _).le
  | cons event rest ih =>
    have hfirst := charge_handle h hpart event
    have hrest := ih (sound_handle h (roomy_of_mem_all part hpart).2.2 event)
    dsimp only [total, List.foldl_cons]
    omega

theorem pendingCompletions_create {wiring : Wiring Observer} {journal : Journal}
    (hcreate : create part wiring journal = .ok m) : m.pendingCompletions = 0 := by
  obtain ⟨wired, -, hm⟩ := exists_of_bind_eq_ok hcreate
  cases hm
  rfl

/-! ## The rule -/

theorem Sound.mem_all (h : m.Sound part) (hpart : part ∈ Model.all) : m.model ∈ Model.all := by
  rw [h.model]
  exact hpart

theorem Sound.interruptDelay (h : m.Sound part) (hgoes : m.run.isTerminal = false) :
    m.interruptDelay = false := by
  apply h.prompt.resolve_right
  rw [hgoes]
  nofun

/-- Behind an instruction. -/
theorem takes_iff_of_running (h : m.Sound part) (hpart : part ∈ Model.all) (hrun : m.run = .running)
    (hstep : m.step.run = .running) : ∃ instr, m.decoded? = some instr ∧
      ((∃ vector, m.entered? = some vector) ↔ m.execute.data.flag Flag.i.val = true ∧
        instr ≠ .bset Flag.i ∧ instr ≠ .reti ∧ ∃ vector, m.execute.Requests vector) := by
  have hmodel := h.mem_all hpart
  have hdelay := h.interruptDelay (by rw [hrun]; rfl)
  obtain ⟨instr, hdecoded, hrule⟩ := entered?_of_running hmodel hdelay hrun hstep
  have hexecuted : m.execute.model ∈ Model.all := by
    rw [(stays_course (course_execute m)).model]
    exact hmodel
  have hplain : delaying instr = false ↔ instr ≠ .bset Flag.i ∧ instr ≠ .reti := by
    rw [← Bool.not_eq_true, delaying_iff, not_or]
  refine ⟨instr, hdecoded, ?_⟩
  simp only [hrule, exists_and_left, exists_requestsFirst_iff hexecuted, hplain, and_assoc]

/-- While the core sleeps. -/
theorem takes_iff_of_sleeping (h : m.Sound part) (hpart : part ∈ Model.all) (hrun : m.run = .sleeping) :
    (∃ vector, m.entered? = some vector) ↔ ∃ vector, m.Requests vector := by
  have hmodel := h.mem_all hpart
  have hdelay := h.interruptDelay (by rw [hrun]; rfl)
  have hflag : m.data.flag Flag.i.val = true := by
    rcases h.rests with hrunning | hended | ⟨-, hflag⟩
    · cases hrun.symm.trans hrunning
    · rw [hrun] at hended
      cases hended
    · exact hflag
  simp only [entered?_of_sleeping hmodel hdelay hrun hflag, exists_requestsFirst_iff hmodel]

/-- Where the step goes, and with what. -/
theorem entry_of_entered? (h : m.Sound part) (hpart : part ∈ Model.all) {vector : Nat}
    (hentered : m.entered? = some vector) : ∃ inspected, m.inspected? = some inspected ∧
      inspected.RequestsFirst vector ∧ m.step = inspected.enterInterrupt vector ∧
      m.step.program.toNat = vector * part.vectorSize ∧ m.step.data.flag Flag.i.val = false ∧
      (vector = part.uart.receiveVector → inspected.uart.pending ≠ []) := by
  obtain ⟨inspected, hinspected, hfirst, hstep, hprogram, hflag⟩ :=
    enterInterrupt_of_entered? (h.mem_all hpart) (by rw [h.data, h.model]) hentered
  have hsame := (model_of_inspected? hinspected).trans h.model
  rw [h.model] at hprogram
  refine ⟨inspected, hinspected, hfirst, hstep, hprogram, hflag, ?_⟩
  rintro rfl
  rw [← hsame] at hfirst hpart
  exact pending_of_requests hpart hfirst.1

/-- Whatever has happened to a new machine: a step that executes an instruction and leaves the core
running takes an interrupt if and only if interrupts are then on, the instruction does not delay one and
the UART asks for one. A step of a core that sleeps takes one if and only if the UART asks for one. The
step goes to the lowest vector that the UART asks for and switches interrupts off, and to the vector of
a received byte only if one is waiting. Behind an instruction that delays, another instruction is
executed before the next entry. There are never more entries for completed transmissions than writes to
the data register. -/
theorem interrupt_rule {name : String} {wiring : Wiring Observer} {journal : Journal} {new : Machine}
    (hcreate : createNamed name wiring journal = .ok new) (events : List Event) :
    let m := events.foldl handle new
    (m.run = .running → m.step.run = .running → ∃ instr, m.decoded? = some instr ∧
      ((∃ vector, m.entered? = some vector) ↔ m.execute.data.flag Flag.i.val = true ∧
        instr ≠ .bset Flag.i ∧ instr ≠ .reti ∧ ∃ vector, m.execute.Requests vector)) ∧
    (m.run = .sleeping → ((∃ vector, m.entered? = some vector) ↔ ∃ vector, m.Requests vector)) ∧
    (∀ vector, m.entered? = some vector → ∃ inspected, m.inspected? = some inspected ∧
      inspected.RequestsFirst vector ∧ m.step = inspected.enterInterrupt vector ∧
      m.step.program.toNat = vector * new.model.vectorSize ∧ m.step.data.flag Flag.i.val = false ∧
      (vector = new.model.uart.receiveVector → inspected.uart.pending ≠ [])) ∧
    (∀ instr, m.run = .running → m.decoded? = some instr → instr = .bset Flag.i ∨ instr = .reti →
      m.entered? = none ∧ ∀ between : List Event, (∀ event ∈ between, event ≠ .step) →
        let next := between.foldl handle m.step
        ∀ vector, next.entered? = some vector →
          next.run = .running ∧ ∃ instr', next.decoded? = some instr') ∧
    total (entries new.model.uart.transmitVector) new events ≤ total writes new events := by
  obtain ⟨hpart, hnew⟩ := sound_createNamed hcreate
  obtain ⟨part, -, hmade⟩ := exists_create_of_createNamed hcreate
  have h := sound_foldl hnew (roomy_of_mem_all new.model hpart).2.2 events
  intro m
  refine ⟨takes_iff_of_running h hpart, takes_iff_of_sleeping h hpart,
    fun vector => entry_of_entered? h hpart, ?_, ?_⟩
  · intro instr hrun hdecoded hdelaying
    have hdelays := delaying_iff.mpr hdelaying
    refine ⟨entered?_of_delaying (h.mem_all hpart) hrun hdecoded hdelays, ?_⟩
    intro between hbetween next vector hentered
    have hawake := awake_foldl (awake_step_of_delaying hrun hdecoded hdelays) hbetween
    exact exists_decoded?_of_entered? hawake hentered
  · have hcharge := charge_foldl hnew hpart events
    have hstart := pendingCompletions_create hmade
    omega

/-- A program that asks for the interrupt of a completed transmission, sends a byte and switches
interrupts on. -/
def dispatcher : List Event :=
  [.load 0 [0x08, 0xE4, 0x00, 0x93, 0xC1, 0x00, 0x00, 0x93, 0xC6, 0x00, 0x78, 0x94, 0x00, 0x00],
    .step, .step, .step, .step]

theorem entered?_dispatcher :
    (createNamed "atmega48" {} { threshold := none }).toOption.map
      (fun new => ((dispatcher.foldl handle new).entered?, total writes new (dispatcher ++ [.step]))) =
        some (some 20, 1) := by
  decide +kernel

/-- The instruction behind the one that switches interrupts on is executed, and then the interrupt of
the byte is taken. -/
theorem dispatcher_interrupt_rule : ∃ new inspected : Machine,
    createNamed "atmega48" {} { threshold := none } = .ok new ∧
    (dispatcher.foldl handle new).entered? = some 20 ∧
    (dispatcher.foldl handle new).inspected? = some inspected ∧ inspected.RequestsFirst 20 ∧
    (dispatcher.foldl handle new).step.program.toNat = 20 * new.model.vectorSize ∧
    (dispatcher.foldl handle new).step.data.flag Flag.i.val = false ∧
    total (entries new.model.uart.transmitVector) new (dispatcher ++ [.step]) ≤ 1 := by
  have hrun := entered?_dispatcher
  cases hcreate : createNamed "atmega48" {} { threshold := none } with
  | error e =>
    rw [hcreate] at hrun
    cases hrun
  | ok new =>
    rw [hcreate] at hrun
    obtain ⟨hentered, hwrites⟩ := Prod.mk.inj (Option.some.inj hrun)
    obtain ⟨-, -, hentry, -⟩ := interrupt_rule hcreate dispatcher
    obtain ⟨inspected, hinspected, hfirst, -, hprogram, hflag, -⟩ := hentry 20 hentered
    obtain ⟨-, -, -, -, hcount⟩ := interrupt_rule hcreate (dispatcher ++ [.step])
    exact ⟨new, inspected, rfl, hentered, hinspected, hfirst, hprogram, hflag, hwrites ▸ hcount⟩

end Machine

end AvrSim
