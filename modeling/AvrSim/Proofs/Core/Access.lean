import AvrSim.Core.Bus
import AvrSim.Proofs.Wiring.Raise

/-!
# What an access to the data space can do

Reads, writes, pushes and pops reach the UART, its lines and their observers, and any of them may end
the run. `Core.Access` says all that they can do to a core besides changing data: the run goes on as it
was or has ended, it has ended if its end was reported, and program memory, program counter, cycles and
configuration are untouched.

* `Machine.access_read`, `Machine.access_write`, `Machine.access_push` and `Machine.access_pop` state
  it for the four kinds of access.
* `Entry.endsRun` recognises the entries by which a crash or a halt reports the end of the run.
-/

namespace AvrSim

/-- The entries that report the end of the run from within: crashes, which alone are errors, and
halts. -/
def Entry.endsRun (e : Entry) : Bool := e.level == Level.error || e.message == "halted"

namespace Core

/-- What accesses to the data space leave of a core. -/
structure Access (c c' : Core) : Prop where
  model : c'.model = c.model
  flash : c'.flash = c.flash
  program : c'.program = c.program
  cycle : c'.cycle = c.cycle
  frequency : c'.frequency = c.frequency
  codeEnd : c'.codeEnd = c.codeEnd
  interruptDelay : c'.interruptDelay = c.interruptDelay
  firstLine : c'.firstLine = c.firstLine
  probed : c'.probed = c.probed
  size : c'.data.size = c.data.size
  run : c'.run = c.run ∨ c'.run.isTerminal
  reported : ∀ e ∈ c'.journal.entries, e.endsRun → e ∈ c.journal.entries ∨ c'.run.isTerminal

namespace Access

theorem refl (c : Core) : Access c c where
  model := rfl
  flash := rfl
  program := rfl
  cycle := rfl
  frequency := rfl
  codeEnd := rfl
  interruptDelay := rfl
  firstLine := rfl
  probed := rfl
  size := rfl
  run := .inl rfl
  reported := fun _ he _ => .inl he

theorem terminal {c c' : Core} (h : Access c c') (ht : c.run.isTerminal) : c'.run.isTerminal := by
  rcases h.run with hrun | hrun
  · rw [hrun]
    exact ht
  · exact hrun

theorem trans {c c' c'' : Core} (h : Access c c') (h' : Access c' c'') : Access c c'' where
  model := h'.model.trans h.model
  flash := h'.flash.trans h.flash
  program := h'.program.trans h.program
  cycle := h'.cycle.trans h.cycle
  frequency := h'.frequency.trans h.frequency
  codeEnd := h'.codeEnd.trans h.codeEnd
  interruptDelay := h'.interruptDelay.trans h.interruptDelay
  firstLine := h'.firstLine.trans h.firstLine
  probed := h'.probed.trans h.probed
  size := h'.size.trans h.size
  run := by
    rcases h'.run with hrun | hrun
    · rcases h.run with hrun' | hrun'
      · exact .inl (hrun.trans hrun')
      · exact .inr (hrun ▸ hrun')
    · exact .inr hrun
  reported := by
    intro e he hends
    rcases h'.reported e he hends with he | hrun
    · rcases h.reported e he hends with he | hrun
      · exact .inl he
      · exact .inr (h'.terminal hrun)
    · exact .inr hrun

end Access

/-! ## Reports -/

theorem mem_report {core : Core} {level : Level} {message : String}
    {values : List (String × Value)} {e : Entry}
    (he : e ∈ (core.report level message values).journal.entries) :
    e ∈ core.journal.entries ∨ e.level = level ∧ e.message = message := by
  unfold report Journal.add at he
  dsimp only at he
  split at he
  · rcases Array.mem_push.mp he with he | rfl
    · exact .inl he
    · exact .inr ⟨rfl, rfl⟩
  · exact .inl he

theorem mem_of_mem_report (core : Core) {level : Level} {message : String}
    {values : List (String × Value)} (hlevel : level ≠ .error) (hmessage : message ≠ "halted")
    {e : Entry} (he : e ∈ (core.report level message values).journal.entries) (hends : e.endsRun) :
    e ∈ core.journal.entries := by
  rcases mem_report he with he | ⟨rfl, rfl⟩
  · exact he
  · simp [Entry.endsRun, hlevel, hmessage] at hends

theorem access_report (core : Core) {level : Level} {message : String}
    (values : List (String × Value)) (hlevel : level ≠ .error) (hmessage : message ≠ "halted") :
    Access core (core.report level message values) :=
  { Access.refl core with
    reported := fun _ he hends => .inl (mem_of_mem_report core hlevel hmessage he hends) }

theorem access_crash (core : Core) (message name : String) (value : Value) :
    Access core (core.crash message name value) :=
  { Access.refl core with run := .inr rfl, reported := fun _ _ _ => .inr rfl }

theorem access_halt (core : Core) : Access core core.halt := by
  unfold halt
  split
  · exact .refl core
  · exact { Access.refl core with run := .inr rfl, reported := fun _ _ _ => .inr rfl }

/-! ## Observers -/

theorem access_note (core : Core) (n : Note) : Access core (core.note n) :=
  { Access.refl core with }

theorem access_noteAccess (core : Core) (n : Note) : Access core (core.noteAccess n) := by
  unfold noteAccess
  split
  · exact access_note core n
  · exact .refl core

theorem access_receive (core : Core) (b : UInt8) : Access core (core.receive b).1 := by
  unfold receive
  split
  · dsimp only
    split
    · exact { Access.refl core with }
    · exact { Access.refl core with }
  · exact access_report core _ (by decide) (by decide)

theorem access_react (observer : Observer) (position : Nat) (line : Line Observer)
    (value : UInt32) (core : Core) : Access core (react observer position line value core).1 := by
  cases observer with
  | receive => exact access_receive core _
  | record tag haltOn =>
    dsimp only [react]
    split
    · exact (access_note core _).trans (access_halt _)
    · exact access_note core _

end Core

namespace Machine

theorem access_raise (m : Machine) (line : Nat) (value : UInt32) :
    Core.Access m.toCore (m.raise line value).toCore :=
  Wiring.raise_invariant (P := Core.Access m.toCore)
    (fun observer position l value _ h => h.trans (Core.access_react observer position l value _))
    line value m.wiring m.toCore (.refl _)

theorem access_setData (m : Machine) {data : Memory} (h : data.size = m.data.size) :
    Core.Access m.toCore ({ m with data := data } : Machine).toCore :=
  { Core.Access.refl m.toCore with size := h }

/-! ## The UART -/

theorem access_setUart (m : Machine) (uart : Uart) :
    Core.Access m.toCore ({ m with uart := uart } : Machine).toCore :=
  { Core.Access.refl m.toCore with }

theorem access_refreshStatus (m : Machine) : Core.Access m.toCore m.refreshStatus.toCore :=
  access_setData m (Memory.size_set _ _ _)

theorem access_receivedByte (m : Machine) : Core.Access m.toCore m.receivedByte.2.toCore := by
  unfold receivedByte
  split
  · exact Core.access_report _ _ (by decide) (by decide)
  · rename_i b rest _
    split
    · exact (access_setUart m _).trans (access_raise _ _ _)
    · exact access_setUart m _

theorem access_uartRead (m : Machine) (offset : Nat) :
    Core.Access m.toCore (m.uartRead offset).2.toCore := by
  unfold uartRead
  split
  · exact .refl _
  · split
    · exact access_receivedByte m
    · exact .refl _

theorem access_reportRate (m : Machine) : Core.Access m.toCore m.reportRate.toCore := by
  unfold reportRate
  dsimp only
  split
  · exact .refl _
  · exact Core.access_report _ _ (by decide) (by decide)

theorem access_send (m : Machine) (value : UInt8) : Core.Access m.toCore (m.send value).toCore := by
  have htransmit (m : Machine) : Core.Access m.toCore
      ({ m with uart := { m.uart with transmitted := true } } : Machine).refreshStatus.toCore :=
    (access_setUart m _).trans (access_refreshStatus _)
  unfold send
  dsimp only
  refine .trans ?_ (access_raise _ _ _)
  split
  · have hreport : Core.Access m.toCore (m.onCore fun core => core.report .debug
        "uart write with transmitter disabled" [core.uartName]).toCore :=
      Core.access_report m.toCore _ (by decide) (by decide)
    exact hreport.trans (htransmit _)
  · exact htransmit m

theorem access_uartWrite (m : Machine) (offset : Nat) (value : UInt8) :
    Core.Access m.toCore (m.uartWrite offset value).toCore := by
  unfold uartWrite
  split
  · dsimp only
    split
    · exact (access_setUart m _).trans (access_refreshStatus _)
    · exact access_refreshStatus m
  · split
    · exact access_reportRate m
    · split
      · exact access_send m value
      · exact .refl _

/-! ## Accesses -/

theorem access_read (m : Machine) (address : UInt16) :
    Core.Access m.toCore (m.read address).2.toCore := by
  unfold read
  split
  · dsimp only
    refine .trans ?_ (Core.access_noteAccess _ _)
    split
    · exact .refl _
    · exact .trans (access_uartRead m _) (access_setData _ (Memory.size_set _ _ _))
  · exact Core.access_crash _ _ _ _

theorem access_write (m : Machine) (address : UInt16) (value : UInt8) :
    Core.Access m.toCore (m.write address value).toCore := by
  unfold write
  split
  · dsimp only
    refine .trans (access_setData m (Memory.size_set _ address.toNat value)) ?_
    refine .trans ?_ (Core.access_noteAccess _ _)
    split
    · exact .refl _
    · exact access_uartWrite _ _ _
  · exact Core.access_crash _ _ _ _

end Machine

namespace Memory

@[simp] theorem size_setWord (m : Memory) (low high : Nat) (value : UInt16) :
    (m.setWord low high value).size = m.size := by
  simp [setWord]

@[simp] theorem size_setSp (m : Memory) (value : UInt16) : (m.setSp value).size = m.size := by
  simp [setSp]

end Memory

namespace Machine

theorem access_push (m : Machine) (value : UInt8) : Core.Access m.toCore (m.push value).toCore :=
  .trans (access_write m m.data.sp value) (access_setData _ (Memory.size_setSp _ _))

theorem access_pop (m : Machine) : Core.Access m.toCore m.pop.2.toCore :=
  .trans (access_setData m (Memory.size_setSp _ _)) (access_read _ _)

theorem access_pushAddress (m : Machine) (address : UInt32) :
    Core.Access m.toCore (m.pushAddress address).toCore :=
  (access_push m _).trans (access_push (m.push _) _)

theorem popAddress_snd (m : Machine) : m.popAddress.2 = m.pop.2.pop.2 := by
  simp only [popAddress]

theorem access_popAddress (m : Machine) : Core.Access m.toCore m.popAddress.2.toCore := by
  rw [popAddress_snd]
  exact (access_pop m).trans (access_pop m.pop.2)

end Machine

end AvrSim
