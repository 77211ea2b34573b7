import AvrSim.Harness.Client
import AvrSim.Proofs.Gdb.Mirror
import AvrSim.Proofs.Uart.Reception

/-!
# How far a debugger reaches

A client can change registers and memories, move the program counter, stop the core and let it go. The
UART, the lines and the notes taken of them are out of its reach, whatever it sends: bytes that wait in
the UART are not lost to a debugger, not even to one that reads the data register.

* `Gdb.Server.spares_serve`: answering packets spares the UART and the lines.
* `Gdb.Server.spares_attend`: so does the server's turn after an instruction.
* `Bench.spares_converse`: so does a whole conversation with a scripted client.
-/

namespace AvrSim

namespace Machine

/-- The machine `m'` differs from `m` in nothing that the UART, its lines or their listeners could tell,
and nothing was reported as lost. -/
structure Spares (m m' : Machine) : Prop where
  model : m'.model = m.model
  firstLine : m'.firstLine = m.firstLine
  probed : m'.probed = m.probed
  uart : m'.uart = m.uart
  notes : m'.notes = m.notes
  wiring : m'.wiring = m.wiring
  overruns : m'.overruns = m.overruns

namespace Spares

theorem refl (m : Machine) : Spares m m := ⟨rfl, rfl, rfl, rfl, rfl, rfl, rfl⟩

theorem trans {m m' m'' : Machine} (h : Spares m m') (h' : Spares m' m'') : Spares m m'' where
  model := h'.model.trans h.model
  firstLine := h'.firstLine.trans h.firstLine
  probed := h'.probed.trans h.probed
  uart := h'.uart.trans h.uart
  notes := h'.notes.trans h.notes
  wiring := h'.wiring.trans h.wiring
  overruns := h'.overruns.trans h.overruns

theorem inbox {m m' : Machine} (h : Spares m m') : m'.inbox = m.inbox := by
  unfold Core.inbox Core.signals
  rw [h.uart, h.notes]

theorem wired {m m' : Machine} (h : Spares m m') (hm : m.FlowWired) : m'.FlowWired :=
  hm.of_shape h.firstLine (congrArg Wiring.shape h.wiring)

end Spares

variable (m : Machine)

theorem spares_log (level : Level) {message : String} (values : List (String × Value))
    (hmessage : message ≠ Core.overrun) : Spares m (m.log level message values) :=
  ⟨rfl, rfl, rfl, rfl, rfl, rfl, Core.overruns_add m.toCore hmessage⟩

/-- The parts of a core that a client or a loader may change. -/
theorem spares_state (data flash : Memory) (program : UInt32) (run : RunState)
    (frequency codeEnd : UInt32) :
    Spares m { m with data, flash, program, run, frequency, codeEnd } :=
  ⟨rfl, rfl, rfl, rfl, rfl, rfl, rfl⟩

theorem spares_run (run : RunState) : Spares m { m with run } := spares_state m _ _ _ run _ _

theorem spares_storeRegister {m m' : Machine} {number : Nat} {value : List UInt8}
    (h : m.storeRegister? number value = some m') : Spares m m' := by
  unfold storeRegister? at h
  split at h
  · split at h
    · cases h
      exact spares_state _ _ _ _ _ _ _
    · split at h
      · cases h
        exact spares_state _ _ _ _ _ _ _
      · cases h
  · split at h
    · cases h
      exact spares_state _ _ _ _ _ _ _
    · split at h
      · cases h
        exact spares_state _ _ _ _ _ _ _
      · cases h
  · cases h

theorem spares_storeRegisters {m m' : Machine} {bytes : List UInt8}
    (h : m.storeRegisters? bytes = some m') : Spares m m' := by
  unfold storeRegisters? at h
  split at h
  · cases h
    dsimp only
    split
    · exact spares_state _ _ _ _ _ _ _
    · exact spares_state _ _ _ _ _ _ _
  · cases h

end Machine

namespace Gdb

open Machine (Spares)

theorem spares_writeMemory {m m' : Machine} {address : Nat} {bytes : List UInt8}
    (h : writeMemory? m address bytes = some m') : Spares m m' := by
  obtain ⟨⟨space, offset⟩, -, rfl⟩ := Option.map_eq_some_iff.mp h
  cases space with
  | flash => exact Machine.spares_state _ _ _ _ _ _ _
  | data => exact Machine.spares_state _ _ _ _ _ _ _

namespace Server

variable (s : Server) (m : Machine)

/-! ## Packets -/

theorem spares_answerChange {changed : Option Machine} (h : ∀ m', changed = some m' → Spares m m') :
    Spares m (s.answerChange m changed).machine := by
  cases changed with
  | none => exact .refl m
  | some m' => exact h m' rfl

theorem spares_changePoint (packet : Bytes) (request : Except PointError Point)
    (change : Points → Point → Points) :
    Spares m (s.changePoint m packet request change).machine := by
  unfold changePoint
  split
  · exact .refl m
  · exact Machine.spares_log m _ _ (by decide)

theorem spares_carryOut (packet : Bytes) (command : Command) :
    Spares m (s.carryOut m packet command).machine := by
  cases command with
  | writeRegisters bytes =>
    exact spares_answerChange s m fun m' hm' => Machine.spares_storeRegisters hm'
  | writeRegister number bytes =>
    exact spares_answerChange s m fun m' hm' => Machine.spares_storeRegister hm'
  | writeMemory address bytes =>
    exact spares_answerChange s m fun m' hm' => spares_writeMemory hm'
  | resume single target => exact Machine.spares_state _ _ _ _ _ _ _
  | kill => exact (Machine.spares_log m .info [] (by decide)).trans (Machine.spares_run _ _)
  | detach => exact (Machine.spares_log m .info [] (by decide)).trans (Machine.spares_run _ _)
  | insertPoint request => exact spares_changePoint s m packet request _
  | erasePoint request => exact spares_changePoint s m packet request _
  | stopReason => exact .refl m
  | features => exact .refl m
  | attached => exact .refl m
  | readRegisters => exact .refl m
  | readRegister number => exact .refl m
  | readMemory address length => exact .refl m
  | malformed => exact .refl m
  | unknown => exact .refl m

theorem spares_handle (packet : Bytes) : Spares m (s.handle m packet).machine := by
  unfold handle
  split
  · exact .refl m
  · exact (Machine.spares_log m _ _ (by decide)).trans (spares_carryOut s _ packet _)

/-! ## Serving -/

theorem spares_serveFrom (answers : List (Option Reply)) (packets : List Bytes) :
    Spares m (s.serveFrom m answers packets).2.1 := by
  induction packets generalizing s m answers with
  | nil =>
    unfold serveFrom
    dsimp only
    split
    · exact (Machine.spares_log m .info [] (by decide)).trans (Machine.spares_run _ _)
    · exact .refl m
  | cons packet packets ih =>
    have hhandle := spares_handle s m packet
    unfold serveFrom
    generalize s.handle m packet = a at hhandle
    dsimp only
    split
    · exact hhandle.trans (ih a.server a.machine (a.reply :: answers))
    · exact hhandle

theorem spares_serve : Spares m (s.serve m).2.1 := by
  unfold serve
  split
  · exact spares_serveFrom s m [] s.queue
  · exact .refl m

/-! ## The server's turn -/

theorem spares_stop (reason : StopReply) : Spares m (s.stop m reason).2.1 :=
  Machine.spares_run m .stopped

theorem spares_pollInterrupt (c : Connection) : Spares m (s.pollInterrupt c m).2.2 := by
  have hlog (packets : List Bytes) : Spares m (packets.foldl (fun m packet =>
      m.log .debug "gdb packet ignored while running" [("packet", .text packet)]) m) := by
    refine List.foldlRecOn (motive := Spares m) _ _ (.refl m) ?_
    intro m' hm' packet _
    exact hm'.trans (Machine.spares_log m' _ _ (by decide))
  unfold pollInterrupt
  dsimp only
  split
  · exact hlog _
  · split
    · exact (hlog _).trans (Machine.spares_log _ _ _ (by decide))
    · exact hlog _

theorem spares_attend : Spares m (s.attend m).2.1 := by
  unfold attend
  split
  · dsimp only
    split
    · exact Machine.spares_run m _
    · exact .refl m
  · rename_i c _
    split
    · exact spares_stop s m _
    · split
      · exact spares_stop s m _
      · have hpoll := spares_pollInterrupt s m c
        generalize s.pollInterrupt c m = result at hpoll
        obtain ⟨interrupted, s', m'⟩ := result
        dsimp only at hpoll ⊢
        split
        · exact hpoll.trans (spares_stop s' m' _)
        · split
          · exact hpoll.trans (spares_stop s' m' _)
          · exact hpoll

end Server

end Gdb

/-! ## Benches -/

namespace Bench

/-- The signals among the notes that were gathered. -/
def signals (b : Bench) : List Signal := b.seen.toList.filterMap Note.signal?

/-- A bench with a machine that is spared, and no signal more. -/
structure Spares (b b' : Bench) : Prop where
  machine : Machine.Spares b.machine b'.machine
  signals : b'.signals = b.signals

namespace Spares

theorem refl (b : Bench) : Spares b b := ⟨.refl b.machine, rfl⟩

theorem trans {b b' b'' : Bench} (h : Spares b b') (h' : Spares b' b'') : Spares b b'' :=
  ⟨h.machine.trans h'.machine, h'.signals.trans h.signals⟩

end Spares

theorem spares_attend (b : Bench) : Spares b b.attend.1 := by
  obtain ⟨m, instrument, seen⟩ := b
  cases instrument with
  | none => exact .refl _
  | recorder =>
    refine ⟨?_, ?_⟩
    · unfold attend
      dsimp only
      split
      · exact Machine.spares_run m _
      · exact .refl m
    · simp [attend, signals, Note.signal?]
  | server s => exact ⟨Gdb.Server.spares_attend s m, rfl⟩

theorem spares_serve (b : Bench) : Spares b b.serve.1 := by
  obtain ⟨m, instrument, seen⟩ := b
  cases instrument with
  | none => exact .refl _
  | recorder => exact .refl _
  | server s => exact ⟨Gdb.Server.spares_serve s m, rfl⟩

theorem spares_receive (b : Bench) (bytes : Bytes) : Spares b (b.receive bytes).1 := by
  obtain ⟨m, instrument, seen⟩ := b
  cases instrument with
  | none => exact .refl _
  | recorder => exact .refl _
  | server s => exact ⟨Gdb.Server.spares_serve (s.receive bytes).1 m, rfl⟩

theorem spares_hangUp (b : Bench) : Spares b b.hangUp := by
  obtain ⟨m, instrument, seen⟩ := b
  cases instrument with
  | none => exact .refl _
  | recorder => exact .refl _
  | server s => exact ⟨Gdb.Server.spares_serve s.hangUp m, rfl⟩

theorem spares_converseFrom (b : Bench) (c : Client) (packets : List Bytes) :
    Spares b (Client.converseFrom b c packets).1 := by
  induction packets generalizing b c with
  | nil =>
    unfold Client.converseFrom
    dsimp only
    split
    · exact spares_hangUp b
    · exact .refl b
  | cons packet packets ih =>
    unfold Client.converseFrom
    split
    · have hreceive := spares_receive b (Gdb.frame packet)
      generalize b.receive (Gdb.frame packet) = result at hreceive
      obtain ⟨b', arrivals, answers⟩ := result
      dsimp only at hreceive ⊢
      split
      · exact hreceive.trans (ih b' _)
      · exact hreceive
    · exact .refl b

theorem spares_converse (b : Bench) (c : Client) : Spares b (c.converse b).1 :=
  spares_converseFrom b c c.script

/-! ## Gathering -/

theorem signal_of_isPublic (notes : Array Note) :
    (notes.filter isPublic).toList.filterMap Note.signal? = notes.toList.filterMap Note.signal? := by
  have hsame : (fun n : Note => if isPublic n = true then n.signal? else none) = Note.signal? := by
    funext n
    cases n <;> rfl
  rw [Array.toList_filter, List.filterMap_filter, hsame]

/-- No signal is lost when notes are gathered. -/
theorem gather_spec (b : Bench) :
    b.gather.machine = b.machine.quiet ∧ b.gather.signals = b.signals ++ b.machine.signals := by
  obtain ⟨m, instrument, seen⟩ := b
  unfold signals Core.signals
  cases instrument with
  | none =>
    rw [gather_none, ← signal_of_isPublic m.notes]
    exact ⟨rfl, by simp⟩
  | server s =>
    rw [gather_server, ← signal_of_isPublic m.notes]
    exact ⟨rfl, by simp⟩
  | recorder =>
    unfold gather
    split
    · rename_i hempty
      have hnotes : m.notes = #[] := by simpa using hempty
      rw [Machine.quiet_of_notes hnotes, hnotes]
      exact ⟨rfl, by simp⟩
    · exact ⟨rfl, by simp⟩

end Bench

end AvrSim
