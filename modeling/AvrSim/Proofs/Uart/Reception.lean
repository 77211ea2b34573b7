import AvrSim.Proofs.Core.Break
import AvrSim.Proofs.Core.Course
import AvrSim.Proofs.Uart.Inbox
import AvrSim.Proofs.Wiring.Build

/-!
# The UART as an inbox

On a machine whose flow control lines are listened to, everything that can happen to the receiving side
of the UART is an operation of an `Inbox`: reads of the data register pop, raises of the input line put
a byte in, and nothing else touches it. What was popped can be read off the notes of an instrument.

* `Machine.popped_tick`: a step pops some bytes, which are those that the reads of the data register
  gave.
* `Machine.received_raise_input`, `Machine.received_raise_source`: a raise of the input line, or of a
  line that leads to it, is a byte received.
* `Machine.taken_append_pending`: what a step takes and what it leaves is what was there.
-/

namespace AvrSim

/-! ## Reading the state of a core -/

/-- The signal that a note is about. -/
def Note.signal? : Note → Option Signal
  | .line .xon _ => some .xon
  | .line .xoff _ => some .xoff
  | _ => none

/-- The value that a read of an address gave. -/
def Note.readAt? (address : Nat) : Note → Option UInt8
  | .read a value => if a.toNat = address then some value else none
  | _ => none

namespace Core

/-- The signals noted. -/
def signals (core : Core) : List Signal := core.notes.toList.filterMap Note.signal?

/-- The receiving side of the UART. -/
def inbox (core : Core) : Inbox := ⟨core.uart.pending, core.uart.xoff, core.signals⟩

/-- What the noted reads of the data register gave. -/
def delivered (core : Core) : List UInt8 :=
  core.notes.toList.filterMap (Note.readAt? (core.model.uart.base.toNat + Machine.udr))

/-- The complaints about bytes that found the UART full. -/
def overruns (core : Core) : List Entry :=
  core.journal.entries.toList.filter fun e => e.message == overrun

theorem overruns_add (core : Core) {e : Entry} (h : e.message ≠ overrun) :
    ({ core with journal := core.journal.add e } : Core).overruns = core.overruns := by
  unfold overruns Journal.add
  dsimp only
  split
  · simp [h]
  · rfl

theorem overruns_report (core : Core) (level : Level) {message : String}
    (values : List (String × Value)) (h : message ≠ overrun) :
    (core.report level message values).overruns = core.overruns :=
  overruns_add core h

/-- The core after a byte, with the note of the stop that its sender may be told. -/
def received (b : UInt8) (core : Core) : Core :=
  if (core.receive b).2.isSome then (core.receive b).1.note (.line .xoff 1) else (core.receive b).1

theorem receive_of_last {core : Core} (b : UInt8)
    (hlast : core.uart.pending.length + 1 = Uart.capacity ∧ core.uart.xoff = false) :
    core.receive b =
      ({ core with uart := { core.uart with pending := core.uart.pending ++ [b], xoff := true } },
        some (core.firstLine + 3, 1)) := by
  unfold receive
  rw [if_pos (by omega)]
  exact if_pos (by simpa using hlast)

theorem receive_of_room {core : Core} (b : UInt8)
    (hroom : core.uart.pending.length < Uart.capacity)
    (hlast : ¬ (core.uart.pending.length + 1 = Uart.capacity ∧ core.uart.xoff = false)) :
    core.receive b =
      ({ core with uart := { core.uart with pending := core.uart.pending ++ [b] } }, none) := by
  unfold receive
  rw [if_pos hroom]
  exact if_neg (by simpa using hlast)

theorem receive_of_full {core : Core} (b : UInt8)
    (hroom : ¬ core.uart.pending.length < Uart.capacity) :
    core.receive b = (core.report .warn overrun [core.uartName], none) :=
  if_neg hroom

theorem receive_snd (core : Core) (b : UInt8) :
    (core.receive b).2 = none ∨ (core.receive b).2 = some (core.firstLine + 3, 1) := by
  unfold receive
  split
  · dsimp only
    split
    · exact .inr rfl
    · exact .inl rfl
  · exact .inl rfl

end Core

/-! ## Machines that are listened to -/

/-- A recorder that is not for flow control. -/
def Observer.IsOutlet (observer : Observer) : Prop :=
  ∃ tag haltOn, observer = .record tag haltOn ∧ tag ≠ .xon ∧ tag ≠ .xoff

namespace Machine

/-- The UART alone listens to its input line and one recorder to each of its flow control lines; what
it sends reaches no one but recorders. -/
structure FlowWired (m : Machine) : Prop where
  input : m.wiring.Carries (m.lineOf .input) [.receive] []
  xon : m.wiring.Carries (m.lineOf .xon) [.record .xon none] []
  xoff : m.wiring.Carries (m.lineOf .xoff) [.record .xoff none] []
  output : ∃ among, among (m.lineOf .output) ∧ m.wiring.Closed among Observer.IsOutlet

theorem lineOf_congr {m m' : Machine} (h : m'.firstLine = m.firstLine) (tag : LineTag) :
    m'.lineOf tag = m.lineOf tag := by
  cases tag <;> simp [lineOf, h]

theorem FlowWired.of_shape {m m' : Machine} (h : m.FlowWired) (hfirst : m'.firstLine = m.firstLine)
    (hshape : m'.wiring.shape = m.wiring.shape) : m'.FlowWired := by
  have hline := lineOf_congr hfirst
  obtain ⟨hinput, hxon, hxoff, among, hamong, hclosed⟩ := h
  refine ⟨?_, ?_, ?_, among, ?_, hclosed.of_shape hshape⟩
  · rw [hline]
    exact hinput.of_shape hshape
  · rw [hline]
    exact hxon.of_shape hshape
  · rw [hline]
    exact hxoff.of_shape hshape
  · rw [hline]
    exact hamong

theorem lineOf_ne (m : Machine) {tag tag' : LineTag} (h : tag ≠ tag') :
    m.lineOf tag ≠ m.lineOf tag' := by
  cases tag <;> cases tag' <;> simp_all [lineOf]

/-- A machine as it was made: only the UART listens, to its input line, and nothing was received. -/
structure Pristine (m : Machine) : Prop where
  input : m.wiring.Carries (m.lineOf .input) [.receive] []
  output : m.wiring.Carries (m.lineOf .output) [] []
  xon : m.wiring.Carries (m.lineOf .xon) [] []
  xoff : m.wiring.Carries (m.lineOf .xoff) [] []
  uart : m.uart = {}
  notes : m.notes = #[]

theorem pristine_create {model : Model} {w : Wiring Observer} {journal : Journal} {m : Machine}
    (hm : create model w journal = .ok m) : m.Pristine := by
  obtain ⟨w', hsubscribe, hm⟩ := exists_of_bind_eq_ok hm
  cases hm
  have hnew (i : Nat) (hi : i < 4) :
      (w.alloc pool 0 4 (lineNames model.uart)).Carries (w.lines.size + i) [] [] :=
    Wiring.carries_alloc w pool 0 hi _
  exact {
    input := Wiring.carries_subscribe hsubscribe (hnew 0 (by decide))
    output := (hnew 1 (by decide)).subscribe hsubscribe (by omega)
    xon := (hnew 2 (by decide)).subscribe hsubscribe (by omega)
    xoff := (hnew 3 (by decide)).subscribe hsubscribe (by omega)
    uart := rfl
    notes := rfl }

theorem Pristine.inbox {m : Machine} (h : m.Pristine) : m.inbox = ⟨[], false, []⟩ := by
  simp [Core.inbox, Core.signals, h.uart, h.notes]

/-- The machine `m'` comes from `m` by popping `n` bytes, as far as the receiving side and the lines
can tell. -/
structure Popped (n : Nat) (m m' : Machine) : Prop where
  model : m'.model = m.model
  firstLine : m'.firstLine = m.firstLine
  probed : m'.probed = m.probed
  shape : m'.wiring.shape = m.wiring.shape
  inbox : m'.inbox = (m.inbox.popAll n).2
  delivered : m.probed = true → m'.delivered = m.delivered ++ (m.inbox.popAll n).1
  overruns : m'.overruns = m.overruns

theorem Popped.wired {n : Nat} {m m' : Machine} (h : Popped n m m') (hm : m.FlowWired) :
    m'.FlowWired :=
  hm.of_shape h.firstLine h.shape

theorem Popped.trans {n k : Nat} {m m' m'' : Machine} (h : Popped n m m') (h' : Popped k m' m'') :
    Popped (n + k) m m'' where
  model := h'.model.trans h.model
  firstLine := h'.firstLine.trans h.firstLine
  probed := h'.probed.trans h.probed
  shape := h'.shape.trans h.shape
  inbox := by rw [h'.inbox, h.inbox, Inbox.popAll_add]
  delivered := by
    intro hprobed
    rw [h'.delivered (h.probed.trans hprobed), h.delivered hprobed, h.inbox, Inbox.popAll_add,
      List.append_assoc]
  overruns := h'.overruns.trans h.overruns

theorem popped_zero {m m' : Machine} (hmodel : m'.model = m.model)
    (hfirst : m'.firstLine = m.firstLine) (hprobed : m'.probed = m.probed)
    (hshape : m'.wiring.shape = m.wiring.shape) (hinbox : m'.inbox = m.inbox)
    (hdelivered : m'.delivered = m.delivered) (hoverruns : m'.overruns = m.overruns) :
    Popped 0 m m' where
  model := hmodel
  firstLine := hfirst
  probed := hprobed
  shape := hshape
  inbox := hinbox
  delivered := by
    intro _
    rw [hdelivered]
    exact (List.append_nil _).symm
  overruns := hoverruns

variable (m : Machine)

theorem popped_refl : Popped 0 m m := popped_zero rfl rfl rfl rfl rfl rfl rfl

theorem popped_setData (data : Memory) : Popped 0 m { m with data } :=
  popped_zero rfl rfl rfl rfl rfl rfl rfl

theorem popped_transmitted (transmitted : Bool) :
    Popped 0 m { m with uart := { m.uart with transmitted } } :=
  popped_zero rfl rfl rfl rfl rfl rfl rfl

theorem popped_report (level : Level) (message : String) (values : List (String × Value))
    (hmessage : message ≠ Core.overrun) :
    Popped 0 m (m.onCore fun core => core.report level message values) :=
  popped_zero rfl rfl rfl rfl rfl rfl (Core.overruns_report m.toCore level values hmessage)

theorem popped_crash (message name : String) (value : Value)
    (hmessage : message ≠ Core.overrun) :
    Popped 0 m (m.onCore fun core => core.crash message name value) :=
  popped_zero rfl rfl rfl rfl rfl rfl (Core.overruns_report m.toCore _ _ hmessage)

/-! ## Notes -/

theorem signals_note (core : Core) (n : Note) :
    (core.note n).signals = core.signals ++ n.signal?.toList := by
  unfold Core.signals Core.note
  simp [List.filterMap_append, List.filterMap_cons]
  cases n.signal? <;> rfl

theorem delivered_note (core : Core) (n : Note) :
    (core.note n).delivered =
      core.delivered ++ (n.readAt? (core.model.uart.base.toNat + udr)).toList := by
  unfold Core.delivered Core.note
  simp [List.filterMap_append, List.filterMap_cons]
  cases n.readAt? (core.model.uart.base.toNat + udr) <;> rfl

theorem inbox_note (core : Core) {n : Note} (h : n.signal? = none) :
    (core.note n).inbox = core.inbox := by
  unfold Core.inbox
  rw [signals_note, h]
  simp [Core.note]

theorem delivered_note_of_none (core : Core) {n : Note}
    (h : n.readAt? (core.model.uart.base.toNat + udr) = none) :
    (core.note n).delivered = core.delivered := by
  rw [delivered_note, h]
  simp

/-- A note of an access that is not a read of the data register. -/
theorem popped_noted {n : Note} (hsignal : n.signal? = none)
    (hread : n.readAt? (m.uartAddress udr) = none) : Popped 0 m (m.noted n) := by
  unfold noted onCore Core.noteAccess
  dsimp only
  split
  · exact popped_zero rfl rfl rfl rfl (inbox_note m.toCore hsignal)
      (delivered_note_of_none m.toCore hread) rfl
  · exact popped_refl m

/-! ## Sending -/

theorem popped_raise_output {m : Machine} (hm : m.FlowWired) (value : UInt32) :
    Popped 0 m (m.raise (m.lineOf .output) value) := by
  obtain ⟨among, hamong, hclosed⟩ := hm.output
  have haccess := access_raise m (m.lineOf .output) value
  -- recorders take notes and may halt the core, which the receiving side does not notice
  have hkept : (m.raise (m.lineOf .output) value).inbox = m.inbox ∧
      (m.raise (m.lineOf .output) value).delivered = m.delivered ∧
      (m.raise (m.lineOf .output) value).overruns = m.overruns := by
    refine Wiring.raise_closed
      (P := fun core : Core => core.inbox = m.inbox ∧ core.delivered = m.delivered ∧
        core.overruns = m.overruns) ?_ value hamong hclosed ⟨rfl, rfl, rfl⟩
    rintro observer position l value core ⟨tag, haltOn, rfl, hxon, hxoff⟩
      ⟨hinbox, hdelivered, hoverruns⟩
    have hsignal : (Note.line tag value).signal? = none := by
      cases tag <;> first | rfl | contradiction
    refine ⟨?_, rfl⟩
    have hnote : (core.note (.line tag value)).inbox = m.inbox ∧
        (core.note (.line tag value)).delivered = m.delivered ∧
        (core.note (.line tag value)).overruns = m.overruns :=
      ⟨(inbox_note core hsignal).trans hinbox, (delivered_note_of_none core rfl).trans hdelivered,
        hoverruns⟩
    unfold Core.react
    dsimp only
    generalize core.note (.line tag value) = noted at hnote
    split
    · unfold Core.halt
      split
      · exact hnote
      · exact ⟨hnote.1, hnote.2.1, (Core.overruns_report noted _ _ (by decide)).trans hnote.2.2⟩
    · exact hnote
  exact popped_zero haccess.model haccess.firstLine haccess.probed
    (Wiring.shape_raise Core.react _ value m.wiring m.toCore) hkept.1 hkept.2.1 hkept.2.2

theorem popped_refreshStatus : Popped 0 m m.refreshStatus := popped_setData m _

theorem popped_transmit {m : Machine} (hm : m.FlowWired) (value : UInt8) :
    Popped 0 m (m.transmit value) := by
  have hready := (popped_transmitted m true).trans (popped_refreshStatus _)
  exact hready.trans (popped_raise_output (hready.wired hm) _)

theorem popped_send {m : Machine} (hm : m.FlowWired) (value : UInt8) :
    Popped 0 m (m.send value) := by
  rw [send_eq]
  split
  · have hreport := popped_report m .debug "uart write with transmitter disabled" [m.uartName]
      (by decide)
    exact hreport.trans (popped_transmit (hreport.wired hm) value)
  · exact popped_transmit hm value

theorem popped_uartWrite {m : Machine} (hm : m.FlowWired) (offset : Nat) (value : UInt8) :
    Popped 0 m (m.uartWrite offset value) := by
  unfold uartWrite
  split
  · dsimp only
    split
    · exact (popped_transmitted m false).trans (popped_refreshStatus _)
    · exact popped_refreshStatus m
  · split
    · unfold reportRate
      dsimp only
      split
      · exact popped_refl m
      · exact popped_report m _ _ _ (by decide)
    · split
      · exact popped_send hm value
      · exact popped_refl m

theorem popped_write {m : Machine} (hm : m.FlowWired) (address : UInt16) (value : UInt8) :
    Popped 0 m (m.write address value) := by
  rw [write_eq]
  split
  · have hstored := popped_setData m (m.data.set address.toNat value)
    have hforward : Popped 0 { m with data := m.data.set address.toNat value }
        (({ m with data := m.data.set address.toNat value } : Machine).forward address value) := by
      unfold forward
      split
      · exact popped_refl _
      · exact popped_uartWrite (hstored.wired hm) _ value
    exact (hstored.trans hforward).trans (popped_noted _ rfl rfl)
  · exact popped_crash m _ _ _ (by decide)

/-! ## Receiving -/

/-- A recorder alone on a line takes a note. -/
theorem raise_record {m : Machine} {line : Nat} {tag : LineTag}
    (h : m.wiring.Carries line [.record tag none] []) (value : UInt32) :
    m.raise line value = { m with
      notes := m.notes.push (.line tag value), wiring := m.wiring.setValue line value } := by
  obtain ⟨depth, hdepth⟩ : ∃ depth, m.wiring.raiseDepth = depth + 1 :=
    Nat.exists_eq_add_one.mpr (Nat.mul_pos (Nat.succ_pos _) (Nat.succ_pos _))
  obtain ⟨l, hraise⟩ := Wiring.raiseWithin_of_carries Core.react depth value
    (show (m.wiring, m.toCore).1.Carries line _ _ from h)
  unfold raise Wiring.raise
  dsimp only
  rw [hdepth, hraise]
  rfl

/-- The machine after a byte was taken from a full queue and before the sender hears of it. -/
def drained (rest : List UInt8) (m : Machine) : Machine :=
  { m with uart := { m.uart with pending := rest, xoff := false } }

theorem receivedByte_of_nil {m : Machine} (h : m.uart.pending = []) :
    m.receivedByte = (0, m.onCore fun core =>
      core.report .debug "uart read with empty receive buffer" [core.uartName]) := by
  unfold receivedByte
  rw [h]

theorem receivedByte_of_full {m : Machine} {b : UInt8} {rest : List UInt8}
    (h : m.uart.pending = b :: rest) (hfull : m.uart.xoff = true ∧ rest.length < Uart.capacity) :
    m.receivedByte = (b, (m.drained rest).raise (m.lineOf .xon) 1) := by
  unfold receivedByte
  rw [h]
  exact if_pos (by simpa using hfull)

theorem receivedByte_of_not_full {m : Machine} {b : UInt8} {rest : List UInt8}
    (h : m.uart.pending = b :: rest)
    (hfull : ¬ (m.uart.xoff = true ∧ rest.length < Uart.capacity)) :
    m.receivedByte = (b, { m with uart := { m.uart with pending := rest } }) := by
  unfold receivedByte
  rw [h]
  exact if_neg (by simpa using hfull)

/-- Taking a byte is a pop, of which no instrument knows yet. -/
theorem receivedByte_spec {m : Machine} (hm : m.FlowWired) :
    m.receivedByte.1 = m.inbox.pop.1 ∧ m.receivedByte.2.inbox = m.inbox.pop.2 ∧
      m.receivedByte.2.delivered = m.delivered ∧ m.receivedByte.2.overruns = m.overruns ∧
      m.receivedByte.2.wiring.shape = m.wiring.shape := by
  cases hpending : m.uart.pending with
  | nil =>
    rw [receivedByte_of_nil hpending, Inbox.pop_of_nil (show m.inbox.pending = [] from hpending)]
    exact ⟨rfl, rfl, rfl, Core.overruns_report m.toCore _ _ (by decide), rfl⟩
  | cons b rest =>
    have hinbox : m.inbox.pending = b :: rest := hpending
    by_cases hfull : m.uart.xoff = true ∧ rest.length < Uart.capacity
    · have hxon : (m.drained rest).wiring.Carries (m.lineOf .xon) [.record .xon none] [] := hm.xon
      rw [receivedByte_of_full hpending hfull, Inbox.pop_of_full hinbox hfull, raise_record hxon]
      refine ⟨rfl, ?_, ?_, rfl, Wiring.shape_setValue _ _ _⟩
      · simp [Core.inbox, Core.signals, Note.signal?, drained]
      · simp [Core.delivered, Note.readAt?, drained]
    · rw [receivedByte_of_not_full hpending hfull, Inbox.pop_of_not_full hinbox hfull]
      exact ⟨rfl, rfl, rfl, rfl, rfl⟩

theorem address_of_uartOffset? {m : Machine} {address : UInt16} {offset : Nat}
    (h : m.uartOffset? address = some offset) : address.toNat = m.uartAddress offset := by
  unfold uartOffset? at h
  dsimp only at h
  split at h
  · cases h
    unfold uartAddress
    omega
  · cases h

theorem uartOffset?_of_udr {m : Machine} {address : UInt16}
    (haddress : address.toNat = m.uartAddress udr) : m.uartOffset? address = some udr := by
  unfold uartAddress at haddress
  unfold uartOffset?
  rw [haddress]
  simp

theorem update_udr {m : Machine} {address : UInt16} (haddress : address.toNat = m.uartAddress udr) :
    m.update address = { m.receivedByte.2 with
      data := m.receivedByte.2.data.set address.toNat m.receivedByte.1 } := by
  unfold update
  rw [uartOffset?_of_udr haddress]
  rfl

theorem get_update_udr {m : Machine} {address : UInt16} (hrange : address.toNat < m.data.size)
    (haddress : address.toNat = m.uartAddress udr) :
    (m.update address).data.get address.toNat = m.receivedByte.1 := by
  rw [update_udr haddress]
  refine (Memory.get_set _ _ _ _).trans (if_pos ⟨rfl, ?_⟩)
  rw [(access_receivedByte m).size]
  exact hrange

/-- A read of the data register gives the byte that it takes. -/
theorem read_udr {m : Machine} {address : UInt16} (hrange : address.toNat < m.data.size)
    (haddress : address.toNat = m.uartAddress udr) :
    ∃ data, (m.read address).2 =
      ({ m.receivedByte.2 with data } : Machine).noted (.read address m.receivedByte.1) := by
  refine ⟨m.receivedByte.2.data.set address.toNat m.receivedByte.1, ?_⟩
  rw [read_eq, if_pos hrange]
  dsimp only
  rw [get_update_udr hrange haddress, update_udr haddress]

theorem popped_read_udr {m : Machine} (hm : m.FlowWired) {address : UInt16}
    (hrange : address.toNat < m.data.size) (haddress : address.toNat = m.uartAddress udr) :
    Popped 1 m (m.read address).2 := by
  obtain ⟨data, hread⟩ := read_udr hrange haddress
  obtain ⟨hbyte, hinbox, hdelivered, hoverruns, hshape⟩ := receivedByte_spec hm
  have haccess := access_receivedByte m
  rw [hread, hbyte]
  generalize m.receivedByte.2 = m' at hinbox hdelivered hoverruns hshape haccess
  unfold noted onCore Core.noteAccess
  dsimp only
  split
  · refine ⟨haccess.model, haccess.firstLine, haccess.probed, hshape, ?_, ?_, hoverruns⟩
    · exact (inbox_note _ rfl).trans hinbox
    · intro _
      have hat : Note.readAt? (m'.model.uart.base.toNat + udr) (.read address m.inbox.pop.1) =
          some m.inbox.pop.1 := by
        rw [haccess.model]
        exact if_pos haddress
      refine (delivered_note _ _).trans ?_
      show m'.delivered ++ (Note.readAt? (m'.model.uart.base.toNat + udr) _).toList = _
      rw [hat, hdelivered]
      rfl
  · rename_i hprobed
    refine ⟨haccess.model, haccess.firstLine, haccess.probed, hshape, hinbox, ?_, hoverruns⟩
    intro htrue
    exact absurd (haccess.probed.trans htrue) hprobed

theorem popped_read {m : Machine} (hm : m.FlowWired) (address : UInt16) :
    ∃ n, Popped n m (m.read address).2 := by
  by_cases hrange : address.toNat < m.data.size
  · by_cases haddress : address.toNat = m.uartAddress udr
    · exact ⟨1, popped_read_udr hm hrange haddress⟩
    · refine ⟨0, ?_⟩
      have hupdate : Popped 0 m (m.update address) := by
        unfold update
        split
        · exact popped_refl m
        · rename_i offset hoffset
          have hudr : offset ≠ udr := by
            rintro rfl
            exact haddress (address_of_uartOffset? hoffset)
          obtain ⟨value, hvalue⟩ : ∃ value, m.uartRead offset = (value, m) := by
            unfold uartRead
            rw [if_neg hudr]
            split
            · exact ⟨_, rfl⟩
            · exact ⟨_, rfl⟩
          rw [hvalue]
          exact popped_setData m _
      rw [read_eq, if_pos hrange]
      refine hupdate.trans (popped_noted _ rfl ?_)
      refine if_neg ?_
      rw [uartAddress, hupdate.model]
      exact haddress
  · refine ⟨0, ?_⟩
    rw [read_eq, if_neg hrange]
    exact popped_crash m _ _ _ (by decide)

/-! ## Steps -/

theorem popped_stroke {m m' : Machine} (h : Stroke m m') (hm : m.FlowWired) :
    ∃ n, Popped n m m' := by
  cases h with
  | compute hsize hrest =>
    refine ⟨0, ?_⟩
    rw [hrest]
    exact popped_zero rfl rfl rfl rfl rfl rfl rfl
  | report level message values hmessage => exact ⟨0, popped_report m level message values hmessage⟩
  | acknowledge => exact ⟨0, popped_transmitted m false⟩
  | read address => exact popped_read hm address
  | write address value => exact ⟨0, popped_write hm address value⟩

theorem popped_course {m m' : Machine} (h : Course m m') (hm : m.FlowWired) :
    ∃ n, Popped n m m' := by
  induction h with
  | refl => exact ⟨0, popped_refl m⟩
  | tail _ hstroke ih =>
    obtain ⟨n, hpopped⟩ := ih
    obtain ⟨k, hlast⟩ := popped_stroke hstroke (hpopped.wired hm)
    exact ⟨n + k, hpopped.trans hlast⟩

/-- A step pops some bytes. -/
theorem popped_tick {m : Machine} (hm : m.FlowWired) : ∃ n, Popped n m m.tick.1 :=
  popped_course (course_tick m) hm

theorem popped_push {m : Machine} (hm : m.FlowWired) (value : UInt8) : Popped 0 m (m.push value) :=
  (popped_write hm m.data.sp value).trans (popped_setData _ _)

theorem popped_pushAddress {m : Machine} (hm : m.FlowWired) (address : UInt32) :
    Popped 0 m (m.pushAddress address) := by
  have hlow := popped_push hm address.toUInt8
  exact hlow.trans (popped_push (hlow.wired hm) _)

/-- Entering an interrupt only writes. -/
theorem popped_serviceInterrupts {m : Machine} (hm : m.FlowWired) :
    Popped 0 m m.serviceInterrupts := by
  rw [serviceInterrupts_eq]
  split
  · rename_i vector _
    have hacknowledge : Popped 0 m (m.acknowledge vector) := by
      unfold acknowledge
      split
      · exact popped_transmitted m false
      · exact popped_refl m
    have hreport := hacknowledge.trans
      (popped_report _ .debug "interrupt" [("vector", .number vector)] (by decide))
    have hstack : Popped 0 m (m.stackReturn vector) :=
      hreport.trans (popped_pushAddress (hreport.wired hm) _)
    rw [enterInterrupt_eq]
    generalize m.stackReturn vector = m' at hstack
    have hvectored : Popped 0 m' (m'.vectored vector) := popped_zero rfl rfl rfl rfl rfl rfl rfl
    exact hstack.trans hvectored
  · exact popped_zero rfl rfl rfl rfl rfl rfl rfl

/-! ## Raises of the input line -/

/-- The machine `m'` comes from `m` by receiving a byte, as far as the receiving side and the lines can
tell. -/
structure Received (b : UInt8) (m m' : Machine) : Prop where
  model : m'.model = m.model
  firstLine : m'.firstLine = m.firstLine
  probed : m'.probed = m.probed
  shape : m'.wiring.shape = m.wiring.shape
  inbox : m'.inbox = m.inbox.receive b
  delivered : m'.delivered = m.delivered
  overruns : m.uart.pending.length < Uart.capacity → m'.overruns = m.overruns

theorem received_spec (core : Core) (b : UInt8) :
    (core.received b).inbox = core.inbox.receive b ∧ (core.received b).delivered = core.delivered ∧
      (core.uart.pending.length < Uart.capacity → (core.received b).overruns = core.overruns) := by
  unfold Core.received
  by_cases hlast : core.uart.pending.length + 1 = Uart.capacity ∧ core.uart.xoff = false
  · rw [Core.receive_of_last b hlast, Inbox.receive_of_last b hlast]
    refine ⟨?_, delivered_note_of_none _ rfl, fun _ => rfl⟩
    simp [Core.inbox, Core.signals, Core.note, Note.signal?]
  · by_cases hroom : core.uart.pending.length < Uart.capacity
    · rw [Core.receive_of_room b hroom hlast, Inbox.receive_of_room b hroom hlast]
      exact ⟨rfl, rfl, fun _ => rfl⟩
    · rw [Core.receive_of_full b hroom, Inbox.receive_of_full b hroom]
      exact ⟨rfl, rfl, fun h => absurd h hroom⟩

/-- A raise that reaches the input line while another one is still possible. -/
theorem raiseWithin_input {m : Machine} (hm : m.FlowWired) {w : Wiring Observer}
    (hshape : w.shape = m.wiring.shape) (depth : Nat) (value : UInt32) :
    (Wiring.raiseWithin Core.react (depth + 2) (m.lineOf .input) value (w, m.toCore)).2 =
      m.toCore.received value.toUInt8 := by
  obtain ⟨l, hraise⟩ := Wiring.raiseWithin_of_carries Core.react (depth + 1) value
    (show (w, m.toCore).1.Carries (m.lineOf .input) _ _ from hm.input.of_shape hshape)
  rw [hraise]
  have hreact : Core.react .receive (m.lineOf .input) l value m.toCore =
      m.toCore.receive value.toUInt8 := rfl
  dsimp only [List.foldl_cons, List.foldl_nil, Wiring.notify]
  rw [hreact]
  unfold Core.received
  obtain hnone | hsome := Core.receive_snd m.toCore value.toUInt8
  · generalize m.toCore.receive value.toUInt8 = result at hnone
    obtain ⟨core, raised⟩ := result
    cases hnone
    rfl
  · have hxoff : (w.setValue (m.lineOf .input) value).Carries (m.lineOf .xoff)
        [.record .xoff none] [] :=
      hm.xoff.of_shape ((Wiring.shape_setValue _ _ _).trans hshape)
    generalize m.toCore.receive value.toUInt8 = result at hsome
    obtain ⟨core, raised⟩ := result
    cases hsome
    obtain ⟨l', hraise'⟩ := Wiring.raiseWithin_of_carries Core.react depth 1
      (show (w.setValue (m.lineOf .input) value, core).1.Carries (m.lineOf .xoff) _ _ from hxoff)
    exact congrArg Prod.snd hraise'

theorem received_raise {m : Machine} {line : Nat} {value : UInt32} {b : UInt8}
    (h : (m.raise line value).toCore = m.toCore.received b) : Received b m (m.raise line value) := by
  have haccess := access_raise m line value
  obtain ⟨hinbox, hdelivered, hoverruns⟩ := received_spec m.toCore b
  refine ⟨haccess.model, haccess.firstLine, haccess.probed,
    Wiring.shape_raise Core.react line value m.wiring m.toCore, ?_, ?_, ?_⟩
  · rw [h, hinbox]
  · rw [h, hdelivered]
  · intro hroom
    rw [h, hoverruns hroom]

theorem exists_raiseDepth {m : Machine} {line : Nat} {observers : List Observer}
    {sinks : List Nat} (h : m.wiring.Carries line observers sinks) :
    ∃ depth, m.wiring.raiseDepth = depth + 3 := by
  obtain ⟨l, hl, -⟩ := h
  have hsize : 0 < m.wiring.lines.size := by
    have := (Array.getElem?_eq_some_iff.mp hl).1
    omega
  have hdepth : 3 ≤ m.wiring.raiseDepth :=
    Nat.le_trans (by decide) (Nat.mul_le_mul (Nat.succ_le_succ hsize) (Nat.succ_le_succ hsize))
  exact Nat.exists_eq_add_of_le' hdepth

theorem received_raise_input {m : Machine} (hm : m.FlowWired) (value : UInt32) :
    Received value.toUInt8 m (m.raise (m.lineOf .input) value) := by
  obtain ⟨depth, hdepth⟩ := exists_raiseDepth hm.input
  apply received_raise
  show (Wiring.raise Core.react _ value m.wiring m.toCore).2 = _
  unfold Wiring.raise
  rw [hdepth]
  exact raiseWithin_input hm rfl (depth + 1) value

/-- A line that leads to the input line passes a raise on. -/
theorem toCore_raise_source {m : Machine} (hm : m.FlowWired) {line : Nat}
    (hline : m.wiring.Carries line [] [m.lineOf .input]) (value : UInt32) :
    (m.raise line value).toCore = m.toCore.received value.toUInt8 := by
  obtain ⟨depth, hdepth⟩ := exists_raiseDepth hline
  obtain ⟨l, hraise⟩ := Wiring.raiseWithin_of_carries Core.react (depth + 2) value
    (show (m.wiring, m.toCore).1.Carries line _ _ from hline)
  show (Wiring.raise Core.react _ value m.wiring m.toCore).2 = _
  unfold Wiring.raise
  rw [hdepth, hraise]
  exact raiseWithin_input hm (Wiring.shape_setValue _ _ _) depth value

theorem received_raise_source {m : Machine} (hm : m.FlowWired) {line : Nat}
    (hline : m.wiring.Carries line [] [m.lineOf .input]) (value : UInt32) :
    Received value.toUInt8 m (m.raise line value) :=
  received_raise (toCore_raise_source hm hline value)

/-! ## What a step delivers -/

/-- The machine with an instrument that has noted nothing yet. -/
def watched (m : Machine) : Machine := { m with probed := true, notes := #[] }

/-- The bytes that the firmware takes from the data register in the next step. Nothing arrives within a
step, so the reads that find a byte come before those that find none. -/
def taken (m : Machine) : List UInt8 := m.watched.tick.1.delivered.take m.uart.pending.length

theorem pending_tick_watched {m : Machine} (hm : m.FlowWired) :
    m.taken ++ m.watched.tick.1.uart.pending = m.uart.pending := by
  have hwatched : m.watched.FlowWired := hm.of_shape rfl rfl
  obtain ⟨n, hpopped⟩ := popped_tick hwatched
  have hdelivered : m.watched.tick.1.delivered = (m.watched.inbox.popAll n).1 :=
    hpopped.delivered rfl
  have hpending : m.watched.tick.1.uart.pending = m.uart.pending.drop n :=
    (congrArg Inbox.pending hpopped.inbox).trans (Inbox.pending_popAll n m.watched.inbox)
  have htaken : m.taken = m.uart.pending.take n := by
    unfold taken
    rw [hdelivered]
    exact Inbox.popped_take n m.watched.inbox
  rw [htaken, hpending, List.take_append_drop]

theorem pending_caughtUp {m : Machine} (hm : m.FlowWired) :
    m.caughtUp.uart.pending = m.uart.pending := by
  unfold caughtUp
  split
  · have hservice := popped_serviceInterrupts (hm.of_shape rfl rfl : m.resumed.FlowWired)
    exact congrArg Inbox.pending hservice.inbox
  · rfl

/-- Apart from its notes, an instrument only makes a core stop behind a break. -/
theorem view_tick_watched {m : Machine} (hrun : m.run ≠ .stopped) (hprobed : m.probed = false)
    (hnotes : m.notes = #[]) : m.tick.1.view false = m.watched.tick.1.caughtUp.view false := by
  have hview : m.watched.view false = m.view false := by
    unfold watched view onCore Core.view
    simp [hnotes]
  have hne : m.tick.1.run ≠ .stopped := by
    intro hstopped
    rw [(probed_of_tick hrun hstopped).1] at hprobed
    cases hprobed
  calc m.tick.1.view false
    _ = (m.view false).tick.1 := by rw [view_tick_unwatched hrun, caughtUp_of_ne hne]
    _ = (m.watched.view false).tick.1 := by rw [hview]
    _ = m.watched.tick.1.caughtUp.view false := view_tick_unwatched hrun

/-- An instrument changes nothing about what a step leaves in the queue. -/
theorem pending_tick_eq {m : Machine} (hm : m.FlowWired) (hnotes : m.notes = #[]) :
    m.tick.1.uart.pending = m.watched.tick.1.uart.pending := by
  by_cases hstopped : m.run = .stopped
  · have hstays (m : Machine) (hrun : m.run = .stopped) : m.tick.1.uart = m.uart := by
      simp only [tick, hrun]
      split <;> rfl
    rw [hstays m hstopped, hstays m.watched hstopped]
    rfl
  · cases hprobed : m.probed with
    | true =>
      have hsame : m.watched = m := by
        unfold watched
        rw [← hprobed, ← hnotes]
      rw [hsame]
    | false =>
      have hview := view_tick_watched hstopped hprobed hnotes
      obtain ⟨n, hpopped⟩ := popped_tick (hm.of_shape rfl rfl : m.watched.FlowWired)
      calc m.tick.1.uart.pending
        _ = m.watched.tick.1.caughtUp.uart.pending := congrArg (·.uart.pending) hview
        _ = m.watched.tick.1.uart.pending :=
          pending_caughtUp (hpopped.wired (hm.of_shape rfl rfl))

/-- What a step takes and what it leaves is what was there. -/
theorem taken_append_pending {m : Machine} (hm : m.FlowWired) (hnotes : m.notes = #[]) :
    m.taken ++ m.tick.1.uart.pending = m.uart.pending := by
  rw [pending_tick_eq hm hnotes]
  exact pending_tick_watched hm

end Machine

end AvrSim
