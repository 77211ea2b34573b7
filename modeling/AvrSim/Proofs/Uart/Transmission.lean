import AvrSim.Proofs.Core.Fabric
import AvrSim.Proofs.Core.Reachable
import AvrSim.Proofs.Uart.Reception

/-!
# What a step sends

A firmware sends by writing to the data register of the UART, and there are many ways to write: stores,
pushes, calls, and the entry of an interrupt if the stack pointer happens to stand there. Each byte goes
over the output line to a recorder, which may halt the core in the middle of the instruction. A step
nevertheless sends at most two bytes, one by its instruction and one by the entry of an interrupt, and a
byte that halts the core is the last of its step.

* `Machine.sends_once`: an instruction sends at most one byte, and a last byte ends the run.
* `Machine.relays_tick`: what a whole step writes is what the recorder hears.
* `Machine.sunk_tick`: the same for a machine that nobody watches.
-/

namespace AvrSim

/-- The value that reached the line behind the output. -/
def Note.sunk? : Note → Option UInt32
  | .line .sink value => some value
  | _ => none

/-- The byte that a write left at an address. -/
def Note.writtenAt? (address : Nat) : Note → Option UInt8
  | .write a value => if a.toNat = address then some value else none
  | _ => none

theorem mem_of_mem_dropLast_append {α : Type} {l l' : List α} {a : α}
    (h : a ∈ (l ++ l').dropLast) : a ∈ l ∨ a ∈ l'.dropLast := by
  rw [List.dropLast_append] at h
  split at h
  · exact .inl (List.dropLast_subset l h)
  · exact List.mem_append.mp h

namespace Core

/-- The values noted behind the output. -/
def sunk (core : Core) : List UInt32 := core.notes.toList.filterMap Note.sunk?

/-- What the noted writes to the data register of the UART left there. -/
def stored (core : Core) : List UInt8 :=
  core.notes.toList.filterMap (Note.writtenAt? (core.model.uart.base.toNat + Machine.udr))

theorem sunk_note (core : Core) (n : Note) : (core.note n).sunk = core.sunk ++ n.sunk?.toList := by
  simp [sunk, note, List.filterMap_cons]
  cases n.sunk? <;> rfl

theorem stored_note (core : Core) (n : Note) :
    (core.note n).stored =
      core.stored ++ (n.writtenAt? (core.model.uart.base.toNat + Machine.udr)).toList := by
  simp [stored, note, List.filterMap_cons]
  cases n.writtenAt? (core.model.uart.base.toNat + Machine.udr) <;> rfl

theorem notes_halt (core : Core) : core.halt.notes = core.notes := by
  unfold halt
  split <;> rfl

theorem run_halt (core : Core) : core.halt.run.isTerminal = true := by
  unfold halt
  split
  · assumption
  · rfl

end Core

namespace Machine

/-! ## The way of a byte -/

/-- What a machine sends reaches one recorder, who halts the core at `last`, and nothing of it can be
mistaken for flow control. -/
structure Tapped (m : Machine) (sink : Nat) (last : UInt32) : Prop where
  output : m.wiring.Carries (m.lineOf .output) [] [sink]
  heard : m.wiring.Carries sink [.record .sink (some last)] []
  xon : ∃ among, among (m.lineOf .xon) ∧ m.wiring.Closed among (· = .record .xon none)

variable {m m' : Machine} {sink : Nat} {last : UInt32}

theorem Tapped.of_shape (h : m.Tapped sink last) (hfirst : m'.firstLine = m.firstLine)
    (hshape : m'.wiring.shape = m.wiring.shape) : m'.Tapped sink last := by
  have hline := lineOf_congr hfirst
  obtain ⟨among, hamong, hclosed⟩ := h.xon
  refine ⟨?_, h.heard.of_shape hshape, among, ?_, hclosed.of_shape hshape⟩
  · rw [hline]
    exact h.output.of_shape hshape
  · rw [hline]
    exact hamong

theorem Tapped.course (h : m.Tapped sink last) (hcourse : Course m m') : m'.Tapped sink last :=
  h.of_shape (stays_course hcourse).firstLine (revalued_course hcourse).shape

/-- The recorder hears `bytes` on the way from `m` to `m'`, and these are the bytes written to the data
register, as far as writes are noted. -/
structure Relays (bytes : List UInt8) (m m' : Machine) : Prop where
  sunk : m'.sunk = m.sunk ++ bytes.map UInt8.toUInt32
  stored : m.probed = true → m'.stored = m.stored ++ bytes

theorem relays_refl (m : Machine) : Relays [] m m :=
  ⟨(List.append_nil _).symm, fun _ => (List.append_nil _).symm⟩

theorem Relays.trans {bytes bytes' : List UInt8} {m m' m'' : Machine} (h : Relays bytes m m')
    (hprobed : m'.probed = m.probed) (h' : Relays bytes' m' m'') : Relays (bytes ++ bytes') m m'' where
  sunk := by rw [h'.sunk, h.sunk, List.map_append, List.append_assoc]
  stored := by
    intro hp
    rw [h'.stored (hprobed.trans hp), h.stored hp, List.append_assoc]

theorem relays_of_notes (hmodel : m'.model = m.model) (hnotes : m'.notes = m.notes) :
    Relays [] m m' := by
  refine ⟨?_, fun _ => ?_⟩
  · simp [Core.sunk, hnotes]
  · simp [Core.stored, hnotes, hmodel]

theorem sunk_noted (m : Machine) {n : Note} (h : n.sunk? = none) : (m.noted n).sunk = m.sunk := by
  unfold noted onCore Core.noteAccess
  dsimp only
  split
  · show (m.toCore.note n).sunk = _
    rw [Core.sunk_note, h]
    exact List.append_nil _
  · rfl

theorem stored_noted (n : Note) (h : m.probed = true) :
    (m.noted n).stored = m.stored ++ (n.writtenAt? (m.uartAddress udr)).toList := by
  have hnoted : (m.noted n).toCore = m.toCore.note n := if_pos h
  rw [hnoted]
  exact Core.stored_note m.toCore n

/-- A note of an access that is not a write to the data register. -/
theorem relays_noted (m : Machine) {n : Note} (hsunk : n.sunk? = none)
    (hwritten : n.writtenAt? (m.uartAddress udr) = none) : Relays [] m (m.noted n) where
  sunk := (sunk_noted m hsunk).trans (List.append_nil _).symm
  stored := by
    intro hprobed
    rw [stored_noted n hprobed, hwritten]
    rfl

/-! ## Strokes that send nothing -/

theorem relays_raise_xon (hm : m.Tapped sink last) (value : UInt32) :
    Relays [] m (m.raise (m.lineOf .xon) value) := by
  obtain ⟨among, hamong, hclosed⟩ := hm.xon
  have hkept : (m.raise (m.lineOf .xon) value).model = m.model ∧
      (m.raise (m.lineOf .xon) value).sunk = m.sunk ∧
      (m.raise (m.lineOf .xon) value).stored = m.stored := by
    refine Wiring.raise_closed (P := fun core : Core =>
      core.model = m.model ∧ core.sunk = m.sunk ∧ core.stored = m.stored) ?_ value hamong hclosed
      ⟨rfl, rfl, rfl⟩
    rintro observer position l value core rfl ⟨hmodel, hsunk, hstored⟩
    refine ⟨⟨hmodel, ?_, ?_⟩, rfl⟩
    · exact (Core.sunk_note core (.line .xon value)).trans ((List.append_nil _).trans hsunk)
    · exact (Core.stored_note core (.line .xon value)).trans ((List.append_nil _).trans hstored)
  exact ⟨by rw [hkept.2.1, List.map_nil, List.append_nil],
    fun _ => by rw [hkept.2.2, List.append_nil]⟩

theorem relays_receivedByte (hm : m.Tapped sink last) : Relays [] m m.receivedByte.2 := by
  unfold receivedByte
  split
  · exact relays_of_notes rfl rfl
  · rename_i b rest _
    split
    · have hdrained : (m.drained rest).Tapped sink last := hm.of_shape rfl rfl
      have hraised := relays_raise_xon hdrained 1
      exact ⟨hraised.sunk, hraised.stored⟩
    · exact relays_of_notes rfl rfl

theorem relays_uartRead (hm : m.Tapped sink last) (offset : Nat) :
    Relays [] m (m.uartRead offset).2 := by
  unfold uartRead
  split
  · exact relays_refl m
  · split
    · exact relays_receivedByte hm
    · exact relays_refl m

theorem relays_read (hm : m.Tapped sink last) (address : UInt16) :
    Relays [] m (m.read address).2 := by
  have hupdate : Relays [] m (m.update address) := by
    unfold update
    split
    · exact relays_refl m
    · rename_i offset _
      have hread := relays_uartRead hm offset
      exact ⟨hread.sunk, hread.stored⟩
  rw [read_eq]
  split
  · have hprobed : (m.update address).probed = m.probed := by
      unfold update
      split
      · rfl
      · exact (access_uartRead m _).probed
    exact hupdate.trans hprobed (relays_noted _ rfl rfl)
  · exact relays_of_notes rfl rfl

theorem relays_calm (hm : m.Tapped sink last) (h : Calm m m') : Relays [] m m' := by
  cases h with
  | compute hsize hrest =>
    rw [hrest]
    exact relays_of_notes rfl rfl
  | report level message values hmessage => exact relays_of_notes rfl rfl
  | acknowledge => exact relays_of_notes rfl rfl
  | read address => exact relays_read hm address

theorem relays_still (hm : m.Tapped sink last) (h : Still m m') : Relays [] m m' := by
  induction h with
  | refl => exact relays_refl m
  | tail hbefore hcalm ih =>
    have hcourse := Still.course hbefore
    exact ih.trans (stays_course hcourse).probed (relays_calm (hm.course hcourse) hcalm)

/-! ## Stores -/

/-- Raising the output reaches the recorder and nobody else. -/
theorem toCore_raise_output (hm : m.Tapped sink last) (value : UInt32) :
    (m.raise (m.lineOf .output) value).toCore =
      if value = last then (m.toCore.note (.line .sink value)).halt
      else m.toCore.note (.line .sink value) := by
  obtain ⟨depth, hdepth⟩ := exists_raiseDepth hm.output
  obtain ⟨l, hraise⟩ := Wiring.raiseWithin_of_carries Core.react (depth + 2) value
    (show (m.wiring, m.toCore).1.Carries (m.lineOf .output) _ _ from hm.output)
  have hheard : (m.wiring.setValue (m.lineOf .output) value).Carries sink
      [.record .sink (some last)] [] :=
    hm.heard.of_shape (Wiring.shape_setValue _ _ _)
  obtain ⟨l', hraise'⟩ := Wiring.raiseWithin_of_carries Core.react (depth + 1) value
    (show (m.wiring.setValue (m.lineOf .output) value, m.toCore).1.Carries sink _ _ from hheard)
  show (Wiring.raise Core.react _ value m.wiring m.toCore).2 = _
  unfold Wiring.raise
  rw [hdepth, hraise]
  dsimp only [List.foldl_cons, List.foldl_nil]
  rw [hraise']
  dsimp only [List.foldl_cons, List.foldl_nil, Wiring.notify, Core.react]
  by_cases hlast : value = last
  · subst hlast
    simp
  · have hne : ¬ last = value := fun heq => hlast heq.symm
    simp [hlast, hne]

theorem notes_transmit (hm : m.Tapped sink last) (value : UInt8) :
    (m.transmit value).notes = m.notes.push (.line .sink value.toUInt32) ∧
      (value.toUInt32 = last → (m.transmit value).run.isTerminal = true) := by
  have hready : (({ m with uart := { m.uart with transmitted := true } } :
      Machine).refreshStatus).Tapped sink last := hm.of_shape rfl rfl
  have hcore := toCore_raise_output hready value.toUInt32
  have hnotes : (({ m with uart := { m.uart with transmitted := true } } :
      Machine).refreshStatus).notes = m.notes := rfl
  unfold transmit
  dsimp only
  generalize ({ m with uart := { m.uart with transmitted := true } } : Machine).refreshStatus = ready
    at hcore hnotes
  rw [hcore, ← hnotes]
  split
  · exact ⟨Core.notes_halt _, fun _ => Core.run_halt _⟩
  · rename_i hlast
    exact ⟨rfl, fun h => absurd h hlast⟩

/-- A byte that is sent is heard, and the last one ends the run. -/
theorem notes_send (hm : m.Tapped sink last) (value : UInt8) :
    (m.send value).notes = m.notes.push (.line .sink value.toUInt32) ∧
      (value.toUInt32 = last → (m.send value).run.isTerminal = true) := by
  rw [send_eq]
  split
  · have hreported : (m.onCore fun core => core.report .debug
        "uart write with transmitter disabled" [core.uartName]).Tapped sink last :=
      hm.of_shape rfl rfl
    exact notes_transmit hreported value
  · exact notes_transmit hm value

/-- Sending changes the status register only. -/
theorem get_send (m : Machine) (value : UInt8) {address : Nat}
    (haddress : address ≠ m.uartAddress ucsra) :
    (m.send value).data.get address = m.data.get address := by
  have htransmit (m : Machine) (haddress : address ≠ m.uartAddress ucsra) :
      (m.transmit value).data.get address = m.data.get address := by
    unfold transmit
    rw [data_raise]
    exact (Memory.get_set _ _ _ _).trans (if_neg fun h => haddress h.1.symm)
  rw [send_eq]
  split
  · exact htransmit (m.onCore _) haddress
  · exact htransmit m haddress

/-- At most one byte is sent on the way from `m` to `m'`, and if it is the last one the run has
ended. -/
structure Sends (last : UInt32) (bytes : List UInt8) (m m' : Machine) : Prop where
  relays : Relays bytes m m'
  few : bytes.length ≤ 1
  ends : ∀ b ∈ bytes, b.toUInt32 = last → m'.run.isTerminal = true

theorem sends_nil (h : Relays [] m m') : Sends last [] m m' := ⟨h, Nat.zero_le 1, nofun⟩

theorem Sends.after {bytes : List UInt8} {m₁ m₂ : Machine} (h : Sends last bytes m₁ m₂)
    (hbefore : Relays [] m m₁) (hprobed : m₁.probed = m.probed) : Sends last bytes m m₂ :=
  ⟨hbefore.trans hprobed h.relays, h.few, h.ends⟩

theorem Sends.before {bytes : List UInt8} {m₁ m₂ : Machine} (h : Sends last bytes m m₁)
    (hafter : Relays [] m₁ m₂) (hprobed : m₁.probed = m.probed)
    (hrun : m₁.run.isTerminal = true → m₂.run.isTerminal = true) : Sends last bytes m m₂ where
  relays := by
    rw [← List.append_nil bytes]
    exact h.relays.trans hprobed hafter
  few := h.few
  ends := fun b hb hlast => hrun (h.ends b hb hlast)

/-- A write to the data register stores the value and sends it. -/
theorem write_udr {address : UInt16} (hrange : address.toNat < m.data.size)
    (haddress : address.toNat = m.uartAddress udr) (value : UInt8) :
    m.write address value =
      (({ m with data := m.data.set address.toNat value } : Machine).send value).noted
        (.write address value) := by
  have hoffset : ({ m with data := m.data.set address.toNat value } : Machine).uartOffset? address =
      some udr := uartOffset?_of_udr haddress
  have hforward : ({ m with data := m.data.set address.toNat value } : Machine).forward address value =
      ({ m with data := m.data.set address.toNat value } : Machine).send value := by
    unfold forward
    rw [hoffset]
    rfl
  have hne : address.toNat ≠
      ({ m with data := m.data.set address.toNat value } : Machine).uartAddress ucsra := by
    rw [haddress]
    show m.uartAddress udr ≠ m.uartAddress ucsra
    simp [uartAddress, udr, ucsra]
  rw [write_eq, if_pos hrange]
  dsimp only
  rw [hforward, get_send _ value hne, Memory.get_set, if_pos ⟨rfl, hrange⟩]

theorem sends_write_udr (hm : m.Tapped sink last) {address : UInt16}
    (hrange : address.toNat < m.data.size) (haddress : address.toNat = m.uartAddress udr)
    (value : UInt8) : Sends last [value] m (m.write address value) := by
  have hstored : ({ m with data := m.data.set address.toNat value } : Machine).Tapped sink last :=
    hm.of_shape rfl rfl
  have haccess := access_send { m with data := m.data.set address.toNat value } value
  obtain ⟨hnotes, hends⟩ := notes_send hstored value
  rw [write_udr hrange haddress]
  generalize ({ m with data := m.data.set address.toNat value } : Machine).send value = sent
    at haccess hnotes hends
  have hmodel : sent.model = m.model := haccess.model
  have hprobed : sent.probed = m.probed := haccess.probed
  have hrun : (sent.noted (.write address value)).run = sent.run := by
    unfold noted onCore Core.noteAccess
    dsimp only
    split <;> rfl
  have hwritten : Note.writtenAt? (sent.uartAddress udr) (.write address value) = some value := by
    unfold uartAddress
    rw [hmodel]
    exact if_pos haddress
  refine ⟨⟨?_, ?_⟩, Nat.le_refl 1, ?_⟩
  · rw [sunk_noted sent rfl]
    simp [Core.sunk, hnotes, Note.sunk?]
  · intro htrue
    rw [stored_noted _ (hprobed.trans htrue), hwritten]
    simp [Core.stored, hnotes, hmodel, Note.writtenAt?]
  · intro b hb hlast
    rw [List.mem_singleton.mp hb] at hlast
    rw [hrun]
    exact hends hlast

theorem access_forward (m : Machine) (address : UInt16) (value : UInt8) :
    Core.Access m.toCore (m.forward address value).toCore := by
  unfold forward
  split
  · exact .refl _
  · exact access_uartWrite m _ value

/-- The other registers of the UART take no note. -/
theorem notes_forward_of_ne (m : Machine) {address : UInt16}
    (haddress : address.toNat ≠ m.uartAddress udr) (value : UInt8) :
    (m.forward address value).notes = m.notes := by
  unfold forward
  split
  · rfl
  · rename_i offset hoffset
    have hudr : offset ≠ udr := by
      rintro rfl
      exact haddress (address_of_uartOffset? hoffset)
    unfold uartWrite
    split
    · dsimp only
      split <;> rfl
    · split
      · unfold reportRate
        dsimp only
        split <;> rfl
      · rfl

/-- A write to any other place is not heard. -/
theorem relays_write_of_ne (m : Machine) {address : UInt16}
    (haddress : address.toNat ≠ m.uartAddress udr) (value : UInt8) :
    Relays [] m (m.write address value) := by
  have haddress' : address.toNat ≠
      ({ m with data := m.data.set address.toNat value } : Machine).uartAddress udr := haddress
  have hnotes := notes_forward_of_ne _ haddress' value
  have haccess := access_forward { m with data := m.data.set address.toNat value } address value
  rw [write_eq]
  split
  · dsimp only
    generalize ({ m with data := m.data.set address.toNat value } : Machine).forward address value =
      forwarded at hnotes haccess
    have hmodel : forwarded.model = m.model := haccess.model
    have hforwarded : Relays [] m forwarded := relays_of_notes hmodel hnotes
    refine hforwarded.trans haccess.probed ?_
    apply relays_noted
    · rfl
    · refine if_neg ?_
      unfold uartAddress
      rw [hmodel]
      exact haddress
  · exact relays_of_notes rfl rfl

theorem sends_write (hm : m.Tapped sink last) (address : UInt16) (value : UInt8) :
    ∃ bytes, Sends last bytes m (m.write address value) := by
  by_cases haddress : address.toNat = m.uartAddress udr
  · by_cases hrange : address.toNat < m.data.size
    · exact ⟨[value], sends_write_udr hm hrange haddress value⟩
    · refine ⟨[], sends_nil ?_⟩
      rw [write_eq, if_neg hrange]
      exact relays_of_notes rfl rfl
  · exact ⟨[], sends_nil (relays_write_of_ne m haddress value)⟩

/-! ## The stack -/

theorem sends_push (hm : m.Tapped sink last) (value : UInt8) :
    ∃ bytes, Sends last bytes m (m.push value) := by
  obtain ⟨bytes, hsends⟩ := sends_write hm m.data.sp value
  exact ⟨bytes, hsends.before (relays_of_notes rfl rfl) (access_write m _ value).probed id⟩

theorem relays_push_of_ne (m : Machine) (hsp : m.data.sp.toNat ≠ m.uartAddress udr) (value : UInt8) :
    Relays [] m (m.push value) :=
  (relays_write_of_ne m hsp value).trans (access_write m _ value).probed (relays_of_notes rfl rfl)

theorem sp_push (hroom : sphAddress < m.data.size) (value : UInt8) :
    (m.push value).data.sp = m.data.sp - 1 := by
  have hsize : (m.write m.data.sp value).data.size = m.data.size := (access_write m _ value).size
  unfold push
  exact sp_setSp (hsize.symm ▸ hroom) _

/-- Two pushes go to two places, so that one of them at most is heard. -/
theorem sends_pushAddress (hm : m.Tapped sink last) (hroom : sphAddress < m.data.size)
    (address : UInt32) : ∃ bytes, Sends last bytes m (m.pushAddress address) := by
  have hfirst := course_push m address.toUInt8
  have hstays := stays_course hfirst
  unfold pushAddress
  by_cases hsp : m.data.sp.toNat = m.uartAddress udr
  · -- the first byte is heard, and the stack pointer moves on even if that byte ends the run
    obtain ⟨bytes, hsends⟩ := sends_push hm address.toUInt8
    have hnext : (m.push address.toUInt8).data.sp.toNat ≠ (m.push address.toUInt8).uartAddress udr := by
      rw [sp_push hroom]
      unfold uartAddress
      rw [hstays.model]
      show _ ≠ m.uartAddress udr
      rw [← hsp]
      intro heq
      have hsame : m.data.sp - 1 = m.data.sp := UInt16.toNat_inj.mp heq
      grind
    refine ⟨bytes, hsends.before (relays_push_of_ne _ hnext _) hstays.probed ?_⟩
    exact fun hterminal => (access_push _ _).terminal hterminal
  · obtain ⟨bytes, hsends⟩ := sends_push (hm.course hfirst) (address >>> 8).toUInt8
    exact ⟨bytes, hsends.after (relays_push_of_ne m hsp _) hstays.probed⟩

/-! ## Steps -/

theorem sends_store (hm : m.Tapped sink last) (hroom : sphAddress < m.data.size)
    (h : Store m m') : ∃ bytes, Sends last bytes m m' := by
  cases h with
  | write address value => exact sends_write hm address value
  | pushAddress address => exact sends_pushAddress hm hroom address

theorem Rounds.relays (h : Rounds m m') : Relays [] m m' := by
  rw [h.rest]
  exact relays_of_notes rfl rfl

/-- An instruction sends at most one byte, and a last byte ends the run. -/
theorem sends_once (hm : m.Tapped sink last) (hroom : sphAddress < m.data.size)
    (h : Once m m') : ∃ bytes, Sends last bytes m m' := by
  cases h with
  | still hstill => exact ⟨[], sends_nil (relays_still hm hstill)⟩
  | @store m₁ m₂ hbefore hstore hafter =>
    have hcourse := hbefore.course
    have hstays := stays_course hcourse
    obtain ⟨bytes, hsends⟩ := sends_store (hm.course hcourse) (hstays.size.symm ▸ hroom) hstore
    have hrun : m'.run = m₂.run := by rw [hafter.rest]
    have hprobed := (stays_course hstore.course).probed
    refine ⟨bytes, (hsends.before hafter.relays hprobed ?_).after (relays_still hm hbefore)
      hstays.probed⟩
    rw [hrun]
    exact id

/-- The entry of an interrupt sends at most one byte. -/
theorem relays_serviceInterrupts (hm : m.Tapped sink last) (hroom : sphAddress < m.data.size) :
    ∃ bytes, bytes.length ≤ 1 ∧ Relays bytes m m.serviceInterrupts := by
  rw [serviceInterrupts_eq]
  split
  · rename_i vector _
    obtain ⟨m₁, address, hstill, hstack⟩ := exists_stackReturn m vector
    have hcourse := hstill.course
    have hstays := stays_course hcourse
    obtain ⟨bytes, hsends⟩ :=
      sends_pushAddress (hm.course hcourse) (hstays.size.symm ▸ hroom) address
    have hprobed := (stays_course (Store.pushAddress m₁ address).course).probed
    rw [enterInterrupt_eq, hstack]
    generalize m₁.pushAddress address = m₂ at hsends hprobed
    have hentered := hsends.relays.trans hprobed
      (relays_of_notes rfl rfl : Relays [] m₂ (m₂.vectored vector))
    rw [List.append_nil] at hentered
    exact ⟨bytes, hsends.few, (relays_still hm hstill).trans hstays.probed hentered⟩
  · exact ⟨[], Nat.zero_le 1, relays_of_notes rfl rfl⟩

/-- No byte comes behind the last one. -/
def LastOnly (last : UInt32) (bytes : List UInt8) : Prop := ∀ b ∈ bytes.dropLast, b.toUInt32 ≠ last

theorem lastOnly_of_few {bytes : List UInt8} (h : bytes.length ≤ 1) : LastOnly last bytes := by
  have hnil : bytes.dropLast = [] := by
    apply List.eq_nil_of_length_eq_zero
    rw [List.length_dropLast]
    omega
  unfold LastOnly
  rw [hnil]
  nofun

theorem lastOnly_append {bytes bytes' : List UInt8} (h : ∀ b ∈ bytes, b.toUInt32 ≠ last)
    (h' : LastOnly last bytes') : LastOnly last (bytes ++ bytes') := by
  intro b hb
  rcases mem_of_mem_dropLast_append hb with hb | hb
  · exact h b hb
  · exact h' b hb

/-- An instruction, and then the interrupt that may be taken behind it. A last byte of the instruction
ends the run, and no interrupt is taken. -/
theorem relays_interrupted (hm : m.Tapped sink last) (hroom : sphAddress < m.data.size)
    {bytes : List UInt8} {executed ready : Machine} (hsends : Sends last bytes m executed)
    (hcourse : Course m ready) (hstill : Relays [] executed ready)
    (hprobed : executed.probed = m.probed) (hrun : executed.run.isTerminal = false) :
    ∃ bytes, LastOnly last bytes ∧ Relays bytes m ready.serviceInterrupts := by
  have hstays := stays_course hcourse
  obtain ⟨bytes', hfew, hentered⟩ :=
    relays_serviceInterrupts (hm.course hcourse) (hstays.size.symm ▸ hroom)
  refine ⟨bytes ++ bytes', lastOnly_append ?_ (lastOnly_of_few hfew), ?_⟩
  · intro b hb hlast
    rw [hsends.ends b hb hlast] at hrun
    cases hrun
  · have hready := hsends.relays.trans hprobed hstill
    rw [List.append_nil] at hready
    exact hready.trans hstays.probed hentered

/-- What a whole step writes to the data register is what the recorder hears. -/
theorem relays_tick (hm : m.Tapped sink last) (hroom : sphAddress < m.data.size)
    (hrun : m.run ≠ .stopped) :
    ∃ bytes, LastOnly last bytes ∧ Relays bytes m m.tick.1.caughtUp := by
  by_cases hterminal : m.run.isTerminal
  · rw [tick_of_isTerminal hterminal, caughtUp_of_ne hrun]
    exact ⟨[], nofun, relays_refl m⟩
  by_cases hsleeping : m.run = .sleeping
  · have hwoken : ({ m with cycle := m.cycle + 1 } : Machine).Tapped sink last := hm.of_shape rfl rfl
    obtain ⟨bytes, hfew, hentered⟩ := relays_serviceInterrupts hwoken hroom
    have hactive : ({ m with cycle := m.cycle + 1 } : Machine).serviceInterrupts.run ≠ .stopped :=
      serviceInterrupts_ne_stopped hrun
    rw [tick_of_sleeping hsleeping, caughtUp_of_ne hactive]
    exact ⟨bytes, lastOnly_of_few hfew, hentered.sunk, hentered.stored⟩
  rw [tick_of_active hterminal hrun hsleeping]
  show ∃ bytes, LastOnly last bytes ∧ Relays bytes m m.execute.settled.caughtUp
  obtain ⟨bytes, hsends⟩ := sends_once hm hroom (once_execute m)
  have hcourse := course_execute m
  have hprobed := (stays_course hcourse).probed
  generalize m.execute = executed at hsends hcourse hprobed
  by_cases hrunning : executed.run = .running
  · have hsettled : executed.settled = executed.serviceInterrupts := if_pos hrunning
    have hactive : executed.serviceInterrupts.run ≠ .stopped :=
      serviceInterrupts_ne_stopped (by rw [hrunning]; nofun)
    rw [hsettled, caughtUp_of_ne hactive]
    exact relays_interrupted hm hroom hsends hcourse (relays_refl _) hprobed (by rw [hrunning]; rfl)
  · have hsettled : executed.settled = executed := if_neg hrunning
    rw [hsettled]
    by_cases hstopped : executed.run = .stopped
    · -- a break sends nothing, but an interrupt may still be due behind it
      have hcaught : executed.caughtUp = executed.resumed.serviceInterrupts := if_pos hstopped
      rw [hcaught]
      exact relays_interrupted hm hroom hsends (hcourse.trans (still_run _ .running).course)
        (relays_of_notes rfl rfl) hprobed (by rw [hstopped]; rfl)
    · rw [caughtUp_of_ne hstopped]
      exact ⟨bytes, lastOnly_of_few hsends.few, hsends.relays⟩

/-! ## Machines that nobody watches -/

/-- The bytes that the next step writes to the data register: those that an instrument notes. An
instrument makes a core stop behind a break, where another one goes on to look at interrupts. -/
def written (m : Machine) : List UInt8 := m.watched.tick.1.caughtUp.stored

/-- Without the notes of an instrument, those of the recorder are still there. -/
theorem sunk_view (m : Machine) : (m.view false).sunk = m.sunk := by
  have hpublic (n : Note) : (if Bench.isPublic n then n.sunk? else none) = n.sunk? := by
    cases n <;> rfl
  show (m.notes.filter Bench.isPublic).toList.filterMap Note.sunk? = _
  rw [Array.toList_filter, List.filterMap_filter]
  simp only [hpublic]
  rfl

theorem sunk_tick (hm : m.Tapped sink last) (hroom : sphAddress < m.data.size)
    (hrun : m.run ≠ .stopped) (hprobed : m.probed = false) (hnotes : m.notes = #[]) :
    m.tick.1.sunk = m.written.map UInt8.toUInt32 ∧ LastOnly last m.written := by
  have hwatched : m.watched.Tapped sink last := hm.of_shape rfl rfl
  obtain ⟨bytes, hlast, hrelays⟩ := relays_tick hwatched hroom hrun
  have hstored : m.written = bytes := hrelays.stored rfl
  rw [hstored]
  refine ⟨?_, hlast⟩
  rw [← sunk_view, view_tick_watched hrun hprobed hnotes, sunk_view]
  exact hrelays.sunk

end Machine

end AvrSim
