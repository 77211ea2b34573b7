import AvrSim.Proofs.Core.Traffic
import AvrSim.Proofs.Uart.Completion

/-!
# What the status register tells

The status register of the UART is partly a byte in the data space and partly the state behind it, and
stores to two registers bring the two together. A program that loads it is told what has passed over the
bus since the last reset.

* `Completed` is a store to the data register that nothing has made forgotten since.
* `Machine.sinceReset` is what has passed over the bus since the last reset.
* `Machine.agrees_trail` and `Machine.remembers_foldl`: the UART agrees with its past after any transfers
  and after any events.
* `Machine.answered_trail`: what the loads of the status register are given.
* `Machine.status_tells_past`: the register tells the past, to whoever loads it.
-/

namespace AvrSim

namespace Transfer

/-- The byte that a transfer stores at an address. -/
def storedAt? (address : Nat) : Transfer → Option UInt8
  | .store a value => if a.toNat = address then some value else none
  | _ => none

/-- Whether a transfer is a load of an address. -/
def loads (address : Nat) : Transfer → Bool
  | .load a => a.toNat == address
  | _ => false

/-- Whether a transfer goes to the data register. -/
def sends (uart : UartConfig) (t : Transfer) : Bool :=
  (t.storedAt? (uart.base.toNat + Machine.udr)).isSome

/-- Whether a transfer makes the UART forget a completed transmission: its interrupt is entered, or a one
is stored at its bit of the status register. -/
def forgets (uart : UartConfig) : Transfer → Bool
  | .entry vector => vector == uart.transmitVector
  | t => (t.storedAt? (uart.base.toNat + Machine.ucsra)).any (· &&& Machine.txc != 0)

/-- Whether a transmission is completed and not forgotten, after a transfer. -/
def complete (uart : UartConfig) (done : Bool) (t : Transfer) : Bool :=
  t.sends uart || !t.forgets uart && done

theorem complete_store (uart : UartConfig) (done : Bool) (address : UInt16) (value : UInt8) :
    (store address value).complete uart done =
      if address.toNat = uart.base.toNat + Machine.udr then true
      else if address.toNat = uart.base.toNat + Machine.ucsra then
        !(value &&& Machine.txc != 0) && done
      else done := by
  by_cases hdata : address.toNat = uart.base.toNat + Machine.udr
  · simp [complete, sends, storedAt?, hdata]
  · by_cases hstatus : address.toNat = uart.base.toNat + Machine.ucsra
    · simp [complete, sends, forgets, storedAt?, hstatus, Machine.ucsra, Machine.udr]
    · simp [complete, sends, forgets, storedAt?, hdata, hstatus]

end Transfer

/-- A byte was sent, and nothing has made the UART forget it since. -/
def Completed (uart : UartConfig) (past : List Transfer) : Prop :=
  ∃ before t after, past = before ++ t :: after ∧ t.sends uart = true ∧
    ∀ later ∈ after, later.forgets uart = false

/-- The byte last stored at an address, or zero. -/
def lastStored (address : Nat) (past : List Transfer) : UInt8 :=
  (past.filterMap (Transfer.storedAt? address)).getLastD 0

theorem completed_concat {uart : UartConfig} {past : List Transfer} {t : Transfer} :
    Completed uart (past ++ [t]) ↔
      t.sends uart = true ∨ t.forgets uart = false ∧ Completed uart past := by
  constructor
  · rintro ⟨before, sent, after, hpast, hsent, hafter⟩
    rcases List.eq_nil_or_concat after with rfl | ⟨rest, last, rfl⟩
    · obtain ⟨-, hlast⟩ := List.append_inj' hpast rfl
      cases hlast
      exact .inl hsent
    · have hsplit : past ++ [t] = (before ++ sent :: rest) ++ [last] := by
        rw [hpast]
        simp
      obtain ⟨rfl, hlast⟩ := List.append_inj' hsplit rfl
      cases hlast
      refine .inr ⟨hafter t (by simp), before, sent, rest, rfl, hsent, fun later hlater => ?_⟩
      exact hafter later (by simp [hlater])
  · rintro (hsent | ⟨hforgets, before, sent, after, rfl, hsent, hafter⟩)
    · exact ⟨past, t, [], rfl, hsent, nofun⟩
    · refine ⟨before, sent, after ++ [t], by simp, hsent, fun later hlater => ?_⟩
      rcases List.mem_append.mp hlater with hlater | hlater
      · exact hafter later hlater
      · rw [List.mem_singleton.mp hlater]
        exact hforgets

/-- The state that transfers lead to is what the past tells. -/
theorem foldl_complete_eq_true_iff {uart : UartConfig} (past : List Transfer) :
    past.foldl (Transfer.complete uart) false = true ↔ Completed uart past := by
  induction past using List.reverseRecOn with
  | nil =>
    refine ⟨nofun, ?_⟩
    rintro ⟨before, t, after, hnil, -⟩
    simp at hnil
  | append_singleton past t ih =>
    rw [List.foldl_concat, completed_concat, ← ih]
    simp [Transfer.complete]

namespace Machine

variable {m m' : Machine} {uart : UartConfig} {done : Bool} {last : UInt8}

/-! ## The bits of the status register -/

/-- The status register by the byte in the data space, whether a byte waits and whether a transmission
is completed. -/
def statusByte (stored : UInt8) (waiting done : Bool) : UInt8 :=
  let kept := (stored &&& ~~~(rxc ||| txc)) ||| udre
  let kept := if waiting then kept ||| rxc else kept
  if done then kept ||| txc else kept

theorem uartStatus_eq (m : Machine) :
    m.uartStatus =
      statusByte (m.data.get (m.uartAddress ucsra)) (!m.uart.pending.isEmpty) m.uart.transmitted := by
  unfold uartStatus statusByte
  cases m.uart.pending.isEmpty <;> rfl

theorem bits_statusByte (stored : UInt8) (waiting done : Bool) :
    (statusByte stored waiting done &&& udre != 0) = true ∧
      (statusByte stored waiting done &&& rxc != 0) = waiting ∧
      (statusByte stored waiting done &&& txc != 0) = done ∧
      statusByte stored waiting done &&& 0x1F = stored &&& 0x1F := by
  -- bytes can be counted through as bit vectors
  have hall : ∀ (bits : BitVec 8) (waiting done : Bool),
      (statusByte ⟨bits⟩ waiting done &&& udre != 0) = true ∧
        (statusByte ⟨bits⟩ waiting done &&& rxc != 0) = waiting ∧
        (statusByte ⟨bits⟩ waiting done &&& txc != 0) = done ∧
        statusByte ⟨bits⟩ waiting done &&& 0x1F = ⟨bits⟩ &&& 0x1F := by
    decide +kernel
  exact hall stored.toBitVec waiting done

/-- What the past must say of a status register that shows `value` while the machine is `m`. -/
structure StatusTells (past : List Transfer) (m : Machine) (value : UInt8) : Prop where
  ready : value &&& udre ≠ 0
  received : value &&& rxc ≠ 0 ↔ m.uart.pending ≠ []
  completed : value &&& txc ≠ 0 ↔ Completed m.model.uart past
  kept : value &&& 0x1F = lastStored (m.uartAddress ucsra) past &&& 0x1F

/-! ## One transfer -/

/-- A machine of a part whose UART has a transmission completed or not, and in whose status register the
bits that are not its own are those of a given byte. -/
structure Agrees (uart : UartConfig) (done : Bool) (last : UInt8) (m : Machine) : Prop where
  housed : m.Housed
  uart : m.model.uart = uart
  done : m.uart.transmitted = done
  kept : m.data.get (m.uartAddress ucsra) &&& 0x1F = last &&& 0x1F

theorem uartAddress_congr (h : m'.model = m.model) (offset : Nat) :
    m'.uartAddress offset = m.uartAddress offset := by
  unfold uartAddress
  rw [h]

theorem Agrees.of_access (h : Agrees uart done last m) (ha : Core.Access m.toCore m'.toCore)
    {done' : Bool} {last' : UInt8} (hdone : m'.uart.transmitted = done')
    (hkept : m'.data.get (m.uartAddress ucsra) &&& 0x1F = last' &&& 0x1F) :
    Agrees uart done' last' m' where
  housed := (sameHouse_of_access ha).housed h.housed
  uart := by
    rw [ha.model]
    exact h.uart
  done := hdone
  kept := by
    rw [uartAddress_congr ha.model]
    exact hkept

/-- The registers of the UART stand behind the ports, in the data space of every part. -/
theorem Housed.uart_places (hm : m.Housed) : 0x60 ≤ m.uartAddress ucsra ∧
    m.uartAddress ucsra < m.data.size ∧ m.uartAddress udr < m.data.size := by
  have hbase := base_of_mem_all m.model hm.model
  have huart := (roomy_of_mem_all m.model hm.model).2.1
  have hroom := hm.room
  simp only [uartAddress, ucsra, udr] at huart ⊢
  omega

theorem agrees_silent (h : Agrees uart done last m) (hsilent : Silent m m') :
    Agrees uart done last m' := by
  have hmodel : m'.model = m.model := by rw [hsilent.rest]
  have huart : m'.uart = m.uart := by rw [hsilent.rest]
  refine ⟨hsilent.housed h.housed, ?_, ?_, ?_⟩
  · rw [hmodel]
    exact h.uart
  · rw [huart]
    exact h.done
  · rw [uartAddress_congr hmodel, hsilent.data.get _ h.housed.uart_places.1]
    exact h.kept

theorem agrees_acknowledge (h : Agrees uart done last m) (vector : Nat) :
    Agrees uart ((Transfer.entry vector).complete uart done) last (m.acknowledge vector) := by
  have hcomplete : (Transfer.entry vector).complete uart done =
      (!(vector == uart.transmitVector) && done) := rfl
  unfold acknowledge
  rw [hcomplete, h.uart]
  split
  · rename_i hvector
    exact ⟨⟨h.housed.model, h.housed.size⟩, h.uart, by simp [hvector], h.kept⟩
  · rename_i hvector
    exact ⟨h.housed, h.uart, by simp [hvector, h.done], h.kept⟩

theorem uartOffset?_of_ucsra {address : UInt16} (haddress : address.toNat = m.uartAddress ucsra) :
    m.uartOffset? address = some ucsra := by
  unfold uartAddress at haddress
  unfold uartOffset?
  rw [haddress]
  simp [ucsra]

theorem update_ucsra {address : UInt16} (haddress : address.toNat = m.uartAddress ucsra) :
    m.update address = { m with data := m.data.set address.toNat m.uartStatus } := by
  unfold update
  rw [uartOffset?_of_ucsra haddress]
  rfl

/-- A load of the status register gives what it shows, which stays in the data space. -/
theorem read_ucsra (hm : m.Housed) {address : UInt16} (haddress : address.toNat = m.uartAddress ucsra) :
    m.read address = (m.uartStatus,
      ({ m with data := m.data.set address.toNat m.uartStatus } : Machine).noted
        (.read address m.uartStatus)) := by
  have hrange : address.toNat < m.data.size := haddress ▸ hm.uart_places.2.1
  have hget : (m.data.set address.toNat m.uartStatus).get address.toNat = m.uartStatus :=
    (Memory.get_set _ _ _ _).trans (if_pos ⟨rfl, hrange⟩)
  rw [read_eq, if_pos hrange, update_ucsra haddress, hget]

theorem agrees_read (h : Agrees uart done last m) (address : UInt16) :
    Agrees uart done last (m.read address).2 := by
  refine h.of_access (access_read m address) ((idle_read m address).transmitted.trans h.done) ?_
  by_cases haddress : address.toNat = m.uartAddress ucsra
  · have hrange := h.housed.uart_places.2.1
    rw [read_ucsra h.housed haddress, data_noted, haddress, Memory.get_set, if_pos ⟨rfl, hrange⟩,
      uartStatus_eq, (bits_statusByte _ _ _).2.2.2]
    exact h.kept
  · rw [get_read m address (.inr fun heq => haddress heq.symm)]
    exact h.kept

theorem uart_noted (m : Machine) (n : Note) : (m.noted n).uart = m.uart := by
  unfold noted onCore Core.noteAccess
  dsimp only
  split <;> rfl

/-- Bringing the status register up to date keeps the bits that are not its own. -/
theorem kept_refreshStatus (m : Machine) (hrange : m.uartAddress ucsra < m.data.size) :
    m.refreshStatus.data.get (m.uartAddress ucsra) &&& 0x1F =
      m.data.get (m.uartAddress ucsra) &&& 0x1F := by
  have hget : m.refreshStatus.data.get (m.uartAddress ucsra) = m.uartStatus :=
    (Memory.get_set _ _ _ _).trans (if_pos ⟨rfl, hrange⟩)
  rw [hget, uartStatus_eq, (bits_statusByte _ _ _).2.2.2]

theorem forward_ucsra {address : UInt16} (haddress : address.toNat = m.uartAddress ucsra)
    (value : UInt8) :
    m.forward address value =
      ({ m with uart := { m.uart with
        transmitted := !(value &&& txc != 0) && m.uart.transmitted } } : Machine).refreshStatus := by
  unfold forward
  rw [uartOffset?_of_ucsra haddress]
  change Machine.refreshStatus (if _ then _ else _) = _
  cases (value &&& txc != 0) <;> rfl

theorem forward_of_ne {address : UInt16} (hstatus : address.toNat ≠ m.uartAddress ucsra)
    (hdata : address.toNat ≠ m.uartAddress udr) (value : UInt8) :
    (m.forward address value).data = m.data ∧ (m.forward address value).uart = m.uart := by
  unfold forward
  split
  · exact ⟨rfl, rfl⟩
  · rename_i offset hoffset
    have haddress := address_of_uartOffset? hoffset
    have hucsra : offset ≠ ucsra := by
      rintro rfl
      exact hstatus haddress
    have hudr : offset ≠ udr := by
      rintro rfl
      exact hdata haddress
    unfold uartWrite
    rw [if_neg hucsra]
    split
    · unfold reportRate
      dsimp only
      split <;> exact ⟨rfl, rfl⟩
    · exact ⟨rfl, rfl⟩

theorem kept_send (m : Machine) (hrange : m.uartAddress ucsra < m.data.size) (value : UInt8) :
    (m.send value).uart.transmitted = true ∧
      (m.send value).data.get (m.uartAddress ucsra) &&& 0x1F =
        m.data.get (m.uartAddress ucsra) &&& 0x1F := by
  have htransmit (m : Machine) (hrange : m.uartAddress ucsra < m.data.size) :
      (m.transmit value).uart.transmitted = true ∧
        (m.transmit value).data.get (m.uartAddress ucsra) &&& 0x1F =
          m.data.get (m.uartAddress ucsra) &&& 0x1F := by
    unfold transmit
    dsimp only
    rw [data_raise]
    exact ⟨(idle_raise _ _ _).transmitted,
      kept_refreshStatus { m with uart := { m.uart with transmitted := true } } hrange⟩
  rw [send_eq]
  split
  · exact htransmit (m.onCore _) hrange
  · exact htransmit m hrange

theorem agrees_write_ucsra (h : Agrees uart done last m) {address : UInt16}
    (haddress : address.toNat = m.uartAddress ucsra) (value : UInt8) :
    Agrees uart (!(value &&& txc != 0) && done) value (m.write address value) := by
  have hrange : address.toNat < m.data.size := haddress ▸ h.housed.uart_places.2.1
  -- the byte is in the data space before the register is brought up to date
  have hstored : ({ m with data := m.data.set address.toNat value } : Machine).data.get
      (m.uartAddress ucsra) = value := by
    rw [← haddress]
    exact (Memory.get_set _ _ _ _).trans (if_pos ⟨rfl, hrange⟩)
  have hforward := forward_ucsra (m := { m with data := m.data.set address.toNat value }) haddress value
  refine h.of_access (access_write m address value) ?_ ?_
  · rw [write_eq, if_pos hrange]
    dsimp only
    rw [uart_noted, hforward, ← h.done]
    rfl
  · rw [write_eq, if_pos hrange]
    dsimp only
    rw [data_noted, hforward]
    refine (kept_refreshStatus _ ?_).trans (congrArg (· &&& 0x1F) hstored)
    exact (Memory.size_set m.data _ _).symm ▸ haddress ▸ hrange

theorem agrees_write_udr (h : Agrees uart done last m) {address : UInt16}
    (haddress : address.toNat = m.uartAddress udr) (value : UInt8) :
    Agrees uart true last (m.write address value) := by
  have hrange : address.toNat < m.data.size := haddress ▸ h.housed.uart_places.2.2
  have hne : address.toNat ≠ m.uartAddress ucsra := by
    rw [haddress]
    simp [uartAddress, udr, ucsra]
  have hstatus : m.uartAddress ucsra < (m.data.set address.toNat value).size := by
    rw [Memory.size_set]
    exact h.housed.uart_places.2.1
  obtain ⟨hsent, hkept⟩ := kept_send { m with data := m.data.set address.toNat value } hstatus value
  refine h.of_access (access_write m address value) ?_ ?_
  · rw [write_udr hrange haddress, uart_noted]
    exact hsent
  · rw [write_udr hrange haddress, data_noted]
    refine hkept.trans ?_
    rw [Memory.get_set, if_neg fun heq => hne heq.1]
    exact h.kept

theorem agrees_write_of_ne (h : Agrees uart done last m) {address : UInt16}
    (hstatus : address.toNat ≠ m.uartAddress ucsra) (hdata : address.toNat ≠ m.uartAddress udr)
    (value : UInt8) : Agrees uart done last (m.write address value) := by
  obtain ⟨hsame, huart⟩ :=
    forward_of_ne (m := { m with data := m.data.set address.toNat value }) hstatus hdata value
  refine h.of_access (access_write m address value) ?_ ?_
  · rw [write_eq]
    split
    · dsimp only
      rw [uart_noted, huart]
      exact h.done
    · exact h.done
  · rw [write_eq]
    split
    · dsimp only
      rw [data_noted, hsame, Memory.get_set, if_neg fun heq => hstatus heq.1]
      exact h.kept
    · exact h.kept

theorem agrees_write (h : Agrees uart done last m) (address : UInt16) (value : UInt8) :
    Agrees uart ((Transfer.store address value).complete uart done)
      (((Transfer.store address value).storedAt? (uart.base.toNat + ucsra)).getD last)
      (m.write address value) := by
  have hplace (offset : Nat) : uart.base.toNat + offset = m.uartAddress offset := by
    rw [← h.uart]
    rfl
  have hne : m.uartAddress udr ≠ m.uartAddress ucsra := by simp [uartAddress, udr, ucsra]
  rw [Transfer.complete_store, Transfer.storedAt?, hplace, hplace]
  by_cases hdata : address.toNat = m.uartAddress udr
  · rw [if_pos hdata, if_neg (hdata ▸ hne)]
    exact agrees_write_udr h hdata value
  by_cases hstatus : address.toNat = m.uartAddress ucsra
  · rw [if_neg hdata, if_pos hstatus, if_pos hstatus]
    exact agrees_write_ucsra h hstatus value
  · rw [if_neg hdata, if_neg hstatus, if_neg hstatus]
    exact agrees_write_of_ne h hstatus hdata value

/-! ## Many transfers -/

/-- After any transfers the UART agrees with them. -/
theorem agrees_trail {ts : List Transfer} (htrail : Trail m ts m') (h : Agrees uart done last m) :
    Agrees uart (ts.foldl (Transfer.complete uart) done)
      ((ts.filterMap (Transfer.storedAt? (uart.base.toNat + ucsra))).getLastD last) m' := by
  induction htrail generalizing done last with
  | done => exact h
  | silent hsilent _ ih => exact ih (agrees_silent h hsilent)
  | load address _ ih => exact ih (agrees_read h address)
  | store address value _ ih =>
    have hrest := ih (agrees_write h address value)
    rw [List.foldl_cons, List.filterMap_cons]
    -- a store elsewhere leaves the last byte, one at the status register takes its place
    cases hstored : (Transfer.store address value).storedAt? (uart.base.toNat + ucsra) with
    | none =>
      rw [hstored] at hrest
      exact hrest
    | some stored =>
      rw [hstored] at hrest
      dsimp only
      rw [List.getLastD_cons]
      exact hrest
  | entry vector _ ih => exact ih (agrees_acknowledge h vector)

/-! ## Events -/

/-- The past after an event: a step adds its traffic, and a reset begins anew. -/
def record (past : List Transfer) (m : Machine) : Event → List Transfer
  | .step => past ++ m.traffic
  | .reset => []
  | _ => past

/-- What has passed over the bus since the last reset, after a past and then some events. -/
def sinceReset (past : List Transfer) : Machine → List Event → List Transfer
  | _, [] => past
  | m, event :: rest => sinceReset (record past m event) (m.handle event) rest

/-- The UART of a machine agrees with a past. -/
def Remembers (past : List Transfer) (m : Machine) : Prop :=
  Agrees m.model.uart (past.foldl (Transfer.complete m.model.uart) false)
    (lastStored (m.uartAddress ucsra) past) m

variable {past : List Transfer}

theorem lastStored_append (address : Nat) (past ts : List Transfer) :
    lastStored address (past ++ ts) =
      (ts.filterMap (Transfer.storedAt? address)).getLastD (lastStored address past) := by
  unfold lastStored
  rw [List.filterMap_append]
  simp [List.getLastD_eq_getLast?, List.getLast?_append]

theorem remembers_trail {ts : List Transfer} (h : Remembers past m) (htrail : Trail m ts m') :
    Remembers (past ++ ts) m' := by
  have hagrees := agrees_trail htrail h
  have huart := hagrees.uart
  unfold Remembers uartAddress
  rw [huart, List.foldl_append, lastStored_append]
  exact hagrees

theorem remembers_new (hm : m.Housed) (hdata : m.data = initialData m.model) (huart : m.uart = {}) :
    Remembers [] m := by
  have hsize := size_initialData m.model
  obtain ⟨hroom, huse, -⟩ := roomy_of_mem_all m.model hm.model
  have hget : (initialData m.model).get (m.uartAddress ucsra) = 0x20 := by
    have hrange : m.uartAddress ucsra < m.model.dataSize := by
      simp only [uartAddress, ucsra, udr] at huse ⊢
      omega
    simp only [initialData, Memory.size_set] at hsize ⊢
    rw [Memory.get_set, if_neg (by simp [uartAddress, ucsra, ucsrc]), Memory.get_set, hsize]
    exact if_pos ⟨rfl, hrange⟩
  refine ⟨hm, rfl, ?_, ?_⟩
  · rw [huart]
    rfl
  · rw [hdata, hget]
    change (0x20 : UInt8) &&& 0x1F = 0 &&& 0x1F
    decide

/-- What leaves the data space and the transmitter alone. -/
theorem Remembers.of_same (h : Remembers past m) (hmodel : m'.model = m.model)
    (hdata : m'.data = m.data) (htransmitted : m'.uart.transmitted = m.uart.transmitted) :
    Remembers past m' := by
  have hplace := uartAddress_congr hmodel ucsra
  unfold Remembers
  rw [hmodel, hplace]
  refine ⟨SameHouse.housed ⟨hmodel, by rw [hdata]⟩ h.housed, congrArg Model.uart hmodel, ?_, ?_⟩
  · rw [htransmitted]
    exact h.done
  · rw [hplace, hdata]
    exact h.kept

theorem remembers_handle (h : Remembers past m) (event : Event) :
    Remembers (record past m event) (m.handle event) := by
  cases event with
  | load base bytes =>
    dsimp only [handle, record]
    cases hload : m.loadFlash base bytes with
    | error _ => exact h
    | ok loaded =>
      unfold loadFlash at hload
      split at hload
      · cases hload
      · cases hload
        exact h.of_same rfl rfl rfl
  | step => exact remembers_trail h (trail_step h.housed)
  | halt =>
    have haccess := Core.access_halt m.toCore
    refine h.of_same haccess.model (data_halt m.toCore) ?_
    dsimp only [handle, onCore, Core.halt]
    split <;> rfl
  | reset =>
    have hsize := size_initialData m.model
    dsimp only [handle, record]
    unfold reset
    generalize hdata : initialData m.model = data at hsize
    exact remembers_new ⟨h.housed.model, hsize⟩ hdata.symm rfl
  | raise line value =>
    exact h.of_same (access_raise m line value).model (data_raise line value)
      (idle_raise m line value).transmitted
  | wire wiring => exact h.of_same rfl rfl rfl

/-- Any sequence of events. -/
theorem remembers_foldl (h : Remembers past m) (events : List Event) :
    Remembers (sinceReset past m events) (events.foldl handle m) := by
  induction events generalizing past m with
  | nil => exact h
  | cons event rest ih => exact ih (remembers_handle h event)

theorem Remembers.tells (h : Remembers past m) : StatusTells past m m.uartStatus := by
  obtain ⟨hready, hreceived, hcompleted, hkept⟩ := bits_statusByte
    (m.data.get (m.uartAddress ucsra)) (!m.uart.pending.isEmpty) m.uart.transmitted
  rw [← uartStatus_eq] at hready hreceived hcompleted hkept
  refine ⟨bne_iff_ne.mp hready, ?_, ?_, hkept.trans h.kept⟩
  · rw [← bne_iff_ne, hreceived]
    simp
  · rw [← bne_iff_ne, hcompleted, h.done, foldl_complete_eq_true_iff]

theorem StatusTells.of_same {value : UInt8} (h : StatusTells past m value) (hmodel : m'.model = m.model)
    (hpending : m'.uart.pending = m.uart.pending) : StatusTells past m' value := by
  refine ⟨h.ready, ?_, ?_, ?_⟩
  · rw [hpending]
    exact h.received
  · rw [hmodel]
    exact h.completed
  · rw [uartAddress_congr hmodel]
    exact h.kept

/-! ## Loads of the status register -/

/-- The address of the status register. -/
def statusAddress (m : Machine) : UInt16 := UInt16.ofNat (m.uartAddress ucsra)

/-- What the noted loads of an address gave. -/
def readingsAt (place : Nat) (m : Machine) : List UInt8 :=
  m.notes.toList.filterMap (Note.readAt? place)

variable {place : Nat}

theorem toNat_statusAddress (hm : m.Housed) : m.statusAddress.toNat = m.uartAddress ucsra := by
  have huart := (roomy_of_mem_all m.model hm.model).2.1
  have hlt : m.uartAddress ucsra < 0x100 := Nat.lt_trans (by simp [uartAddress, ucsra, udr]) huart
  exact UInt16.toNat_ofNat_of_lt (Nat.lt_trans hlt (by decide))

theorem filterMap_readAt?_push (notes : Array Note) (n : Note) :
    (notes.push n).toList.filterMap (Note.readAt? place) =
      notes.toList.filterMap (Note.readAt? place) ++ (n.readAt? place).toList := by
  rw [Array.toList_push, List.filterMap_append]
  cases h : n.readAt? place <;> simp [h]

theorem readingsAt_raise (m : Machine) (line : Nat) (value : UInt32) :
    (m.raise line value).readingsAt place = m.readingsAt place := by
  refine Wiring.raise_invariant (P := fun core : Core =>
    core.notes.toList.filterMap (Note.readAt? place) = m.readingsAt place) ?_ line value m.wiring
    m.toCore rfl
  intro observer position l value core hcore
  cases observer with
  | receive =>
    dsimp only [Core.react]
    unfold Core.receive
    dsimp only
    split
    · split <;> exact hcore
    · exact hcore
  | record tag haltOn =>
    have hnote : (core.note (.line tag value)).notes.toList.filterMap (Note.readAt? place) =
        m.readingsAt place := by
      refine (filterMap_readAt?_push core.notes _).trans ?_
      rw [hcore]
      exact List.append_nil _
    dsimp only [Core.react]
    split
    · rw [Core.notes_halt]
      exact hnote
    · exact hnote

theorem readingsAt_noted (m : Machine) {n : Note} (h : n.readAt? place = none) :
    (m.noted n).readingsAt place = m.readingsAt place := by
  unfold noted onCore Core.noteAccess
  dsimp only
  split
  · refine (filterMap_readAt?_push m.notes n).trans ?_
    rw [h]
    exact List.append_nil _
  · rfl

theorem readingsAt_uartRead (m : Machine) (offset : Nat) :
    (m.uartRead offset).2.readingsAt place = m.readingsAt place := by
  have hreceived : m.receivedByte.2.readingsAt place = m.readingsAt place := by
    unfold receivedByte
    split
    · rfl
    · split
      · exact readingsAt_raise _ _ _
      · rfl
  unfold uartRead
  split
  · rfl
  · split
    · exact hreceived
    · rfl

theorem readingsAt_read_of_ne (m : Machine) {address : UInt16} (h : address.toNat ≠ place) :
    (m.read address).2.readingsAt place = m.readingsAt place := by
  have hnone (value : UInt8) : (Note.read address value).readAt? place = none := if_neg h
  have hupdate : (m.update address).readingsAt place = m.readingsAt place := by
    unfold update
    split
    · rfl
    · exact readingsAt_uartRead m _
  rw [read_eq]
  split
  · exact (readingsAt_noted _ (hnone _)).trans hupdate
  · rfl

theorem readingsAt_send (m : Machine) (value : UInt8) :
    (m.send value).readingsAt place = m.readingsAt place := by
  have htransmit (m : Machine) : (m.transmit value).readingsAt place = m.readingsAt place := by
    unfold transmit
    exact readingsAt_raise _ _ _
  rw [send_eq]
  split
  · exact htransmit (m.onCore _)
  · exact htransmit m

theorem readingsAt_forward (m : Machine) (address : UInt16) (value : UInt8) :
    (m.forward address value).readingsAt place = m.readingsAt place := by
  unfold forward
  split
  · rfl
  · unfold uartWrite
    split
    · dsimp only
      split <;> rfl
    · split
      · unfold reportRate
        dsimp only
        split <;> rfl
      · split
        · exact readingsAt_send m value
        · rfl

theorem readingsAt_write (m : Machine) (address : UInt16) (value : UInt8) :
    (m.write address value).readingsAt place = m.readingsAt place := by
  rw [write_eq]
  split
  · exact (readingsAt_noted _ rfl).trans (readingsAt_forward _ address value)
  · rfl

theorem readingsAt_read_ucsra (hm : m.Housed) (hprobed : m.probed = true) {address : UInt16}
    (haddress : address.toNat = m.uartAddress ucsra) :
    (m.read address).2.readingsAt address.toNat = m.readingsAt address.toNat ++ [m.uartStatus] := by
  have hat : Note.readAt? address.toNat (.read address m.uartStatus) = some m.uartStatus := if_pos rfl
  have hnoted : ({ m with data := m.data.set address.toNat m.uartStatus } : Machine).noted
      (.read address m.uartStatus) =
        { m with data := m.data.set address.toNat m.uartStatus,
                 notes := m.notes.push (.read address m.uartStatus) } := by
    unfold noted onCore Core.noteAccess
    dsimp only
    rw [if_pos hprobed]
    rfl
  rw [read_ucsra hm haddress, hnoted]
  refine (filterMap_readAt?_push m.notes _).trans ?_
  rw [hat]
  rfl

/-- Among some transfers stands a load of a place, and the status register shows a value there. -/
def Shown (place : Nat) (m : Machine) (ts : List Transfer) (value : UInt8) : Prop :=
  ∃ before address after k, ts = before ++ .load address :: after ∧ address.toNat = place ∧
    Trail m before k ∧ value = k.uartStatus

theorem Shown.cons {k : Machine} {t : Transfer} {ts : List Transfer} {value : UInt8}
    (h : Shown place k ts value) (hfirst : ∀ us k', Trail k us k' → Trail m (t :: us) k') :
    Shown place m (t :: ts) value := by
  obtain ⟨before, address, after, k', rfl, hplace, htrail, hvalue⟩ := h
  exact ⟨t :: before, address, after, k', rfl, hplace, hfirst before k' htrail, hvalue⟩

/-- An instrument notes the loads of the status register among some transfers, and each was given what
the register showed when it was made. -/
def Answered (place : Nat) (m : Machine) (ts : List Transfer) (m' : Machine) : Prop :=
  ∃ values, m'.readingsAt place = m.readingsAt place ++ values ∧
    values.length = ts.countP (Transfer.loads place) ∧ ∀ value ∈ values, Shown place m ts value

/-- A transfer that is no load of the place. -/
theorem Answered.cons {k : Machine} {t : Transfer} {ts : List Transfer} (h : Answered place k ts m')
    (hsame : k.readingsAt place = m.readingsAt place) (ht : t.loads place = false)
    (hfirst : ∀ us k', Trail k us k' → Trail m (t :: us) k') : Answered place m (t :: ts) m' := by
  obtain ⟨values, hreadings, hlength, hshown⟩ := h
  refine ⟨values, hsame ▸ hreadings, ?_, fun value hvalue => (hshown value hvalue).cons hfirst⟩
  rw [List.countP_cons_of_neg (by rw [ht]; nofun)]
  exact hlength

theorem answered_trail {ts : List Transfer} (htrail : Trail m ts m') (hm : m.Housed)
    (hprobed : m.probed = true) (hplace : m.uartAddress ucsra = place) : Answered place m ts m' := by
  induction htrail with
  | done m => exact ⟨[], (List.append_nil _).symm, rfl, nofun⟩
  | @silent m k m' ts hsilent _ ih =>
    have hkept : k.probed = true ∧ k.uartAddress ucsra = place ∧
        k.readingsAt place = m.readingsAt place := by
      rw [hsilent.rest]
      exact ⟨hprobed, hplace, rfl⟩
    obtain ⟨hprobed, hplace, hsame⟩ := hkept
    obtain ⟨values, hreadings, hlength, hshown⟩ := ih (hsilent.housed hm) hprobed hplace
    refine ⟨values, hsame ▸ hreadings, hlength, fun value hvalue => ?_⟩
    obtain ⟨before, address, after, k', hts, hload, hbefore, heq⟩ := hshown value hvalue
    exact ⟨before, address, after, k', hts, hload, .silent hsilent hbefore, heq⟩
  | @load m m' ts address _ ih =>
    have haccess := access_read m address
    have hrest := ih ((sameHouse_of_access haccess).housed hm) (haccess.probed.trans hprobed)
      ((uartAddress_congr haccess.model ucsra).trans hplace)
    have hfirst (us : List Transfer) (k : Machine) (h : Trail (m.read address).2 us k) :
        Trail m (.load address :: us) k := .load address h
    by_cases haddress : address.toNat = place
    · subst haddress
      obtain ⟨values, hreadings, hlength, hshown⟩ := hrest
      rw [readingsAt_read_ucsra hm hprobed hplace.symm, List.append_assoc] at hreadings
      refine ⟨m.uartStatus :: values, hreadings, ?_, fun value hvalue => ?_⟩
      · have hload : (Transfer.load address).loads address.toNat = true := beq_self_eq_true _
        rw [List.length_cons, hlength, List.countP_cons_of_pos hload]
      · rcases List.mem_cons.mp hvalue with rfl | hvalue
        · exact ⟨[], address, ts, m, rfl, rfl, .done m, rfl⟩
        · exact (hshown value hvalue).cons hfirst
    · exact hrest.cons (readingsAt_read_of_ne m haddress) (beq_eq_false_iff_ne.mpr haddress) hfirst
  | @store m m' ts address value _ ih =>
    have haccess := access_write m address value
    have hrest := ih ((sameHouse_of_access haccess).housed hm) (haccess.probed.trans hprobed)
      ((uartAddress_congr haccess.model ucsra).trans hplace)
    exact hrest.cons (readingsAt_write m address value) rfl fun _ _ h => .store address value h
  | @entry m m' ts vector _ ih =>
    have hkept : (m.acknowledge vector).Housed ∧ (m.acknowledge vector).probed = true ∧
        (m.acknowledge vector).uartAddress ucsra = place ∧
        (m.acknowledge vector).readingsAt place = m.readingsAt place := by
      unfold acknowledge
      split
      · exact ⟨⟨hm.model, hm.size⟩, hprobed, hplace, rfl⟩
      · exact ⟨hm, hprobed, hplace, rfl⟩
    obtain ⟨hhoused, hprobed, haddress, hsame⟩ := hkept
    exact (ih hhoused hprobed haddress).cons hsame rfl fun _ _ h => .entry vector h

/-! ## The loads of a step -/

theorem uart_read_of_ne (m : Machine) {address : UInt16} (h : address.toNat ≠ m.uartAddress udr) :
    (m.read address).2.uart = m.uart := by
  have hupdate : (m.update address).uart = m.uart := by
    unfold update
    split
    · rfl
    · rename_i offset hoffset
      have hudr : offset ≠ udr := by
        rintro rfl
        exact h (address_of_uartOffset? hoffset)
      have hread : (m.uartRead offset).2.uart = m.uart := by
        unfold uartRead
        rw [if_neg hudr]
        split <;> rfl
      exact hread
  rw [read_eq]
  split
  · exact (uart_noted _ _).trans hupdate
  · rfl

/-- Loads that leave the data register alone take no byte. -/
theorem kept_loads {ts : List Transfer} (htrail : Trail m ts m')
    (hloads : ∀ t ∈ ts, ∃ address, t = .load address ∧ address.toNat ≠ m.uartAddress udr) :
    m'.model = m.model ∧ m'.uart = m.uart := by
  induction htrail with
  | done => exact ⟨rfl, rfl⟩
  | @silent m k m' ts hsilent _ ih =>
    have hkept : k.model = m.model ∧ k.uart = m.uart ∧ k.uartAddress udr = m.uartAddress udr := by
      rw [hsilent.rest]
      exact ⟨rfl, rfl, rfl⟩
    obtain ⟨hmodel, huart, hplace⟩ := hkept
    rw [← hplace] at hloads
    obtain ⟨hmodel', huart'⟩ := ih hloads
    exact ⟨hmodel'.trans hmodel, huart'.trans huart⟩
  | @load m m' ts address _ ih =>
    have haccess := access_read m address
    obtain ⟨hfirst, hrest⟩ := List.forall_mem_cons.mp hloads
    obtain ⟨address', heq, hne⟩ := hfirst
    cases heq
    rw [← uartAddress_congr haccess.model udr] at hrest
    obtain ⟨hmodel, huart⟩ := ih hrest
    exact ⟨hmodel.trans haccess.model, huart.trans (uart_read_of_ne m hne)⟩
  | store address value _ _ =>
    obtain ⟨⟨_, heq, -⟩, -⟩ := List.forall_mem_cons.mp hloads
    cases heq
  | entry vector _ _ =>
    obtain ⟨⟨_, heq, -⟩, -⟩ := List.forall_mem_cons.mp hloads
    cases heq

/-- Loads are nothing to remember. -/
theorem Remembers.of_loads {ts : List Transfer} (h : Remembers (past ++ ts) m)
    (hloads : ∀ t ∈ ts, ∃ address, t = .load address) : Remembers past m := by
  have hcomplete (uart : UartConfig) (done : Bool) :
      ts.foldl (Transfer.complete uart) done = done := by
    refine List.foldlRecOn ts (Transfer.complete uart) (motive := (· = done)) rfl ?_
    rintro - rfl t ht
    obtain ⟨address, rfl⟩ := hloads t ht
    rfl
  have hstored (place : Nat) : ts.filterMap (Transfer.storedAt? place) = [] := by
    refine List.filterMap_eq_nil_iff.mpr fun t ht => ?_
    obtain ⟨address, rfl⟩ := hloads t ht
    rfl
  unfold Remembers at h ⊢
  rw [List.foldl_append, hcomplete, lastStored_append, hstored] at h
  exact h

/-- What the loads of the status register in the next step are given. -/
def statusReadings (m : Machine) : List UInt8 := m.watched.tick.1.readingsAt (m.uartAddress ucsra)

/-- What is shown to a load within a step is what was shown before the step. -/
theorem Remembers.tells_shown (h : Remembers past m) {value : UInt8}
    (hshown : Shown (m.uartAddress ucsra) m m.traffic value) : StatusTells past m value := by
  obtain ⟨before, address, after, k, htraffic, haddress, htrail, rfl⟩ := hshown
  have hbefore : ∀ t ∈ before, ∃ first, t = .load first ∧ first.toNat ≠ m.uartAddress udr := by
    rcases before_load htraffic with rfl | ⟨first, rfl, rfl⟩
    · nofun
    · -- the place before the status register is not the data register, which stands six places behind
      intro t ht
      refine ⟨first, List.mem_singleton.mp ht, fun hudr => ?_⟩
      have hrange := (roomy_of_mem_all m.model h.housed.model).2.1
      rw [UInt16.toNat_add] at haddress
      simp only [uartAddress, ucsra, udr] at haddress hudr hrange
      change (first.toNat + 1) % 2 ^ 16 = _ at haddress
      omega
  obtain ⟨hmodel, huart⟩ := kept_loads htrail hbefore
  have hk : Remembers past k := (remembers_trail h htrail).of_loads fun t ht =>
    (hbefore t ht).imp fun _ hload => hload.1
  exact hk.tells.of_same hmodel.symm (by rw [huart])

theorem statusReadings_spec (h : Remembers past m) :
    m.statusReadings.length = m.watched.traffic.countP (Transfer.loads (m.uartAddress ucsra)) ∧
      ∀ value ∈ m.statusReadings, StatusTells past m value := by
  have hwatched : Remembers past m.watched := h.of_same rfl rfl rfl
  have hanswered : Answered (m.uartAddress ucsra) m.watched m.watched.traffic m.watched.step :=
    answered_trail (trail_step hwatched.housed) hwatched.housed rfl rfl
  obtain ⟨values, hreadings, hlength, hshown⟩ := hanswered
  have hvalues : m.statusReadings = values := hreadings
  rw [hvalues]
  refine ⟨hlength, fun value hvalue => ?_⟩
  exact (hwatched.tells_shown (hshown value hvalue)).of_same rfl rfl

theorem remembers_createNamed {name : String} {wiring : Wiring Observer} {journal : Journal}
    (hcreate : createNamed name wiring journal = .ok m) : Remembers [] m := by
  obtain ⟨hmodel, hsound⟩ := sound_createNamed hcreate
  obtain ⟨part, -, hmade⟩ := exists_create_of_createNamed hcreate
  have hnew : m.data = initialData m.model ∧ m.uart = {} := by
    obtain ⟨wired, -, hm⟩ := exists_of_bind_eq_ok hmade
    cases hm
    exact ⟨rfl, rfl⟩
  exact remembers_new ⟨hmodel, hsound.data⟩ hnew.1 hnew.2

/-- The status register tells the past to whoever loads it, at any time and in the next step: that the
transmitter is ready, whether a byte waits, whether one was sent since the last reset, the last entry of
its interrupt and the last store of a one at its bit, and in its other bits what was last stored there. -/
theorem status_tells_past {name : String} {wiring : Wiring Observer} {journal : Journal} {new : Machine}
    (hcreate : createNamed name wiring journal = .ok new) (events : List Event) :
    StatusTells (sinceReset [] new events) (events.foldl handle new)
        ((events.foldl handle new).read (events.foldl handle new).statusAddress).1 ∧
      (events.foldl handle new).statusReadings.length =
        (events.foldl handle new).watched.traffic.countP
          (Transfer.loads ((events.foldl handle new).uartAddress ucsra)) ∧
      ∀ value ∈ (events.foldl handle new).statusReadings,
        StatusTells (sinceReset [] new events) (events.foldl handle new) value := by
  have hpast := remembers_foldl (remembers_createNamed hcreate) events
  refine ⟨?_, statusReadings_spec hpast⟩
  rw [read_ucsra hpast.housed (toNat_statusAddress hpast.housed)]
  exact hpast.tells

/-- A program that stores two in the status register, sends a byte and loads the status register, with a
byte received before the load. -/
def polling : List Event :=
  [.load 0 [0x02, 0xE0, 0x00, 0x93, 0xC0, 0x00, 0x11, 0xE4, 0x10, 0x93, 0xC6, 0x00, 0x20, 0x91, 0xC0,
      0x00],
    .step, .step, .step, .step, .raise 0 0x55]

theorem readings_polling :
    (createNamed "atmega48" {} { threshold := none }).toOption.map
      (fun new => (polling.foldl handle new).statusReadings) = some [0xE2] := by
  decide +kernel

/-- The load of that program is told all of it. -/
theorem polling_told : ∃ new : Machine,
    createNamed "atmega48" {} { threshold := none } = .ok new ∧
    (polling.foldl handle new).uart.pending ≠ [] ∧
    Completed (polling.foldl handle new).model.uart (sinceReset [] new polling) ∧
    lastStored ((polling.foldl handle new).uartAddress ucsra) (sinceReset [] new polling) &&& 0x1F =
      2 := by
  have hreadings := readings_polling
  cases hcreate : createNamed "atmega48" {} { threshold := none } with
  | error e =>
    rw [hcreate] at hreadings
    cases hreadings
  | ok new =>
    rw [hcreate] at hreadings
    have hloaded : (polling.foldl handle new).statusReadings = [0xE2] := Option.some.inj hreadings
    obtain ⟨-, -, htold⟩ := status_tells_past hcreate polling
    have htells := htold 0xE2 (by rw [hloaded]; exact List.mem_singleton_self _)
    exact ⟨new, rfl, htells.received.mp (by decide), htells.completed.mp (by decide),
      htells.kept.symm.trans (by decide)⟩

end Machine

end AvrSim
