import AvrSim.Proofs.Core.Interrupts
import AvrSim.Proofs.Core.Stack
import AvrSim.Proofs.Uart.Transmission

/-!
# What passes over the bus

An instruction reaches the registers, the stack pointer and the flags by itself and everything else over
the bus, by loads and stores. Which ones it makes can be told before it is performed; so can the stores
by which an interrupt is entered. What a step does to a machine is then these transfers in their order,
with nothing between them that a place behind the ports, a peripheral or a line could notice.

* `Machine.transfers` and `Machine.traffic` are the transfers of an instruction and of a step.
* `Machine.Trail` is a sequence of transfers, and what is done in silence between them.
* `Machine.trail_perform` and `Machine.trail_step`: what an instruction and a step do is what passes over
  the bus.
-/

namespace AvrSim

/-- What passes over the bus: a byte is loaded or stored, or an interrupt is entered. -/
inductive Transfer
  | load (address : UInt16)
  | store (address : UInt16) (value : UInt8)
  | entry (vector : Nat)
  deriving DecidableEq, Repr

/-- Whether a transfer is a load. -/
def Transfer.isLoad : Transfer → Bool
  | .load _ => true
  | _ => false

/-! ## Changes to registers and ports -/

/-- Only registers and ports have changed, which end at 0x60. -/
structure Memory.KeepsHigh (data data' : Memory) : Prop where
  size : data'.size = data.size
  get : ∀ address, 0x60 ≤ address → data'.get address = data.get address

namespace Memory

theorem KeepsHigh.refl (data : Memory) : data.KeepsHigh data := ⟨rfl, fun _ _ => rfl⟩

theorem KeepsHigh.trans {data data' data'' : Memory} (h : data.KeepsHigh data')
    (h' : data'.KeepsHigh data'') : data.KeepsHigh data'' :=
  ⟨h'.size.trans h.size, fun a ha => (h'.get a ha).trans (h.get a ha)⟩

variable (data : Memory)

theorem keepsHigh_set {place : Nat} (hplace : place < 0x60) (value : UInt8) :
    data.KeepsHigh (data.set place value) := by
  refine ⟨size_set data place value, fun address haddress => ?_⟩
  rw [get_set, if_neg (by omega)]

theorem keepsHigh_setStatus (status : Status) : data.KeepsHigh (data.setStatus status) :=
  keepsHigh_set data (by decide) status

theorem keepsHigh_setFlag (f : Flag) (value : Bool) : data.KeepsHigh (data.setFlag f value) :=
  keepsHigh_setStatus data _

theorem keepsHigh_setWord {low high : Nat} (hlow : low < 0x60) (hhigh : high < 0x60) (value : UInt16) :
    data.KeepsHigh (data.setWord low high value) :=
  (keepsHigh_set data hlow _).trans (keepsHigh_set _ hhigh _)

theorem keepsHigh_setSp (value : UInt16) : data.KeepsHigh (data.setSp value) :=
  keepsHigh_setWord data (by decide) (by decide) value

theorem keepsHigh_setPair {r : Nat} (hr : r + 1 < 0x60) (value : UInt16) :
    data.KeepsHigh (data.setPair r value) :=
  keepsHigh_setWord data (Nat.lt_of_succ_lt hr) hr value

end Memory

namespace Alu

open Memory

variable {d : Nat} (data : Memory)

theorem keepsHigh_store (hd : d < 32) (result : UInt8) (status : Status) :
    data.KeepsHigh (store data d result status) :=
  (keepsHigh_set data (by omega) result).trans (keepsHigh_setStatus _ status)

theorem keepsHigh_binary (op : BinaryOp) (hd : d < 32) (r : Nat) :
    data.KeepsHigh (binary op d r data) := by
  cases op with
  | cpc | cp => exact keepsHigh_setStatus data _
  | sbc | add | sub | adc | and | eor | or => exact keepsHigh_store data hd _ _
  | cpse => exact .refl data
  | mov => exact keepsHigh_set data (by omega) _
  | mul => exact (keepsHigh_setPair data (by decide) _).trans (keepsHigh_setStatus _ _)

theorem keepsHigh_immediate (op : ImmediateOp) (hd : d < 32) (k : UInt8) :
    data.KeepsHigh (immediate op d k data) := by
  cases op with
  | cpi => exact keepsHigh_setStatus data _
  | sbci | subi | ori | andi => exact keepsHigh_store data hd _ _
  | ldi => exact keepsHigh_set data (by omega) _

theorem keepsHigh_unary (op : UnaryOp) (hd : d < 32) : data.KeepsHigh (unary op d data) := by
  cases op with
  | swap => exact keepsHigh_set data (by omega) _
  | _ => exact keepsHigh_store data hd _ _

theorem keepsHigh_pair (op : PairOp) (hd : d + 1 < 32) (k : UInt16) :
    data.KeepsHigh (pair op d k data) := by
  exact (keepsHigh_setPair data (by omega) _).trans (keepsHigh_setStatus _ _)

end Alu

namespace Machine

/-! ## Silence -/

/-- What passes between two transfers: the core computes on registers and ports, moves on, and reports,
and the run may end. -/
structure Silent (m m' : Machine) : Prop where
  data : m.data.KeepsHigh m'.data
  rest : m' = { m with
    data := m'.data, program := m'.program, cycle := m'.cycle, run := m'.run,
    interruptDelay := m'.interruptDelay, journal := m'.journal }

theorem Silent.refl (m : Machine) : Silent m m := ⟨.refl _, rfl⟩

theorem Silent.trans {m m' m'' : Machine} (h : Silent m m') (h' : Silent m' m'') : Silent m m'' where
  data := h.data.trans h'.data
  rest := by rw [h'.rest, h.rest]

variable (m : Machine)

theorem silent_onData {f : Memory → Memory} (h : m.data.KeepsHigh (f m.data)) :
    Silent m (m.onData f) :=
  ⟨h, rfl⟩

theorem silent_spend (n : UInt64) : Silent m (m.spend n) := ⟨.refl _, rfl⟩

theorem silent_goto (pc : UInt32) : Silent m (m.goto pc) := ⟨.refl _, rfl⟩

theorem silent_branch (offset : Int) : Silent m (m.branch offset) := ⟨.refl _, rfl⟩

theorem silent_report (level : Level) (message : String) (values : Core → List (String × Value)) :
    Silent m (m.onCore fun core => core.report level message (values core)) := ⟨.refl _, rfl⟩

theorem silent_crash (message name : String) (value : Core → Value) :
    Silent m (m.onCore fun core => core.crash message name (value core)) := ⟨.refl _, rfl⟩

theorem silent_load {d : Nat} (hd : d < 32) (result : UInt8 × Machine) :
    Silent result.2 (load d result) :=
  silent_onData _ (Memory.keepsHigh_set _ (by omega) _)

theorem silent_fetch (pc : UInt32) : Silent m (m.fetch pc).2 := by
  unfold fetch
  split
  · exact .refl m
  · exact silent_crash m _ _ fun _ => Core.shownAddress 5 pc.toNat

theorem silent_programByte (address : UInt16) : Silent m (m.programByte address).2 := by
  unfold programByte
  dsimp only
  split
  · exact silent_spend m 2
  · exact (silent_spend m 2).trans (silent_crash _ _ _ fun _ => Core.shownAddress 5 address.toNat)

theorem silent_skip : Silent m m.skip := by
  have hfetch := silent_fetch m m.program
  unfold skip
  generalize m.fetch m.program = result at hfetch
  dsimp only
  split
  · exact hfetch.trans ⟨.refl _, rfl⟩
  · exact hfetch.trans ⟨.refl _, rfl⟩

theorem silent_indirectAddress (mode : Indirect) : Silent m (m.indirectAddress mode).2 := by
  have hr : pointerRegister (indirectPointer mode) + 1 < 0x60 := by cases mode <;> decide
  cases mode with
  | x => exact silent_spend m 1
  | _ => exact ⟨Memory.keepsHigh_setPair _ hr _, rfl⟩

theorem silent_sleep : Silent m m.sleep := by
  unfold sleep
  split <;> exact ⟨.refl _, rfl⟩

theorem silent_relativeJump (k : Fin 4096) : Silent m (m.relativeJump k) := by
  unfold relativeJump
  dsimp only
  split
  · exact ⟨.refl _, rfl⟩
  · exact (silent_branch m _).trans (silent_spend _ 1)

theorem silent_performRegBit (op : RegBitOp) (r : Fin 32) (b : Fin 8) :
    Silent m (m.performRegBit op r b) := by
  have hr : r.val < 0x60 := by omega
  cases op with
  | bld => exact ⟨Memory.keepsHigh_set _ hr _, rfl⟩
  | bst => exact ⟨Memory.keepsHigh_setFlag _ _ _, rfl⟩
  | sbrc =>
    dsimp only [performRegBit]
    split
    · exact .refl m
    · exact silent_skip m
  | sbrs =>
    dsimp only [performRegBit]
    split
    · exact silent_skip m
    · exact .refl m

theorem silent_advanced (w : UInt16) : Silent m (m.advanced w) := by
  have htrace : Silent m (m.traceStep w) := by
    unfold traceStep
    split
    · exact ⟨.refl _, rfl⟩
    · exact .refl m
  unfold advanced
  generalize m.traceStep w = m' at htrace ⊢
  exact htrace.trans ⟨.refl _, rfl⟩

theorem silent_fetchExtension (w : UInt16) : Silent m (m.fetchExtension w).2 := by
  unfold fetchExtension
  split
  · exact (silent_fetch m m.program).trans (silent_goto _ _)
  · exact .refl m

/-! ## Transfers -/

/-- The stores that push the two bytes of a word address. -/
def pushes (sp : UInt16) (address : UInt32) : List Transfer :=
  [.store sp address.toUInt8, .store (sp - 1) (address >>> 8).toUInt8]

/-- The transfers of an instruction, with the program counter behind it. -/
def transfers (m : Machine) : Instr → List Transfer
  | .ret | .reti => [.load (m.data.sp + 1), .load (m.data.sp + 2)]
  | .icall | .rcall _ | .call _ => pushes m.data.sp m.returnAddress
  | .push r => [.store m.data.sp (m.data.get r.val)]
  | .pop _ => [.load (m.data.sp + 1)]
  | .ldd _ y q => [.load (m.displacedAddress y q)]
  | .std y q r => [.store (m.displacedAddress y q) (m.data.get r.val)]
  | .ld _ mode => [.load (m.indirectAddress mode).1]
  | .st mode r => [.store (m.indirectAddress mode).1 (m.data.get r.val)]
  | .lds _ address => [.load address]
  | .sts address r => [.store address (m.data.get r.val)]
  | .input _ a => [.load (ioAddress a.val)]
  | .output a r => [.store (ioAddress a.val) (m.data.get r.val)]
  | .ioBit .cbi a b =>
    [.load (ioAddress a.val),
      .store (ioAddress a.val) (withBit (m.read (ioAddress a.val)).1 b false)]
  | .ioBit .sbi a b =>
    [.load (ioAddress a.val),
      .store (ioAddress a.val) (withBit (m.read (ioAddress a.val)).1 b true)]
  | .ioBit .sbic a _ | .ioBit .sbis a _ => [.load (ioAddress a.val)]
  | _ => []

/-- The transfers of the instruction that a step executes. -/
def issued (m : Machine) : List Transfer :=
  if m.run = .running ∧ m.program ≤ m.codeEnd ∧ m.program.toNat + 1 < m.flash.size then
    (m.decoded?.map
      ((m.advanced m.currentWord).fetchExtension m.currentWord).2.transfers).getD []
  else []

/-- The transfers of the interrupt that a step enters. -/
def entering (m : Machine) : List Transfer :=
  match m.inspected?, m.entered? with
  | some inspected, some vector =>
    .entry vector :: pushes inspected.data.sp inspected.returnAddress
  | _, _ => []

/-- The transfers of a step. -/
def traffic (m : Machine) : List Transfer := m.issued ++ m.entering

/-- Transfers one after the other, in silence but for them. -/
inductive Trail : Machine → List Transfer → Machine → Prop
  | done (m : Machine) : Trail m [] m
  | silent {m k m' : Machine} {ts : List Transfer} (h : Silent m k) (rest : Trail k ts m') :
    Trail m ts m'
  | load {m m' : Machine} {ts : List Transfer} (address : UInt16)
    (rest : Trail (m.read address).2 ts m') : Trail m (.load address :: ts) m'
  | store {m m' : Machine} {ts : List Transfer} (address : UInt16) (value : UInt8)
    (rest : Trail (m.write address value) ts m') : Trail m (.store address value :: ts) m'
  | entry {m m' : Machine} {ts : List Transfer} (vector : Nat)
    (rest : Trail (m.acknowledge vector) ts m') : Trail m (.entry vector :: ts) m'

namespace Trail

variable {m m' k : Machine} {ts us : List Transfer}

theorem of_silent (h : Silent m m') : Trail m [] m' := .silent h (.done m')

theorem append (h : Trail m ts k) (h' : Trail k us m') : Trail m (ts ++ us) m' := by
  induction h with
  | done => exact h'
  | silent hsilent _ ih => exact .silent hsilent (ih h')
  | load address _ ih => exact .load address (ih h')
  | store address value _ ih => exact .store address value (ih h')
  | entry vector _ ih => exact .entry vector (ih h')

/-- Silence behind the last transfer. -/
theorem quiet (h : Trail m ts k) (h' : Silent k m') : Trail m ts m' := by
  have happend := h.append (of_silent h')
  rwa [List.append_nil] at happend

end Trail

/-! ## The stack -/

section Stack

variable {m : Machine}

/-- The registers of the UART stand behind the ports. -/
theorem base_of_mem_all : ∀ part ∈ Model.all, 0x60 ≤ part.uart.base.toNat := by
  decide

theorem data_receivedByte (m : Machine) : m.receivedByte.2.data = m.data := by
  unfold receivedByte
  split
  · rfl
  · split
    · exact data_raise _ _
    · rfl

theorem data_uartRead (m : Machine) (offset : Nat) : (m.uartRead offset).2.data = m.data := by
  unfold uartRead
  split
  · rfl
  · split
    · exact data_receivedByte m
    · rfl

theorem data_noted (m : Machine) (n : Note) : (m.noted n).data = m.data := by
  unfold noted onCore Core.noteAccess
  dsimp only
  split <;> rfl

/-- A load changes no other place than that of a register of the UART. -/
theorem get_read (m : Machine) (address : UInt16) {place : Nat}
    (h : m.uartOffset? address = none ∨ place ≠ address.toNat) :
    (m.read address).2.data.get place = m.data.get place := by
  have hupdate : (m.update address).data.get place = m.data.get place := by
    unfold update
    split
    · rfl
    · rename_i offset hoffset
      have hplace : place ≠ address.toNat := by
        rcases h with hnone | hplace
        · rw [hnone] at hoffset
          cases hoffset
        · exact hplace
      dsimp only
      rw [data_uartRead, Memory.get_set, if_neg fun heq => hplace heq.1.symm]
  rw [read_eq]
  split
  · exact (congrArg (·.get place) (data_noted _ _)).trans hupdate
  · rfl

theorem get_read_of_lt (hm : m.Housed) (address : UInt16) {place : Nat} (hplace : place < 0x60) :
    (m.read address).2.data.get place = m.data.get place := by
  apply get_read
  cases hoffset : m.uartOffset? address with
  | none => exact .inl rfl
  | some offset =>
    have haddress := address_of_uartOffset? hoffset
    have hbase := base_of_mem_all m.model hm.model
    unfold uartAddress at haddress
    exact .inr (by omega)

theorem sp_read (hm : m.Housed) (address : UInt16) : (m.read address).2.data.sp = m.data.sp := by
  unfold Memory.sp Memory.getWord
  rw [get_read_of_lt hm address (by decide), get_read_of_lt hm address (by decide)]

theorem sp_pop (hm : m.Housed) : m.pop.2.data.sp = m.data.sp + 1 := by
  have hroom : sphAddress < m.data.size := Nat.lt_of_lt_of_le (by decide) hm.room
  have hmoved : ({ m with data := m.data.setSp (m.data.sp + 1) } : Machine).Housed :=
    ⟨hm.model, (Memory.size_setSp _ _).trans hm.size⟩
  exact (sp_read hmoved _).trans (sp_setSp hroom _)

theorem trail_push (m : Machine) (value : UInt8) :
    Trail m [.store m.data.sp value] (m.push value) :=
  .store _ value (.of_silent ⟨Memory.keepsHigh_setSp _ _, rfl⟩)

theorem trail_pop (m : Machine) : Trail m [.load (m.data.sp + 1)] m.pop.2 :=
  .silent (k := { m with data := m.data.setSp (m.data.sp + 1) }) ⟨Memory.keepsHigh_setSp _ _, rfl⟩
    (.load _ (.done _))

theorem trail_pushAddress (hroom : sphAddress < m.data.size) (address : UInt32) :
    Trail m (pushes m.data.sp address) (m.pushAddress address) := by
  have hsecond := trail_push (m.push address.toUInt8) (address >>> 8).toUInt8
  rw [sp_push hroom] at hsecond
  exact (trail_push m address.toUInt8).append hsecond

theorem trail_popAddress (hm : m.Housed) :
    Trail m [.load (m.data.sp + 1), .load (m.data.sp + 2)] m.popAddress.2 := by
  have hsecond := trail_pop m.pop.2
  have hnext : m.data.sp + 1 + 1 = m.data.sp + 2 := UInt16.add_assoc _ 1 1
  rw [sp_pop hm, hnext] at hsecond
  rw [popAddress_snd]
  exact (trail_pop m).append hsecond

end Stack

/-! ## Instructions -/

section Instructions

variable {m : Machine}

/-- A byte is loaded into a register. -/
theorem trail_load (m : Machine) {d : Nat} (hd : d < 32) (address : UInt16) :
    Trail m [.load address] (load d (m.read address)) :=
  .load address (.of_silent (silent_load hd _))

theorem trail_returnFrom (hm : m.Housed) :
    Trail m [.load (m.data.sp + 1), .load (m.data.sp + 2)] m.returnFrom := by
  have hpop := trail_popAddress hm
  unfold returnFrom
  generalize m.popAddress = popped at hpop
  exact hpop.quiet ((silent_goto _ _).trans (silent_spend _ 3))

theorem trail_performIoBit (m : Machine) (op : IoBitOp) (a : Fin 32) (b : Fin 8) :
    Trail m (m.transfers (.ioBit op a b)) (m.performIoBit op a b) := by
  unfold performIoBit
  cases op with
  | cbi => exact .load _ (.store _ _ (.of_silent (silent_spend _ 1)))
  | sbi => exact .load _ (.store _ _ (.of_silent (silent_spend _ 1)))
  | sbic =>
    dsimp only
    split
    · exact .load _ (.done _)
    · exact .load _ (.of_silent (silent_skip _))
  | sbis =>
    dsimp only
    split
    · exact .load _ (.of_silent (silent_skip _))
    · exact .load _ (.done _)

/-- What an instruction does is what passes over the bus. -/
theorem trail_perform (hm : m.Housed) (instr : Instr) :
    Trail m (m.transfers instr) (m.perform instr) := by
  have hroom : sphAddress < m.data.size := Nat.lt_of_lt_of_le (by decide) hm.room
  cases instr with
  | nop => exact .done m
  | ret => exact trail_returnFrom hm
  | reti =>
    have hreturn := trail_returnFrom hm
    dsimp only [perform]
    generalize m.returnFrom = m' at hreturn
    exact hreturn.quiet ⟨Memory.keepsHigh_setFlag _ _ _, rfl⟩
  | sleep => exact .of_silent (silent_sleep m)
  | breakpoint =>
    dsimp only [perform]
    split
    · exact .of_silent ⟨.refl _, rfl⟩
    · exact .done m
  | wdr => exact .done m
  | ijmp => exact .of_silent ((silent_goto m _).trans (silent_spend _ 1))
  | icall => exact (trail_pushAddress hroom _).quiet ((silent_goto _ _).trans (silent_spend _ 2))
  | lpmZero => exact .of_silent ((silent_programByte m _).trans (silent_load (by decide) _))
  | movw d r =>
    have hd : 2 * d.val < 0x60 ∧ 2 * d.val + 1 < 0x60 := by omega
    exact .of_silent
      ⟨(Memory.keepsHigh_set _ hd.1 _).trans (Memory.keepsHigh_set _ hd.2 _), rfl⟩
  | binary op d r =>
    cases op with
    | cpse =>
      dsimp only [perform]
      split
      · exact .of_silent (silent_skip m)
      · exact .done m
    | mul =>
      exact .of_silent
        ((silent_onData m (Alu.keepsHigh_binary _ .mul d.isLt _)).trans (silent_spend _ 1))
    | _ => exact .of_silent (silent_onData m (Alu.keepsHigh_binary _ _ d.isLt _))
  | immediate op d k => exact .of_silent (silent_onData m (Alu.keepsHigh_immediate _ op (by omega) k))
  | unary op d => exact .of_silent (silent_onData m (Alu.keepsHigh_unary _ op d.isLt))
  | pair op d k =>
    exact .of_silent
      ((silent_onData m (Alu.keepsHigh_pair _ op (by omega) _)).trans (silent_spend _ 1))
  | push r => exact (trail_push m _).quiet (silent_spend _ 1)
  | pop d => exact (trail_pop m).quiet ((silent_load d.isLt m.pop).trans (silent_spend _ 1))
  | ldd d y q => exact .silent (silent_spend m 1) (trail_load _ d.isLt _)
  | std y q r => exact .silent (silent_spend m 1) (.store _ _ (.done _))
  | ld d mode => exact .silent (silent_indirectAddress m mode) (trail_load _ d.isLt _)
  | st mode r => exact .silent (silent_indirectAddress m mode) (.store _ _ (.done _))
  | lds d address => exact .silent (silent_spend m 1) (trail_load _ d.isLt _)
  | sts address r => exact .silent (silent_spend m 1) (.store _ _ (.done _))
  | lpm d inc =>
    have hload := (silent_programByte m (m.data.pair 30)).trans (silent_load d.isLt _)
    dsimp only [perform]
    split
    · exact .of_silent (hload.trans ⟨Memory.keepsHigh_setPair _ (by decide) _, rfl⟩)
    · exact .of_silent hload
  | input d a => exact trail_load m d.isLt _
  | output a r => exact .store _ _ (.done _)
  | rjmp k => exact .of_silent (silent_relativeJump m k)
  | rcall k => exact (trail_pushAddress hroom _).quiet ((silent_branch _ _).trans (silent_spend _ 2))
  | jmp k => exact .of_silent ((silent_goto m _).trans (silent_spend _ 2))
  | call k => exact (trail_pushAddress hroom _).quiet ((silent_goto _ _).trans (silent_spend _ 3))
  | branch s set k =>
    dsimp only [perform]
    split
    · exact .of_silent ((silent_branch m _).trans (silent_spend _ 1))
    · exact .done m
  | bset s =>
    dsimp only [perform]
    split
    · exact .of_silent ⟨Memory.keepsHigh_setFlag _ _ _, rfl⟩
    · exact .of_silent ⟨Memory.keepsHigh_setFlag _ _ _, rfl⟩
  | bclr s => exact .of_silent ⟨Memory.keepsHigh_setFlag _ _ _, rfl⟩
  | ioBit op a b => exact trail_performIoBit m op a b
  | regBit op r b => exact .of_silent (silent_performRegBit m op r b)

end Instructions

/-! ## Steps -/

section Steps

variable {m k : Machine}

theorem Silent.housed (h : Silent m k) (hm : m.Housed) : k.Housed := by
  have hmodel : k.model = m.model := by rw [h.rest]
  refine ⟨?_, ?_⟩
  · rw [hmodel]
    exact hm.model
  · rw [hmodel, h.data.size]
    exact hm.size

theorem trail_dispatch (hm : m.Housed) :
    Trail m
      ((m.decoded?.map
        ((m.advanced m.currentWord).fetchExtension m.currentWord).2.transfers).getD [])
      (m.dispatch m.currentWord) := by
  have hbefore := (silent_advanced m m.currentWord).trans
    (silent_fetchExtension (m.advanced m.currentWord) m.currentWord)
  have hhoused := hbefore.housed hm
  unfold dispatch decoded?
  generalize (m.advanced m.currentWord).fetchExtension m.currentWord = fetched at hbefore hhoused
  dsimp only
  cases Instr.decode m.currentWord fetched.1 with
  | some instr => exact .silent hbefore (trail_perform hhoused instr)
  | none =>
    exact .silent hbefore (.of_silent ⟨.refl _, rfl⟩)

theorem trail_execute (hm : m.Housed) : Trail m m.issued m.execute := by
  rw [execute_eq]
  unfold issued
  by_cases hend : m.codeEnd < m.program
  · rw [if_pos hend, if_neg fun h => UInt32.not_lt.mpr h.2.1 hend]
    exact .of_silent (silent_crash m _ _ fun core => Core.shownAddress 5 core.codeEnd.toNat)
  by_cases hflash : m.program.toNat + 1 < m.flash.size
  · rw [if_neg hend, if_pos hflash]
    by_cases hrun : m.run = .running
    · rw [if_neg (not_not_intro hrun), if_pos ⟨hrun, UInt32.not_lt.mp hend, hflash⟩]
      exact trail_dispatch hm
    · rw [if_pos hrun, if_neg fun h => hrun h.1]
      exact .done m
  · rw [if_neg hend, if_neg hflash, if_neg fun h => hflash h.2.2]
    exact .of_silent (silent_crash m _ _ fun _ => Core.shownAddress 5 m.program.toNat)

theorem trail_stackReturn (hm : m.Housed) (vector : Nat) :
    Trail m (.entry vector :: pushes m.data.sp m.returnAddress) (m.stackReturn vector) := by
  have hkept : (m.acknowledge vector).data = m.data ∧ (m.acknowledge vector).program = m.program := by
    unfold acknowledge
    split <;> exact ⟨rfl, rfl⟩
  have hreport := silent_report (m.acknowledge vector) .debug "interrupt"
    fun _ => [("vector", .number vector)]
  have hroom : sphAddress < m.data.size := Nat.lt_of_lt_of_le (by decide) hm.room
  refine .entry vector (.silent hreport ?_)
  unfold stackReturn
  dsimp only
  -- the return address is that of the machine before the entry
  have hdata : ((m.acknowledge vector).onCore fun core =>
      core.report .debug "interrupt" [("vector", .number vector)]).data = m.data := hkept.1
  have hprogram : ((m.acknowledge vector).onCore fun core =>
      core.report .debug "interrupt" [("vector", .number vector)]).program = m.program := hkept.2
  generalize (m.acknowledge vector).onCore (fun core =>
    core.report .debug "interrupt" [("vector", .number vector)]) = reported at hdata hprogram
  have hreturn : reported.returnAddress = m.returnAddress := by
    unfold returnAddress
    rw [hprogram]
  rw [← hreturn, ← hdata]
  exact trail_pushAddress (hdata ▸ hroom) _

theorem trail_enterInterrupt (hm : m.Housed) (vector : Nat) :
    Trail m (.entry vector :: pushes m.data.sp m.returnAddress) (m.enterInterrupt vector) := by
  have hstacked := trail_stackReturn hm vector
  rw [enterInterrupt_eq]
  generalize m.stackReturn vector = stacked at hstacked
  exact hstacked.quiet ⟨Memory.keepsHigh_setFlag _ _ _, rfl⟩

/-- Up to the point where interrupts are looked at, a step only executes an instruction. -/
theorem trail_of_inspected? (hm : m.Housed) (h : m.inspected? = some k) : Trail m m.issued k := by
  unfold inspected? at h
  split at h
  · split at h
    · cases h
      exact trail_execute hm
    · cases h
  · rename_i hrun
    cases h
    have hnone : m.issued = [] := if_neg (by rw [hrun]; nofun)
    rw [hnone]
    exact .of_silent ⟨.refl _, rfl⟩
  · cases h

theorem run_execute_of_not_inspected (h : m.inspected? = none) :
    m.execute.run ≠ .running := by
  by_cases hrunning : m.run = .running
  · intro hgoes
    rw [inspected?_of_running hrunning, if_pos hgoes] at h
    cases h
  · rw [execute_eq]
    split
    · nofun
    · split
      · exact hrunning
      · nofun

/-- A step that does not look at interrupts ends behind its instruction. -/
theorem trail_of_not_inspected (hm : m.Housed) (h : m.inspected? = none) :
    Trail m m.issued m.step := by
  unfold step
  by_cases hterminal : m.run.isTerminal
  · have hnone : m.issued = [] := by
      refine if_neg fun hissues => ?_
      rw [hissues.1] at hterminal
      cases hterminal
    rw [hnone, tick_of_isTerminal hterminal]
    exact .done m
  by_cases hsleeping : m.run = .sleeping
  · rw [inspected?_of_sleeping hsleeping] at h
    cases h
  by_cases hstopped : m.run = .stopped
  · have hnone : m.issued = [] := if_neg (by rw [hstopped]; nofun)
    rw [hnone, tick_of_stopped hstopped]
    split
    · exact .done m
    · exact .of_silent ⟨.refl _, rfl⟩
  · have hsettled : m.execute.settled = m.execute :=
      if_neg (run_execute_of_not_inspected h)
    rw [tick_of_active hterminal hstopped hsleeping, hsettled]
    exact trail_execute hm

/-- What a step does is what passes over the bus. -/
theorem trail_step (hm : m.Housed) : Trail m m.traffic m.step := by
  unfold traffic entering
  cases hinspected : m.inspected? with
  | none =>
    rw [List.append_nil]
    exact trail_of_not_inspected hm hinspected
  | some k =>
    have hk := stays_course (course_of_inspected? hinspected)
    have hhoused : k.Housed := SameHouse.housed ⟨hk.model, hk.size⟩ hm
    refine (trail_of_inspected? hm hinspected).append ?_
    rw [step_of_inspected? hinspected, entered?_eq_dueVector? hm.model hinspected, serviceInterrupts_eq]
    cases hdue : k.dueVector? with
    | none => exact .of_silent ⟨.refl _, rfl⟩
    | some vector => exact trail_enterInterrupt hhoused vector

end Steps

/-! ## Loads come first -/

section Loads

variable {m : Machine}

theorem loads_transfers (m : Machine) (instr : Instr) :
    (∃ first, m.transfers instr = [.load first, .load (first + 1)]) ∨
      ∀ t ∈ (m.transfers instr).tail, t.isLoad = false := by
  cases instr with
  | ret | reti => exact .inl ⟨m.data.sp + 1, by rw [UInt16.add_assoc]; rfl⟩
  | ioBit op a b => cases op <;> simp [transfers, Transfer.isLoad]
  | _ => simp [transfers, pushes, Transfer.isLoad]

theorem loads_issued (m : Machine) :
    (∃ first, m.issued = [.load first, .load (first + 1)]) ∨
      ∀ t ∈ m.issued.tail, t.isLoad = false := by
  unfold issued
  split
  · cases m.decoded? with
    | none => exact .inr nofun
    | some instr => exact loads_transfers _ instr
  · exact .inr nofun

theorem isLoad_of_mem_entering {t : Transfer} (h : t ∈ m.entering) : t.isLoad = false := by
  unfold entering at h
  split at h
  · simp only [pushes, List.mem_cons, List.not_mem_nil, or_false] at h
    obtain rfl | rfl | rfl := h <;> rfl
  · cases h

/-- In a step nothing comes before a load but the load of the place before, as of two bytes from the
stack. -/
theorem before_load {before after : List Transfer} {address : UInt16}
    (h : m.traffic = before ++ .load address :: after) :
    before = [] ∨ ∃ first, before = [.load first] ∧ address = first + 1 := by
  have hentering (hmem : .load address ∈ m.entering) : False := by
    cases isLoad_of_mem_entering hmem
  unfold traffic at h
  cases before with
  | nil => exact .inl rfl
  | cons t rest =>
    rcases loads_issued m with ⟨first, hissued⟩ | htail
    · rw [hissued] at h
      obtain ⟨rfl, hsecond⟩ := List.cons.inj h
      cases rest with
      | nil => exact .inr ⟨first, rfl, (Transfer.load.inj (List.cons.inj hsecond).1).symm⟩
      | cons t' rest =>
        have hrest : m.entering = rest ++ .load address :: after := (List.cons.inj hsecond).2
        exact (hentering (by simp [hrest])).elim
    · cases hissued : m.issued with
      | nil =>
        rw [hissued, List.nil_append] at h
        exact (hentering (by simp [h])).elim
      | cons t' rest' =>
        rw [hissued] at h htail
        have hrest : rest' ++ m.entering = rest ++ .load address :: after := (List.cons.inj h).2
        have hmem : .load address ∈ rest' ++ m.entering := by simp [hrest]
        rcases List.mem_append.mp hmem with hissue | henter
        · cases htail _ hissue
        · exact (hentering henter).elim

end Loads

end Machine

end AvrSim
