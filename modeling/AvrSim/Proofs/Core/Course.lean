import AvrSim.Proofs.Core.Access
import AvrSim.Proofs.Core.Phases
import Mathlib.Logic.Relation

/-!
# The course of a step

Whatever an instruction does to the machine, it does in strokes of a few kinds: it computes on the data
space and the program counter, reports an entry, or makes an access to the data space. Only accesses
reach the UART and the lines. `Machine.Course` is a sequence of strokes, so a property of the UART, the
lines or the notes need only be looked at for one read and one write; the instructions are gone through
here once.

* `Machine.once_execute`: an instruction makes at most one store, and it is the last thing that reaches
  the bus.
* `Machine.course_tick`: the course of a step.
* `Machine.stays_course`: what no course changes.
-/

namespace AvrSim

/-- The complaint about a byte that found the UART full. -/
def Core.overrun : String := "uart receive buffer full, byte dropped"

/-! ## Arithmetic keeps the size of the data space -/

namespace Memory

@[simp] theorem size_setStatus (m : Memory) (value : Status) : (m.setStatus value).size = m.size :=
  size_set m _ _

@[simp] theorem size_setFlag (m : Memory) (f : Flag) (value : Bool) :
    (m.setFlag f value).size = m.size :=
  size_set m _ _

@[simp] theorem size_setPair (m : Memory) (r : Nat) (value : UInt16) :
    (m.setPair r value).size = m.size :=
  size_setWord m _ _ _

end Memory

namespace Alu

@[simp] theorem size_store (m : Memory) (d : Nat) (result : UInt8) (status : Status) :
    (store m d result status).size = m.size := by
  simp [store]

@[simp] theorem size_binary (op : BinaryOp) (d r : Nat) (m : Memory) :
    (binary op d r m).size = m.size := by
  cases op <;> simp [binary]

@[simp] theorem size_immediate (op : ImmediateOp) (d : Nat) (k : UInt8) (m : Memory) :
    (immediate op d k m).size = m.size := by
  cases op <;> simp [immediate]

@[simp] theorem size_unary (op : UnaryOp) (d : Nat) (m : Memory) :
    (unary op d m).size = m.size := by
  cases op <;> simp [unary, shiftRight]

@[simp] theorem size_pair (op : PairOp) (d : Nat) (k : UInt16) (m : Memory) :
    (pair op d k m).size = m.size := by
  simp [pair]

end Alu

namespace Machine

/-! ## Strokes -/

/-- One thing that the core does in the course of a step. -/
inductive Stroke : Machine → Machine → Prop
  | compute {m m' : Machine} (hsize : m'.data.size = m.data.size)
    (hrest : m' = { m with
      data := m'.data, program := m'.program, cycle := m'.cycle, run := m'.run,
      interruptDelay := m'.interruptDelay }) : Stroke m m'
  | report (m : Machine) (level : Level) (message : String) (values : List (String × Value))
    (hmessage : message ≠ Core.overrun) :
    Stroke m (m.onCore fun core => core.report level message values)
  | acknowledge (m : Machine) :
    Stroke m { m with uart := { m.uart with transmitted := false } }
  | read (m : Machine) (address : UInt16) : Stroke m (m.read address).2
  | write (m : Machine) (address : UInt16) (value : UInt8) : Stroke m (m.write address value)

/-- Strokes one after the other. -/
abbrev Course : Machine → Machine → Prop := Relation.ReflTransGen Stroke

/-- A stroke that writes nothing to the data space over the bus. -/
inductive Calm : Machine → Machine → Prop
  | compute {m m' : Machine} (hsize : m'.data.size = m.data.size)
    (hrest : m' = { m with
      data := m'.data, program := m'.program, cycle := m'.cycle, run := m'.run,
      interruptDelay := m'.interruptDelay }) : Calm m m'
  | report (m : Machine) (level : Level) (message : String) (values : List (String × Value))
    (hmessage : message ≠ Core.overrun) :
    Calm m (m.onCore fun core => core.report level message values)
  | acknowledge (m : Machine) : Calm m { m with uart := { m.uart with transmitted := false } }
  | read (m : Machine) (address : UInt16) : Calm m (m.read address).2

theorem Calm.stroke {m m' : Machine} (h : Calm m m') : Stroke m m' := by
  cases h with
  | compute hsize hrest => exact .compute hsize hrest
  | report level message values hmessage => exact .report m level message values hmessage
  | acknowledge => exact .acknowledge m
  | read address => exact .read m address

/-- Calm strokes one after the other. -/
abbrev Still : Machine → Machine → Prop := Relation.ReflTransGen Calm

theorem Still.course {m m' : Machine} (h : Still m m') : Course m m' :=
  Relation.ReflTransGen.mono (fun _ _ => Calm.stroke) _ _ h

/-- What an instruction writes: a byte, or an address on the stack. -/
inductive Store : Machine → Machine → Prop
  | write (m : Machine) (address : UInt16) (value : UInt8) : Store m (m.write address value)
  | pushAddress (m : Machine) (address : UInt32) : Store m (m.pushAddress address)

/-- What an instruction does behind a store: it computes, and the run is as the store left it. -/
structure Rounds (m m' : Machine) : Prop where
  size : m'.data.size = m.data.size
  rest : m' = { m with data := m'.data, program := m'.program, cycle := m'.cycle }

/-- At most one store, which comes last apart from computing. -/
inductive Once (m m' : Machine) : Prop
  | still (h : Still m m')
  | store {m₁ m₂ : Machine} (hbefore : Still m m₁) (hstore : Store m₁ m₂) (hafter : Rounds m₂ m')

variable (m : Machine)

theorem still_compute {m m' : Machine} (hsize : m'.data.size = m.data.size)
    (hrest : m' = { m with
      data := m'.data, program := m'.program, cycle := m'.cycle, run := m'.run,
      interruptDelay := m'.interruptDelay }) : Still m m' :=
  .single (.compute hsize hrest)

theorem Rounds.still {m m' : Machine} (h : Rounds m m') : Still m m' := by
  have hrun : m'.run = m.run := by rw [h.rest]
  have hdelay : m'.interruptDelay = m.interruptDelay := by rw [h.rest]
  refine still_compute h.size ?_
  rw [hrun, hdelay]
  exact h.rest

theorem Rounds.trans {m m' m'' : Machine} (h : Rounds m m') (h' : Rounds m' m'') : Rounds m m'' where
  size := h'.size.trans h.size
  rest := by
    rw [h'.rest, h.rest]

theorem rounds_onData {f : Memory → Memory} (hsize : (f m.data).size = m.data.size) :
    Rounds m (m.onData f) :=
  ⟨hsize, rfl⟩

theorem rounds_spend (n : UInt64) : Rounds m (m.spend n) := ⟨rfl, rfl⟩

theorem rounds_goto (pc : UInt32) : Rounds m (m.goto pc) := ⟨rfl, rfl⟩

theorem rounds_branch (offset : Int) : Rounds m (m.branch offset) := ⟨rfl, rfl⟩

theorem course_push (value : UInt8) : Course m (m.push value) := by
  have hwrite : Course m (m.write m.data.sp value) := .single (.write m _ value)
  exact hwrite.trans (still_compute (Memory.size_setSp _ _) rfl).course

theorem Store.course {m m' : Machine} (h : Store m m') : Course m m' := by
  cases h with
  | write address value => exact .single (.write m address value)
  | pushAddress address => exact (course_push m _).trans (course_push _ _)

theorem Once.course {m m' : Machine} (h : Once m m') : Course m m' := by
  cases h with
  | still hstill => exact hstill.course
  | store hbefore hstore hafter =>
    exact hbefore.course.trans (hstore.course.trans hafter.still.course)

theorem Once.after {m m₀ m' : Machine} (h : Once m₀ m') (hbefore : Still m m₀) : Once m m' := by
  cases h with
  | still hstill => exact .still (hbefore.trans hstill)
  | store hfirst hstore hafter => exact .store (hbefore.trans hfirst) hstore hafter

theorem still_onData {f : Memory → Memory} (hsize : (f m.data).size = m.data.size) :
    Still m (m.onData f) :=
  still_compute hsize rfl

theorem still_spend (n : UInt64) : Still m (m.spend n) := still_compute rfl rfl

theorem still_goto (pc : UInt32) : Still m (m.goto pc) := still_compute rfl rfl

theorem still_branch (offset : Int) : Still m (m.branch offset) := still_compute rfl rfl

theorem still_run (run : RunState) : Still m { m with run } := still_compute rfl rfl

theorem still_report (level : Level) (message : String) (values : Core → List (String × Value))
    (hmessage : message ≠ Core.overrun) :
    Still m (m.onCore fun core => core.report level message (values core)) :=
  .single (.report m level message (values m.toCore) hmessage)

theorem still_crash (message name : String) (value : Core → Value)
    (hmessage : message ≠ Core.overrun) :
    Still m (m.onCore fun core => core.crash message name (value core)) :=
  (still_report m .error message (fun core => [(name, value core), core.shownProgram])
    hmessage).trans (still_run _ .crashed)

theorem still_read (address : UInt16) : Still m (m.read address).2 :=
  .single (.read m address)

/-! ## Parts of instructions -/

theorem still_pop : Still m m.pop.2 := by
  have hsp : Still m { m with data := m.data.setSp (m.data.sp + 1) } :=
    still_compute (Memory.size_setSp _ _) rfl
  exact hsp.trans (still_read _ _)

theorem still_popAddress : Still m m.popAddress.2 := by
  rw [popAddress_snd]
  exact (still_pop m).trans (still_pop _)

theorem still_load (d : Nat) (result : UInt8 × Machine) : Still result.2 (load d result) :=
  still_onData _ (Memory.size_set _ _ _)

theorem still_fetch (pc : UInt32) : Still m (m.fetch pc).2 := by
  unfold fetch
  split
  · exact .refl
  · exact still_crash m "fetch out of flash" "addr" (fun _ => Core.shownAddress 5 pc.toNat)
      (by decide)

theorem still_programByte (address : UInt16) : Still m (m.programByte address).2 := by
  unfold programByte
  dsimp only
  split
  · exact still_spend m 2
  · exact (still_spend m 2).trans
      (still_crash (m.spend 2) "program memory read out of range" "addr"
        (fun _ => Core.shownAddress 5 address.toNat) (by decide))

theorem still_skip : Still m m.skip := by
  have hfetch := still_fetch m m.program
  unfold skip
  generalize m.fetch m.program = result at hfetch
  dsimp only
  split
  · exact hfetch.trans (still_compute rfl rfl)
  · exact hfetch.trans (still_compute rfl rfl)

theorem still_indirectAddress (mode : Indirect) : Still m (m.indirectAddress mode).2 := by
  cases mode with
  | x => exact still_spend m 1
  | _ => exact still_compute (Memory.size_setPair _ _ _) rfl

theorem still_returnFrom : Still m m.returnFrom := by
  have hpop := still_popAddress m
  unfold returnFrom
  generalize m.popAddress = result at hpop
  exact hpop.trans ((still_goto _ _).trans (still_spend _ 3))

theorem still_sleep : Still m m.sleep := by
  unfold sleep
  split
  · exact (still_report m _ _ _ (by decide)).trans (still_run _ .sleeping)
  · exact (still_report m _ _ _ (by decide)).trans (still_run _ .done)

theorem still_relativeJump (k : Fin 4096) : Still m (m.relativeJump k) := by
  unfold relativeJump
  dsimp only
  split
  · exact (still_report m _ _ _ (by decide)).trans (still_compute rfl rfl)
  · exact (still_branch m _).trans (still_spend _ 1)

/-- An address on the stack, and nothing but computing behind it. -/
theorem once_call {m m' : Machine} (h : Rounds (m.pushAddress m.returnAddress) m') : Once m m' :=
  .store .refl (.pushAddress m _) h

/-- A byte written, and nothing but computing behind it. -/
theorem once_write {m m₁ m' : Machine} {address : UInt16} {value : UInt8} (hbefore : Still m m₁)
    (h : Rounds (m₁.write address value) m') : Once m m' :=
  .store hbefore (.write m₁ address value) h

theorem once_performIoBit (op : IoBitOp) (a : Fin 32) (b : Fin 8) :
    Once m (m.performIoBit op a b) := by
  have hread := still_read m (ioAddress a.val)
  unfold performIoBit
  dsimp only
  generalize m.read (ioAddress a.val) = result at hread
  cases op with
  | cbi => exact once_write hread (rounds_spend _ 1)
  | sbi => exact once_write hread (rounds_spend _ 1)
  | sbic =>
    dsimp only
    split
    · exact .still hread
    · exact .still (hread.trans (still_skip _))
  | sbis =>
    dsimp only
    split
    · exact .still (hread.trans (still_skip _))
    · exact .still hread

theorem still_performRegBit (op : RegBitOp) (r : Fin 32) (b : Fin 8) :
    Still m (m.performRegBit op r b) := by
  cases op with
  | bld => exact still_compute (Memory.size_set _ _ _) rfl
  | bst => exact still_compute (Memory.size_setFlag _ _ _) rfl
  | sbrc =>
    dsimp only [performRegBit]
    split
    · exact .refl
    · exact still_skip m
  | sbrs =>
    dsimp only [performRegBit]
    split
    · exact still_skip m
    · exact .refl

/-! ## Instructions -/

theorem once_perform (instr : Instr) : Once m (m.perform instr) := by
  cases instr with
  | nop => exact .still .refl
  | ret => exact .still (still_returnFrom m)
  | reti =>
    have hreturn := still_returnFrom m
    dsimp only [perform]
    generalize m.returnFrom = m' at hreturn ⊢
    exact .still (hreturn.trans (still_compute (Memory.size_setFlag _ _ _) rfl))
  | sleep => exact .still (still_sleep m)
  | breakpoint =>
    dsimp only [perform]
    split
    · exact .still (still_run m .stopped)
    · exact .still .refl
  | wdr => exact .still .refl
  | ijmp => exact .still ((still_goto m _).trans (still_spend _ 1))
  | icall => exact once_call ((rounds_goto _ _).trans (rounds_spend _ 2))
  | lpmZero => exact .still ((still_programByte m _).trans (still_load 0 _))
  | movw d r => exact .still (still_compute (by simp [perform, onData]) rfl)
  | binary op d r =>
    cases op with
    | cpse =>
      dsimp only [perform]
      split
      · exact .still (still_skip m)
      · exact .still .refl
    | mul => exact .still ((still_onData m (Alu.size_binary ..)).trans (still_spend _ 1))
    | _ => exact .still (still_onData m (Alu.size_binary ..))
  | immediate op d k => exact .still (still_onData m (Alu.size_immediate _ _ _ _))
  | unary op d => exact .still (still_onData m (Alu.size_unary _ _ _))
  | pair op d k => exact .still ((still_onData m (Alu.size_pair _ _ _ _)).trans (still_spend _ 1))
  | push r =>
    exact once_write .refl ((rounds_onData (f := fun data => data.setSp (m.data.sp - 1)) _
      (Memory.size_setSp _ _)).trans (rounds_spend _ 1))
  | pop d => exact .still ((still_pop m).trans ((still_load d.val m.pop).trans (still_spend _ 1)))
  | ldd d y q => exact .still ((still_spend m 1).trans ((still_read _ _).trans (still_load d.val _)))
  | std y q r => exact once_write (still_spend m 1) ⟨rfl, rfl⟩
  | ld d mode =>
    exact .still ((still_indirectAddress m mode).trans ((still_read _ _).trans (still_load d.val _)))
  | st mode r => exact once_write (still_indirectAddress m mode) ⟨rfl, rfl⟩
  | lds d address =>
    exact .still ((still_spend m 1).trans ((still_read _ _).trans (still_load d.val _)))
  | sts address r => exact once_write (still_spend m 1) ⟨rfl, rfl⟩
  | lpm d inc =>
    have hload := (still_programByte m (m.data.pair 30)).trans (still_load d.val _)
    dsimp only [perform]
    split
    · exact .still (hload.trans (still_compute (Memory.size_setPair _ _ _) rfl))
    · exact .still hload
  | input d a => exact .still ((still_read m _).trans (still_load d.val _))
  | output a r => exact once_write .refl ⟨rfl, rfl⟩
  | rjmp k => exact .still (still_relativeJump m k)
  | rcall k => exact once_call ((rounds_branch _ _).trans (rounds_spend _ 2))
  | jmp k => exact .still ((still_goto m _).trans (still_spend _ 2))
  | call k => exact once_call ((rounds_goto _ _).trans (rounds_spend _ 3))
  | branch s set k =>
    dsimp only [perform]
    split
    · exact .still ((still_branch m _).trans (still_spend _ 1))
    · exact .still .refl
  | bset s =>
    dsimp only [perform]
    split
    · exact .still (still_compute (Memory.size_setFlag _ _ _) rfl)
    · exact .still (still_compute (Memory.size_setFlag _ _ _) rfl)
  | bclr s => exact .still (still_compute (Memory.size_setFlag _ _ _) rfl)
  | ioBit op a b => exact once_performIoBit m op a b
  | regBit op r b => exact .still (still_performRegBit m op r b)

/-! ## Steps -/

theorem still_advanced (w : UInt16) : Still m (m.advanced w) := by
  have htrace : Still m (m.traceStep w) := by
    unfold traceStep
    split
    · exact still_report m _ _ _ (by decide)
    · exact .refl
  unfold advanced
  generalize m.traceStep w = m' at htrace ⊢
  exact htrace.trans (still_compute rfl rfl)

theorem still_fetchExtension (w : UInt16) : Still m (m.fetchExtension w).2 := by
  unfold fetchExtension
  split
  · exact (still_fetch m m.program).trans (still_goto _ _)
  · exact .refl

theorem once_dispatch (w : UInt16) : Once m (m.dispatch w) := by
  have hbefore := (still_advanced m w).trans (still_fetchExtension (m.advanced w) w)
  unfold dispatch
  generalize (m.advanced w).fetchExtension w = result at hbefore
  dsimp only
  split
  · exact (once_perform _ _).after hbefore
  · exact .still (hbefore.trans ((still_goto _ _).trans (still_crash _ _ _ _ (by decide))))

/-- An instruction makes at most one store. -/
theorem once_execute : Once m m.execute := by
  rw [execute_eq]
  split
  · exact .still (still_crash m _ _ _ (by decide))
  · split
    · split
      · exact .still .refl
      · exact once_dispatch m _
    · exact .still (still_crash m _ _ _ (by decide))

theorem course_execute : Course m m.execute := (once_execute m).course

theorem still_acknowledge (vector : Nat) : Still m (m.acknowledge vector) := by
  unfold acknowledge
  split
  · exact .single (.acknowledge m)
  · exact .refl

/-- The entry of an interrupt puts an address on the stack and does nothing else on the bus. -/
theorem exists_stackReturn (vector : Nat) :
    ∃ m₁ address, Still m m₁ ∧ m.stackReturn vector = m₁.pushAddress address :=
  ⟨_, _, (still_acknowledge m vector).trans (still_report _ _ _ _ (by decide)), rfl⟩

theorem course_stackReturn (vector : Nat) : Course m (m.stackReturn vector) := by
  obtain ⟨m₁, address, hstill, heq⟩ := exists_stackReturn m vector
  rw [heq]
  exact hstill.course.trans (Store.pushAddress m₁ address).course

theorem course_serviceInterrupts : Course m m.serviceInterrupts := by
  rw [serviceInterrupts_eq]
  split
  · rename_i vector _
    have hstack := course_stackReturn m vector
    rw [enterInterrupt_eq]
    generalize m.stackReturn vector = m' at hstack
    exact hstack.trans (still_compute (Memory.size_setFlag _ _ _) rfl).course
  · have hstill : Still m { m with interruptDelay := false } := still_compute rfl rfl
    exact hstill.course

theorem course_settled : Course m m.settled := by
  unfold settled
  split
  · exact course_serviceInterrupts m
  · exact .refl

/-- A step is a sequence of strokes. -/
theorem course_tick : Course m m.tick.1 := by
  by_cases hterminal : m.run.isTerminal
  · rw [tick_of_isTerminal hterminal]
  by_cases hsleeping : m.run = .sleeping
  · rw [tick_of_sleeping hsleeping]
    exact (still_spend m 1).course.trans (course_serviceInterrupts (m.spend 1))
  by_cases hstopped : m.run = .stopped
  · simp only [tick, hstopped]
    split
    · exact .refl
    · exact (still_run m .running).course
  · rw [tick_of_active hterminal hstopped hsleeping]
    exact (course_execute m).trans (course_settled _)

/-! ## What stays -/

/-- What no stroke changes: the part, the flash, the size of the data space, the positions of the lines
and whether an instrument is connected. -/
structure Stays (m m' : Machine) : Prop where
  model : m'.model = m.model
  flash : m'.flash = m.flash
  size : m'.data.size = m.data.size
  firstLine : m'.firstLine = m.firstLine
  probed : m'.probed = m.probed

theorem Stays.of_access {m m' : Machine} (h : Core.Access m.toCore m'.toCore) : Stays m m' :=
  ⟨h.model, h.flash, h.size, h.firstLine, h.probed⟩

theorem stays_stroke {m m' : Machine} (h : Stroke m m') : Stays m m' := by
  cases h with
  | compute hsize hrest =>
    exact ⟨by rw [hrest], by rw [hrest], hsize, by rw [hrest], by rw [hrest]⟩
  | report level message values hmessage => exact ⟨rfl, rfl, rfl, rfl, rfl⟩
  | acknowledge => exact ⟨rfl, rfl, rfl, rfl, rfl⟩
  | read address => exact .of_access (access_read m address)
  | write address value => exact .of_access (access_write m address value)

theorem stays_course {m m' : Machine} (h : Course m m') : Stays m m' := by
  induction h with
  | refl => exact ⟨rfl, rfl, rfl, rfl, rfl⟩
  | tail _ hstroke ih =>
    have hlast := stays_stroke hstroke
    exact ⟨hlast.model.trans ih.model, hlast.flash.trans ih.flash, hlast.size.trans ih.size,
      hlast.firstLine.trans ih.firstLine, hlast.probed.trans ih.probed⟩

end Machine

end AvrSim
