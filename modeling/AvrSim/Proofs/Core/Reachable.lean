import AvrSim.Proofs.Asm.Execution
import AvrSim.Proofs.Core.Lasts
import AvrSim.Proofs.Core.StrictStep
import AvrSim.Proofs.Uart.Reception

/-!
# What holds of every machine without a debugger

A machine that was made for a part and has since been loaded, stepped, halted, reset, rewired and had
its lines raised, in any order, keeps the memories of the part; only loading changes the flash. Its
program counter is even, no interrupt delay outlasts a step unless the run has ended, it is never
stopped, it sleeps only with interrupts on, and no step uses an index that is out of range.

* `Machine.Event` is what can happen to a machine.
* `Machine.Sound` is the invariant; `Machine.sound_create`, `Machine.sound_handle` and
  `Machine.sound_foldl` that it holds.
* `Machine.reachable_invariant` states it in the terms above.
-/

namespace AvrSim

/-! ## Even addresses -/

section Even

variable {a b : UInt32}

theorem even_add (ha : a.toNat % 2 = 0) (hb : b.toNat % 2 = 0) : (a + b).toNat % 2 = 0 := by
  rw [UInt32.toNat_add]
  omega

theorem even_sub (ha : a.toNat % 2 = 0) (hb : b.toNat % 2 = 0) : (a - b).toNat % 2 = 0 := by
  rw [UInt32.toNat_sub]
  omega

theorem even_shiftLeft (a : UInt32) : (a <<< 1).toNat % 2 = 0 := by
  have hone : (1 : UInt32).toNat % 32 = 1 := by decide
  rw [UInt32.toNat_shiftLeft, hone, Nat.shiftLeft_eq]
  omega

theorem even_ofNat {n : Nat} (hn : n % 2 = 0) : (UInt32.ofNat n).toNat % 2 = 0 := by
  rw [UInt32.toNat_ofNat']
  omega

theorem even_ofInt (k : Int) : (UInt32.ofInt (2 * k)).toNat % 2 = 0 := by
  unfold UInt32.ofInt
  rw [UInt32.toNat_ofNat']
  omega

end Even

namespace Machine

variable {m : Machine}

/-! ## The program counter -/

/-- The next instruction stands at an even address. -/
def Even (m : Machine) : Prop := m.program.toNat % 2 = 0

theorem even_of_program {m' : Machine} (h : m.Even) (hprogram : m'.program = m.program) : m'.Even := by
  unfold Even
  rwa [hprogram]

theorem program_fetch (pc : UInt32) : (m.fetch pc).2.program = m.program := by
  unfold fetch
  split <;> rfl

theorem even_branch (h : m.Even) (offset : Int) : (m.branch offset).Even :=
  even_add h (even_ofInt offset)

theorem even_skip (h : m.Even) : m.skip.Even := by
  have hfetched : (m.fetch m.program).2.Even := even_of_program h (program_fetch _)
  unfold skip
  generalize m.fetch m.program = fetched at hfetched
  dsimp only
  split
  · exact even_add hfetched (by decide)
  · exact even_add hfetched (by decide)

theorem even_returnFrom (m : Machine) : m.returnFrom.Even := by
  unfold returnFrom
  generalize m.popAddress = popped
  exact even_shiftLeft _

theorem even_relativeJump (h : m.Even) (k : Fin 4096) : (m.relativeJump k).Even := by
  unfold relativeJump
  dsimp only
  split
  · exact even_sub h (by decide)
  · exact even_branch h _

theorem even_performIoBit (h : m.Even) (op : IoBitOp) (a : Fin 32) (b : Fin 8) :
    (m.performIoBit op a b).Even := by
  have hread : (m.read (ioAddress a.val)).2.Even := even_of_program h (program_read _)
  unfold performIoBit
  dsimp only
  generalize m.read (ioAddress a.val) = result at hread
  cases op with
  | cbi => exact even_of_program hread (program_write _ _)
  | sbi => exact even_of_program hread (program_write _ _)
  | sbic =>
    dsimp only
    split
    · exact hread
    · exact even_skip hread
  | sbis =>
    dsimp only
    split
    · exact even_skip hread
    · exact hread

theorem even_performRegBit (h : m.Even) (op : RegBitOp) (r : Fin 32) (b : Fin 8) :
    (m.performRegBit op r b).Even := by
  unfold performRegBit
  cases op with
  | bld => exact h
  | bst => exact h
  | sbrc =>
    dsimp only
    split
    · exact h
    · exact even_skip h
  | sbrs =>
    dsimp only
    split
    · exact even_skip h
    · exact h

theorem even_perform (h : m.Even) (instr : Instr) : (m.perform instr).Even := by
  by_cases hsequential : instr.isSequential
  · exact even_of_program h (program_perform hsequential)
  cases instr with
  | ret => exact even_returnFrom m
  | reti =>
    have hreturned := even_returnFrom m
    dsimp only [perform]
    generalize m.returnFrom = m' at hreturned
    exact hreturned
  | ijmp => exact even_shiftLeft _
  | icall =>
    dsimp only [perform]
    generalize m.pushAddress m.returnAddress = m'
    exact even_shiftLeft _
  | rjmp k => exact even_relativeJump h k
  | rcall k =>
    have hpushed : (m.pushAddress m.returnAddress).Even :=
      even_of_program h (access_pushAddress m _).program
    dsimp only [perform]
    generalize m.pushAddress m.returnAddress = m' at hpushed
    exact even_branch hpushed _
  | jmp k => exact even_ofNat (Nat.mul_mod_right 2 _)
  | call k =>
    dsimp only [perform, callTo]
    generalize m.pushAddress m.returnAddress = m'
    exact even_ofNat (Nat.mul_mod_right 2 _)
  | branch s set k =>
    dsimp only [perform]
    split
    · exact even_branch h _
    · exact h
  | binary op d r =>
    cases op with
    | cpse =>
      dsimp only [perform]
      split
      · exact even_skip h
      · exact h
    | _ => exact absurd rfl hsequential
  | ioBit op a b => exact even_performIoBit h op a b
  | regBit op r b => exact even_performRegBit h op r b
  | _ => exact absurd rfl hsequential

theorem even_advanced (h : m.Even) (w : UInt16) : (m.advanced w).Even := by
  have htraced : (m.traceStep w).Even := even_of_program h (program_traceStep w)
  exact even_add htraced (by decide)

theorem even_fetchExtension (h : m.Even) (w : UInt16) : (m.fetchExtension w).2.Even := by
  unfold fetchExtension
  split
  · have hfetched : (m.fetch m.program).2.Even := even_of_program h (program_fetch _)
    exact even_add hfetched (by decide)
  · exact h

theorem even_execute (h : m.Even) : m.execute.Even := by
  rw [execute_eq]
  split
  · exact h
  · split
    · split
      · exact h
      · have hfetched := even_fetchExtension (even_advanced h m.currentWord) m.currentWord
        unfold dispatch
        generalize (m.advanced m.currentWord).fetchExtension m.currentWord = fetched at hfetched
        dsimp only
        split
        · exact even_perform hfetched _
        · exact even_sub hfetched (by decide)
    · exact h

theorem even_serviceInterrupts (h : m.Even) (hvector : m.model.vectorSize % 2 = 0) :
    m.serviceInterrupts.Even := by
  rw [serviceInterrupts_eq]
  split
  · rename_i vector _
    have hmodel := (access_stackReturn m vector).model
    rw [enterInterrupt_eq]
    generalize m.stackReturn vector = m' at hmodel
    refine even_ofNat ?_
    have hsize : (m'.onData (·.setFlag .i false)).model.vectorSize = m.model.vectorSize :=
      congrArg Model.vectorSize hmodel
    rw [hsize, Nat.mul_mod, hvector, Nat.mul_zero, Nat.zero_mod]
  · exact h

theorem even_step (h : m.Even) (hvector : m.model.vectorSize % 2 = 0) : m.step.Even := by
  unfold step
  by_cases hterminal : m.run.isTerminal
  · rw [tick_of_isTerminal hterminal]
    exact h
  by_cases hsleeping : m.run = .sleeping
  · rw [tick_of_sleeping hsleeping]
    exact even_serviceInterrupts h hvector
  by_cases hstopped : m.run = .stopped
  · simp only [tick, hstopped]
    split <;> exact h
  · have hexecuted := even_execute h
    have hmodel := (stays_course (course_execute m)).model
    rw [tick_of_active hterminal hstopped hsleeping]
    generalize m.execute = m' at hexecuted hmodel
    unfold settled
    split
    · exact even_serviceInterrupts hexecuted (hmodel ▸ hvector)
    · exact hexecuted

/-! ## The run -/

/-- What the run of a core without a debugger can be: it goes on, it has ended, or the core sleeps with
interrupts on. -/
def Rests (m : Machine) : Prop :=
  m.run = .running ∨ m.run.isTerminal ∨ m.run = .sleeping ∧ m.data.flag Flag.i.val

theorem rests_perform (hrun : m.run = .running ∨ m.run.isTerminal) (hprobed : m.probed = false)
    (instr : Instr) : (m.perform instr).Rests := by
  by_cases hsleep : instr = .sleep
  · subst hsleep
    dsimp only [perform]
    unfold sleep
    split
    · rename_i hflag
      exact .inr (.inr ⟨rfl, hflag⟩)
    · exact .inr (.inl rfl)
  by_cases hbreak : instr = .breakpoint
  · subst hbreak
    dsimp only [perform]
    rw [hprobed]
    exact hrun.imp_right .inl
  · rcases (lasts_perform m hsleep hbreak).run with hsame | hterminal
    · rw [← hsame] at hrun
      exact hrun.imp_right .inl
    · exact .inr (.inl hterminal)

theorem rests_execute (hrun : m.run = .running) (hprobed : m.probed = false) : m.execute.Rests := by
  rw [execute_eq]
  split
  · exact .inr (.inl rfl)
  · split
    · rw [if_neg (not_not_intro hrun)]
      have hlasts := (lasts_advanced m m.currentWord).trans (lasts_fetchExtension _ m.currentWord)
      unfold dispatch
      generalize (m.advanced m.currentWord).fetchExtension m.currentWord = fetched at hlasts
      dsimp only
      split
      · exact rests_perform (hrun ▸ hlasts.run) (hlasts.probed.trans hprobed) _
      · exact .inr (.inl rfl)
    · exact .inr (.inl rfl)

/-- An interrupt that is taken wakes the core. -/
theorem rests_serviceInterrupts (h : m.Rests) : m.serviceInterrupts.Rests := by
  rw [serviceInterrupts_eq]
  split
  · rename_i vector _
    rw [enterInterrupt_eq]
    generalize m.stackReturn vector = m'
    exact .inl rfl
  · exact h

theorem rests_step (h : m.Rests) (hprobed : m.probed = false) : m.step.Rests := by
  unfold step
  rcases h with hrun | hrun | ⟨hrun, hflag⟩
  · rw [tick_of_active (by rw [hrun]; decide) (by rw [hrun]; decide) (by rw [hrun]; decide)]
    have hexecuted := rests_execute hrun hprobed
    show m.execute.settled.Rests
    unfold settled
    split
    · exact rests_serviceInterrupts hexecuted
    · exact hexecuted
  · rw [tick_of_isTerminal hrun]
    exact .inr (.inl hrun)
  · rw [tick_of_sleeping hrun]
    exact rests_serviceInterrupts (.inr (.inr ⟨hrun, hflag⟩))

theorem Rests.of_access {m' : Machine} (h : m.Rests) (ha : Core.Access m.toCore m'.toCore)
    (hdata : m'.data = m.data) : m'.Rests := by
  rcases ha.run with hrun | hterminal
  · unfold Rests
    rw [hrun, hdata]
    exact h
  · exact .inr (.inl hterminal)

/-! ## Events -/

/-- What can happen to a machine without a debugger: a program is stored, the machine takes a step, it
is halted or reset, a line is raised, or its lines are wired anew. -/
inductive Event
  | load (base : Nat) (bytes : List UInt8)
  | step
  | halt
  | reset
  | raise (line : Nat) (value : UInt32)
  | wire (wiring : Wiring Observer)

/-- Whether an event stores a program. -/
def Event.isLoad : Event → Bool
  | .load _ _ => true
  | _ => false

/-- The machine after an event. A program that does not fit is not stored. -/
def handle (m : Machine) : Event → Machine
  | .load base bytes => match m.loadFlash base bytes with
    | .ok loaded => loaded
    | .error _ => m
  | .step => m.step
  | .halt => m.onCore Core.halt
  | .reset => m.reset
  | .raise line value => m.raise line value
  | .wire wiring => { m with wiring }

theorem data_halt (core : Core) : core.halt.data = core.data := by
  unfold Core.halt
  split <;> rfl

theorem data_react (observer : Observer) (position : Nat) (line : Line Observer) (value : UInt32)
    (core : Core) : (Core.react observer position line value core).1.data = core.data := by
  cases observer with
  | receive =>
    dsimp only [Core.react]
    unfold Core.receive
    dsimp only
    split
    · split <;> rfl
    · rfl
  | record tag haltOn =>
    dsimp only [Core.react]
    split
    · exact data_halt _
    · rfl

theorem data_raise (line : Nat) (value : UInt32) : (m.raise line value).data = m.data :=
  Wiring.raise_invariant (P := fun core => core.data = m.data)
    (fun observer position l value core h => (data_react observer position l value core).trans h)
    line value m.wiring m.toCore rfl

theorem size_initialData (model : Model) : (initialData model).size = model.dataSize := by
  simp only [initialData, Memory.size_set, Memory.size_setSp]
  exact Array.size_replicate

/-! ## The invariant -/

/-- What holds of a machine of a part between two events. -/
structure Sound (part : Model) (m : Machine) : Prop where
  model : m.model = part
  data : m.data.size = part.dataSize
  flash : m.flash.size = part.flashSize
  unprobed : m.probed = false
  even : m.Even
  prompt : m.Prompt
  rests : m.Rests

variable {part : Model}

theorem Sound.of_stays {m' : Machine} (h : m.Sound part) (hstays : Stays m m') (heven : m'.Even)
    (hprompt : m'.Prompt) (hrests : m'.Rests) : m'.Sound part where
  model := hstays.model.trans h.model
  data := hstays.size.trans h.data
  flash := by rw [hstays.flash]; exact h.flash
  unprobed := hstays.probed.trans h.unprobed
  even := heven
  prompt := hprompt
  rests := hrests

theorem Sound.of_access {m' : Machine} (h : m.Sound part) (ha : Core.Access m.toCore m'.toCore)
    (hdata : m'.data = m.data) : m'.Sound part :=
  h.of_stays (.of_access ha) (even_of_program h.even ha.program) (h.prompt.of_access ha)
    (h.rests.of_access ha hdata)

theorem sound_create {wiring : Wiring Observer} {journal : Journal}
    (hcreate : create part wiring journal = .ok m) : m.Sound part := by
  obtain ⟨wired, -, hm⟩ := exists_of_bind_eq_ok hcreate
  cases hm
  exact {
    model := rfl
    data := size_initialData part
    flash := Array.size_replicate
    unprobed := rfl
    even := rfl
    prompt := .inl rfl
    rests := .inl rfl }

theorem sound_loadFlash (h : m.Sound part) {base : Nat} {bytes : List UInt8} {loaded : Machine}
    (hload : m.loadFlash base bytes = .ok loaded) : loaded.Sound part := by
  unfold loadFlash at hload
  split at hload
  · cases hload
  · cases hload
    exact { h with flash := (Memory.size_store m.flash base bytes).trans h.flash }

theorem sound_step (h : m.Sound part) (hvector : part.vectorSize % 2 = 0) :
    m.step.Sound part :=
  h.of_stays (stays_course (course_tick m)) (even_step h.even (h.model ▸ hvector))
    (prompt_tick h.prompt) (rests_step h.rests h.unprobed)

theorem sound_halt (h : m.Sound part) : (m.onCore Core.halt).Sound part := by
  have haccess : Core.Access m.toCore (m.onCore Core.halt).toCore := Core.access_halt m.toCore
  exact h.of_access haccess (data_halt m.toCore)

theorem sound_reset (h : m.Sound part) : m.reset.Sound part := by
  have hsize := size_initialData m.model
  unfold reset
  generalize initialData m.model = data at hsize
  exact {
    model := h.model
    data := hsize.trans (congrArg Model.dataSize h.model)
    flash := h.flash
    unprobed := h.unprobed
    even := rfl
    prompt := .inl rfl
    rests := .inl rfl }

/-- One event. -/
theorem sound_handle (h : m.Sound part) (hvector : part.vectorSize % 2 = 0) (event : Event) :
    (m.handle event).Sound part := by
  cases event with
  | load base bytes =>
    dsimp only [handle]
    cases hload : m.loadFlash base bytes with
    | error _ => exact h
    | ok loaded => exact sound_loadFlash h hload
  | step => exact sound_step h hvector
  | halt => exact sound_halt h
  | reset => exact sound_reset h
  | raise line value => exact h.of_access (access_raise m line value) (data_raise line value)
  | wire wiring => exact { h with }

/-- Any sequence of events. -/
theorem sound_foldl (h : m.Sound part) (hvector : part.vectorSize % 2 = 0) (events : List Event) :
    (events.foldl handle m).Sound part := by
  induction events generalizing m with
  | nil => exact h
  | cons event rest ih => exact ih (sound_handle h hvector event)

theorem flash_handle (m : Machine) {event : Event} (hload : ¬ event.isLoad) :
    (m.handle event).flash = m.flash := by
  cases event with
  | load base bytes => exact absurd rfl hload
  | step => exact (stays_course (course_tick m)).flash
  | halt => exact (Core.access_halt m.toCore).flash
  | reset =>
    dsimp only [handle]
    unfold reset
    generalize initialData m.model = data
    rfl
  | raise line value => exact (access_raise m line value).flash
  | wire wiring => rfl

theorem exists_create_of_createNamed {name : String} {wiring : Wiring Observer} {journal : Journal}
    (hcreate : createNamed name wiring journal = .ok m) :
    ∃ part, Model.find? name = some part ∧ create part wiring journal = .ok m := by
  unfold createNamed at hcreate
  cases hpart : Model.find? name with
  | none =>
    rw [hpart] at hcreate
    cases hcreate
  | some part =>
    rw [hpart] at hcreate
    exact ⟨part, rfl, mapError_eq_ok_iff.mp hcreate⟩

theorem sound_createNamed {name : String} {wiring : Wiring Observer} {journal : Journal}
    (hcreate : createNamed name wiring journal = .ok m) : m.model ∈ Model.all ∧ m.Sound m.model := by
  obtain ⟨part, hpart, hnew⟩ := exists_create_of_createNamed hcreate
  have hsound := sound_create hnew
  rw [hsound.model]
  exact ⟨List.mem_of_find?_eq_some hpart, hsound⟩

/-- Every part has room for the registers, the ports and the UART in its data space, and its vectors
stand at even addresses. -/
theorem roomy_of_mem_all : ∀ part ∈ Model.all,
    0x100 ≤ part.dataSize ∧ part.uart.base.toNat + udr < 0x100 ∧ part.vectorSize % 2 = 0 := by
  decide

/-- Whatever happens to a new machine, it keeps the memories of its part and only loading changes the
flash, its program counter is even, an interrupt delay is left over only when the run has ended, it is
not stopped, it sleeps only with interrupts on, and its next step uses no index out of range. -/
theorem reachable_invariant {name : String} {wiring : Wiring Observer} {journal : Journal}
    {new : Machine} (hcreate : createNamed name wiring journal = .ok new) (events : List Event) :
    let m := events.foldl handle new
    m.model = new.model ∧
    m.data.size = new.model.ramEnd.toNat + 1 ∧
    m.flash.size = new.model.flashSize ∧
    (∀ event : Event, ¬ event.isLoad → (m.handle event).flash = m.flash) ∧
    m.program.toNat % 2 = 0 ∧
    (m.interruptDelay = true → m.run.isTerminal) ∧
    m.run ≠ .stopped ∧
    (m.run = .sleeping → m.data.flag Flag.i.val = true) ∧
    Strict.step m = some m.step := by
  obtain ⟨hpart, hnew⟩ := sound_createNamed hcreate
  obtain ⟨hdata, huart, hvector⟩ := roomy_of_mem_all new.model hpart
  have h := sound_foldl hnew hvector events
  intro m
  have hfits : Strict.Fits m := by
    refine ⟨?_, ?_⟩
    · unfold Strict.Roomy
      rw [h.data]
      exact hdata
    · rw [h.model]
      exact huart
  refine ⟨h.model, h.data, h.flash, fun _ hload => flash_handle m hload, h.even, ?_, ?_, ?_,
    Strict.step_eq hfits⟩
  · intro hdelay
    exact h.prompt.resolve_left (ne_false_of_eq_true hdelay)
  · intro hstopped
    rcases h.rests with hrun | hrun | ⟨hrun, -⟩
    · cases hrun.symm.trans hstopped
    · rw [hstopped] at hrun
      cases hrun
    · cases hrun.symm.trans hstopped
  · intro hsleeping
    rcases h.rests with hrun | hrun | ⟨-, hflag⟩
    · cases hrun.symm.trans hsleeping
    · rw [hsleeping] at hrun
      cases hrun
    · exact hflag

/-- A program that switches interrupts on and sleeps. -/
def dozing : List Event := [.load 0 [0x78, 0x94, 0x88, 0x95], .step, .step]

theorem asleep_dozing :
    (createNamed "atmega48" {} { threshold := none }).toOption.map
      (fun new => (dozing.foldl handle new).run) = some .sleeping := by
  decide +kernel

/-- The program leaves a small part asleep, with interrupts on and before an even address. -/
theorem dozing_invariant : ∃ new : Machine,
    createNamed "atmega48" {} { threshold := none } = .ok new ∧
    (dozing.foldl handle new).run = .sleeping ∧
    (dozing.foldl handle new).data.flag Flag.i.val = true ∧
    (dozing.foldl handle new).program.toNat % 2 = 0 ∧
    Strict.step (dozing.foldl handle new) = some (dozing.foldl handle new).step := by
  have hasleep := asleep_dozing
  cases hcreate : createNamed "atmega48" {} { threshold := none } with
  | error e =>
    rw [hcreate] at hasleep
    cases hasleep
  | ok new =>
    rw [hcreate] at hasleep
    have hrun : (dozing.foldl handle new).run = .sleeping := Option.some.inj hasleep
    obtain ⟨-, -, -, -, heven, -, -, hflag, hstrict⟩ := reachable_invariant hcreate dozing
    exact ⟨new, rfl, hrun, hflag hrun, heven, hstrict⟩

end Machine

end AvrSim
