import AvrSim.Proofs.Core.Access
import AvrSim.Proofs.Core.View
import AvrSim.Proofs.Isa.Coding

/-!
# What an instruction can do to the run

An instruction may crash or be halted in any of its accesses and still has the rest of its effect.
`Core.Lasts` says what this leaves of the run: it goes on as it was or has ended, and it has ended if
its end was reported. Two instructions set the run state by themselves, sleep and break; every other
one lasts.

* `Machine.lasts_perform`: all instructions but sleep and break.
* `Machine.reported_execute`: a request to end the run is not overwritten while an instruction is
  fetched and performed.
* `Machine.prompt_tick`: a step leaves no delay before an interrupt.
-/

namespace AvrSim

namespace Core

/-- The run has ended if its end was reported meanwhile. -/
def Reported (c c' : Core) : Prop :=
  ∀ e ∈ c'.journal.entries, e.endsRun → e ∈ c.journal.entries ∨ c'.run.isTerminal

/-- The run goes on as it was or has ended, it has ended if its end was reported meanwhile, and an
instrument stays connected. -/
structure Lasts (c c' : Core) : Prop where
  run : c'.run = c.run ∨ c'.run.isTerminal
  reported : Reported c c'
  probed : c'.probed = c.probed

namespace Lasts

theorem of_eq {c c' : Core} (hrun : c'.run = c.run) (hjournal : c'.journal = c.journal)
    (hprobed : c'.probed = c.probed) : Lasts c c' where
  run := .inl hrun
  reported := fun _ he _ => .inl (hjournal ▸ he)
  probed := hprobed

theorem trans {c c' c'' : Core} (h : Lasts c c') (h' : Lasts c' c'') : Lasts c c'' := by
  have hterminal (ht : c'.run.isTerminal) : c''.run.isTerminal := by
    obtain hrun | hrun := h'.run
    · rw [hrun]
      exact ht
    · exact hrun
  refine ⟨?_, ?_, h'.probed.trans h.probed⟩
  · obtain hrun | hrun := h'.run
    · exact h.run.imp hrun.trans hterminal
    · exact .inr hrun
  · intro e he hends
    obtain he | hrun := h'.reported e he hends
    · exact (h.reported e he hends).imp_right hterminal
    · exact .inr hrun

end Lasts

theorem Access.lasts {c c' : Core} (h : Access c c') : Lasts c c' :=
  ⟨h.run, h.reported, h.probed⟩

theorem Reported.of_not_terminal {c c' c'' : Core} (h : Lasts c c') (hrun : ¬ c'.run.isTerminal)
    (h' : Reported c' c'') : Reported c c'' := by
  intro e he hends
  obtain he | hterminal := h' e he hends
  · exact (h.reported e he hends).imp_right fun ht => absurd ht hrun
  · exact .inr hterminal

end Core

namespace Machine

open AvrSim.Core (Lasts Reported)

variable (m : Machine)

/-! ## Instructions -/

theorem lasts_onData (f : Memory → Memory) : Lasts m.toCore (m.onData f).toCore := .of_eq rfl rfl rfl

theorem lasts_load (d : Nat) (result : UInt8 × Machine) :
    Lasts result.2.toCore (load d result).toCore := lasts_onData result.2 _

theorem lasts_spend (n : UInt64) : Lasts m.toCore (m.spend n).toCore := .of_eq rfl rfl rfl

theorem lasts_goto (pc : UInt32) : Lasts m.toCore (m.goto pc).toCore := .of_eq rfl rfl rfl

theorem lasts_branch (offset : Int) : Lasts m.toCore (m.branch offset).toCore := .of_eq rfl rfl rfl

theorem lasts_crash (message name : String) (value : Core → Value) :
    Lasts m.toCore (m.onCore fun core => core.crash message name (value core)).toCore :=
  (Core.access_crash m.toCore message name (value m.toCore)).lasts

theorem lasts_fetch (pc : UInt32) : Lasts m.toCore (m.fetch pc).2.toCore := by
  unfold fetch
  split
  · exact .of_eq rfl rfl rfl
  · exact lasts_crash m _ _ _

theorem lasts_programByte (address : UInt16) :
    Lasts m.toCore (m.programByte address).2.toCore := by
  unfold programByte
  dsimp only
  split
  · exact lasts_spend m 2
  · exact (lasts_spend m 2).trans (lasts_crash (m.spend 2) _ _ _)

theorem lasts_skip : Lasts m.toCore m.skip.toCore := by
  unfold skip
  have hfetch := lasts_fetch m m.program
  generalize m.fetch m.program = result at hfetch
  dsimp only
  split
  · exact hfetch.trans (.of_eq rfl rfl rfl)
  · exact hfetch.trans (.of_eq rfl rfl rfl)

theorem lasts_indirectAddress (mode : Indirect) :
    Lasts m.toCore (m.indirectAddress mode).2.toCore := by
  cases mode <;> exact .of_eq rfl rfl rfl

theorem lasts_relativeJump (k : Fin 4096) : Lasts m.toCore (m.relativeJump k).toCore := by
  unfold relativeJump
  dsimp only
  split
  · exact ⟨.inr rfl, fun _ _ _ => .inr rfl, rfl⟩
  · exact (lasts_branch m _).trans (lasts_spend _ 1)

theorem lasts_returnFrom : Lasts m.toCore m.returnFrom.toCore := by
  have hpop := (access_popAddress m).lasts
  unfold returnFrom
  generalize m.popAddress = result at hpop
  exact hpop.trans (.of_eq rfl rfl rfl)

theorem lasts_performIoBit (op : IoBitOp) (a : Fin 32) (b : Fin 8) :
    Lasts m.toCore (m.performIoBit op a b).toCore := by
  have hread := (access_read m (ioAddress a.val)).lasts
  unfold performIoBit
  dsimp only
  generalize m.read (ioAddress a.val) = result at hread
  cases op with
  | cbi => exact hread.trans ((access_write result.2 _ _).lasts.trans (lasts_spend _ 1))
  | sbi => exact hread.trans ((access_write result.2 _ _).lasts.trans (lasts_spend _ 1))
  | sbic =>
    dsimp only
    split
    · exact hread
    · exact hread.trans (lasts_skip _)
  | sbis =>
    dsimp only
    split
    · exact hread.trans (lasts_skip _)
    · exact hread

theorem lasts_performRegBit (op : RegBitOp) (r : Fin 32) (b : Fin 8) :
    Lasts m.toCore (m.performRegBit op r b).toCore := by
  cases op with
  | bld => exact lasts_onData m _
  | bst => exact lasts_onData m _
  | sbrc =>
    dsimp only [performRegBit]
    split
    · exact .of_eq rfl rfl rfl
    · exact lasts_skip m
  | sbrs =>
    dsimp only [performRegBit]
    split
    · exact lasts_skip m
    · exact .of_eq rfl rfl rfl

theorem lasts_perform {instr : Instr} (hsleep : instr ≠ .sleep) (hbreak : instr ≠ .breakpoint) :
    Lasts m.toCore (m.perform instr).toCore := by
  cases instr with
  | nop => exact .of_eq rfl rfl rfl
  | ret => exact lasts_returnFrom m
  | reti =>
    have hreturn := lasts_returnFrom m
    dsimp only [perform]
    generalize m.returnFrom = m' at hreturn ⊢
    exact hreturn.trans (.of_eq rfl rfl rfl)
  | sleep => exact absurd rfl hsleep
  | breakpoint => exact absurd rfl hbreak
  | wdr => exact .of_eq rfl rfl rfl
  | ijmp => exact .of_eq rfl rfl rfl
  | icall =>
    have hpush := (access_pushAddress m m.returnAddress).lasts
    dsimp only [perform]
    generalize m.pushAddress m.returnAddress = m' at hpush ⊢
    exact hpush.trans (.of_eq rfl rfl rfl)
  | lpmZero => exact (lasts_programByte m _).trans (lasts_load 0 _)
  | movw d r => exact lasts_onData m _
  | binary op d r =>
    cases op with
    | cpse =>
      dsimp only [perform]
      split
      · exact lasts_skip m
      · exact .of_eq rfl rfl rfl
    | mul => exact .of_eq rfl rfl rfl
    | _ => exact lasts_onData m _
  | immediate op d k => exact lasts_onData m _
  | unary op d => exact lasts_onData m _
  | pair op d k => exact .of_eq rfl rfl rfl
  | push r => exact (access_push m _).lasts.trans (lasts_spend _ 1)
  | pop d => exact (access_pop m).lasts.trans ((lasts_load d.val m.pop).trans (lasts_spend _ 1))
  | ldd d y q =>
    exact (lasts_spend m 1).trans ((access_read (m.spend 1) _).lasts.trans (lasts_load d.val _))
  | std y q r => exact (lasts_spend m 1).trans (access_write (m.spend 1) _ _).lasts
  | ld d mode =>
    exact (lasts_indirectAddress m mode).trans ((access_read _ _).lasts.trans (lasts_load d.val _))
  | st mode r => exact (lasts_indirectAddress m mode).trans (access_write _ _ _).lasts
  | lds d address =>
    exact (lasts_spend m 1).trans ((access_read (m.spend 1) _).lasts.trans (lasts_load d.val _))
  | sts address r => exact (lasts_spend m 1).trans (access_write (m.spend 1) _ _).lasts
  | lpm d inc =>
    have hload := (lasts_programByte m (m.data.pair 30)).trans (lasts_load d.val _)
    dsimp only [perform]
    split
    · exact hload.trans (lasts_onData _ _)
    · exact hload
  | input d a => exact (access_read m _).lasts.trans (lasts_load d.val _)
  | output a r => exact (access_write m _ _).lasts
  | rjmp k => exact lasts_relativeJump m k
  | rcall k =>
    exact (access_pushAddress m _).lasts.trans ((lasts_branch _ _).trans (lasts_spend _ 2))
  | jmp k => exact .of_eq rfl rfl rfl
  | call k =>
    exact (access_pushAddress m _).lasts.trans ((lasts_goto _ _).trans (lasts_spend _ 3))
  | branch s set k =>
    dsimp only [perform]
    split
    · exact .of_eq rfl rfl rfl
    · exact .of_eq rfl rfl rfl
  | bset s =>
    dsimp only [perform]
    split
    · exact .of_eq rfl rfl rfl
    · exact .of_eq rfl rfl rfl
  | bclr s => exact lasts_onData m _
  | ioBit op a b => exact lasts_performIoBit m op a b
  | regBit op r b => exact lasts_performRegBit m op r b

/-! ## Execution -/

theorem lasts_advanced (w : UInt16) : Lasts m.toCore (m.advanced w).toCore := by
  have htrace : Lasts m.toCore (m.traceStep w).toCore := by
    unfold traceStep
    split
    · exact (Core.access_report m.toCore _ (by decide) (by decide)).lasts
    · exact .of_eq rfl rfl rfl
  unfold advanced
  exact htrace.trans (.of_eq rfl rfl rfl)

theorem run_advanced (w : UInt16) : (m.advanced w).run = m.run := by
  unfold advanced traceStep
  split
  · rfl
  · rfl

theorem lasts_fetchExtension (w : UInt16) : Lasts m.toCore (m.fetchExtension w).2.toCore := by
  unfold fetchExtension
  split
  · exact (lasts_fetch m m.program).trans (.of_eq rfl rfl rfl)
  · exact .of_eq rfl rfl rfl

/-- An instruction of one word is reached by a core that still runs. -/
theorem run_fetchExtension {m : Machine} (hrun : m.run = .running) (w : UInt16)
    (hlong : isLong w = false) : ((m.advanced w).fetchExtension w).2.run = .running := by
  unfold fetchExtension
  rw [if_neg (by simp [hlong])]
  exact (run_advanced m w).trans hrun

theorem reported_sleep : Reported m.toCore m.sleep.toCore := by
  unfold sleep
  split
  · intro e he hends
    exact .inl (Core.mem_of_mem_report m.toCore (by decide) (by decide) he hends)
  · exact fun _ _ _ => .inr rfl

theorem reported_breakpoint : Reported m.toCore (m.perform .breakpoint).toCore := by
  dsimp only [perform]
  split
  · exact fun _ he _ => .inl he
  · exact fun _ he _ => .inl he

theorem reported_perform (instr : Instr) : Reported m.toCore (m.perform instr).toCore := by
  by_cases hsleep : instr = .sleep
  · subst hsleep
    exact reported_sleep m
  · by_cases hbreak : instr = .breakpoint
    · subst hbreak
      exact reported_breakpoint m
    · exact (lasts_perform m hsleep hbreak).reported

/-- A request to end the run that comes up before an instruction is performed is not overwritten by it:
only sleep and break set the run state without ending it, and both are single words. -/
theorem reported_dispatch (hrun : m.run = .running) (w : UInt16) :
    Reported m.toCore (m.dispatch w).toCore := by
  have hbefore := (lasts_advanced m w).trans (lasts_fetchExtension (m.advanced w) w)
  have hshort := run_fetchExtension hrun w
  unfold dispatch
  generalize (m.advanced w).fetchExtension w = result at hbefore hshort
  obtain ⟨ext, m'⟩ := result
  dsimp only at hbefore hshort ⊢
  split
  · rename_i instr hdecode
    have hlong := Instr.isLong_of_decode hdecode
    cases h : isLong w with
    | false =>
      refine .of_not_terminal hbefore ?_ (reported_perform m' instr)
      rw [hshort h]
      decide
    | true =>
      rw [h] at hlong
      refine (hbefore.trans (lasts_perform m' ?_ ?_)).reported
      · rintro rfl
        cases hlong
      · rintro rfl
        cases hlong
  · exact fun _ _ _ => .inr rfl

theorem reported_execute (hrun : m.run = .running) : Reported m.toCore m.execute.toCore := by
  rw [execute_eq]
  split
  · exact fun _ _ _ => .inr rfl
  · split
    · split
      · exact fun _ he _ => .inl he
      · exact reported_dispatch m hrun _
    · exact fun _ _ _ => .inr rfl

/-! ## Interrupts -/

theorem access_stackReturn (vector : Nat) :
    Core.Access m.toCore (m.stackReturn vector).toCore := by
  have hacknowledge : Core.Access m.toCore (m.acknowledge vector).toCore := by
    unfold acknowledge
    split
    · exact access_setUart m _
    · exact .refl _
  have hreport : Core.Access (m.acknowledge vector).toCore ((m.acknowledge vector).onCore
      (·.report .debug "interrupt" [("vector", .number vector)])).toCore :=
    Core.access_report _ _ (by decide) (by decide)
  unfold stackReturn
  exact (hacknowledge.trans hreport).trans (access_pushAddress _ _)

theorem cycle_enterInterrupt (vector : Nat) : (m.enterInterrupt vector).cycle = m.cycle + 4 := by
  have hstack := (access_stackReturn m vector).cycle
  rw [enterInterrupt_eq]
  generalize m.stackReturn vector = m' at hstack
  show m'.cycle + 4 = _
  rw [hstack]

theorem probed_serviceInterrupts : m.serviceInterrupts.probed = m.probed := by
  rw [serviceInterrupts_eq]
  split
  · rename_i vector _
    have hstack := (access_stackReturn m vector).probed
    rw [enterInterrupt_eq]
    generalize m.stackReturn vector = m' at hstack
    exact hstack
  · rfl

theorem probed_perform (instr : Instr) : (m.perform instr).probed = m.probed := by
  by_cases hsleep : instr = .sleep
  · subst hsleep
    show m.sleep.probed = _
    unfold sleep
    split
    · rfl
    · rfl
  · by_cases hbreak : instr = .breakpoint
    · subst hbreak
      dsimp only [perform]
      split
      · rfl
      · rfl
    · exact (lasts_perform m hsleep hbreak).probed

theorem probed_execute : m.execute.probed = m.probed := by
  rw [execute_eq]
  split
  · rfl
  · split
    · split
      · rfl
      · have hbefore := ((lasts_advanced m m.currentWord).trans
          (lasts_fetchExtension (m.advanced m.currentWord) m.currentWord)).probed
        unfold dispatch
        generalize (m.advanced m.currentWord).fetchExtension m.currentWord = result at hbefore
        dsimp only
        split
        · exact (probed_perform _ _).trans hbefore
        · exact hbefore
    · rfl

theorem probed_tick : m.tick.1.probed = m.probed := by
  by_cases hterminal : m.run.isTerminal
  · rw [tick_of_isTerminal hterminal]
  by_cases hsleeping : m.run = .sleeping
  · rw [tick_of_sleeping hsleeping]
    exact probed_serviceInterrupts { m with cycle := m.cycle + 1 }
  by_cases hstopped : m.run = .stopped
  · simp only [tick, hstopped]
    split
    · rfl
    · rfl
  · rw [tick_of_active hterminal hstopped hsleeping]
    show m.execute.settled.probed = _
    unfold settled
    split
    · exact (probed_serviceInterrupts _).trans (probed_execute m)
    · exact probed_execute m

/-! ## The delay before an interrupt

The instruction that switches interrupts on asks for a delay, and the step that executes it uses the
delay up. Between steps there is none. -/

variable {m}

/-- A core without a delay, or one that has ended. -/
def Prompt (m : Machine) : Prop := m.interruptDelay = false ∨ m.run.isTerminal

theorem interruptDelay_serviceInterrupts (m : Machine) :
    m.serviceInterrupts.interruptDelay = false := by
  rw [serviceInterrupts_eq]
  cases hdue : m.dueVector? with
  | none => rfl
  | some vector =>
    -- no interrupt is due during the delay, and entering one asks for none
    have hdelay : m.interruptDelay = false := by
      cases hdelay : m.interruptDelay with
      | false => rfl
      | true => simp [dueVector?, hdelay] at hdue
    have hstack := (access_stackReturn m vector).interruptDelay
    dsimp only
    rw [enterInterrupt_eq]
    generalize m.stackReturn vector = m' at hstack
    exact hstack.trans hdelay

theorem interruptDelay_advanced (m : Machine) (w : UInt16) :
    (m.advanced w).interruptDelay = m.interruptDelay := by
  unfold advanced traceStep
  split
  · rfl
  · rfl

theorem interruptDelay_fetchExtension (m : Machine) (w : UInt16) :
    (m.fetchExtension w).2.interruptDelay = m.interruptDelay := by
  unfold fetchExtension fetch
  split
  · dsimp only
    split
    · rfl
    · rfl
  · rfl

/-- Only instructions that leave the core running or end the run ask for a delay. -/
theorem prompt_perform {instr : Instr} (hrun : m.run = .running ∨ m.run.isTerminal)
    (hdelay : m.interruptDelay = false) (hstops : (m.perform instr).run ≠ .running) :
    (m.perform instr).Prompt := by
  by_cases hsleep : instr = .sleep
  · subst hsleep
    left
    show m.sleep.interruptDelay = false
    unfold sleep
    split
    · exact hdelay
    · exact hdelay
  by_cases hbreak : instr = .breakpoint
  · subst hbreak
    left
    dsimp only [perform]
    split
    · exact hdelay
    · exact hdelay
  right
  rcases (lasts_perform m hsleep hbreak).run with hsame | hterminal
  · rw [hsame] at hstops ⊢
    exact hrun.resolve_left hstops
  · exact hterminal

theorem prompt_execute (hdelay : m.interruptDelay = false) (hstops : m.execute.run ≠ .running) :
    m.execute.Prompt := by
  revert hstops
  rw [execute_eq]
  split
  · exact fun _ => .inr rfl
  split
  · split
    · exact fun _ => .inl hdelay
    · rename_i hrunning
      have hlasts := (lasts_advanced m m.currentWord).trans
        (lasts_fetchExtension (m.advanced m.currentWord) m.currentWord)
      have hsame := (interruptDelay_fetchExtension (m.advanced m.currentWord) m.currentWord).trans
        (interruptDelay_advanced m m.currentWord)
      unfold dispatch
      generalize (m.advanced m.currentWord).fetchExtension m.currentWord = result at hlasts hsame
      dsimp only
      split
      · intro hstops
        apply prompt_perform _ (hsame.trans hdelay) hstops
        rcases hlasts.run with hrun | hterminal
        · exact .inl (hrun.trans (Decidable.not_not.mp hrunning))
        · exact .inr hterminal
      · exact fun _ => .inr rfl
  · exact fun _ => .inr rfl

theorem prompt_tick (h : m.Prompt) : m.tick.1.Prompt := by
  by_cases hterminal : m.run.isTerminal
  · rw [tick_of_isTerminal hterminal]
    exact h
  have hdelay : m.interruptDelay = false := h.resolve_right hterminal
  by_cases hsleeping : m.run = .sleeping
  · rw [tick_of_sleeping hsleeping]
    exact .inl (interruptDelay_serviceInterrupts _)
  by_cases hstopped : m.run = .stopped
  · left
    rw [tick_of_stopped hstopped]
    split
    · exact hdelay
    · exact hdelay
  rw [tick_of_active hterminal hstopped hsleeping]
  show m.execute.settled.Prompt
  unfold settled
  split
  · exact .inl (interruptDelay_serviceInterrupts _)
  · rename_i hstops
    exact prompt_execute hdelay hstops

theorem Prompt.of_access {m' : Machine} (h : m.Prompt) (ha : Core.Access m.toCore m'.toCore) :
    m'.Prompt :=
  h.imp ha.interruptDelay.trans ha.terminal

theorem prompt_raise (h : m.Prompt) (line : Nat) (value : UInt32) : (m.raise line value).Prompt :=
  h.of_access (access_raise m line value)

end Machine

end AvrSim
