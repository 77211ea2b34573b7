import AvrSim.Proofs.Core.Lasts
import AvrSim.Proofs.Core.View

/-!
# Steps without the instrument

With no instrument connected a break does nothing. With one it stops the core, and a stopped core does
not look at interrupts. Here a step of a machine is compared with the step of the same machine without
its instrument.

* `Machine.view_execute_unwatched`: the instruction has the same effect once a stop is lifted.
* `Machine.view_tick_unwatched`: so has the whole step, except that the interrupts of a stopped core
  have still to be looked at; `Machine.isDue` says whether that has an effect.
-/

namespace AvrSim.Machine

variable (m : Machine)

/-- The machine set running. -/
def resumed (m : Machine) : Machine := { m with run := .running }

theorem resumed_of_running {m : Machine} (h : m.run = .running) : m.resumed = m := by
  unfold resumed
  rw [← h]

/-- The machine with a stop lifted. -/
def released (m : Machine) : Machine := if m.run = .stopped then m.resumed else m

/-- What is left to do for a core that a break stopped: interrupts are looked at. -/
def caughtUp (m : Machine) : Machine :=
  if m.run = .stopped then m.resumed.serviceInterrupts else m

theorem released_of_ne {m : Machine} (h : m.run ≠ .stopped) : m.released = m := if_neg h

theorem run_released_ne_stopped : m.released.run ≠ .stopped := by
  unfold released
  split
  · nofun
  · assumption

/-- A step of a stopped core without an instrument only lifts the stop. -/
theorem step_of_stopped {m : Machine} (hrun : m.run = .stopped) (hprobed : m.probed = false) :
    m.step = m.resumed := by
  rw [step, tick_of_stopped hrun, if_neg (by simp [hprobed])]
  rfl

theorem caughtUp_of_ne {m : Machine} (h : m.run ≠ .stopped) : m.caughtUp = m := if_neg h

/-! ## Instructions -/

theorem ne_stopped_of_isTerminal {run : RunState} (h : run.isTerminal) : run ≠ .stopped := by
  rintro rfl
  cases h

theorem run_sleep_ne_stopped : m.sleep.run ≠ .stopped := by
  unfold sleep
  split
  · nofun
  · nofun

theorem run_perform_ne_stopped {m : Machine} {instr : Instr} (hrun : m.run ≠ .stopped)
    (hbreak : instr ≠ .breakpoint) : (m.perform instr).run ≠ .stopped := by
  by_cases hsleep : instr = .sleep
  · subst hsleep
    exact run_sleep_ne_stopped m
  · obtain h | h := (lasts_perform m hsleep hbreak).run
    · rw [h]
      exact hrun
    · exact ne_stopped_of_isTerminal h

theorem view_perform_released {m : Machine} (hrun : m.run = .running) (instr : Instr) :
    (m.view false).perform instr = (m.perform instr).released.view false := by
  by_cases hbreak : instr = .breakpoint
  · subst hbreak
    show m.view false = _
    dsimp only [perform]
    split
    · exact congrArg (view false) (resumed_of_running hrun).symm
    · rw [released_of_ne (by rw [hrun]; nofun)]
  · rw [view_perform false m (.inr hbreak),
      released_of_ne (run_perform_ne_stopped (by rw [hrun]; nofun) hbreak)]

theorem view_dispatch_released {m : Machine} (hrun : m.run = .running) (w : UInt16) :
    (m.view false).dispatch w = (m.dispatch w).released.view false := by
  have hbefore := ((lasts_advanced m w).trans (lasts_fetchExtension (m.advanced w) w)).run
  have hshort := run_fetchExtension hrun w
  unfold dispatch
  rw [view_advanced, view_fetchExtension]
  generalize (m.advanced w).fetchExtension w = result at hbefore hshort
  obtain ⟨ext, m'⟩ := result
  dsimp only [Prod.map, id] at hbefore hshort ⊢
  split
  · rename_i instr hdecode
    by_cases hbreak : instr = .breakpoint
    · subst hbreak
      exact view_perform_released (hshort (Instr.isLong_of_decode hdecode)) _
    · have hne : m'.run ≠ .stopped := by
        obtain h | h := hbefore
        · rw [h, hrun]
          nofun
        · exact ne_stopped_of_isTerminal h
      rw [view_perform false m' (.inr hbreak), released_of_ne (run_perform_ne_stopped hne hbreak)]
  · rfl

theorem view_execute_unwatched {m : Machine} (hrun : m.run ≠ .stopped) :
    (m.view false).execute = m.execute.released.view false := by
  rw [execute_eq, execute_eq]
  show (if m.codeEnd < m.program then _ else
    if m.program.toNat + 1 < m.flash.size then if m.run ≠ .running then _ else _ else _) = _
  split
  · rfl
  · split
    · split
      · rw [released_of_ne hrun]
      · rename_i hrunning
        exact view_dispatch_released (Decidable.not_not.mp hrunning) _
    · rfl

/-! ## Interrupts -/

theorem run_serviceInterrupts :
    m.serviceInterrupts.run = m.run ∨ m.serviceInterrupts.run = .running := by
  unfold serviceInterrupts
  split
  · exact .inl rfl
  · split
    · split
      · exact .inr rfl
      · exact .inl rfl
    · exact .inl rfl

theorem serviceInterrupts_ne_stopped {m : Machine} (hrun : m.run ≠ .stopped) :
    m.serviceInterrupts.run ≠ .stopped := by
  obtain h | h := run_serviceInterrupts m
  · rw [h]
    exact hrun
  · rw [h]
    nofun

/-- Looking at interrupts has an effect if one is due or if the delay before one ends. -/
def isDue (m : Machine) : Bool := m.interruptDelay || m.dueVector?.isSome

theorem serviceInterrupts_of_not_isDue {m : Machine} (h : m.isDue = false) :
    m.serviceInterrupts = m := by
  rw [isDue, Bool.or_eq_false_iff] at h
  rw [serviceInterrupts_eq, Option.isSome_eq_false_iff.mp h.2 |> Option.isNone_iff_eq_none.mp]
  show ({ m with interruptDelay := false } : Machine) = m
  rw [← h.1]

theorem ne_of_isDue {m : Machine} (h : m.isDue = true) :
    m.serviceInterrupts.cycle ≠ m.cycle ∨ m.serviceInterrupts.interruptDelay ≠ m.interruptDelay := by
  rw [serviceInterrupts_eq]
  cases hdue : m.dueVector? with
  | some vector =>
    left
    dsimp only
    rw [cycle_enterInterrupt]
    simp
  | none =>
    right
    have hdelay : m.interruptDelay = true := by simpa [isDue, hdue] using h
    rw [hdelay]
    nofun

/-! ## Stops -/

theorem probed_of_perform {m : Machine} {instr : Instr} (hrun : m.run ≠ .stopped)
    (h : (m.perform instr).run = .stopped) : m.probed = true := by
  by_cases hbreak : instr = .breakpoint
  · subst hbreak
    cases hprobed : m.probed with
    | true => rfl
    | false => simp [perform, hprobed, hrun] at h
  · exact absurd h (run_perform_ne_stopped hrun hbreak)

theorem probed_of_execute {m : Machine} (hrun : m.run ≠ .stopped)
    (h : m.execute.run = .stopped) : m.probed = true := by
  rw [execute_eq] at h
  split at h
  · cases h
  · split at h
    · split at h
      · exact absurd h hrun
      · have hbefore := (lasts_advanced m m.currentWord).trans
          (lasts_fetchExtension (m.advanced m.currentWord) m.currentWord)
        unfold dispatch at h
        generalize (m.advanced m.currentWord).fetchExtension m.currentWord = result at hbefore h
        have hne : result.2.run ≠ .stopped := by
          obtain hsame | hterminal := hbefore.run
          · rw [hsame]
            exact hrun
          · exact ne_stopped_of_isTerminal hterminal
        dsimp only at h
        split at h
        · exact hbefore.probed ▸ probed_of_perform hne h
        · cases h
    · cases h

/-- Only a core with an instrument is stopped by a step, and the instrument has its turn. -/
theorem probed_of_tick {m : Machine} (hrun : m.run ≠ .stopped) (h : m.tick.1.run = .stopped) :
    m.probed = true ∧ m.tick.2 = true := by
  by_cases hterminal : m.run.isTerminal
  · rw [tick_of_isTerminal hterminal] at h
    exact absurd h hrun
  by_cases hsleeping : m.run = .sleeping
  · rw [tick_of_sleeping hsleeping] at h
    exact absurd h (serviceInterrupts_ne_stopped hrun)
  have hprobed_tick := probed_tick m
  rw [tick_of_active hterminal hrun hsleeping] at h hprobed_tick ⊢
  have hexecute : m.execute.run = .stopped := by
    by_cases hstopped : m.execute.run = .stopped
    · exact hstopped
    · dsimp only [settled] at h
      split at h
      · exact absurd h (serviceInterrupts_ne_stopped hstopped)
      · exact h
  have hprobed := probed_of_execute hrun hexecute
  refine ⟨hprobed, ?_⟩
  dsimp only at h hprobed_tick ⊢
  rw [h, hprobed_tick, hprobed]
  rfl

/-- A step after which the instrument has no turn does not leave the core stopped. -/
theorem run_tick_ne_stopped {m : Machine} (hdue : m.tick.2 = false) : m.tick.1.run ≠ .stopped := by
  intro h
  by_cases hrun : m.run = .stopped
  · rw [tick_of_stopped hrun] at hdue h
    split at hdue
    · cases hdue
    · rename_i hprobed
      rw [if_neg hprobed] at h
      cases h
  · rw [(probed_of_tick hrun h).2] at hdue
    cases hdue

theorem tick_snd_of_unprobed {m : Machine} (h : m.probed = false) : m.tick.2 = false := by
  by_cases hterminal : m.run.isTerminal
  · rw [tick_of_isTerminal hterminal]
  by_cases hsleeping : m.run = .sleeping
  · rw [tick_of_sleeping hsleeping]
  by_cases hstopped : m.run = .stopped
  · simp only [tick, hstopped, h]
    rfl
  · have hprobed := probed_tick m
    rw [tick_of_active hterminal hstopped hsleeping] at hprobed ⊢
    dsimp only at hprobed ⊢
    rw [hprobed, h]
    rfl

/-- The turn of an instrument comes after each step that executes and does not end the run. -/
theorem tick_snd_iff {m : Machine} (hprobed : m.probed = true) :
    m.tick.2 = true ↔ m.run ≠ .sleeping ∧ m.tick.1.run.isTerminal = false := by
  by_cases hterminal : m.run.isTerminal
  · rw [tick_of_isTerminal hterminal]
    simp [hterminal]
  by_cases hsleeping : m.run = .sleeping
  · rw [tick_of_sleeping hsleeping]
    simp [hsleeping]
  by_cases hstopped : m.run = .stopped
  · rw [tick_of_stopped hstopped, if_pos hprobed]
    simp [hstopped, RunState.isTerminal]
  · have hsame := probed_tick m
    rw [tick_of_active hterminal hstopped hsleeping] at hsame ⊢
    dsimp only at hsame ⊢
    simp [hsame, hprobed, hsleeping]

/-! ## Steps -/

theorem settled_released : m.released.settled = m.settled.caughtUp := by
  by_cases hstopped : m.run = .stopped
  · have hsettled : m.settled = m := if_neg (by rw [hstopped]; nofun)
    rw [hsettled, released, if_pos hstopped, caughtUp, if_pos hstopped]
    rfl
  · rw [released_of_ne hstopped]
    by_cases hrunning : m.run = .running
    · rw [settled, if_pos hrunning, caughtUp_of_ne (serviceInterrupts_ne_stopped hstopped)]
    · rw [settled, if_neg hrunning, caughtUp_of_ne hstopped]

theorem view_settled : (m.view false).settled = m.settled.view false := by
  have hrun : (m.view false).run = m.run := rfl
  unfold settled
  rw [hrun, view_serviceInterrupts]
  split
  · rfl
  · rfl

theorem view_tick_unwatched {m : Machine} (hrun : m.run ≠ .stopped) :
    (m.view false).tick.1 = m.tick.1.caughtUp.view false := by
  have hrun' : (m.view false).run = m.run := rfl
  by_cases hterminal : m.run.isTerminal
  · rw [tick_of_isTerminal hterminal, tick_of_isTerminal (hrun' ▸ hterminal), caughtUp_of_ne hrun]
  · by_cases hsleeping : m.run = .sleeping
    · have hservice : ({ m with cycle := m.cycle + 1 } : Machine).serviceInterrupts.run ≠ .stopped :=
        serviceInterrupts_ne_stopped hrun
      rw [tick_of_sleeping hsleeping, tick_of_sleeping (hrun'.trans hsleeping), caughtUp_of_ne hservice,
        ← view_serviceInterrupts]
      rfl
    · rw [tick_of_active hterminal hrun hsleeping, tick_of_active (hrun' ▸ hterminal) (hrun' ▸ hrun)
        (hrun' ▸ hsleeping), view_execute_unwatched hrun]
      exact (view_settled m.execute.released).trans (congrArg (view false) (settled_released m.execute))

end AvrSim.Machine
