import AvrSim.Proofs.Core.Lasts
import AvrSim.Proofs.Core.View

/-!
# A request to end the run

A crash, or a halt that an observer of a line asks for, is a request to end the run. Within a step it
can come from the instruction or from the pushes of an interrupt's entry.

* `Machine.endRequested`: whether the next step meets such a request.
* `Machine.EndsNow`: that step ends the run for good.
* `Machine.endsNow_iff`: a request is met unless it comes from an interrupt's entry, which sets the core
  running again after its pushes.
-/

namespace AvrSim.Machine

variable (m : Machine)

/-! ## The end -/

/-- What a machine can become by further steps and by raises of lines between them. -/
inductive Later (m : Machine) : Machine → Prop
  | refl : Later m m
  | tick {m' : Machine} : Later m m' → Later m m'.tick.1
  | raise {m' : Machine} (line : Nat) (value : UInt32) : Later m m' → Later m (m'.raise line value)

/-- The next step ends the run: the debugger has no turn in it, and each later step is without effect,
whatever lines are raised in between. -/
structure EndsNow (m : Machine) : Prop where
  terminal : m.tick.1.run.isTerminal
  unasked : m.tick.2 = false
  stays : ∀ m', m.tick.1.Later m' → m'.tick = (m', false) ∧ m'.run = m.tick.1.run ∧
    m'.program = m.tick.1.program ∧ m'.data = m.tick.1.data ∧ m'.flash = m.tick.1.flash ∧
    m'.cycle = m.tick.1.cycle

/-- What a raise leaves alone once the run has ended. -/
structure Kept (c c' : Core) : Prop where
  run : c'.run = c.run
  program : c'.program = c.program
  data : c'.data = c.data
  flash : c'.flash = c.flash
  cycle : c'.cycle = c.cycle

theorem kept_react {c c' : Core} (hterminal : c.run.isTerminal) (h : Kept c c')
    (observer : Observer) (position : Nat) (line : Line Observer) (value : UInt32) :
    Kept c (Core.react observer position line value c').1 := by
  cases observer with
  | receive =>
    dsimp only [Core.react]
    unfold Core.receive
    split
    · dsimp only
      split
      · exact { h with }
      · exact { h with }
    · exact { h with }
  | record tag haltOn =>
    have hhalt : (c'.note (.line tag value)).halt = c'.note (.line tag value) :=
      if_pos (h.run ▸ hterminal)
    dsimp only [Core.react]
    rw [hhalt, ite_self]
    exact { h with }

theorem kept_raise {m m' : Machine} (hterminal : m.run.isTerminal) (h : Kept m.toCore m'.toCore)
    (line : Nat) (value : UInt32) : Kept m.toCore (m'.raise line value).toCore :=
  Wiring.raise_invariant (P := Kept m.toCore)
    (fun observer position l value _ h => kept_react hterminal h observer position l value)
    line value m'.wiring m'.toCore h

theorem kept_of_later {m m' : Machine} (hterminal : m.run.isTerminal) (h : m.Later m') :
    Kept m.toCore m'.toCore := by
  induction h with
  | refl => exact ⟨rfl, rfl, rfl, rfl, rfl⟩
  | tick _ ih =>
    rw [tick_of_isTerminal (ih.run ▸ hterminal)]
    exact ih
  | raise line value _ ih => exact kept_raise hterminal ih line value

theorem endsNow_of_terminal {m : Machine} (hterminal : m.tick.1.run.isTerminal)
    (hunasked : m.tick.2 = false) : m.EndsNow where
  terminal := hterminal
  unasked := hunasked
  stays := by
    intro m' hlater
    have hkept := kept_of_later hterminal hlater
    exact ⟨tick_of_isTerminal (hkept.run ▸ hterminal), hkept.run, hkept.program, hkept.data,
      hkept.flash, hkept.cycle⟩

/-! ## Requests -/

/-- The machine with an empty journal that keeps every entry. -/
def audited (m : Machine) : Machine := { m with journal := { threshold := some .trace } }

/-- Whether the next step meets a request to end the run: it is looked for among all that the step
reports, whatever of it the machine's own journal keeps. -/
def endRequested (m : Machine) : Bool := m.audited.tick.1.journal.entries.any Entry.endsRun

/-- Steps do not depend on the journal. -/
theorem tick_audited :
    m.audited.tick.1.view true = m.tick.1.view true ∧ m.audited.tick.2 = m.tick.2 := by
  have haudited := view_tick m.audited
  have hsame : m.audited.view true = m.view true := rfl
  rw [hsame, view_tick] at haudited
  exact ⟨(congrArg Prod.fst haudited).symm, (congrArg Prod.snd haudited).symm⟩

/-! ## Interrupts -/

/-- The machine at the point of its next step where interrupts are looked at, if it gets there. -/
def atService? (m : Machine) : Option Machine :=
  match m.run with
  | .running => if m.execute.run = .running then some m.execute else none
  | .sleeping => some { m with cycle := m.cycle + 1 }
  | _ => none

/-- Whether the next step enters an interrupt and the pushes of the return address end the run. -/
def endsInEntry (m : Machine) : Bool :=
  m.atService?.any fun m => m.dueVector?.any fun vector => (m.stackReturn vector).run.isTerminal

theorem journal_enterInterrupt (vector : Nat) :
    (m.enterInterrupt vector).journal = (m.stackReturn vector).journal := by
  rw [enterInterrupt_eq]
  generalize m.stackReturn vector = m'
  rfl

/-- A step of a core that runs or sleeps looks at interrupts unless its instruction kept it from that. -/
theorem tick_cases {m : Machine} (hrun : m.run = .running ∨ m.run = .sleeping) :
    (∃ m', m.atService? = some m' ∧ ¬ m'.run.isTerminal ∧ Core.Reported m.toCore m'.toCore ∧
      m.tick.1 = m'.serviceInterrupts) ∨
    (m.atService? = none ∧ Core.Reported m.toCore m.execute.toCore ∧
      m.tick = (m.execute, m.execute.probed && !m.execute.run.isTerminal)) := by
  obtain hrun | hrun := hrun
  · have hreported := reported_execute m hrun
    by_cases hexecute : m.execute.run = .running
    · refine .inl ⟨m.execute, ?_, ?_, hreported, ?_⟩
      · simp only [atService?, hrun, hexecute, if_true]
      · rw [hexecute]
        decide
      · simp only [tick, hrun, hexecute, if_true]
    · refine .inr ⟨?_, hreported, ?_⟩
      · simp only [atService?, hrun, hexecute, if_false]
      · simp only [tick, hrun, hexecute, if_false]
  · refine .inl ⟨{ m with cycle := m.cycle + 1 }, ?_, ?_, fun _ he _ => .inl he, ?_⟩
    · simp only [atService?, hrun]
    · show ¬ m.run.isTerminal
      rw [hrun]
      decide
    · simp only [tick, hrun]

theorem run_of_endsInEntry {m : Machine} (hrun : m.run = .running ∨ m.run = .sleeping)
    (h : m.endsInEntry) : m.tick.1.run = .running := by
  obtain ⟨m', hservice, -, -, htick⟩ | ⟨hservice, -⟩ := tick_cases hrun
  · rw [endsInEntry, hservice] at h
    rw [htick, serviceInterrupts_eq]
    cases hdue : m'.dueVector? with
    | some vector => rfl
    | none => simp [hdue] at h
  · simp [endsInEntry, hservice] at h

/-- A request that a journal caught ends the run, unless it came from an interrupt's entry. -/
theorem ends_of_reported {m : Machine} (hrun : m.run = .running ∨ m.run = .sleeping)
    (hempty : m.journal.entries = #[]) {e : Entry} (he : e ∈ m.tick.1.journal.entries)
    (hends : e.endsRun) (hentry : m.endsInEntry = false) :
    m.tick.1.run.isTerminal ∧ m.tick.2 = false := by
  obtain ⟨m', hservice, hrun', hreported, htick⟩ | ⟨-, hreported, htick⟩ := tick_cases hrun
  · -- nothing was reported before interrupts were looked at, so the pushes of an entry reported it
    have hfresh : e ∉ m'.journal.entries := by
      intro he'
      obtain hmem | hterminal := hreported e he' hends
      · simp [hempty] at hmem
      · exact hrun' hterminal
    rw [endsInEntry, hservice] at hentry
    rw [htick, serviceInterrupts_eq] at he
    cases hdue : m'.dueVector? with
    | none =>
      rw [hdue] at he
      exact absurd he hfresh
    | some vector =>
      rw [hdue] at he
      have hjournal : e ∈ (m'.stackReturn vector).journal.entries :=
        journal_enterInterrupt m' vector ▸ he
      obtain hmem | hterminal := (access_stackReturn m' vector).reported e hjournal hends
      · exact absurd hmem hfresh
      · simp [hdue, hterminal] at hentry
  · rw [htick] at he ⊢
    obtain hmem | hterminal := hreported e he hends
    · simp [hempty] at hmem
    · exact ⟨hterminal, by simp [hterminal]⟩

/-! ## Requests and the journal -/

theorem endsInEntry_view : (m.view true).endsInEntry = m.endsInEntry := by
  have hdue (m : Machine) : (m.view true).dueVector? = m.dueVector? := rfl
  have hstack (m : Machine) (vector : Nat) :
      ((m.view true).stackReturn vector).run = (m.stackReturn vector).run := by
    rw [view_stackReturn]
    rfl
  have hservice : (m.view true).atService? = m.atService?.map (view true) := by
    have hrun (m : Machine) : (m.view true).run = m.run := rfl
    unfold atService?
    rw [hrun, view_execute, hrun]
    split
    · split
      · rfl
      · rfl
    · rfl
    · rfl
  unfold endsInEntry
  rw [hservice]
  cases m.atService? with
  | none => rfl
  | some m' => simp [hdue, hstack]

theorem ends_of_endRequested {m : Machine} (hrun : m.run = .running ∨ m.run = .sleeping)
    (hrequest : m.endRequested) (hentry : m.endsInEntry = false) :
    m.tick.1.run.isTerminal ∧ m.tick.2 = false := by
  obtain ⟨hview, hasked⟩ := tick_audited m
  have hrun' : m.audited.tick.1.run = m.tick.1.run := congrArg (·.run) hview
  obtain ⟨e, he, hends⟩ : ∃ e ∈ m.audited.tick.1.journal.entries, e.endsRun :=
    Array.any_eq_true'.mp hrequest
  have hentry' : m.audited.endsInEntry = false := by
    rw [← endsInEntry_view]
    exact (endsInEntry_view m).trans hentry
  rw [← hrun', ← hasked]
  exact ends_of_reported hrun rfl he hends hentry'

/-- **A request to end the run** that comes up in a step of a core that runs or sleeps is met by that
step exactly if it does not come from the pushes of an interrupt's entry. -/
theorem endsNow_iff {m : Machine} (hrun : m.run = .running ∨ m.run = .sleeping)
    (hrequest : m.endRequested) : m.EndsNow ↔ m.endsInEntry = false := by
  constructor
  · intro hnow
    cases hentry : m.endsInEntry with
    | false => rfl
    | true =>
      have hterminal := hnow.terminal
      rw [run_of_endsInEntry hrun hentry] at hterminal
      cases hterminal
  · intro hentry
    obtain ⟨hterminal, hunasked⟩ := ends_of_endRequested hrun hrequest hentry
    exact endsNow_of_terminal hterminal hunasked

/-- A core at a given program, with a UART that asks for an interrupt and a stack pointer that points
past the end of the data space. -/
def unstacked (program : List UInt8) : Machine where
  model := .atmega48
  data := (((Memory.zeros 256).setSp 0xFFFF).setFlag .i true).set 0xC1 udrie
  flash := (Memory.zeros 4).store 0 program
  codeEnd := 3
  journal := { threshold := none }
  wiring := {}

/-- A push to a place that is not there ends the run. -/
theorem push_endsNow : (unstacked [0x0F, 0x92]).run = .running ∧
    (unstacked [0x0F, 0x92]).endRequested = true ∧ (unstacked [0x0F, 0x92]).EndsNow := by
  have hrequest : (unstacked [0x0F, 0x92]).endRequested = true := by decide +kernel
  exact ⟨rfl, hrequest, (endsNow_iff (.inl rfl) hrequest).mpr (by decide +kernel)⟩

/-- The crash of the same push in an interrupt's entry is lost: the core runs on. -/
theorem entry_crash_lost : (unstacked [0x00, 0x00]).run = .running ∧
    (unstacked [0x00, 0x00]).endRequested = true ∧
    (unstacked [0x00, 0x00]).tick.1.run = .running ∧ ¬ (unstacked [0x00, 0x00]).EndsNow := by
  have hrun : (unstacked [0x00, 0x00]).tick.1.run = .running := by decide +kernel
  refine ⟨rfl, by decide +kernel, hrun, ?_⟩
  intro hnow
  have hterminal := hnow.terminal
  rw [hrun] at hterminal
  cases hterminal

end AvrSim.Machine
