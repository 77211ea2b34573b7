import AvrSim.Proofs.Core.Reachable
import AvrSim.Proofs.Core.Simulation
import AvrSim.Proofs.Uart.FlowControl

/-!
# A reset is a power-up

A machine that is reset keeps its flash and its lines, with the values last raised on them, what it has
noted and what it has reported. None of this is looked at by a step, so from the reset on the machine
goes the way of one that was just made for the same part, given the same program and wired in the same
way. Only a line that ignores raises of the value it has could tell the two apart.

* `Core.Echoes` relates two cores that agree and have taken the same notes of late, and
  `Machine.simulation_alike` says that it makes a simulation.
* `Machine.alike_afterActs`: what happens to both keeps them alike.
* `Machine.reset_powersUp`: the machine that is reset and the new one.
-/

namespace AvrSim

namespace Core

/-! ## Observers -/

/-- A core that agrees with another and has taken the same notes after `past`. -/
structure Echoes (past : Array Note) (core core' : Core) : Prop where
  agree : Agree core core'
  notes : core.notes = past ++ core'.notes

variable {past : Array Note} {core core' : Core}

theorem echoes_note (h : Echoes past core core') (n : Note) :
    Echoes past (core.note n) (core'.note n) where
  agree := { h.agree with }
  notes := by
    dsimp only [note]
    rw [h.notes, Array.append_push]

theorem echoes_halt (h : Echoes past core core') : Echoes past core.halt core'.halt := by
  unfold halt
  rw [h.agree.run]
  split
  · exact h
  · exact {
      agree := { h.agree with work := congrArg (fun w : Work => { w with run := .done }) h.agree.work }
      notes := h.notes }

theorem echoes_setUart (h : Echoes past core core') (uart : Uart) :
    Echoes past { core with uart } { core' with uart } where
  agree := { h.agree with work := congrArg (fun w : Work => { w with uart }) h.agree.work }
  notes := h.notes

theorem echoes_receive (h : Echoes past core core') (b : UInt8) :
    Echoes past (core.receive b).1 (core'.receive b).1 ∧
      (core'.receive b).2 = (core.receive b).2 := by
  have hfirst : core'.firstLine + 3 = core.firstLine + 3 := by rw [h.agree.firstLine]
  unfold receive
  rw [h.agree.uart, hfirst]
  split
  · dsimp only
    split
    · exact ⟨echoes_setUart h { core.uart with pending := core.uart.pending ++ [b], xoff := true }, rfl⟩
    · exact ⟨echoes_setUart h { core.uart with pending := core.uart.pending ++ [b] }, rfl⟩
  · exact ⟨⟨{ h.agree with }, h.notes⟩, rfl⟩

theorem echoes_react (observer : Observer) (position : Nat) (l l' : Line Observer) (value : UInt32)
    (core core' : Core) (h : Echoes past core core') :
    Echoes past (react observer position l value core).1 (react observer position l' value core').1 ∧
      (react observer position l' value core').2 = (react observer position l value core).2 := by
  cases observer with
  | receive => exact echoes_receive h _
  | record tag haltOn =>
    have hnote := echoes_note h (.line tag value)
    dsimp only [react]
    split
    · exact ⟨echoes_halt hnote, rfl⟩
    · exact ⟨hnote, rfl⟩

end Core

namespace Machine

variable {m m' : Machine}

/-! ## Going in step -/

/-- Two machines whose cores agree and have taken the same notes after `past`, with wirings of one shape
in which every raise is heeded. -/
def Alike (past : Array Note) (m m' : Machine) : Prop :=
  Wiring.Abreast (Core.Echoes past) (m.wiring, m.toCore) (m'.wiring, m'.toCore)

theorem Alike.of_core {past : Array Note} (h : Alike past m m') {core core' : Core}
    (hcore : Core.Echoes past core core') : Alike past ⟨core, m.wiring⟩ ⟨core', m'.wiring⟩ :=
  ⟨h.shape, h.unfiltered, hcore⟩

theorem simulation_alike (past : Array Note) : Simulation (Alike past) where
  agree h := h.related.agree
  compute h _ := h.of_core { agree := { h.related.agree with work := rfl }, notes := h.related.notes }
  reportLeft h _ _ _ :=
    h.of_core { agree := { h.related.agree with }, notes := h.related.notes }
  reportRight h _ _ _ :=
    h.of_core { agree := { h.related.agree with }, notes := h.related.notes }
  note h n := h.of_core (Core.echoes_note h.related n)
  raise h line value := Wiring.raise_abreast Core.echoes_react line value h

theorem alike_act {past : Array Note} (h : Alike past m m') (a : Act) :
    Alike past (m.act a) (m'.act a) := by
  have hsim := simulation_alike past
  have hagree := hsim.agree h
  cases a with
  | raise value =>
    dsimp only [act]
    rw [hagree.lineOf]
    exact hsim.raise h _ value
  | read =>
    dsimp only [act]
    rw [hagree.uartAddress]
    exact (hsim.read h _).snd
  | step => exact (hsim.tick h).1
  | reset =>
    have hdata : initialData m'.model = initialData m.model := by rw [hagree.model]
    dsimp only [act]
    unfold reset
    rw [hdata]
    generalize initialData m.model = data
    exact hsim.update h fun _ => ⟨data, 0, 0, .running, false, {}⟩

theorem alike_afterActs {past : Array Note} (h : Alike past m m') (acts : List Act) :
    Alike past (m.afterActs acts) (m'.afterActs acts) := by
  induction acts generalizing m m' with
  | nil => exact h
  | cons a rest ih => exact ih (alike_act h a)

/-! ## Power-up -/

/-- What the core of a part computes on after power-up. -/
def poweredUp (part : Model) : Work := ⟨initialData part, 0, 0, .running, false, {}⟩

theorem work_reset (m : Machine) : m.reset.toCore.work = poweredUp m.model := by
  unfold reset poweredUp
  generalize initialData m.model = data
  rfl

theorem powered_create {part : Model} {w : Wiring Observer} {journal : Journal}
    (hcreate : create part w journal = .ok m) : m.toCore.work = poweredUp m.model ∧ m.notes = #[] := by
  obtain ⟨wired, -, hm⟩ := exists_of_bind_eq_ok hcreate
  cases hm
  exact ⟨rfl, rfl⟩

theorem powered_createNamed {name : String} {w : Wiring Observer} {journal : Journal}
    (hcreate : createNamed name w journal = .ok m) :
    m.toCore.work = poweredUp m.model ∧ m.notes = #[] := by
  obtain ⟨part, -, hnew⟩ := exists_create_of_createNamed hcreate
  exact powered_create hnew

theorem firstLine_handle (m : Machine) (event : Event) : (m.handle event).firstLine = m.firstLine := by
  cases event with
  | load base bytes =>
    dsimp only [handle, loadFlash]
    split
    · rename_i loaded hload
      split at hload
      · cases hload
      · cases hload
        rfl
    · rfl
  | step => exact (stays_course (course_tick m)).firstLine
  | halt => exact (Core.access_halt m.toCore).firstLine
  | reset => simp only [handle, reset]
  | raise line value => exact (access_raise m line value).firstLine
  | wire wiring => rfl

theorem firstLine_foldl (m : Machine) (events : List Event) :
    (events.foldl handle m).firstLine = m.firstLine := by
  induction events generalizing m with
  | nil => rfl
  | cons event rest ih => exact (ih _).trans (firstLine_handle m event)

/-- A machine that is reset is like a new one with its program and its wiring. -/
theorem alike_reset {new : Machine} {wiring : Wiring Observer}
    (hnew : new.toCore.work = poweredUp new.model ∧ new.notes = #[]) (hmodel : new.model = m.model)
    (hline : new.firstLine = m.firstLine) (hprobed : new.probed = m.probed)
    (hshape : wiring.shape = m.wiring.shape) (hunfiltered : m.wiring.Unfiltered) :
    Alike m.notes m.reset { new with flash := m.flash, codeEnd := m.codeEnd, wiring } := by
  have hwork := work_reset m
  unfold reset at hwork ⊢
  generalize initialData m.model = data at hwork ⊢
  have hagree : Core.Agree
      { m.toCore with
        data, program := 0, cycle := 0, run := .running, interruptDelay := false, uart := {} }
      { new.toCore with flash := m.flash, codeEnd := m.codeEnd } := {
    work := by
      rw [hwork, ← hmodel]
      exact hnew.1
    model := hmodel
    flash := rfl
    codeEnd := rfl
    firstLine := hline
    probed := hprobed }
  refine ⟨hshape, hunfiltered, hagree, ?_⟩
  show m.notes = m.notes ++ new.notes
  rw [hnew.2, Array.append_empty]

/-- Whatever has happened to a machine, after a reset it goes on as a new one does: its program counter,
data space, cycles and run, the bytes that wait in its UART and the interrupt asked for are the same
after the same operations, and so is what the observers of its lines have noted since. -/
theorem reset_powersUp {name : String} {w : Wiring Observer} {journal : Journal} {made : Machine}
    (hmade : createNamed name w journal = .ok made) (codeEnd : UInt32) (history : List Event)
    (hunfiltered : (history.foldl handle { made with codeEnd }).wiring.Unfiltered)
    {name' : String} {w' : Wiring Observer} {journal' : Journal} {new : Machine}
    (hnew : createNamed name' w' journal' = .ok new) (hmodel : new.model = made.model)
    (hline : new.firstLine = made.firstLine) {wiring : Wiring Observer}
    (hshape : wiring.shape = (history.foldl handle { made with codeEnd }).wiring.shape)
    (future : List Act) :
    let m := history.foldl handle { made with codeEnd }
    let a := m.reset.afterActs future
    let b := ({ new with flash := m.flash, codeEnd := m.codeEnd, wiring } : Machine).afterActs future
    a.program = b.program ∧ a.data = b.data ∧ a.cycle = b.cycle ∧ a.run = b.run ∧
      a.uart = b.uart ∧ a.pendingVector? = b.pendingVector? ∧ a.notes = m.notes ++ b.notes := by
  obtain ⟨hpart, hsound⟩ := sound_createNamed hmade
  have hready : Sound made.model { made with codeEnd } := { hsound with }
  have hm := sound_foldl hready (roomy_of_mem_all _ hpart).2.2 history
  have hfirst := firstLine_foldl { made with codeEnd } history
  generalize history.foldl handle { made with codeEnd } = m at hunfiltered hshape hm hfirst
  have hstart : Alike m.notes m.reset { new with flash := m.flash, codeEnd := m.codeEnd, wiring } :=
    alike_reset (powered_createNamed hnew) (hmodel.trans hm.model.symm) (hline.trans hfirst.symm)
      ((sound_createNamed hnew).2.unprobed.trans hm.unprobed.symm) hshape hunfiltered
  have hend := alike_afterActs hstart future
  have hagree := hend.related.agree
  exact ⟨hagree.program.symm, hagree.data.symm, hagree.cycle.symm, hagree.run.symm,
    hagree.uart.symm, hagree.pendingVector?.symm, hend.related.notes⟩

/-- A machine that has received a byte, switched interrupts on, sent a byte to a recorder and was
halted. -/
def spent (made : Machine) : List Event :=
  [.load 0 [0x78, 0x94, 0x01, 0xE4, 0x00, 0x93, 0xC6, 0x00],
    .wire { made.wiring with lines := made.wiring.lines.modify (made.lineOf .output) fun l =>
      { l with observers := [.record .output none] } },
    .raise (made.lineOf .input) 0x55, .step, .step, .step, .halt]

/-- The program sends its byte again. -/
def sendsAgain : List Act := [.step, .step, .raise 0x42, .step]

theorem spent_sends :
    (createNamed "atmega48" {} { threshold := none }).toOption.map
      (fun made =>
        let m := (spent made).foldl handle { made with codeEnd := 8 }
        let a := m.reset.afterActs sendsAgain
        (decide m.wiring.Unfiltered, m.run, m.uart, a.uart, a.notes)) =
      some (true, .done, ⟨[0x55], true, false⟩, ⟨[0x42], true, false⟩,
        #[.line .output 0x41, .line .output 0x41]) := by
  decide +kernel

/-- After its reset the machine has no byte of the past, and it sends as a new one on fresh lines. -/
theorem spent_powersUp : ∃ made : Machine,
    createNamed "atmega48" {} { threshold := none } = .ok made ∧
    let m := (spent made).foldl handle { made with codeEnd := 8 }
    let a := m.reset.afterActs sendsAgain
    let b := ({ made with
      flash := m.flash
      codeEnd := m.codeEnd
      wiring := m.wiring.silent } : Machine).afterActs sendsAgain
    m.run = .done ∧ m.uart.pending = [0x55] ∧ m.wiring.Unfiltered ∧
      a.uart.pending = [0x42] ∧ a.program = b.program ∧ a.data = b.data ∧ a.cycle = b.cycle ∧
      a.run = b.run ∧ a.uart = b.uart ∧ a.pendingVector? = b.pendingVector? ∧
      a.notes = m.notes ++ b.notes ∧ a.notes = #[.line .output 0x41, .line .output 0x41] := by
  have hsends := spent_sends
  cases hcreate : createNamed "atmega48" {} { threshold := none } with
  | error e =>
    rw [hcreate] at hsends
    cases hsends
  | ok made =>
    rw [hcreate] at hsends
    have hfacts := Option.some.inj hsends
    simp only [Prod.mk.injEq, decide_eq_true_eq] at hfacts
    obtain ⟨hunfiltered, hrun, huart, hsent, hnotes⟩ := hfacts
    obtain ⟨hprogram, hdata, hcycle, hrun', huart', hvector, hheard⟩ :=
      reset_powersUp hcreate 8 (spent made) hunfiltered hcreate rfl rfl
        (Wiring.shape_silent _) sendsAgain
    exact ⟨made, rfl, hrun, congrArg Uart.pending huart, hunfiltered, congrArg Uart.pending hsent,
      hprogram, hdata, hcycle, hrun', huart', hvector, hheard, hnotes⟩

end Machine

end AvrSim
