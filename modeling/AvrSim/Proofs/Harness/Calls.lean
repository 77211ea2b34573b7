import AvrSim.Proofs.Core.Fabric
import AvrSim.Proofs.Core.PowerUp
import AvrSim.Proofs.Harness.Firmware
import AvrSim.Proofs.Harness.Input

/-!
# Any calls in any order

A harness is called from outside, and nobody has to keep to the right order. Its phase does: it moves
forward only, so every operation succeeds at most once. Nothing is executed before the lines are wired,
and once they are, nothing that comes later takes the wiring apart.

* `Harness.Effect` is what a call can do and `Harness.effect_of_call` that it does nothing else.
* `Harness.unwired_of_effect` and `Harness.online_of_effect`: what calls keep before and after the
  wiring.
* `Harness.calls_in_phase`: any sequence of calls.
-/

namespace AvrSim

/-! ## Phases -/

namespace Phase

/-- How far along a phase is. -/
def rank : Phase → Nat
  | initializing => 0
  | ready => 1
  | wired => 2
  | waitingForDebugger => 3
  | running => 4
  | finished => 5

/-- The phase that comes directly after another. A run need not wait for a debugger. -/
inductive Next : Phase → Phase → Prop
  | load : Next initializing ready
  | wire : Next ready wired
  | await : Next wired waitingForDebugger
  | run : Next wired running
  | attend : Next waitingForDebugger running
  | finish : Next running finished

/-- Forward over any number of phases. -/
abbrev Leads : Phase → Phase → Prop := Relation.ReflTransGen Next

theorem Next.rank_lt {p q : Phase} (h : Next p q) : p.rank < q.rank := by
  cases h <;> decide

theorem Leads.rank_le {p q : Phase} (h : Leads p q) : p.rank ≤ q.rank := by
  induction h with
  | refl => exact Nat.le_refl _
  | tail _ hnext ih => exact ih.trans hnext.rank_lt.le

end Phase

/-! ## Lines that stay wired -/

namespace Machine

/-- The lines of `m'` are those of `m`, at the same places and with the same listeners. -/
structure Retains (m m' : Machine) : Prop where
  firstLine : m'.firstLine = m.firstLine
  wiring : Wiring.Revalued m.wiring m'.wiring

namespace Retains

theorem refl (m : Machine) : Retains m m := ⟨rfl, .refl _⟩

theorem trans {m m' m'' : Machine} (h : Retains m m') (h' : Retains m' m'') : Retains m m'' :=
  ⟨h'.firstLine.trans h.firstLine, h.wiring.trans h'.wiring⟩

theorem of_spares {m m' : Machine} (h : Spares m m') : Retains m m' :=
  ⟨h.firstLine, h.wiring ▸ .refl _⟩

end Retains

theorem retains_tick (m : Machine) : Retains m m.tick.1 :=
  ⟨(stays_course (course_tick m)).firstLine, revalued_tick m⟩

theorem retains_raise (m : Machine) (line : Nat) (value : UInt32) : Retains m (m.raise line value) :=
  ⟨(access_raise m line value).firstLine, revalued_raise m line value⟩

end Machine

namespace Bench

open Machine (Retains)

theorem retains_gather (b : Bench) : Retains b.machine b.gather.machine := by
  rw [(gather_spec b).1]
  exact ⟨rfl, .refl _⟩

theorem retains_act (b : Bench) {f : Machine → Machine} (hf : Retains b.machine (f b.machine)) :
    Retains b.machine (b.act f).machine :=
  hf.trans (retains_gather ⟨f b.machine, b.instrument, b.seen⟩)

theorem retains_log (b : Bench) (level : Level) (message : String)
    (values : Machine → List (String × Value)) :
    Retains b.machine (b.act fun m => m.log level message (values m)).machine :=
  retains_act b ⟨rfl, .refl _⟩

theorem retains_advance (b : Bench) : Retains b.machine b.advance.1.machine := by
  have hgather := (Machine.retains_tick b.machine).trans
    (retains_gather ⟨b.machine.tick.1, b.instrument, b.seen⟩)
  rw [advance_fst]
  split
  · exact hgather.trans (.of_spares (spares_attend _).machine)
  · exact hgather

end Bench

namespace Harness

/-- The harness `h'` is in the phase of `h`, and its machine has kept its lines. -/
structure Retains (h h' : Harness) : Prop where
  machine : Machine.Retains h.machine h'.machine
  phase : h'.phase = h.phase

theorem Retains.trans {h h' h'' : Harness} (hfirst : Retains h h') (hsecond : Retains h' h'') :
    Retains h h'' :=
  ⟨hfirst.machine.trans hsecond.machine, hsecond.phase.trans hfirst.phase⟩

theorem retains_observe (h : Harness) (n : Note) : Retains h (h.observe n) := by
  unfold observe
  split
  · split
    · exact ⟨.refl _, rfl⟩
    · exact ⟨.refl _, rfl⟩
  · exact ⟨.refl _, rfl⟩
  · exact ⟨.refl _, rfl⟩
  · exact ⟨.refl _, rfl⟩

theorem retains_observeAll (h : Harness) : Retains h h.observeAll := by
  unfold observeAll
  split
  · exact ⟨.refl _, rfl⟩
  · dsimp only [Bench.take]
    rw [← Array.foldl_toList]
    have htaken : Retains h { h with bench := { h.bench with seen := #[] } } := ⟨.refl _, rfl⟩
    exact List.foldlRecOn (motive := Retains h) _ _ htaken
      fun current hcurrent n _ => hcurrent.trans (retains_observe current n)

theorem retains_converse (h : Harness) : Retains h h.converse := by
  refine ⟨.of_spares (spares_converse h).bench.machine, ?_⟩
  unfold converse
  split
  · rfl
  · rfl

theorem retains_hearStop (h : Harness) (reply : Option Gdb.StopReply) :
    Retains h (h.hearStop reply) := by
  cases reply with
  | none => exact ⟨.refl _, rfl⟩
  | some reason =>
    have hclient : Retains h { h with client := h.client.map fun c => c.hear (.stop reason) } :=
      ⟨.refl _, rfl⟩
    exact hclient.trans (retains_converse _)

theorem retains_polled (h : Harness) : Retains h h.polled.1 := by
  unfold polled
  split
  · exact ⟨.refl _, rfl⟩
  · rename_i source _
    unfold poll
    dsimp only
    split
    · rename_i b _
      have hlogged : Machine.Retains h.machine
          (h.machine.log .trace "uart input" [("byte", Core.shownAddress 2 b.toNat)]) :=
        ⟨rfl, .refl _⟩
      have hact := Bench.retains_act h.bench (f := fun m =>
        (m.log .trace "uart input" [("byte", Core.shownAddress 2 b.toNat)]).raise source b.toUInt32)
        (hlogged.trans (Machine.retains_raise _ source b.toUInt32))
      have hraised : Retains h { h with
          input := some (ask (h.input.getD [])).2, reads := h.reads + 1, bench := _ } :=
        ⟨hact, rfl⟩
      exact hraised.trans (retains_observeAll _)
    · exact ⟨.refl _, rfl⟩
    · exact ⟨.refl _, rfl⟩
    · exact ⟨Bench.retains_log h.bench .debug "input closed" fun _ => [], rfl⟩

theorem retains_advance (h : Harness) : Retains h h.advance := by
  unfold advance
  split
  · exact ⟨.refl _, rfl⟩
  · have hadvance := Bench.retains_advance h.bench
    generalize h.bench.advance = result at hadvance
    obtain ⟨bench, reply⟩ := result
    have hserve := hadvance.trans (.of_spares (Bench.spares_serve bench).machine)
    have hstepped : Retains h { h with bench := bench.serve.1, steps := h.steps + 1 } := ⟨hserve, rfl⟩
    exact (hstepped.trans (retains_hearStop _ reply)).trans (retains_observeAll _)

theorem retains_judge (h : Harness) : Retains h h.judge.1 := by
  have hconclude (reason : Reason) (level : Level) (message : String)
      (values : List (String × Value)) : Retains h (h.conclude reason level message values).1 :=
    ⟨Bench.retains_act h.bench ⟨rfl, .refl _⟩, rfl⟩
  unfold judge
  split
  · exact hconclude _ _ _ _
  · split
    · exact hconclude _ _ _ _
    · exact hconclude _ _ _ _
    · exact ⟨.refl _, rfl⟩

theorem retains_turn (h : Harness) : Retains h h.turn.1 := by
  have hpolled := retains_polled h
  rw [turn_eq]
  generalize h.polled = result at hpolled
  obtain ⟨h', failed⟩ := result
  cases failed with
  | true => exact hpolled
  | false => exact hpolled.trans ((retains_advance h').trans (retains_judge _))

theorem retains_turns (n : Nat) (h : Harness) : Retains h (h.turns n).1 := by
  induction n generalizing h with
  | zero => exact ⟨.refl _, rfl⟩
  | succ n ih =>
    have hturn := retains_turn h
    unfold turns
    generalize h.turn = result at hturn
    obtain ⟨h', ending⟩ := result
    cases ending with
    | some ending => exact hturn
    | none => exact hturn.trans (ih h')

/-! ## Calls -/

/-- A call from outside. A run is given a number of turns. -/
inductive Call
  | load (files : Files) (path : String)
  | wire
  | attachDebugger (visitor : Visitor) (address : String)
  | run (limit : Nat)

/-- The operation that a call asks for. -/
def Call.operation : Call → Operation
  | .load _ _ => .load
  | .wire => .wire
  | .attachDebugger _ _ => .attachDebugger
  | .run _ => .run

/-- How a call ends, if it does. -/
inductive Outcome
  | success
  | failure (error : HarnessError)
  | unfinished
  deriving DecidableEq, Repr

/-- Whether a call was made in the wrong phase. -/
def Outcome.isOutOfOrder : Outcome → Bool
  | .failure (.outOfOrder _ _) => true
  | _ => false

/-- The outcome of something that gives no result but may fail. -/
def Outcome.ofExcept : Except HarnessError Unit → Outcome
  | .ok () => .success
  | .error e => .failure e

/-- How a call ends. -/
def outcome (h : Harness) : Call → Outcome
  | .load files path => .ofExcept ((h.load files path).map fun _ => ())
  | .wire => .ofExcept h.wire.1
  | .attachDebugger visitor address => .ofExcept (h.attachDebugger visitor address).1
  | .run limit => match (h.run limit).1 with
    | .ok (some _) => .success
    | .ok none => .unfinished
    | .error e => .failure e

/-- The harness after a call. -/
def after (h : Harness) : Call → Harness
  | .load files path => h.afterLoad files path
  | .wire => h.wire.2
  | .attachDebugger visitor address => (h.attachDebugger visitor address).2
  | .run limit => (h.run limit).2

/-- The harness after several calls. -/
def afterCalls (h : Harness) (calls : List Call) : Harness := calls.foldl after h

/-- The operations that succeed in several calls, in order. -/
def succeeded (h : Harness) : List Call → List Operation
  | [] => []
  | call :: rest =>
    if h.outcome call = .success then call.operation :: (h.after call).succeeded rest
    else (h.after call).succeeded rest

/-! ## What a call does -/

/-- All that a call can do to a harness. -/
inductive Effect (h : Harness) : Operation → Outcome → Harness → Prop
  | refused (operation : Operation) :
    Effect h operation (.failure (.outOfOrder operation h.phase)) h
  | unread (e : HarnessError) : Effect h .load (.failure e) h
  | loaded (hphase : h.phase = .initializing) (flash : Memory) (program codeEnd : UInt32)
    (journal : Journal) :
    Effect h .load .success { h with
      bench := { h.bench with machine := { h.machine with flash, program, codeEnd, journal } }
      phase := .ready }
  | unwired (hphase : h.phase = .ready) (e : WiringError) :
    Effect h .wire (.failure (.wiring e)) { h with
      bench := { h.bench with
        machine := { h.machine with wiring := allocated h.machine h.input.isSome } } }
  | wired (hphase : h.phase = .ready) {w : Wiring Observer}
    (hw : wireFrom h.machine h.machine.wiring.lines.size h.input.isSome
      (allocated h.machine h.input.isSome) = .ok w) (source : Option Nat) :
    Effect h .wire .success { h with
      bench := { h.bench with machine := { h.machine with wiring := w } }
      phase := .wired
      source }
  | attached {h' : Harness} (hphase : h.phase = .wired) (hmachine : Machine.Retains h.machine h'.machine)
    (hafter : h'.phase = .waitingForDebugger) : Effect h .attachDebugger .success h'
  | unattached {h' : Harness} (hphase : h.phase = .wired) {outcome : Outcome}
    (houtcome : outcome ≠ .success ∧ outcome.isOutOfOrder = false)
    (hmachine : Machine.Retains h.machine h'.machine)
    (hafter : h'.phase = .wired ∨ h'.phase = .waitingForDebugger) :
    Effect h .attachDebugger outcome h'
  | unfinished {h' : Harness} (hphase : h.phase ∈ Operation.run.phases)
    (hmachine : Machine.Retains h.machine h'.machine) (hafter : h'.phase = .running) :
    Effect h .run .unfinished h'
  | finished {h' : Harness} (hphase : h.phase ∈ Operation.run.phases) {outcome : Outcome}
    (houtcome : outcome.isOutOfOrder = false) (hmachine : Machine.Retains h.machine h'.machine)
    (hafter : h'.phase = .finished) : Effect h .run outcome h'

theorem expect_cases (h : Harness) (operation : Operation) :
    (h.phase ∈ operation.phases ∧ h.expect operation = .ok ()) ∨
      h.expect operation = .error (.outOfOrder operation h.phase) := by
  unfold expect
  split
  · rename_i hphase
    exact .inl ⟨by simpa using hphase, rfl⟩
  · exact .inr rfl

theorem effect_load (h : Harness) (files : Files) (path : String) :
    Effect h .load (h.outcome (.load files path)) (h.after (.load files path)) := by
  dsimp only [outcome, after]
  unfold afterLoad
  cases hload : h.load files path with
  | error e => exact .unread e
  | ok result =>
    obtain ⟨image, loaded⟩ := result
    obtain ⟨hexpect, flash, program, codeEnd, journal, rfl⟩ := exists_of_load hload
    rcases expect_cases h .load with ⟨hphase, -⟩ | hrefused
    · exact .loaded (List.mem_singleton.mp hphase) flash program codeEnd journal
    · rw [hrefused] at hexpect
      cases hexpect

theorem effect_wire (h : Harness) : Effect h .wire (h.outcome .wire) (h.after .wire) := by
  dsimp only [outcome, after]
  rcases expect_cases h .wire with ⟨hphase, hexpect⟩ | hrefused
  · have hready : h.phase = .ready := List.mem_singleton.mp hphase
    unfold wire
    rw [hexpect]
    dsimp only
    split
    · exact .unwired hready _
    · rename_i w hw
      exact .wired hready hw _
  · unfold wire
    rw [hrefused]
    exact .refused .wire

theorem effect_attachDebugger (h : Harness) (visitor : Visitor) (address : String) :
    Effect h .attachDebugger (h.outcome (.attachDebugger visitor address))
      (h.after (.attachDebugger visitor address)) := by
  have hmachine : Machine.Retains h.machine (h.attachDebugger visitor address).2.machine := by
    obtain ⟨probed, hspares⟩ := spares_attachDebugger h visitor address
    have hprobed : Machine.Retains h.machine (h.probedAs probed).machine := ⟨rfl, .refl _⟩
    exact hprobed.trans (.of_spares hspares.bench.machine)
  dsimp only [outcome, after]
  rcases expect_cases h .attachDebugger with ⟨hphase, hexpect⟩ | hrefused
  · have hwired : h.phase = .wired := List.mem_singleton.mp hphase
    unfold attachDebugger at hmachine ⊢
    rw [hexpect] at hmachine ⊢
    cases visitor with
    | client script => exact .attached hwired hmachine (retains_converse _).phase
    | turnedAway => exact .unattached hwired ⟨nofun, rfl⟩ hmachine (.inr rfl)
    | nobody =>
      cases hcheck : Address.check h.config.gdbAddress with
      | error fault =>
        rw [hcheck] at hmachine
        exact .unattached hwired ⟨nofun, rfl⟩ hmachine (.inl hwired)
      | ok _ =>
        rw [hcheck] at hmachine
        exact .unattached hwired ⟨nofun, rfl⟩ hmachine (.inr rfl)
  · unfold attachDebugger
    rw [hrefused]
    exact .refused .attachDebugger

theorem effect_run (h : Harness) (limit : Nat) :
    Effect h .run (h.outcome (.run limit)) (h.after (.run limit)) := by
  have hstart : Machine.Retains h.machine h.start.machine :=
    Bench.retains_log h.bench .info "running" fun m => [m.shownProgram]
  have hturns := retains_turns limit h.start
  have hmachine := hstart.trans hturns.machine
  dsimp only [outcome, after]
  unfold run
  rcases expect_cases h .run with ⟨hphase, hexpect⟩ | hrefused
  · rw [hexpect]
    dsimp only
    generalize h.start.turns limit = result at hturns hmachine
    obtain ⟨h', ending⟩ := result
    have hfinish : Machine.Retains h.machine h'.finish.machine := by
      rw [machine_finish]
      exact hmachine
    rcases ending with _ | result | _
    · exact .unfinished hphase hmachine hturns.phase
    · exact .finished hphase rfl hfinish rfl
    · exact .finished hphase rfl hfinish rfl
  · rw [hrefused]
    exact .refused .run

/-- A call does one of the things above. -/
theorem effect_of_call (h : Harness) (call : Call) :
    Effect h call.operation (h.outcome call) (h.after call) := by
  cases call with
  | load files path => exact effect_load h files path
  | wire => exact effect_wire h
  | attachDebugger visitor address => exact effect_attachDebugger h visitor address
  | run limit => exact effect_run h limit

/-! ## What calls keep -/

section

variable {h h' : Harness} {operation : Operation} {outcome : Outcome}

theorem leads_of_effect (heffect : Effect h operation outcome h') : Phase.Leads h.phase h'.phase := by
  -- a run passes through two phases, all other operations through one at most
  have hrun (hphase : h.phase ∈ Operation.run.phases) : Phase.Leads h.phase .running := by
    simp only [Operation.phases, List.mem_cons, List.not_mem_nil, or_false] at hphase
    rcases hphase with hwired | hwaiting
    · rw [hwired]
      exact .single .run
    · rw [hwaiting]
      exact .single .attend
  cases heffect with
  | refused => exact .refl
  | unread => exact .refl
  | loaded hphase =>
    rw [hphase]
    exact .single .load
  | unwired => exact .refl
  | wired hphase =>
    rw [hphase]
    exact .single .wire
  | attached hphase _ hafter =>
    rw [hphase, hafter]
    exact .single .await
  | unattached hphase _ _ hafter =>
    rw [hphase]
    rcases hafter with hwired | hwaiting
    · rw [hwired]
    · rw [hwaiting]
      exact .single .await
  | unfinished hphase _ hafter =>
    rw [hafter]
    exact hrun hphase
  | finished hphase _ _ hafter =>
    rw [hafter]
    exact (hrun hphase).tail .finish

/-- An operation succeeds in one of its phases and leaves them all behind. -/
theorem passed_of_effect (heffect : Effect h operation .success h') :
    h.phase ∈ operation.phases ∧ ∀ phase ∈ operation.phases, phase.rank < h'.phase.rank := by
  cases heffect with
  | loaded hphase =>
    rw [hphase]
    dsimp only
    decide
  | wired hphase =>
    rw [hphase]
    dsimp only
    decide
  | attached hphase _ hafter =>
    rw [hphase, hafter]
    decide
  | unattached _ houtcome => exact absurd rfl houtcome.1
  | finished hphase _ _ hafter =>
    rw [hafter]
    exact ⟨hphase, by decide⟩

/-- A call that is refused, and an attempt to load that fails, change nothing. -/
theorem eq_of_effect (heffect : Effect h operation outcome h') (hfailed : outcome ≠ .success)
    (hkind : outcome.isOutOfOrder = true ∨ operation = .load) : h' = h := by
  cases heffect with
  | refused => rfl
  | unread => rfl
  | loaded => exact absurd rfl hfailed
  | unwired => rcases hkind with hkind | hkind <;> cases hkind
  | wired => exact absurd rfl hfailed
  | attached => exact absurd rfl hfailed
  | unattached _ houtcome =>
    rcases hkind with hkind | hkind
    · rw [houtcome.2] at hkind
      cases hkind
    · cases hkind
  | unfinished => rcases hkind with hkind | hkind <;> cases hkind
  | finished _ houtcome =>
    rcases hkind with hkind | hkind
    · rw [houtcome] at hkind
      cases hkind
    · cases hkind

/-- A harness before its lines are wired: the core stands where it was put, and nobody but the UART
listens. -/
structure Unwired (h : Harness) : Prop where
  phase : h.phase = .initializing ∨ h.phase = .ready
  steps : h.steps = 0
  pristine : h.machine.Pristine
  data : h.machine.data = Machine.initialData h.machine.model
  cycle : h.machine.cycle = 0
  run : h.machine.run = .running

/-- A harness whose lines are wired. -/
structure Online (h : Harness) : Prop where
  phase : Phase.wired.rank ≤ h.phase.rank
  plugged : ∃ sink hasInput, Plugged h.machine sink hasInput

theorem unwired_of_create {config : Config} {input : Option (List Poll)} {journal : Journal}
    (hcreate : create config input journal = .ok h) : h.Unwired := by
  have hpristine := (of_create_eq_ok hcreate).1
  obtain ⟨m, hm, hnew⟩ := exists_of_bind_eq_ok hcreate
  obtain ⟨hwork, -⟩ := Machine.powered_createNamed hm
  cases hnew
  exact {
    phase := .inl rfl
    steps := rfl
    pristine := hpristine
    data := congrArg Work.data hwork
    cycle := congrArg Work.cycle hwork
    run := congrArg Work.run hwork }

theorem pristine_allocated {m : Machine} (hm : m.Pristine) (hasInput : Bool) :
    ({ m with wiring := allocated m hasInput } : Machine).Pristine where
  input := hm.input.alloc _ _ _ _
  output := hm.output.alloc _ _ _ _
  xon := hm.xon.alloc _ _ _ _
  xoff := hm.xoff.alloc _ _ _ _
  uart := hm.uart
  notes := hm.notes

/-- Before the wiring a call leaves the core alone, unless it is the call that wires. -/
theorem unwired_of_effect (h₀ : h.Unwired) (heffect : Effect h operation outcome h') :
    if operation = .wire ∧ outcome = .success then h'.Online else h'.Unwired := by
  have hnot (phase : Phase) (hlate : 2 ≤ phase.rank) : h.phase ≠ phase := by
    rintro rfl
    rcases h₀.phase with hphase | hphase
    · rw [hphase] at hlate
      exact absurd hlate (by decide)
    · rw [hphase] at hlate
      exact absurd hlate (by decide)
  have hnotRun : h.phase ∉ Operation.run.phases := by
    simp only [Operation.phases, List.mem_cons, List.not_mem_nil, or_false]
    rintro (hphase | hphase)
    · exact hnot _ (by decide) hphase
    · exact hnot _ (by decide) hphase
  cases heffect with
  | refused =>
    rw [if_neg nofun]
    exact h₀
  | unread =>
    rw [if_neg nofun]
    exact h₀
  | loaded hphase =>
    rw [if_neg nofun]
    exact { h₀ with
      phase := .inr rfl
      pristine := { h₀.pristine with } }
  | unwired hphase e =>
    rw [if_neg nofun]
    exact { h₀ with pristine := pristine_allocated h₀.pristine _ }
  | wired hphase hw =>
    rw [if_pos ⟨rfl, rfl⟩]
    exact ⟨Nat.le_refl _, _, _, plugged_of_wireFrom h₀.pristine hw⟩
  | attached hphase => exact absurd hphase (hnot _ (by decide))
  | unattached hphase => exact absurd hphase (hnot _ (by decide))
  | unfinished hphase => exact absurd hphase hnotRun
  | finished hphase => exact absurd hphase hnotRun

theorem Online.of_retains (h₀ : h.Online) (hmachine : Machine.Retains h.machine h'.machine)
    (hphase : Phase.wired.rank ≤ h'.phase.rank) : h'.Online := by
  obtain ⟨sink, hasInput, hplugged⟩ := h₀.plugged
  exact ⟨hphase, sink, hasInput, hplugged.of_revalued hmachine.firstLine hmachine.wiring⟩

/-- After the wiring no call takes it apart. -/
theorem online_of_effect (h₀ : h.Online) (heffect : Effect h operation outcome h') : h'.Online := by
  have hphase := h₀.phase.trans (leads_of_effect heffect).rank_le
  cases heffect with
  | refused => exact h₀
  | unread => exact h₀
  | loaded hinitializing =>
    have hlate := h₀.phase
    rw [hinitializing] at hlate
    exact absurd hlate (by decide)
  | unwired hready =>
    have hlate := h₀.phase
    rw [hready] at hlate
    exact absurd hlate (by decide)
  | wired hready =>
    have hlate := h₀.phase
    rw [hready] at hlate
    exact absurd hlate (by decide)
  | attached _ hmachine => exact h₀.of_retains hmachine hphase
  | unattached _ _ hmachine => exact h₀.of_retains hmachine hphase
  | unfinished _ hmachine => exact h₀.of_retains hmachine hphase
  | finished _ _ hmachine => exact h₀.of_retains hmachine hphase

end

/-! ## Any calls -/

variable {h : Harness}

theorem afterCalls_append (h : Harness) (earlier later : List Call) :
    h.afterCalls (earlier ++ later) = (h.afterCalls earlier).afterCalls later :=
  List.foldl_append ..

theorem leads_afterCalls (h : Harness) (calls : List Call) :
    Phase.Leads h.phase (h.afterCalls calls).phase := by
  induction calls generalizing h with
  | nil => exact .refl
  | cons call rest ih => exact (leads_of_effect (effect_of_call h call)).trans (ih _)

theorem online_afterCalls (h₀ : h.Online) (calls : List Call) : (h.afterCalls calls).Online := by
  induction calls generalizing h with
  | nil => exact h₀
  | cons call rest ih => exact ih (online_of_effect h₀ (effect_of_call h call))

theorem unwired_afterCalls (h₀ : h.Unwired) (calls : List Call) :
    if .wire ∈ h.succeeded calls then (h.afterCalls calls).Online
    else (h.afterCalls calls).Unwired := by
  induction calls generalizing h with
  | nil =>
    rw [if_neg (by simp [succeeded])]
    exact h₀
  | cons call rest ih =>
    have hstep := unwired_of_effect h₀ (effect_of_call h call)
    by_cases hwire : call.operation = .wire ∧ h.outcome call = .success
    · rw [if_pos hwire] at hstep
      have hmem : .wire ∈ h.succeeded (call :: rest) := by
        rw [succeeded, if_pos hwire.2, hwire.1]
        exact List.mem_cons_self
      rw [if_pos hmem]
      exact online_afterCalls hstep rest
    · rw [if_neg hwire] at hstep
      have hmem : .wire ∈ h.succeeded (call :: rest) ↔ .wire ∈ (h.after call).succeeded rest := by
        rw [succeeded]
        split
        · rename_i hsuccess
          have hne : Operation.wire ≠ call.operation := fun heq => hwire ⟨heq.symm, hsuccess⟩
          rw [List.mem_cons, or_iff_right hne]
        · rfl
      simp only [hmem]
      exact ih hstep

/-- An operation that succeeds later finds one of its phases later. -/
theorem exists_phase_of_mem_succeeded {calls : List Call} {operation : Operation}
    (hmem : operation ∈ h.succeeded calls) :
    ∃ phase ∈ operation.phases, h.phase.rank ≤ phase.rank := by
  induction calls generalizing h with
  | nil => cases hmem
  | cons call rest ih =>
    have heffect := effect_of_call h call
    have hlater (hrest : operation ∈ (h.after call).succeeded rest) :
        ∃ phase ∈ operation.phases, h.phase.rank ≤ phase.rank := by
      obtain ⟨phase, hphase, hle⟩ := ih hrest
      exact ⟨phase, hphase, (leads_of_effect heffect).rank_le.trans hle⟩
    rw [succeeded] at hmem
    split at hmem
    · rename_i hsuccess
      rw [hsuccess] at heffect
      rcases List.mem_cons.mp hmem with rfl | hrest
      · exact ⟨h.phase, (passed_of_effect heffect).1, Nat.le_refl _⟩
      · exact hlater hrest
    · exact hlater hmem

theorem nodup_succeeded (h : Harness) (calls : List Call) : (h.succeeded calls).Nodup := by
  induction calls generalizing h with
  | nil => exact List.nodup_nil
  | cons call rest ih =>
    rw [succeeded]
    split
    · rename_i hsuccess
      have heffect := effect_of_call h call
      rw [hsuccess] at heffect
      refine List.nodup_cons.mpr ⟨?_, ih _⟩
      intro hmem
      obtain ⟨phase, hphase, hle⟩ := exists_phase_of_mem_succeeded hmem
      exact absurd hle (Nat.not_le.mpr ((passed_of_effect heffect).2 phase hphase))
    · exact ih _

/-- Whatever calls are made to a new harness: its phase moves forward through the phases in their order,
no operation succeeds twice, no step is taken before the lines are wired, and from then on the pool is
frozen and the output leads to one line with one listener. A call in the wrong phase, and an attempt to
load that fails, leave the harness as it is. -/
theorem calls_in_phase {config : Config} {input : Option (List Poll)} {journal : Journal}
    (hcreate : create config input journal = .ok h) (calls : List Call) :
    let h' := h.afterCalls calls
    (∀ earlier later, calls = earlier ++ later → Phase.Leads (h.afterCalls earlier).phase h'.phase) ∧
    (h.succeeded calls).Nodup ∧
    (.wire ∉ h.succeeded calls → h'.steps = 0 ∧ h'.machine.cycle = 0 ∧ h'.machine.run = .running ∧
      h'.machine.data = Machine.initialData h'.machine.model) ∧
    (.wire ∈ h.succeeded calls → h'.machine.wiring.isFrozen Machine.pool = true ∧
      ∃ sink, h'.machine.wiring.Carries (h'.machine.lineOf .output) [] [sink] ∧
        h'.machine.wiring.Carries sink [.record .sink (some sentinel)] []) ∧
    (∀ call, h'.outcome call ≠ .success →
      (h'.outcome call).isOutOfOrder = true ∨ call.operation = .load → h'.after call = h') := by
  have hwiring := unwired_afterCalls (unwired_of_create hcreate) calls
  refine ⟨?_, nodup_succeeded h calls, ?_, ?_, ?_⟩
  · rintro earlier later rfl
    rw [afterCalls_append]
    exact leads_afterCalls _ later
  · intro hwire
    rw [if_neg hwire] at hwiring
    exact ⟨hwiring.steps, hwiring.cycle, hwiring.run, hwiring.data⟩
  · intro hwire
    rw [if_pos hwire] at hwiring
    obtain ⟨sink, hasInput, hplugged⟩ := hwiring.plugged
    exact ⟨hplugged.frozen, sink, hplugged.output, hplugged.heard⟩
  · intro call hfailed hkind
    exact eq_of_effect (effect_of_call _ call) hfailed hkind

/-- A firmware that jumps to itself. -/
def loopFiles : Files :=
  { entries := [("loop.hex", Bytes.ofString ":02000000FFCF30\n:00000001FF\n")] }

/-- Calls that come too early, too late, twice, and without a file or a debugger. -/
def badlyOrdered : List Call :=
  [.wire, .run 5, .load loopFiles "none.hex", .load loopFiles "loop.hex", .load loopFiles "loop.hex",
    .attachDebugger .turnedAway "", .wire, .wire, .attachDebugger .turnedAway "", .run 5, .run 5]

theorem succeeded_badlyOrdered :
    (create { mcu := "atmega48" } none { threshold := none }).toOption.map
      (fun h => (h.succeeded badlyOrdered, (h.afterCalls badlyOrdered).phase,
        (h.outcome .wire).isOutOfOrder)) =
      some ([.load, .wire, .run], .finished, true) := by
  decide +kernel

/-- Of these calls three succeed, in the order of the phases, and the first changes nothing. -/
theorem badlyOrdered_in_phase : ∃ h : Harness,
    create { mcu := "atmega48" } none { threshold := none } = .ok h ∧
    h.succeeded badlyOrdered = [.load, .wire, .run] ∧
    h.after .wire = h ∧
    Phase.Leads h.phase .finished ∧
    (h.afterCalls badlyOrdered).machine.wiring.isFrozen Machine.pool = true := by
  have hfacts := succeeded_badlyOrdered
  cases hcreate : create { mcu := "atmega48" } none { threshold := none } with
  | error e =>
    rw [hcreate] at hfacts
    cases hfacts
  | ok h =>
    rw [hcreate] at hfacts
    have hfacts := Option.some.inj hfacts
    simp only [Prod.mk.injEq] at hfacts
    obtain ⟨hsucceeded, hphase, hrefused⟩ := hfacts
    obtain ⟨hleads, -, -, hwired, -⟩ := calls_in_phase hcreate badlyOrdered
    obtain ⟨-, -, -, -, hsame⟩ := calls_in_phase hcreate []
    refine ⟨h, rfl, hsucceeded, ?_, ?_, ?_⟩
    · refine hsame .wire ?_ (.inl hrefused)
      intro hsuccess
      rw [afterCalls, List.foldl_nil] at hsuccess
      rw [hsuccess] at hrefused
      cases hrefused
    · rw [← hphase]
      exact hleads [] badlyOrdered rfl
    · refine (hwired ?_).1
      rw [hsucceeded]
      decide

end Harness

end AvrSim
