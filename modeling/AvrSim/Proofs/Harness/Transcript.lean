import AvrSim.Proofs.Harness.Input
import AvrSim.Proofs.Uart.Transmission

/-!
# The transcript of a run

Without a debugger, what a run writes is what the firmware sends. A harness looks at its notes behind
every step, so the bytes of a step are on its output, or the run is over, before the next one begins.

* `Harness.Alone`: a wired harness without a debugger that has looked at all that was noted.
* `Harness.transcript_turn`: a turn adds the bytes of its step to the output.
* `Harness.transcript_turns`: the same for all turns of a run, which end with the sentinel.
* `Harness.run_transcript`: what a run that comes to a result has written, and why it ended.
-/

namespace AvrSim

namespace Machine

theorem sunk_received (core : Core) (b : UInt8) : (core.received b).sunk = core.sunk := by
  unfold Core.received
  by_cases hlast : core.uart.pending.length + 1 = Uart.capacity ∧ core.uart.xoff = false
  · rw [Core.receive_of_last b hlast]
    exact (Core.sunk_note _ _).trans (List.append_nil _)
  · by_cases hroom : core.uart.pending.length < Uart.capacity
    · rw [Core.receive_of_room b hroom hlast]
      rfl
    · rw [Core.receive_of_full b hroom]
      rfl

/-- A machine that is wired to a harness and that no instrument watches. -/
structure Unwatched (m : Machine) (sink : Nat) : Prop where
  tapped : m.Tapped sink Harness.sentinel
  room : sphAddress < m.data.size
  run : m.run ≠ .stopped
  probed : m.probed = false

variable {m m' : Machine} {sink : Nat}

/-- A host that raises lines leaves a machine as it is in all this. -/
theorem Unwatched.of_access (h : m.Unwatched sink) (haccess : Core.Access m.toCore m'.toCore)
    (hshape : m'.wiring.shape = m.wiring.shape) : m'.Unwatched sink where
  tapped := h.tapped.of_shape haccess.firstLine hshape
  room := haccess.size.symm ▸ h.room
  run := by
    rcases haccess.run with hrun | hterminal
    · rw [hrun]
      exact h.run
    · exact ne_stopped_of_isTerminal hterminal
  probed := haccess.probed.trans h.probed

theorem unwatched_log (h : m.Unwatched sink) (level : Level) (message : String)
    (values : List (String × Value)) : (m.log level message values).Unwatched sink :=
  ⟨h.tapped.of_shape rfl rfl, h.room, h.run, h.probed⟩

theorem unwatched_raise (h : m.Unwatched sink) (line : Nat) (value : UInt32) :
    (m.raise line value).Unwatched sink :=
  h.of_access (access_raise m line value)
    (Wiring.shape_raise Core.react line value m.wiring m.toCore)

theorem unwatched_tick (h : m.Unwatched sink) : m.tick.1.Unwatched sink := by
  have hcourse := course_tick m
  have hstays := stays_course hcourse
  exact {
    tapped := h.tapped.course hcourse
    room := hstays.size.symm ▸ h.room
    run := run_tick_ne_stopped (tick_snd_of_unprobed h.probed)
    probed := hstays.probed.trans h.probed }

end Machine

namespace Harness

/-! ## Looking at what was noted -/

/-- The harness `h'` is `h` after so many steps in which it has heard `values`, as far as the output is
concerned. -/
structure Noticed (values : List UInt32) (steps : Nat) (h h' : Harness) : Prop where
  output : h'.output.toList = h.output.toList ++ values.filter (· ≠ sentinel)
  terminated : h'.terminated = (h.terminated || values.contains sentinel)
  steps : h'.steps = h.steps + steps

theorem noticed_nil {h h' : Harness} {steps : Nat} (houtput : h'.output = h.output)
    (hterminated : h'.terminated = h.terminated) (hsteps : h'.steps = h.steps + steps) :
    Noticed [] steps h h' :=
  ⟨by simp [houtput], by simp [hterminated], hsteps⟩

theorem Noticed.trans {values values' : List UInt32} {steps steps' : Nat} {h h' h'' : Harness}
    (hfirst : Noticed values steps h h') (hsecond : Noticed values' steps' h' h'') :
    Noticed (values ++ values') (steps + steps') h h'' where
  output := by rw [hsecond.output, hfirst.output, List.filter_append, List.append_assoc]
  terminated := by
    rw [hsecond.terminated, hfirst.terminated, Bool.or_assoc]
    simp
  steps := by rw [hsecond.steps, hfirst.steps, Nat.add_assoc]

theorem noticed_observe (h : Harness) (n : Note) : Noticed n.sunk?.toList 0 h (h.observe n) := by
  unfold observe
  split
  · rename_i value
    split
    · rename_i hvalue
      subst hvalue
      exact ⟨by simp [Note.sunk?], by simp [Note.sunk?], rfl⟩
    · rename_i hvalue
      have hne : ¬ sentinel = value := fun heq => hvalue heq.symm
      exact ⟨by simp [Note.sunk?, hvalue], by simp [Note.sunk?, hne], rfl⟩
  · exact noticed_nil rfl rfl rfl
  · exact noticed_nil rfl rfl rfl
  · rename_i hsink _ _
    have hnone : n.sunk? = none := by
      unfold Note.sunk?
      split
      · exact absurd rfl (hsink _)
      · rfl
    rw [hnone]
    exact noticed_nil rfl rfl rfl

theorem noticed_foldl (notes : List Note) (h : Harness) :
    Noticed (notes.filterMap Note.sunk?) 0 h (notes.foldl observe h) := by
  induction notes generalizing h with
  | nil => exact noticed_nil rfl rfl rfl
  | cons n notes ih =>
    have hcons : (n :: notes).filterMap Note.sunk? =
        n.sunk?.toList ++ notes.filterMap Note.sunk? := by
      rw [List.filterMap_cons]
      cases n.sunk? <;> rfl
    rw [hcons]
    exact (noticed_observe h n).trans (ih (h.observe n))

/-! ## Harnesses without a debugger -/

/-- A wired harness without a debugger that has looked at all that was noted. -/
structure Alone (sink : Nat) (h : Harness) : Prop where
  instrument : h.bench.instrument = .none
  seen : h.bench.seen = #[]
  notes : h.machine.notes = #[]
  unwatched : h.machine.Unwatched sink
  source : ∀ line, h.source = some line → SourceWired h.machine line

theorem SourceWired.of_shape {m m' : Machine} {line : Nat} (h : SourceWired m line)
    (hfirst : m'.firstLine = m.firstLine) (hshape : m'.wiring.shape = m.wiring.shape) :
    SourceWired m' line := by
  refine ⟨h.wired.of_shape hfirst hshape, ?_⟩
  rw [Machine.lineOf_congr hfirst]
  exact h.source.of_shape hshape

variable {sink : Nat} {h : Harness}

/-- A machine leaves its notes on the bench, and the harness looks at them. -/
theorem alone_observeAll {before : Harness} {steps : Nat} (hbefore : Noticed [] steps before h)
    {m : Machine} (hbench : h.bench = Bench.gather ⟨m, .none, #[]⟩) (hm : m.Unwatched sink)
    (hsource : ∀ line, h.source = some line → SourceWired m line) :
    Alone sink h.observeAll ∧ Noticed m.sunk steps before h.observeAll := by
  rw [Bench.gather_none] at hbench
  have hmachine : h.machine = m.quiet := by
    unfold machine
    rw [hbench]
  have hsunk : h.bench.seen.toList.filterMap Note.sunk? = m.sunk := by
    rw [hbench]
    show (#[] ++ m.notes.filter Bench.isPublic).toList.filterMap Note.sunk? = _
    rw [Array.empty_append]
    exact Machine.sunk_view m
  have halone (h' : Harness) (hmachine' : h'.machine = m.quiet) (hseen : h'.bench.seen = #[])
      (hinstrument : h'.bench.instrument = .none) (hsource' : h'.source = h.source) :
      Alone sink h' := by
    refine ⟨hinstrument, hseen, ?_, ?_, ?_⟩
    · rw [hmachine']
      rfl
    · rw [hmachine']
      exact ⟨hm.tapped.of_shape rfl rfl, hm.room, hm.run, hm.probed⟩
    · rw [hmachine', hsource']
      exact fun line hline => (hsource line hline).of_shape rfl rfl
  have hinstrument : h.bench.instrument = .none := by rw [hbench]
  -- looking at notes changes the flags and the output of the harness only
  unfold observeAll
  split
  · rename_i hempty
    have hseen : h.bench.seen = #[] := by simpa using hempty
    refine ⟨halone h hmachine hseen hinstrument rfl, ?_⟩
    rw [← hsunk, hseen]
    exact hbefore
  · dsimp only [Bench.take]
    rw [← Array.foldl_toList]
    have hheard := heard_foldl h.bench.seen.toList { h with bench := { h.bench with seen := #[] } }
    have hnoticed := noticed_foldl h.bench.seen.toList { h with bench := { h.bench with seen := #[] } }
    rw [hsunk] at hnoticed
    generalize h.bench.seen.toList.foldl observe { h with bench := { h.bench with seen := #[] } } = h'
      at hheard hnoticed
    have htaken : Noticed [] steps before { h with bench := { h.bench with seen := #[] } } :=
      ⟨hbefore.output, hbefore.terminated, hbefore.steps⟩
    refine ⟨halone h' ?_ ?_ ?_ hheard.source, htaken.trans hnoticed⟩
    · unfold machine
      rw [hheard.bench]
      exact hmachine
    · rw [hheard.bench]
    · rw [hheard.bench]
      exact hinstrument

theorem Alone.bench_eq (halone : Alone sink h) : h.bench = ⟨h.machine, .none, #[]⟩ := by
  rw [← halone.instrument, ← halone.seen]
  rfl

theorem Alone.of_bench (halone : Alone sink h) {h' : Harness} (hbench : h'.bench = h.bench)
    (hsource : ∀ line, h'.source = some line → h.source = some line) : Alone sink h' := by
  have hmachine : h'.machine = h.machine := congrArg Bench.machine hbench
  refine ⟨?_, ?_, ?_, ?_, ?_⟩
  · rw [hbench]
    exact halone.instrument
  · rw [hbench]
    exact halone.seen
  · rw [hmachine]
    exact halone.notes
  · rw [hmachine]
    exact halone.unwatched
  · rw [hmachine]
    exact fun line hline => halone.source line (hsource line hline)

theorem Alone.act_log (halone : Alone sink h) (level : Level) (message : String)
    (values : Machine → List (String × Value)) :
    (h.bench.act fun m => m.log level message (values m)) =
      ⟨h.machine.log level message (values h.machine), .none, #[]⟩ := by
  have hnotes : (h.machine.log level message (values h.machine)).notes = #[] := halone.notes
  rw [halone.bench_eq]
  show Bench.gather ⟨h.machine.log level message (values h.machine), .none, #[]⟩ = _
  rw [Bench.gather_none, Machine.quiet_of_notes hnotes, hnotes]
  rfl

/-- The harness makes an entry in the journal. -/
theorem alone_log (halone : Alone sink h) (level : Level) (message : String)
    (values : Machine → List (String × Value)) :
    Alone sink { h with bench := h.bench.act fun m => m.log level message (values m) } := by
  rw [halone.act_log]
  exact ⟨rfl, rfl, halone.notes, Machine.unwatched_log halone.unwatched _ _ _,
    fun line hline => (halone.source line hline).of_shape rfl rfl⟩

/-! ## Turns -/

/-- A byte of the source may be answered by flow control, but not on the output. -/
theorem alone_raise {before : Harness} (hbefore : Noticed [] 0 before h) {m : Machine} {line : Nat}
    (value : UInt32) (hbench : h.bench = Bench.gather ⟨m.raise line value, .none, #[]⟩)
    (hm : m.Unwatched sink) (hnotes : m.notes = #[]) (hline : SourceWired m line)
    (hsource : ∀ line, h.source = some line → SourceWired m line) :
    Alone sink h.observeAll ∧ Noticed [] 0 before h.observeAll := by
  have hsunk : (m.raise line value).sunk = [] := by
    rw [Machine.toCore_raise_source hline.wired hline.source, Machine.sunk_received]
    simp [Core.sunk, hnotes]
  rw [← hsunk]
  refine alone_observeAll hbefore hbench (Machine.unwatched_raise hm line value) ?_
  intro line' hline'
  exact (hsource line' hline').of_shape (Machine.access_raise m line value).firstLine
    (Wiring.shape_raise Core.react line value m.wiring m.toCore)

/-- Asking the source makes no difference to the output. -/
theorem alone_polled (halone : Alone sink h) :
    Alone sink h.polled.1 ∧ Noticed [] 0 h h.polled.1 := by
  unfold polled
  cases hdue : h.pollDue with
  | none => exact ⟨halone, noticed_nil rfl rfl rfl⟩
  | some line =>
    have hline := source_of_pollDue hdue
    dsimp only
    unfold poll
    dsimp only
    split
    · rename_i b _
      have hsource (line : Nat) (hline : h.source = some line) : SourceWired (h.machine.log .trace
          "uart input" [("byte", Core.shownAddress 2 b.toNat)]) line :=
        (halone.source line hline).of_shape rfl rfl
      refine alone_raise (noticed_nil rfl rfl rfl) b.toUInt32 ?_
        (Machine.unwatched_log halone.unwatched _ _ _) halone.notes (hsource line hline) hsource
      dsimp only
      rw [halone.bench_eq]
      rfl
    · exact ⟨halone.of_bench rfl fun _ hline => hline, noticed_nil rfl rfl rfl⟩
    · exact ⟨halone.of_bench rfl fun _ hline => hline, noticed_nil rfl rfl rfl⟩
    · exact ⟨(alone_log halone .debug "input closed" fun _ => []).of_bench rfl nofun,
        noticed_nil rfl rfl rfl⟩

/-- A step adds what it sends to the output. -/
theorem alone_advance (halone : Alone sink h) :
    Alone sink h.advance ∧ Noticed (h.machine.written.map UInt8.toUInt32) 1 h h.advance ∧
      Machine.LastOnly sentinel h.machine.written := by
  have hfree : h.bench.isHeld = false := by
    rw [halone.bench_eq]
    rfl
  have hbench : h.bench.advance = (Bench.gather ⟨h.machine.tick.1, .none, #[]⟩, none) := by
    rw [halone.bench_eq]
    unfold Bench.advance
    dsimp only
    rw [Machine.tick_snd_of_unprobed halone.unwatched.probed]
    rfl
  have hserve : (Bench.gather ⟨h.machine.tick.1, .none, #[]⟩).serve.1 =
      Bench.gather ⟨h.machine.tick.1, .none, #[]⟩ := by
    rw [Bench.gather_none]
    rfl
  have hadvance : h.advance = ({ h with
      bench := Bench.gather ⟨h.machine.tick.1, .none, #[]⟩, steps := h.steps + 1 } :
        Harness).observeAll := by
    unfold advance
    rw [if_neg (by rw [hfree]; nofun), hbench]
    dsimp only
    rw [hserve]
    rfl
  obtain ⟨htapped, hroom, hrun, hprobed⟩ := halone.unwatched
  obtain ⟨hsunk, hlast⟩ := Machine.sunk_tick htapped hroom hrun hprobed halone.notes
  have hstepped : Noticed [] 1 h { h with
      bench := Bench.gather ⟨h.machine.tick.1, .none, #[]⟩, steps := h.steps + 1 } :=
    noticed_nil rfl rfl rfl
  rw [hadvance, ← hsunk, ← and_assoc]
  refine ⟨alone_observeAll hstepped rfl (Machine.unwatched_tick halone.unwatched) ?_, hlast⟩
  intro line hline
  exact (halone.source line hline).of_shape
    (Machine.stays_course (Machine.course_tick _)).firstLine (Machine.revalued_tick _).shape

/-- What a result says of the harness that comes to it. -/
structure Concluded (result : Result) (h : Harness) : Prop where
  state : result.state = h.machine.run
  sentinel : result.reason = .sentinel ↔ h.terminated = true
  other : h.terminated = false →
    result.reason = .done ∧ h.machine.run = .done ∨
      result.reason = .crashed ∧ h.machine.run = .crashed

theorem judge_cases (halone : Alone sink h) :
    h.judge = (h, none) ∧ h.terminated = false ∨
      ∃ h' result, h.judge = (h', some (.result result)) ∧ Alone sink h' ∧ Noticed [] 0 h h' ∧
        Concluded result h' := by
  have hconclude (reason : Reason) (level : Level) (message : String)
      (values : List (String × Value))
      (hreason : reason = .sentinel ∧ h.terminated = true ∨ h.terminated = false ∧
        (reason = .done ∧ h.machine.run = .done ∨ reason = .crashed ∧ h.machine.run = .crashed)) :
      ∃ h' result, h.conclude reason level message values = (h', some (.result result)) ∧
        Alone sink h' ∧ Noticed [] 0 h h' ∧ Concluded result h' := by
    have hlogged := alone_log halone level message fun _ =>
      values ++ [("cycles", .number h.machine.cycle.toNat)]
    have hact := halone.act_log level message fun _ =>
      values ++ [("cycles", .number h.machine.cycle.toNat)]
    unfold conclude
    dsimp only
    generalize (h.bench.act fun m => m.log level message
      (values ++ [("cycles", .number h.machine.cycle.toNat)])) = bench at hlogged hact
    have hrun : bench.machine.run = h.machine.run := by
      rw [hact]
      rfl
    refine ⟨_, _, rfl, hlogged, noticed_nil rfl rfl rfl, hrun.symm, ⟨?_, ?_⟩, ?_⟩
    · intro hsentinel
      rcases hreason with ⟨-, hterminated⟩ | ⟨-, ⟨hdone, -⟩ | ⟨hcrashed, -⟩⟩
      · exact hterminated
      · cases hdone.symm.trans hsentinel
      · cases hcrashed.symm.trans hsentinel
    · intro (hterminated : h.terminated = true)
      rcases hreason with ⟨hsentinel, -⟩ | ⟨hclean, -⟩
      · exact hsentinel
      · cases hclean.symm.trans hterminated
    · intro (hclean : h.terminated = false)
      rcases hreason with ⟨-, hterminated⟩ | ⟨-, hreason⟩
      · cases hclean.symm.trans hterminated
      · exact hreason.imp (.imp_right hrun.trans) (.imp_right hrun.trans)
  unfold judge
  split
  · rename_i hterminated
    exact .inr (hconclude _ _ _ _ (.inl ⟨rfl, hterminated⟩))
  · rename_i hterminated
    have hclean : h.terminated = false := by simpa using hterminated
    split
    · rename_i hrun
      exact .inr (hconclude _ _ _ _ (.inr ⟨hclean, .inl ⟨rfl, hrun⟩⟩))
    · rename_i hrun
      exact .inr (hconclude _ _ _ _ (.inr ⟨hclean, .inr ⟨rfl, hrun⟩⟩))
    · exact .inl ⟨rfl, hclean⟩

/-- The machine that takes a step in a turn, if one does. A core that is held takes none. -/
def stepInTurn (h : Harness) : List Machine :=
  if h.polled.2 || h.polled.1.bench.isHeld then [] else [h.polled.1.machine]

/-- The machines that take a step in so many turns, in order. -/
def stepsIn : Nat → Harness → List Machine
  | 0, _ => []
  | n + 1, h =>
    h.stepInTurn ++ match h.turn with
      | (h, none) => stepsIn n h
      | (_, some _) => []

/-- The bytes that machines write to their data registers in a step each. -/
def writtenBy (steps : List Machine) : List UInt8 := steps.flatMap Machine.written

/-- The account of a run: what was heard in its steps is on the output, the sentinel is the last byte of
its step, and only the last step can send it. -/
structure Transcript (steps : List Machine) (h h' : Harness) : Prop where
  noticed : Noticed ((writtenBy steps).map UInt8.toUInt32) steps.length h h'
  lastOnly : ∀ m ∈ steps, Machine.LastOnly sentinel m.written
  stops : ∀ m ∈ steps.dropLast, ∀ b ∈ m.written, b.toUInt32 ≠ sentinel

theorem Transcript.trans {steps steps' : List Machine} {h h' h'' : Harness}
    (hfirst : Transcript steps h h') (hclean : h'.terminated = false)
    (hsecond : Transcript steps' h' h'') : Transcript (steps ++ steps') h h'' where
  noticed := by
    have hnoticed := hfirst.noticed.trans hsecond.noticed
    rw [← List.map_append, ← List.length_append] at hnoticed
    rw [writtenBy, List.flatMap_append]
    exact hnoticed
  lastOnly := by
    intro m hm
    rcases List.mem_append.mp hm with hm | hm
    · exact hfirst.lastOnly m hm
    · exact hsecond.lastOnly m hm
  stops := by
    intro m hm b hb
    rcases mem_of_mem_dropLast_append hm with hm | hm
    · -- the first steps have not ended the run
      have hterminated := hfirst.noticed.terminated
      rw [hclean, eq_comm, Bool.or_eq_false_iff] at hterminated
      intro hsentinel
      have hmem : sentinel ∈ (writtenBy steps).map UInt8.toUInt32 :=
        List.mem_map.mpr ⟨b, List.mem_flatMap.mpr ⟨m, hm, hb⟩, hsentinel⟩
      exact absurd hterminated.2 (by simpa using hmem)
    · exact hsecond.stops m hm b hb

theorem transcript_nil {h h' : Harness} (h₀ : Noticed [] 0 h h') : Transcript [] h h' :=
  ⟨h₀, List.forall_mem_nil _, List.forall_mem_nil _⟩

/-- A turn adds the bytes of its step to the output. It is the last one if the sentinel is among
them. -/
theorem transcript_turn (halone : Alone sink h) :
    Alone sink h.turn.1 ∧ Transcript h.stepInTurn h h.turn.1 ∧
      (h.turn.2 = none → h.turn.1.terminated = false) ∧
      (∀ result, h.turn.2 = some (.result result) → Concluded result h.turn.1) := by
  obtain ⟨hpolled, hnoticed⟩ := alone_polled halone
  have hfree : h.polled.1.bench.isHeld = false := by
    rw [hpolled.bench_eq]
    rfl
  rw [turn_eq]
  unfold stepInTurn
  rw [hfree, Bool.or_false]
  generalize h.polled = result at hpolled hnoticed
  obtain ⟨h', failed⟩ := result
  cases failed with
  | true => exact ⟨hpolled, transcript_nil hnoticed, nofun, nofun⟩
  | false =>
    rw [if_neg Bool.false_ne_true]
    dsimp only at hpolled hnoticed ⊢
    obtain ⟨hadvanced, hadded, hlast⟩ := alone_advance hpolled
    have hstepped : Transcript [h'.machine] h h'.advance := by
      refine ⟨?_, ?_, List.forall_mem_nil _⟩
      · have hboth := hnoticed.trans hadded
        rw [writtenBy, List.flatMap_singleton]
        exact hboth
      · intro m hm
        rw [List.mem_singleton.mp hm]
        exact hlast
    rcases judge_cases hadvanced with ⟨hjudge, hclean⟩ | ⟨h'', result, hjudge, hnext, hsame, hconcluded⟩
    · rw [hjudge]
      exact ⟨hadvanced, hstepped, fun _ => hclean, nofun⟩
    · rw [hjudge]
      refine ⟨hnext, ⟨?_, hstepped.lastOnly, hstepped.stops⟩, nofun, ?_⟩
      · have hboth := hstepped.noticed.trans hsame
        rw [List.append_nil] at hboth
        exact hboth
      · rintro _ ⟨⟩
        exact hconcluded

theorem transcript_turns (halone : Alone sink h) (n : Nat) :
    Transcript (h.stepsIn n) h (h.turns n).1 ∧
      (∀ result, (h.turns n).2 = some (.result result) → Concluded result (h.turns n).1) := by
  induction n generalizing h with
  | zero => exact ⟨transcript_nil (noticed_nil rfl rfl rfl), nofun⟩
  | succ n ih =>
    obtain ⟨hnext, htranscript, hclean, hconcluded⟩ := transcript_turn halone
    unfold turns stepsIn
    generalize h.turn = result at hnext htranscript hclean hconcluded
    obtain ⟨h', ending⟩ := result
    cases ending with
    | some ending =>
      rw [List.append_nil]
      exact ⟨htranscript, hconcluded⟩
    | none =>
      obtain ⟨hrest, hresult⟩ := ih hnext
      exact ⟨htranscript.trans (hclean rfl) hrest, hresult⟩

/-! ## Runs -/

theorem Plugged.tapped {m : Machine} {hasInput : Bool} (h : Plugged m sink hasInput) :
    m.Tapped sink sentinel := by
  refine ⟨h.output, h.heard, (· = m.lineOf .xon), rfl, ?_⟩
  apply Wiring.closed_of_carries
  rintro line rfl
  refine ⟨_, [], h.xon, ?_, nofun⟩
  intro observer hmem
  cases hasInput with
  | false => cases hmem
  | true => exact List.mem_singleton.mp hmem

/-- A new harness has no debugger and has written nothing. -/
structure Blank (h : Harness) : Prop where
  bench : h.bench = ⟨h.machine, .none, #[]⟩
  room : sphAddress < h.machine.data.size
  run : h.machine.run ≠ .stopped
  probed : h.machine.probed = false
  output : h.output = #[]
  terminated : h.terminated = false
  steps : h.steps = 0

theorem blank_of_create {config : Config} {input : Option (List Poll)} {journal : Journal}
    (hcreate : create config input journal = .ok h) : h.Blank := by
  obtain ⟨m, hm, hnew⟩ := exists_of_bind_eq_ok hcreate
  obtain ⟨hpart, hsound⟩ := Machine.sound_createNamed hm
  have hroom : sphAddress < m.data.size := by
    rw [hsound.data]
    exact Nat.lt_of_lt_of_le (by decide) (Machine.roomy_of_mem_all _ hpart).1
  have hrun : m.run ≠ .stopped := by
    rcases hsound.rests with hrun | hrun | ⟨hrun, -⟩
    · rw [hrun]
      nofun
    · exact Machine.ne_stopped_of_isTerminal hrun
    · rw [hrun]
      nofun
  cases hnew
  exact ⟨rfl, hroom, hrun, hsound.unprobed, rfl, rfl, rfl⟩

theorem alone_of_wire {config : Config} {input : Option (List Poll)} {journal : Journal}
    (hcreate : create config input journal = .ok h) {files : Files} {path : String}
    {image : Hex.Image} {loaded : Harness} (hload : h.load files path = .ok (image, loaded))
    {wired : Harness} (hwire : loaded.wire = (.ok (), wired)) :
    (∃ sink, Alone sink wired) ∧ wired.output = #[] ∧ wired.terminated = false ∧ wired.steps = 0 := by
  have hpristine := (of_create_eq_ok hcreate).1
  have hblank := blank_of_create hcreate
  obtain ⟨-, flash, program, codeEnd, journal, rfl⟩ := exists_of_load hload
  obtain ⟨w, hw, rfl⟩ := exists_of_wire hwire
  have hloaded : ({ h.machine with flash, program, codeEnd, journal } : Machine).Pristine :=
    { hpristine with }
  have hplugged := plugged_of_wireFrom hloaded hw
  refine ⟨⟨h.machine.wiring.lines.size, ?_⟩, hblank.output, hblank.terminated, hblank.steps⟩
  refine ⟨congrArg Bench.instrument hblank.bench, congrArg Bench.seen hblank.bench, hpristine.notes,
    ⟨hplugged.tapped, hblank.room, hblank.run, hblank.probed⟩, ?_⟩
  intro line hline
  dsimp only at hline
  split at hline
  · rename_i hinput
    cases hline
    rw [hinput] at hplugged
    exact hplugged.sourceWired
  · cases hline

theorem toUInt32_eq_sentinel (b : UInt8) : b.toUInt32 = sentinel ↔ b = 4 :=
  UInt8.toUInt32_inj (b := 4)

theorem Transcript.terminated_iff {steps : List Machine} {h h' : Harness} (ht : Transcript steps h h')
    (hclean : h.terminated = false) : h'.terminated = true ↔ 4 ∈ writtenBy steps := by
  rw [ht.noticed.terminated, hclean, Bool.false_or, List.contains_iff_mem, List.mem_map]
  constructor
  · rintro ⟨b, hb, hsentinel⟩
    rw [(toUInt32_eq_sentinel b).mp hsentinel] at hb
    exact hb
  · intro hfour
    exact ⟨4, hfour, rfl⟩

/-- The sentinel is the last byte that is sent. -/
theorem Transcript.lastOnly_writtenBy {steps : List Machine} {h h' : Harness}
    (ht : Transcript steps h h') : Machine.LastOnly sentinel (writtenBy steps) := by
  rcases List.eq_nil_or_concat steps with rfl | ⟨front, m, rfl⟩
  · nofun
  · have hstops := ht.stops
    rw [List.concat_eq_append, List.dropLast_concat] at hstops
    rw [List.concat_eq_append, writtenBy, List.flatMap_append, List.flatMap_singleton]
    apply Machine.lastOnly_append
    · intro b hb
      obtain ⟨m', hm', hb⟩ := List.mem_flatMap.mp hb
      exact hstops m' hm' b hb
    · exact ht.lastOnly m (by simp)

/-- Where no byte comes behind the sentinel, leaving it out is the same as ending before it. -/
theorem filter_eq_takeWhile {bytes : List UInt8} (h : Machine.LastOnly sentinel bytes) :
    (bytes.map UInt8.toUInt32).filter (· ≠ sentinel) =
      (bytes.takeWhile (· ≠ 4)).map UInt8.toUInt32 := by
  rcases List.eq_nil_or_concat bytes with rfl | ⟨front, b, rfl⟩
  · rfl
  · unfold Machine.LastOnly at h
    rw [List.concat_eq_append, List.dropLast_concat] at h
    have hfront : ∀ b ∈ front, decide (b ≠ 4) = true := by
      intro b hb
      exact decide_eq_true fun hfour => h b hb ((toUInt32_eq_sentinel b).mpr hfour)
    have hfilter : (front.map UInt8.toUInt32).filter (· ≠ sentinel) = front.map UInt8.toUInt32 := by
      rw [List.filter_eq_self]
      intro value hvalue
      obtain ⟨b, hb, rfl⟩ := List.mem_map.mp hvalue
      exact decide_eq_true (h b hb)
    rw [List.concat_eq_append, List.map_append, List.filter_append, hfilter,
      List.takeWhile_append_of_pos hfront, List.map_append]
    congr 1
    by_cases hb : b = 4
    · subst hb
      rfl
    · have hne : b.toUInt32 ≠ sentinel := fun heq => hb ((toUInt32_eq_sentinel b).mp heq)
      simp [hb, hne]

theorem of_run_eq_ok {limit : Nat} {result : Result} {final : Harness}
    (hrun : h.run limit = (.ok (some result), final)) :
    (h.start.turns limit).2 = some (.result result) ∧ final = (h.start.turns limit).1.finish := by
  unfold run at hrun
  split at hrun
  · cases hrun
  · generalize h.start.turns limit = ended at hrun
    obtain ⟨h', ending⟩ := ended
    split at hrun
    · cases hrun
    · rename_i heq
      cases heq
      cases hrun
      exact ⟨rfl, rfl⟩
    · cases hrun

/-- What a run without a debugger has written when it comes to a result: one line for each byte that the
firmware wrote to the data register of the UART, in order, up to the sentinel. The step in which the
sentinel is written is the last one. The reason is the sentinel if it was written, and otherwise it is
the state in which the core ended. -/
theorem run_transcript {config : Config} {input : Option (List Poll)} {journal : Journal}
    (hcreate : create config input journal = .ok h) {files : Files} {path : String}
    {image : Hex.Image} {loaded : Harness} (hload : h.load files path = .ok (image, loaded))
    {wired : Harness} (hwire : loaded.wire = (.ok (), wired)) {limit : Nat} {result : Result}
    {final : Harness} (hrun : wired.run limit = (.ok (some result), final)) :
    let steps := wired.start.stepsIn limit
    let bytes := writtenBy steps
    final.takeOutput.1 = String.join ((bytes.takeWhile (· ≠ 4)).map fun b =>
        "uart: " ++ Text.hexUpper b.toNat ++ "\n") ∧
    final.steps = steps.length ∧
    (∀ m ∈ steps.dropLast, 4 ∉ m.written) ∧
    (result.reason = .sentinel ↔ 4 ∈ bytes) ∧
    (4 ∉ bytes → result.reason = .done ∧ final.machine.run = .done ∨
      result.reason = .crashed ∧ final.machine.run = .crashed) ∧
    result.state = final.machine.run := by
  obtain ⟨⟨sink, halone⟩, houtput, hterminated, hsteps⟩ := alone_of_wire hcreate hload hwire
  obtain ⟨hending, hfinal⟩ := of_run_eq_ok hrun
  have hstart : Alone sink wired.start :=
    (alone_log halone .info "running" fun m => [m.shownProgram]).of_bench rfl fun _ hline => hline
  obtain ⟨htranscript, hconcluded⟩ := transcript_turns hstart limit
  have hclean : wired.start.terminated = false := hterminated
  have hmem := htranscript.terminated_iff hclean
  obtain ⟨hstate, hsentinel, hother⟩ := hconcluded result hending
  intro steps bytes
  rw [hfinal, machine_finish]
  refine ⟨?_, ?_, ?_, hsentinel.trans hmem, ?_, hstate⟩
  · have hlines : (wired.start.turns limit).1.output.toList =
        (bytes.takeWhile (· ≠ 4)).map UInt8.toUInt32 := by
      rw [htranscript.noticed.output, filter_eq_takeWhile htranscript.lastOnly_writtenBy]
      show wired.output.toList ++ _ = _
      rw [houtput]
      rfl
    show String.join ((wired.start.turns limit).1.output.toList.map outputLine) = _
    rw [hlines, List.map_map]
    rfl
  · show (wired.start.turns limit).1.steps = _
    rw [htranscript.noticed.steps]
    show wired.steps + _ = _
    rw [hsteps, Nat.zero_add]
  · intro m hm hfour
    exact htranscript.stops m hm 4 hfour rfl
  · intro hfour
    exact hother (Bool.eq_false_iff.mpr fun hend => hfour (hmem.mp hend))

/-- A firmware that stores a byte in the data register, points the stack there, calls, and stores the
sentinel. -/
def callerFiles : Files :=
  { entries := [("c.hex", Bytes.ofString ":1200000006EC0093C6000DBF1EBE00D004E00093C600EE\n:00000001FF\n")] }

/-- A harness that is ready to run, if all goes well. -/
def prepare (config : Config) (input : Option (List Poll)) (files : Files) (path : String) :
    Option Harness := do
  let h ← (create config input { threshold := none }).toOption
  let (_, loaded) ← (h.load files path).toOption
  match loaded.wire with
  | (.ok (), wired) => some wired
  | _ => none

theorem exists_of_prepare {config : Config} {input : Option (List Poll)} {files : Files}
    {path : String} {wired : Harness} (hwired : prepare config input files path = some wired) :
    ∃ h image loaded, create config input { threshold := none } = .ok h ∧
      h.load files path = .ok (image, loaded) ∧ loaded.wire = (.ok (), wired) := by
  unfold prepare at hwired
  cases hcreate : create config input { threshold := none } with
  | error e =>
    rw [hcreate] at hwired
    cases hwired
  | ok h =>
    rw [hcreate] at hwired
    simp only [Except.toOption, Option.bind_eq_bind, Option.bind_some] at hwired
    cases hload : h.load files path with
    | error e =>
      rw [hload] at hwired
      cases hwired
    | ok result =>
      obtain ⟨image, loaded⟩ := result
      rw [hload] at hwired
      simp only [Option.bind_some] at hwired
      split at hwired
      · rename_i hwire
        cases hwired
        exact ⟨h, image, loaded, rfl, hload, hwire⟩
      · cases hwired

theorem caller_ends : (prepare { mcu := "atmega48" } (some [.byte 65]) callerFiles "c.hex").map
    (fun wired => (writtenBy (wired.start.stepsIn 10), (wired.run 10).1.toOption.join.map (·.state))) =
      some ([0xC6, 6, 4], some .done) := by
  decide +kernel

/-- The call sends a byte of the address that it returns to, and the run ends behind the sentinel. -/
theorem caller_transcript : ∃ h image loaded wired result final,
    create { mcu := "atmega48" } (some [.byte 65]) { threshold := none } = .ok h ∧
      h.load callerFiles "c.hex" = .ok (image, loaded) ∧ loaded.wire = (.ok (), wired) ∧
      wired.run 10 = (.ok (some result), final) ∧
      writtenBy (wired.start.stepsIn 10) = [0xC6, 6, 4] ∧
      final.takeOutput.1 = "uart: C6\nuart: 6\n" ∧ result.reason = .sentinel := by
  obtain ⟨wired, hprepare, hfacts⟩ := Option.map_eq_some_iff.mp caller_ends
  obtain ⟨h, image, loaded, hcreate, hload, hwire⟩ := exists_of_prepare hprepare
  obtain ⟨hbytes, hstate⟩ := Prod.mk.inj hfacts
  obtain ⟨answer, final, hrun⟩ : ∃ answer final, wired.run 10 = (answer, final) := ⟨_, _, rfl⟩
  rw [hrun] at hstate
  cases answer with
  | error e => cases hstate
  | ok found =>
    cases found with
    | none => cases hstate
    | some result =>
      obtain ⟨houtput, -, -, hreason, -⟩ := run_transcript hcreate hload hwire hrun
      rw [hbytes] at houtput hreason
      exact ⟨h, image, loaded, wired, result, final, hcreate, hload, hwire, hrun, hbytes,
        houtput.trans (by decide +kernel), hreason.mpr (by decide)⟩

end Harness

end AvrSim
