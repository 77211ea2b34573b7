import AvrSim.Harness.Run
import AvrSim.Proofs.Harness.Lines

/-!
# No byte of the input is lost

A harness asks its source for a byte now and then, but not while the UART is full. It knows that from
the signals it hears, so there are three accounts of one thing: the length of the queue, the flag of the
UART, and the flag of the harness. They agree whenever the source may be asked. Every byte of the source
is therefore either still in the queue or was taken by the firmware, in order.

* `Bench.InStep`: what the harness will know once it has looked at what was noted.
* `Bench.inStep_advance`: a step of the core, with all that a debugger does in it, keeps this.
* `Harness.Fed`: the account of the input, kept by every turn (`Harness.fed_turn`) and every run
  (`Harness.fed_turns`).
* `Harness.input_conserved`: the account of a run from its beginning.
-/

namespace AvrSim

/-- What a sender knows that was stopped, or not. -/
def Signal.ofStopped (stopped : Bool) : Signal := if stopped then .xoff else .xon

theorem Signal.ofStopped_injective {a b : Bool} (h : ofStopped a = ofStopped b) : a = b := by
  cases a <;> cases b <;> first | rfl | cases h

/-- The byte that a source gave. -/
def Poll.byte? : Poll → Option UInt8
  | .byte b => some b
  | _ => none

theorem Inbox.informed_ofStopped {i : Inbox} (h : i.signals = []) :
    i.Informed [] (.ofStopped i.xoff) := by
  refine ⟨[], h, ?_, List.isChain_singleton _⟩
  cases i.xoff <;> decide

theorem Inbox.Informed.latest {i : Inbox} {stopped : Bool}
    (h : i.Informed [] (.ofStopped stopped)) :
    Signal.latest (.ofStopped stopped) i.signals = .ofStopped i.xoff := by
  obtain ⟨new, hnew, hlatest, -⟩ := h
  rw [hnew, List.nil_append]
  cases hxoff : i.xoff with
  | true => exact hlatest.mpr hxoff
  | false =>
    rw [hxoff] at hlatest
    cases hsignal : Signal.latest (.ofStopped stopped) new with
    | xon => rfl
    | xoff => exact absurd (hlatest.mp hsignal) Bool.false_ne_true

/-! ## Benches -/

namespace Bench

/-- Who knew `paused` and now hears the signals that were gathered knows the flag of the UART. -/
structure InStep (paused : Bool) (b : Bench) : Prop where
  wired : b.machine.FlowWired
  notes : b.machine.notes = #[]
  consistent : b.machine.inbox.Consistent
  told : Signal.latest (.ofStopped paused) b.signals = .ofStopped b.machine.uart.xoff

variable {paused : Bool} {b b' : Bench}

theorem InStep.spares (h : b.InStep paused) (hb : Spares b b') : b'.InStep paused where
  wired := hb.machine.wired h.wired
  notes := hb.machine.notes.trans h.notes
  consistent := hb.machine.inbox ▸ h.consistent
  told := by
    rw [hb.signals, hb.machine.uart]
    exact h.told

theorem signals_of_notes {m : Machine} (h : m.notes = #[]) : m.signals = [] := by
  simp [Core.signals, h]

theorem informed_of_notes {m : Machine} (h : m.notes = #[]) :
    m.inbox.Informed [] (.ofStopped m.uart.xoff) :=
  Inbox.informed_ofStopped (signals_of_notes h)

/-- The signals of a change to the machine are gathered with those before. -/
theorem inStep_gather (h : b.InStep paused) {m : Machine} (hwired : m.FlowWired)
    (hconsistent : m.inbox.Consistent)
    (hinformed : m.inbox.Informed [] (.ofStopped b.machine.uart.xoff)) :
    (gather ⟨m, b.instrument, b.seen⟩).InStep paused := by
  obtain ⟨hmachine, hsignals⟩ := gather_spec ⟨m, b.instrument, b.seen⟩
  have hquiet : m.quiet.FlowWired := hwired.of_shape rfl rfl
  constructor
  · rw [hmachine]
    exact hquiet
  · rw [hmachine]
    rfl
  · rw [hmachine]
    exact ⟨hconsistent.bound, hconsistent.flag⟩
  · rw [hmachine, hsignals]
    show Signal.latest _ (b.signals ++ m.signals) = .ofStopped m.uart.xoff
    rw [Signal.latest_append, h.told]
    exact hinformed.latest

/-- What a host does to a machine without a note is not noticed. -/
theorem spares_act {f : Machine → Machine} (hnotes : b.machine.notes = #[])
    (hf : Machine.Spares b.machine (f b.machine)) : Spares b (b.act f) := by
  obtain ⟨hmachine, hsignals⟩ := gather_spec ⟨f b.machine, b.instrument, b.seen⟩
  have hnone : (f b.machine).notes = #[] := hf.notes.trans hnotes
  have hact : b.act f = gather ⟨f b.machine, b.instrument, b.seen⟩ := rfl
  rw [hact]
  constructor
  · rw [hmachine, Machine.quiet_of_notes hnone]
    exact hf
  · rw [hsignals, signals_of_notes hnone]
    exact List.append_nil _

/-- The machine of one bench becomes that of another in a step of the core. -/
structure Drew (b b' : Bench) : Prop where
  firstLine : b'.machine.firstLine = b.machine.firstLine
  shape : b'.machine.wiring.shape = b.machine.wiring.shape
  overruns : b'.machine.overruns = b.machine.overruns
  pending : b.machine.taken ++ b'.machine.uart.pending = b.machine.uart.pending

theorem Drew.spares {b'' : Bench} (h : Drew b b') (hb : Spares b' b'') : Drew b b'' where
  firstLine := hb.machine.firstLine.trans h.firstLine
  shape := (congrArg Wiring.shape hb.machine.wiring).trans h.shape
  overruns := hb.machine.overruns.trans h.overruns
  pending := by
    rw [hb.machine.uart]
    exact h.pending

theorem inStep_advance (h : b.InStep paused) :
    b.advance.1.InStep paused ∧ Drew b b.advance.1 := by
  obtain ⟨n, hpopped⟩ := Machine.popped_tick h.wired
  have hpending := Machine.taken_append_pending h.wired h.notes
  have hgather : (gather ⟨b.machine.tick.1, b.instrument, b.seen⟩).InStep paused := by
    refine inStep_gather h (hpopped.wired h.wired) ?_ ?_
    · rw [hpopped.inbox]
      exact Inbox.consistent_popAll h.consistent n
    · rw [hpopped.inbox]
      exact Inbox.informed_popAll (informed_of_notes h.notes) n
  have hdrew : Drew b (gather ⟨b.machine.tick.1, b.instrument, b.seen⟩) := by
    obtain ⟨hmachine, -⟩ := gather_spec ⟨b.machine.tick.1, b.instrument, b.seen⟩
    constructor
    · rw [hmachine]
      exact hpopped.firstLine
    · rw [hmachine]
      exact hpopped.shape
    · rw [hmachine]
      exact hpopped.overruns
    · rw [hmachine]
      exact hpending
  -- the server's turn is out of reach of the UART, so what the tick left is what counts
  rw [Bench.advance_fst]
  split
  · exact ⟨hgather.spares (spares_attend _), hdrew.spares (spares_attend _)⟩
  · exact ⟨hgather, hdrew⟩

end Bench

namespace Harness

/-! ## The account -/

/-- The account of the input: every byte that the source gave was taken or waits, and no more bytes
were lost than there were in the beginning. -/
structure Fed (polls : List Poll) (lost : List Entry) (taken : List UInt8) (h : Harness) : Prop where
  inStep : h.bench.InStep h.paused
  source : ∀ line, h.source = some line →
    h.machine.wiring.Carries line [] [h.machine.lineOf .input]
  input : h.input = some (polls.drop h.reads)
  bytes : (polls.take h.reads).filterMap Poll.byte? = taken ++ h.machine.uart.pending
  overruns : h.machine.overruns = lost

variable {polls : List Poll} {lost : List Entry} {taken : List UInt8} {h h' : Harness}

/-- A machine with the same lines has the source at the same place. -/
theorem Fed.carries (hfed : Fed polls lost taken h) {m : Machine}
    (hfirst : m.firstLine = h.machine.firstLine)
    (hshape : m.wiring.shape = h.machine.wiring.shape) {line : Nat} (hline : h.source = some line) :
    m.wiring.Carries line [] [m.lineOf .input] := by
  rw [Machine.lineOf_congr hfirst]
  exact (hfed.source line hline).of_shape hshape

theorem Fed.spares (hfed : Fed polls lost taken h) (hspares : Spares h h') :
    Fed polls lost taken h' where
  inStep := hspares.paused ▸ hfed.inStep.spares hspares.bench
  source := by
    intro line hline
    exact hfed.carries hspares.bench.machine.firstLine
      (congrArg Wiring.shape hspares.bench.machine.wiring) (hspares.source line hline)
  input := by rw [hspares.input, hspares.reads, hfed.input]
  bytes := by
    have huart : h'.machine.uart = h.machine.uart := hspares.bench.machine.uart
    rw [hspares.reads, hfed.bytes, huart]
  overruns := hspares.bench.machine.overruns.trans hfed.overruns

theorem Fed.probedAs (hfed : Fed polls lost taken h) (probed : Bool) :
    Fed polls lost taken (h.probedAs probed) :=
  ⟨⟨hfed.inStep.wired.of_shape rfl rfl, hfed.inStep.notes, hfed.inStep.consistent,
    hfed.inStep.told⟩, hfed.source, hfed.input, hfed.bytes, hfed.overruns⟩

/-- A harness that has looked at all that was noted. -/
def UpToDate (h : Harness) : Prop := h.bench.signals = []

theorem source_of_pollDue {line : Nat} (hdue : h.pollDue = some line) : h.source = some line := by
  unfold pollDue at hdue
  split at hdue
  · exact hdue
  · cases hdue

/-- The source is asked only if there is room for the byte it may give. -/
theorem room_of_pollDue (hfed : Fed polls lost taken h) (hseen : h.UpToDate) {source : Nat}
    (hdue : h.pollDue = some source) : h.machine.uart.pending.length < Uart.capacity := by
  unfold pollDue at hdue
  split at hdue
  · rename_i hcondition
    have hpaused : h.paused = false := by
      simp only [Bool.and_eq_true, Bool.not_eq_true'] at hcondition
      exact hcondition.2
    have htold := hfed.inStep.told
    rw [hseen] at htold
    have hxoff : h.machine.uart.xoff = false :=
      (Signal.ofStopped_injective htold).symm.trans hpaused
    have hconsistent := hfed.inStep.consistent
    refine lt_of_le_of_ne hconsistent.bound ?_
    intro hfull
    have hflag : h.machine.uart.xoff = true := hconsistent.flag.mpr hfull
    rw [hxoff] at hflag
    cases hflag
  · cases hdue

/-! ## Looking at what was noted -/

/-- The harness `h'` is `h` after it has heard some signals, as far as the input is concerned. -/
structure Heard (signals : List Signal) (h h' : Harness) : Prop where
  bench : h'.bench = h.bench
  source : h'.source = h.source
  input : h'.input = h.input
  reads : h'.reads = h.reads
  paused : Signal.ofStopped h'.paused = Signal.latest (.ofStopped h.paused) signals

theorem heard_observe (h : Harness) (n : Note) : Heard n.signal?.toList h (h.observe n) := by
  unfold observe
  split
  · split
    · exact ⟨rfl, rfl, rfl, rfl, rfl⟩
    · exact ⟨rfl, rfl, rfl, rfl, rfl⟩
  · exact ⟨rfl, rfl, rfl, rfl, rfl⟩
  · exact ⟨rfl, rfl, rfl, rfl, rfl⟩
  · rename_i hxon hxoff
    have hnone : n.signal? = none := by
      unfold Note.signal?
      split
      · exact absurd rfl (hxon _)
      · exact absurd rfl (hxoff _)
      · rfl
    rw [hnone]
    exact ⟨rfl, rfl, rfl, rfl, rfl⟩

theorem heard_foldl (notes : List Note) (h : Harness) :
    Heard (notes.filterMap Note.signal?) h (notes.foldl observe h) := by
  induction notes generalizing h with
  | nil => exact ⟨rfl, rfl, rfl, rfl, rfl⟩
  | cons n notes ih =>
    have hfirst := heard_observe h n
    have hrest := ih (h.observe n)
    have hcons : (n :: notes).filterMap Note.signal? =
        n.signal?.toList ++ notes.filterMap Note.signal? := by
      rw [List.filterMap_cons]
      cases n.signal? <;> rfl
    refine ⟨hrest.bench.trans hfirst.bench, hrest.source.trans hfirst.source,
      hrest.input.trans hfirst.input, hrest.reads.trans hfirst.reads, ?_⟩
    rw [hcons, Signal.latest_append, ← hfirst.paused]
    exact hrest.paused

theorem fed_observeAll (hfed : Fed polls lost taken h) :
    Fed polls lost taken h.observeAll ∧ h.observeAll.UpToDate := by
  unfold observeAll
  split
  · rename_i hempty
    have hseen : h.bench.seen = #[] := by simpa using hempty
    refine ⟨hfed, ?_⟩
    unfold UpToDate Bench.signals
    rw [hseen]
    rfl
  · dsimp only [Bench.take]
    rw [← Array.foldl_toList]
    obtain ⟨hbench, hsource, hinput, hreads, hpaused⟩ :=
      heard_foldl h.bench.seen.toList { h with bench := { h.bench with seen := #[] } }
    generalize h.bench.seen.toList.foldl observe { h with bench := { h.bench with seen := #[] } } = h'
      at hbench hsource hinput hreads hpaused
    have hmachine : h'.machine = h.machine := by
      unfold machine
      rw [hbench]
    -- only the flag of the harness has changed, and it now says what the last signal said
    refine ⟨⟨⟨?_, ?_, ?_, ?_⟩, ?_, ?_, ?_, ?_⟩, ?_⟩
    · rw [hbench]
      exact hfed.inStep.wired
    · rw [hbench]
      exact hfed.inStep.notes
    · rw [hbench]
      exact hfed.inStep.consistent
    · rw [hbench]
      exact hpaused.trans hfed.inStep.told
    · rw [hsource, hmachine]
      exact hfed.source
    · rw [hinput, hreads]
      exact hfed.input
    · rw [hreads, hmachine]
      exact hfed.bytes
    · rw [hmachine]
      exact hfed.overruns
    · unfold UpToDate
      rw [hbench]
      rfl

/-! ## Asking the source -/

/-- The harness after it has asked the source, if it is time, and whether the source failed. -/
def polled (h : Harness) : Harness × Bool :=
  match h.pollDue with
  | none => (h, false)
  | some source => h.poll source

theorem turn_eq (h : Harness) :
    h.turn = match h.polled with
      | (h, true) => (h, some .inputFailed)
      | (h, false) => h.advance.judge := by
  unfold turn polled
  cases h.pollDue <;> rfl

/-- What a source gives when it is asked the next time. -/
def answer (polls : List Poll) (n : Nat) : Poll := (polls[n]?).getD .closed

theorem ask_drop (polls : List Poll) (n : Nat) :
    ask (polls.drop n) = (answer polls n, polls.drop (n + 1)) := by
  unfold answer
  rw [← List.head?_drop, ← List.tail_drop]
  cases polls.drop n <;> rfl

theorem bytes_succ (polls : List Poll) (n : Nat) :
    (polls.take (n + 1)).filterMap Poll.byte? =
      (polls.take n).filterMap Poll.byte? ++ (answer polls n).byte?.toList := by
  unfold answer
  rw [List.take_add_one, List.filterMap_append]
  cases polls[n]? with
  | none => rfl
  | some p => cases p <;> rfl

/-- The source was asked and gave no byte. -/
theorem Fed.asked (hfed : Fed polls lost taken h) (hnone : (answer polls h.reads).byte? = none) :
    Fed polls lost taken
      { h with input := some (polls.drop (h.reads + 1)), reads := h.reads + 1 } where
  inStep := hfed.inStep
  source := hfed.source
  input := rfl
  bytes := by
    rw [bytes_succ, hnone, hfed.bytes]
    exact List.append_nil _
  overruns := hfed.overruns

/-- The source was asked and gave a byte, for which there is room. -/
theorem Fed.gave (hfed : Fed polls lost taken h) {b : UInt8}
    (hbyte : answer polls h.reads = .byte b)
    (hroom : h.machine.uart.pending.length < Uart.capacity) {m m' : Machine}
    (hspares : Machine.Spares h.machine m) (hreceived : Machine.Received b m m') :
    Fed polls lost taken { h with
      input := some (polls.drop (h.reads + 1))
      reads := h.reads + 1
      bench := Bench.gather ⟨m', h.bench.instrument, h.bench.seen⟩ } := by
  have hinbox : m'.inbox = h.machine.inbox.receive b := by rw [hreceived.inbox, hspares.inbox]
  have hpending : m'.uart.pending = h.machine.uart.pending ++ [b] :=
    (congrArg Inbox.pending hinbox).trans (Inbox.pending_receive b hroom)
  have hwired : m'.FlowWired :=
    (hspares.wired hfed.inStep.wired).of_shape hreceived.firstLine hreceived.shape
  obtain ⟨hmachine, -⟩ := Bench.gather_spec ⟨m', h.bench.instrument, h.bench.seen⟩
  refine ⟨Bench.inStep_gather hfed.inStep hwired ?_ ?_, ?_, rfl, ?_, ?_⟩
  · rw [hinbox]
    exact Inbox.consistent_receive hfed.inStep.consistent b
  · rw [hinbox]
    exact Inbox.informed_receive (Bench.informed_of_notes hfed.inStep.notes) b
  · intro line hline
    unfold machine
    rw [hmachine]
    exact hfed.carries (hreceived.firstLine.trans hspares.firstLine)
      (hreceived.shape.trans (congrArg Wiring.shape hspares.wiring)) hline
  · unfold machine
    rw [hmachine, bytes_succ, hbyte, hfed.bytes]
    show taken ++ h.machine.uart.pending ++ [b] = taken ++ m'.uart.pending
    rw [hpending, List.append_assoc]
  · unfold machine
    rw [hmachine]
    have hsame : m'.overruns = m.overruns := by
      apply hreceived.overruns
      rw [hspares.uart]
      exact hroom
    exact (hsame.trans hspares.overruns).trans hfed.overruns

theorem fed_polled (hfed : Fed polls lost taken h) (hseen : h.UpToDate) :
    Fed polls lost taken h.polled.1 ∧ h.polled.1.UpToDate := by
  unfold polled
  cases hdue : h.pollDue with
  | none => exact ⟨hfed, hseen⟩
  | some source =>
    have hroom := room_of_pollDue hfed hseen hdue
    have hsource := source_of_pollDue hdue
    dsimp only
    unfold poll
    rw [hfed.input, Option.getD_some, ask_drop]
    dsimp only
    cases hanswer : answer polls h.reads with
    | byte b =>
      have hlog : Machine.Spares h.machine
          (h.machine.log .trace "uart input" [("byte", Core.shownAddress 2 b.toNat)]) :=
        Machine.spares_log _ _ _ (by decide)
      have hline := hfed.source source hsource
      have hreceived := Machine.received_raise_source (hlog.wired hfed.inStep.wired) hline b.toUInt32
      rw [UInt8.toUInt8_toUInt32] at hreceived
      exact fed_observeAll (hfed.gave hanswer hroom hlog hreceived)
    | nothing => exact ⟨hfed.asked (by rw [hanswer]; rfl), hseen⟩
    | failed => exact ⟨hfed.asked (by rw [hanswer]; rfl), hseen⟩
    | closed =>
      have hasked := hfed.asked (by rw [hanswer]; rfl)
      have hact := Bench.spares_act hfed.inStep.notes
        (Machine.spares_log h.machine .debug [] (by decide : "input closed" ≠ Core.overrun))
      exact ⟨hasked.spares ⟨hact, nofun, rfl, rfl, rfl⟩, hact.signals.trans hseen⟩

/-! ## Turns -/

/-- The bytes that the firmware takes in a turn. A core that is held takes no step. -/
def takenInTurn (h : Harness) : List UInt8 :=
  if h.polled.2 || h.polled.1.bench.isHeld then [] else h.polled.1.machine.taken

/-- The bytes that the firmware takes in so many turns. -/
def takenIn : Nat → Harness → List UInt8
  | 0, _ => []
  | n + 1, h =>
    h.takenInTurn ++ match h.turn with
      | (h, none) => takenIn n h
      | (_, some _) => []

theorem spares_hearStop (h : Harness) (reply : Option Gdb.StopReply) :
    Spares h (h.hearStop reply) := by
  cases reply with
  | none => exact spares_of_bench (.refl _)
  | some reason =>
    have hclient : Spares h { h with client := h.client.map fun c => c.hear (.stop reason) } :=
      ⟨.refl _, fun _ hline => hline, rfl, rfl, rfl⟩
    exact hclient.trans (spares_converse _)

/-- A step of the core draws bytes. -/
theorem Fed.drew (hfed : Fed polls lost taken h) {bench : Bench} (hinStep : bench.InStep h.paused)
    (hdrew : Bench.Drew h.bench bench) (steps : Nat) :
    Fed polls lost (taken ++ h.machine.taken) { h with bench, steps } where
  inStep := hinStep
  source := fun line hline => hfed.carries hdrew.firstLine hdrew.shape hline
  input := hfed.input
  bytes := by
    rw [List.append_assoc]
    exact hfed.bytes.trans (congrArg (taken ++ ·) hdrew.pending.symm)
  overruns := hdrew.overruns.trans hfed.overruns

theorem fed_advance (hfed : Fed polls lost taken h) (hseen : h.UpToDate) :
    Fed polls lost (taken ++ if h.bench.isHeld then [] else h.machine.taken) h.advance ∧
      h.advance.UpToDate := by
  unfold advance
  split
  · rw [List.append_nil]
    exact ⟨hfed, hseen⟩
  · obtain ⟨hinStep, hdrew⟩ := Bench.inStep_advance hfed.inStep
    generalize h.bench.advance = result at hinStep hdrew
    obtain ⟨bench, reply⟩ := result
    have hserve := Bench.spares_serve bench
    have hstepped := hfed.drew (hinStep.spares hserve) (hdrew.spares hserve) (h.steps + 1)
    exact fed_observeAll (hstepped.spares (spares_hearStop _ reply))

theorem spares_conclude (hnotes : h.machine.notes = #[]) (reason : Reason) (level : Level)
    {message : String} (values : List (String × Value)) (hmessage : message ≠ Core.overrun) :
    Spares h (h.conclude reason level message values).1 :=
  spares_of_bench (Bench.spares_act hnotes (Machine.spares_log _ _ _ hmessage))

theorem spares_judge (hnotes : h.machine.notes = #[]) : Spares h h.judge.1 := by
  unfold judge
  split
  · exact spares_conclude hnotes _ _ _ (by decide)
  · split
    · exact spares_conclude hnotes _ _ _ (by decide)
    · exact spares_conclude hnotes _ _ _ (by decide)
    · exact spares_of_bench (.refl _)

theorem fed_turn (hfed : Fed polls lost taken h) (hseen : h.UpToDate) :
    Fed polls lost (taken ++ h.takenInTurn) h.turn.1 ∧ h.turn.1.UpToDate := by
  obtain ⟨hpolled, hseen⟩ := fed_polled hfed hseen
  rw [turn_eq]
  unfold takenInTurn
  generalize h.polled = result at hpolled hseen
  obtain ⟨h', failed⟩ := result
  cases failed with
  | true =>
    rw [Bool.true_or, if_pos rfl, List.append_nil]
    exact ⟨hpolled, hseen⟩
  | false =>
    obtain ⟨hadvanced, hseen⟩ := fed_advance hpolled hseen
    have hjudge := spares_judge hadvanced.inStep.notes
    rw [Bool.false_or]
    exact ⟨hadvanced.spares hjudge, hjudge.bench.signals.trans hseen⟩

theorem fed_turns (hfed : Fed polls lost taken h) (hseen : h.UpToDate) (n : Nat) :
    Fed polls lost (taken ++ h.takenIn n) (h.turns n).1 ∧ (h.turns n).1.UpToDate := by
  induction n generalizing h taken with
  | zero =>
    rw [takenIn, List.append_nil]
    exact ⟨hfed, hseen⟩
  | succ n ih =>
    obtain ⟨hturn, hseen⟩ := fed_turn hfed hseen
    unfold turns takenIn
    generalize h.turn = result at hturn hseen
    obtain ⟨h', ending⟩ := result
    cases ending with
    | some ending =>
      rw [List.append_nil]
      exact ⟨hturn, hseen⟩
    | none =>
      rw [← List.append_assoc]
      exact ih hturn hseen

/-! ## Runs -/

theorem machine_finish (h : Harness) : h.finish.machine = h.machine := by
  unfold finish hangUp Bench.onServer machine
  dsimp only
  split
  · rfl
  · rfl

theorem fed_of_wire {config : Config} {journal : Journal}
    (hcreate : create config (some polls) journal = .ok h) {files : Files} {path : String}
    {image : Hex.Image} {loaded : Harness} (hload : h.load files path = .ok (image, loaded))
    {wired : Harness} (hwire : loaded.wire = (.ok (), wired)) :
    Fed polls h.machine.overruns [] wired ∧ wired.UpToDate := by
  obtain ⟨hpristine, hseen, hinput, hreads, hpaused⟩ := of_create_eq_ok hcreate
  obtain ⟨m, hm, rfl⟩ := of_load_eq_ok hload
  have hpristine' : m.Pristine := hpristine.of_spares hm
  obtain ⟨w, hw, rfl⟩ := of_wire_eq_ok (by rw [hinput]; rfl) hwire
  obtain ⟨hwired, hsource⟩ := sourceWired_of_wireFrom hpristine' hw
  have hsignals : h.bench.signals = [] := by
    unfold Bench.signals
    rw [hseen]
    rfl
  have hinbox := hpristine'.inbox
  refine ⟨⟨⟨hwired, hpristine'.notes, ?_, ?_⟩, ?_, ?_, ?_, hm.overruns⟩, hsignals⟩
  · show m.inbox.Consistent
    rw [hinbox]
    exact Inbox.consistent_clear ⟨[], false, []⟩
  · show Signal.latest (.ofStopped h.paused) h.bench.signals = .ofStopped m.uart.xoff
    rw [hpaused, hsignals, hpristine'.uart]
    rfl
  · intro line hline
    cases hline
    exact hsource
  · show h.input = some (polls.drop h.reads)
    rw [hinput, hreads]
    rfl
  · show (polls.take h.reads).filterMap Poll.byte? = [] ++ m.uart.pending
    rw [hreads, hpristine'.uart]
    rfl

/-- However long a run takes and whatever the firmware and a debugger do: the bytes that the source
gave are those that the firmware took and those that wait, in this order. The source is never asked
while the UART is full, and no byte is reported as dropped. -/
theorem input_conserved {config : Config} {polls : List Poll} {journal : Journal} {h : Harness}
    (hcreate : create config (some polls) journal = .ok h) {files : Files} {path : String}
    {image : Hex.Image} {loaded : Harness} (hload : h.load files path = .ok (image, loaded))
    {wired : Harness} (hwire : loaded.wire = (.ok (), wired)) {ready : Harness}
    (hready : ready = wired ∨
      ∃ visitor address, ready = (wired.attachDebugger visitor address).2) (n : Nat) :
    (polls.take (ready.start.turns n).1.reads).filterMap Poll.byte? =
        ready.start.takenIn n ++ (ready.start.turns n).1.machine.uart.pending ∧
      (∀ source, (ready.start.turns n).1.pollDue = some source →
        (ready.start.turns n).1.machine.uart.pending.length < Uart.capacity) ∧
      (ready.start.turns n).1.machine.overruns = h.machine.overruns := by
  obtain ⟨hfed, hseen⟩ := fed_of_wire hcreate hload hwire
  obtain ⟨probed, hspares⟩ : ∃ probed, Spares (wired.probedAs probed) ready := by
    obtain rfl | ⟨visitor, address, rfl⟩ := hready
    · exact ⟨ready.machine.probed, spares_of_bench (.refl _)⟩
    · exact spares_attachDebugger wired visitor address
  have hready := (hfed.probedAs probed).spares hspares
  have hact := Bench.spares_act (f := fun m => m.log .info "running" [m.shownProgram])
    hready.inStep.notes (Machine.spares_log _ _ _ (by decide))
  have hstart : Spares ready ready.start := ⟨hact, fun _ hline => hline, rfl, rfl, rfl⟩
  obtain ⟨hturns, hseen⟩ := fed_turns (hready.spares hstart)
    (hstart.bench.signals.trans (hspares.bench.signals.trans hseen)) n
  exact ⟨hturns.bytes, fun source hdue => room_of_pollDue hturns hseen hdue, hturns.overruns⟩

/-- A firmware that reads the data register over and over. -/
def readerFiles : Files :=
  { entries := [("r.hex", Bytes.ofString ":060000000091C600FDCFD7\n:00000001FF\n")] }

/-- The firmware, wired to a source of one byte. -/
def reader : Option Harness := do
  let h ← (create { mcu := "atmega48" } (some [.byte 65, .nothing]) { threshold := none }).toOption
  let (_, loaded) ← (h.load readerFiles "r.hex").toOption
  match loaded.wire with
  | (.ok (), wired) => some wired
  | _ => none

/-- In the first turn the source is asked for its byte and the firmware takes it. -/
theorem reader_takes_input : ∃ h image loaded wired,
    create { mcu := "atmega48" } (some [.byte 65, .nothing]) { threshold := none } = .ok h ∧
      h.load readerFiles "r.hex" = .ok (image, loaded) ∧ loaded.wire = (.ok (), wired) ∧
      wired.start.takenIn 1 = [65] ∧
      ([Poll.byte 65, .nothing].take (wired.start.turns 1).1.reads).filterMap Poll.byte? =
        wired.start.takenIn 1 ++ (wired.start.turns 1).1.machine.uart.pending := by
  have hreader : reader.map (fun wired => wired.start.takenIn 1) = some [65] := by decide +kernel
  unfold reader at hreader
  cases hcreate :
      create { mcu := "atmega48" } (some [.byte 65, .nothing]) { threshold := none } with
  | error e =>
    rw [hcreate] at hreader
    cases hreader
  | ok h =>
    rw [hcreate] at hreader
    simp only [Except.toOption, Option.bind_eq_bind, Option.bind_some] at hreader
    cases hload : h.load readerFiles "r.hex" with
    | error e =>
      rw [hload] at hreader
      cases hreader
    | ok result =>
      obtain ⟨image, loaded⟩ := result
      rw [hload] at hreader
      simp only [Option.bind_some] at hreader
      split at hreader
      · rename_i wired hwire
        have htaken : wired.start.takenIn 1 = [65] := by simpa using hreader
        have hlaw := input_conserved hcreate hload hwire (.inl rfl) 1
        exact ⟨h, image, loaded, wired, rfl, hload, hwire, htaken, hlaw.1⟩
      · cases hreader

end Harness

end AvrSim
