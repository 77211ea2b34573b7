import AvrSim.Proofs.Uart.Reception

/-!
# Flow control tells the truth between resets

The sender of a UART hears nothing but the signals on two lines. They are truthful if the last of them
is a stop exactly while the queue is full, and if stops and starts alternate from a first stop on. Bytes
that arrive and bytes that the firmware reads keep this up. A reset empties the queue and takes the stop
back without a word, so the law begins anew at every reset; over a whole history it holds exactly if no
reset ever met a full queue.

* `Machine.act_cases`: what any of the operations does to the receiving side.
* `Machine.truthful_iff`: the law since the last reset, and the law from the beginning.
* `Machine.reset_withholds_xon`: a full queue that is reset.
-/

namespace AvrSim

/-- What a sender was told from the beginning fits the queue: the last signal is a stop exactly if the
queue is full, and the signals alternate, beginning with a stop. -/
def Signal.Truthful (signals : List Signal) (pending : List UInt8) : Prop :=
  (latest .xon signals = .xoff ↔ pending.length = Uart.capacity) ∧ Alternating .xon signals

namespace Machine

/-! ## Operations -/

/-- What can happen to the receiving side: a value is raised on the input line, the firmware reads the
data register, it takes a whole step of any kind, or the machine is reset. -/
inductive Act
  | raise (value : UInt32)
  | read
  | step
  | reset
  deriving DecidableEq, Repr

/-- The machine after an operation. -/
def act (m : Machine) : Act → Machine
  | .raise value => m.raise (m.lineOf .input) value
  | .read => (m.read (UInt16.ofNat (m.uartAddress udr))).2
  | .step => m.step
  | .reset => m.reset

/-- The machine after several operations. -/
def afterActs (m : Machine) (acts : List Act) : Machine := acts.foldl act m

/-- A new machine with a recorder on each of its flow control lines. -/
def monitored (model : Model) (w : Wiring Observer) (journal : Journal) :
    Except WiringError Machine := do
  let m ← create model w journal
  let w ← m.wiring.subscribe pool (m.lineOf .xon) (.record .xon none)
  let w ← w.subscribe pool (m.lineOf .xoff) (.record .xoff none)
  return { m with wiring := w }

theorem inbox_reset (m : Machine) : m.reset.inbox = m.inbox.clear := by
  unfold reset
  rfl

/-- Every operation is one of the three that an inbox knows. -/
theorem act_cases {m : Machine} (hm : m.FlowWired) (a : Act) :
    (m.act a).FlowWired ∧
      ((a ≠ .reset ∧ ∃ b, (m.act a).inbox = m.inbox.receive b) ∨
        (a ≠ .reset ∧ ∃ n, (m.act a).inbox = (m.inbox.popAll n).2) ∨
        (a = .reset ∧ (m.act a).inbox = m.inbox.clear)) := by
  cases a with
  | raise value =>
    have hreceived := received_raise_input hm value
    exact ⟨hm.of_shape hreceived.firstLine hreceived.shape,
      .inl ⟨nofun, value.toUInt8, hreceived.inbox⟩⟩
  | read =>
    obtain ⟨n, hpopped⟩ := popped_read hm (UInt16.ofNat (m.uartAddress udr))
    exact ⟨hpopped.wired hm, .inr (.inl ⟨nofun, n, hpopped.inbox⟩)⟩
  | step =>
    obtain ⟨n, hpopped⟩ := popped_tick hm
    exact ⟨hpopped.wired hm, .inr (.inl ⟨nofun, n, hpopped.inbox⟩)⟩
  | reset =>
    have hfirst : m.reset.firstLine = m.firstLine := by simp only [reset]
    have hshape : m.reset.wiring.shape = m.wiring.shape := by simp only [reset]
    exact ⟨hm.of_shape hfirst hshape, .inr (.inr ⟨rfl, inbox_reset m⟩)⟩

theorem consistent_act {m : Machine} (hm : m.FlowWired) (h : m.inbox.Consistent) (a : Act) :
    (m.act a).inbox.Consistent := by
  obtain ⟨-, ⟨-, b, hinbox⟩ | ⟨-, n, hinbox⟩ | ⟨-, hinbox⟩⟩ := act_cases hm a
  · rw [hinbox]
    exact Inbox.consistent_receive h b
  · rw [hinbox]
    exact Inbox.consistent_popAll h n
  · rw [hinbox]
    exact Inbox.consistent_clear _

theorem informed_act {m : Machine} (hm : m.FlowWired) {past : List Signal} {before : Signal}
    (h : m.inbox.Informed past before) {a : Act} (ha : a ≠ .reset) :
    (m.act a).inbox.Informed past before := by
  obtain ⟨-, ⟨-, b, hinbox⟩ | ⟨-, n, hinbox⟩ | ⟨hreset, -⟩⟩ := act_cases hm a
  · rw [hinbox]
    exact Inbox.informed_receive h b
  · rw [hinbox]
    exact Inbox.informed_popAll h n
  · exact absurd hreset ha

/-- The one operation that can leave the sender misinformed. -/
theorem informed_act_iff {m : Machine} (hm : m.FlowWired) {past : List Signal} {before : Signal}
    (hconsistent : m.inbox.Consistent) (h : m.inbox.Informed past before) (a : Act) :
    (m.act a).inbox.Informed past before ↔
      ¬ (a = .reset ∧ m.uart.pending.length = Uart.capacity) := by
  by_cases ha : a = .reset
  · subst ha
    have hclear : (m.act .reset).inbox = m.inbox.clear := inbox_reset m
    have hflag : m.uart.xoff = true ↔ m.uart.pending.length = Uart.capacity := hconsistent.flag
    rw [hclear, Inbox.informed_clear_iff h, ← hflag]
    simp [Core.inbox]
  · exact iff_of_true (informed_act hm h ha) fun hreset => ha hreset.1

/-! ## Runs -/

/-- What every operation keeps, whatever came before. -/
structure Attuned (m : Machine) : Prop where
  wired : m.FlowWired
  consistent : m.inbox.Consistent

theorem attuned_act {m : Machine} (h : m.Attuned) (a : Act) : (m.act a).Attuned :=
  ⟨(act_cases h.wired a).1, consistent_act h.wired h.consistent a⟩

theorem attuned_afterActs {m : Machine} (h : m.Attuned) (acts : List Act) :
    (m.afterActs acts).Attuned := by
  induction acts generalizing m with
  | nil => exact h
  | cons a rest ih => exact ih (attuned_act h a)

theorem informed_afterActs {m : Machine} (h : m.Attuned) {past : List Signal} {before : Signal}
    (hinformed : m.inbox.Informed past before) {acts : List Act} (hacts : .reset ∉ acts) :
    (m.afterActs acts).inbox.Informed past before := by
  induction acts generalizing m with
  | nil => exact hinformed
  | cons a rest ih =>
    obtain ⟨ha, hrest⟩ := not_or.mp (mt List.mem_cons.mpr hacts)
    exact ih (attuned_act h a) (informed_act h.wired hinformed (Ne.symm ha)) hrest

theorem informed_iff_truthful {m : Machine} (h : m.Attuned) :
    m.inbox.Informed [] .xon ↔ Signal.Truthful m.signals m.uart.pending := by
  have hflag : m.uart.xoff = true ↔ m.uart.pending.length = Uart.capacity := h.consistent.flag
  unfold Inbox.Informed Signal.Truthful
  constructor
  · rintro ⟨new, hsignals, hlatest, halternating⟩
    have hnew : m.signals = new := hsignals
    rw [hnew, ← hflag]
    exact ⟨hlatest, halternating⟩
  · rintro ⟨hlatest, halternating⟩
    exact ⟨m.signals, rfl, hlatest.trans hflag.symm, halternating⟩

theorem informed_always_iff {m : Machine} (h : m.Attuned) {past : List Signal} {before : Signal}
    (hinformed : m.inbox.Informed past before) (acts : List Act) :
    (∀ k, (m.afterActs (acts.take k)).inbox.Informed past before) ↔
      ∀ k, acts[k]? = some .reset →
        (m.afterActs (acts.take k)).uart.pending.length ≠ Uart.capacity := by
  induction acts generalizing m with
  | nil => simp [afterActs, hinformed]
  | cons a rest ih =>
    have hstep := informed_act_iff h.wired h.consistent hinformed a
    constructor
    · intro halways k hreset
      have hnext : (m.act a).inbox.Informed past before := halways 1
      cases k with
      | zero =>
        cases hreset
        exact fun hfull => hstep.mp hnext ⟨rfl, hfull⟩
      | succ k => exact (ih (attuned_act h a) hnext).mp (fun k => halways (k + 1)) k hreset
    · intro hresets k
      have hnext : (m.act a).inbox.Informed past before := by
        apply hstep.mpr
        rintro ⟨rfl, hfull⟩
        exact hresets 0 rfl hfull
      cases k with
      | zero => exact hinformed
      | succ k => exact (ih (attuned_act h a) hnext).mpr (fun k => hresets (k + 1)) k

/-! ## New machines -/

theorem attuned_monitored {model : Model} {w : Wiring Observer} {journal : Journal} {m : Machine}
    (hm : monitored model w journal = .ok m) :
    m.Attuned ∧ m.uart.xoff = false ∧ m.signals = [] := by
  obtain ⟨new, hcreate, hm⟩ := exists_of_bind_eq_ok hm
  obtain ⟨w₁, hfirst, hm⟩ := exists_of_bind_eq_ok hm
  obtain ⟨w₂, hsecond, hm⟩ := exists_of_bind_eq_ok hm
  cases hm
  have hpristine := pristine_create hcreate
  have hkept {tag : LineTag} {observers : List Observer} {sinks : List Nat}
      (hline : new.wiring.Carries (new.lineOf tag) observers sinks) (hon : .xon ≠ tag)
      (hoff : .xoff ≠ tag) : w₂.Carries (new.lineOf tag) observers sinks :=
    (hline.subscribe hfirst (lineOf_ne _ hon)).subscribe hsecond (lineOf_ne _ hoff)
  refine ⟨⟨⟨?_, ?_, ?_, (· = new.lineOf .output), rfl, ?_⟩, ?_⟩, ?_, ?_⟩
  · exact hkept hpristine.input nofun nofun
  · exact (Wiring.carries_subscribe hfirst hpristine.xon).subscribe hsecond (lineOf_ne _ nofun)
  · exact Wiring.carries_subscribe hsecond (hpristine.xoff.subscribe hfirst (lineOf_ne _ nofun))
  · apply Wiring.closed_of_carries
    rintro line rfl
    exact ⟨[], [], hkept hpristine.output nofun nofun, nofun, nofun⟩
  · show new.inbox.Consistent
    rw [hpristine.inbox]
    exact Inbox.consistent_clear ⟨[], false, []⟩
  · exact congrArg Uart.xoff hpristine.uart
  · exact congrArg Inbox.signals hpristine.inbox

/-- A queue that is not full may be the beginning of a new account. -/
theorem informed_afresh {i : Inbox} (h : i.xoff = false) : i.Informed i.signals .xon := by
  refine ⟨[], (List.append_nil _).symm, ?_, List.isChain_singleton _⟩
  rw [h]
  decide

/-- A queue is filled and emptied by a reset. -/
def filledAndReset : List Act := .replicate Uart.capacity (.raise 65) ++ [.reset]

theorem exists_monitored :
    ∃ m, monitored .atmega48 {} { threshold := none } = .ok m ∧
      (m.afterActs filledAndReset).signals = [.xoff] ∧
      (m.afterActs filledAndReset).uart.pending = [] := by
  have hafter : (monitored .atmega48 {} { threshold := none }).toOption.map (fun m =>
      ((m.afterActs filledAndReset).signals, (m.afterActs filledAndReset).uart.pending)) =
      some ([.xoff], []) := by decide +kernel
  cases hm : monitored .atmega48 {} { threshold := none } with
  | error e =>
    rw [hm] at hafter
    cases hafter
  | ok m =>
    rw [hm] at hafter
    simp only [Except.toOption, Option.map_some, Option.some.injEq, Prod.mk.injEq] at hafter
    exact ⟨m, rfl, hafter⟩

/-! ## The law -/

/-- Signals are truthful at every point of a history exactly if no reset meets a full queue, and the
signals since the last reset always are. -/
theorem truthful_iff {model : Model} {w : Wiring Observer} {journal : Journal} {m : Machine}
    (hm : monitored model w journal = .ok m) (acts : List Act) :
    ((∀ k, Signal.Truthful (m.afterActs (acts.take k)).signals
        (m.afterActs (acts.take k)).uart.pending) ↔
      ∀ k, acts[k]? = some .reset →
        (m.afterActs (acts.take k)).uart.pending.length ≠ Uart.capacity) ∧
    ∀ early late, acts = early ++ late → (early = [] ∨ early.getLast? = some .reset) →
      .reset ∉ late → ∃ since,
        (m.afterActs acts).signals = (m.afterActs early).signals ++ since ∧
        Signal.Truthful since (m.afterActs acts).uart.pending := by
  obtain ⟨hattuned, hxoff, hsignals⟩ := attuned_monitored hm
  constructor
  · have hinformed : m.inbox.Informed [] .xon := by
      have hafresh := informed_afresh (show m.inbox.xoff = false from hxoff)
      rwa [show m.inbox.signals = [] from hsignals] at hafresh
    rw [← informed_always_iff hattuned hinformed acts]
    exact forall_congr' fun k => (informed_iff_truthful (attuned_afterActs hattuned _)).symm
  · rintro early late rfl hearly hlate
    have hafter : m.afterActs (early ++ late) = (m.afterActs early).afterActs late :=
      List.foldl_append
    -- in the beginning and after a reset the flag is down, so the account may begin anew there
    have hstart : (m.afterActs early).inbox.xoff = false := by
      obtain rfl | hlast := hearly
      · exact hxoff
      · obtain ⟨before, rfl⟩ := List.getLast?_eq_some_iff.mp hlast
        have hreset : m.afterActs (before ++ [.reset]) = (m.afterActs before).reset :=
          List.foldl_append
        rw [hreset]
        rfl
    have hat := attuned_afterActs hattuned early
    obtain ⟨since, hsince, hlatest, halternating⟩ :=
      informed_afterActs hat (informed_afresh hstart) hlate
    have hflag := (attuned_afterActs hat late).consistent.flag
    rw [hafter]
    exact ⟨since, hsince, hlatest.trans hflag, halternating⟩

/-- After a queue was filled and reset, and a byte received and read, the sender was told right since
the reset. -/
theorem truthful_since_reset :
    ∃ m, monitored .atmega48 {} { threshold := none } = .ok m ∧
      ∃ since, (m.afterActs (filledAndReset ++ [.raise 66, .read])).signals =
          (m.afterActs filledAndReset).signals ++ since ∧
        Signal.Truthful since
          (m.afterActs (filledAndReset ++ [.raise 66, .read])).uart.pending := by
  obtain ⟨m, hm, -⟩ := exists_monitored
  have hlast : filledAndReset.getLast? = some .reset := by decide
  have hlaw := (truthful_iff hm (filledAndReset ++ [.raise 66, .read])).2
  exact ⟨m, hm, hlaw filledAndReset [.raise 66, .read] rfl (.inr hlast) (by decide)⟩

/-- A reset of a full queue leaves the sender stopped. -/
theorem reset_withholds_xon :
    ∃ m, monitored .atmega48 {} { threshold := none } = .ok m ∧
      ¬ Signal.Truthful (m.afterActs filledAndReset).signals
        (m.afterActs filledAndReset).uart.pending := by
  obtain ⟨m, hm, hsignals, hpending⟩ := exists_monitored
  refine ⟨m, hm, ?_⟩
  rw [hsignals, hpending]
  rintro ⟨hlatest, -⟩
  exact absurd (hlatest.mp rfl) (by decide)

end Machine

end AvrSim
