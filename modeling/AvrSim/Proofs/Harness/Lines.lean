import AvrSim.Harness.Basic
import AvrSim.Proofs.Gdb.Reach

/-!
# The lines of a harness

A harness with a source of bytes puts a recorder on each flow control line, connects the output line to
a recorder of its own and its source to the input line. Creating and loading leave the machine as it was
made as far as the UART can tell, and so does everything that happens until the run begins.

* `Harness.of_create_eq_ok`, `Harness.of_load_eq_ok`: before it is wired, nobody but the UART listens.
* `Harness.plugged_of_wireFrom`: what the lines are like afterwards, and
  `Harness.sourceWired_of_wireFrom` what that means to a source.
* `Harness.spares_attachDebugger`: a debugger may come before the run.
-/

namespace AvrSim

theorem Machine.Pristine.of_spares {m m' : Machine} (hm : m.Pristine) (h : Machine.Spares m m') :
    m'.Pristine := by
  have hline := Machine.lineOf_congr h.firstLine
  constructor
  · rw [hline, h.wiring]
    exact hm.input
  · rw [hline, h.wiring]
    exact hm.output
  · rw [hline, h.wiring]
    exact hm.xon
  · rw [hline, h.wiring]
    exact hm.xoff
  · exact h.uart.trans hm.uart
  · exact h.notes.trans hm.notes

namespace Harness

/-! ## Up to the wiring -/

theorem of_create_eq_ok {config : Config} {input : Option (List Poll)} {journal : Journal}
    {h : Harness} (hcreate : create config input journal = .ok h) :
    h.machine.Pristine ∧ h.bench.seen = #[] ∧ h.input = input ∧ h.reads = 0 ∧ h.paused = false := by
  obtain ⟨m, hm, hcreate⟩ := exists_of_bind_eq_ok hcreate
  cases hcreate
  unfold Machine.createNamed at hm
  split at hm
  · cases hm
  · rename_i model _
    have hnew := mapError_eq_ok_iff.mp hm
    have hfrequency := Machine.spares_state m m.data m.flash m.program m.run config.frequency
      m.codeEnd
    refine ⟨(Machine.pristine_create hnew).of_spares (hfrequency.trans ?_), rfl, rfl, rfl, rfl⟩
    exact Machine.spares_log _ _ _ (by decide)

theorem of_install_eq_ok {m after : Machine} {path : String} {image : Hex.Image}
    (hinstall : install m path image = .ok after) :
    ∃ flash, after = ({ m with flash, program := image.base, codeEnd := m.model.flashEnd } :
      Machine).log .info "firmware loaded"
        [("path", .ofString path), ("base", Core.shownAddress 5 image.base.toNat),
          ("size", .number image.size.toNat)] := by
  unfold install at hinstall
  split at hinstall
  · cases hinstall
  · rename_i stored hstored
    cases hinstall
    unfold Machine.loadFlash at hstored
    split at hstored
    · cases hstored
    · cases hstored
      exact ⟨_, rfl⟩

/-- Loading changes the flash and where the core stands in it. -/
theorem exists_of_load {h loaded : Harness} {files : Files} {path : String} {image : Hex.Image}
    (hload : h.load files path = .ok (image, loaded)) :
    h.expect .load = .ok () ∧ ∃ flash program codeEnd journal, loaded = { h with
      bench := { h.bench with machine := { h.machine with flash, program, codeEnd, journal } }
      phase := .ready } := by
  obtain ⟨_, hexpect, hload⟩ := exists_of_bind_eq_ok hload
  obtain ⟨image', -, hload⟩ := exists_of_bind_eq_ok hload
  obtain ⟨m, hinstall, hload⟩ := exists_of_bind_eq_ok hload
  cases hload
  obtain ⟨flash, rfl⟩ := of_install_eq_ok (mapError_eq_ok_iff.mp hinstall)
  exact ⟨hexpect, flash, _, _, _, rfl⟩

/-- The UART does not notice that a firmware is loaded. -/
theorem of_load_eq_ok {h loaded : Harness} {files : Files} {path : String} {image : Hex.Image}
    (hload : h.load files path = .ok (image, loaded)) :
    ∃ m, Machine.Spares h.machine m ∧
      loaded = { h with bench := { h.bench with machine := m }, phase := .ready } := by
  obtain ⟨-, -, hload⟩ := exists_of_bind_eq_ok hload
  obtain ⟨image', -, hload⟩ := exists_of_bind_eq_ok hload
  obtain ⟨m, hm, hload⟩ := exists_of_bind_eq_ok hload
  cases hload
  refine ⟨m, ?_, rfl⟩
  obtain ⟨flash, rfl⟩ := of_install_eq_ok (mapError_eq_ok_iff.mp hm)
  have hflash := Machine.spares_state h.machine h.machine.data flash image.base h.machine.run
    h.machine.frequency h.machine.model.flashEnd
  exact hflash.trans (Machine.spares_log _ _ _ (by decide))

/-! ## Wiring -/

/-- The new lines that a harness wires. -/
def allocated (m : Machine) (hasInput : Bool) : Wiring Observer :=
  m.wiring.alloc Machine.pool 0 (lineNames hasInput).length (lineNames hasInput)

theorem exists_of_wire {h wired : Harness} (hwire : h.wire = (.ok (), wired)) :
    ∃ w, wireFrom h.machine h.machine.wiring.lines.size h.input.isSome
        (allocated h.machine h.input.isSome) = .ok w ∧
      wired = { h with
        bench := { h.bench with machine := { h.machine with wiring := w } }
        phase := .wired
        source := if h.input.isSome then some (h.machine.wiring.lines.size + 1) else none } := by
  unfold wire at hwire
  split at hwire
  · cases hwire
  · dsimp only at hwire
    split at hwire
    · cases hwire
    · rename_i w hw
      cases hwire
      exact ⟨w, hw, rfl⟩

theorem of_wire_eq_ok {h wired : Harness} (hinput : h.input.isSome = true)
    (hwire : h.wire = (.ok (), wired)) :
    ∃ w, wireFrom h.machine h.machine.wiring.lines.size true
        (h.machine.wiring.alloc Machine.pool 0 2 (lineNames true)) = .ok w ∧
      wired = { h with
        bench := { h.bench with machine := { h.machine with wiring := w } }
        phase := .wired
        source := some (h.machine.wiring.lines.size + 1) } := by
  obtain ⟨w, hw, hwired⟩ := exists_of_wire hwire
  rw [hinput] at hw hwired
  exact ⟨w, hw, hwired⟩

/-- The lines of a machine that a harness has wired: `sink` is where the output goes, and the source, if
there is one, is the line behind it. -/
structure Plugged (m : Machine) (sink : Nat) (hasInput : Bool) : Prop where
  input : m.wiring.Carries (m.lineOf .input) [.receive] []
  output : m.wiring.Carries (m.lineOf .output) [] [sink]
  xon : m.wiring.Carries (m.lineOf .xon) (if hasInput then [.record .xon none] else []) []
  xoff : m.wiring.Carries (m.lineOf .xoff) (if hasInput then [.record .xoff none] else []) []
  heard : m.wiring.Carries sink [.record .sink (some sentinel)] []
  source : hasInput = true → m.wiring.Carries (sink + 1) [] [m.lineOf .input]
  frozen : m.wiring.isFrozen Machine.pool = true

theorem Plugged.of_revalued {m m' : Machine} {sink : Nat} {hasInput : Bool}
    (h : Plugged m sink hasInput) (hfirst : m'.firstLine = m.firstLine)
    (hwiring : Wiring.Revalued m.wiring m'.wiring) : Plugged m' sink hasInput := by
  have hline := Machine.lineOf_congr hfirst
  constructor
  · rw [hline]
    exact h.input.of_shape hwiring.shape
  · rw [hline]
    exact h.output.of_shape hwiring.shape
  · rw [hline]
    exact h.xon.of_shape hwiring.shape
  · rw [hline]
    exact h.xoff.of_shape hwiring.shape
  · exact h.heard.of_shape hwiring.shape
  · intro hinput
    rw [hline]
    exact (h.source hinput).of_shape hwiring.shape
  · unfold Wiring.isFrozen
    rw [hwiring.frozen]
    exact h.frozen

theorem plugged_of_wireFrom {m : Machine} (hm : m.Pristine) {hasInput : Bool} {w : Wiring Observer}
    (hw : wireFrom m m.wiring.lines.size hasInput (allocated m hasInput) = .ok w) :
    Plugged { m with wiring := w } m.wiring.lines.size hasInput := by
  obtain ⟨w₁, hsink, hw⟩ := exists_of_bind_eq_ok hw
  obtain ⟨w₂, houtput, hw⟩ := exists_of_bind_eq_ok hw
  -- the lines of the UART stand before the new ones
  have hold {tag : LineTag} {observers : List Observer} {sinks : List Nat}
      (hline : m.wiring.Carries (m.lineOf tag) observers sinks) :
      m.wiring.lines.size ≠ m.lineOf tag ∧ m.wiring.lines.size + 1 ≠ m.lineOf tag := by
    have hlt := hline.lt_size
    omega
  have hothers {tag : LineTag} {observers : List Observer}
      (hline : m.wiring.Carries (m.lineOf tag) observers []) (hne : .output ≠ tag) :
      w₂.Carries (m.lineOf tag) observers [] :=
    ((hline.alloc Machine.pool 0 _ (lineNames hasInput)).subscribe hsink (hold hline).1).connect
      houtput (m.lineOf_ne hne)
  have houtput' : w₂.Carries (m.lineOf .output) [] [m.wiring.lines.size] :=
    Wiring.carries_connect houtput
      ((hm.output.alloc Machine.pool 0 _ (lineNames hasInput)).subscribe hsink (hold hm.output).1)
  have hsink' : w₂.Carries m.wiring.lines.size [.record .sink (some sentinel)] [] := by
    have hnew : (allocated m hasInput).Carries (m.wiring.lines.size + 0) [] [] :=
      Wiring.carries_alloc m.wiring Machine.pool 0 (by cases hasInput <;> decide) _
    exact (Wiring.carries_subscribe hsink hnew).connect houtput (hold hm.output).1.symm
  cases hasInput with
  | false =>
    obtain rfl : w₂.freeze Machine.pool = w := Except.ok.inj hw
    exact ⟨(hothers hm.input nofun).freeze _, houtput'.freeze _, (hothers hm.xon nofun).freeze _,
      (hothers hm.xoff nofun).freeze _, hsink'.freeze _, nofun, Wiring.isFrozen_freeze _ _⟩
  | true =>
    have hrest : (wireSource m (m.wiring.lines.size + 1) w₂ >>= fun w =>
      pure (w.freeze Machine.pool)) = .ok w := hw
    obtain ⟨w₅, hrest, hfreeze⟩ := exists_of_bind_eq_ok hrest
    obtain ⟨w₃, hsource, hrest⟩ := exists_of_bind_eq_ok hrest
    obtain ⟨w₄, hxon, hxoff⟩ := exists_of_bind_eq_ok hrest
    cases hfreeze
    have hkept {line : Nat} {observers : List Observer} {sinks : List Nat}
        (hline : w₂.Carries line observers sinks) (hnesource : m.wiring.lines.size + 1 ≠ line)
        (hnexon : m.lineOf .xon ≠ line) (hnexoff : m.lineOf .xoff ≠ line) :
        w₅.Carries line observers sinks :=
      ((hline.connect hsource hnesource).subscribe hxon hnexon).subscribe hxoff hnexoff
    have hsource' : w₅.Carries (m.wiring.lines.size + 1) [] [m.lineOf .input] := by
      have hnew : (allocated m true).Carries (m.wiring.lines.size + 1) [] [] :=
        Wiring.carries_alloc m.wiring Machine.pool 0 (by decide) _
      have hline := (hnew.subscribe hsink (by omega)).connect houtput (hold hm.output).2.symm
      exact ((Wiring.carries_connect hsource hline).subscribe hxon (hold hm.xon).2.symm).subscribe
        hxoff (hold hm.xoff).2.symm
    have hxon' : w₅.Carries (m.lineOf .xon) [.record .xon none] [] :=
      (Wiring.carries_subscribe hxon ((hothers hm.xon nofun).connect hsource (hold hm.xon).2)).subscribe
        hxoff (m.lineOf_ne nofun)
    have hxoff' : w₅.Carries (m.lineOf .xoff) [.record .xoff none] [] :=
      Wiring.carries_subscribe hxoff (((hothers hm.xoff nofun).connect hsource
        (hold hm.xoff).2).subscribe hxon (m.lineOf_ne nofun))
    exact {
      input := (hkept (hothers hm.input nofun) (hold hm.input).2 (m.lineOf_ne nofun)
        (m.lineOf_ne nofun)).freeze _
      output := (hkept houtput' (hold hm.output).2 (m.lineOf_ne nofun) (m.lineOf_ne nofun)).freeze _
      xon := hxon'.freeze _
      xoff := hxoff'.freeze _
      heard := (hkept hsink' (by omega) (hold hm.xon).1.symm (hold hm.xoff).1.symm).freeze _
      source := fun _ => hsource'.freeze _
      frozen := Wiring.isFrozen_freeze _ _ }

/-- The lines of a machine with a source, whose line is `source`. -/
structure SourceWired (m : Machine) (source : Nat) : Prop where
  wired : m.FlowWired
  source : m.wiring.Carries source [] [m.lineOf .input]

theorem Plugged.sourceWired {m : Machine} {sink : Nat} (h : Plugged m sink true) :
    SourceWired m (sink + 1) := by
  refine ⟨⟨h.input, h.xon, h.xoff, fun line => line = m.lineOf .output ∨ line = sink, .inl rfl, ?_⟩,
    h.source rfl⟩
  apply Wiring.closed_of_carries
  rintro line (rfl | rfl)
  · refine ⟨[], _, h.output, nofun, ?_⟩
    intro sink hmem
    exact .inr (List.mem_singleton.mp hmem)
  · refine ⟨_, [], h.heard, ?_, nofun⟩
    intro observer hmem
    exact ⟨.sink, some sentinel, List.mem_singleton.mp hmem, nofun, nofun⟩

theorem sourceWired_of_wireFrom {m : Machine} (hm : m.Pristine) {w : Wiring Observer}
    (hw : wireFrom m m.wiring.lines.size true
      (m.wiring.alloc Machine.pool 0 2 (lineNames true)) = .ok w) :
    SourceWired { m with wiring := w } (m.wiring.lines.size + 1) :=
  (plugged_of_wireFrom hm hw : Plugged _ _ true).sourceWired

/-! ## Debuggers -/

/-- The harness `h'` differs from `h` in nothing that matters to its input, except that the source may
be closed. -/
structure Spares (h h' : Harness) : Prop where
  bench : Bench.Spares h.bench h'.bench
  source : ∀ line, h'.source = some line → h.source = some line
  input : h'.input = h.input
  reads : h'.reads = h.reads
  paused : h'.paused = h.paused

/-- A harness on another bench. -/
theorem spares_of_bench {h : Harness} {bench : Bench} (hbench : Bench.Spares h.bench bench) :
    Spares h { h with bench } :=
  ⟨hbench, fun _ hline => hline, rfl, rfl, rfl⟩

theorem Spares.trans {h h' h'' : Harness} (hfirst : Spares h h') (hsecond : Spares h' h'') :
    Spares h h'' where
  bench := hfirst.bench.trans hsecond.bench
  source := fun line hline => hfirst.source line (hsecond.source line hline)
  input := hsecond.input.trans hfirst.input
  reads := hsecond.reads.trans hfirst.reads
  paused := hsecond.paused.trans hfirst.paused

theorem spares_converse (h : Harness) : Spares h h.converse := by
  unfold converse
  split
  · exact spares_of_bench (.refl _)
  · exact ⟨Bench.spares_converse _ _, fun _ hline => hline, rfl, rfl, rfl⟩

theorem spares_await (m : Machine) (address : String) :
    Machine.Spares m (Gdb.Server.await m address) :=
  (Machine.spares_log m _ _ (by decide)).trans (Machine.spares_run _ _)

/-- The harness with an instrument at its machine, or without. -/
def probedAs (h : Harness) (probed : Bool) : Harness :=
  { h with bench := { h.bench with machine := { h.machine with probed } } }

/-- Whoever comes, the UART does not notice. -/
theorem spares_attachDebugger (h : Harness) (visitor : Visitor) (address : String) :
    ∃ probed, Spares (h.probedAs probed) (h.attachDebugger visitor address).2 := by
  have hrefuse : Bench.Spares (h.probedAs true).bench (h.bench.refuse {} address) :=
    ⟨spares_await _ address, rfl⟩
  have hattach : Bench.Spares (h.probedAs true).bench (h.bench.attach {} address) :=
    ⟨(spares_await _ address).trans (Machine.spares_log _ _ _ (by decide)), rfl⟩
  unfold attachDebugger
  split
  · exact ⟨h.machine.probed, spares_of_bench (.refl _)⟩
  · dsimp only
    split
    · rename_i script
      have hclient : Spares (h.probedAs true) { h with
          phase := .waitingForDebugger, bench := h.bench.attach {} address
          client := some { script } } :=
        ⟨hattach, fun _ hline => hline, rfl, rfl, rfl⟩
      exact ⟨true, hclient.trans (spares_converse _)⟩
    · exact ⟨true, hrefuse, fun _ hline => hline, rfl, rfl, rfl⟩
    · split
      · exact ⟨h.machine.probed, spares_of_bench (.refl _)⟩
      · exact ⟨true, hrefuse, fun _ hline => hline, rfl, rfl, rfl⟩

end Harness

end AvrSim
