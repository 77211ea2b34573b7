import AvrSim.Proofs.Gdb.Turn

/-!
# Watchpoints that are told late

A server is told of each access and remembers the first one that a watchpoint looks for. The step that
made the access then ends with a stop, unless the core slept: the two bytes that an interrupt pushes when
it wakes the core are watched, too, but there is no turn, and the stop comes one step late.

* `Gdb.FirstHit`: the first access of a step that is watched, with the first watchpoint that looks for
  it. `Bench.pending_watch` shows that this is what the server remembers.
* `Bench.watch_stops_iff`: a watched access stops its step exactly if the core was awake, and without a
  watched access there is no word of one.
-/

namespace AvrSim

/-! ## Accesses -/

/-- An access to the data space. -/
structure BusAccess where
  address : UInt16
  isWrite : Bool
  deriving DecidableEq

/-- The access that a note is about. -/
def Note.access? : Note → Option BusAccess
  | .read address _ => some ⟨address, false⟩
  | .write address _ => some ⟨address, true⟩
  | _ => none

/-- The accesses that are noted when the next step has been taken, in their order. -/
def Machine.accesses (m : Machine) : List BusAccess :=
  m.tick.1.notes.toList.filterMap Note.access?

namespace Gdb

/-! ## Hits -/

/-- The access lies in the range of the watchpoint and is of its kind. -/
structure Watchpoint.LooksFor (w : Watchpoint) (x : BusAccess) : Prop where
  above : w.address.toNat ≤ x.address.toNat
  below : x.address.toNat < w.address.toNat + w.size.toNat
  kind : w.kind = .access ∨ w.kind = if x.isWrite then .write else .read

theorem Watchpoint.contains_iff (w : Watchpoint) (address : UInt16) :
    w.contains address = true ↔
      w.address.toNat ≤ address.toNat ∧ address.toNat < w.address.toNat + w.size.toNat := by
  simp only [contains, Bool.and_eq_true, decide_eq_true_eq, UInt16.le_iff_toNat_le,
    UInt16.lt_iff_toNat_lt]
  constructor
  · rintro ⟨habove, hbelow⟩
    rw [UInt16.toNat_sub_of_le _ _ (UInt16.le_iff_toNat_le.mpr habove)] at hbelow
    omega
  · rintro ⟨habove, hbelow⟩
    rw [UInt16.toNat_sub_of_le _ _ (UInt16.le_iff_toNat_le.mpr habove)]
    omega

theorem WatchKind.covers_iff (kind : WatchKind) (isWrite : Bool) :
    kind.covers isWrite = true ↔ kind = .access ∨ kind = if isWrite then .write else .read := by
  cases kind <;> cases isWrite <;> simp [covers]

theorem Watchpoint.looksFor_iff (w : Watchpoint) (x : BusAccess) :
    (w.contains x.address && w.kind.covers x.isWrite) = true ↔ w.LooksFor x := by
  rw [Bool.and_eq_true, w.contains_iff, w.kind.covers_iff]
  constructor
  · rintro ⟨⟨habove, hbelow⟩, hkind⟩
    exact ⟨habove, hbelow, hkind⟩
  · intro h
    exact ⟨⟨h.above, h.below⟩, h.kind⟩

/-- The first access that is watched and the first watchpoint that looks for it. -/
structure FirstHit (watchpoints : List Watchpoint) (accesses : List BusAccess) where
  before : List BusAccess
  access : BusAccess
  after : List BusAccess
  passed : List Watchpoint
  watchpoint : Watchpoint
  others : List Watchpoint
  accesses_eq : accesses = before ++ access :: after
  watchpoints_eq : watchpoints = passed ++ watchpoint :: others
  looksFor : watchpoint.LooksFor access
  unwatched : ∀ x ∈ before, ∀ w ∈ watchpoints, ¬ w.LooksFor x
  unmatched : ∀ w ∈ passed, ¬ w.LooksFor access

/-- What the client is told of a hit. -/
def FirstHit.reply {watchpoints : List Watchpoint} {accesses : List BusAccess}
    (hit : FirstHit watchpoints accesses) : StopReply :=
  .watch hit.watchpoint.kind hit.access.address

/-- What the client is told of an access, if it is watched. -/
def Points.hit? (points : Points) (x : BusAccess) : Option StopReply :=
  (points.watching? x.address x.isWrite).map fun w => .watch w.kind x.address

theorem Points.hit?_eq_none {points : Points} {x : BusAccess}
    (h : ∀ w ∈ points.watchpoints, ¬ w.LooksFor x) : points.hit? x = none := by
  apply Option.map_eq_none_iff.mpr
  apply List.find?_eq_none.mpr
  intro w hw
  rw [w.looksFor_iff]
  exact h w hw

theorem FirstHit.findSome?_eq {points : Points} {accesses : List BusAccess}
    (hit : FirstHit points.watchpoints accesses) :
    accesses.findSome? points.hit? = some hit.reply := by
  apply List.findSome?_eq_some_iff.mpr
  refine ⟨hit.before, hit.access, hit.after, hit.accesses_eq, ?_, ?_⟩
  · apply Option.map_eq_some_iff.mpr
    refine ⟨hit.watchpoint, ?_, rfl⟩
    apply List.find?_eq_some_iff_append.mpr
    refine ⟨(hit.watchpoint.looksFor_iff hit.access).mpr hit.looksFor, hit.passed, hit.others,
      hit.watchpoints_eq, ?_⟩
    intro w hw
    rw [Bool.not_eq_true', Bool.eq_false_iff, ne_eq, w.looksFor_iff]
    exact hit.unmatched w hw
  · intro x hx
    exact Points.hit?_eq_none (hit.unwatched x hx)

/-- What is told of an access is a first hit. -/
theorem exists_firstHit {points : Points} {accesses : List BusAccess} {reply : StopReply}
    (h : accesses.findSome? points.hit? = some reply) :
    ∃ hit : FirstHit points.watchpoints accesses, hit.reply = reply := by
  obtain ⟨before, access, after, haccesses, hhit, hbefore⟩ := List.findSome?_eq_some_iff.mp h
  obtain ⟨w, hw, hreply⟩ := Option.map_eq_some_iff.mp hhit
  obtain ⟨hlooks, passed, others, hwatchpoints, hpassed⟩ := List.find?_eq_some_iff_append.mp hw
  refine ⟨⟨before, access, after, passed, w, others, haccesses, hwatchpoints,
    (w.looksFor_iff access).mp hlooks, ?_, ?_⟩, hreply⟩
  · intro x hx w' hw' hlooks'
    have hnone := Option.map_eq_none_iff.mp (hbefore x hx)
    exact List.find?_eq_none.mp hnone w' hw' ((w'.looksFor_iff x).mpr hlooks')
  · intro w' hw' hlooks'
    have hnot := hpassed w' hw'
    rw [(w'.looksFor_iff access).mpr hlooks'] at hnot
    cases hnot

end Gdb

namespace Bench

variable {s : Gdb.Server}

/-! ## What the server remembers -/

theorem watch_eq (hclient : s.connection.isSome) (hpending : s.pending = none) (n : Note) :
    watch s n = { s with pending := n.access?.bind s.points.hit? } := by
  have hsame : ({ s with pending := none } : Gdb.Server) = s := by rw [← hpending]
  cases n with
  | read address value => simp [watch, Gdb.Server.watch, Note.access?, Gdb.Points.hit?, *]
  | write address value => simp [watch, Gdb.Server.watch, Note.access?, Gdb.Points.hit?, *]
  | line tag value => exact hsame.symm
  | step state => exact hsame.symm

theorem pending_watch_list (hclient : s.connection.isSome) (hpending : s.pending = none)
    (notes : List Note) :
    (notes.foldl watch s).pending = (notes.filterMap Note.access?).findSome? s.points.hit? := by
  induction notes with
  | nil => exact hpending
  | cons n notes ih =>
    rw [List.foldl_cons, watch_eq hclient hpending]
    cases hhit : n.access?.bind s.points.hit? with
    | none =>
      have hsame : ({ s with pending := none } : Gdb.Server) = s := by rw [← hpending]
      rw [hsame, ih]
      cases haccess : n.access? with
      | none => simp [haccess]
      | some x =>
        rw [haccess] at hhit
        have hnone : s.points.hit? x = none := hhit
        simp [haccess, hnone]
    | some reply =>
      -- with a stop pending no later access is looked at
      obtain ⟨x, haccess, hreply⟩ := Option.bind_eq_some_iff.mp hhit
      rw [(Gdb.Server.keeps_watch_list { s with pending := some reply } notes).pending reply rfl]
      simp [haccess, hreply]

/-- A server with no stop pending remembers the first access of a step that is watched. -/
theorem pending_watch (hclient : s.connection.isSome) (hpending : s.pending = none) (m : Machine) :
    (m.tick.1.notes.foldl watch s).pending = m.accesses.findSome? s.points.hit? := by
  rw [← Array.foldl_toList]
  exact pending_watch_list hclient hpending m.tick.1.notes.toList

/-! ## Steps -/

/-- A stop that is pending is told in the server's next turn. -/
theorem stops_of_expects {b : Bench} {reply : Gdb.StopReply} (h : Expects s b)
    (hclient : s.connection.isSome) (hpending : s.pending = some reply)
    (hawake : b.machine.run ≠ .sleeping) (hends : b.advance.1.machine.run.isTerminal = false) :
    b.Stops reply := by
  obtain ⟨s', hs', hkeeps⟩ := h.server
  obtain ⟨m, instrument, seen⟩ := b
  obtain rfl : instrument = .server s' := hs'
  have hkeeps' := hkeeps.trans (Gdb.Server.keeps_watch_foldl s' m.tick.1.notes)
  obtain ⟨c, hc⟩ := Option.isSome_iff_exists.mp hclient
  obtain ⟨c', hc', -⟩ := hkeeps'.queue c hc
  have hclient' := Option.isSome_iff_exists.mpr ⟨c', hc'⟩
  apply stops_of_halts (due_of_advance h.probed hawake hends)
  rw [Gdb.Server.attend_of_pending hclient' (hkeeps'.pending reply hpending)]
  exact Gdb.Server.halts_stop hclient' reply

theorem advance_free_of_sleeping {m : Machine} (hsleeping : m.run = .sleeping) (c : Gdb.Connection) :
    (free m s c).advance = (⟨m.instrumented.tick.1.quiet,
      .server (m.instrumented.tick.1.notes.foldl watch (s.toward c)),
      #[] ++ m.instrumented.tick.1.notes.filter isPublic⟩, none) := by
  have htick := Machine.tick_of_sleeping (m := m.instrumented) hsleeping
  unfold free
  rw [advance_server, if_neg (by simp [htick])]

theorem step_free_of_sleeping {m : Machine} (hsleeping : m.run = .sleeping) (c : Gdb.Connection) :
    (free m s c).step = (free m s c).advance.1 := by
  rw [step_of_free rfl]
  exact serve_of_free (isHeld_advance_of_sleeping rfl hsleeping)

/-- A core that makes an access in its sleep has been woken. -/
theorem run_tick_of_sleeping {m : Machine} (hsleeping : m.run = .sleeping)
    (haccess : m.instrumented.accesses ≠ []) : m.instrumented.tick.1.run = .running := by
  unfold Machine.accesses at haccess
  rw [Machine.tick_of_sleeping (m := m.instrumented) hsleeping, Machine.serviceInterrupts_eq]
    at haccess ⊢
  dsimp only at haccess ⊢
  split
  · rfl
  · -- with no interrupt due the step has nothing to access
    rename_i hdue
    rw [hdue] at haccess
    exact absurd rfl haccess

section Hit

variable {m : Machine} {c : Gdb.Connection}
  (hit : Gdb.FirstHit s.points.watchpoints m.instrumented.accesses)

/-- A step that is taken awake and does not end the run stops at its first hit. -/
theorem stops_of_hit (hpending : s.pending = none) (hawake : m.run ≠ .sleeping)
    (hends : (free m s c).advance.1.machine.run.isTerminal = false) :
    (free m s c).Stops hit.reply := by
  have hremembered :=
    (pending_watch (s := s.toward c) rfl hpending m.instrumented).trans hit.findSome?_eq
  have hclient := (watch_foldl m.instrumented.tick.1.notes (s.toward c)).1
  have hclient' := Option.isSome_iff_exists.mpr ⟨c, hclient⟩
  have hdue : m.instrumented.tick.2 = true :=
    due_of_advance (m := m.instrumented) rfl hawake hends
  apply stops_of_halts hdue
  rw [Gdb.Server.attend_of_pending hclient' hremembered]
  exact Gdb.Server.halts_stop hclient' hit.reply

/-- The first hit of a step that is taken asleep waits for the server's next turn. -/
theorem stops_after_hit (hpending : s.pending = none) (hsleeping : m.run = .sleeping)
    {events : List Event} (hidle : (free m s c).step.idles events = true)
    (hawake : ((free m s c).step.after events).machine.run ≠ .sleeping)
    (hends : ((free m s c).step.after events).advance.1.machine.run.isTerminal = false) :
    ((free m s c).step.after events).Stops hit.reply := by
  have hremembered :=
    (pending_watch (s := s.toward c) rfl hpending m.instrumented).trans hit.findSome?_eq
  obtain ⟨hclient, hheld⟩ := watch_foldl m.instrumented.tick.1.notes (s.toward c)
  have hclient' := Option.isSome_iff_exists.mpr ⟨c, hclient⟩
  have hexpects : Expects (m.instrumented.tick.1.notes.foldl watch (s.toward c))
      (free m s c).step := by
    refine ⟨⟨_, ?_, .refl _⟩, (server_next (b := free m s c) ⟨_, rfl⟩ rfl .step).2⟩
    rw [step_free_of_sleeping hsleeping, advance_free_of_sleeping hsleeping]
  exact stops_of_expects (expects_after hexpects hheld hidle) hclient' hremembered hawake hends

end Hit

/-- Without a watched access the client is not told of one. -/
theorem advance_ne_watch {m : Machine} {c : Gdb.Connection} (hpending : s.pending = none)
    (hunwatched : ∀ x ∈ m.instrumented.accesses, ∀ w ∈ s.points.watchpoints, ¬ w.LooksFor x)
    (kind : Gdb.WatchKind) (address : UInt16) :
    (free m s c).advance.2 ≠ some (.watch kind address) := by
  have hnone : m.instrumented.accesses.findSome? s.points.hit? = none := by
    apply List.findSome?_eq_none_iff.mpr
    intro x hx
    exact Gdb.Points.hit?_eq_none (hunwatched x hx)
  have hremembered := (pending_watch (s := s.toward c) rfl hpending m.instrumented).trans hnone
  unfold free
  rw [advance_server]
  split
  · exact Gdb.Server.attend_ne_watch hremembered kind address
  · nofun

/-- **Watchpoints.** If a step makes an access that a watchpoint looks for and does not end the run, it
stops the core with one reply, which tells of the first such access and of the first watchpoint that
looks for it, exactly if the core was awake. A core that slept has been woken by an interrupt, and is
stopped in the next turn of the server instead. If no access is watched there is no reply that tells of
one. -/
theorem watch_stops_iff (m : Machine) (s : Gdb.Server) (c : Gdb.Connection)
    (hpending : s.pending = none) :
    (∀ hit : Gdb.FirstHit s.points.watchpoints m.instrumented.accesses,
      hit.reply.text = "T05" ++ hit.watchpoint.kind.word ++ ":" ++
          Text.hex 1 (0x800000 + hit.access.address.toNat) ++ ";" ∧
        ((free m s c).advance.1.machine.run.isTerminal = false →
          ((free m s c).Stops hit.reply ↔ m.run ≠ .sleeping)) ∧
        (m.run = .sleeping →
          (free m s c).advance.2 = none ∧ (free m s c).step.machine.run = .running ∧
            ∀ events, (free m s c).step.idles events = true →
              ((free m s c).step.after events).machine.run ≠ .sleeping →
              ((free m s c).step.after events).advance.1.machine.run.isTerminal = false →
              ((free m s c).step.after events).Stops hit.reply)) ∧
    ((∀ x ∈ m.instrumented.accesses, ∀ w ∈ s.points.watchpoints, ¬ w.LooksFor x) →
      ∀ kind address, (free m s c).advance.2 ≠ some (.watch kind address)) := by
  refine ⟨?_, advance_ne_watch hpending⟩
  intro hit
  refine ⟨rfl, ?_, ?_⟩
  · intro hends
    constructor
    · intro hstops hsleeping
      have hreply := hstops.reply
      rw [advance_free_of_sleeping hsleeping] at hreply
      cases hreply
    · intro hawake
      exact stops_of_hit hit hpending hawake hends
  · intro hsleeping
    refine ⟨?_, ?_, ?_⟩
    · rw [advance_free_of_sleeping hsleeping]
    · rw [step_free_of_sleeping hsleeping, advance_free_of_sleeping hsleeping]
      apply run_tick_of_sleeping hsleeping
      rw [hit.accesses_eq]
      simp
    · intro events hidle hawake hends
      exact stops_after_hit hit hpending hsleeping hidle hawake hends

/-- Three watchpoints of which the second is the first to look for a write at 96. -/
def watchful : Gdb.Server where
  points := { watchpoints := [⟨96, 1, .read⟩, ⟨80, 32, .write⟩, ⟨96, 1, .access⟩] }

/-- A core that stores a byte at 96. -/
def storer : Machine := fresh [0x00, 0x92, 0x60, 0x00]

def storerHit : Gdb.FirstHit watchful.points.watchpoints storer.instrumented.accesses where
  before := []
  access := ⟨96, true⟩
  after := []
  passed := [⟨96, 1, .read⟩]
  watchpoint := ⟨80, 32, .write⟩
  others := [⟨96, 1, .access⟩]
  accesses_eq := by decide +kernel
  watchpoints_eq := rfl
  looksFor := ⟨by decide, by decide, .inr rfl⟩
  unwatched := nofun
  unmatched := by
    intro w hw hlooks
    rw [List.mem_singleton.mp hw] at hlooks
    exact absurd hlooks.kind (by decide)

/-- The store stops its step for the second watchpoint. -/
theorem storer_stops :
    (free storer watchful {}).Stops (.watch .write 96) ∧
      (Gdb.StopReply.watch .write 96).text = "T05watch:800060;" := by
  have hends : (free storer watchful {}).advance.1.machine.run.isTerminal = false := by
    decide +kernel
  have hstops := ((watch_stops_iff storer watchful {} rfl).1 storerHit).2.1 hends
  exact ⟨hstops.mpr (by decide), by decide +kernel⟩

/-- A core that sleeps although a byte waits whose interrupt is on. -/
def dozer : Machine := { sleeper with run := .sleeping }

/-- The stack of a core that an interrupt wakes is watched: the step that writes to it does not stop, the
step after it does. -/
theorem dozer_stops_late :
    let s : Gdb.Server := { points := { watchpoints := [⟨255, 1, .write⟩] } }
    dozer.instrumented.accesses = [⟨255, true⟩, ⟨254, true⟩] ∧
      (free dozer s {}).advance.1.machine.run = .running ∧ (free dozer s {}).advance.2 = none ∧
      (free dozer s {}).step.advance.2 = some (.watch .write 255) := by
  decide +kernel

end Bench

end AvrSim
