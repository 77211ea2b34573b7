import AvrSim.Proofs.Gdb.Discipline
import AvrSim.Proofs.Gdb.Turn

/-!
# Sessions are disciplined

Whatever a client sends, and whenever the host takes steps and raises lines, the server makes only the
moves that the stage of the session allows. It takes every packet out of its queue once and in order:
while the session is held it handles them all, and while the core is running it drops them.

* `Gdb.Server.suits_handle`: what a packet of each kind leads to.
* `Gdb.Server.goes_serve`, `Gdb.Server.goes_attend`: serving and the server's turn as moves.
* `Bench.follows_next`, `Bench.follows_dialogue`: one event, and a schedule.
* `Bench.dialogue_disciplined`: the law of sessions.
-/

namespace AvrSim

namespace Gdb

/-! ## Packets -/

namespace Command

/-- The kind of the packets that a command is read from. -/
def kind : Command → Kind
  | stopReason => .inquiry
  | resume _ _ => .resume
  | kill => .kill
  | detach => .detach
  | _ => .request

theorem kind_getD {command : Option Command} (h : ∀ c, command = some c → c.kind = .request) :
    (command.getD malformed).kind = .request := by
  cases command with
  | none => rfl
  | some c => exact h c rfl

theorem kind_map {α : Type} (args : Option α) {command : α → Command}
    (h : ∀ x, (command x).kind = .request) :
    ((args.map command).getD malformed).kind = .request := by
  apply kind_getD
  intro c hc
  obtain ⟨x, -, rfl⟩ := Option.map_eq_some_iff.mp hc
  exact h x

theorem kind_parseQuery (args : Bytes) : (parseQuery args).kind = .request := by
  unfold parseQuery
  split
  · rfl
  · split <;> rfl

theorem kind_parseWriteRegister {args : Bytes} {c : Command} (h : parseWriteRegister? args = some c) :
    c.kind = .request := by
  simp only [parseWriteRegister?, Option.bind_eq_bind, Option.bind_eq_some_iff, Option.pure_def,
    Option.some.injEq] at h
  obtain ⟨_, -, _, -, _, -, rfl⟩ := h
  rfl

theorem kind_parseWriteMemory {args : Bytes} {c : Command} (h : parseWriteMemory? args = some c) :
    c.kind = .request := by
  simp only [parseWriteMemory?, Option.bind_eq_bind, Option.bind_eq_some_iff,
    Option.ite_none_right_eq_some, Option.some.injEq] at h
  obtain ⟨_, -, _, -, _, -, -, rfl⟩ := h
  rfl

theorem kind_parseResume (single : Bool) (args : Bytes) :
    ((parseResume? single args).getD malformed).kind =
      if args.isEmpty || (number? 32 args).isSome then .resume else .request := by
  unfold parseResume?
  by_cases hempty : args.isEmpty
  · rw [if_pos hempty, if_pos (by simp [hempty])]
    rfl
  · rw [if_neg hempty]
    cases hnumber : number? 32 args with
    | none =>
      rw [if_neg (by simp [hempty])]
      rfl
    | some target =>
      rw [if_pos (by simp)]
      rfl

theorem kind_parse {packet : Bytes} (hempty : packet ≠ []) (hnot : packet ≠ interrupt) :
    (parse packet).kind = Kind.ofPacket packet := by
  obtain _ | ⟨verb, args⟩ := packet
  · exact absurd rfl hempty
  unfold Kind.ofPacket parse
  dsimp only
  rw [if_neg hnot]
  generalize Char.ofUInt8 verb = c
  split
  · rfl
  · exact kind_parseQuery args
  · rfl
  · exact kind_map (bytes? args) fun _ => rfl
  · exact kind_map (number? 8 args) fun _ => rfl
  · exact kind_getD fun c hc => kind_parseWriteRegister hc
  · exact kind_map (range? args) fun _ => rfl
  · exact kind_getD fun c hc => kind_parseWriteMemory hc
  · exact kind_parseResume false args
  · exact kind_parseResume true args
  · rfl
  · rfl
  · rfl
  · rfl
  · simp only [kind]

end Command

namespace Server

variable (s : Server) (m : Machine)

/-- An answer that befits a packet of some kind. -/
structure Suits (s : Server) (kind : Kind) (a : Answer) : Prop where
  reply : kind.allows a.reply = true
  held : a.server.held = (s.held && kind.stays)
  connection : a.server.connection = if kind.parts then none else s.connection
  pending : a.server.pending = s.pending

theorem suits_reply {reply : Reply} (h : Kind.request.admits reply = true) :
    s.Suits .request ⟨s, m, some reply⟩ := ⟨h, (Bool.and_true _).symm, rfl, rfl⟩

theorem suits_answerBytes (value : Option (List UInt8)) :
    s.Suits .request (s.answerBytes m value) := by
  cases value with
  | none => exact suits_reply s m rfl
  | some bytes => exact suits_reply s m rfl

theorem suits_answerChange (changed : Option Machine) :
    s.Suits .request (s.answerChange m changed) := by
  cases changed with
  | none => exact suits_reply s m rfl
  | some m => exact suits_reply s m rfl

theorem suits_changePoint (packet : Bytes) (request : Except PointError Point)
    (change : Points → Point → Points) :
    s.Suits .request (s.changePoint m packet request change) := by
  cases request with
  | error e => exact suits_reply s _ rfl
  | ok point => exact ⟨rfl, (Bool.and_true _).symm, rfl, rfl⟩

theorem suits_carryOut (packet : Bytes) (command : Command) :
    s.Suits command.kind (s.carryOut m packet command) := by
  cases command with
  | stopReason => exact ⟨rfl, (Bool.and_true _).symm, rfl, rfl⟩
  | resume | kill | detach => exact ⟨rfl, (Bool.and_false _).symm, rfl, rfl⟩
  | features | attached | readRegisters | malformed | unknown => exact suits_reply s m rfl
  | writeRegisters | writeRegister | writeMemory => exact suits_answerChange s m _
  | readRegister | readMemory => exact suits_answerBytes s m _
  | insertPoint | erasePoint => exact suits_changePoint s m packet _ _

/-- **One packet** is answered as befits its kind. -/
theorem suits_handle (packet : Bytes) : s.Suits (Kind.ofPacket packet) (s.handle m packet) := by
  unfold handle
  split
  · rename_i hidle
    simp only [Bool.or_eq_true, List.isEmpty_iff, beq_iff_eq] at hidle
    have hkind : Kind.ofPacket packet = .idle := by
      obtain rfl | rfl := hidle
      · rfl
      · rfl
    rw [hkind]
    exact ⟨rfl, (Bool.and_true _).symm, rfl, rfl⟩
  · rename_i hcarried
    simp only [Bool.or_eq_true, List.isEmpty_iff, beq_iff_eq, not_or] at hcarried
    rw [← Command.kind_parse hcarried.1 hcarried.2]
    exact suits_carryOut s _ packet _

end Server

/-! ## Servers at a stage -/

/-- What a stage says about the server. Nothing more is said to a client that has gone. -/
def Stage.Fits (s : Server) : Stage → Prop
  | .held => s.held = true ∨ s.connection = none
  | .owing _ => False
  | .resumed | .running => s.held = false ∨ s.connection = none
  | .gone => s.connection = none

theorem Stage.Fits.congr {s s' : Server} {stage : Stage} (h : stage.Fits s) (hheld : s'.held = s.held)
    (hconnection : s'.connection = none ↔ s.connection = none) : stage.Fits s' := by
  cases stage with
  | held | resumed | running =>
    unfold Stage.Fits
    rw [hheld, hconnection]
    exact h
  | owing packet => cases h
  | gone => exact hconnection.mpr h

/-- The moves for several packets that are handled. -/
def exchanges (packets : List Bytes) (replies : List (Option Reply)) : List Move :=
  (packets.zip replies).flatMap fun (packet, reply) => exchange packet reply

namespace Server

/-- The server gets from one state and stage to another by some moves. What leaves the queue is what was
first in it, and a client is gone only if it went away or was let go. -/
structure Goes (stage : Stage) (s : Server) (log : List Move) (stage' : Stage) (s' : Server) :
    Prop where
  run : stage.Run log stage'
  fits : stage'.Fits s'
  pending : ∀ reason, s'.pending = some reason → reason.Usual ∨ s.pending = some reason
  queue : ∀ c', s'.connection = some c' → ∃ c, s.connection = some c ∧ c'.reader = c.reader ∧
    c'.closed = c.closed ∧ c.queue = log.filterMap Move.packet? ++ c'.queue
  parted : s'.connection = none → s.connection.all (·.closed) = true ∨
    ∃ packet, .takes packet ∈ log ∧ (Kind.ofPacket packet).parts = true

namespace Goes

variable {stage stage' stage'' : Stage} {s s' s'' : Server} {log log' : List Move}

theorem trans (h : Goes stage s log stage' s') (h' : Goes stage' s' log' stage'' s'') :
    Goes stage s (log ++ log') stage'' s'' where
  run := h.run.append h'.run
  fits := h'.fits
  pending := by
    intro reason hreason
    obtain husual | hbefore := h'.pending reason hreason
    · exact .inl husual
    · exact h.pending reason hbefore
  queue := by
    intro c'' hc''
    obtain ⟨c', hc', hreader', hclosed', hqueue'⟩ := h'.queue c'' hc''
    obtain ⟨c, hc, hreader, hclosed, hqueue⟩ := h.queue c' hc'
    refine ⟨c, hc, hreader'.trans hreader, hclosed'.trans hclosed, ?_⟩
    rw [hqueue, hqueue', List.filterMap_append, List.append_assoc]
  parted := by
    intro hnone
    obtain hclosed | ⟨packet, hpacket, hparts⟩ := h'.parted hnone
    · cases hc' : s'.connection with
      | none =>
        obtain hbefore | ⟨packet, hpacket, hparts⟩ := h.parted hc'
        · exact .inl hbefore
        · exact .inr ⟨packet, List.mem_append_left _ hpacket, hparts⟩
      | some c' =>
        obtain ⟨c, hc, -, hsame, -⟩ := h.queue c' hc'
        rw [hc', Option.all_some, hsame] at hclosed
        exact .inl (by rw [hc, Option.all_some, hclosed])
    · exact .inr ⟨packet, List.mem_append_right _ hpacket, hparts⟩

/-- A server that has no more to say gets on by staying. -/
theorem refl (h : stage.Fits s) : Goes stage s [] stage s where
  run := .nil stage
  fits := h
  pending := fun _ hreason => .inr hreason
  queue := fun c hc => ⟨c, hc, rfl, rfl, rfl⟩
  parted := fun hnone => .inl (by rw [hnone]; rfl)

end Goes

variable {s s' : Server} {stage : Stage}

theorem eq_held_of_fits (h : stage.Fits s) (hheld : s.held = true) (hclient : s.connection.isSome) :
    stage = .held := by
  have hsome : s.connection ≠ none := Option.isSome_iff_ne_none.mp hclient
  cases stage with
  | held => rfl
  | owing packet => cases h
  | resumed | running =>
    rcases h with hfree | hnone
    · rw [hheld] at hfree
      cases hfree
    · exact absurd hnone hsome
  | gone => exact absurd h hsome

/-- A client that has gone away is noticed without a word. -/
theorem goes_disconnect (h : stage.Fits s) (hclosed : s.connection.all (·.closed) = true) :
    Goes stage s [] stage s.disconnect where
  run := .nil stage
  fits := by
    cases stage with
    | held => exact .inr rfl
    | owing packet => cases h
    | resumed | running => exact .inl rfl
    | gone => rfl
  pending := fun _ hreason => .inr hreason
  queue := nofun
  parted := fun _ => .inl hclosed

/-! ## Serving -/

theorem queue_of_client {c : Connection} (hc : s.connection = some c) : s.queue = c.queue := by
  simp [queue, hc]

theorem keepQueue_queue (s : Server) : s.keepQueue s.queue = s := by
  unfold keepQueue queue
  cases hc : s.connection with
  | none => rw [Option.map_none, ← hc]
  | some c =>
    dsimp only [Option.map_some, Option.getD_some]
    rw [← hc]

/-- A packet that is handled in a held session. -/
theorem goes_handle (hheld : s.held = true) (m : Machine) (packet : Bytes) (rest : List Bytes) :
    Goes .held (s.keepQueue (packet :: rest)) (exchange packet (s.handle m packet).reply)
      (Kind.ofPacket packet).next ((s.handle m packet).server.keepQueue rest) := by
  obtain ⟨hreply, hfree, hconnection, hpending⟩ := suits_handle s m packet
  generalize s.handle m packet = a at hreply hfree hconnection hpending
  rw [hheld, Bool.true_and] at hfree
  refine ⟨Stage.run_exchange hreply, ?_, ?_, ?_, ?_⟩
  · cases hkind : Kind.ofPacket packet with
    | idle | inquiry | request | resume =>
      rw [hkind] at hfree
      exact .inl hfree
    | kill | detach =>
      rw [hkind] at hconnection
      exact Option.map_eq_none_iff.mpr hconnection
  · intro reason hreason
    exact .inr (hpending.symm.trans hreason)
  · intro c' hc'
    obtain ⟨c, hc, rfl⟩ := Option.map_eq_some_iff.mp hc'
    have hsame : s.connection = some c := by
      rw [hconnection] at hc
      exact (Option.ite_none_left_eq_some.mp hc).2
    refine ⟨{ c with queue := packet :: rest }, by simp [keepQueue, hsame], rfl, rfl, ?_⟩
    rw [packets_exchange]
    rfl
  · intro hnone
    rw [keepQueue, Option.map_eq_none_iff, hconnection] at hnone
    cases hparts : (Kind.ofPacket packet).parts with
    | true => exact .inr ⟨packet, List.mem_cons_self, hparts⟩
    | false =>
      rw [hparts, if_neg Bool.false_ne_true] at hnone
      exact .inl (by simp [keepQueue, hnone])

theorem isSome_handle (m : Machine) (packet : Bytes) (hclient : s.connection.isSome)
    (hheld : (s.handle m packet).server.held = true) :
    (s.handle m packet).server.connection.isSome := by
  obtain ⟨-, hstays, hconnection, -⟩ := suits_handle s m packet
  have hparts : (Kind.ofPacket packet).parts = false := by
    rw [hheld, eq_comm, Bool.and_eq_true] at hstays
    revert hstays
    cases Kind.ofPacket packet <;> simp [Kind.stays, Kind.parts]
  rw [hconnection, hparts]
  exact hclient

/-- Packets that are handled in a held session. The server takes them off its queue when it is done, so
until then they are counted as the queue. -/
theorem goes_serveFrom (hheld : s.held = true) (hclient : s.connection.isSome) (m : Machine)
    (answers : List (Option Reply)) (packets : List Bytes) :
    ∃ replies stage, (s.serveFrom m answers packets).2.2 = replies.reverse ++ answers ∧
      Goes .held (s.keepQueue packets) (exchanges packets replies) stage
        (s.serveFrom m answers packets).1 := by
  induction packets generalizing s m answers with
  | nil =>
    refine ⟨[], .held, ?_⟩
    have hfits : Stage.held.Fits (s.keepQueue []) := .inl hheld
    unfold serveFrom
    dsimp only
    split
    · rename_i hclosed
      exact ⟨rfl, goes_disconnect hfits hclosed⟩
    · exact ⟨rfl, .refl hfits⟩
  | cons packet rest ih =>
    have hfirst := goes_handle hheld m packet rest
    have hclient' := isSome_handle m packet hclient
    unfold serveFrom
    generalize s.handle m packet = a at hfirst hclient'
    dsimp only
    split
    · rename_i hheld'
      obtain ⟨replies, stage, hreplies, hrest⟩ :=
        ih hheld' (hclient' hheld') a.machine (a.reply :: answers)
      refine ⟨a.reply :: replies, stage, ?_, ?_⟩
      · rw [hreplies]
        simp
      · have hstage := eq_held_of_fits hfirst.fits hheld' (by simpa [keepQueue] using hclient' hheld')
        rw [hstage] at hfirst
        exact hfirst.trans hrest
    · refine ⟨[a.reply], (Kind.ofPacket packet).next, rfl, ?_⟩
      have hlog : exchanges (packet :: rest) [a.reply] = exchange packet a.reply := by
        simp [exchanges]
      rw [hlog]
      exact hfirst

/-- A server that holds a session has a client and no packets left. -/
def Settled (s : Server) : Prop := s.held = true → s.connection.isSome ∧ s.queue = []

theorem settled_serveFrom (s : Server) (m : Machine) (answers : List (Option Reply))
    (packets : List Bytes) : (s.serveFrom m answers packets).1.Settled := by
  induction packets generalizing s m answers with
  | nil =>
    unfold serveFrom
    dsimp only
    split
    · intro hheld
      cases hheld
    · rename_i hopen
      intro _
      cases hc : s.connection with
      | none => simp [keepQueue, hc] at hopen
      | some c => simp [keepQueue, queue, hc]
  | cons packet rest ih =>
    unfold serveFrom
    dsimp only
    split
    · exact ih _ _ _
    · rename_i hfree
      intro hheld
      exact absurd hheld hfree

theorem settled_serve (s : Server) (m : Machine) : (s.serve m).1.Settled := by
  unfold serve
  split
  · exact settled_serveFrom s m [] s.queue
  · rename_i hfree
    intro hheld
    exact absurd hheld hfree

/-- **Serving**: the packets that wait are handled one by one. -/
theorem goes_serve (h : stage.Fits s) (m : Machine) :
    ∃ stage', Goes stage s (exchanges s.queue (s.serve m).2.2) stage' (s.serve m).1 := by
  have hnone (packets : List Bytes) : exchanges packets [] = [] := by simp [exchanges]
  unfold serve
  split
  · rename_i hheld
    dsimp only
    cases hc : s.connection with
    | none =>
      have hqueue : s.queue = [] := by simp [queue, hc]
      have hkeep := keepQueue_queue s
      rw [hqueue] at hkeep ⊢
      refine ⟨stage, ?_⟩
      unfold serveFrom
      dsimp only
      rw [hkeep, if_pos (by simp [hc])]
      exact goes_disconnect h (by simp [hc])
    | some c =>
      have hclient : s.connection.isSome := by simp [hc]
      obtain rfl := eq_held_of_fits h hheld hclient
      obtain ⟨replies, stage', hreplies, hgoes⟩ := goes_serveFrom hheld hclient m [] s.queue
      rw [keepQueue_queue] at hgoes
      refine ⟨stage', ?_⟩
      rw [hreplies, List.append_nil, List.reverse_reverse]
      exact hgoes
  · exact ⟨stage, (hnone s.queue).symm ▸ .refl h⟩

/-! ## The server's turn -/

theorem goes_steps (hfree : s.held = false) (h : stage.Fits s) :
    ∃ stage', Goes stage s [.steps] stage' s ∧ (s.connection.isSome → stage' = .running) := by
  have hstep (stage' : Stage) (hstep : stage.Step .steps stage') (h' : stage'.Fits s) :
      Goes stage s [.steps] stage' s :=
    { Goes.refl h' with
      run := .single hstep
      parted := fun hnone => .inl (by simp [hnone]) }
  cases stage with
  | held =>
    have hnone : s.connection = none := h.resolve_left (by simp [hfree])
    exact ⟨.gone, hstep .gone .lose hnone, by simp [hnone]⟩
  | owing packet => cases h
  | resumed => exact ⟨.running, hstep .running .start h, fun _ => rfl⟩
  | running => exact ⟨.running, hstep .running .run h, fun _ => rfl⟩
  | gone =>
    have hnone : s.connection = none := h
    exact ⟨.gone, hstep .gone .alone h, by simp [hnone]⟩

theorem goes_watch (h : stage.Fits s) (n : Note) : Goes stage s [] stage (Bench.watch s n) := by
  have hserver (address : UInt16) (isWrite : Bool) :
      Goes stage s [] stage (s.watch address isWrite) := by
    unfold watch
    split
    · refine { Goes.refl h with fits := h, pending := ?_ }
      intro reason hreason
      obtain ⟨w, -, rfl⟩ := Option.map_eq_some_iff.mp hreason
      exact .inl (StopReply.usual_watch _ _)
    · exact .refl h
  cases n with
  | read address value => exact hserver address false
  | write address value => exact hserver address true
  | line tag value => exact .refl h
  | step state => exact .refl h

theorem goes_watch_foldl (h : stage.Fits s) (notes : Array Note) :
    Goes stage s [] stage (notes.foldl Bench.watch s) := by
  rw [← Array.foldl_toList]
  refine List.foldlRecOn (motive := Goes stage s [] stage) _ _ (.refl h) ?_
  intro s' hs' n _
  exact hs'.trans (goes_watch hs'.fits n)

/-- The moves for a stop reply, if there is one. -/
def told (reply : Option StopReply) : List Move :=
  (reply.map fun reason => .sends (.stop reason)).toList

theorem goes_stop (m : Machine) {reason : StopReply} (husual : reason.Usual) :
    ∃ stage, Goes .running s (told (s.stop m reason).2.2) stage (s.stop m reason).1 := by
  have hpending : (s.stop m reason).1.pending = none := rfl
  cases hc : s.connection with
  | none =>
    have hreply : (s.stop m reason).2.2 = none := if_neg (by simp [hc])
    rw [hreply]
    refine ⟨.running, .nil _, .inr hc, by simp [hpending], ?_, fun _ => .inl (by simp [hc])⟩
    intro c hc'
    exact absurd (hc.symm.trans hc') nofun
  | some c =>
    have hreply : (s.stop m reason).2.2 = some reason := if_pos (by simp [hc])
    rw [hreply]
    refine ⟨.held, .single (.stop husual), .inl rfl, by simp [hpending], ?_, ?_⟩
    · intro c' hc'
      exact ⟨c', hc', rfl, rfl, rfl⟩
    · intro hnone
      exact absurd (hc.symm.trans hnone) nofun

theorem run_drops (packets : List Bytes) : Stage.running.Run (packets.map .drops) .running := by
  induction packets with
  | nil => exact .nil _
  | cons packet packets ih => exact .cons (.drop packet) ih

theorem packets_drops (packets : List Bytes) :
    (packets.map Move.drops).filterMap Move.packet? = packets := by
  simp [List.filterMap_map, Function.comp_def, Move.packet?]

/-- The server takes packets out of the queue that came while the core was running. -/
theorem goes_keepQueue {c : Connection} {dropped rest : List Bytes} (hc : s.connection = some c)
    (hfree : s.held = false) (hqueue : c.queue = dropped ++ rest) :
    Goes .running s (dropped.map .drops) .running (s.keepQueue rest) := by
  refine ⟨run_drops dropped, .inl hfree, fun _ hreason => .inr hreason, ?_, ?_⟩
  · intro c' hc'
    have hc'' : ({ c with queue := rest } : Connection) = c' := by
      simpa [keepQueue, hc] using hc'
    subst hc''
    exact ⟨c, hc, rfl, rfl, by rw [packets_drops, hqueue]⟩
  · intro hnone
    simp [keepQueue, hc] at hnone

theorem goes_pollInterrupt {c : Connection} (hc : s.connection = some c) (hfree : s.held = false)
    (m : Machine) :
    ∃ dropped, s.queue = dropped ++ (s.pollInterrupt c m).2.1.queue ∧
      Goes .running s (dropped.map .drops) .running (s.pollInterrupt c m).2.1 := by
  have hqueue := queue_of_client hc
  have hkeep (rest : List Bytes) : (s.keepQueue rest).queue = rest := by simp [keepQueue, queue, hc]
  have hparts := List.takeWhile_append_dropWhile (p := (· != interrupt)) (l := c.queue)
  unfold pollInterrupt
  dsimp only
  split
  · rename_i first rest hrest
    rw [hrest] at hparts
    refine ⟨c.queue.takeWhile (· != interrupt) ++ [first], ?_, goes_keepQueue hc hfree ?_⟩
    · rw [hkeep, hqueue, List.append_assoc]
      exact hparts.symm
    · rw [List.append_assoc]
      exact hparts.symm
  · have hall : Goes .running s (c.queue.map .drops) .running (s.keepQueue []) :=
      goes_keepQueue hc hfree (List.append_nil _).symm
    refine ⟨c.queue, ?_⟩
    split
    · rename_i hclosed
      refine ⟨hqueue.trans (List.append_nil _).symm, ?_⟩
      have hlost := goes_disconnect hall.fits (by simp [keepQueue, hc, hclosed])
      exact List.append_nil (c.queue.map Move.drops) ▸ hall.trans hlost
    · exact ⟨by rw [hkeep, hqueue, List.append_nil], hall⟩

/-- **The server's turn**: it may drop packets, and then it may stop the core. -/
theorem goes_attend (hfree : s.held = false) (hclient : s.connection.isSome)
    (husual : ∀ reason, s.pending = some reason → reason.Usual) (m : Machine) :
    ∃ dropped stage, s.queue = dropped ++ (s.attend m).1.queue ∧
      Goes .running s (dropped.map .drops ++ told (s.attend m).2.2) stage (s.attend m).1 := by
  obtain ⟨c, hc⟩ := Option.isSome_iff_exists.mp hclient
  cases hpending : s.pending with
  | some reason =>
    obtain ⟨stage, hgoes⟩ := goes_stop (s := s) m (husual reason hpending)
    rw [attend_of_pending hclient hpending]
    exact ⟨[], stage, rfl, hgoes⟩
  | none =>
    by_cases htrap : (m.run = .stopped || s.breakNext || s.stepping) = true
    · obtain ⟨stage, hgoes⟩ := goes_stop (s := s) m StopReply.usual_trap
      rw [attend_of_trap hclient hpending htrap]
      exact ⟨[], stage, rfl, hgoes⟩
    · obtain ⟨dropped, hqueue, hdrops⟩ := goes_pollInterrupt hc hfree m
      simp only [attend, hc, hpending]
      rw [if_neg htrap]
      generalize s.pollInterrupt c m = result at hqueue hdrops
      obtain ⟨interrupted, s', m'⟩ := result
      dsimp only at hqueue hdrops ⊢
      split
      · obtain ⟨stage, hstop⟩ := goes_stop (s := s') m' StopReply.usual_interrupted
        exact ⟨dropped, stage, hqueue, hdrops.trans hstop⟩
      · split
        · obtain ⟨stage, hstop⟩ := goes_stop (s := s') m' StopReply.usual_trap
          exact ⟨dropped, stage, hqueue, hdrops.trans hstop⟩
        · exact ⟨dropped, .running, hqueue, hdrops.trans (.refl hdrops.fits)⟩

end Server

end Gdb

namespace Bench

open Gdb (Move Kind Stage Disciplined exchanges)
open Gdb.Server (Goes told Settled)

/-! ## The moves of a bench -/

/-- The packets that wait. -/
def queue (b : Bench) : List Bytes := (b.server?.map (·.queue)).getD []

/-- The moves of a server that answers the packets that wait. -/
def served (b : Bench) : List Move := exchanges b.queue b.serve.2

/-- The moves in an event. A step of the core may make the server drop packets and send a stop reply. -/
def moves (b : Bench) : Event → List Move
  | .step =>
    if b.isHeld then []
    else
      let (after, stop) := b.advance
      let dropped := b.queue.take (b.queue.length - after.queue.length)
      .steps :: (dropped.map .drops ++ told stop) ++ after.served
  | .raise _ _ => []
  | .send bytes => (b.onServer fun s => (s.receive bytes).1).served
  | .hangUp => (b.onServer (·.hangUp)).served

theorem moves_of_free {b : Bench} (hfree : b.isHeld = false) {dropped : List Bytes}
    (hqueue : b.queue = dropped ++ b.advance.1.queue) :
    b.moves .step = .steps :: (dropped.map .drops ++ told b.advance.2) ++ b.advance.1.served := by
  have hmoves : b.moves .step =
      .steps :: ((b.queue.take (b.queue.length - b.advance.1.queue.length)).map .drops ++
        told b.advance.2) ++ b.advance.1.served := if_neg (by simp [hfree])
  rw [hmoves, hqueue]
  simp

/-- The moves in a schedule. -/
def dialogue (b : Bench) : List Event → List Move
  | [] => []
  | e :: events => b.moves e ++ (b.next e).dialogue events

/-- The packets among the bytes that the client has sent, and what it has begun to send. -/
def heard (events : List Event) : Gdb.Reader × List Bytes :=
  let (reader, arrivals) := Gdb.Reader.idle.feedAll (events.flatMap Event.sent)
  (reader, arrivals.filterMap Gdb.Arrival.packet?)

theorem heard_concat (events : List Event) (e : Event) :
    heard (events ++ [e]) = (((heard events).1.feedAll e.sent).1,
      (heard events).2 ++ ((heard events).1.feedAll e.sent).2.filterMap Gdb.Arrival.packet?) := by
  unfold heard
  rw [List.flatMap_append, Gdb.Reader.feedAll_append]
  simp

theorem heard_of_silent (events : List Event) {e : Event} (h : e.sent = []) :
    heard (events ++ [e]) = heard events := by
  rw [heard_concat, h]
  simp [Gdb.Reader.feedAll]

/-! ## Sessions -/

/-- The moves so far fit the stages, account for every packet, and say why a client is gone. -/
structure Abides (events : List Event) (log : List Move) (s : Gdb.Server) : Prop where
  stage : ∃ stage, Stage.held.Run log stage ∧ stage.Fits s
  pending : ∀ reason, s.pending = some reason → reason.Usual
  queue : ∀ c, s.connection = some c →
    heard events = (c.reader, log.filterMap Move.packet? ++ c.queue) ∧
      (c.closed = true → .hangUp ∈ events)
  parted : s.connection = none → .hangUp ∈ events ∨
    ∃ packet, .takes packet ∈ log ∧ (Kind.ofPacket packet).parts = true

section

variable {events : List Event} {log moves : List Move} {s s' : Gdb.Server}

theorem Abides.goes (h : Abides events log s)
    (hgoes : ∀ stage : Stage, stage.Fits s → ∃ stage', Goes stage s moves stage' s') :
    Abides events (log ++ moves) s' := by
  obtain ⟨stage, hrun, hfits⟩ := h.stage
  obtain ⟨stage', hgoes⟩ := hgoes stage hfits
  refine ⟨⟨stage', hrun.append hgoes.run, hgoes.fits⟩, ?_, ?_, ?_⟩
  · intro reason hreason
    obtain husual | hbefore := hgoes.pending reason hreason
    · exact husual
    · exact h.pending reason hbefore
  · intro c' hc'
    obtain ⟨c, hc, hreader, hclosed, hqueue⟩ := hgoes.queue c' hc'
    obtain ⟨hheard, hgone⟩ := h.queue c hc
    refine ⟨?_, fun hclosed' => hgone (hclosed.symm.trans hclosed')⟩
    rw [hheard, hreader, hqueue, List.filterMap_append, List.append_assoc]
  · intro hnone
    obtain hbefore | ⟨packet, hpacket, hparts⟩ := hgoes.parted hnone
    · cases hc : s.connection with
      | none =>
        obtain hgone | ⟨packet, hpacket, hparts⟩ := h.parted hc
        · exact .inl hgone
        · exact .inr ⟨packet, List.mem_append_left _ hpacket, hparts⟩
      | some c =>
        rw [hc, Option.all_some] at hbefore
        exact .inl ((h.queue c hc).2 hbefore)
    · exact .inr ⟨packet, List.mem_append_right _ hpacket, hparts⟩

/-- Nothing is heard from the client. -/
theorem Abides.silent (h : Abides events log s) {e : Event} (he : e.sent = []) :
    Abides (events ++ [e]) log s where
  stage := h.stage
  pending := h.pending
  queue := by
    intro c hc
    obtain ⟨hheard, hclosed⟩ := h.queue c hc
    exact ⟨(heard_of_silent events he).trans hheard, fun h => List.mem_append_left _ (hclosed h)⟩
  parted := fun hnone => (h.parted hnone).imp_left (List.mem_append_left _)

theorem Abides.receive (h : Abides events log s) (bytes : Bytes) :
    Abides (events ++ [.send bytes]) log (s.receive bytes).1 := by
  cases hc : s.connection with
  | none =>
    have hsame : (s.receive bytes).1 = s := by simp [Gdb.Server.receive, hc]
    rw [hsame]
    refine ⟨h.stage, h.pending, ?_, fun hnone => (h.parted hnone).imp_left (List.mem_append_left _)⟩
    intro c hc'
    exact absurd (hc.symm.trans hc') nofun
  | some c =>
    obtain ⟨hheard, hclosed⟩ := h.queue c hc
    have hreceive : (s.receive bytes).1 = { s with connection := some { c with
        reader := (c.reader.feedAll bytes).1
        queue := c.queue ++ (c.reader.feedAll bytes).2.filterMap Gdb.Arrival.packet? } } := by
      simp [Gdb.Server.receive, hc]
    rw [hreceive]
    refine ⟨?_, h.pending, ?_, nofun⟩
    · obtain ⟨stage, hrun, hfits⟩ := h.stage
      exact ⟨stage, hrun, hfits.congr rfl (by simp [hc])⟩
    · rintro c' ⟨⟩
      refine ⟨?_, fun h => List.mem_append_left _ (hclosed h)⟩
      rw [heard_concat, hheard, List.append_assoc]
      rfl

theorem Abides.hangUp (h : Abides events log s) : Abides (events ++ [.hangUp]) log s.hangUp where
  stage := by
    obtain ⟨stage, hrun, hfits⟩ := h.stage
    exact ⟨stage, hrun, hfits.congr rfl (by simp [Gdb.Server.hangUp])⟩
  pending := h.pending
  queue := by
    intro c' hc'
    obtain ⟨c, hc, rfl⟩ := Option.map_eq_some_iff.mp hc'
    exact ⟨(heard_of_silent events rfl).trans (h.queue c hc).1, fun _ => by simp⟩
  parted := fun _ => .inl (by simp)

end

/-- A bench whose server abides by the law, after some events and moves. -/
def Follows (events : List Event) (log : List Move) (b : Bench) : Prop :=
  ∃ s, b.instrument = .server s ∧ Abides events log s ∧ Settled s

variable {events : List Event} {log : List Move}

theorem follows_serve {s : Gdb.Server} (h : Abides events log s) (m : Machine) (seen : Array Note) :
    Follows events (log ++ served ⟨m, .server s, seen⟩) (serve ⟨m, .server s, seen⟩).1 :=
  ⟨(s.serve m).1, rfl, h.goes fun _ hfits => Gdb.Server.goes_serve hfits m,
    Gdb.Server.settled_serve s m⟩

/-- The core takes a step, and the server may have a turn. -/
theorem goes_advance (m : Machine) {s : Gdb.Server} (seen : Array Note) (hfree : s.held = false)
    (husual : ∀ reason, s.pending = some reason → reason.Usual) :
    ∃ s' dropped, (advance ⟨m, .server s, seen⟩).1.instrument = .server s' ∧
      s.queue = dropped ++ s'.queue ∧
      ∀ stage : Stage, stage.Fits s → ∃ stage', Goes stage s
        (.steps :: (dropped.map .drops ++ told (advance ⟨m, .server s, seen⟩).2)) stage' s' := by
  rw [advance_server]
  obtain ⟨hconnection, hheld⟩ := watch_foldl m.tick.1.notes s
  have hwatch (stage : Stage) (hfits : stage.Fits s) :=
    Gdb.Server.goes_watch_foldl hfits m.tick.1.notes
  have hwatched : ∀ reason, (m.tick.1.notes.foldl watch s).pending = some reason → reason.Usual := by
    intro reason hreason
    obtain husual' | hbefore := (hwatch .running (.inl hfree)).pending reason hreason
    · exact husual'
    · exact husual reason hbefore
  generalize m.tick.1.notes.foldl watch s = s₁ at hconnection hheld hwatch hwatched
  have hqueue : s.queue = s₁.queue := by simp [Gdb.Server.queue, hconnection]
  -- a turn in which nobody is there, or none at all
  have hquiet (stage : Stage) (hfits : stage.Fits s) : ∃ stage', Goes stage s [.steps] stage' s₁ := by
    obtain ⟨stage', hsteps, -⟩ := Gdb.Server.goes_steps hfree hfits
    exact ⟨stage', hsteps.trans (hwatch _ hsteps.fits)⟩
  split
  · cases hc : s₁.connection with
    | none =>
      refine ⟨s₁, [], ?_, hqueue, ?_⟩
      · simp [attend, Gdb.Server.attend, hc]
      · have hsilent : (s₁.attend m.tick.1.quiet).2.2 = none := by simp [Gdb.Server.attend, hc]
        have htold : told (s₁.attend m.tick.1.quiet).2.2 = [] := by rw [hsilent]; rfl
        show ∀ stage : Stage, stage.Fits s → ∃ stage', Goes stage s
          (.steps :: ([] ++ told (s₁.attend m.tick.1.quiet).2.2)) stage' s₁
        rw [htold]
        exact hquiet
    | some c =>
      have hclient : s₁.connection.isSome := by simp [hc]
      obtain ⟨dropped, stage', hrest, hturn⟩ :=
        Gdb.Server.goes_attend (hheld.trans hfree) hclient hwatched m.tick.1.quiet
      refine ⟨(s₁.attend m.tick.1.quiet).1, dropped, rfl, hqueue.trans hrest, ?_⟩
      intro stage hfits
      obtain ⟨stage₁, hsteps, hrunning⟩ := Gdb.Server.goes_steps hfree hfits
      obtain rfl := hrunning (by rw [← hconnection]; exact hclient)
      exact ⟨stage', (hsteps.trans (hwatch _ hsteps.fits)).trans hturn⟩
  · exact ⟨s₁, [], rfl, hqueue, hquiet⟩

/-- **One event** keeps the law. -/
theorem follows_next {b : Bench} (h : Follows events log b) (e : Event) :
    Follows (events ++ [e]) (log ++ b.moves e) (b.next e) := by
  obtain ⟨m, instrument, seen⟩ := b
  obtain ⟨s, hserver, habides, hsettled⟩ := h
  obtain rfl : instrument = .server s := hserver
  cases e with
  | step =>
    cases hheld : s.held with
    | true =>
      have hmoves : moves ⟨m, .server s, seen⟩ .step = [] := if_pos hheld
      have hnext : next ⟨m, .server s, seen⟩ .step = ⟨m, .server s, seen⟩ := if_pos hheld
      rw [hmoves, hnext, List.append_nil]
      exact ⟨s, rfl, habides.silent rfl, hsettled⟩
    | false =>
      obtain ⟨s', dropped, hs', hqueue, hgoes⟩ :=
        goes_advance m seen hheld habides.pending
      have hnext : next ⟨m, .server s, seen⟩ .step = (advance ⟨m, .server s, seen⟩).1.serve.1 :=
        step_of_free (b := ⟨m, .server s, seen⟩) hheld
      have hafter : (advance ⟨m, .server s, seen⟩).1.queue = s'.queue := by
        simp [queue, server?, hs']
      have hmoves := moves_of_free (b := ⟨m, .server s, seen⟩) hheld (hafter.symm ▸ hqueue)
      rw [hmoves, hnext, ← List.append_assoc]
      generalize advance ⟨m, .server s, seen⟩ = turn at hs' hgoes
      obtain ⟨⟨m', instrument, seen'⟩, reply⟩ := turn
      obtain rfl : instrument = .server s' := hs'
      exact follows_serve ((habides.silent rfl).goes hgoes) m' seen'
  | raise line value =>
    cases hheld : s.held with
    | true =>
      have hnext : next ⟨m, .server s, seen⟩ (.raise line value) = ⟨m, .server s, seen⟩ := if_pos hheld
      rw [hnext]
      exact ⟨s, rfl, (habides.silent rfl).goes fun _ hfits => ⟨_, .refl hfits⟩, hsettled⟩
    | false =>
      have hnext : next ⟨m, .server s, seen⟩ (.raise line value) =
          gather ⟨m.raise line value, .server s, seen⟩ := if_neg (by simp [isHeld_server, hheld])
      rw [hnext, gather_server]
      refine ⟨_, rfl, (habides.silent rfl).goes fun _ hfits =>
        ⟨_, Gdb.Server.goes_watch_foldl hfits _⟩, ?_⟩
      intro hheld'
      rw [(watch_foldl _ s).2, hheld] at hheld'
      cases hheld'
  | send bytes => exact follows_serve (habides.receive bytes) m seen
  | hangUp => exact follows_serve habides.hangUp m seen

/-- **A schedule** keeps the law. -/
theorem follows_dialogue {b : Bench} (h : Follows events log b) (later : List Event) :
    Follows (events ++ later) (log ++ b.dialogue later) (b.after later) := by
  induction later generalizing events log b with
  | nil =>
    rw [List.append_nil]
    exact (List.append_nil log).symm ▸ h
  | cons e later ih =>
    have hlater := ih (follows_next h e)
    rw [List.append_assoc, List.append_assoc] at hlater
    exact hlater

theorem follows_attach (b : Bench) {s : Gdb.Server} (address : String)
    (husual : ∀ reason, s.pending = some reason → reason.Usual) :
    Follows [] [] (b.attach s address) := by
  refine ⟨{ s with connection := some {}, held := true }, rfl, ?_, fun _ => ⟨rfl, rfl⟩⟩
  refine ⟨⟨.held, .nil _, .inl rfl⟩, husual, ?_, nofun⟩
  rintro c ⟨⟩
  exact ⟨rfl, nofun⟩

/-! ## The law -/

/-- From when a client is let in, whatever it sends and whatever happens around the machine, the session
is disciplined. Each packet is taken from the queue once and in order, and a held session leaves none
there; the client is lost only if it goes away or asks for it. -/
theorem dialogue_disciplined (b : Bench) {s : Gdb.Server} (address : String)
    (husual : ∀ reason, s.pending = some reason → reason.Usual) (events : List Event) :
    let log := (b.attach s address).dialogue events
    Disciplined log ∧
    ∃ now, ((b.attach s address).after events).server? = some now ∧
      (now.held = true → now.queue = []) ∧
      (now.connection.isSome → (heard events).2 = log.filterMap Move.packet? ++ now.queue) ∧
      (now.connection = none → .hangUp ∈ events ∨
        ∃ packet, .takes packet ∈ log ∧ (Kind.ofPacket packet).parts = true) := by
  intro log
  obtain ⟨now, hnow, habides, hsettled⟩ := follows_dialogue (follows_attach b address husual) events
  obtain ⟨stage, hrun, hfits⟩ := habides.stage
  refine ⟨hrun.disciplined ?_, now, ?_, fun hheld => (hsettled hheld).2, ?_, habides.parted⟩
  · rintro packet rfl
    exact hfits
  · unfold server?
    rw [hnow]
  · intro hclient
    obtain ⟨c, hc⟩ := Option.isSome_iff_exists.mp hclient
    rw [Gdb.Server.queue_of_client hc]
    exact congrArg Prod.snd (habides.queue c hc).1

/-- The client asks why the core stopped, then for a step and, without waiting, for a register; it lets
the core go and interrupts it. -/
def stepAndLook : List Event :=
  [packet "?", .send (Gdb.frame (Bytes.ofString "s") ++ Gdb.frame (Bytes.ofString "p0")), .step,
    packet "c", .step, packet "g", .send Gdb.interrupt, .step]

/-- The register is shown only after the step. A question to the running core is dropped. -/
theorem stepAndLook_disciplined :
    ((attended (fresh []) {} "").dialogue stepAndLook =
      [.takes (Bytes.ofString "?"), .sends (.stop .trap), .takes (Bytes.ofString "s"), .steps,
        .sends (.stop .trap), .takes (Bytes.ofString "p0"), .sends (.bytes [0]),
        .takes (Bytes.ofString "c"), .steps, .steps, .drops (Bytes.ofString "g"),
        .drops Gdb.interrupt, .sends (.stop .interrupted)]) ∧
    Disciplined ((attended (fresh []) {} "").dialogue stepAndLook) := by
  refine ⟨by decide +kernel, ?_⟩
  exact (dialogue_disciplined { machine := fresh [] } (s := {}) "" nofun stepAndLook).1

end Bench

end AvrSim
