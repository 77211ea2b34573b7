import AvrSim.Proofs.Core.Break

/-!
# Sessions of a client that only looks

A client that asks for registers and memory, sets and removes points, interrupts the core and resumes it
where it stands never changes the machine, apart from its run state and its journal. A server that holds
the session leaves the core stopped; `Gdb.Server.onward` is the machine as it will go on.

* `Gdb.Server.view_onward_serve`: serving such a client changes nothing in how the machine goes on.
* `Gdb.Server.view_onward_attend`: the server's turn changes the run state only.
-/

namespace AvrSim.Gdb

/-- The packets that neither change the machine nor send it elsewhere. -/
def isHarmless : Bytes → Bool
  | [] => true
  | verb :: args =>
    match Char.ofUInt8 verb with
    | '?' | 'q' | 'g' | 'p' | 'm' | 'Z' | 'z' => true
    | 'c' | 's' => args.isEmpty
    | _ => verb :: args == interrupt

/-! ## Frames in pieces -/

namespace Reader

theorem feedAll_from (reader : Reader) (arrivals : List Arrival) (bytes : Bytes) :
    bytes.foldl
        (fun (reader, arrivals) b =>
          let (reader, arrival) := reader.feed b
          (reader, arrivals ++ arrival.toList))
        (reader, arrivals) =
      ((reader.feedAll bytes).1, arrivals ++ (reader.feedAll bytes).2) := by
  unfold feedAll
  induction bytes generalizing reader arrivals with
  | nil => simp
  | cons b bytes ih =>
    rw [List.foldl_cons, List.foldl_cons, ih, ih _ ([] ++ _)]
    simp

theorem feedAll_append (reader : Reader) (bytes rest : Bytes) :
    reader.feedAll (bytes ++ rest) =
      (((reader.feedAll bytes).1.feedAll rest).1,
        (reader.feedAll bytes).2 ++ ((reader.feedAll bytes).1.feedAll rest).2) := by
  conv => lhs; unfold feedAll
  rw [List.foldl_append]
  exact feedAll_from _ _ rest

end Reader

namespace Server

open Machine (resumed released)

variable (s : Server) (m : Machine)

/-- The machine as it will go on: a held session ends with the core running. -/
def onward (s : Server) (m : Machine) : Machine := if s.held then m.resumed else m

/-- Every packet that waits is harmless, and so is every packet among the bytes still to come. -/
def Harmless (s : Server) (rest : Bytes) : Prop :=
  ∀ c, s.connection = some c → (∀ packet ∈ c.queue, isHarmless packet) ∧
    ∀ packet ∈ (c.reader.feedAll rest).2.filterMap Arrival.packet?, isHarmless packet

theorem view_resumed {m m' : Machine} (h : m.view false = m'.view false) :
    m.resumed.view false = m'.resumed.view false := congrArg resumed h

/-! ## Packets -/

/-- What a harmless command leads to: the core goes on where it stands, or nothing happens to it. -/
structure Gentle (s : Server) (m : Machine) (a : Answer) : Prop where
  connection : a.server.connection = s.connection
  machine : a.server.held = s.held ∧ a.machine.view false = m.view false ∨
    a.server.held = false ∧ a.machine.view false = m.resumed.view false

theorem gentle_of_reply (reply : Option Reply) : Gentle s m ⟨s, m, reply⟩ := ⟨rfl, .inl ⟨rfl, rfl⟩⟩

theorem gentle_changePoint (packet : Bytes) (request : Except PointError Point)
    (change : Points → Point → Points) : Gentle s m (s.changePoint m packet request change) := by
  unfold changePoint
  split
  · exact ⟨rfl, .inl ⟨rfl, rfl⟩⟩
  · exact ⟨rfl, .inl ⟨rfl, rfl⟩⟩

theorem gentle_query (packet args : Bytes) :
    Gentle s m (s.carryOut m packet (Command.parseQuery args)) := by
  unfold Command.parseQuery
  split
  · exact gentle_of_reply s m _
  · split
    · exact gentle_of_reply s m _
    · exact gentle_of_reply s m _

theorem gentle_read (packet : Bytes) {command : Option Command}
    (h : ∀ c, command = some c → Gentle s m (s.carryOut m packet c)) :
    Gentle s m (s.carryOut m packet (command.getD .malformed)) := by
  cases command with
  | none => exact gentle_of_reply s m _
  | some c => exact h c rfl

theorem gentle_resume (packet : Bytes) (single : Bool) {args : Bytes} (h : args.isEmpty) :
    Gentle s m (s.carryOut m packet ((Command.parseResume? single args).getD .malformed)) := by
  rw [Command.parseResume?, if_pos h]
  exact ⟨rfl, .inr ⟨rfl, rfl⟩⟩

theorem gentle_carryOut (packet : Bytes) {verb : UInt8} {args : Bytes}
    (h : isHarmless (verb :: args)) (hnot : verb :: args ≠ interrupt) :
    Gentle s m (s.carryOut m packet (Command.parse (verb :: args))) := by
  unfold isHarmless at h
  unfold Command.parse
  dsimp only at h ⊢
  generalize Char.ofUInt8 verb = c at h ⊢
  split at h
  · exact gentle_of_reply s m _
  · exact gentle_query s m packet args
  · exact gentle_of_reply s m _
  · refine gentle_read s m packet fun c hc => ?_
    obtain ⟨number, -, rfl⟩ := Option.map_eq_some_iff.mp hc
    exact gentle_of_reply s m _
  · refine gentle_read s m packet fun c hc => ?_
    obtain ⟨range, -, rfl⟩ := Option.map_eq_some_iff.mp hc
    exact gentle_of_reply s m _
  · exact gentle_changePoint s m packet _ _
  · exact gentle_changePoint s m packet _ _
  · exact gentle_resume s m packet false h
  · exact gentle_resume s m packet true h
  · exact absurd (eq_of_beq h) hnot

theorem gentle_handle {packet : Bytes} (h : isHarmless packet) : Gentle s m (s.handle m packet) := by
  unfold handle
  split
  · exact gentle_of_reply s m none
  · rename_i hcarried
    simp only [Bool.or_eq_true, List.isEmpty_iff, beq_iff_eq, not_or] at hcarried
    obtain _ | ⟨verb, args⟩ := packet
    · exact absurd rfl hcarried.1
    · have hcarry := gentle_carryOut s (m.log .trace "gdb packet" [("packet", .text (verb :: args))])
        (verb :: args) h hcarried.2
      exact ⟨hcarry.connection, hcarry.machine⟩

theorem view_onward_of_gentle {a : Answer} (hheld : s.held = true) (h : Gentle s m a) :
    (a.server.onward a.machine).view false = m.resumed.view false := by
  unfold onward
  obtain ⟨hsame, hview⟩ | ⟨hfree, hview⟩ := h.machine
  · rw [if_pos (hsame.trans hheld)]
    exact view_resumed hview
  · rw [if_neg (by simp [hfree])]
    exact hview

/-! ## Serving -/

theorem keepQueue_connection {queue : List Bytes} {c : Connection}
    (h : (s.keepQueue queue).connection = some c) :
    c.queue = queue ∧ ∃ c', s.connection = some c' ∧ c.reader = c'.reader := by
  obtain ⟨c', hc', rfl⟩ := Option.map_eq_some_iff.mp h
  exact ⟨rfl, c', hc', rfl⟩

/-- What serving leaves: packets that waited, a reader as it was, and a machine that goes on. -/
structure Served (s : Server) (m : Machine) (packets : List Bytes) (s' : Server) (m' : Machine) :
    Prop where
  machine : (s'.onward m').view false = m.resumed.view false
  connection : ∀ c, s'.connection = some c →
    (∀ packet ∈ c.queue, packet ∈ packets) ∧ ∃ c', s.connection = some c' ∧ c.reader = c'.reader

theorem served_serveFrom {packets : List Bytes} (hpackets : ∀ packet ∈ packets, isHarmless packet)
    (hheld : s.held = true) (answers : List (Option Reply)) :
    Served s m packets (s.serveFrom m answers packets).1 (s.serveFrom m answers packets).2.1 := by
  induction packets generalizing s m answers with
  | nil =>
    unfold serveFrom
    dsimp only
    split
    · exact ⟨rfl, nofun⟩
    · refine ⟨?_, fun c hc => ?_⟩
      · show (if s.held then m.resumed else m).view false = _
        rw [if_pos hheld]
      · obtain ⟨hqueue, hreader⟩ := keepQueue_connection s hc
        exact ⟨fun packet hpacket => by simp [hqueue] at hpacket, hreader⟩
  | cons packet packets ih =>
    have hgentle := gentle_handle s m (hpackets packet List.mem_cons_self)
    have honward := view_onward_of_gentle s m hheld hgentle
    unfold serveFrom
    generalize s.handle m packet = a at hgentle honward
    dsimp only
    split
    · rename_i hstill
      have hserved := ih a.server a.machine (fun p hp => hpackets p (List.mem_cons_of_mem _ hp))
        hstill (a.reply :: answers)
      rw [onward, if_pos hstill] at honward
      refine ⟨hserved.machine.trans honward, fun c hc => ?_⟩
      obtain ⟨hqueue, c', hc', hreader⟩ := hserved.connection c hc
      exact ⟨fun p hp => List.mem_cons_of_mem _ (hqueue p hp), c', hgentle.connection ▸ hc', hreader⟩
    · refine ⟨honward, fun c hc => ?_⟩
      obtain ⟨hqueue, c', hc', hreader⟩ := keepQueue_connection a.server hc
      exact ⟨fun p hp => List.mem_cons_of_mem _ (hqueue ▸ hp), c', hgentle.connection ▸ hc', hreader⟩

theorem harmless_queue {s : Server} {rest : Bytes} (h : s.Harmless rest) :
    ∀ packet ∈ s.queue, isHarmless packet := by
  intro packet hpacket
  unfold queue at hpacket
  cases hc : s.connection with
  | none => simp [hc] at hpacket
  | some c => exact (h c hc).1 packet (by simpa [hc] using hpacket)

theorem view_onward_serve {s : Server} {rest : Bytes} (h : s.Harmless rest) :
    ((s.serve m).1.onward (s.serve m).2.1).view false = (s.onward m).view false := by
  unfold serve
  split
  · rename_i hheld
    rw [onward.eq_1 s m, if_pos hheld]
    exact (served_serveFrom s m (harmless_queue h) hheld []).machine
  · rfl

theorem harmless_serve {s : Server} {rest : Bytes} (h : s.Harmless rest) :
    (s.serve m).1.Harmless rest := by
  unfold serve
  split
  · rename_i hheld
    intro c hc
    obtain ⟨hqueue, c', hc', hreader⟩ :=
      (served_serveFrom s m (harmless_queue h) hheld []).connection c hc
    rw [hreader]
    exact ⟨fun packet hpacket => harmless_queue h packet (hqueue packet hpacket), (h c' hc').2⟩
  · exact h

/-! ## The server's turn -/

theorem view_foldl_log (packets : List Bytes) :
    (packets.foldl (fun m packet =>
      m.log .debug "gdb packet ignored while running" [("packet", .text packet)]) m).view false =
      m.view false := by
  induction packets generalizing m with
  | nil => rfl
  | cons packet packets ih => exact ih _

theorem view_pollInterrupt (hheld : s.held = false) (c : Connection) :
    (s.pollInterrupt c m).2.1.held = false ∧
      (s.pollInterrupt c m).2.2.view false = m.view false := by
  have hlog := view_foldl_log m (c.queue.takeWhile (· != interrupt))
  unfold pollInterrupt
  dsimp only
  split
  · exact ⟨hheld, hlog⟩
  · split
    · exact ⟨rfl, hlog⟩
    · exact ⟨hheld, hlog⟩

theorem view_onward_attend (hheld : s.held = false) :
    ((s.attend m).1.onward (s.attend m).2.1).view false =
      (if (s.attend m).1.held then m.resumed else m.released).view false := by
  unfold attend
  split
  · have hfree : ¬ s.held = true := by simp [hheld]
    dsimp only
    rw [onward, if_neg hfree, if_neg hfree]
    rfl
  · rename_i c _
    split
    · rfl
    · split
      · rfl
      · rename_i hgoes
        have hrun : m.run ≠ .stopped := by
          rintro hrun
          simp [hrun] at hgoes
        obtain ⟨hfree, hview⟩ := view_pollInterrupt s m hheld c
        generalize s.pollInterrupt c m = result at hfree hview
        obtain ⟨interrupted, s', m'⟩ := result
        dsimp only at hfree hview ⊢
        have hresumed := view_resumed hview
        split
        · exact hresumed
        · split
          · exact hresumed
          · rw [onward, if_neg (by simp [hfree]), if_neg (by simp [hfree]),
              Machine.released_of_ne hrun]
            exact hview

theorem harmless_keepQueue {s : Server} {rest : Bytes} (h : s.Harmless rest) {queue : List Bytes}
    (hqueue : ∀ packet ∈ queue, isHarmless packet) : (s.keepQueue queue).Harmless rest := by
  intro c hc
  obtain ⟨rfl, c', hc', hreader⟩ := keepQueue_connection s hc
  rw [hreader]
  exact ⟨hqueue, (h c' hc').2⟩

theorem harmless_of_connection {s s' : Server} {rest : Bytes} (h : s.Harmless rest)
    (hsame : s'.connection = s.connection) : s'.Harmless rest := by
  intro c hc
  exact h c (hsame ▸ hc)

theorem harmless_pollInterrupt {s : Server} {rest : Bytes} (h : s.Harmless rest) {c : Connection}
    (hc : s.connection = some c) : (s.pollInterrupt c m).2.1.Harmless rest := by
  have hdrop : ∀ packet ∈ c.queue.dropWhile (· != interrupt), isHarmless packet :=
    fun packet hpacket => (h c hc).1 packet (List.dropWhile_sublist _ |>.mem hpacket)
  unfold pollInterrupt
  dsimp only
  split
  · rename_i hrest
    rw [hrest] at hdrop
    exact harmless_keepQueue h fun packet hpacket => hdrop packet (List.mem_cons_of_mem _ hpacket)
  · split
    · exact nofun
    · exact harmless_keepQueue h nofun

theorem harmless_attend {s : Server} {rest : Bytes} (h : s.Harmless rest) :
    (s.attend m).1.Harmless rest := by
  unfold attend
  split
  · exact h
  · rename_i c hc
    split
    · exact harmless_of_connection h rfl
    · split
      · exact harmless_of_connection h rfl
      · have hpoll := harmless_pollInterrupt m h hc
        generalize s.pollInterrupt c m = result at hpoll
        dsimp only
        split
        · exact harmless_of_connection hpoll rfl
        · split
          · exact harmless_of_connection hpoll rfl
          · exact hpoll

/-! ## Clients -/

theorem harmless_receive {s : Server} {bytes rest : Bytes} (h : s.Harmless (bytes ++ rest)) :
    (s.receive bytes).1.Harmless rest := by
  unfold receive
  split
  · rename_i hnone
    exact fun c hc => absurd (hnone.symm.trans hc) nofun
  · rename_i c hc
    obtain ⟨hqueue, hcoming⟩ := h c hc
    rw [Reader.feedAll_append] at hcoming
    generalize c.reader.feedAll bytes = result at hcoming
    obtain ⟨reader, arrivals⟩ := result
    dsimp only at hcoming ⊢
    rw [List.filterMap_append] at hcoming
    rintro c' hc'
    obtain rfl := Option.some.inj hc'
    refine ⟨fun packet hpacket => ?_, fun packet hpacket => ?_⟩
    · obtain hpacket | hpacket := List.mem_append.mp hpacket
      · exact hqueue packet hpacket
      · exact hcoming packet (List.mem_append_left _ hpacket)
    · exact hcoming packet (List.mem_append_right _ hpacket)

theorem harmless_hangUp {s : Server} {rest : Bytes} (h : s.Harmless rest) :
    s.hangUp.Harmless rest := by
  intro c hc
  obtain ⟨c', hc', rfl⟩ := Option.map_eq_some_iff.mp hc
  exact h c' hc'

theorem harmless_accept (remote : String) {rest : Bytes}
    (h : ∀ packet ∈ (Reader.idle.feedAll rest).2.filterMap Arrival.packet?, isHarmless packet) :
    (s.accept m remote).1.Harmless rest := by
  intro c hc
  obtain rfl := Option.some.inj hc
  exact ⟨nofun, h⟩

end Server

end AvrSim.Gdb
