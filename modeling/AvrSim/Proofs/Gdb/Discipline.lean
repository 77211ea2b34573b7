import AvrSim.Gdb.Command

/-!
# The discipline of a session

A session of a client is a sequence of moves: the server takes a packet and handles it, sends a reply, or
drops a packet that came while the core was running, and the core takes a step. `Gdb.Disciplined` is the
law that clients rely on, about all the packets and replies of a session. `Gdb.Stage` is what the server
has to remember to keep it, one move at a time.

* `Gdb.Stage.Step`: the moves that may be made at a stage.
* `Gdb.Stage.Run.disciplined`: sessions that are made of such moves obey the law.
-/

namespace AvrSim.Gdb

/-! ## Packets -/

/-- Packets by what a client may expect: nothing, the reason of the last stop, some other answer, a stop
later on, or the end of the session without and with an answer. -/
inductive Kind
  | idle
  | inquiry
  | request
  | resume
  | kill
  | detach
  deriving DecidableEq, Repr

namespace Kind

/-- The kind of a packet. One that asks to resume at an address that cannot be read is a request like
others. -/
def ofPacket : Bytes → Kind
  | [] => idle
  | verb :: args =>
    if verb :: args = interrupt then idle
    else match Char.ofUInt8 verb with
      | '?' => inquiry
      | 'c' | 's' => if args.isEmpty || (number? 32 args).isSome then resume else request
      | 'k' => kill
      | 'D' => detach
      | _ => request

/-- Whether the packet is answered at once. -/
def isAnswered : Kind → Bool
  | inquiry | request | detach => true
  | idle | resume | kill => false

/-- Whether the packet ends the session. -/
def parts : Kind → Bool
  | kill | detach => true
  | idle | inquiry | request | resume => false

/-- Whether a held session stays held. -/
def stays : Kind → Bool
  | idle | inquiry | request => true
  | resume | kill | detach => false

/-- The replies that may answer a packet: only the reason of a stop is told as a stop. -/
def admits : Kind → Reply → Bool
  | inquiry, reply => reply == .stop .trap
  | detach, reply => reply == .ok
  | request, .stop _ => false
  | request, _ => true
  | _, _ => false

/-- What may follow a packet at once: an answer, or none. -/
def allows (kind : Kind) : Option Reply → Bool
  | none => !kind.isAnswered
  | some reply => kind.admits reply

end Kind

/-- The stop replies that a client knows. -/
def StopReply.Usual (reason : StopReply) : Prop :=
  reason.text = "S05" ∨ reason.text = "S02" ∨ ∃ rest, reason.text = "T05" ++ rest

theorem StopReply.usual_trap : trap.Usual := .inl (by decide +kernel)

theorem StopReply.usual_interrupted : interrupted.Usual := .inr (.inl (by decide +kernel))

theorem StopReply.usual_watch (kind : WatchKind) (address : UInt16) : (watch kind address).Usual := by
  have hsignal : "T" ++ Text.hex 2 5 = "T05" := by decide +kernel
  refine .inr (.inr ⟨kind.word ++ ":" ++ Text.hex 1 (dataStart + address.toNat) ++ ";", ?_⟩)
  unfold text
  rw [hsignal]
  simp only [String.append_assoc]

/-! ## Moves -/

/-- What happens in a session. -/
inductive Move
  | takes (packet : Bytes)
  | drops (packet : Bytes)
  | sends (reply : Reply)
  | steps
  deriving DecidableEq, Repr

namespace Move

def isTaking : Move → Bool
  | takes _ => true
  | drops _ | sends _ | steps => false

/-- Whether the core runs on and the client is told nothing. -/
def isCalm : Move → Bool
  | drops _ | steps => true
  | takes _ | sends _ => false

def reply? : Move → Option Reply
  | sends reply => some reply
  | takes _ | drops _ | steps => none

/-- The packet that leaves the queue. -/
def packet? : Move → Option Bytes
  | takes packet | drops packet => some packet
  | sends _ | steps => none

/-- The replies sent before the next packet is handled. -/
def repliesNow (log : List Move) : List Reply :=
  (log.takeWhile (!·.isTaking)).filterMap reply?

theorem repliesNow_sends (reply : Reply) (log : List Move) :
    repliesNow (sends reply :: log) = reply :: repliesNow log := rfl

end Move

open Move (repliesNow)

/-- The law of a session, about every packet that is handled and every stop reply that is sent. -/
structure Disciplined (log : List Move) : Prop where
  /-- A packet that is to be answered is answered at once, in a way that fits it, and by no other reply
  before the next packet is handled. -/
  answered : ∀ early packet late, log = early ++ .takes packet :: late →
    (Kind.ofPacket packet).isAnswered = true →
      ∃ reply rest, late = .sends reply :: rest ∧ (Kind.ofPacket packet).admits reply = true ∧
        repliesNow rest = []
  /-- An empty packet, an interrupt of a core that stands still and a kill are not answered. -/
  unanswered : ∀ early packet late, log = early ++ .takes packet :: late →
    Kind.ofPacket packet = .idle ∨ Kind.ofPacket packet = .kill → repliesNow late = []
  /-- When the core is resumed, a step comes first. Then one stop reply is sent before the next packet is
  handled, or there is no next packet and no reply. -/
  resumed : ∀ early packet late, log = early ++ .takes packet :: late →
    Kind.ofPacket packet = .resume →
      (late = [] ∨ ∃ rest, late = .steps :: rest) ∧
      ((∃ reason : StopReply, reason.Usual ∧ repliesNow late = [.stop reason]) ∨
        repliesNow late = [] ∧ ∀ move ∈ late, move.isTaking = false)
  /-- A stop reply answers a question for it, or it is the first thing to be said since the core was
  resumed. -/
  stopped : ∀ early reason late, log = early ++ .sends (.stop reason) :: late →
    ∃ before packet since, early = before ++ .takes packet :: since ∧
      (Kind.ofPacket packet = .inquiry ∧ since = [] ∨
        Kind.ofPacket packet = .resume ∧ ∀ move ∈ since, move.isCalm = true)

/-! ## Stages -/

/-- Where a session stands: it is held, a packet is still to be answered, the core was resumed and has
taken no step, it is running, or nobody is there to talk to. -/
inductive Stage
  | held
  | owing (packet : Bytes)
  | resumed
  | running
  | gone
  deriving DecidableEq, Repr

namespace Stage

/-- The moves that may be made at a stage, with the stage that follows. A core that takes a step out of a
held session has lost its client. -/
inductive Step : Stage → Move → Stage → Prop
  | idle {packet : Bytes} (h : Kind.ofPacket packet = .idle) : Step held (.takes packet) held
  | ask {packet : Bytes} (h : (Kind.ofPacket packet).isAnswered = true) :
      Step held (.takes packet) (owing packet)
  | resume {packet : Bytes} (h : Kind.ofPacket packet = .resume) : Step held (.takes packet) resumed
  | kill {packet : Bytes} (h : Kind.ofPacket packet = .kill) : Step held (.takes packet) gone
  | answer {packet : Bytes} {reply : Reply} (h : (Kind.ofPacket packet).admits reply = true)
      (hstays : (Kind.ofPacket packet).parts = false) : Step (owing packet) (.sends reply) held
  | part {packet : Bytes} {reply : Reply} (h : (Kind.ofPacket packet).admits reply = true)
      (hparts : (Kind.ofPacket packet).parts = true) : Step (owing packet) (.sends reply) gone
  | lose : Step held .steps gone
  | start : Step resumed .steps running
  | run : Step running .steps running
  | drop (packet : Bytes) : Step running (.drops packet) running
  | stop {reason : StopReply} (h : reason.Usual) : Step running (.sends (.stop reason)) held
  | alone : Step gone .steps gone

/-- Moves that may be made one after the other. -/
inductive Run : Stage → List Move → Stage → Prop
  | nil (stage : Stage) : Run stage [] stage
  | cons {stage stage' stage'' : Stage} {move : Move} {log : List Move} (hstep : Step stage move stage')
      (hrun : Run stage' log stage'') : Run stage (move :: log) stage''

namespace Run

variable {stage stage' stage'' : Stage} {log log' : List Move}

theorem single {move : Move} (h : Step stage move stage') : Run stage [move] stage' :=
  .cons h (.nil stage')

theorem append (h : Run stage log stage') (h' : Run stage' log' stage'') :
    Run stage (log ++ log') stage'' := by
  induction h with
  | nil stage => exact h'
  | cons hstep _ ih => exact .cons hstep (ih h')

theorem split {early late : List Move} {move : Move} (h : Run stage (early ++ move :: late) stage'') :
    ∃ before after, Run stage early before ∧ Step before move after ∧ Run after late stage'' := by
  induction early generalizing stage with
  | nil =>
    cases h with
    | cons hstep hrun => exact ⟨stage, _, .nil stage, hstep, hrun⟩
  | cons first early ih =>
    cases h with
    | cons hstep hrun =>
      obtain ⟨before, after, hearly, hmove, hlate⟩ := ih hrun
      exact ⟨before, after, .cons hstep hearly, hmove, hlate⟩

/-! ## What comes after a stage -/

theorem repliesNow_of_held (h : Run stage log stage') (hstage : stage = held ∨ stage = gone) :
    repliesNow log = [] := by
  induction h with
  | nil => rfl
  | cons hstep hrun ih =>
    cases hstep with
    | idle | ask | resume | kill => rfl
    | lose => exact ih (.inr rfl)
    | alone => exact ih (.inr rfl)
    | answer | part | start | run | drop | stop => simp at hstage

/-- A running core ends up with a stop reply, or it runs on. -/
theorem replies_of_running (h : Run stage log stage') (hstage : stage = running) :
    (∃ reason : StopReply, reason.Usual ∧ repliesNow log = [.stop reason]) ∨
      repliesNow log = [] ∧ ∀ move ∈ log, move.isTaking = false := by
  induction h with
  | nil => exact .inr ⟨rfl, nofun⟩
  | cons hstep hrun ih =>
    subst hstage
    cases hstep with
    | run | drop =>
      obtain hstopped | ⟨hnone, hcalm⟩ := ih rfl
      · exact .inl hstopped
      · exact .inr ⟨hnone, List.forall_mem_cons.mpr ⟨rfl, hcalm⟩⟩
    | stop husual =>
      have hlater := repliesNow_of_held hrun (.inl rfl)
      exact .inl ⟨_, husual, by rw [Move.repliesNow_sends, hlater]⟩

/-! ## What comes before a stage -/

theorem of_owing {packet : Bytes} (h : Run stage log stage') (hstage' : stage' = owing packet) :
    (∃ before, log = before ++ [.takes packet]) ∨ log = [] ∧ stage = owing packet := by
  induction h with
  | nil => exact .inr ⟨rfl, hstage'⟩
  | @cons _ _ _ move log hstep _ ih =>
    obtain ⟨before, rfl⟩ | ⟨rfl, rfl⟩ := ih hstage'
    · exact .inl ⟨move :: before, rfl⟩
    · cases hstep with
      | ask => exact .inl ⟨[], rfl⟩

/-- A core that runs was resumed, and all was calm since. -/
theorem of_running (h : Run stage log stage') (hstage' : stage' = resumed ∨ stage' = running) :
    (∃ before packet since, log = before ++ .takes packet :: since ∧
      Kind.ofPacket packet = .resume ∧ ∀ move ∈ since, move.isCalm = true) ∨
    (stage = resumed ∨ stage = running) ∧ ∀ move ∈ log, move.isCalm = true := by
  induction h with
  | nil => exact .inr ⟨hstage', nofun⟩
  | @cons _ _ _ move log hstep _ ih =>
    obtain ⟨before, packet, since, rfl, hresume, hcalm⟩ | ⟨hmiddle, hcalm⟩ := ih hstage'
    · exact .inl ⟨move :: before, packet, since, rfl, hresume, hcalm⟩
    · cases hstep with
      | resume hresume => exact .inl ⟨[], _, log, rfl, hresume, hcalm⟩
      | start => exact .inr ⟨.inl rfl, List.forall_mem_cons.mpr ⟨rfl, hcalm⟩⟩
      | run | drop => exact .inr ⟨.inr rfl, List.forall_mem_cons.mpr ⟨rfl, hcalm⟩⟩
      | idle | ask | kill | answer | part | lose | stop | alone => simp at hmiddle

/-! ## The law -/

/-- **Moves that fit the stages** obey the law, if no packet is left to be answered. -/
theorem disciplined (h : Run held log stage') (hend : ∀ packet, stage' ≠ owing packet) :
    Disciplined log where
  answered := by
    rintro early packet late rfl hanswered
    obtain ⟨before, after, -, hstep, hlate⟩ := h.split
    cases hstep with
    | ask =>
      cases hlate with
      | nil => exact absurd rfl (hend packet)
      | cons hreply hrest =>
        cases hreply with
        | answer hadmits => exact ⟨_, _, rfl, hadmits, repliesNow_of_held hrest (.inl rfl)⟩
        | part hadmits => exact ⟨_, _, rfl, hadmits, repliesNow_of_held hrest (.inr rfl)⟩
    | idle hkind | resume hkind | kill hkind =>
      rw [hkind] at hanswered
      cases hanswered
  unanswered := by
    rintro early packet late rfl hkind
    obtain ⟨before, after, -, hstep, hlate⟩ := h.split
    cases hstep with
    | idle => exact repliesNow_of_held hlate (.inl rfl)
    | kill => exact repliesNow_of_held hlate (.inr rfl)
    | ask hanswered => rcases hkind with hkind | hkind <;> simp [hkind, Kind.isAnswered] at hanswered
    | resume hresume => simp [hresume] at hkind
  resumed := by
    rintro early packet late rfl hkind
    obtain ⟨before, after, -, hstep, hlate⟩ := h.split
    cases hstep with
    | resume =>
      cases hlate with
      | nil => exact ⟨.inl rfl, .inr ⟨rfl, nofun⟩⟩
      | cons hfirst hrest =>
        cases hfirst with
        | start =>
          refine ⟨.inr ⟨_, rfl⟩, ?_⟩
          obtain hstopped | ⟨hnone, hcalm⟩ := replies_of_running hrest rfl
          · exact .inl hstopped
          · exact .inr ⟨hnone, List.forall_mem_cons.mpr ⟨rfl, hcalm⟩⟩
    | idle hidle => simp [hidle] at hkind
    | ask hanswered => simp [hkind, Kind.isAnswered] at hanswered
    | kill hkill => simp [hkill] at hkind
  stopped := by
    rintro early reason late rfl
    obtain ⟨before, after, hearly, hstep, -⟩ := h.split
    have howing (packet : Bytes) (hbefore : before = owing packet)
        (hadmits : (Kind.ofPacket packet).admits (.stop reason) = true) :
        ∃ before packet since, early = before ++ .takes packet :: since ∧
          (Kind.ofPacket packet = .inquiry ∧ since = [] ∨
            Kind.ofPacket packet = .resume ∧ ∀ move ∈ since, move.isCalm = true) := by
      obtain ⟨before, rfl⟩ | ⟨-, hnone⟩ := of_owing hearly hbefore
      · refine ⟨before, packet, [], rfl, .inl ⟨?_, rfl⟩⟩
        revert hadmits
        cases Kind.ofPacket packet <;> simp [Kind.admits]
      · cases hnone
    cases hstep with
    | answer hadmits => exact howing _ rfl hadmits
    | part hadmits => exact howing _ rfl hadmits
    | stop =>
      obtain ⟨before, packet, since, rfl, hresume, hcalm⟩ | ⟨hnone, -⟩ := of_running hearly (.inr rfl)
      · exact ⟨before, packet, since, rfl, .inr ⟨hresume, hcalm⟩⟩
      · simp at hnone

end Run

end Stage

/-! ## Exchanges -/

/-- The stage after a packet was handled in a held session. -/
def Kind.next : Kind → Stage
  | idle | inquiry | request => .held
  | resume => .resumed
  | kill | detach => .gone

/-- The moves for a packet that is handled. -/
def exchange (packet : Bytes) (reply : Option Reply) : List Move :=
  .takes packet :: (reply.map Move.sends).toList

theorem packets_exchange (packet : Bytes) (reply : Option Reply) :
    (exchange packet reply).filterMap Move.packet? = [packet] := by
  cases reply <;> rfl

theorem Stage.run_exchange {packet : Bytes} {reply : Option Reply}
    (h : (Kind.ofPacket packet).allows reply = true) :
    Run held (exchange packet reply) (Kind.ofPacket packet).next := by
  cases reply with
  | none =>
    cases hkind : Kind.ofPacket packet with
    | idle => exact .single (.idle hkind)
    | resume => exact .single (.resume hkind)
    | kill => exact .single (.kill hkind)
    | inquiry | request | detach =>
      rw [hkind] at h
      cases h
  | some reply =>
    have hadmits : (Kind.ofPacket packet).admits reply = true := h
    have hanswered : (Kind.ofPacket packet).isAnswered = true := by
      revert hadmits
      cases Kind.ofPacket packet <;> simp [Kind.admits, Kind.isAnswered]
    refine .cons (.ask hanswered) (.single ?_)
    cases hkind : Kind.ofPacket packet with
    | inquiry | request => exact .answer hadmits (by rw [hkind]; rfl)
    | detach => exact .part hadmits (by rw [hkind]; rfl)
    | idle | resume | kill =>
      rw [hkind] at hanswered
      cases hanswered

end AvrSim.Gdb
