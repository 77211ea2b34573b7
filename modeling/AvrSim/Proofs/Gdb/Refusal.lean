import AvrSim.Gdb.Server
import AvrSim.Proofs.Core.Strict

/-!
# Packets that change nothing

A server checks a request completely before it acts on it. A packet that is refused, for its form or for
what it asks for, leaves no trace but an entry in the journal, and so does a packet that only asks. For
no packet does the server touch a memory outside of its bounds: the functions under `Strict` are those of
the server with the same names, except that they fail at the first access that is out of range.

* `Gdb.Server.carryOut_cases`: a command is carried out, or it changes nothing.
* `Strict.handle_eq`: answering a packet needs no access out of range.
* `Gdb.Server.handle_inert`: packets that are refused and packets that only ask.
-/

namespace AvrSim

namespace Gdb

/-! ## What a packet leaves -/

/-- The packets that only ask: for the reason of a stop, about the server, for registers and memory. -/
def isQuestion : Bytes → Bool
  | [] => false
  | verb :: _ =>
    match Char.ofUInt8 verb with
    | '?' | 'q' | 'g' | 'p' | 'm' => true
    | _ => false

namespace Answer

/-- The packet is answered with an error, or with the empty payload. -/
def IsRefusal (a : Answer) : Prop :=
  ∃ reply, a.reply = some reply ∧ (reply.payload = Bytes.ofString "E01" ∨ reply.payload = [])

/-- The server is as it was, and all of the machine but its journal. -/
structure Inert (s : Server) (m : Machine) (a : Answer) : Prop where
  server : a.server = s
  machine : a.machine = { m with journal := a.machine.journal }

/-- A refusal is neither silence nor consent. -/
theorem IsRefusal.ne {a : Answer} (h : a.IsRefusal) : a.reply ≠ none ∧ a.reply ≠ some .ok := by
  obtain ⟨reply, hreply, hpayload⟩ := h
  rw [hreply]
  refine ⟨nofun, ?_⟩
  rintro ⟨⟩
  revert hpayload
  decide +kernel

end Answer

namespace Server

variable (s : Server) (m : Machine)

theorem inert_reply (reply : Option Reply) : Answer.Inert s m ⟨s, m, reply⟩ := ⟨rfl, rfl⟩

theorem answerChange_cases (changed : Option Machine) :
    (s.answerChange m changed).Inert s m ∨ (s.answerChange m changed).reply = some .ok := by
  cases changed with
  | none => exact .inl (inert_reply s m _)
  | some m' => exact .inr rfl

theorem changePoint_cases (packet : Bytes) (request : Except PointError Point)
    (change : Points → Point → Points) :
    (s.changePoint m packet request change).Inert s m ∨
      (s.changePoint m packet request change).reply = some .ok := by
  cases request with
  | ok point => exact .inr rfl
  | error e => exact .inl ⟨rfl, rfl⟩

/-- A command that changes something is answered with consent, or not at all. -/
theorem carryOut_cases (packet : Bytes) (command : Command) :
    (s.carryOut m packet command).Inert s m ∨
      (s.carryOut m packet command).reply = none ∨ (s.carryOut m packet command).reply = some .ok := by
  cases command with
  | writeRegisters bytes => exact (answerChange_cases s m _).imp_right .inr
  | writeRegister number bytes => exact (answerChange_cases s m _).imp_right .inr
  | writeMemory address bytes => exact (answerChange_cases s m _).imp_right .inr
  | insertPoint request => exact (changePoint_cases s m packet request _).imp_right .inr
  | erasePoint request => exact (changePoint_cases s m packet request _).imp_right .inr
  | resume single target => exact .inr (.inl rfl)
  | kill => exact .inr (.inl rfl)
  | detach => exact .inr (.inr rfl)
  | stopReason => exact .inl (inert_reply s m _)
  | features => exact .inl (inert_reply s m _)
  | attached => exact .inl (inert_reply s m _)
  | readRegisters => exact .inl (inert_reply s m _)
  | readRegister number => exact .inl (inert_reply s m _)
  | readMemory address length => exact .inl (inert_reply s m _)
  | malformed => exact .inl (inert_reply s m _)
  | unknown => exact .inl (inert_reply s m _)

theorem inert_query (packet args : Bytes) :
    (s.carryOut m packet (Command.parseQuery args)).Inert s m := by
  unfold Command.parseQuery
  split
  · exact inert_reply s m _
  · split
    · exact inert_reply s m _
    · exact inert_reply s m _

/-- A question whose form is wrong is refused, and a refusal changes nothing either. -/
theorem inert_getD {α : Type} (packet : Bytes) (args : Option α) {command : α → Command}
    (h : ∀ x, (s.carryOut m packet (command x)).Inert s m) :
    (s.carryOut m packet ((args.map command).getD .malformed)).Inert s m := by
  cases args with
  | none => exact inert_reply s m _
  | some x => exact h x

theorem inert_question {packet : Bytes} (h : isQuestion packet = true) :
    (s.carryOut m packet (Command.parse packet)).Inert s m := by
  obtain _ | ⟨verb, args⟩ := packet
  · cases h
  · unfold isQuestion at h
    unfold Command.parse
    dsimp only at h ⊢
    generalize Char.ofUInt8 verb = c at h ⊢
    split at h
    · exact inert_reply s m _
    · exact inert_query s m _ args
    · exact inert_reply s m _
    · exact inert_getD s m _ (number? 8 args) fun number => inert_reply s m _
    · exact inert_getD s m _ (range? args) fun range => inert_reply s m _
    · cases h

/-- The journal is all that can tell of a packet before it is carried out. -/
theorem inert_of_log {level : Level} {message : String} {values : List (String × Value)} {a : Answer}
    (h : a.Inert s (m.log level message values)) : a.Inert s m :=
  ⟨h.server, h.machine⟩

theorem inert_handle {packet : Bytes}
    (h : (s.handle m packet).IsRefusal ∨ isQuestion packet = true) : (s.handle m packet).Inert s m := by
  unfold handle at h ⊢
  split
  · exact inert_reply s m none
  · rename_i hcarried
    rw [if_neg hcarried] at h
    apply inert_of_log
    rcases h with hrefusal | hquestion
    · obtain hinert | hnone | hok := carryOut_cases s _ packet (Command.parse packet)
      · exact hinert
      · exact absurd hnone hrefusal.ne.1
      · exact absurd hok hrefusal.ne.2
    · exact inert_question s _ hquestion

end Server

end Gdb

/-! ## Accesses that check every range -/

namespace Strict

open Machine (statusNumber stackNumber programNumber wordBytes longBytes longOfBytes)
open Gdb (Server Answer Command locate?)

/-- The bytes of a range, all of which must exist. -/
def slice (m : Memory) (address length : Nat) : Option (List UInt8) :=
  if address + length ≤ m.size then some (m.slice address length) else none

/-- The memory with a range changed, all of which must exist. -/
def store (m : Memory) (address : Nat) (values : List UInt8) : Option Memory :=
  if address + values.length ≤ m.size then some (m.store address values) else none

def registerBytes (m : Machine) : Option (List UInt8) := do
  return (← slice m.data 0 32) ++ (← status m.data) :: wordBytes (← sp m.data) ++ longBytes m.program

def register? (m : Machine) (n : Nat) : Option (Option (List UInt8)) := do
  if n < 32 then return some [← get m.data n]
  else if n = statusNumber then return some [← status m.data]
  else if n = stackNumber then return some (wordBytes (← sp m.data))
  else if n = programNumber then return some (longBytes m.program)
  else return none

def storeRegister? (m : Machine) (n : Nat) (value : List UInt8) : Option (Option Machine) := do
  match value with
  | [b] =>
    if n < 32 then return some { m with data := ← set m.data n b }
    else if n = statusNumber then return some { m with data := ← setStatus m.data b }
    else return none
  | low :: high :: rest =>
    if n = programNumber then return some { m with program := longOfBytes value }
    else if n = stackNumber && rest.isEmpty then
      return some { m with data := ← set (← set m.data splAddress low) sphAddress high }
    else return none
  | [] => return none

def storeRegisters? (m : Machine) (bytes : List UInt8) : Option (Option Machine) := do
  match bytes.drop 32 with
  | status :: low :: high :: program =>
    let data ← setStatus (← store m.data 0 (bytes.take 32)) status
    let m := { m with data := ← set (← set data splAddress low) sphAddress high }
    return some (if program.length < 4 then m
      else { m with program := longOfBytes (program.take 4) })
  | _ => return none

def readMemory? (m : Machine) (address length : Nat) : Option (Option (List UInt8)) :=
  match locate? m address length with
  | some (space, offset) => do return some (← slice (space.memory m) offset length)
  | none => some none

def writeMemory? (m : Machine) (address : Nat) (bytes : List UInt8) : Option (Option Machine) :=
  match locate? m address bytes.length with
  | some (.flash, offset) => do return some { m with flash := ← store m.flash offset bytes }
  | some (.data, offset) => do return some { m with data := ← store m.data offset bytes }
  | none => some none

/-- All other commands are carried out without a look at the memories. -/
def carryOut (s : Server) (m : Machine) (packet : Bytes) : Command → Option Answer
  | .readRegisters => do return ⟨s, m, some (.bytes (← registerBytes m))⟩
  | .writeRegisters bytes => do return s.answerChange m (← storeRegisters? m bytes)
  | .readRegister number => do return s.answerBytes m (← register? m number)
  | .writeRegister number bytes => do return s.answerChange m (← storeRegister? m number bytes)
  | .readMemory address length => do return s.answerBytes m (← readMemory? m address length)
  | .writeMemory address bytes => do return s.answerChange m (← writeMemory? m address bytes)
  | command => some (s.carryOut m packet command)

def handle (s : Server) (m : Machine) (packet : Bytes) : Option Answer :=
  if packet.isEmpty || packet == Gdb.interrupt then some ⟨s, m, none⟩
  else
    carryOut s (m.log .trace "gdb packet" [("packet", .text packet)]) packet (Command.parse packet)

theorem slice_eq {m : Memory} {address length : Nat} (h : address + length ≤ m.size) :
    slice m address length = some (m.slice address length) := if_pos h

theorem store_eq {m : Memory} {address : Nat} {values : List UInt8}
    (h : address + values.length ≤ m.size) :
    store m address values = some (m.store address values) := if_pos h

theorem set_set_eq {m : Memory} (h : Roomy m) (low high : UInt8) :
    ((set m splAddress low).bind fun m => set m sphAddress high) =
      some ((m.set splAddress low).set sphAddress high) := by
  rw [set_eq (h.lt (by decide)), Option.bind_some]
  exact set_eq ((h.of_size (Memory.size_set ..)).lt (by decide)) high

/-- A range that the server finds lies in the memory where it finds it. -/
theorem le_size_of_locate? {m : Machine} {address length offset : Nat} {space : Gdb.Space}
    (h : locate? m address length = some (space, offset)) :
    offset + length ≤ (space.memory m).size := by
  unfold locate? at h
  split at h
  · cases h
  · generalize (if Gdb.dataStart ≤ address then (Gdb.Space.data, address - Gdb.dataStart)
      else (Gdb.Space.flash, address)) = place at h
    dsimp only at h
    split at h
    · rename_i hroom
      cases h
      exact hroom
    · cases h

theorem readMemory?_eq (m : Machine) (address length : Nat) :
    readMemory? m address length = some (Gdb.readMemory? m address length) := by
  unfold readMemory? Gdb.readMemory?
  cases hplace : locate? m address length with
  | none => rfl
  | some place =>
    obtain ⟨space, offset⟩ := place
    dsimp only
    rw [slice_eq (le_size_of_locate? hplace)]
    rfl

theorem writeMemory?_eq (m : Machine) (address : Nat) (bytes : List UInt8) :
    writeMemory? m address bytes = some (Gdb.writeMemory? m address bytes) := by
  unfold writeMemory? Gdb.writeMemory?
  cases hplace : locate? m address bytes.length with
  | none => rfl
  | some place =>
    obtain ⟨space, offset⟩ := place
    have hroom := le_size_of_locate? hplace
    cases space with
    | flash =>
      dsimp only
      rw [store_eq (m := m.flash) hroom]
      rfl
    | data =>
      dsimp only
      rw [store_eq (m := m.data) hroom]
      rfl

section

variable {m : Machine} (h : Roomy m.data)

include h

theorem registerBytes_eq : registerBytes m = some m.registerBytes := by
  have hslice : slice m.data 0 32 = some (m.data.slice 0 32) :=
    slice_eq (Nat.le_trans (by decide) h)
  rw [registerBytes, hslice, status_eq h, sp_eq h]
  rfl

theorem register?_eq (n : Nat) : register? m n = some (m.register? n) := by
  unfold register? Machine.register?
  split
  · rw [get_eq (h.lt (by omega))]
    rfl
  · split
    · rw [status_eq h]
      rfl
    · split
      · rw [sp_eq h]
        rfl
      · split <;> rfl

theorem storeRegister?_eq (n : Nat) (value : List UInt8) :
    storeRegister? m n value = some (m.storeRegister? n value) := by
  match value with
  | [] => rfl
  | [b] =>
    simp only [storeRegister?, Machine.storeRegister?]
    split
    · rw [set_eq (h.lt (by omega))]
      rfl
    · split
      · rw [setStatus_eq h]
        rfl
      · rfl
  | low :: high :: rest =>
    simp only [storeRegister?, Machine.storeRegister?]
    split
    · rfl
    · split
      · simp only [Option.bind_eq_bind]
        rw [← Option.bind_assoc, set_set_eq h]
        rfl
      · rfl

theorem storeRegisters?_eq (bytes : List UInt8) :
    storeRegisters? m bytes = some (m.storeRegisters? bytes) := by
  have hstore : store m.data 0 (bytes.take 32) = some (m.data.store 0 (bytes.take 32)) := by
    apply store_eq
    have htake := List.length_take_le 32 bytes
    have hroom : 0x100 ≤ m.data.size := h
    omega
  have hstored : Roomy (m.data.store 0 (bytes.take 32)) := h.of_size (Memory.size_store ..)
  unfold storeRegisters? Machine.storeRegisters?
  match bytes.drop 32 with
  | status :: low :: high :: program =>
    have hstatus : Roomy ((m.data.store 0 (bytes.take 32)).setStatus status) :=
      hstored.of_size (Memory.size_set ..)
    simp only [Option.bind_eq_bind]
    rw [hstore, Option.bind_some, setStatus_eq hstored, Option.bind_some, ← Option.bind_assoc,
      set_set_eq hstatus]
    rfl
  | [] => rfl
  | [_] => rfl
  | [_, _] => rfl

theorem carryOut_eq (s : Server) (packet : Bytes) (command : Command) :
    carryOut s m packet command = some (s.carryOut m packet command) := by
  cases command with
  | readRegisters =>
    rw [carryOut, registerBytes_eq h]
    rfl
  | writeRegisters bytes =>
    rw [carryOut, storeRegisters?_eq h]
    rfl
  | readRegister number =>
    rw [carryOut, register?_eq h]
    rfl
  | writeRegister number bytes =>
    rw [carryOut, storeRegister?_eq h]
    rfl
  | readMemory address length =>
    rw [carryOut, readMemory?_eq]
    rfl
  | writeMemory address bytes =>
    rw [carryOut, writeMemory?_eq]
    rfl
  | stopReason => rfl
  | features => rfl
  | attached => rfl
  | resume single target => rfl
  | kill => rfl
  | detach => rfl
  | insertPoint request => rfl
  | erasePoint request => rfl
  | malformed => rfl
  | unknown => rfl

/-- Whatever addresses and lengths a packet names, no access is out of range. -/
theorem handle_eq (s : Server) (packet : Bytes) : handle s m packet = some (s.handle m packet) := by
  unfold handle Server.handle
  split
  · rfl
  · have hlog : Roomy (m.log .trace "gdb packet" [("packet", .text packet)]).data := h
    exact carryOut_eq hlog s packet (Command.parse packet)

end

end Strict

/-! ## Packets that are refused and packets that only ask -/

namespace Gdb.Server

/-- **Refusals and questions** leave the server as it was, and all of the machine but its journal. No
packet at all makes the server reach out of the flash or, if that has room for the registers, out of the
data space. -/
theorem handle_inert (s : Server) (m : Machine) (packet : Bytes) :
    ((s.handle m packet).IsRefusal ∨ isQuestion packet = true →
      (s.handle m packet).server = s ∧
      (s.handle m packet).machine = { m with journal := (s.handle m packet).machine.journal }) ∧
    (Strict.Roomy m.data → Strict.handle s m packet = some (s.handle m packet)) := by
  refine ⟨?_, fun hroom => Strict.handle_eq hroom s packet⟩
  intro h
  have hinert := inert_handle s m h
  exact ⟨hinert.server, hinert.machine⟩

/-- A machine in the middle of its program, and a server that steps it. -/
def halfway : Machine where
  model := .atmega48
  data := (Memory.zeros 256).set 16 7
  flash := Memory.zeros 8
  program := 4
  cycle := 9
  codeEnd := 7
  journal := { threshold := none }
  wiring := {}

def stepper : Server := { stepping := true, points := { breakpoints := [2] } }

/-- Two bytes for the memory at register 16, of which only the first is there. -/
def shortWrite : Bytes := Bytes.ofString "M800010,2:00"

/-- The first byte is not written. -/
theorem shortWrite_inert :
    (stepper.handle halfway shortWrite).reply = some .failed ∧
      (stepper.handle halfway shortWrite).server = stepper ∧
      (stepper.handle halfway shortWrite).machine.data.get 16 = 7 ∧
      Strict.handle stepper halfway shortWrite = some (stepper.handle halfway shortWrite) := by
  have hreply : (stepper.handle halfway shortWrite).reply = some .failed := by decide +kernel
  obtain ⟨hinert, hstrict⟩ := handle_inert stepper halfway shortWrite
  obtain ⟨hserver, hmachine⟩ := hinert (.inl ⟨.failed, hreply, .inl rfl⟩)
  refine ⟨hreply, hserver, ?_, hstrict (show 256 ≤ halfway.data.size by decide +kernel)⟩
  rw [hmachine]
  decide +kernel

end Gdb.Server

end AvrSim
