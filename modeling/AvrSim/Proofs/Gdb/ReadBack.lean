import AvrSim.Proofs.Gdb.Framing
import AvrSim.Proofs.Gdb.Refusal
import AvrSim.Proofs.Gdb.RegisterFile
import AvrSim.Proofs.Gdb.Requests

/-!
# What is written is read back

A client changes registers and memory with one set of packets and asks for them with another. What it
has written it is shown again, also where registers, the status register and the stack pointer are bytes
of the data space, and nothing is changed that the packet did not name.

* `Confined`: the parts of a machine that a change is confined to.
* `Reaches`: where a range of client addresses lies, with `locate?_eq_some_iff`.
* `Server.writeRegisters_read_back`, `Server.writeRegister_read_back`,
  `Server.writeMemory_read_back`: one packet of each kind, and a question after it.
* `Server.writes_read_back`: all of them.
-/

namespace AvrSim

theorem Hex.spelling_encodeLower (bytes : List UInt8) : Spelling (encodeLower bytes) bytes := by
  induction bytes with
  | nil => exact .nil
  | cons b bytes ih =>
    have hb := b.toNat_lt
    have hdigit {n : Nat} (hn : n < 16) : digit? (lowerDigit n) = some n :=
      digit?_eq_some_iff.mpr ⟨hn, .inl rfl⟩
    have hbyte : UInt8.ofNat (b.toNat / 16 * 16 + b.toNat % 16) = b := by
      rw [Nat.div_add_mod', UInt8.ofNat_toNat]
    have hspelling := Spelling.cons (hdigit (show b.toNat / 16 < 16 by omega))
      (hdigit (show b.toNat % 16 < 16 by omega)) ih
    rw [hbyte] at hspelling
    exact hspelling

theorem Memory.slice_store (m : Memory) {a : Nat} {bytes : List UInt8}
    (h : a + bytes.length ≤ m.size) : (m.store a bytes).slice a bytes.length = bytes := by
  rw [slice_eq_map _ (by rwa [size_store]), store_eq_setAll]
  apply map_get_setAll m List.nodup_range' _ List.length_range'
  intro i hi
  rw [List.mem_range'_1] at hi
  omega

namespace Gdb

open Numeral (Spells)
open Machine (registerCells slotStart slotWidth slotCells shownValue)

/-! ## Changes and their bounds -/

/-- A change of a machine that is confined to its journal, to some bytes of its memories and, if it is a
jump, to its program counter. -/
structure Confined (m m' : Machine) (touched : Space → Nat → Prop) (jumps : Prop) : Prop where
  rest : m' =
    { m with flash := m'.flash, data := m'.data, program := m'.program, journal := m'.journal }
  size : ∀ space : Space, (space.memory m').size = (space.memory m).size
  get : ∀ (space : Space) i, ¬ touched space i → (space.memory m').get i = (space.memory m).get i
  program : ¬ jumps → m'.program = m.program

/-- A packet is accepted: the server consents and is as it was, and the change is confined. -/
structure Answer.Accepted (a : Answer) (s : Server) (m : Machine) (touched : Space → Nat → Prop)
    (jumps : Prop) : Prop where
  reply : a.reply = some .ok
  server : a.server = s
  machine : Confined m a.machine touched jumps

/-- The answer to a packet that follows. -/
def Answer.next (a : Answer) (packet : Bytes) : Answer := a.server.handle a.machine packet

theorem confined_setAll (m : Machine) (cells : List Nat) (bytes : List UInt8) {program : UInt32}
    {jumps : Prop} (h : ¬ jumps → program = m.program) :
    Confined m { m with data := m.data.setAll cells bytes, program := program }
      (fun space i => space = .data ∧ i ∈ cells) jumps where
  rest := rfl
  size space := by
    cases space with
    | flash => rfl
    | data => exact m.data.size_setAll cells bytes
  get space i hi := by
    cases space with
    | flash => rfl
    | data => exact m.data.get_setAll_of_not_mem bytes fun hmem => hi ⟨rfl, hmem⟩
  program := h

theorem Confined.of_noted {m m' : Machine} {packet : Bytes} {touched : Space → Nat → Prop}
    {jumps : Prop} (h : Confined (noted m packet) m' touched jumps) : Confined m m' touched jumps :=
  ⟨h.rest, h.size, h.get, h.program⟩

/-! ## Ranges of client addresses -/

/-- The first address of a space for a client, and the address where it ends at the latest. -/
def Space.start : Space → Nat
  | flash => 0
  | data => 0x800000

def Space.stop : Space → Nat
  | flash => 0x800000
  | data => 0x810000

/-- A range of client addresses lies in a space, from an offset on. -/
structure Reaches (m : Machine) (address length : Nat) (space : Space) (offset : Nat) : Prop where
  eq_add : address = space.start + offset
  lt_stop : address < space.stop
  le_size : offset + length ≤ (space.memory m).size

theorem locate?_eq_some_iff {m : Machine} {address length offset : Nat} {space : Space} :
    locate? m address length = some (space, offset) ↔ Reaches m address length space offset := by
  unfold locate? dataLimit dataStart
  constructor
  · intro h
    split at h
    · cases h
    · rename_i hlimit
      dsimp only at h
      by_cases hdata : 0x800000 ≤ address
      · rw [if_pos hdata] at h
        obtain ⟨hroom, hplace⟩ := Option.ite_none_right_eq_some.mp h
        cases hplace
        exact ⟨(Nat.add_sub_of_le hdata).symm, Nat.lt_of_not_le hlimit, hroom⟩
      · rw [if_neg hdata] at h
        obtain ⟨hroom, hplace⟩ := Option.ite_none_right_eq_some.mp h
        cases hplace
        exact ⟨(Nat.zero_add address).symm, Nat.lt_of_not_le hdata, hroom⟩
  · rintro ⟨rfl, hstop, hroom⟩
    cases space with
    | flash =>
      simp only [Space.start, Space.stop, Nat.zero_add] at hstop ⊢
      have hlow : ¬ 0x800000 ≤ offset := by omega
      have hlimit : ¬ 0x810000 ≤ offset := by omega
      simp only [hlow, hlimit, if_false]
      exact if_pos hroom
    | data =>
      simp only [Space.start, Space.stop] at hstop ⊢
      have hlimit : ¬ 0x810000 ≤ 0x800000 + offset := by omega
      simp only [hlimit, Nat.le_add_right, if_true, if_false, Nat.add_sub_cancel_left]
      exact if_pos hroom

/-! ## Requests that are accepted -/

/-- `name=digits`: a register, and a value of a width that it can have. -/
structure WritesRegister (args name : Bytes) (n : Nat) (value : List UInt8) : Prop where
  spells : Spells 16 name n
  digits : ∃ digits, args = name ++ '='.toUInt8 :: digits ∧ Hex.Spelling digits value
  fits : Machine.FitsRegister n value.length

/-- `target:digits`: a range that exists, and as many bytes for it. -/
structure WritesMemory (m : Machine) (args target : Bytes) (space : Space) (offset : Nat)
    (value : List UInt8) : Prop where
  range : ∃ address, NamesRange target address value.length ∧
    Reaches m address value.length space offset
  digits : ∃ digits, args = target ++ ':'.toUInt8 :: digits ∧ Hex.Spelling digits value

/-- Bytes that are written to a range that exists stand there. -/
theorem writeMemory?_of_reaches {m : Machine} {address offset : Nat} {space : Space}
    {value : List UInt8} (h : Reaches m address value.length space offset) :
    ∃ m', writeMemory? m address value = some m' ∧
      Confined m m' (fun other i => other = space ∧ offset ≤ i ∧ i < offset + value.length) False ∧
      (space.memory m').slice offset value.length = value := by
  have hget {i : Nat} (hi : ¬ (space = space ∧ offset ≤ i ∧ i < offset + value.length)) :
      ((space.memory m).store offset value).get i = (space.memory m).get i := by
    rw [Memory.get_store _ _ _ _ h.le_size, if_neg (fun hin => hi ⟨rfl, hin⟩)]
  have hslice := (space.memory m).slice_store h.le_size
  unfold writeMemory?
  rw [locate?_eq_some_iff.mpr h]
  cases space with
  | flash =>
    refine ⟨_, rfl, ⟨rfl, ?_, ?_, fun _ => rfl⟩, hslice⟩
    · rintro (_ | _)
      · exact m.flash.size_store offset value
      · rfl
    · rintro (_ | _) i hi
      · exact hget hi
      · rfl
  | data =>
    refine ⟨_, rfl, ⟨rfl, ?_, ?_, fun _ => rfl⟩, hslice⟩
    · rintro (_ | _)
      · rfl
      · exact m.data.size_store offset value
    · rintro (_ | _) i hi
      · rfl
      · exact hget hi

namespace Server

variable (s : Server) (m : Machine)

/-! ## Questions -/

theorem reply_registers (args : Bytes) :
    (s.handle m (packet 'g' args)).reply = some (.bytes m.registerBytes) := by
  rw [handle_packet s m (by decide)]
  rfl

theorem reply_register (h : Strict.Roomy m.data) {name : Bytes} {n : Nat} (hname : Spells 16 name n)
    (hn : n ≤ 34) :
    (s.handle m (packet 'p' name)).reply =
      some (.bytes ((m.registerBytes.drop (slotStart n)).take (slotWidth n))) := by
  have hparse : Command.parse (packet 'p' name) =
      ((number? 8 name).map Command.readRegister).getD .malformed := rfl
  have hregister : (noted m (packet 'p' name)).register? n = m.register? n := rfl
  rw [handle_packet s m (by decide), hparse, number?_eq_some_iff.mpr ⟨hname, by omega⟩,
    Option.map_some, Option.getD_some, carryOut, hregister, Machine.register?_eq h hn]
  rfl

theorem reply_memory {target : Bytes} {address length offset : Nat} {space : Space}
    (htarget : NamesRange target address length) (h : Reaches m address length space offset) :
    (s.handle m (packet 'm' target)).reply =
      some (.bytes ((space.memory m).slice offset length)) := by
  have hparse : Command.parse (packet 'm' target) =
      ((range? target).map fun range => .readMemory range.1 range.2).getD .malformed := rfl
  have hread : readMemory? (noted m (packet 'm' target)) address length =
      readMemory? m address length := rfl
  rw [handle_packet s m (by decide), hparse, range?_eq_some_iff.mpr htarget,
    Option.map_some, Option.getD_some, carryOut, hread, readMemory?, locate?_eq_some_iff.mpr h]
  rfl

/-! ## Changes -/

theorem handle_writeRegisters {digits : Bytes} {bytes : List UInt8}
    (h : Hex.Spelling digits bytes) :
    s.handle m (packet 'G' digits) =
      s.answerChange (noted m (packet 'G' digits))
        ((noted m (packet 'G' digits)).storeRegisters? bytes) := by
  have hparse : Command.parse (packet 'G' digits) =
      ((bytes? digits).map Command.writeRegisters).getD .malformed := rfl
  rw [handle_packet s m (by decide), hparse, bytes?_eq_some_iff.mpr h]
  rfl

theorem handle_writeRegister (args : Bytes) :
    s.handle m (packet 'P' args) =
      s.carryOut (noted m (packet 'P' args)) (packet 'P' args)
        ((Command.parseWriteRegister? args).getD .malformed) :=
  handle_packet s m (by decide) args

theorem handle_writeMemory (args : Bytes) :
    s.handle m (packet 'M' args) =
      s.carryOut (noted m (packet 'M' args)) (packet 'M' args)
        ((Command.parseWriteMemory? args).getD .malformed) :=
  handle_packet s m (by decide) args

theorem writeRegisters_read_back (h : Strict.Roomy m.data) {digits : Bytes} {bytes : List UInt8}
    (hdigits : Hex.Spelling digits bytes) (hlow : 35 ≤ bytes.length) (hhigh : bytes.length ≤ 39) :
    (s.handle m (packet 'G' digits)).Accepted s m
        (fun space i => space = .data ∧ i ∈ registerCells) (bytes.length = 39) ∧
      ((s.handle m (packet 'G' digits)).next (packet 'g' [])).reply =
        some (.bytes
          (if bytes.length = 39 then bytes else bytes.take 35 ++ m.registerBytes.drop 35)) := by
  rw [handle_writeRegisters s m hdigits, Machine.storeRegisters?_eq hlow, answerChange]
  refine ⟨⟨rfl, rfl, ?_⟩, ?_⟩
  · apply Confined.of_noted
    apply confined_setAll
    intro hall
    exact if_pos (by omega)
  · exact (reply_registers ..).trans
      (congrArg (some ∘ Reply.bytes) (Machine.registerBytes_storeRegisters h hlow hhigh))

theorem exists_writesRegister {args : Bytes} (h : (s.handle m (packet 'P' args)).reply = some .ok) :
    ∃ name n value, WritesRegister args name n value := by
  rw [handle_writeRegister] at h
  cases hargs : Command.parseWriteRegister? args with
  | none =>
    rw [hargs] at h
    cases h
  | some c =>
    rw [hargs, Option.getD_some] at h
    obtain ⟨name, digits, n, value, rfl, hname, hdigits, rfl⟩ :=
      Command.parseWriteRegister?_eq_some_iff.mp hargs
    by_cases hfits : Machine.FitsRegister n value.length
    · exact ⟨name, n, value, hname.1, ⟨digits, rfl, hdigits⟩, hfits⟩
    · rw [carryOut, Machine.storeRegister?_of_not_fits hfits] at h
      cases h

theorem writeRegister_read_back (h : Strict.Roomy m.data) {args name : Bytes} {n : Nat}
    {value : List UInt8} (hargs : WritesRegister args name n value) :
    (s.handle m (packet 'P' args)).Accepted s m
        (fun space i => space = .data ∧ i ∈ slotCells n) (n = 34) ∧
      ((s.handle m (packet 'P' args)).next (packet 'p' name)).reply =
        some (.bytes (shownValue n value)) ∧
      ((s.handle m (packet 'P' args)).next (packet 'g' [])).reply =
        some (.bytes (m.registerBytes.take (slotStart n) ++
          (shownValue n value ++ m.registerBytes.drop (slotStart n + slotWidth n)))) := by
  obtain ⟨hname, ⟨digits, rfl, hdigits⟩, hfits⟩ := hargs
  have hn : n ≤ 34 := by
    unfold Machine.FitsRegister at hfits
    omega
  have hread := Command.parseWriteRegister?_eq_some_iff.mpr
    ⟨name, digits, n, value, rfl, ⟨hname, by omega⟩, hdigits, rfl⟩
  rw [handle_writeRegister, hread, Option.getD_some, carryOut, Machine.storeRegister?_eq hfits,
    answerChange]
  have hshown := Machine.registerBytes_storeRegister h hfits
  have hstart : (m.registerBytes.take (slotStart n)).length = slotStart n := by
    rw [List.length_take, Machine.length_registerBytes h]
    unfold slotStart
    split <;> omega
  refine ⟨⟨rfl, rfl, ?_⟩, ?_, ?_⟩
  · apply Confined.of_noted
    apply confined_setAll
    intro hother
    exact if_neg hother
  · have hslot := congrArg (fun bytes => (bytes.drop (slotStart n)).take (slotWidth n)) hshown
    rw [List.drop_left' hstart, List.take_left' (Machine.length_shownValue hfits)] at hslot
    exact (reply_register s _ (h.of_size (m.data.size_setAll ..)) hname hn).trans
      (congrArg (some ∘ Reply.bytes) hslot)
  · exact (reply_registers ..).trans (congrArg (some ∘ Reply.bytes) hshown)

theorem exists_writesMemory {args : Bytes} (h : (s.handle m (packet 'M' args)).reply = some .ok) :
    ∃ target space offset value, WritesMemory m args target space offset value := by
  rw [handle_writeMemory] at h
  cases hargs : Command.parseWriteMemory? args with
  | none =>
    rw [hargs] at h
    cases h
  | some c =>
    rw [hargs, Option.getD_some] at h
    obtain ⟨target, digits, address, value, rfl, htarget, hdigits, rfl⟩ :=
      Command.parseWriteMemory?_eq_some_iff.mp hargs
    cases hplace : locate? m address value.length with
    | none =>
      have hnone : writeMemory? (noted m (packet 'M' (target ++ ':'.toUInt8 :: digits))) address value =
          none := congrArg (Option.map _) hplace
      rw [carryOut, hnone] at h
      cases h
    | some place =>
      obtain ⟨space, offset⟩ := place
      exact ⟨target, space, offset, value, ⟨address, htarget, locate?_eq_some_iff.mp hplace⟩,
        digits, rfl, hdigits⟩

theorem writeMemory_read_back {args target : Bytes} {space : Space} {offset : Nat}
    {value : List UInt8} (hargs : WritesMemory m args target space offset value) :
    (s.handle m (packet 'M' args)).Accepted s m
        (fun other i => other = space ∧ offset ≤ i ∧ i < offset + value.length) False ∧
      ((s.handle m (packet 'M' args)).next (packet 'm' target)).reply = some (.bytes value) := by
  obtain ⟨⟨address, htarget, hreaches⟩, digits, rfl, hdigits⟩ := hargs
  have hread := Command.parseWriteMemory?_eq_some_iff.mpr
    ⟨target, digits, address, value, rfl, htarget, hdigits, rfl⟩
  rw [handle_writeMemory, hread, Option.getD_some, carryOut]
  -- The entry in the journal does not move a range.
  generalize hnoted : noted m (packet 'M' (target ++ ':'.toUInt8 :: digits)) = before
  have hreached : Reaches before address value.length space offset := by
    rw [← hnoted]
    exact ⟨hreaches.eq_add, hreaches.lt_stop, hreaches.le_size⟩
  obtain ⟨m', hwrite, hconfined, hslice⟩ := writeMemory?_of_reaches hreached
  rw [hwrite, answerChange]
  refine ⟨⟨rfl, rfl, ?_⟩, ?_⟩
  · rw [← hnoted] at hconfined
    exact hconfined.of_noted
  · have hafter : Reaches m' address value.length space offset :=
      ⟨hreached.eq_add, hreached.lt_stop, by rw [hconfined.size]; exact hreached.le_size⟩
    exact (reply_memory s m' htarget hafter).trans (congrArg (some ∘ Reply.bytes) hslice)

theorem echo_registers (h : Strict.Roomy m.data) :
    (s.handle m (packet 'G' (Reply.bytes m.registerBytes).payload)).reply = some .ok ∧
      (s.handle m (packet 'G' (Reply.bytes m.registerBytes).payload)).Inert s m := by
  have hdigits : Hex.Spelling (Reply.bytes m.registerBytes).payload m.registerBytes :=
    Hex.spelling_encodeLower m.registerBytes
  have hsame (packet : Bytes) :
      (noted m packet).storeRegisters? m.registerBytes = some (noted m packet) :=
    Machine.storeRegisters?_registerBytes h
  rw [handle_writeRegisters s m hdigits, hsame]
  exact ⟨rfl, rfl, rfl⟩

/-- **Writes are read back and stay local.** All registers are shown in 39 bytes. 39 bytes for all of
them are shown as they are, and 35 to 38 bytes change all but the program counter. A value for one
register is shown for it, and all other registers are shown as before. Bytes for a range of memory are
shown for it, and no byte of a memory outside of the range changes. To send back what is shown changes
nothing. -/
theorem writes_read_back (h : Strict.Roomy m.data) :
    ∃ shown : List UInt8, shown.length = 39 ∧
      (s.handle m (packet 'g' [])).reply = some (.bytes shown) ∧
      (∀ digits bytes, Hex.Spelling digits bytes → 35 ≤ bytes.length → bytes.length ≤ 39 →
        (s.handle m (packet 'G' digits)).Accepted s m
            (fun space i => space = .data ∧ i ∈ registerCells) (bytes.length = 39) ∧
          ((s.handle m (packet 'G' digits)).next (packet 'g' [])).reply =
            some (.bytes (if bytes.length = 39 then bytes else bytes.take 35 ++ shown.drop 35))) ∧
      (∀ args, ((s.handle m (packet 'P' args)).reply = some .ok ↔
          ∃ name n value, WritesRegister args name n value) ∧
        ∀ name n value, WritesRegister args name n value →
          (s.handle m (packet 'P' args)).Accepted s m
              (fun space i => space = .data ∧ i ∈ slotCells n) (n = 34) ∧
            ((s.handle m (packet 'P' args)).next (packet 'p' name)).reply =
              some (.bytes (shownValue n value)) ∧
            ((s.handle m (packet 'P' args)).next (packet 'g' [])).reply =
              some (.bytes (shown.take (slotStart n) ++
                (shownValue n value ++ shown.drop (slotStart n + slotWidth n))))) ∧
      (∀ args, ((s.handle m (packet 'M' args)).reply = some .ok ↔
          ∃ target space offset value, WritesMemory m args target space offset value) ∧
        ∀ target space offset value, WritesMemory m args target space offset value →
          (s.handle m (packet 'M' args)).Accepted s m
              (fun other i => other = space ∧ offset ≤ i ∧ i < offset + value.length) False ∧
            ((s.handle m (packet 'M' args)).next (packet 'm' target)).reply =
              some (.bytes value)) ∧
      (s.handle m (packet 'G' (Reply.bytes shown).payload)).reply = some .ok ∧
      (s.handle m (packet 'G' (Reply.bytes shown).payload)).Inert s m := by
  refine ⟨m.registerBytes, Machine.length_registerBytes h, reply_registers s m [], ?_, ?_, ?_,
    echo_registers s m h⟩
  · intro digits bytes hdigits hlow hhigh
    exact writeRegisters_read_back s m h hdigits hlow hhigh
  · intro args
    refine ⟨⟨exists_writesRegister s m, ?_⟩, ?_⟩
    · rintro ⟨name, n, value, hargs⟩
      exact (writeRegister_read_back s m h hargs).1.reply
    · intro name n value hargs
      exact writeRegister_read_back s m h hargs
  · intro args
    refine ⟨⟨exists_writesMemory s m, ?_⟩, ?_⟩
    · rintro ⟨target, space, offset, value, hargs⟩
      exact (writeMemory_read_back s m hargs).1.reply
    · intro target space offset value hargs
      exact writeMemory_read_back s m hargs

/-- Two bytes for the program counter. -/
def shortJump : Bytes := Bytes.ofString "22=0102"

/-- The other two are zero, and register 16 still holds its value. -/
theorem shortJump_read_back :
    Strict.Roomy halfway.data ∧
      ((stepper.handle halfway (packet 'P' shortJump)).next
        (packet 'p' (Bytes.ofString "22"))).reply = some (.bytes [1, 2, 0, 0]) ∧
      (stepper.handle halfway (packet 'P' shortJump)).machine.data.get 16 = 7 := by
  have hroomy : Strict.Roomy halfway.data := show 256 ≤ halfway.data.size by decide +kernel
  have hname : Spells 16 (Bytes.ofString "22") 34 :=
    ((@number?_eq_some_iff 8 34 (Bytes.ofString "22")).mp (by decide +kernel)).1
  have hdigits : Hex.Spelling (Bytes.ofString "0102") [1, 2] :=
    bytes?_eq_some_iff.mp (by decide +kernel)
  have hargs : WritesRegister shortJump (Bytes.ofString "22") 34 [1, 2] :=
    ⟨hname, ⟨_, by decide +kernel, hdigits⟩, .inr (.inr ⟨rfl, by decide⟩)⟩
  obtain ⟨shown, -, -, -, hwrite, -⟩ := writes_read_back stepper halfway hroomy
  obtain ⟨haccepted, hreply, -⟩ := (hwrite shortJump).2 _ _ _ hargs
  refine ⟨hroomy, hreply, ?_⟩
  exact (haccepted.machine.get .data 16 (by decide)).trans (by decide +kernel)

end Server

end Gdb

end AvrSim
