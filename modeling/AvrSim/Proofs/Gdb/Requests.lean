import AvrSim.Gdb.Server
import AvrSim.Proofs.Hex.Line
import AvrSim.Proofs.Numeral

/-!
# The form of requests

The arguments of a packet are hexadecimal numbers and digits of bytes with marks between them. No mark is
a digit, so the parts of arguments are found again whatever numbers they spell.

* `Bytes.cut_eq_some_iff`: the first mark of a text divides it.
* `Gdb.NamesRange`: `address,length`. `Gdb.Command.parseWriteRegister?_eq_some_iff` and
  `Gdb.Command.parseWriteMemory?_eq_some_iff`: the requests that are read from arguments.
* `Gdb.Server.handle_packet`: a packet is a letter with arguments.
-/

namespace AvrSim

theorem toOption_eq_some_iff {ε α : Type} {x : Except ε α} {a : α} :
    x.toOption = some a ↔ x = .ok a := by
  cases x with
  | error e => exact ⟨nofun, nofun⟩
  | ok b => simp [Except.toOption]

namespace Bytes

variable {mark : UInt8}

/-- The first mark of a text divides it. -/
theorem cut_eq_some_iff {text before after : Bytes} :
    cut mark text = some (before, after) ↔ mark ∉ before ∧ text = before ++ mark :: after := by
  constructor
  · intro h
    unfold cut at h
    split at h
    · cases h
    · rename_i b rest hrest
      obtain ⟨rfl, rfl⟩ := Prod.mk.inj (Option.some.inj h)
      have hb : b = mark := by
        have hhead := List.head?_dropWhile_not (· != mark) text
        rw [hrest] at hhead
        simpa using hhead
      subst hb
      refine ⟨fun hmem => ?_, ?_⟩
      · simpa using List.all_eq_true.mp (List.all_takeWhile ..) b hmem
      · rw [← hrest, List.takeWhile_append_dropWhile]
  · rintro ⟨hmark, rfl⟩
    have hbefore : ∀ b ∈ before, (b != mark) = true := by
      intro b hb
      rw [bne_iff_ne]
      rintro rfl
      exact hmark hb
    unfold cut
    rw [List.takeWhile_append_of_pos hbefore, List.dropWhile_append_of_pos hbefore]
    simp

end Bytes

namespace Gdb

open Numeral (Spells)

/-! ## Numbers and bytes -/

section

variable {bits n : Nat} {text : Bytes}

theorem number?_eq_some_iff : number? bits text = some n ↔ Spells 16 text n ∧ n < 2 ^ bits := by
  rw [number?, toOption_eq_some_iff, Numeral.unsigned_eq_ok_iff (by decide)]

theorem bytes?_eq_some_iff {bytes : List UInt8} :
    bytes? text = some bytes ↔ Hex.Spelling text bytes := by
  rw [bytes?, toOption_eq_some_iff, Hex.decode_eq_ok_iff]

end

/-- `address,length`: two hexadecimal numbers of at most 32 bits. -/
def NamesRange (text : Bytes) (address length : Nat) : Prop :=
  ∃ first second, text = first ++ ','.toUInt8 :: second ∧
    (Spells 16 first address ∧ address < 2 ^ 32) ∧ (Spells 16 second length ∧ length < 2 ^ 32)

theorem range?_eq_some_iff {text : Bytes} {address length : Nat} :
    range? text = some (address, length) ↔ NamesRange text address length := by
  simp only [range?, Option.bind_eq_bind, Option.bind_eq_some_iff, Option.pure_def,
    Option.some.injEq, Prod.exists, Bytes.cut_eq_some_iff, number?_eq_some_iff, Prod.mk.injEq]
  constructor
  · rintro ⟨first, second, ⟨-, rfl⟩, _, hfirst, _, hsecond, rfl, rfl⟩
    exact ⟨first, second, rfl, hfirst, hsecond⟩
  · rintro ⟨first, second, rfl, hfirst, hsecond⟩
    have hcomma : ','.toUInt8 ∉ first := hfirst.1.not_mem (by rintro d ⟨⟩)
    exact ⟨first, second, ⟨hcomma, rfl⟩, address, hfirst, length, hsecond, rfl, rfl⟩

/-- No colon stands in a range. -/
theorem NamesRange.not_mem {text : Bytes} {address length : Nat}
    (h : NamesRange text address length) : ':'.toUInt8 ∉ text := by
  obtain ⟨first, second, rfl, hfirst, hsecond⟩ := h
  rw [List.mem_append, List.mem_cons, not_or, not_or]
  refine ⟨hfirst.1.not_mem (by rintro d ⟨⟩), by decide, hsecond.1.not_mem (by rintro d ⟨⟩)⟩

/-! ## Requests -/

namespace Command

theorem parseWriteRegister?_eq_some_iff {args : Bytes} {c : Command} :
    parseWriteRegister? args = some c ↔
      ∃ name digits n value, args = name ++ '='.toUInt8 :: digits ∧
        (Spells 16 name n ∧ n < 2 ^ 8) ∧ Hex.Spelling digits value ∧ c = writeRegister n value := by
  simp only [parseWriteRegister?, Option.bind_eq_bind, Option.bind_eq_some_iff, Option.pure_def,
    Option.some.injEq, Prod.exists, Bytes.cut_eq_some_iff, number?_eq_some_iff, bytes?_eq_some_iff]
  constructor
  · rintro ⟨name, digits, ⟨-, rfl⟩, n, hname, value, hdigits, rfl⟩
    exact ⟨name, digits, n, value, rfl, hname, hdigits, rfl⟩
  · rintro ⟨name, digits, n, value, rfl, hname, hdigits, rfl⟩
    have hmark : '='.toUInt8 ∉ name := hname.1.not_mem (by rintro d ⟨⟩)
    exact ⟨name, digits, ⟨hmark, rfl⟩, n, hname, value, hdigits, rfl⟩

theorem parseWriteMemory?_eq_some_iff {args : Bytes} {c : Command} :
    parseWriteMemory? args = some c ↔
      ∃ target digits address value, args = target ++ ':'.toUInt8 :: digits ∧
        NamesRange target address value.length ∧ Hex.Spelling digits value ∧
        c = writeMemory address value := by
  simp only [parseWriteMemory?, Option.bind_eq_bind, Option.bind_eq_some_iff, Prod.exists,
    Bytes.cut_eq_some_iff, range?_eq_some_iff, bytes?_eq_some_iff, Option.ite_none_right_eq_some,
    Option.some.injEq]
  constructor
  · rintro ⟨target, digits, ⟨-, rfl⟩, address, _, htarget, value, hdigits, rfl, rfl⟩
    exact ⟨target, digits, address, value, rfl, htarget, hdigits, rfl⟩
  · rintro ⟨target, digits, address, value, rfl, htarget, hdigits, rfl⟩
    exact ⟨target, digits, ⟨htarget.not_mem, rfl⟩, address, _, htarget, value, hdigits, rfl, rfl⟩

end Command

/-! ## Packets -/

/-- A packet: a letter and arguments. -/
def packet (verb : Char) (args : Bytes) : Bytes := verb.toUInt8 :: args

/-- The machine after it took note of a packet. -/
def noted (m : Machine) (packet : Bytes) : Machine :=
  m.log .trace "gdb packet" [("packet", .text packet)]

namespace Server

theorem handle_packet (s : Server) (m : Machine) {verb : Char} (h : verb.toUInt8 ≠ 3) (args : Bytes) :
    s.handle m (packet verb args) =
      s.carryOut (noted m (packet verb args)) (packet verb args)
        (Command.parse (packet verb args)) := by
  have hcarried : ¬ ((packet verb args).isEmpty || packet verb args == interrupt) = true := by
    simp [packet, interrupt, h]
  exact if_neg hcarried

end Server

end Gdb

end AvrSim
