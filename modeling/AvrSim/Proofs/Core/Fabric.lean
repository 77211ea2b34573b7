import AvrSim.Proofs.Core.Course
import AvrSim.Proofs.Wiring.Shape

/-!
# What a step leaves of the wiring

A core reaches its lines by raising them and in no other way, so a step changes the values on lines and
nothing else: who listens, where a line leads and which pools are frozen stay as they are.

* `Machine.revalued_stroke`: one access.
* `Machine.revalued_tick`: one step.
-/

namespace AvrSim.Machine

open Wiring (Revalued)

variable (m : Machine)

theorem revalued_raise (line : Nat) (value : UInt32) :
    Revalued m.wiring (m.raise line value).wiring :=
  Wiring.revalued_raise Core.react line value m.wiring m.toCore

theorem revalued_receivedByte : Revalued m.wiring m.receivedByte.2.wiring := by
  unfold receivedByte
  split
  · exact .refl _
  · rename_i b rest _
    split
    · exact revalued_raise { m with uart := { m.uart with pending := rest, xoff := false } } _ 1
    · exact .refl _

theorem revalued_uartRead (offset : Nat) : Revalued m.wiring (m.uartRead offset).2.wiring := by
  unfold uartRead
  split
  · exact .refl _
  · split
    · exact revalued_receivedByte m
    · exact .refl _

theorem revalued_read (address : UInt16) : Revalued m.wiring (m.read address).2.wiring := by
  have hupdate : Revalued m.wiring (m.update address).wiring := by
    unfold update
    split
    · exact .refl _
    · exact revalued_uartRead m _
  rw [read_eq]
  split
  · exact hupdate
  · exact .refl _

theorem revalued_send (value : UInt8) : Revalued m.wiring (m.send value).wiring := by
  have htransmit (m : Machine) : Revalued m.wiring (m.transmit value).wiring :=
    revalued_raise ({ m with uart := { m.uart with transmitted := true } } : Machine).refreshStatus _ _
  rw [send_eq]
  split
  · exact htransmit (m.onCore fun core => core.report .debug _ [core.uartName])
  · exact htransmit m

theorem revalued_uartWrite (offset : Nat) (value : UInt8) :
    Revalued m.wiring (m.uartWrite offset value).wiring := by
  unfold uartWrite
  split
  · dsimp only
    split
    · exact .refl _
    · exact .refl _
  · split
    · unfold reportRate
      dsimp only
      split
      · exact .refl _
      · exact .refl _
    · split
      · exact revalued_send m value
      · exact .refl _

theorem revalued_write (address : UInt16) (value : UInt8) :
    Revalued m.wiring (m.write address value).wiring := by
  have hforward (m : Machine) : Revalued m.wiring (m.forward address value).wiring := by
    unfold forward
    split
    · exact .refl _
    · exact revalued_uartWrite m _ value
  rw [write_eq]
  split
  · exact hforward { m with data := m.data.set address.toNat value }
  · exact .refl _

/-! ## Steps -/

variable {m} {m' : Machine}

theorem revalued_stroke (h : Stroke m m') : Revalued m.wiring m'.wiring := by
  cases h with
  | compute hsize hrest =>
    rw [hrest]
    exact .refl _
  | report level message values hmessage => exact .refl _
  | acknowledge => exact .refl _
  | read address => exact revalued_read m address
  | write address value => exact revalued_write m address value

theorem revalued_course (h : Course m m') : Revalued m.wiring m'.wiring := by
  induction h with
  | refl => exact .refl _
  | tail _ hstroke ih => exact ih.trans (revalued_stroke hstroke)

theorem revalued_tick (m : Machine) : Revalued m.wiring m.tick.1.wiring :=
  revalued_course (course_tick m)

end AvrSim.Machine
