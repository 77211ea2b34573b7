import AvrSim.Core.Machine
import Mathlib.Data.List.Chain

/-!
# The receiving side of a UART

A queue of limited length, a flag that says whether the sender was told to stop, and what the sender
was told so far. Bytes are put in from one side and popped from the other; either may give a signal.

* `Inbox.consistent_pop` and its companions: the flag is up exactly while the queue is full.
* `Inbox.informed_pop` and its companions: what the sender was told last says so too, and the signals
  alternate. Emptying the queue at once gives no signal; `Inbox.informed_clear_iff` says when that
  leaves the sender misinformed.
* `Inbox.popAll_add`, `Inbox.pending_popAll`, `Inbox.popped_take`: what several pops give and leave.
-/

namespace AvrSim

/-- What a receiver tells the sender: to go on or to stop. -/
inductive Signal
  | xon
  | xoff
  deriving DecidableEq, Repr

namespace Signal

/-- The last of some signals, or the one before them. -/
def latest (before : Signal) (signals : List Signal) : Signal := signals.getLastD before

/-- Signals that alternate among each other and with the one before them. -/
def Alternating (before : Signal) (signals : List Signal) : Prop :=
  (before :: signals).IsChain (· ≠ ·)

@[simp] theorem latest_nil (before : Signal) : latest before [] = before := rfl

@[simp] theorem latest_concat (before : Signal) (signals : List Signal) (s : Signal) :
    latest before (signals ++ [s]) = s := by
  simp [latest]

theorem latest_append (before : Signal) (signals rest : List Signal) :
    latest before (signals ++ rest) = latest (latest before signals) rest := by
  unfold latest
  cases rest with
  | nil => simp
  | cons s rest => simp [List.getLastD_eq_getLast?, List.getLast?_append]

theorem Alternating.append {before : Signal} {signals : List Signal} (h : Alternating before signals)
    {s : Signal} (hs : latest before signals ≠ s) : Alternating before (signals ++ [s]) := by
  unfold Alternating at *
  rw [← List.cons_append]
  refine List.isChain_append.mpr ⟨h, List.isChain_singleton s, ?_⟩
  intro x hx y hy
  cases hy
  rintro rfl
  apply hs
  unfold latest
  cases signals with
  | nil => simpa using hx
  | cons s rest => simpa [List.getLast?_cons] using hx

end Signal

/-- The receiving side: the bytes that wait, oldest first, whether the sender was told to stop, and the
signals it was given. -/
structure Inbox where
  pending : List UInt8
  xoff : Bool
  signals : List Signal
  deriving DecidableEq, Repr

namespace Inbox

/-- A byte arrives. The one that fills the queue stops the sender; in a full queue there is no room. -/
def receive (i : Inbox) (b : UInt8) : Inbox :=
  if i.pending.length < Uart.capacity then
    if i.pending.length + 1 = Uart.capacity ∧ i.xoff = false then
      ⟨i.pending ++ [b], true, i.signals ++ [.xoff]⟩
    else { i with pending := i.pending ++ [b] }
  else i

/-- The oldest byte is taken, and zero from an empty queue. A queue that was full lets the sender go
on. -/
def pop (i : Inbox) : UInt8 × Inbox :=
  match i.pending with
  | [] => (0, i)
  | b :: rest =>
    if i.xoff = true ∧ rest.length < Uart.capacity then
      (b, ⟨rest, false, i.signals ++ [.xon]⟩)
    else (b, { i with pending := rest })

/-- Several bytes are taken. -/
def popAll : Nat → Inbox → List UInt8 × Inbox
  | 0, i => ([], i)
  | n + 1, i => (i.pop.1 :: (popAll n i.pop.2).1, (popAll n i.pop.2).2)

/-- The queue is emptied without a signal. -/
def clear (i : Inbox) : Inbox := { i with pending := [], xoff := false }

variable {i : Inbox}

theorem receive_of_last (b : UInt8)
    (hlast : i.pending.length + 1 = Uart.capacity ∧ i.xoff = false) :
    i.receive b = ⟨i.pending ++ [b], true, i.signals ++ [.xoff]⟩ := by
  unfold receive
  rw [if_pos (by omega), if_pos hlast]

theorem receive_of_room (b : UInt8) (hroom : i.pending.length < Uart.capacity)
    (hlast : ¬ (i.pending.length + 1 = Uart.capacity ∧ i.xoff = false)) :
    i.receive b = { i with pending := i.pending ++ [b] } := by
  unfold receive
  rw [if_pos hroom, if_neg hlast]

theorem receive_of_full (b : UInt8) (hroom : ¬ i.pending.length < Uart.capacity) :
    i.receive b = i :=
  if_neg hroom

theorem pending_receive (b : UInt8) (hroom : i.pending.length < Uart.capacity) :
    (i.receive b).pending = i.pending ++ [b] := by
  unfold receive
  rw [if_pos hroom]
  split <;> rfl

theorem pop_of_nil (h : i.pending = []) : i.pop = (0, i) := by
  unfold pop
  rw [h]

theorem pop_of_full {b : UInt8} {rest : List UInt8} (h : i.pending = b :: rest)
    (hfull : i.xoff = true ∧ rest.length < Uart.capacity) :
    i.pop = (b, ⟨rest, false, i.signals ++ [.xon]⟩) := by
  unfold pop
  rw [h]
  exact if_pos hfull

theorem pop_of_not_full {b : UInt8} {rest : List UInt8} (h : i.pending = b :: rest)
    (hfull : ¬ (i.xoff = true ∧ rest.length < Uart.capacity)) :
    i.pop = (b, { i with pending := rest }) := by
  unfold pop
  rw [h]
  exact if_neg hfull

theorem popAll_add (n k : Nat) (i : Inbox) :
    popAll (n + k) i =
      ((popAll n i).1 ++ (popAll k (popAll n i).2).1, (popAll k (popAll n i).2).2) := by
  induction n generalizing i with
  | zero => simp [popAll]
  | succ n ih =>
    rw [Nat.add_right_comm]
    simp only [popAll, ih, List.cons_append]

theorem pending_pop (i : Inbox) : i.pop.2.pending = i.pending.tail := by
  unfold pop
  split
  · rename_i h
    rw [h]
    rfl
  · rename_i h
    rw [h]
    split <;> rfl

theorem pop_fst (i : Inbox) : i.pop.1 = i.pending.headD 0 := by
  unfold pop
  split
  · rename_i h
    rw [h]
    rfl
  · rename_i h
    rw [h]
    split <;> rfl

theorem pending_popAll (n : Nat) (i : Inbox) : (popAll n i).2.pending = i.pending.drop n := by
  induction n generalizing i with
  | zero => rfl
  | succ n ih =>
    show (popAll n i.pop.2).2.pending = _
    rw [ih, pending_pop, List.drop_tail]

/-- The bytes that were there come first; after them the empty queue gives zeros. -/
theorem popped_take (n : Nat) (i : Inbox) :
    (popAll n i).1.take i.pending.length = i.pending.take n := by
  induction n generalizing i with
  | zero => simp [popAll]
  | succ n ih =>
    show (i.pop.1 :: (popAll n i.pop.2).1).take i.pending.length = _
    have hrest := ih i.pop.2
    rw [pending_pop] at hrest
    rw [pop_fst]
    cases hpending : i.pending with
    | nil => rfl
    | cons b rest =>
      rw [hpending] at hrest
      exact congrArg (b :: ·) hrest

/-! ## The flag -/

/-- The queue keeps to its limit, and the flag is up exactly while it is full. -/
structure Consistent (i : Inbox) : Prop where
  bound : i.pending.length ≤ Uart.capacity
  flag : i.xoff = true ↔ i.pending.length = Uart.capacity

theorem consistent_receive (h : i.Consistent) (b : UInt8) : (i.receive b).Consistent := by
  unfold receive
  split
  · rename_i hroom
    have hflag : i.xoff = false := by
      rw [Bool.eq_false_iff, ne_eq, h.flag]
      exact Nat.ne_of_lt hroom
    split
    · rename_i hfull
      refine ⟨?_, ?_⟩
      · simpa using Nat.le_of_eq hfull.1
      · simpa using hfull.1
    · rename_i hfull
      refine ⟨?_, ?_⟩
      · rw [List.length_append]
        exact hroom
      · simp only [List.length_append, List.length_singleton, hflag]
        constructor
        · intro hfalse
          cases hfalse
        · intro hlength
          exact absurd ⟨hlength, hflag⟩ hfull
  · exact h

theorem consistent_pop (h : i.Consistent) : i.pop.2.Consistent := by
  unfold pop
  split
  · exact h
  · rename_i b rest hpending
    have hbound := h.bound
    rw [hpending, List.length_cons] at hbound
    split
    · refine ⟨by dsimp only; omega, ?_⟩
      dsimp only
      constructor
      · intro hfalse
        cases hfalse
      · intro hlength
        omega
    · rename_i hflag
      refine ⟨by dsimp only; omega, ?_⟩
      dsimp only
      constructor
      · intro hxoff
        exact absurd ⟨hxoff, by omega⟩ hflag
      · intro hlength
        omega

theorem consistent_popAll (h : i.Consistent) (n : Nat) : (popAll n i).2.Consistent := by
  induction n generalizing i with
  | zero => exact h
  | succ n ih => exact ih (consistent_pop h)

theorem consistent_clear (i : Inbox) : i.clear.Consistent := by
  refine ⟨Nat.zero_le _, ?_⟩
  simp [clear, Uart.capacity]

/-! ## What the sender was told -/

/-- The signals since some point in the past: what the sender was told last is what the flag says, and
they alternate. `before` is what the sender knew at that point. -/
def Informed (past : List Signal) (before : Signal) (i : Inbox) : Prop :=
  ∃ new, i.signals = past ++ new ∧ (Signal.latest before new = .xoff ↔ i.xoff = true) ∧
    Signal.Alternating before new

variable {past : List Signal} {before : Signal}

theorem informed_receive (h : i.Informed past before) (b : UInt8) :
    (i.receive b).Informed past before := by
  obtain ⟨new, hsignals, hlatest, halternating⟩ := h
  unfold receive
  split
  · split
    · rename_i hfull
      refine ⟨new ++ [.xoff], ?_, by simp, halternating.append ?_⟩
      · rw [hsignals, List.append_assoc]
      · rw [ne_eq, hlatest, hfull.2]
        exact Bool.false_ne_true
    · exact ⟨new, hsignals, hlatest, halternating⟩
  · exact ⟨new, hsignals, hlatest, halternating⟩

theorem informed_pop (h : i.Informed past before) : i.pop.2.Informed past before := by
  obtain ⟨new, hsignals, hlatest, halternating⟩ := h
  unfold pop
  split
  · exact ⟨new, hsignals, hlatest, halternating⟩
  · split
    · rename_i hflag
      refine ⟨new ++ [.xon], ?_, by simp, halternating.append ?_⟩
      · rw [hsignals, List.append_assoc]
      · rw [hlatest.mpr hflag.1]
        decide
    · exact ⟨new, hsignals, hlatest, halternating⟩

theorem informed_popAll (h : i.Informed past before) (n : Nat) :
    (popAll n i).2.Informed past before := by
  induction n generalizing i with
  | zero => exact h
  | succ n ih => exact ih (informed_pop h)

/-- A queue that is emptied without a signal while it is full leaves the sender misinformed, and only
then. -/
theorem informed_clear_iff (h : i.Informed past before) :
    i.clear.Informed past before ↔ i.xoff = false := by
  obtain ⟨new, hsignals, hlatest, halternating⟩ := h
  constructor
  · rintro ⟨new', hsignals', hlatest', -⟩
    have hnew : new' = new := List.append_cancel_left (hsignals'.symm.trans hsignals)
    rw [hnew] at hlatest'
    rw [Bool.eq_false_iff, ne_eq, ← hlatest, hlatest']
    exact Bool.false_ne_true
  · intro hxoff
    refine ⟨new, hsignals, ?_, halternating⟩
    rw [hlatest, hxoff]
    rfl

end Inbox

end AvrSim
