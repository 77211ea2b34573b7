import AvrSim.Proofs.Core.Arithmetic
import Mathlib.Data.List.Chain
import Mathlib.Data.Nat.Digits.Defs
import Mathlib.Tactic.LinearCombination

/-!
# Arithmetic on numbers of many bytes

A number too large for a register is added, subtracted or compared byte by byte, lowest byte first. The
first instruction starts afresh and each of the others takes the flags that the one before it has left.
Between two of them the machine may do anything that leaves the status register alone, so that numbers
of any length can be passed through a few registers.

The proof follows one quantity. With a carry `κ` going in, `total σ a b κ` is the sum (`σ = 1`) or the
difference (`σ = -1`) of two numbers. Its lowest byte is what the first instruction computes, and the
rest of it is the total of the rest of the bytes with the carry that comes out. Carry, overflow and sign are
then facts about the total, and zero is remembered on the way up.

* `Chain`: the instructions that work on one pair of numbers.
* `Totals`: what is known of the total when a chain has been executed, with `totals_cons` for one more
  byte.
* `chain_computes`: the flags and bytes that a chain leaves.
-/

namespace AvrSim

open Alu (overflows)
open Machine (signed)

/-! ## Instructions of a chain -/

/-- Whether the numbers are added or subtracted. -/
inductive Sense
  | sum
  | difference
  deriving DecidableEq

namespace Sense

def sign : Sense → Int
  | sum => 1
  | difference => -1

/-- An instruction for the lowest bytes. -/
def starts : Sense → Instr → Prop
  | sum, .binary op _ _ => op = .add
  | difference, .binary op _ _ => op = .cp ∨ op = .sub
  | difference, .immediate op _ _ => op = .cpi ∨ op = .subi
  | _, _ => False

/-- An instruction for any other bytes. -/
def continues : Sense → Instr → Prop
  | sum, .binary op _ _ => op = .adc
  | difference, .binary op _ _ => op = .cpc ∨ op = .sbc
  | difference, .immediate op _ _ => op = .sbci
  | _, _ => False

end Sense

namespace Instr

/-- A chain's instruction puts its result into the register of its left operand, unless it compares. -/
def stores : Instr → Bool
  | .binary op _ _ => op ≠ .cp ∧ op ≠ .cpc
  | .immediate op _ _ => op ≠ .cpi
  | _ => false

def destination : Instr → Nat
  | .binary _ d _ => d.val
  | .immediate _ d _ => 16 + d.val
  | _ => 0

def registers : Instr → List Nat
  | .binary _ d r => [d.val, r.val]
  | .immediate _ d _ => [16 + d.val]
  | _ => []

def left (instr : Instr) (data : Memory) : Nat :=
  match instr with
  | .binary _ d _ => (data.get d.val).toNat
  | .immediate _ d _ => (data.get (16 + d.val)).toNat
  | _ => 0

def right (instr : Instr) (data : Memory) : Nat :=
  match instr with
  | .binary _ _ r => (data.get r.val).toNat
  | .immediate _ _ k => k.toNat
  | _ => 0

variable (instr : Instr)

theorem left_lt (data : Memory) : instr.left data < 256 := by
  cases instr with
  | binary => exact UInt8.toNat_lt _
  | immediate => exact UInt8.toNat_lt _
  | _ => exact Nat.zero_lt_succ 255

theorem right_lt (data : Memory) : instr.right data < 256 := by
  cases instr with
  | binary => exact UInt8.toNat_lt _
  | immediate => exact UInt8.toNat_lt _
  | _ => exact Nat.zero_lt_succ 255

variable {instr}

theorem left_congr {data data' : Memory} (h : ∀ x ∈ instr.registers, data.get x = data'.get x) :
    instr.left data = instr.left data' := by
  cases instr with
  | binary op d r => exact congrArg UInt8.toNat (h d.val (.head _))
  | immediate op d k => exact congrArg UInt8.toNat (h (16 + d.val) (.head _))
  | _ => rfl

theorem right_congr {data data' : Memory} (h : ∀ x ∈ instr.registers, data.get x = data'.get x) :
    instr.right data = instr.right data' := by
  cases instr with
  | binary op d r => exact congrArg UInt8.toNat (h r.val (.tail _ (.head _)))
  | _ => rfl

theorem destination_mem (h : instr.stores) : instr.destination ∈ instr.registers := by
  cases instr with
  | binary => exact .head _
  | immediate => exact .head _
  | _ => cases h

theorem lt_of_mem_registers {x : Nat} (h : x ∈ instr.registers) : x < 32 := by
  cases instr with
  | binary op d r =>
    obtain rfl | rfl : x = d.val ∨ x = r.val := by simpa [registers] using h
    · exact d.isLt
    · exact r.isLt
  | immediate op d k =>
    obtain rfl : x = 16 + d.val := by simpa [registers] using h
    omega
  | _ => cases h

end Instr

/-- An instruction together with the machine that executes it. -/
structure Link where
  machine : Machine
  instr : Instr

namespace Link

/-- The data space once the instruction has been executed. -/
def after (l : Link) : Memory := l.machine.execute.data

def left (l : Link) : Nat := l.instr.left l.machine.data

def right (l : Link) : Nat := l.instr.right l.machine.data

theorem left_lt (l : Link) : l.left < 256 := l.instr.left_lt l.machine.data

theorem right_lt (l : Link) : l.right < 256 := l.instr.right_lt l.machine.data

def result (l : Link) : Nat := (l.after.get l.instr.destination).toNat

structure Ready (l : Link) : Prop where
  running : l.machine.run = .running
  inside : l.machine.program ≤ l.machine.codeEnd
  holds : l.machine.Holds l.machine.program l.instr.encode
  status : sregAddress < l.machine.data.size

end Link

/-- Instructions for the bytes of two numbers, each of which finds the flags of the one before it. -/
structure Chain (sense : Sense) (first : Link) (rest : List Link) : Prop where
  ready : ∀ l ∈ first :: rest, l.Ready
  starts : sense.starts first.instr
  continues : ∀ l ∈ rest, sense.continues l.instr
  linked : (first :: rest).IsChain fun l l' => l'.machine.data.status = l.after.status

/-- The instructions follow one another directly, and none uses a register that was stored before. -/
structure InPlace (links : List Link) : Prop where
  direct : links.IsChain fun l l' => l'.machine = l.machine.execute
  apart : links.Pairwise fun l l' => l.instr.stores → l.instr.destination ∉ l'.instr.registers

/-! ## Totals -/

/-- The sum or difference of two numbers and a carry. -/
def total (σ a b : Int) (carry : Bool) : Int := a + σ * (b + carry.toNat)

/-- The two's complement number of `n` bytes with a given value. -/
def twosComplement (n value : Nat) : Int := signed (256 ^ n / 2) value

section Numbers

variable (links : List Link)

def leftNumber : Nat := Nat.ofDigits 256 (links.map Link.left)

def rightNumber : Nat := Nat.ofDigits 256 (links.map Link.right)

def resultNumber : Nat := Nat.ofDigits 256 (links.map Link.result)

end Numbers

/-- The total of the numbers that the operands make up. -/
def unsignedTotal (σ : Int) (links : List Link) (carry : Bool) : Int :=
  total σ (leftNumber links) (rightNumber links) carry

def signedTotal (σ : Int) (links : List Link) (carry : Bool) : Int :=
  total σ (twosComplement links.length (leftNumber links))
    (twosComplement links.length (rightNumber links)) carry

/-- What flags and bytes tell about the total of the operands and a carry, where `zero` says whether all
bytes before these were zero. -/
structure Totals (σ : Int) (links : List Link) (carry zero : Bool) (final : Memory) : Prop where
  c : σ * (final.flag Flag.c.val).toNat = unsignedTotal σ links carry / (256 : Int) ^ links.length
  z : σ = -1 → final.flag Flag.z.val =
    (decide (unsignedTotal σ links carry % (256 : Int) ^ links.length = 0) && zero)
  s : final.flag Flag.s.val = decide (signedTotal σ links carry < 0)
  v : final.flag Flag.v.val = overflows (256 ^ links.length / 2) (signedTotal σ links carry)
  bytes : (∀ l ∈ links, l.instr.stores) →
    (resultNumber links : Int) = unsignedTotal σ links carry % (256 : Int) ^ links.length

section Totals

variable {σ : Int} {l : Link} {links : List Link} {carry zero : Bool} {final : Memory}

theorem half_pow_succ {n : Nat} (hn : 0 < n) : 256 ^ (n + 1) / 2 = 256 * (256 ^ n / 2) := by
  obtain ⟨k, rfl⟩ := Nat.exists_eq_add_of_lt hn
  rw [Nat.zero_add, Nat.pow_succ, Nat.pow_succ]
  omega

/-- A number of `n` bytes with a byte below it. -/
theorem twosComplement_cons {n : Nat} (hn : 0 < n) {x : Nat} (hx : x < 256) (value : Nat) :
    twosComplement (n + 1) (x + 256 * value) = x + 256 * twosComplement n value := by
  unfold twosComplement signed
  rw [half_pow_succ hn]
  generalize 256 ^ n / 2 = half
  split <;> split <;> omega

theorem total_cons {x y a b : Int} {c c' : Bool} (h : σ * c'.toNat = total σ x y c / 256) :
    total σ (x + 256 * a) (y + 256 * b) c = total σ x y c % 256 + 256 * total σ a b c' := by
  have hdiv := Int.emod_add_mul_ediv (total σ x y c) 256
  rw [← h] at hdiv
  unfold total at hdiv ⊢
  linear_combination -hdiv

theorem unsignedTotal_singleton : unsignedTotal σ [l] carry = total σ l.left l.right carry := by
  simp [unsignedTotal, leftNumber, rightNumber]

theorem leftNumber_cons : leftNumber (l :: links) = l.left + 256 * leftNumber links :=
  Nat.ofDigits_cons

theorem rightNumber_cons : rightNumber (l :: links) = l.right + 256 * rightNumber links :=
  Nat.ofDigits_cons

theorem resultNumber_cons : resultNumber (l :: links) = l.result + 256 * resultNumber links :=
  Nat.ofDigits_cons

theorem unsignedTotal_cons {carry' : Bool} (h : σ * carry'.toNat = unsignedTotal σ [l] carry / 256) :
    unsignedTotal σ (l :: links) carry =
      unsignedTotal σ [l] carry % 256 + 256 * unsignedTotal σ links carry' := by
  rw [unsignedTotal_singleton] at h ⊢
  unfold unsignedTotal
  rw [leftNumber_cons, rightNumber_cons]
  push_cast
  exact total_cons h

theorem signedTotal_cons {carry' : Bool} (hlinks : links ≠ [])
    (h : σ * carry'.toNat = unsignedTotal σ [l] carry / 256) :
    signedTotal σ (l :: links) carry =
      unsignedTotal σ [l] carry % 256 + 256 * signedTotal σ links carry' := by
  have hlength := List.length_pos_iff.mpr hlinks
  rw [unsignedTotal_singleton] at h ⊢
  unfold signedTotal
  rw [leftNumber_cons, rightNumber_cons, List.length_cons,
    twosComplement_cons hlength l.left_lt, twosComplement_cons hlength l.right_lt]
  exact total_cons h

/-- Quotient and remainder of a number with a byte below it. -/
theorem ediv_emod_cons {P : Int} (hP : 0 < P) {d : Int} (hd : 0 ≤ d) (hd' : d < 256) (t : Int) :
    (d + 256 * t) / (256 * P) = t / P ∧ (d + 256 * t) % (256 * P) = d + 256 * (t % P) := by
  have hlow := Int.emod_nonneg t hP.ne'
  have hhigh := Int.emod_lt_of_pos t hP
  have hdiv := Int.emod_add_mul_ediv t P
  rw [Int.ediv_emod_unique (by omega)]
  refine ⟨?_, by omega, by omega⟩
  linear_combination 256 * hdiv

/-- One more byte: the total of all bytes has the first result for its lowest byte. -/
theorem totals_cons (hlinks : links ≠ []) (hfirst : Totals σ [l] carry zero l.after)
    (hrest : Totals σ links (l.after.flag Flag.c.val) (l.after.flag Flag.z.val) final) :
    Totals σ (l :: links) carry zero final := by
  have hcarry : σ * (l.after.flag Flag.c.val).toNat = unsignedTotal σ [l] carry / 256 := hfirst.c
  have hlow := Int.emod_nonneg (unsignedTotal σ [l] carry) (show (256 : Int) ≠ 0 by decide)
  have hhigh := Int.emod_lt_of_pos (unsignedTotal σ [l] carry) (show (0 : Int) < 256 by decide)
  have hpower : (0 : Int) < 256 ^ links.length := by positivity
  obtain ⟨hdiv, hmod⟩ := ediv_emod_cons hpower hlow hhigh
    (unsignedTotal σ links (l.after.flag Flag.c.val))
  have hsucc : (256 : Int) ^ (l :: links).length = 256 * 256 ^ links.length := by
    rw [List.length_cons, pow_succ, mul_comm]
  rw [← unsignedTotal_cons hcarry, ← hsucc] at hdiv hmod
  constructor
  case c => rw [hdiv, hrest.c]
  case z =>
    intro hσ
    have hnonneg := Int.emod_nonneg (unsignedTotal σ links (l.after.flag Flag.c.val)) hpower.ne'
    have hbyte : l.after.flag Flag.z.val = (decide (unsignedTotal σ [l] carry % 256 = 0) && zero) :=
      hfirst.z hσ
    rw [hrest.z hσ, hbyte, hmod, ← Bool.and_assoc, ← Bool.decide_and]
    congr 2
    rw [eq_iff_iff]
    omega
  case s =>
    rw [hrest.s, signedTotal_cons hlinks hcarry, decide_eq_decide]
    omega
  case v =>
    rw [hrest.v, signedTotal_cons hlinks hcarry, List.length_cons,
      half_pow_succ (List.length_pos_iff.mpr hlinks)]
    unfold overflows
    rw [decide_eq_decide]
    omega
  case bytes =>
    intro hstores
    obtain ⟨hl, hothers⟩ := List.forall_mem_cons.mp hstores
    have hbyte : (resultNumber [l] : Int) = unsignedTotal σ [l] carry % 256 :=
      hfirst.bytes (List.forall_mem_singleton.mpr hl)
    have hsingle : resultNumber [l] = l.result := Nat.ofDigits_singleton
    rw [hmod, resultNumber_cons, ← hbyte, ← hrest.bytes hothers, hsingle]
    push_cast
    rfl

theorem signedTotal_singleton :
    signedTotal σ [l] carry = total σ (signed 128 l.left) (signed 128 l.right) carry := by
  simp [signedTotal, twosComplement, leftNumber, rightNumber]

theorem resultNumber_singleton : resultNumber [l] = l.result := Nat.ofDigits_singleton

end Totals

/-! ## One instruction -/

/-- The outcome of an instruction of a chain. -/
def Sense.outcome (sense : Sense) (instr : Instr) (data : Memory) (carry zero : Bool) : Outcome :=
  let a := instr.left data
  let b := instr.right data
  let bytes (value : Nat) : List Nat := if instr.stores then [value] else []
  match sense with
  | .sum => ⟨instr.destination, bytes ((a + b + carry.toNat) % 256), .ofSum a b carry⟩
  | .difference =>
    ⟨instr.destination, bytes (AvrSim.difference a b carry), .ofDifference a b carry zero⟩

section Links

variable {sense : Sense} {instr : Instr} {data : Memory}

theorem outcome_of_starts (h : sense.starts instr) :
    instr.outcome? data = some (sense.outcome instr data false true) := by
  cases sense <;> cases instr <;> simp only [Sense.starts] at h
  case sum.binary =>
    subst h
    rfl
  case difference.binary => obtain rfl | rfl := h <;> rfl
  case difference.immediate => obtain rfl | rfl := h <;> rfl

theorem outcome_of_continues (h : sense.continues instr) :
    instr.outcome? data =
      some (sense.outcome instr data (data.flag Flag.c.val) (data.flag Flag.z.val)) := by
  cases sense <;> cases instr <;> simp only [Sense.continues] at h
  case sum.binary =>
    subst h
    rfl
  case difference.binary => obtain rfl | rfl := h <;> rfl
  case difference.immediate =>
    subst h
    rfl

variable {l : Link} {carry zero : Bool}

/-- Overflow turns the sign of a byte over. -/
theorem sign_of_overflow (result : Nat) (t : Int) (hlow : -256 ≤ t) (hhigh : t < 256)
    (h : (result : Int) = t % 256) :
    (decide (128 ≤ result) != overflows 128 t) = decide (t < 0) := by
  unfold overflows
  rw [Bool.eq_iff_iff, bne_iff_ne, ne_eq, decide_eq_decide, decide_eq_true_iff]
  omega

theorem signed_byte {x : Nat} (hx : x < 256) :
    signed 128 x % 256 = x ∧ -128 ≤ signed 128 x ∧ signed 128 x < 128 := by
  unfold signed
  split <;> omega

theorem totals_of_sum (hflags : (Verdict.ofSum l.left l.right carry).Shown l.machine.data.status
      l.after.status)
    (hresult : l.instr.stores → l.result = (l.left + l.right + carry.toNat) % 256) :
    Totals 1 [l] carry zero l.after := by
  have hx := l.left_lt
  have hy := l.right_lt
  have hc := carry.toNat_le
  obtain ⟨hxs, hxl, hxh⟩ := signed_byte hx
  obtain ⟨hys, hyl, hyh⟩ := signed_byte hy
  have htotal : unsignedTotal 1 [l] carry = (l.left + l.right + carry.toNat : Nat) := by
    rw [unsignedTotal_singleton, total]
    omega
  have hsigned : signedTotal 1 [l] carry = signed 128 l.left + signed 128 l.right + carry.toNat := by
    rw [signedTotal_singleton, total]
    omega
  constructor
  case c =>
    have hcarry : l.after.flag Flag.c.val = decide (256 ≤ l.left + l.right + carry.toNat) := hflags.c
    rw [htotal, hcarry, List.length_singleton, pow_one]
    by_cases hout : 256 ≤ l.left + l.right + carry.toNat
    · rw [decide_eq_true hout, Bool.toNat_true]
      omega
    · rw [decide_eq_false hout, Bool.toNat_false]
      omega
  case z => exact fun hσ => absurd hσ (by decide)
  case s =>
    have hsign := sign_of_overflow ((l.left + l.right + carry.toNat) % 256)
      (signedTotal 1 [l] carry) (by omega) (by omega) (by omega)
    rw [← hsign, hsigned]
    exact hflags.s
  case v =>
    rw [hsigned, List.length_singleton]
    exact hflags.v
  case bytes =>
    intro hstores
    rw [htotal, resultNumber_singleton, List.length_singleton, pow_one,
      hresult (hstores l List.mem_cons_self)]
    rfl

theorem totals_of_difference
    (hflags : (Verdict.ofDifference l.left l.right carry zero).Shown l.machine.data.status
      l.after.status)
    (hresult : l.instr.stores → l.result = difference l.left l.right carry) :
    Totals (-1) [l] carry zero l.after := by
  have hx := l.left_lt
  have hy := l.right_lt
  have hc := carry.toNat_le
  obtain ⟨hxs, hxl, hxh⟩ := signed_byte hx
  obtain ⟨hys, hyl, hyh⟩ := signed_byte hy
  have htotal : unsignedTotal (-1) [l] carry = (l.left : Int) - l.right - carry.toNat := by
    rw [unsignedTotal_singleton, total]
    omega
  have hsigned : signedTotal (-1) [l] carry =
      signed 128 l.left - signed 128 l.right - carry.toNat := by
    rw [signedTotal_singleton, total]
    omega
  have hbyte : (difference l.left l.right carry : Int) = unsignedTotal (-1) [l] carry % 256 := by
    rw [htotal, difference]
    omega
  constructor
  case c =>
    have hcarry : l.after.flag Flag.c.val = decide (l.left < l.right + carry.toNat) := hflags.c
    rw [htotal, hcarry, List.length_singleton, pow_one]
    by_cases hout : l.left < l.right + carry.toNat
    · rw [decide_eq_true hout, Bool.toNat_true]
      omega
    · rw [decide_eq_false hout, Bool.toNat_false]
      omega
  case z =>
    intro _
    have hzero : decide (unsignedTotal (-1) [l] carry % 256 = 0) =
        decide (difference l.left l.right carry = 0) := by
      rw [decide_eq_decide]
      omega
    rw [List.length_singleton, pow_one, hzero]
    exact hflags.z
  case s =>
    have hsign := sign_of_overflow (difference l.left l.right carry)
      (signedTotal (-1) [l] carry) (by omega) (by omega) (by omega)
    rw [← hsign, hsigned]
    exact hflags.s
  case v =>
    rw [hsigned, List.length_singleton]
    exact hflags.v
  case bytes =>
    intro hstores
    rw [resultNumber_singleton, List.length_singleton, pow_one, ← hbyte,
      hresult (hstores l List.mem_cons_self)]

theorem totals_of_reached
    (h : (sense.outcome l.instr l.machine.data carry zero).Reached l.machine.data l.after) :
    Totals sense.sign [l] carry zero l.after := by
  cases sense with
  | sum =>
    refine totals_of_sum h.flags fun hstores => h.stored 0 _ ?_
    rw [Sense.outcome, hstores]
    rfl
  | difference =>
    refine totals_of_difference h.flags fun hstores => h.stored 0 _ ?_
    rw [Sense.outcome, hstores]
    rfl

theorem Link.Ready.reached {o : Outcome} (h : l.Ready) (ho : l.instr.outcome? l.machine.data = some o) :
    o.Reached l.machine.data l.after :=
  Machine.reached_execute h.running h.inside h.holds h.status ho

end Links

/-! ## Whole chains -/

section Chains

variable {sense : Sense} {first : Link} {rest : List Link}

/-- Once the first bytes are done, each of the others starts with the flags that it finds. -/
theorem totals_of_linked {carry zero : Bool} (hfirst : Totals sense.sign [first] carry zero first.after)
    (hready : ∀ l ∈ rest, l.Ready) (hrest : ∀ l ∈ rest, sense.continues l.instr)
    (hlinked : (first :: rest).IsChain fun l l' => l'.machine.data.status = l.after.status) :
    Totals sense.sign (first :: rest) carry zero (rest.getLastD first).after := by
  induction rest generalizing first carry zero with
  | nil => exact hfirst
  | cons next rest ih =>
    obtain ⟨hnext, hothers⟩ := List.forall_mem_cons.mp hrest
    obtain ⟨hstatus, hlinked⟩ := List.isChain_cons_cons.mp hlinked
    have hreached := (hready next List.mem_cons_self).reached (outcome_of_continues hnext)
    have hlast := ih (totals_of_reached hreached) (fun l hl => hready l (.tail _ hl)) hothers hlinked
    unfold Memory.flag at hlast
    rw [hstatus] at hlast
    rw [List.getLastD_cons]
    exact totals_cons (List.cons_ne_nil next rest) hfirst hlast

theorem Chain.totals (h : Chain sense first rest) :
    Totals sense.sign (first :: rest) false true (rest.getLastD first).after := by
  obtain ⟨hfirst, hrest⟩ := List.forall_mem_cons.mp h.ready
  exact totals_of_linked (totals_of_reached (hfirst.reached (outcome_of_starts h.starts))) hrest
    h.continues h.linked

theorem total_one (a b : Int) : total 1 a b false = a + b := by
  simp [total]

theorem total_neg_one (a b : Int) : total (-1) a b false = a - b := by
  simp [total, sub_eq_add_neg]

end Chains

section Results

variable (links : List Link) (final : Memory)

/-- What comparing or subtracting numbers leaves. -/
structure Differs : Prop where
  c : final.flag Flag.c.val = decide (leftNumber links < rightNumber links)
  z : final.flag Flag.z.val =
    decide (leftNumber links % 256 ^ links.length = rightNumber links % 256 ^ links.length)
  s : final.flag Flag.s.val =
    decide (twosComplement links.length (leftNumber links) <
      twosComplement links.length (rightNumber links))
  v : final.flag Flag.v.val =
    overflows (256 ^ links.length / 2) (twosComplement links.length (leftNumber links) -
      twosComplement links.length (rightNumber links))
  bytes : (∀ l ∈ links, l.instr.stores) →
    (resultNumber links : Int) =
      ((leftNumber links : Int) - rightNumber links) % (256 ^ links.length : Nat)

/-- What adding numbers leaves. -/
structure Sums : Prop where
  c : final.flag Flag.c.val = decide (256 ^ links.length ≤ leftNumber links + rightNumber links)
  v : final.flag Flag.v.val =
    overflows (256 ^ links.length / 2) (twosComplement links.length (leftNumber links) +
      twosComplement links.length (rightNumber links))
  bytes : resultNumber links = (leftNumber links + rightNumber links) % 256 ^ links.length

/-- The numbers are read from the registers of one data space and the result is left in those of
another. -/
structure Resides (data : Memory) : Prop where
  left : leftNumber links = Nat.ofDigits 256 (links.map fun l => l.instr.left data)
  right : rightNumber links = Nat.ofDigits 256 (links.map fun l => l.instr.right data)
  result : (∀ l ∈ links, l.instr.stores) → resultNumber links =
    Nat.ofDigits 256 (links.map fun l => (final.get l.instr.destination).toNat)

variable {links final}

theorem differs_of_totals (h : Totals (-1) links false true final) : Differs links final := by
  have hpower : (0 : Int) < 256 ^ links.length := by positivity
  obtain ⟨hc, hz, hs, hv, hbytes⟩ := h
  unfold unsignedTotal at hc hz hbytes
  unfold signedTotal at hs hv
  rw [total_neg_one] at hc hz hs hv hbytes
  constructor
  case c =>
    have hsign := Int.ediv_nonneg_iff_of_pos (a := leftNumber links - rightNumber links) hpower
    rw [← hc] at hsign
    cases hflag : final.flag Flag.c.val with
    | false =>
      rw [hflag, Bool.toNat_false] at hsign
      exact (decide_eq_false (by omega)).symm
    | true =>
      rw [hflag, Bool.toNat_true] at hsign
      exact (decide_eq_true (by omega)).symm
  case z =>
    rw [hz rfl, Bool.and_true, decide_eq_decide, ← Int.emod_eq_emod_iff_emod_sub_eq_zero]
    exact_mod_cast Iff.rfl
  case s =>
    rw [hs, decide_eq_decide]
    omega
  case v => exact hv
  case bytes =>
    push_cast
    exact hbytes

theorem sums_of_totals {zero : Bool} (h : Totals 1 links false zero final)
    (hstores : ∀ l ∈ links, l.instr.stores) : Sums links final := by
  have hpower : (0 : Int) < 256 ^ links.length := by positivity
  obtain ⟨hc, -, -, hv, hbytes⟩ := h
  unfold unsignedTotal at hc hbytes
  unfold signedTotal at hv
  rw [total_one] at hc hv hbytes
  constructor
  case c =>
    have hlarge := Int.le_ediv_iff_mul_le (a := 1) (b := leftNumber links + rightNumber links) hpower
    have hcast : (256 : Int) ^ links.length ≤ leftNumber links + rightNumber links ↔
        256 ^ links.length ≤ leftNumber links + rightNumber links := by
      exact_mod_cast Iff.rfl
    rw [← hc, one_mul, one_mul, hcast] at hlarge
    cases hflag : final.flag Flag.c.val with
    | false =>
      rw [hflag, Bool.toNat_false] at hlarge
      exact (decide_eq_false (by omega)).symm
    | true =>
      rw [hflag, Bool.toNat_true] at hlarge
      exact (decide_eq_true (by omega)).symm
  case v => exact hv
  case bytes => exact_mod_cast hbytes hstores

end Results

/-! ## Chains in place -/

section InPlace

variable {sense : Sense} {first : Link} {rest : List Link}

theorem Sense.outcome_length (sense : Sense) (instr : Instr) (data : Memory) (carry zero : Bool) :
    (sense.outcome instr data carry zero).bytes.length = instr.stores.toNat := by
  unfold Sense.outcome
  cases sense <;> cases instr.stores <;> rfl

/-- A link keeps every register but the one it stores. -/
def Link.Keeps (l : Link) : Prop :=
  ∀ x < 32, (l.instr.stores → x ≠ l.instr.destination) → l.after.get x = l.machine.data.get x

theorem Chain.keeps (h : Chain sense first rest) : ∀ l ∈ first :: rest, l.Keeps := by
  intro l hl x hx hfree
  have hready := h.ready l hl
  obtain ⟨c, z, hreached⟩ : ∃ c z,
      (sense.outcome l.instr l.machine.data c z).Reached l.machine.data l.after := by
    obtain rfl | hl := List.mem_cons.mp hl
    · exact ⟨_, _, hready.reached (outcome_of_starts h.starts)⟩
    · exact ⟨_, _, hready.reached (outcome_of_continues (h.continues l hl))⟩
  have hfirst : (sense.outcome l.instr l.machine.data c z).first = l.instr.destination := by
    cases sense <;> rfl
  apply hreached.kept x _ (by unfold sregAddress; omega)
  rw [Sense.outcome_length, hfirst]
  cases hstores : l.instr.stores with
  | false =>
    rw [Bool.toNat_false]
    omega
  | true =>
    have hne := hfree hstores
    rw [Bool.toNat_true]
    omega

/-- A register that no link stores is the same at the end. -/
theorem get_last (hkeeps : ∀ l ∈ first :: rest, l.Keeps)
    (hdirect : (first :: rest).IsChain fun l l' => l'.machine = l.machine.execute) {x : Nat}
    (hx : x < 32) (hfree : ∀ l ∈ first :: rest, l.instr.stores → x ≠ l.instr.destination) :
    (rest.getLastD first).after.get x = first.machine.data.get x := by
  induction rest generalizing first with
  | nil => exact hkeeps first (.head _) x hx (hfree first (.head _))
  | cons next rest ih =>
    obtain ⟨hnext, hdirect⟩ := List.isChain_cons_cons.mp hdirect
    obtain ⟨hfirst, hkeeps⟩ := List.forall_mem_cons.mp hkeeps
    obtain ⟨hfree', hfree⟩ := List.forall_mem_cons.mp hfree
    rw [List.getLastD_cons, ih hkeeps hdirect hfree, hnext]
    exact hfirst x hx hfree'

theorem InPlace.tail {l : Link} {links : List Link} (h : InPlace (l :: links)) : InPlace links :=
  ⟨h.direct.tail, h.apart.tail⟩

/-- No operand has changed by the time it is read. -/
theorem InPlace.get_registers (h : InPlace (first :: rest)) (hkeeps : ∀ l ∈ first :: rest, l.Keeps) :
    ∀ l ∈ first :: rest, ∀ x ∈ l.instr.registers,
      l.machine.data.get x = first.machine.data.get x := by
  induction rest generalizing first with
  | nil =>
    intro l hl x _
    rw [List.mem_singleton.mp hl]
  | cons next rest ih =>
    intro l hl x hx
    obtain rfl | hl := List.mem_cons.mp hl
    · rfl
    · have hnext := (List.isChain_cons_cons.mp h.direct).1
      have hapart := (List.pairwise_cons.mp h.apart).1 l hl
      rw [ih h.tail (List.forall_mem_cons.mp hkeeps).2 l hl x hx, hnext]
      refine hkeeps first (.head _) x (Instr.lt_of_mem_registers hx) fun hstores heq => ?_
      exact hapart hstores (heq ▸ hx)

/-- No result has changed at the end. -/
theorem InPlace.get_destination (h : InPlace (first :: rest))
    (hkeeps : ∀ l ∈ first :: rest, l.Keeps) :
    ∀ l ∈ first :: rest, l.instr.stores →
      (rest.getLastD first).after.get l.instr.destination =
        l.after.get l.instr.destination := by
  induction rest generalizing first with
  | nil =>
    intro l hl _
    rw [List.mem_singleton.mp hl]
    rfl
  | cons next rest ih =>
    intro l hl hstores
    have hkeeps' := (List.forall_mem_cons.mp hkeeps).2
    rw [List.getLastD_cons]
    obtain rfl | hl := List.mem_cons.mp hl
    · have hnext := (List.isChain_cons_cons.mp h.direct).1
      have hapart := (List.pairwise_cons.mp h.apart).1
      rw [get_last hkeeps' h.tail.direct (Instr.lt_of_mem_registers (Instr.destination_mem hstores)),
        hnext]
      · rfl
      · intro l' hl' hstores' heq
        exact hapart l' hl' hstores (heq ▸ Instr.destination_mem hstores')
    · exact ih h.tail hkeeps' l hl hstores

theorem InPlace.resides (h : InPlace (first :: rest)) (hkeeps : ∀ l ∈ first :: rest, l.Keeps) :
    Resides (first :: rest) (rest.getLastD first).after first.machine.data where
  left := congrArg (Nat.ofDigits 256) (List.map_congr_left fun l hl =>
    Instr.left_congr (h.get_registers hkeeps l hl))
  right := congrArg (Nat.ofDigits 256) (List.map_congr_left fun l hl =>
    Instr.right_congr (h.get_registers hkeeps l hl))
  result := fun hstores => congrArg (Nat.ofDigits 256) (List.map_congr_left fun l hl =>
    congrArg UInt8.toNat (h.get_destination hkeeps l hl (hstores l hl)).symm)

end InPlace

theorem stores_of_starts_sum {instr : Instr} (h : Sense.sum.starts instr) : instr.stores := by
  cases instr with
  | binary op d r =>
    obtain rfl : op = .add := h
    rfl
  | _ => cases h

theorem stores_of_continues_sum {instr : Instr} (h : Sense.sum.continues instr) : instr.stores := by
  cases instr with
  | binary op d r =>
    obtain rfl : op = .adc := h
    rfl
  | _ => cases h

/-- A chain computes with the whole numbers: a comparison or subtraction leaves C, Z, S and V as they
are for the difference of the numbers, a subtraction also leaves the difference, and an addition leaves the
sum with its C and V, whatever the flags were before. If the chain is in place, the numbers are those
that the registers held at its start, and the result is in the registers at its end. -/
theorem chain_computes (first : Link) (rest : List Link) :
    (Chain .difference first rest → Differs (first :: rest) (rest.getLastD first).after) ∧
    (Chain .sum first rest → Sums (first :: rest) (rest.getLastD first).after) ∧
    ∀ sense, Chain sense first rest → InPlace (first :: rest) →
      Resides (first :: rest) (rest.getLastD first).after first.machine.data := by
  refine ⟨fun h => differs_of_totals h.totals, fun h => sums_of_totals h.totals ?_, ?_⟩
  · exact List.forall_mem_cons.mpr
      ⟨stores_of_starts_sum h.starts, fun l hl => stores_of_continues_sum (h.continues l hl)⟩
  · exact fun sense h hplace => hplace.resides h.keeps

/-- A machine with `0x8000` in registers 17 and 16 and `0x8001` in registers 19 and 18, and all flags
set. -/
def calculator (code : List UInt8) : Machine where
  model := .atmega48
  data := ((((Memory.zeros 96).set 17 0x80).set 18 0x01).set 19 0x80).set sregAddress 0xFF
  flash := (Memory.zeros 4).store 0 code
  codeEnd := 3
  journal := { threshold := none }
  wiring := {}

def subtractLow : Link := ⟨calculator [0x02, 0x1B, 0x13, 0x0B], .binary .sub (wrap 31 16) (wrap 31 18)⟩

def subtractHigh : Link := ⟨subtractLow.machine.execute, .binary .sbc (wrap 31 17) (wrap 31 19)⟩

def addLow : Link := ⟨calculator [0x02, 0x0F, 0x13, 0x1F], .binary .add (wrap 31 16) (wrap 31 18)⟩

def addHigh : Link := ⟨addLow.machine.execute, .binary .adc (wrap 31 17) (wrap 31 19)⟩

theorem chain_subtract : Chain .difference subtractLow [subtractHigh] where
  ready := List.forall_mem_cons.mpr
    ⟨⟨rfl, by decide, ⟨by decide, by decide, by decide, trivial⟩, by decide⟩,
      List.forall_mem_singleton.mpr
        ⟨by decide +kernel, by decide +kernel,
          ⟨by decide +kernel, by decide +kernel, by decide +kernel, trivial⟩, by decide +kernel⟩⟩
  starts := .inr rfl
  continues := List.forall_mem_singleton.mpr (.inr rfl)
  linked := List.isChain_pair.mpr rfl

theorem chain_add : Chain .sum addLow [addHigh] where
  ready := List.forall_mem_cons.mpr
    ⟨⟨rfl, by decide, ⟨by decide, by decide, by decide, trivial⟩, by decide⟩,
      List.forall_mem_singleton.mpr
        ⟨by decide +kernel, by decide +kernel,
          ⟨by decide +kernel, by decide +kernel, by decide +kernel, trivial⟩, by decide +kernel⟩⟩
  starts := rfl
  continues := List.forall_mem_singleton.mpr rfl
  linked := List.isChain_pair.mpr rfl

theorem calculator_computes :
    Chain .difference subtractLow [subtractHigh] ∧ InPlace [subtractLow, subtractHigh] ∧
      (subtractHigh.after.flag Flag.c.val = true ∧ subtractHigh.after.flag Flag.z.val = false ∧
        subtractHigh.after.flag Flag.s.val = true ∧ subtractHigh.after.flag Flag.v.val = false) ∧
      Nat.ofDigits 256 [(subtractHigh.after.get 16).toNat, (subtractHigh.after.get 17).toNat] =
        0xFFFF ∧
    Chain .sum addLow [addHigh] ∧ InPlace [addLow, addHigh] ∧
      (addHigh.after.flag Flag.c.val = true ∧ addHigh.after.flag Flag.v.val = true) ∧
      Nat.ofDigits 256 [(addHigh.after.get 16).toNat, (addHigh.after.get 17).toNat] = 1 := by
  obtain ⟨hdiffers, -, hplace⟩ := chain_computes subtractLow [subtractHigh]
  obtain ⟨-, hsums, hplace'⟩ := chain_computes addLow [addHigh]
  have hin : InPlace [subtractLow, subtractHigh] := ⟨List.isChain_pair.mpr rfl, by decide⟩
  have hin' : InPlace [addLow, addHigh] := ⟨List.isChain_pair.mpr rfl, by decide⟩
  obtain ⟨hc, hz, hs, hv, hbytes⟩ := hdiffers chain_subtract
  obtain ⟨hc', hv', hbytes'⟩ := hsums chain_add
  obtain ⟨hleft, hright, hresult⟩ := hplace _ chain_subtract hin
  obtain ⟨hleft', hright', hresult'⟩ := hplace' _ chain_add hin'
  replace hleft : leftNumber [subtractLow, subtractHigh] = 0x8000 := hleft
  replace hright : rightNumber [subtractLow, subtractHigh] = 0x8001 := hright
  replace hleft' : leftNumber [addLow, addHigh] = 0x8000 := hleft'
  replace hright' : rightNumber [addLow, addHigh] = 0x8001 := hright'
  rw [hleft, hright] at hc hz hs hv hbytes
  rw [hleft', hright'] at hc' hv' hbytes'
  refine ⟨chain_subtract, hin, ⟨hc, hz, hs, hv⟩, ?_, chain_add, hin', ⟨hc', hv'⟩, ?_⟩
  · exact (hresult (by decide)).symm.trans (Int.ofNat_inj.mp (hbytes (by decide)))
  · exact (hresult' (by decide)).symm.trans hbytes'

end AvrSim
