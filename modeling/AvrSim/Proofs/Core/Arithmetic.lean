import AvrSim.Proofs.Asm.Execution
import AvrSim.Proofs.Core.Flags
import Mathlib.Tactic.Linarith

/-!
# What arithmetic instructions compute

The arithmetic and logic instructions as operations on numbers. `Instr.outcome?` says for each of them
which bytes it puts into which registers and which flags it determines, all in terms of sums,
differences, products and quotients of the numbers in the registers. The core works with bytes and bits;
it is shown to have this outcome and no other effect.

* `Verdict.Shown`: the status register afterwards, flag by flag.
* `Outcome.Reached`: the data space afterwards, byte by byte.
* `Machine.execute_computes`: executing the word of an instruction has the instruction's outcome.
-/

namespace AvrSim

open Alu (overflows)
open Machine (signed)

/-! ## Verdicts -/

/-- What an instruction makes of the flags: a value for each flag that it determines, and nothing for
one that it leaves alone. None of the instructions here determines T or I. -/
structure Verdict where
  c : Option Bool := none
  z : Option Bool := none
  n : Option Bool := none
  v : Option Bool := none
  s : Option Bool := none
  h : Option Bool := none

/-- The difference of two bytes and a borrow, as a byte. -/
def difference (a b : Nat) (borrow : Bool) : Nat := (((a : Int) - b - borrow.toNat) % 256).toNat

namespace Verdict

/-- Zero, sign and overflow of a result whose sign bit has the value `half`. -/
def ofResult (half result : Nat) (overflow : Bool) : Verdict where
  z := some (decide (result = 0))
  n := some (decide (half ≤ result))
  v := some overflow
  s := some (decide (half ≤ result) != overflow)

/-- The flags of the sum of two bytes and a carry. -/
def ofSum (a b : Nat) (carry : Bool) : Verdict :=
  { ofResult 128 ((a + b + carry.toNat) % 256)
      (overflows 128 (signed 128 a + signed 128 b + carry.toNat)) with
    c := some (decide (256 ≤ a + b + carry.toNat))
    h := some (decide (16 ≤ a % 16 + b % 16 + carry.toNat)) }

/-- The flags of the difference of two bytes and a borrow. Zero is shown only if `sticky` allows it. -/
def ofDifference (a b : Nat) (borrow sticky : Bool) : Verdict :=
  { ofResult 128 (difference a b borrow)
      (overflows 128 (signed 128 a - signed 128 b - borrow.toNat)) with
    z := some (decide (difference a b borrow = 0) && sticky)
    c := some (decide (a < b + borrow.toNat))
    h := some (decide (a % 16 < b % 16 + borrow.toNat)) }

/-- The flags of a shift to the right that moves the bit `out` to the carry. -/
def ofShift (result : Nat) (out : Bool) : Verdict :=
  { ofResult 128 result (decide (128 ≤ result) != out) with c := some out }

/-- A status register shows a verdict on the one before it. -/
structure Shown (w : Verdict) (before after : Status) : Prop where
  c : after.get Flag.c.val = w.c.getD (before.get Flag.c.val)
  z : after.get Flag.z.val = w.z.getD (before.get Flag.z.val)
  n : after.get Flag.n.val = w.n.getD (before.get Flag.n.val)
  v : after.get Flag.v.val = w.v.getD (before.get Flag.v.val)
  s : after.get Flag.s.val = w.s.getD (before.get Flag.s.val)
  h : after.get Flag.h.val = w.h.getD (before.get Flag.h.val)
  t : after.get Flag.t.val = before.get Flag.t.val
  i : after.get Flag.i.val = before.get Flag.i.val

end Verdict

/-! ## Outcomes -/

/-- What an instruction computes: bytes for registers from `first` on, and a verdict on the flags. -/
structure Outcome where
  first : Nat
  bytes : List Nat
  verdict : Verdict

/-- The data space after an instruction has its outcome and is otherwise as it was before. -/
structure Outcome.Reached (o : Outcome) (data data' : Memory) : Prop where
  flags : o.verdict.Shown data.status data'.status
  stored : ∀ i value, o.bytes[i]? = some value → (data'.get (o.first + i)).toNat = value
  kept : ∀ x, x < o.first ∨ o.first + o.bytes.length ≤ x → x ≠ sregAddress →
    data'.get x = data.get x
  size : data'.size = data.size

/-- A 16 bit number as bytes for a pair of registers. -/
def pairBytes (w : Nat) : List Nat := [w % 256, w / 256]

/-- The outcome of an operation on the bytes `a` and `b` of two registers, the first of which is `d`,
with the flags C and Z as they are. -/
def BinaryOp.outcome? (op : BinaryOp) (d a b : Nat) (c z : Bool) : Option Outcome :=
  match op with
  | .add => some ⟨d, [(a + b) % 256], .ofSum a b false⟩
  | .adc => some ⟨d, [(a + b + c.toNat) % 256], .ofSum a b c⟩
  | .sub => some ⟨d, [difference a b false], .ofDifference a b false true⟩
  | .sbc => some ⟨d, [difference a b c], .ofDifference a b c z⟩
  | .cp => some ⟨d, [], .ofDifference a b false true⟩
  | .cpc => some ⟨d, [], .ofDifference a b c z⟩
  | .and => some ⟨d, [a &&& b], .ofResult 128 (a &&& b) false⟩
  | .eor => some ⟨d, [a ^^^ b], .ofResult 128 (a ^^^ b) false⟩
  | .or => some ⟨d, [a ||| b], .ofResult 128 (a ||| b) false⟩
  | .mul =>
    some ⟨0, pairBytes (a * b),
      { c := some (decide (0x8000 ≤ a * b)), z := some (decide (a * b = 0)) }⟩
  | .cpse | .mov => none

/-- The outcome of an operation on the byte `a` of register `d` and a constant. -/
def ImmediateOp.outcome? (op : ImmediateOp) (d a k : Nat) (c z : Bool) : Option Outcome :=
  match op with
  | .subi => some ⟨d, [difference a k false], .ofDifference a k false true⟩
  | .sbci => some ⟨d, [difference a k c], .ofDifference a k c z⟩
  | .cpi => some ⟨d, [], .ofDifference a k false true⟩
  | .andi => some ⟨d, [a &&& k], .ofResult 128 (a &&& k) false⟩
  | .ori => some ⟨d, [a ||| k], .ofResult 128 (a ||| k) false⟩
  | .ldi => none

/-- The outcome of an operation on the byte `a` of register `d`. A shift to the right is a division, of
the number itself or of the two's complement number. -/
def UnaryOp.outcome? (op : UnaryOp) (d a : Nat) (c : Bool) : Option Outcome :=
  match op with
  | .com => some ⟨d, [255 - a], { Verdict.ofResult 128 (255 - a) false with c := some true }⟩
  | .neg => some ⟨d, [difference 0 a false], .ofDifference 0 a false true⟩
  | .inc =>
    let result := (a + 1) % 256
    some ⟨d, [result], .ofResult 128 result (overflows 128 (signed 128 a + 1))⟩
  | .dec =>
    let result := difference a 1 false
    some ⟨d, [result], .ofResult 128 result (overflows 128 (signed 128 a - 1))⟩
  | .asr =>
    let result := (signed 128 a / 2 % 256).toNat
    some ⟨d, [result], .ofShift result (decide (a % 2 = 1))⟩
  | .lsr => some ⟨d, [a / 2], .ofShift (a / 2) (decide (a % 2 = 1))⟩
  | .ror =>
    let result := a / 2 + 128 * c.toNat
    some ⟨d, [result], .ofShift result (decide (a % 2 = 1))⟩
  | .swap => none

/-- The outcome of an operation on the 16 bit number `w` of the registers from `d` on and a constant. -/
def PairOp.outcome (op : PairOp) (d w k : Nat) : Outcome :=
  match op with
  | .adiw =>
    let result := (w + k) % 65536
    ⟨d, pairBytes result,
      { Verdict.ofResult 0x8000 result (overflows 0x8000 (signed 0x8000 w + k)) with
        c := some (decide (65536 ≤ w + k)) }⟩
  | .sbiw =>
    let result := (((w : Int) - k) % 65536).toNat
    ⟨d, pairBytes result,
      { Verdict.ofResult 0x8000 result (overflows 0x8000 (signed 0x8000 w - k)) with
        c := some (decide (w < k)) }⟩

/-- The outcome of an arithmetic or logic instruction; other instructions have none. -/
def Instr.outcome? (instr : Instr) (data : Memory) : Option Outcome :=
  let c := data.flag Flag.c.val
  let z := data.flag Flag.z.val
  let byte (r : Nat) : Nat := (data.get r).toNat
  match instr with
  | .binary op d r => op.outcome? d.val (byte d.val) (byte r.val) c z
  | .immediate op d k => op.outcome? (16 + d.val) (byte (16 + d.val)) k.toNat c z
  | .unary op d => op.outcome? d.val (byte d.val) c
  | .pair op d k =>
    let first := 24 + 2 * d.val
    some (op.outcome first (byte first + 256 * byte (first + 1)) k.val)
  | _ => none

/-! ## The flags -/

section Flags

open Verdict Alu Status

variable (status : Status) {a b r : UInt8} {c : Bool}

theorem shown_addFlags (h : r.toNat = (a.toNat + b.toNat + c.toNat) % 256) :
    (ofSum a.toNat b.toNat c).Shown status (addFlags status a b r) := by
  constructor <;>
    simp +decide only [addFlags, signFlags, get_put, carry_of_sum h, halfCarry_of_sum h,
      overflow_of_sum h, isNegative_eq, beq_eq_toNat, UInt8.toNat_zero, h, ofSum, ofResult,
      Option.getD_some, if_true, if_false]

theorem shown_subFlags (h : r.toNat = difference a.toNat b.toNat c) (chained : Bool) :
    (ofDifference a.toNat b.toNat c (!chained || status.get Flag.z.val)).Shown status
      (subFlags status a b r chained) := by
  have hr : (r.toNat : Int) = ((a.toNat : Int) - b.toNat - c.toNat) % 256 := by
    unfold difference at h
    omega
  constructor <;>
    simp +decide only [subFlags, signFlags, get_put, carry_of_difference hr,
      halfCarry_of_difference hr, overflow_of_difference hr, isNegative_eq, beq_eq_toNat,
      UInt8.toNat_zero, h, ofDifference, ofResult, Option.getD_some, if_true, if_false]

theorem shown_logicFlags (r : UInt8) :
    (ofResult 128 r.toNat false).Shown status (logicFlags status r) := by
  constructor <;>
    simp +decide only [logicFlags, signFlags, get_put, isNegative_eq, beq_eq_toNat,
      UInt8.toNat_zero, ofResult, Option.getD_some, Option.getD_none, if_true, if_false]

/-- Zero and sign of a result, once C and V are set. -/
theorem shown_signFlags {before : Status} {half value : Nat} {carry : Option Bool}
    {overflow zero negative : Bool} (h : Shown { c := carry, v := some overflow } before status)
    (hzero : zero = decide (value = 0)) (hnegative : negative = decide (half ≤ value)) :
    Shown { ofResult half value overflow with c := carry } before
      (signFlags status zero negative) := by
  obtain ⟨hc, hz, hn, hv, hs, hh, ht, hi⟩ := h
  constructor <;>
    simp +decide only [signFlags, get_put, hzero, hnegative, ofResult, Option.getD_some,
      Option.getD_none, if_true, if_false, hc, hv, hh, ht, hi]

theorem shown_carry_overflow (carry overflow : Bool) :
    Shown { c := some carry, v := some overflow } status
      ((status.put .c carry).put .v overflow) := by
  constructor <;>
    simp +decide only [get_put, Option.getD_some, Option.getD_none, if_true, if_false]

theorem shown_overflow (overflow : Bool) :
    Shown { v := some overflow } status (status.put .v overflow) := by
  constructor <;>
    simp +decide only [get_put, Option.getD_some, Option.getD_none, if_true, if_false]

theorem toNat_sub_eq (a b : UInt8) : (a - b).toNat = difference a.toNat b.toNat false := by
  have ha := a.toNat_lt
  have hb := b.toNat_lt
  unfold difference
  rw [UInt8.toNat_sub, Bool.toNat_false]
  omega

theorem toNat_sub_carry (a b : UInt8) :
    (a - b - status.carry).toNat = difference a.toNat b.toNat (status.get Flag.c.val) := by
  have ha := a.toNat_lt
  have hb := b.toNat_lt
  have hc := (status.get Flag.c.val).toNat_le
  unfold difference
  rw [UInt8.toNat_sub, UInt8.toNat_sub, toNat_carry]
  omega

theorem toNat_add_carry (a b : UInt8) :
    (a + b + status.carry).toNat =
      (a.toNat + b.toNat + (status.get Flag.c.val).toNat) % 256 := by
  rw [UInt8.toNat_add, UInt8.toNat_add, toNat_carry]
  omega

/-- A negation has the flags of a difference from zero, though the core finds them in another way. -/
theorem shown_neg (a : UInt8) :
    (ofDifference 0 a.toNat false true).Shown status
      (signFlags (((status.put .h (((0 - a) ||| a) &&& 0x08 != 0)).put .v (0 - a == 0x80)).put .c
        (0 - a != 0)) (0 - a == 0) (isNegative (0 - a))) := by
  have ha := a.toNat_lt
  have hneg := toNat_sub_eq 0 a
  have hvalue : (0 - a).toNat = (256 - a.toNat) % 256 := by
    rw [hneg, difference, UInt8.toNat_zero, Bool.toNat_false]
    omega
  have hhalf : (((0 - a) ||| a) &&& 0x08 != 0) = decide (0 % 16 < a.toNat % 16 + false.toNat) := by
    refine (and_mask_ne_zero _ Flag.v).trans ?_
    rw [UInt8.toNat_or, Nat.testBit_or, Nat.testBit_eq_decide_div_mod_eq,
      Nat.testBit_eq_decide_div_mod_eq, hvalue, ← Bool.decide_or, decide_eq_decide]
    change _ / 8 % 2 = 1 ∨ _ / 8 % 2 = 1 ↔ 0 % 16 < a.toNat % 16 + 0
    omega
  have hcarry : (0 - a != 0) = decide (0 < a.toNat + false.toNat) := by
    rw [bne, beq_eq_toNat, hvalue, ← decide_not, decide_eq_decide]
    change ¬ (256 - a.toNat) % 256 = 0 ↔ 0 < a.toNat + 0
    omega
  have hoverflow : (0 - a == 0x80) =
      overflows 128 (signed 128 0 - signed 128 a.toNat - false.toNat) := by
    rw [beq_eq_toNat, hvalue]
    unfold overflows signed
    rw [decide_eq_decide]
    change (256 - a.toNat) % 256 = 128 ↔ _
    simp only [Bool.toNat_false]
    split <;> split <;> omega
  rw [UInt8.toNat_zero] at hneg
  constructor <;>
    simp +decide only [signFlags, get_put, hhalf, hcarry, hoverflow, isNegative_eq, beq_eq_toNat,
      hneg, UInt8.toNat_zero, ofDifference, ofResult, Option.getD_some, Bool.and_true, if_true,
      if_false]

end Flags

/-! ## The data space -/

namespace Memory

variable {data : Memory} {d : Nat}

theorem status_setStatus {status : Status} (h : sregAddress < data.size) :
    (data.setStatus status).status = status := by
  unfold setStatus Memory.status
  rw [get_set, if_pos ⟨rfl, h⟩]

theorem get_setStatus_of_ne {status : Status} {x : Nat} (h : x ≠ sregAddress) :
    (data.setStatus status).get x = data.get x := by
  unfold setStatus
  rw [get_set, if_neg fun heq => h heq.1.symm]

theorem toNat_pair :
    (data.pair d).toNat = (data.get d).toNat + 256 * (data.get (d + 1)).toNat := by
  have hlow := (data.get d).toNat_lt
  have hhigh := (data.get (d + 1)).toNat_lt
  have hshift : (data.get (d + 1)).toNat <<< 8 % 65536 = (data.get (d + 1)).toNat <<< 8 := by
    rw [Nat.shiftLeft_eq]
    omega
  have hsum := Nat.shiftLeft_add_eq_or_of_lt hlow (data.get (d + 1)).toNat
  unfold pair getWord
  rw [UInt16.toNat_or, UInt16.toNat_shiftLeft, UInt8.toNat_toUInt16, UInt8.toNat_toUInt16]
  change (data.get d).toNat ||| (data.get (d + 1)).toNat <<< 8 % 65536 = _
  rw [hshift, Nat.or_comm, ← hsum, Nat.shiftLeft_eq]
  omega

theorem toNat_low_byte (w : UInt16) : w.toUInt8.toNat = w.toNat % 256 := rfl

theorem toNat_high_byte (w : UInt16) : (w >>> 8).toUInt8.toNat = w.toNat / 256 := by
  have hw := w.toNat_lt
  rw [UInt16.toNat_toUInt8, UInt16.toNat_shiftRight, Nat.shiftRight_eq_div_pow]
  change w.toNat / 2 ^ 8 % 256 = w.toNat / 256
  omega

end Memory

section Reached

open Verdict Alu

variable {data : Memory} {d value : Nat} {w : Verdict} {status : Status}

/-- An instruction that only compares. -/
theorem reached_setStatus (hstatus : sregAddress < data.size) (h : w.Shown data.status status) :
    Outcome.Reached ⟨d, [], w⟩ data (data.setStatus status) where
  flags := by rwa [Memory.status_setStatus hstatus]
  stored := by simp
  kept := fun x _ hx => Memory.get_setStatus_of_ne hx
  size := Memory.size_set ..

/-- An instruction that stores a byte in a register. -/
theorem reached_store (hstatus : sregAddress < data.size) (hd : d < sregAddress) {result : UInt8}
    (hresult : result.toNat = value) (h : w.Shown data.status status) :
    Outcome.Reached ⟨d, [value], w⟩ data (store data d result status) where
  flags := by rwa [store, Memory.status_setStatus (by simpa using hstatus)]
  stored := by
    intro i v hi
    obtain ⟨rfl, rfl⟩ : i = 0 ∧ value = v := by cases i <;> simp_all
    dsimp only
    rw [store, Memory.get_setStatus_of_ne (by omega), Memory.get_set, if_pos ⟨rfl, by omega⟩]
    exact hresult
  kept := by
    intro x hx hne
    change x < d ∨ d + 1 ≤ x at hx
    rw [store, Memory.get_setStatus_of_ne hne, Memory.get_set, if_neg (by omega)]
  size := by simp [store, Memory.setStatus]

/-- An instruction that stores a 16 bit number in a pair of registers. -/
theorem reached_setPair (hstatus : sregAddress < data.size) (hd : d + 1 < sregAddress)
    {result : UInt16} (hresult : result.toNat = value) (h : w.Shown data.status status) :
    Outcome.Reached ⟨d, pairBytes value, w⟩ data ((data.setPair d result).setStatus status) where
  flags := by rwa [Memory.status_setStatus (by simpa [Memory.setPair] using hstatus)]
  stored := by
    intro i v hi
    unfold Memory.setPair Memory.setWord
    dsimp only
    match i, hi with
    | 0, hi =>
      cases hi
      rw [Memory.get_setStatus_of_ne (by omega), Memory.get_set, if_neg (by omega), Memory.get_set,
        if_pos ⟨rfl, by omega⟩, Memory.toNat_low_byte, hresult]
    | 1, hi =>
      cases hi
      rw [Memory.get_setStatus_of_ne (by omega), Memory.get_set,
        if_pos ⟨rfl, by rw [Memory.size_set]; omega⟩, Memory.toNat_high_byte, hresult]
  kept := by
    intro x hx hne
    change x < d ∨ d + 2 ≤ x at hx
    unfold Memory.setPair Memory.setWord
    rw [Memory.get_setStatus_of_ne hne, Memory.get_set, if_neg (by omega), Memory.get_set,
      if_neg (by omega)]
  size := by simp [Memory.setPair, Memory.setWord, Memory.setStatus]

/-! ## Operations on registers and constants -/

theorem reached_sub (hstatus : sregAddress < data.size) (hd : d < sregAddress) (b : UInt8) :
    Outcome.Reached
      ⟨d, [difference (data.get d).toNat b.toNat false],
        ofDifference (data.get d).toNat b.toNat false true⟩ data
      (store data d (data.get d - b)
        (subFlags data.status (data.get d) b (data.get d - b) false)) :=
  reached_store hstatus hd (toNat_sub_eq _ b)
    (shown_subFlags data.status (toNat_sub_eq (data.get d) b) false)

theorem reached_sbc (hstatus : sregAddress < data.size) (hd : d < sregAddress) (b : UInt8) :
    Outcome.Reached
      ⟨d, [difference (data.get d).toNat b.toNat (data.flag Flag.c.val)],
        ofDifference (data.get d).toNat b.toNat (data.flag Flag.c.val) (data.flag Flag.z.val)⟩ data
      (store data d (data.get d - b - data.status.carry)
        (subFlags data.status (data.get d) b (data.get d - b - data.status.carry) true)) :=
  reached_store hstatus hd (toNat_sub_carry data.status _ b)
    (shown_subFlags data.status (toNat_sub_carry data.status (data.get d) b) true)

theorem reached_cp (hstatus : sregAddress < data.size) (b : UInt8) :
    Outcome.Reached ⟨d, [], ofDifference (data.get d).toNat b.toNat false true⟩ data
      (data.setStatus (subFlags data.status (data.get d) b (data.get d - b) false)) :=
  reached_setStatus hstatus (shown_subFlags data.status (toNat_sub_eq (data.get d) b) false)

theorem reached_logic (hstatus : sregAddress < data.size) (hd : d < sregAddress) (result : UInt8) :
    Outcome.Reached ⟨d, [result.toNat], ofResult 128 result.toNat false⟩ data
      (store data d result (logicFlags data.status result)) :=
  reached_store hstatus hd rfl (shown_logicFlags data.status result)

theorem word_beq_zero (w : UInt16) : (w == 0) = decide (w.toNat = 0) := by
  rw [Bool.eq_iff_iff, beq_iff_eq, ← UInt16.toNat_inj, decide_eq_true_eq]
  rfl

theorem reached_mul (hstatus : sregAddress < data.size) (r : Nat) :
    Outcome.Reached
      ⟨0, pairBytes ((data.get d).toNat * (data.get r).toNat),
        { c := some (decide (0x8000 ≤ (data.get d).toNat * (data.get r).toNat))
          z := some (decide ((data.get d).toNat * (data.get r).toNat = 0)) }⟩ data
      (Alu.binary .mul d r data) := by
  have ha := (data.get d).toNat_lt
  have hb := (data.get r).toNat_lt
  have hproduct : ((data.get d).toUInt16 * (data.get r).toUInt16).toNat =
      (data.get d).toNat * (data.get r).toNat := by
    rw [UInt16.toNat_mul, UInt8.toNat_toUInt16, UInt8.toNat_toUInt16]
    apply Nat.mod_eq_of_lt
    nlinarith
  apply reached_setPair hstatus (by decide) hproduct
  constructor <;>
    simp +decide only [Status.get_put, and_top_ne_zero, word_beq_zero, hproduct, Option.getD_some,
      Option.getD_none, if_true, if_false]

theorem reached_binary {op : BinaryOp} {r : Nat} {o : Outcome} (hstatus : sregAddress < data.size)
    (hd : d < sregAddress)
    (h : op.outcome? d (data.get d).toNat (data.get r).toNat (data.flag Flag.c.val)
      (data.flag Flag.z.val) = some o) : o.Reached data (Alu.binary op d r data) := by
  cases op with
  | cpse => cases h
  | mov => cases h
  | add =>
    cases h
    exact reached_store hstatus hd (UInt8.toNat_add _ _)
      (shown_addFlags (c := false) data.status (UInt8.toNat_add _ _))
  | adc =>
    cases h
    have hsum := toNat_add_carry data.status (data.get d) (data.get r)
    exact reached_store hstatus hd hsum (shown_addFlags data.status hsum)
  | sub =>
    cases h
    exact reached_sub hstatus hd (data.get r)
  | sbc =>
    cases h
    exact reached_sbc hstatus hd (data.get r)
  | cp =>
    cases h
    exact reached_cp hstatus (data.get r)
  | cpc =>
    cases h
    have hdifference := toNat_sub_carry data.status (data.get d) (data.get r)
    exact reached_setStatus hstatus (shown_subFlags data.status hdifference true)
  | and =>
    cases h
    rw [← UInt8.toNat_and]
    exact reached_logic hstatus hd (data.get d &&& data.get r)
  | eor =>
    cases h
    rw [← UInt8.toNat_xor]
    exact reached_logic hstatus hd (data.get d ^^^ data.get r)
  | or =>
    cases h
    rw [← UInt8.toNat_or]
    exact reached_logic hstatus hd (data.get d ||| data.get r)
  | mul =>
    cases h
    exact reached_mul hstatus r

theorem reached_immediate {op : ImmediateOp} {k : UInt8} {o : Outcome}
    (hstatus : sregAddress < data.size) (hd : d < sregAddress)
    (h : op.outcome? d (data.get d).toNat k.toNat (data.flag Flag.c.val)
      (data.flag Flag.z.val) = some o) : o.Reached data (Alu.immediate op d k data) := by
  cases op with
  | ldi => cases h
  | subi =>
    cases h
    exact reached_sub hstatus hd k
  | sbci =>
    cases h
    exact reached_sbc hstatus hd k
  | cpi =>
    cases h
    exact reached_cp hstatus k
  | andi =>
    cases h
    rw [← UInt8.toNat_and]
    exact reached_logic hstatus hd (data.get d &&& k)
  | ori =>
    cases h
    rw [← UInt8.toNat_or]
    exact reached_logic hstatus hd (data.get d ||| k)

/-! ## Operations on one register -/

/-- A result with its zero and sign, after C and V have been set. -/
theorem reached_result (hstatus : sregAddress < data.size) (hd : d < sregAddress) {result : UInt8}
    (hresult : result.toNat = value) {carry : Option Bool} {overflow : Bool}
    (h : Shown { c := carry, v := some overflow } data.status status) :
    Outcome.Reached ⟨d, [value], { ofResult 128 value overflow with c := carry }⟩ data
      (store data d result (signFlags status (result == 0) (isNegative result))) := by
  apply reached_store hstatus hd hresult
  apply shown_signFlags status h
  · rw [beq_eq_toNat, hresult, UInt8.toNat_zero]
  · rw [isNegative_eq, hresult]

theorem reached_shiftRight (hstatus : sregAddress < data.size) (hd : d < sregAddress) (a : UInt8)
    {result : UInt8} (hresult : result.toNat = value) {overflow : Bool}
    (hoverflow : overflow = (decide (128 ≤ value) != decide (a.toNat % 2 = 1))) :
    Outcome.Reached ⟨d, [value], ofShift value (decide (a.toNat % 2 = 1))⟩ data
      (shiftRight data d a result overflow) := by
  unfold shiftRight ofShift
  rw [and_one_beq_one, hoverflow]
  exact reached_result hstatus hd hresult (shown_carry_overflow data.status _ _)

/-- A bit above a number of seven bits. -/
theorem or_top {x : Nat} (hx : x < 128) (b : Bool) : x ||| b.toNat * 128 = x + 128 * b.toNat := by
  have hsum := Nat.shiftLeft_add_eq_or_of_lt (show x < 2 ^ 7 from hx) b.toNat
  rw [Nat.shiftLeft_eq] at hsum
  rw [Nat.or_comm, Nat.add_comm, Nat.mul_comm 128]
  exact hsum.symm

theorem toNat_shiftRight_one (a : UInt8) : (a >>> 1).toNat = a.toNat / 2 := by
  rw [UInt8.toNat_shiftRight]
  rfl

theorem toNat_asr (a : UInt8) :
    ((a >>> 1) ||| (a &&& 0x80)).toNat = (signed 128 a.toNat / 2 % 256).toNat := by
  have ha := a.toNat_lt
  have hsign : (a &&& 0x80).toNat = (decide (128 ≤ a.toNat)).toNat * 128 := by
    rw [UInt8.toNat_and, ← isNegative_eq, isNegative_eq_testBit]
    exact Nat.and_two_pow a.toNat 7
  rw [UInt8.toNat_or, toNat_shiftRight_one, hsign, or_top (by omega)]
  unfold signed
  by_cases h : a.toNat < 128
  · simp only [h, if_true, Nat.not_le.mpr h, decide_false, Bool.toNat_false]
    omega
  · simp only [h, if_false, Nat.not_lt.mp h, decide_true, Bool.toNat_true]
    omega

theorem toNat_ror (status : Status) (a : UInt8) :
    ((a >>> 1) ||| (status.carry <<< 7)).toNat =
      a.toNat / 2 + 128 * (status.get Flag.c.val).toNat := by
  have ha := a.toNat_lt
  have hc := (status.get Flag.c.val).toNat_le
  have hshift : (status.carry <<< 7).toNat = (status.get Flag.c.val).toNat * 128 := by
    rw [UInt8.toNat_shiftLeft, Status.toNat_carry]
    change (status.get Flag.c.val).toNat <<< 7 % 256 = _
    rw [Nat.shiftLeft_eq]
    omega
  rw [UInt8.toNat_or, toNat_shiftRight_one, hshift, or_top (by omega)]

theorem overflow_inc (a : UInt8) : (a + 1 == 0x80) = overflows 128 (signed 128 a.toNat + 1) := by
  have ha := a.toNat_lt
  rw [beq_eq_toNat, UInt8.toNat_add]
  unfold overflows signed
  rw [decide_eq_decide]
  change (a.toNat + 1) % 256 = 128 ↔ _
  split <;> omega

theorem overflow_dec (a : UInt8) : (a - 1 == 0x7F) = overflows 128 (signed 128 a.toNat - 1) := by
  have ha := a.toNat_lt
  rw [beq_eq_toNat, UInt8.toNat_sub]
  unfold overflows signed
  rw [decide_eq_decide]
  change (255 + a.toNat) % 256 = 127 ↔ _
  split <;> omega

theorem reached_unary {op : UnaryOp} {o : Outcome} (hstatus : sregAddress < data.size)
    (hd : d < sregAddress)
    (h : op.outcome? d (data.get d).toNat (data.flag Flag.c.val) = some o) :
    o.Reached data (Alu.unary op d data) := by
  have ha := (data.get d).toNat_lt
  cases op with
  | swap => cases h
  | com =>
    cases h
    exact reached_result hstatus hd (UInt8.toNat_not ..) (shown_carry_overflow data.status true false)
  | neg =>
    cases h
    exact reached_store hstatus hd (toNat_sub_eq 0 (data.get d)) (shown_neg data.status (data.get d))
  | inc =>
    cases h
    rw [← overflow_inc]
    exact reached_result hstatus hd (UInt8.toNat_add (data.get d) 1) (shown_overflow data.status _)
  | dec =>
    cases h
    rw [← overflow_dec]
    exact reached_result hstatus hd (toNat_sub_eq (data.get d) 1) (shown_overflow data.status _)
  | asr =>
    cases h
    have hresult := toNat_asr (data.get d)
    apply reached_shiftRight hstatus hd _ hresult
    rw [isNegative_eq, hresult, and_one_beq_one]
  | lsr =>
    cases h
    have hsmall : ¬ 128 ≤ (data.get d).toNat / 2 := by omega
    apply reached_shiftRight hstatus hd _ (toNat_shiftRight_one (data.get d))
    rw [and_one_beq_one, decide_eq_false hsmall, Bool.false_bne]
  | ror =>
    cases h
    have hresult := toNat_ror data.status (data.get d)
    apply reached_shiftRight hstatus hd _ hresult
    rw [isNegative_eq, hresult, and_one_beq_one]

/-! ## Operations on register pairs -/

/-- A 16 bit result with its zero and sign, after V and C have been set. -/
theorem reached_wordResult (hstatus : sregAddress < data.size) (hd : d + 1 < sregAddress)
    {result : UInt16} (hresult : result.toNat = value) (overflow carry : Bool) :
    Outcome.Reached
      ⟨d, pairBytes value, { ofResult 0x8000 value overflow with c := some carry }⟩ data
      ((data.setPair d result).setStatus
        (signFlags ((data.status.put .v overflow).put .c carry) (result == 0)
          (result &&& 0x8000 != 0))) := by
  apply reached_setPair hstatus hd hresult
  apply shown_signFlags
  · constructor <;>
      simp +decide only [Status.get_put, Option.getD_some, Option.getD_none, if_true, if_false]
  · rw [word_beq_zero, hresult]
  · rw [and_top_ne_zero, hresult]

theorem reached_pair (op : PairOp) {k : Nat} (hk : k < 64) (hstatus : sregAddress < data.size)
    (hd : d + 1 < sregAddress) :
    (op.outcome d ((data.get d).toNat + 256 * (data.get (d + 1)).toNat) k).Reached data
      (Alu.pair op d (UInt16.ofNat k) data) := by
  have hw := (data.pair d).toNat_lt
  have hconstant : (UInt16.ofNat k).toNat = k :=
    UInt16.toNat_ofNat_of_lt' (by unfold UInt16.size; omega)
  rw [← Memory.toNat_pair]
  unfold Alu.pair
  -- The constant is so small that the sign bits before and after tell carry and overflow.
  cases op with
  | adiw =>
    have hresult : (data.pair d + UInt16.ofNat k).toNat = ((data.pair d).toNat + k) % 65536 := by
      rw [UInt16.toNat_add, hconstant]
    have hcarry : (data.pair d &&& 0x8000 != 0 &&
        !(data.pair d + UInt16.ofNat k &&& 0x8000 != 0)) =
          decide (65536 ≤ (data.pair d).toNat + k) := by
      rw [and_top_ne_zero, and_top_ne_zero, hresult, ← decide_not, ← Bool.decide_and,
        decide_eq_decide]
      omega
    have hoverflow : (!(data.pair d &&& 0x8000 != 0) &&
        (data.pair d + UInt16.ofNat k &&& 0x8000 != 0)) =
          overflows 0x8000 (signed 0x8000 (data.pair d).toNat + k) := by
      unfold overflows signed
      rw [and_top_ne_zero, and_top_ne_zero, hresult, ← decide_not, ← Bool.decide_and,
        decide_eq_decide]
      split <;> omega
    dsimp only
    rw [hcarry, hoverflow]
    exact reached_wordResult hstatus hd hresult _ _
  | sbiw =>
    have hresult : (data.pair d - UInt16.ofNat k).toNat =
        (((data.pair d).toNat - k : Int) % 65536).toNat := by
      rw [UInt16.toNat_sub, hconstant]
      omega
    have hcarry : (!(data.pair d &&& 0x8000 != 0) &&
        (data.pair d - UInt16.ofNat k &&& 0x8000 != 0)) = decide ((data.pair d).toNat < k) := by
      rw [and_top_ne_zero, and_top_ne_zero, hresult, ← decide_not, ← Bool.decide_and,
        decide_eq_decide]
      omega
    have hoverflow : (data.pair d &&& 0x8000 != 0 &&
        !(data.pair d - UInt16.ofNat k &&& 0x8000 != 0)) =
          overflows 0x8000 (signed 0x8000 (data.pair d).toNat - k) := by
      unfold overflows signed
      rw [and_top_ne_zero, and_top_ne_zero, hresult, ← decide_not, ← Bool.decide_and,
        decide_eq_decide]
      split <;> omega
    dsimp only
    rw [hcarry, hoverflow]
    exact reached_wordResult hstatus hd hresult _ _

end Reached

/-! ## Execution -/

namespace Machine

variable {m : Machine} {instr : Instr} {o : Outcome}

theorem reached_perform (hstatus : sregAddress < m.data.size) (h : instr.outcome? m.data = some o) :
    o.Reached m.data (m.perform instr).data := by
  cases instr with
  | binary op d r =>
    have hd : d.val < sregAddress := Nat.lt_trans d.isLt (by decide)
    have hreached := reached_binary hstatus hd h
    cases op with
    | cpse => cases h
    | _ => exact hreached
  | immediate op d k =>
    have hd : 16 + d.val < sregAddress := Nat.lt_trans (Nat.add_lt_add_left d.isLt 16) (by decide)
    exact reached_immediate hstatus hd h
  | unary op d =>
    exact reached_unary hstatus (Nat.lt_trans d.isLt (by decide)) h
  | pair op d k =>
    cases h
    have hlimit := d.isLt
    have hd : 24 + 2 * d.val + 1 < sregAddress := by
      unfold sregAddress
      omega
    exact reached_pair op k.isLt hstatus hd
  | _ => cases h

theorem reached_execute (hrun : m.run = .running) (hend : m.program ≤ m.codeEnd)
    (hholds : m.Holds m.program instr.encode) (hstatus : sregAddress < m.data.size)
    (ho : instr.outcome? m.data = some o) : o.Reached m.data m.execute.data := by
  have hreached := reached_perform (m := m.behind instr) (by rwa [data_behind]) (by rwa [data_behind])
  rwa [data_behind, ← execute_of_holds hrun (UInt32.not_lt.mpr hend) hholds] at hreached

/-- An arithmetic instruction changes nothing but the data space and the cycle count. -/
theorem perform_of_outcome (h : instr.outcome? m.data = some o) :
    m.perform instr =
      { m with data := (m.perform instr).data, cycle := (m.perform instr).cycle } := by
  cases instr with
  | binary op d r =>
    cases op with
    | cpse => cases h
    | _ => rfl
  | immediate => rfl
  | unary => rfl
  | pair => rfl
  | _ => cases h

theorem size_of_outcome {data : Memory} (h : instr.outcome? data = some o) : instr.size = 2 := by
  cases instr with
  | binary => rfl
  | immediate => rfl
  | unary => rfl
  | pair => rfl
  | _ => cases h

/-- Executing an arithmetic or logic instruction has its outcome: the registers it writes and the flags
it determines are those of the operation on numbers, every other flag and every other byte of the data
space is what it was, and apart from the data space the core has only moved on. -/
theorem execute_computes (hrun : m.run = .running) (hend : m.program ≤ m.codeEnd)
    (hholds : m.Holds m.program instr.encode) (hstatus : sregAddress < m.data.size)
    (ho : instr.outcome? m.data = some o) :
    o.Reached m.data m.execute.data ∧
      m.execute = { m with
        data := m.execute.data
        program := m.program + 2
        cycle := m.execute.cycle
        journal := m.execute.journal } := by
  refine ⟨reached_execute hrun hend hholds hstatus ho, ?_⟩
  have hperform := perform_of_outcome (m := m.behind instr) (by rwa [data_behind])
  rw [execute_of_holds hrun (UInt32.not_lt.mpr hend) hholds, hperform]
  unfold behind
  rw [traceStep_eq, size_of_outcome ho]
  rfl

/-- A machine about to subtract register 16 and a borrow from register 16. -/
def borrower : Machine where
  model := .atmega48
  data := ((Memory.zeros 96).set 16 0x80).set sregAddress 0x83
  flash := (Memory.zeros 2).store 0 [0x00, 0x0B]
  codeEnd := 1
  journal := { threshold := none }
  wiring := {}

theorem borrower_computes :
    borrower.Holds borrower.program (Instr.binary .sbc 16 16).encode ∧
      Outcome.Reached
        ⟨16, [255],
          { c := some true, z := some false, n := some true, v := some false, s := some true,
            h := some true }⟩ borrower.data borrower.execute.data ∧
      borrower.execute.program = 2 := by
  have hholds : borrower.Holds borrower.program (Instr.binary .sbc 16 16).encode :=
    ⟨by decide, by decide, by decide, trivial⟩
  obtain ⟨hreached, hrest⟩ := execute_computes (m := borrower) rfl (by decide) hholds (by decide) rfl
  refine ⟨hholds, hreached, ?_⟩
  rw [hrest]
  rfl

end Machine

end AvrSim
