import AvrSim.Core.Execute
import Mathlib.Data.Nat.Bitwise

/-!
# The flags as arithmetic

The core computes its flags bit by bit. Here they are traced back to numbers: a flag is a bit of the
status register, a carry or a borrow is what does not fit below a power of two, and an overflow is a sum
or difference of two's complement numbers that leaves their range.

The bits of the operands and of the result decide the carry out of each position, because the result bit
tells which carry came in (`testBit_carries`). A borrow is the carry of the addition that undoes the
subtraction, so that one lemma serves both.
-/

namespace AvrSim

/-! ## Bits -/

theorem testBit_not (v : UInt8) {i : Nat} (hi : i < 8) :
    (~~~v).toNat.testBit i = !v.toNat.testBit i := by
  rw [← UInt8.toNat_toBitVec, ← UInt8.toNat_toBitVec, BitVec.testBit_toNat, BitVec.testBit_toNat,
    UInt8.toBitVec_not, BitVec.getLsbD_not, decide_eq_true hi, Bool.true_and]

theorem Flag.toNat_mask (f : Flag) : f.mask.toNat = 2 ^ f.val := by
  revert f
  decide

theorem and_mask_ne_zero (v : UInt8) (f : Flag) :
    (v &&& f.mask != 0) = v.toNat.testBit f.val := by
  have hand : (v &&& f.mask).toNat = (v.toNat.testBit f.val).toNat * 2 ^ f.val := by
    rw [UInt8.toNat_and, f.toNat_mask, Nat.and_two_pow]
  rw [Bool.eq_iff_iff, bne_iff_ne, ne_eq, ← UInt8.toNat_inj, hand]
  cases v.toNat.testBit f.val <;> simp

theorem and_top_ne_zero (w : UInt16) : (w &&& 0x8000 != 0) = decide (0x8000 ≤ w.toNat) := by
  have hw := w.toNat_lt
  have hand : (w &&& 0x8000).toNat = (w.toNat.testBit 15).toNat * 2 ^ 15 := by
    rw [UInt16.toNat_and, ← Nat.and_two_pow]
    rfl
  have hbit : w.toNat.testBit 15 = decide (0x8000 ≤ w.toNat) := by
    rw [Nat.testBit_eq_decide_div_mod_eq, decide_eq_decide]
    omega
  rw [Bool.eq_iff_iff, bne_iff_ne, ne_eq, ← UInt16.toNat_inj, hand, hbit]
  by_cases h : 0x8000 ≤ w.toNat <;> simp [h]

theorem and_one_beq_one (v : UInt8) : (v &&& 1 == 1) = decide (v.toNat % 2 = 1) := by
  rw [Bool.eq_iff_iff, beq_iff_eq, ← UInt8.toNat_inj, UInt8.toNat_and, decide_eq_true_eq]
  exact iff_of_eq (congrArg (· = 1) (Nat.and_one_is_mod v.toNat))

/-! ## The status register -/

namespace Status

theorem get_put (status : Status) (f g : Flag) (value : Bool) :
    (status.put f value).get g.val = if g = f then value else status.get g.val := by
  have hmask : f.mask.toNat.testBit g.val = decide (g = f) := by
    rw [f.toNat_mask, Nat.testBit_two_pow]
    simp [Fin.ext_iff, eq_comm]
  unfold put get
  cases value with
  | true =>
    rw [if_pos rfl, UInt8.toNat_or, Nat.testBit_or, hmask]
    by_cases h : g = f <;> simp [h]
  | false =>
    rw [if_neg (by decide), UInt8.toNat_and, Nat.testBit_and, testBit_not _ g.isLt, hmask]
    by_cases h : g = f <;> simp [h]

theorem toNat_carry (status : Status) : status.carry.toNat = (status.get Flag.c.val).toNat := by
  have hand := Nat.and_two_pow status.toNat 0
  rw [Nat.pow_zero, Nat.mul_one] at hand
  unfold carry
  rw [UInt8.toNat_and]
  exact hand

end Status

namespace Alu

variable {a b r : UInt8} {c : Bool}

theorem isNegative_eq_testBit (v : UInt8) : isNegative v = v.toNat.testBit 7 :=
  and_mask_ne_zero v Flag.i

theorem isNegative_eq (v : UInt8) : isNegative v = decide (128 ≤ v.toNat) := by
  have hv := v.toNat_lt
  rw [isNegative_eq_testBit, Nat.testBit_eq_decide_div_mod_eq, decide_eq_decide]
  omega

theorem beq_eq_toNat (v w : UInt8) : (v == w) = decide (v.toNat = w.toNat) := by
  rw [Bool.eq_iff_iff, beq_iff_eq, ← UInt8.toNat_inj, decide_eq_true_eq]

/-! ## Carries and borrows -/

/-- The carry out of position `i` of a sum with a carry coming in. -/
theorem testBit_carries (h : r.toNat = (a.toNat + b.toNat + c.toNat) % 256) {i : Nat} (hi : i < 8) :
    ((a &&& b) ||| (b &&& ~~~r) ||| (~~~r &&& a)).toNat.testBit i =
      decide (2 ^ (i + 1) ≤ a.toNat % 2 ^ (i + 1) + b.toNat % 2 ^ (i + 1) + c.toNat) := by
  have hsum : r.toBitVec = a.toBitVec + b.toBitVec + BitVec.setWidth 8 (BitVec.ofBool c) := by
    apply BitVec.eq_of_toNat_eq
    rw [UInt8.toNat_toBitVec, h]
    cases c <;> simp
  have hbit := BitVec.getLsbD_add_add_bool hi a.toBitVec b.toBitVec c
  have hcarry := BitVec.carry_succ i a.toBitVec b.toBitVec c
  rw [← hsum] at hbit
  simp only [← BitVec.testBit_toNat, UInt8.toNat_toBitVec] at hbit hcarry
  change _ = BitVec.carry (i + 1) a.toBitVec b.toBitVec c
  simp only [hcarry, UInt8.toNat_or, UInt8.toNat_and, Nat.testBit_or, Nat.testBit_and,
    testBit_not _ hi, hbit]
  -- The result bit is the sum of the three bits, so the carry coming in can be read off it.
  generalize BitVec.carry i a.toBitVec b.toBitVec c = carry
  cases a.toNat.testBit i <;> cases b.toNat.testBit i <;> cases carry <;> rfl

theorem carry_of_sum (h : r.toNat = (a.toNat + b.toNat + c.toNat) % 256) :
    isNegative ((a &&& b) ||| (b &&& ~~~r) ||| (~~~r &&& a)) =
      decide (256 ≤ a.toNat + b.toNat + c.toNat) := by
  have ha := a.toNat_lt
  have hb := b.toNat_lt
  rw [isNegative_eq_testBit, testBit_carries h (by decide), decide_eq_decide]
  omega

theorem halfCarry_of_sum (h : r.toNat = (a.toNat + b.toNat + c.toNat) % 256) :
    (((a &&& b) ||| (b &&& ~~~r) ||| (~~~r &&& a)) &&& 0x08 != 0) =
      decide (16 ≤ a.toNat % 16 + b.toNat % 16 + c.toNat) :=
  (and_mask_ne_zero _ Flag.v).trans (testBit_carries h (by decide))

/-- The borrows of a difference are the carries of the sum that leads back to the minuend. -/
theorem borrows_eq (a b r : UInt8) :
    (~~~a &&& b) ||| (b &&& r) ||| (r &&& ~~~a) = (r &&& b) ||| (b &&& ~~~a) ||| (~~~a &&& r) := by
  apply UInt8.toNat_inj.mp
  apply Nat.eq_of_testBit_eq
  intro i
  simp only [UInt8.toNat_or, UInt8.toNat_and, Nat.testBit_or, Nat.testBit_and]
  cases (~~~a).toNat.testBit i <;> cases b.toNat.testBit i <;> cases r.toNat.testBit i <;> rfl

theorem toNat_minuend (h : (r.toNat : Int) = ((a.toNat : Int) - b.toNat - c.toNat) % 256) :
    a.toNat = (r.toNat + b.toNat + c.toNat) % 256 := by
  have ha := a.toNat_lt
  omega

theorem carry_of_difference (h : (r.toNat : Int) = ((a.toNat : Int) - b.toNat - c.toNat) % 256) :
    isNegative ((~~~a &&& b) ||| (b &&& r) ||| (r &&& ~~~a)) =
      decide (a.toNat < b.toNat + c.toNat) := by
  have ha := a.toNat_lt
  have hb := b.toNat_lt
  have hc := c.toNat_le
  rw [borrows_eq, carry_of_sum (toNat_minuend h), decide_eq_decide]
  omega

theorem halfCarry_of_difference
    (h : (r.toNat : Int) = ((a.toNat : Int) - b.toNat - c.toNat) % 256) :
    (((~~~a &&& b) ||| (b &&& r) ||| (r &&& ~~~a)) &&& 0x08 != 0) =
      decide (a.toNat % 16 < b.toNat % 16 + c.toNat) := by
  have hc := c.toNat_le
  rw [borrows_eq, halfCarry_of_sum (toNat_minuend h), decide_eq_decide]
  omega

/-! ## Overflows -/

/-- Whether a number leaves the range of two's complement numbers from `-half` up to `half`. -/
def overflows (half : Nat) (x : Int) : Bool := decide (x < -half ∨ half ≤ x)

theorem overflow_of_sum (h : r.toNat = (a.toNat + b.toNat + c.toNat) % 256) :
    isNegative ((a &&& b &&& ~~~r) ||| (~~~a &&& ~~~b &&& r)) =
      overflows 128 (Machine.signed 128 a.toNat + Machine.signed 128 b.toNat + c.toNat) := by
  have ha := a.toNat_lt
  have hb := b.toNat_lt
  have hc := c.toNat_le
  have hbits : isNegative ((a &&& b &&& ~~~r) ||| (~~~a &&& ~~~b &&& r)) =
      (isNegative a && isNegative b && !isNegative r ||
        !isNegative a && !isNegative b && isNegative r) := by
    simp only [isNegative_eq_testBit, UInt8.toNat_or, UInt8.toNat_and, Nat.testBit_or,
      Nat.testBit_and, testBit_not _ (show 7 < 8 by decide)]
  rw [hbits]
  simp only [isNegative_eq]
  unfold overflows Machine.signed
  rw [Bool.eq_iff_iff]
  simp only [Bool.or_eq_true, Bool.and_eq_true, Bool.not_eq_true', decide_eq_true_eq,
    decide_eq_false_iff_not]
  split <;> split <;> omega

theorem overflow_of_difference
    (h : (r.toNat : Int) = ((a.toNat : Int) - b.toNat - c.toNat) % 256) :
    isNegative ((a &&& ~~~b &&& ~~~r) ||| (~~~a &&& b &&& r)) =
      overflows 128 (Machine.signed 128 a.toNat - Machine.signed 128 b.toNat - c.toNat) := by
  have ha := a.toNat_lt
  have hb := b.toNat_lt
  have hc := c.toNat_le
  have hbits : isNegative ((a &&& ~~~b &&& ~~~r) ||| (~~~a &&& b &&& r)) =
      (isNegative a && !isNegative b && !isNegative r ||
        !isNegative a && isNegative b && isNegative r) := by
    simp only [isNegative_eq_testBit, UInt8.toNat_or, UInt8.toNat_and, Nat.testBit_or,
      Nat.testBit_and, testBit_not _ (show 7 < 8 by decide)]
  rw [hbits]
  simp only [isNegative_eq]
  unfold overflows Machine.signed
  rw [Bool.eq_iff_iff]
  simp only [Bool.or_eq_true, Bool.and_eq_true, Bool.not_eq_true', decide_eq_true_eq,
    decide_eq_false_iff_not]
  split <;> split <;> omega

end Alu

end AvrSim
