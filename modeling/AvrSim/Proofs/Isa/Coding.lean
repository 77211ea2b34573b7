import AvrSim.Isa.Decode

/-!
# Encoding and decoding agree

Decoding looks at the leading bits of a word first and at further bits after them. For each family of
instructions a lemma says which bits select it, whatever the operand bits are; the words of an
instruction have these bits, and its operands stand in the fields.

* `Instr.decode_word`: the words of an instruction decode to it.
* `Instr.isLong_of_decode`: a word is the first of two exactly if its instruction has a second one.
-/

namespace AvrSim.Instr

/-! ## Families -/

section Families

variable {n ext : Nat}

theorem decodeNat_nine (h : n / 4096 = 9) : decodeNat n ext = decodeNine n ext := by
  simp only [decodeNat, h]

theorem decodeNat_load (h : n / 512 = 0x48) : decodeNat n ext = decodeLoad n ext := by
  rw [decodeNat_nine (by omega)]
  obtain hn | hn : n / 256 % 16 = 0 ∨ n / 256 % 16 = 1 := by omega
  · simp only [decodeNine, hn]
  · simp only [decodeNine, hn]

theorem decodeNat_store (h : n / 512 = 0x49) : decodeNat n ext = decodeStore n ext := by
  rw [decodeNat_nine (by omega)]
  obtain hn | hn : n / 256 % 16 = 2 ∨ n / 256 % 16 = 3 := by omega
  · simp only [decodeNine, hn]
  · simp only [decodeNine, hn]

theorem decodeNat_unary (h : n / 512 = 0x4A) : decodeNat n ext = decodeUnary n ext := by
  rw [decodeNat_nine (by omega)]
  obtain hn | hn : n / 256 % 16 = 4 ∨ n / 256 % 16 = 5 := by omega
  · simp only [decodeNine, hn]
  · simp only [decodeNine, hn]

theorem decodeNat_of_binaryOp (op : BinaryOp) (h : n / 1024 = op.opcode / 1024) :
    decodeNat n ext = some (binary op (fieldD n) (fieldR n)) := by
  cases op <;> simp only [BinaryOp.opcode, Nat.reduceDiv] at h
  case cpc | sbc | add =>
    have hzero : n / 4096 = 0 := by omega
    simp only [decodeNat, hzero, decodeZero, h]
  case mul =>
    have hop : 0xC ≤ n / 256 % 16 := by omega
    rw [decodeNat_nine (by omega)]
    unfold decodeNine
    split
    case h_13 => rfl
    all_goals omega
  case cpse | cp | sub | adc =>
    have hone : n / 4096 = 1 := by omega
    simp only [decodeNat, hone, h, binaryOp]
  case and | eor | or | mov =>
    have htwo : n / 4096 = 2 := by omega
    simp only [decodeNat, htwo, h, binaryOp]

theorem decodeNat_of_immediateOp (op : ImmediateOp) (h : n / 4096 = op.opcode / 4096) :
    decodeNat n ext = some (immediate op (fieldUpper n) (fieldK n)) := by
  cases op <;> simp only [ImmediateOp.opcode, Nat.reduceDiv] at h <;> simp only [decodeNat, h]

theorem decodeNat_of_unaryOp (op : UnaryOp) (h : n / 512 = 0x4A) (hop : n % 16 = op.opcode % 16) :
    decodeNat n ext = some (unary op (fieldD n)) := by
  rw [decodeNat_unary h]
  cases op <;> simp only [UnaryOp.opcode, Nat.reduceMod] at hop <;> simp only [decodeUnary, hop]

theorem decodeNat_of_pairOp (op : PairOp) (h : n / 256 = op.opcode / 256) :
    decodeNat n ext =
      some (pair op (Fin.ofNat 4 (n / 16)) (Fin.ofNat 64 (n / 64 % 4 * 16 + n % 16))) := by
  cases op <;> simp only [PairOp.opcode, Nat.reduceDiv] at h <;>
    rw [decodeNat_nine (by omega)] <;> simp only [decodeNine, h]

theorem decodeNat_of_ioBitOp (op : IoBitOp) (h : n / 256 = op.opcode / 256) :
    decodeNat n ext = some (ioBit op (Fin.ofNat 32 (n / 8)) (Fin.ofNat 8 n)) := by
  cases op <;> simp only [IoBitOp.opcode, Nat.reduceDiv] at h <;>
    rw [decodeNat_nine (by omega)] <;> simp only [decodeNine, h]

theorem decodeNat_fifteen (h : n / 4096 = 15) : decodeNat n ext = decodeFifteen n := by
  simp only [decodeNat, h]

theorem decodeNat_of_regBitOp (op : RegBitOp) (h : n / 512 = op.opcode / 512) (hbit : n / 8 % 2 = 0) :
    decodeNat n ext = some (regBit op (fieldD n) (Fin.ofNat 8 n)) := by
  have hclear : n / 8 % 2 ≠ 1 := by omega
  cases op <;> simp only [RegBitOp.opcode, Nat.reduceDiv] at h
  all_goals
    have hhigh : n / 2048 % 2 ≠ 0 := by omega
    rw [decodeNat_fifteen (by omega), decodeFifteen, if_neg hhigh, if_neg hclear]
    simp only [h]

theorem decodeNat_of_branch (set : Bool) (h : n / 1024 = if set then 0x3C else 0x3D) :
    decodeNat n ext = some (branch (Fin.ofNat 8 n) set (Fin.ofNat 128 (n / 8))) := by
  cases set <;> simp only [Bool.false_eq_true, if_false, if_true] at h
  all_goals
    have hlow : n / 2048 % 2 = 0 := by omega
    rw [decodeNat_fifteen (by omega), decodeFifteen, if_pos hlow, h]
    rfl

theorem decodeNat_of_load (mode : Indirect) (h : n / 512 = 0x48) (hmode : n % 16 = mode.nibble) :
    decodeNat n ext = some (ld (fieldD n) mode) := by
  rw [decodeNat_load h, decodeLoad, hmode]
  cases mode <;> rfl

theorem decodeNat_of_store (mode : Indirect) (h : n / 512 = 0x49) (hmode : n % 16 = mode.nibble) :
    decodeNat n ext = some (st mode (fieldD n)) := by
  rw [decodeNat_store h, decodeStore, hmode]
  cases mode <;> rfl

theorem decodeNat_of_displaced (h : n / 4096 = 8 ∨ n / 4096 = 10) :
    decodeNat n ext =
      if n / 512 % 2 = 0 then some (ldd (fieldD n) (n / 8 % 2 == 1) (fieldQ n))
      else some (std (n / 8 % 2 == 1) (fieldQ n) (fieldD n)) := by
  obtain h | h := h
  · simp only [decodeNat, h]
  · simp only [decodeNat, h]

end Families

/-! ## Encoding -/

theorem ofNat_eq {last n : Nat} {x : Fin (last + 1)} (h : n % (last + 1) = x.val) :
    Fin.ofNat (last + 1) n = x := Fin.ext h

theorem fieldD_eq {n : Nat} {d : Fin 32} (h : n / 16 % 32 = d.val) : fieldD n = d := Fin.ext h

theorem fieldR_eq {n : Nat} {r : Fin 32} (h : (n / 512 % 2 * 16 + n % 16) % 32 = r.val) :
    fieldR n = r := Fin.ext h

theorem fieldUpper_eq {n : Nat} {d : Fin 16} (h : n / 16 % 16 = d.val) : fieldUpper n = d :=
  Fin.ext h

theorem fieldK_eq {n : Nat} {k : UInt8} (h : (n / 256 % 16 * 16 + n % 16) % 256 = k.toNat) :
    fieldK n = k := by
  apply UInt8.toNat.inj
  rw [fieldK, UInt8.toNat_ofNat']
  exact h

theorem fieldQ_eq {n : Nat} {q : Fin 64}
    (h : (n / 8192 % 2 * 32 + n / 1024 % 4 * 8 + n % 8) % 64 = q.val) : fieldQ n = q := Fin.ext h

theorem fieldA_eq {n : Nat} {a : Fin 64} (h : (n / 512 % 4 * 16 + n % 16) % 64 = a.val) :
    fieldA n = a := Fin.ext h

theorem fieldTarget_eq {n : Nat} {k : Fin 4194304}
    (h : n / 16 % 32 * 2 + n % 2 = k.val / 65536) : fieldTarget n (k.val % 65536) = k := by
  apply ofNat_eq
  have hk := k.isLt
  omega

theorem decodeNat_word_binary (op : BinaryOp) (d r : Fin 32) (ext : Nat) :
    decodeNat (binary op d r).word ext = some (binary op d r) := by
  have hd := d.isLt
  have hr := r.isLt
  have hop : op.opcode % 1024 = 0 := by cases op <;> rfl
  have hword : (binary op d r).word = op.opcode + r.val / 16 * 512 + d.val * 16 + r.val % 16 := rfl
  rw [decodeNat_of_binaryOp op (by omega), fieldD_eq (d := d) (by omega),
    fieldR_eq (r := r) (by omega)]

theorem decodeNat_word_immediate (op : ImmediateOp) (d : Fin 16) (k : UInt8) (ext : Nat) :
    decodeNat (immediate op d k).word ext = some (immediate op d k) := by
  have hd := d.isLt
  have hk := k.toNat_lt
  have hop : op.opcode % 4096 = 0 := by cases op <;> rfl
  have hword : (immediate op d k).word =
    op.opcode + k.toNat / 16 * 256 + d.val * 16 + k.toNat % 16 := rfl
  rw [decodeNat_of_immediateOp op (by omega), fieldUpper_eq (d := d) (by omega),
    fieldK_eq (k := k) (by omega)]

theorem decodeNat_word_unary (op : UnaryOp) (d : Fin 32) (ext : Nat) :
    decodeNat (unary op d).word ext = some (unary op d) := by
  have hd := d.isLt
  have hop : op.opcode / 16 = 0x940 := by cases op <;> rfl
  have hword : (unary op d).word = op.opcode + d.val * 16 := rfl
  rw [decodeNat_of_unaryOp op (by omega) (by omega), fieldD_eq (d := d) (by omega)]

theorem decodeNat_word_pair (op : PairOp) (d : Fin 4) (k : Fin 64) (ext : Nat) :
    decodeNat (pair op d k).word ext = some (pair op d k) := by
  have hd := d.isLt
  have hk := k.isLt
  have hop : op.opcode % 256 = 0 := by cases op <;> rfl
  have hword : (pair op d k).word = op.opcode + k.val / 16 * 64 + d.val * 16 + k.val % 16 := rfl
  rw [decodeNat_of_pairOp op (by omega), ofNat_eq (x := d) (by omega), ofNat_eq (x := k) (by omega)]

theorem decodeNat_word_ioBit (op : IoBitOp) (a : Fin 32) (b : Fin 8) (ext : Nat) :
    decodeNat (ioBit op a b).word ext = some (ioBit op a b) := by
  have ha := a.isLt
  have hb := b.isLt
  have hop : op.opcode % 256 = 0 := by cases op <;> rfl
  have hword : (ioBit op a b).word = op.opcode + a.val * 8 + b.val := rfl
  rw [decodeNat_of_ioBitOp op (by omega), ofNat_eq (x := a) (by omega), ofNat_eq (x := b) (by omega)]

theorem decodeNat_word_regBit (op : RegBitOp) (r : Fin 32) (b : Fin 8) (ext : Nat) :
    decodeNat (regBit op r b).word ext = some (regBit op r b) := by
  have hr := r.isLt
  have hb := b.isLt
  have hop : op.opcode % 512 = 0 := by cases op <;> rfl
  have hword : (regBit op r b).word = op.opcode + r.val * 16 + b.val := rfl
  rw [decodeNat_of_regBitOp op (by omega) (by omega), fieldD_eq (d := r) (by omega),
    ofNat_eq (x := b) (by omega)]

theorem decodeNat_word_branch (s : Fin 8) (set : Bool) (k : Fin 128) (ext : Nat) :
    decodeNat (branch s set k).word ext = some (branch s set k) := by
  have hs := s.isLt
  have hk := k.isLt
  have hword : (branch s set k).word = (if set then 0xF000 else 0xF400) + k.val * 8 + s.val := rfl
  have hlead : (branch s set k).word / 1024 = if set then 0x3C else 0x3D := by
    split at hword <;> simp_all <;> omega
  rw [decodeNat_of_branch set hlead, ofNat_eq (x := s) (by split at hword <;> omega),
    ofNat_eq (x := k) (by split at hword <;> omega)]

/-- The fields of a word with a displacement, by its digits; `x` is zero for a load, one for a store. -/
theorem displaced_digits {n x high mid y low d : Nat} (hx : x < 2) (hhigh : high < 2) (hmid : mid < 4)
    (hy : y < 2) (hlow : low < 8) (hd : d < 32)
    (h : n = 0x8000 + x * 512 + (high * 8192 + mid * 1024 + y * 8 + low) + d * 16) :
    (n / 4096 = 8 ∨ n / 4096 = 10) ∧ n / 512 % 2 = x ∧ n / 16 % 32 = d ∧ n / 8 % 2 = y ∧
      n / 8192 % 2 = high ∧ n / 1024 % 4 = mid ∧ n % 8 = low := by
  refine ⟨?_, ?_, ?_, ?_, ?_, ?_, ?_⟩ <;> omega

theorem decodeNat_word_displaced (d : Fin 32) (y : Bool) (q : Fin 64) (ext : Nat) :
    decodeNat (ldd d y q).word ext = some (ldd d y q) ∧
      decodeNat (std y q d).word ext = some (std y q d) := by
  have hq : q.val / 32 < 2 ∧ q.val / 8 % 4 < 4 ∧ q.val % 8 < 8 := by omega
  have hsum : (q.val / 32 * 32 + q.val / 8 % 4 * 8 + q.val % 8) % 64 = q.val := by omega
  have hbase : (if y then 8 else 0) = y.toNat * 8 := by cases y <;> rfl
  have hy : y.toNat < 2 := by cases y <;> decide
  have hbit : (y.toNat == 1) = y := by cases y <;> rfl
  have hword : displacement y q =
      q.val / 32 * 8192 + q.val / 8 % 4 * 1024 + y.toNat * 8 + q.val % 8 := by
    rw [displacement, hbase]
  constructor
  · obtain ⟨hlead, hx, hd, hy, hhigh, hmid, hlow⟩ :=
      displaced_digits (n := (ldd d y q).word) (x := 0) (by decide) hq.1 hq.2.1 hy hq.2.2 d.isLt
        (by rw [← hword]; rfl)
    rw [decodeNat_of_displaced hlead, if_pos hx, fieldD_eq hd, hy, hbit,
      fieldQ_eq (q := q) (by rw [hhigh, hmid, hlow]; exact hsum)]
  · obtain ⟨hlead, hx, hd, hy, hhigh, hmid, hlow⟩ :=
      displaced_digits (n := (std y q d).word) (x := 1) (by decide) hq.1 hq.2.1 hy hq.2.2 d.isLt
        (by rw [← hword]; rfl)
    rw [decodeNat_of_displaced hlead, if_neg (by rw [hx]; decide), fieldD_eq hd, hy, hbit,
      fieldQ_eq (q := q) (by rw [hhigh, hmid, hlow]; exact hsum)]

theorem decodeNat_word_indirect (d : Fin 32) (mode : Indirect) (ext : Nat) :
    decodeNat (ld d mode).word ext = some (ld d mode) ∧
      decodeNat (st mode d).word ext = some (st mode d) := by
  have hd := d.isLt
  have hmode : mode.nibble < 16 := by cases mode <;> decide
  have hload : (ld d mode).word = 0x9000 + d.val * 16 + mode.nibble := rfl
  have hstore : (st mode d).word = 0x9200 + d.val * 16 + mode.nibble := rfl
  constructor
  · rw [decodeNat_of_load mode (by omega) (by omega), fieldD_eq (d := d) (by omega)]
  · rw [decodeNat_of_store mode (by omega) (by omega), fieldD_eq (d := d) (by omega)]

theorem decodeNat_word_stack (d : Fin 32) (ext : Nat) :
    decodeNat (pop d).word ext = some (pop d) ∧ decodeNat (push d).word ext = some (push d) := by
  have hd := d.isLt
  have hpop : (pop d).word = 0x900F + d.val * 16 := rfl
  have hpush : (push d).word = 0x920F + d.val * 16 := rfl
  have hlow : (pop d).word % 16 = 0xF ∧ (push d).word % 16 = 0xF := by omega
  constructor
  · rw [decodeNat_load (by omega), decodeLoad, hlow.1]
    exact congrArg (fun d => some (pop d)) (fieldD_eq (by omega))
  · rw [decodeNat_store (by omega), decodeStore, hlow.2]
    exact congrArg (fun d => some (push d)) (fieldD_eq (by omega))

theorem decodeNat_word_lpm (d : Fin 32) (inc : Bool) (ext : Nat) :
    decodeNat (lpm d inc).word ext = some (lpm d inc) := by
  have hd := d.isLt
  cases inc with
  | false =>
    have hword : (lpm d false).word = 0x9004 + d.val * 16 := rfl
    have hlow : (lpm d false).word % 16 = 4 := by omega
    rw [decodeNat_load (by omega), decodeLoad, hlow]
    exact congrArg (fun d => some (lpm d false)) (fieldD_eq (by omega))
  | true =>
    have hword : (lpm d true).word = 0x9004 + d.val * 16 + 1 := rfl
    have hlow : (lpm d true).word % 16 = 5 := by omega
    rw [decodeNat_load (by omega), decodeLoad, hlow]
    exact congrArg (fun d => some (lpm d true)) (fieldD_eq (by omega))

theorem decodeNat_word_direct (d : Fin 32) (address : UInt16) :
    decodeNat (lds d address).word address.toNat = some (lds d address) ∧
      decodeNat (sts address d).word address.toNat = some (sts address d) := by
  have hd := d.isLt
  have hload : (lds d address).word = 0x9000 + d.val * 16 := rfl
  have hstore : (sts address d).word = 0x9200 + d.val * 16 := rfl
  have hlow : (lds d address).word % 16 = 0 ∧ (sts address d).word % 16 = 0 := by omega
  constructor
  · rw [decodeNat_load (by omega), decodeLoad, hlow.1]
    simp only [fieldD_eq (d := d) (show (lds d address).word / 16 % 32 = d.val by omega),
      UInt16.ofNat_toNat]
  · rw [decodeNat_store (by omega), decodeStore, hlow.2]
    simp only [fieldD_eq (d := d) (show (sts address d).word / 16 % 32 = d.val by omega),
      UInt16.ofNat_toNat]

theorem decodeNat_word_io (d : Fin 32) (a : Fin 64) (ext : Nat) :
    decodeNat (input d a).word ext = some (input d a) ∧
      decodeNat (output a d).word ext = some (output a d) := by
  have hd := d.isLt
  have ha := a.isLt
  have hin : (input d a).word = 0xB000 + (a.val / 16 * 512 + a.val % 16) + d.val * 16 := rfl
  have hout : (output a d).word = 0xB800 + (a.val / 16 * 512 + a.val % 16) + d.val * 16 := rfl
  have hlead : (input d a).word / 4096 = 0xB ∧ (output a d).word / 4096 = 0xB := by omega
  constructor
  · simp only [decodeNat, hlead.1]
    rw [if_pos (by omega), fieldD_eq (d := d) (by omega), fieldA_eq (a := a) (by omega)]
  · simp only [decodeNat, hlead.2]
    rw [if_neg (by omega), fieldD_eq (d := d) (by omega), fieldA_eq (a := a) (by omega)]

theorem decodeNat_word_relative (k : Fin 4096) (ext : Nat) :
    decodeNat (rjmp k).word ext = some (rjmp k) ∧ decodeNat (rcall k).word ext = some (rcall k) := by
  have hk := k.isLt
  have hjump : (rjmp k).word = 0xC000 + k.val := rfl
  have hcall : (rcall k).word = 0xD000 + k.val := rfl
  have hlead : (rjmp k).word / 4096 = 0xC ∧ (rcall k).word / 4096 = 0xD := by omega
  constructor
  · simp only [decodeNat, hlead.1]
    rw [ofNat_eq (x := k) (by omega)]
  · simp only [decodeNat, hlead.2]
    rw [ofNat_eq (x := k) (by omega)]

theorem decodeNat_word_far (k : Fin 4194304) :
    decodeNat (jmp k).word (k.val % 65536) = some (jmp k) ∧
      decodeNat (call k).word (k.val % 65536) = some (call k) := by
  have hk := k.isLt
  have hjump : (jmp k).word = 0x940C + (k.val / 131072 * 16 + k.val / 65536 % 2) := rfl
  have hcall : (call k).word = 0x940E + (k.val / 131072 * 16 + k.val / 65536 % 2) := rfl
  have hlow : ((jmp k).word % 16 = 0xC ∨ (jmp k).word % 16 = 0xD) ∧
    ((call k).word % 16 = 0xE ∨ (call k).word % 16 = 0xF) := by omega
  have hfield {n : Nat} (h : n / 16 % 32 = k.val / 131072 ∧ n % 2 = k.val / 65536 % 2) :
      fieldTarget n (k.val % 65536) = k := fieldTarget_eq (by omega)
  constructor
  · rw [decodeNat_unary (by omega)]
    obtain h | h := hlow.1
    · simp only [decodeUnary, h, hfield (n := (jmp k).word) (by omega)]
    · simp only [decodeUnary, h, hfield (n := (jmp k).word) (by omega)]
  · rw [decodeNat_unary (by omega)]
    obtain h | h := hlow.2
    · simp only [decodeUnary, h, hfield (n := (call k).word) (by omega)]
    · simp only [decodeUnary, h, hfield (n := (call k).word) (by omega)]

theorem decodeNat_word_flag (s : Fin 8) (ext : Nat) :
    decodeNat (bset s).word ext = some (bset s) ∧ decodeNat (bclr s).word ext = some (bclr s) := by
  have hs := s.isLt
  have hcontrol : ∀ s : Fin 8, decodeControl (bset s).word = some (bset s) ∧
    decodeControl (bclr s).word = some (bclr s) := by decide
  have hset : (bset s).word = 0x9408 + s.val * 16 := rfl
  have hclear : (bclr s).word = 0x9488 + s.val * 16 := rfl
  have hlow : (bset s).word % 16 = 8 ∧ (bclr s).word % 16 = 8 := by omega
  constructor
  · rw [decodeNat_unary (by omega), decodeUnary, hlow.1]
    exact (hcontrol s).1
  · rw [decodeNat_unary (by omega), decodeUnary, hlow.2]
    exact (hcontrol s).2

theorem decodeNat_word_movw (d r : Fin 16) (ext : Nat) :
    decodeNat (movw d r).word ext = some (movw d r) := by
  have hd := d.isLt
  have hr := r.isLt
  have hword : (movw d r).word = 0x0100 + d.val * 16 + r.val := rfl
  have hlead : (movw d r).word / 4096 = 0 ∧ (movw d r).word / 1024 % 4 = 0 := by omega
  simp only [decodeNat, hlead.1, decodeZero, hlead.2]
  rw [if_neg (by omega), if_pos (by omega), ofNat_eq (x := d) (by omega), ofNat_eq (x := r) (by omega)]

/-- The first word of an instruction, with its second word behind it if it has one, decodes to it. -/
theorem decodeNat_word (i : Instr) {ext : UInt16} (h : ∀ e, i.extension? = some e → ext = e) :
    decodeNat i.word ext.toNat = some i := by
  cases i with
  | nop | ret | reti | sleep | breakpoint | wdr | ijmp | icall | lpmZero => rfl
  | movw d r => exact decodeNat_word_movw d r _
  | binary op d r => exact decodeNat_word_binary op d r _
  | immediate op d k => exact decodeNat_word_immediate op d k _
  | unary op d => exact decodeNat_word_unary op d _
  | pair op d k => exact decodeNat_word_pair op d k _
  | push r => exact (decodeNat_word_stack r _).2
  | pop d => exact (decodeNat_word_stack d _).1
  | ldd d y q => exact (decodeNat_word_displaced d y q _).1
  | std y q r => exact (decodeNat_word_displaced r y q _).2
  | ld d mode => exact (decodeNat_word_indirect d mode _).1
  | st mode r => exact (decodeNat_word_indirect r mode _).2
  | lds d address =>
    rw [h address rfl]
    exact (decodeNat_word_direct d address).1
  | sts address r =>
    rw [h address rfl]
    exact (decodeNat_word_direct r address).2
  | lpm d inc => exact decodeNat_word_lpm d inc _
  | input d a => exact (decodeNat_word_io d a _).1
  | output a r => exact (decodeNat_word_io r a _).2
  | rjmp k => exact (decodeNat_word_relative k _).1
  | rcall k => exact (decodeNat_word_relative k _).2
  | jmp k =>
    rw [h _ rfl, UInt16.toNat_ofNat']
    exact (decodeNat_word_far k).1
  | call k =>
    rw [h _ rfl, UInt16.toNat_ofNat']
    exact (decodeNat_word_far k).2
  | branch s set k => exact decodeNat_word_branch s set k _
  | bset s => exact (decodeNat_word_flag s _).1
  | bclr s => exact (decodeNat_word_flag s _).2
  | ioBit op a b => exact decodeNat_word_ioBit op a b _
  | regBit op r b => exact decodeNat_word_regBit op r b _

theorem word_lt (i : Instr) : i.word < 65536 := by
  cases i with
  | binary op d r =>
    have hop : op.opcode ≤ 0x9C00 := by cases op <;> decide
    simp only [word]
    omega
  | immediate op d k =>
    have hop : op.opcode ≤ 0xE000 := by cases op <;> decide
    have hk := k.toNat_lt
    simp only [word]
    omega
  | unary op d =>
    have hop : op.opcode ≤ 0x940A := by cases op <;> decide
    simp only [word]
    omega
  | pair op d k =>
    have hop : op.opcode ≤ 0x9700 := by cases op <;> decide
    simp only [word]
    omega
  | ioBit op a b =>
    have hop : op.opcode ≤ 0x9B00 := by cases op <;> decide
    simp only [word]
    omega
  | regBit op r b =>
    have hop : op.opcode ≤ 0xFE00 := by cases op <;> decide
    simp only [word]
    omega
  | ld d mode | st mode r =>
    have hmode : mode.nibble < 16 := by cases mode <;> decide
    simp only [word]
    omega
  | ldd d y q | std y q d =>
    simp only [word, displacement]
    split <;> omega
  | lpm d b =>
    simp only [word]
    split <;> omega
  | branch s set k =>
    simp only [word]
    split <;> omega
  | _ =>
    simp only [word, ioAddress, targetHigh]
    omega

theorem decode_word (i : Instr) {ext : UInt16} (h : ∀ e, i.extension? = some e → ext = e) :
    decode (UInt16.ofNat i.word) ext = some i := by
  rw [decode, UInt16.toNat_ofNat', Nat.mod_eq_of_lt i.word_lt]
  exact i.decodeNat_word h

/-! ## The length of an instruction -/

theorem isLong_eq {w : UInt16} :
    isLong w = true ↔ w.toNat / 512 = 0x4A ∧ w.toNat / 4 % 4 = 3 ∨
      (w.toNat / 512 = 0x48 ∨ w.toNat / 512 = 0x49) ∧ w.toNat % 16 = 0 := by
  simp only [isLong, Bool.or_eq_true, Bool.and_eq_true, beq_iff_eq]
  omega

section Length

variable {n ext : Nat} {i : Instr}

theorem long_of_decodeLoad (h : decodeLoad n ext = some i) :
    i.extension?.isSome = true ↔ n % 16 = 0 := by
  unfold decodeLoad at h
  split at h
  case h_5 hlow _ _ _ =>
    obtain ⟨mode, -, rfl⟩ := Option.map_eq_some_iff.mp h
    exact ⟨nofun, fun h => absurd h hlow⟩
  all_goals
    cases h
    simp [extension?, *]

theorem long_of_decodeStore (h : decodeStore n ext = some i) :
    i.extension?.isSome = true ↔ n % 16 = 0 := by
  unfold decodeStore at h
  split at h
  case h_3 hlow _ =>
    obtain ⟨mode, -, rfl⟩ := Option.map_eq_some_iff.mp h
    exact ⟨nofun, fun h => absurd h hlow⟩
  all_goals
    cases h
    simp [extension?, *]

theorem short_of_decodeControl (h : decodeControl n = some i) : i.extension? = none := by
  unfold decodeControl at h
  split at h
  case h_7 =>
    split at h
    · cases h
      rfl
    · split at h
      · cases h
        rfl
      · cases h
  all_goals
    cases h
    rfl

theorem long_of_decodeUnary (h : decodeUnary n ext = some i) :
    i.extension?.isSome = true ↔ n / 4 % 4 = 3 := by
  unfold decodeUnary at h
  split at h
  case h_8 hlow =>
    rw [short_of_decodeControl h]
    exact ⟨nofun, fun h => by omega⟩
  case h_9 hlow =>
    split at h
    case h_3 => cases h
    all_goals
      cases h
      exact ⟨nofun, fun h => by omega⟩
  case h_15 => cases h
  all_goals
    cases h
    simp only [extension?, Option.isSome_some, Option.isSome_none, Bool.false_eq_true, true_iff,
      false_iff]
    omega

theorem short_of_decodeNine (hlead : 6 ≤ n / 256 % 16) (h : decodeNine n ext = some i) :
    i.extension? = none := by
  unfold decodeNine at h
  split at h
  case h_1 | h_2 | h_3 | h_4 | h_5 | h_6 => omega
  all_goals
    cases h
    rfl

theorem short_of_decodeZero (h : decodeZero n = some i) : i.extension? = none := by
  unfold decodeZero at h
  split at h
  case h_1 =>
    split at h
    · cases h
      rfl
    · split at h
      · cases h
        rfl
      · cases h
  all_goals
    cases h
    rfl

theorem short_of_decodeFifteen (h : decodeFifteen n = some i) : i.extension? = none := by
  unfold decodeFifteen at h
  split at h
  · cases h
    rfl
  · split at h
    · cases h
    · split at h
      all_goals
        cases h
        rfl

theorem short_of_decodeNat (hlead : n / 4096 ≠ 9) (h : decodeNat n ext = some i) :
    i.extension? = none := by
  unfold decodeNat at h
  split at h
  case h_1 => exact short_of_decodeZero h
  case h_11 hnine => exact absurd hnine hlead
  case h_16 => exact short_of_decodeFifteen h
  case h_9 | h_10 | h_12 =>
    split at h
    all_goals
      cases h
      rfl
  all_goals
    cases h
    rfl

theorem isLong_of_decode {w ext : UInt16} (h : decode w ext = some i) :
    isLong w = i.extension?.isSome := by
  have hw := w.toNat_lt
  rw [Bool.eq_iff_iff, isLong_eq]
  unfold decode at h
  by_cases hload : w.toNat / 512 = 0x48
  · rw [decodeNat_load hload] at h
    rw [long_of_decodeLoad h]
    omega
  by_cases hstore : w.toNat / 512 = 0x49
  · rw [decodeNat_store hstore] at h
    rw [long_of_decodeStore h]
    omega
  by_cases hunary : w.toNat / 512 = 0x4A
  · rw [decodeNat_unary hunary] at h
    rw [long_of_decodeUnary h]
    omega
  have hshort : i.extension? = none := by
    by_cases hnine : w.toNat / 4096 = 9
    · rw [decodeNat_nine hnine] at h
      exact short_of_decodeNine (by omega) h
    · exact short_of_decodeNat hnine h
  rw [hshort]
  exact ⟨fun h => by omega, nofun⟩

end Length

end AvrSim.Instr
