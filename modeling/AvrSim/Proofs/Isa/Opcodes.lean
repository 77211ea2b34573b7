import AvrSim.Proofs.Asm.Skips
import Mathlib.Algebra.Group.Nat.Defs

/-!
# Opcodes

For each instruction there is a bit diagram of its first word: fixed digits, and letters where operands
stand. The decoder does not compare a word with the diagrams. It goes down from the leading bits through
families that overlap in the bits they look at, and finds a word to be no instruction at several depths.
Between the two stand the bits that select an instruction, as one condition for each form.

* `Instr.fits_iff_selects`: a word fits a diagram exactly if it has the bits that select the instruction.
* `Instr.exists_decodeNat_of_selects` and `Instr.selects_of_decodeNat`: so it is for the decoder.
* `Machine.execute_of_unlisted`: a word that fits no diagram ends the run and changes nothing else.
* `Machine.opcodes_as_listed`: the core refuses a word exactly if it fits none of the diagrams.
-/

namespace AvrSim

/-! ## Diagrams -/

/-- A bit diagram, most significant digit first. Blanks only group the digits, and letters stand for
operand bits. -/
abbrev Diagram := String

namespace Diagram

/-- The digits of a diagram without the blanks between them. -/
def digits (diagram : Diagram) : List Char := diagram.toList.filter (· ≠ ' ')

/-- A number has the fixed digits of a diagram as its last bits. -/
def Reads : List Char → Nat → Prop
  | [], _ => True
  | c :: rest, n =>
    (c = '0' → n / 2 ^ rest.length % 2 = 0) ∧ (c = '1' → n / 2 ^ rest.length % 2 = 1) ∧ Reads rest n

/-- A number fits a diagram: each fixed digit is its bit in the same place. -/
def Fits (diagram : Diagram) (n : Nat) : Prop := Reads diagram.digits n

/-- The same with adjacent fixed digits taken together: before the digits that are left, a run of `width`
fixed digits with a given value was read. -/
def ReadsRun : List Char → Nat → Nat → Nat → Prop
  | [], width, value, n => n % 2 ^ width = value
  | c :: rest, width, value, n =>
    if c = '0' then ReadsRun rest (width + 1) (2 * value) n
    else if c = '1' then ReadsRun rest (width + 1) (2 * value + 1) n
    else n / 2 ^ (rest.length + 1) % 2 ^ width = value ∧ ReadsRun rest 0 0 n

theorem extend_run (n shift width value : Nat) {bit : Nat} (hbit : bit < 2) :
    n / 2 ^ shift % 2 ^ (width + 1) = 2 * value + bit ↔
      n / 2 ^ (shift + 1) % 2 ^ width = value ∧ n / 2 ^ shift % 2 = bit := by
  have hsplit : n / 2 ^ shift % 2 ^ (width + 1) =
      n / 2 ^ shift % 2 + 2 * (n / 2 ^ (shift + 1) % 2 ^ width) := by
    rw [Nat.pow_succ', Nat.mod_mul, Nat.div_div_eq_div_mul, ← Nat.pow_succ]
  omega

theorem readsRun_iff (cs : List Char) (width value n : Nat) :
    ReadsRun cs width value n ↔ n / 2 ^ cs.length % 2 ^ width = value ∧ Reads cs n := by
  induction cs generalizing width value with
  | nil => simp [ReadsRun, Reads]
  | cons c rest ih =>
    have hzero : n / 2 ^ rest.length % 2 ^ (width + 1) = 2 * value ↔ _ :=
      extend_run n rest.length width value (show 0 < 2 by decide)
    have hone := extend_run n rest.length width value (show 1 < 2 by decide)
    rw [ReadsRun, Reads, List.length_cons]
    by_cases h0 : c = '0'
    · subst h0
      simp [ih, hzero, and_assoc]
    · by_cases h1 : c = '1'
      · subst h1
        simp [ih, hone, and_assoc]
      · simp [ih, h0, h1, Nat.mod_one]

theorem fits_ofList (cs : List Char) (n : Nat) :
    Fits (String.ofList cs) n ↔ ReadsRun (cs.filter (· ≠ ' ')) 0 0 n := by
  rw [readsRun_iff, Nat.pow_zero, Nat.mod_one, Fits, digits, String.toList_ofList]
  exact (and_iff_right rfl).symm

end Diagram

/-! ## The diagrams of the instructions -/

/-- The diagram of an operation. -/
def BinaryOp.diagram : BinaryOp → Diagram
  | .cpc => "0000 01rd dddd rrrr"
  | .sbc => "0000 10rd dddd rrrr"
  | .add => "0000 11rd dddd rrrr"
  | .cpse => "0001 00rd dddd rrrr"
  | .cp => "0001 01rd dddd rrrr"
  | .sub => "0001 10rd dddd rrrr"
  | .adc => "0001 11rd dddd rrrr"
  | .and => "0010 00rd dddd rrrr"
  | .eor => "0010 01rd dddd rrrr"
  | .or => "0010 10rd dddd rrrr"
  | .mov => "0010 11rd dddd rrrr"
  | .mul => "1001 11rd dddd rrrr"

@[inherit_doc BinaryOp.diagram]
def ImmediateOp.diagram : ImmediateOp → Diagram
  | .cpi => "0011 KKKK dddd KKKK"
  | .sbci => "0100 KKKK dddd KKKK"
  | .subi => "0101 KKKK dddd KKKK"
  | .ori => "0110 KKKK dddd KKKK"
  | .andi => "0111 KKKK dddd KKKK"
  | .ldi => "1110 KKKK dddd KKKK"

@[inherit_doc BinaryOp.diagram]
def UnaryOp.diagram : UnaryOp → Diagram
  | .com => "1001 010d dddd 0000"
  | .neg => "1001 010d dddd 0001"
  | .swap => "1001 010d dddd 0010"
  | .inc => "1001 010d dddd 0011"
  | .asr => "1001 010d dddd 0101"
  | .lsr => "1001 010d dddd 0110"
  | .ror => "1001 010d dddd 0111"
  | .dec => "1001 010d dddd 1010"

@[inherit_doc BinaryOp.diagram]
def PairOp.diagram : PairOp → Diagram
  | .adiw => "1001 0110 KKdd KKKK"
  | .sbiw => "1001 0111 KKdd KKKK"

@[inherit_doc BinaryOp.diagram]
def IoBitOp.diagram : IoBitOp → Diagram
  | .cbi => "1001 1000 AAAA Abbb"
  | .sbic => "1001 1001 AAAA Abbb"
  | .sbi => "1001 1010 AAAA Abbb"
  | .sbis => "1001 1011 AAAA Abbb"

@[inherit_doc BinaryOp.diagram]
def RegBitOp.diagram : RegBitOp → Diagram
  | .bld => "1111 100d dddd 0bbb"
  | .bst => "1111 101d dddd 0bbb"
  | .sbrc => "1111 110r rrrr 0bbb"
  | .sbrs => "1111 111r rrrr 0bbb"

/-- The diagram of an indirect load. -/
def Indirect.loadDiagram : Indirect → Diagram
  | .zInc => "1001 000d dddd 0001"
  | .zDec => "1001 000d dddd 0010"
  | .yInc => "1001 000d dddd 1001"
  | .yDec => "1001 000d dddd 1010"
  | .x => "1001 000d dddd 1100"
  | .xInc => "1001 000d dddd 1101"
  | .xDec => "1001 000d dddd 1110"

/-- The diagram of an indirect store. -/
def Indirect.storeDiagram : Indirect → Diagram
  | .zInc => "1001 001r rrrr 0001"
  | .zDec => "1001 001r rrrr 0010"
  | .yInc => "1001 001r rrrr 1001"
  | .yDec => "1001 001r rrrr 1010"
  | .x => "1001 001r rrrr 1100"
  | .xInc => "1001 001r rrrr 1101"
  | .xDec => "1001 001r rrrr 1110"

namespace Instr

/-- The diagram of the first word of an instruction. -/
def diagram : Instr → Diagram
  | nop => "0000 0000 0000 0000"
  | ret => "1001 0101 0000 1000"
  | reti => "1001 0101 0001 1000"
  | sleep => "1001 0101 1000 1000"
  | breakpoint => "1001 0101 1001 1000"
  | wdr => "1001 0101 1010 1000"
  | ijmp => "1001 0100 0000 1001"
  | icall => "1001 0101 0000 1001"
  | lpmZero => "1001 0101 1100 1000"
  | movw _ _ => "0000 0001 dddd rrrr"
  | binary op _ _ => op.diagram
  | immediate op _ _ => op.diagram
  | unary op _ => op.diagram
  | pair op _ _ => op.diagram
  | push _ => "1001 001r rrrr 1111"
  | pop _ => "1001 000d dddd 1111"
  | ldd _ _ _ => "10q0 qq0d dddd bqqq"
  | std _ _ _ => "10q0 qq1r rrrr bqqq"
  | ld _ mode => mode.loadDiagram
  | st mode _ => mode.storeDiagram
  | lds _ _ => "1001 000d dddd 0000"
  | sts _ _ => "1001 001r rrrr 0000"
  | lpm _ false => "1001 000d dddd 0100"
  | lpm _ true => "1001 000d dddd 0101"
  | input _ _ => "1011 0AAd dddd AAAA"
  | output _ _ => "1011 1AAr rrrr AAAA"
  | rjmp _ => "1100 kkkk kkkk kkkk"
  | rcall _ => "1101 kkkk kkkk kkkk"
  | jmp _ => "1001 010k kkkk 110k"
  | call _ => "1001 010k kkkk 111k"
  | branch _ true _ => "1111 00kk kkkk ksss"
  | branch _ false _ => "1111 01kk kkkk ksss"
  | bset _ => "1001 0100 0sss 1000"
  | bclr _ => "1001 0100 1sss 1000"
  | ioBit op _ _ => op.diagram
  | regBit op _ _ => op.diagram

/-! ## Selecting bits -/

variable {n ext : Nat} {i : Instr}

/-- The bits by which the decoder tells an instruction. -/
def Selects (n : Nat) : Instr → Prop
  | movw _ _ => n / 256 = 1
  | binary op _ _ => n / 1024 = op.opcode / 1024
  | immediate op _ _ => n / 4096 = op.opcode / 4096
  | unary op _ => n / 512 = 0x4A ∧ n % 16 = op.opcode % 16
  | pair op _ _ => n / 256 = op.opcode / 256
  | push _ => n / 512 = 0x49 ∧ n % 16 = 0xF
  | pop _ => n / 512 = 0x48 ∧ n % 16 = 0xF
  | ldd _ _ _ => (n / 4096 = 8 ∨ n / 4096 = 10) ∧ n / 512 % 2 = 0
  | std _ _ _ => (n / 4096 = 8 ∨ n / 4096 = 10) ∧ n / 512 % 2 ≠ 0
  | ld _ mode => n / 512 = 0x48 ∧ n % 16 = mode.nibble
  | st mode _ => n / 512 = 0x49 ∧ n % 16 = mode.nibble
  | lds _ _ => n / 512 = 0x48 ∧ n % 16 = 0
  | sts _ _ => n / 512 = 0x49 ∧ n % 16 = 0
  | lpm _ inc => n / 512 = 0x48 ∧ n % 16 = if inc then 5 else 4
  | input _ _ => n / 4096 = 0xB ∧ n / 2048 % 2 = 0
  | output _ _ => n / 4096 = 0xB ∧ n / 2048 % 2 ≠ 0
  | rjmp _ => n / 4096 = 0xC
  | rcall _ => n / 4096 = 0xD
  | jmp _ => n / 512 = 0x4A ∧ (n % 16 = 0xC ∨ n % 16 = 0xD)
  | call _ => n / 512 = 0x4A ∧ (n % 16 = 0xE ∨ n % 16 = 0xF)
  | branch _ set _ => n / 1024 = if set then 0x3C else 0x3D
  | bset _ => n / 512 = 0x4A ∧ n % 16 = 8 ∧ n / 16 % 32 < 8
  | bclr _ => n / 512 = 0x4A ∧ n % 16 = 8 ∧ 8 ≤ n / 16 % 32 ∧ n / 16 % 32 < 16
  | ioBit op _ _ => n / 256 = op.opcode / 256
  | regBit op _ _ => n / 512 = op.opcode / 512 ∧ n / 8 % 2 = 0
  | i => n = i.word

/-- The leading bits of a word need no bound of their own. -/
theorem leading_bits (hn : n < 65536) :
    n / 4096 % 16 = n / 4096 ∧ n / 1024 % 64 = n / 1024 ∧
      n / 512 % 128 = n / 512 ∧ n / 256 % 256 = n / 256 ∧ n % 65536 = n := by
  omega

theorem fits_iff_selects (i : Instr) (hn : n < 65536) : i.diagram.Fits n ↔ i.Selects n := by
  obtain ⟨hfour, hsix, hseven, height, hall⟩ := leading_bits hn
  -- Taken in runs, the fixed digits are the very quotients and remainders that the decoder looks at.
  cases i with
  | binary op d r =>
    cases op <;> simp only [diagram, BinaryOp.diagram] <;> rw [Diagram.fits_ofList] <;>
      simp [Selects, BinaryOp.opcode, Diagram.ReadsRun, Nat.mod_one, hsix]
  | immediate op d k =>
    cases op <;> simp only [diagram, ImmediateOp.diagram] <;> rw [Diagram.fits_ofList] <;>
      simp [Selects, ImmediateOp.opcode, Diagram.ReadsRun, Nat.mod_one, hfour]
  | unary op d =>
    cases op <;> simp only [diagram, UnaryOp.diagram] <;> rw [Diagram.fits_ofList] <;>
      simp [Selects, UnaryOp.opcode, Diagram.ReadsRun, Nat.mod_one, hseven]
  | pair op d k =>
    cases op <;> simp only [diagram, PairOp.diagram] <;> rw [Diagram.fits_ofList] <;>
      simp [Selects, PairOp.opcode, Diagram.ReadsRun, Nat.mod_one, height]
  | ioBit op a b =>
    cases op <;> simp only [diagram, IoBitOp.diagram] <;> rw [Diagram.fits_ofList] <;>
      simp [Selects, IoBitOp.opcode, Diagram.ReadsRun, Nat.mod_one, height]
  | regBit op r b =>
    cases op <;> simp only [diagram, RegBitOp.diagram] <;> rw [Diagram.fits_ofList] <;>
      simp [Selects, RegBitOp.opcode, Diagram.ReadsRun, Nat.mod_one, hseven]
  | ld d mode =>
    cases mode <;> simp only [diagram, Indirect.loadDiagram] <;> rw [Diagram.fits_ofList] <;>
      simp [Selects, Indirect.nibble, Diagram.ReadsRun, Nat.mod_one, hseven]
  | st mode r =>
    cases mode <;> simp only [diagram, Indirect.storeDiagram] <;> rw [Diagram.fits_ofList] <;>
      simp [Selects, Indirect.nibble, Diagram.ReadsRun, Nat.mod_one, hseven]
  | lpm d inc =>
    cases inc <;> simp only [diagram] <;> rw [Diagram.fits_ofList] <;>
      simp [Selects, Diagram.ReadsRun, Nat.mod_one, hseven]
  | branch s set k =>
    cases set <;> simp only [diagram] <;> rw [Diagram.fits_ofList] <;>
      simp [Selects, Diagram.ReadsRun, Nat.mod_one, hsix]
  | ldd | std | input | output | jmp | call | bset | bclr =>
    rw [diagram, Diagram.fits_ofList]
    simp [Selects, Diagram.ReadsRun]
    omega
  | movw | push | pop | lds | sts | rjmp | rcall =>
    rw [diagram, Diagram.fits_ofList]
    simp [Selects, Diagram.ReadsRun, Nat.mod_one, hfour, hseven, height]
  | nop | ret | reti | sleep | breakpoint | wdr | ijmp | icall | lpmZero =>
    rw [diagram, Diagram.fits_ofList]
    simp [Selects, word, Diagram.ReadsRun, hall]

/-! ## The decoder -/

theorem decodeControl_of_lt (h : n / 16 % 32 < 16) :
    decodeControl n =
      if n / 16 % 32 < 8 then some (bset (Fin.ofNat 8 (n / 16 % 32)))
      else some (bclr (Fin.ofNat 8 (n / 16 % 32))) := by
  unfold decodeControl
  split
  case h_7 => rw [if_pos h]
  all_goals omega

/-- A word with the bits of an instruction is decoded, to an instruction with the same diagram. -/
theorem exists_decodeNat_of_selects (h : i.Selects n) (ext : Nat) :
    ∃ j, decodeNat n ext = some j ∧ j.diagram = i.diagram := by
  cases i with
  | movw d r =>
    have hlead : n / 256 = 1 := h
    have hzero : n / 4096 = 0 := by omega
    have hfirst : n / 1024 % 4 = 0 := by omega
    simp only [decodeNat, hzero, decodeZero, hfirst]
    rw [if_neg (by omega), if_pos hlead]
    exact ⟨_, rfl, rfl⟩
  | binary op d r => exact ⟨_, decodeNat_of_binaryOp op h, rfl⟩
  | immediate op d k => exact ⟨_, decodeNat_of_immediateOp op h, rfl⟩
  | unary op d => exact ⟨_, decodeNat_of_unaryOp op h.1 h.2, rfl⟩
  | pair op d k => exact ⟨_, decodeNat_of_pairOp op h, rfl⟩
  | push r =>
    rw [decodeNat_store h.1, decodeStore, h.2]
    exact ⟨_, rfl, rfl⟩
  | pop d =>
    rw [decodeNat_load h.1, decodeLoad, h.2]
    exact ⟨_, rfl, rfl⟩
  | ldd d y q =>
    rw [decodeNat_of_displaced h.1, if_pos h.2]
    exact ⟨_, rfl, rfl⟩
  | std y q r =>
    rw [decodeNat_of_displaced h.1, if_neg h.2]
    exact ⟨_, rfl, rfl⟩
  | ld d mode => exact ⟨_, decodeNat_of_load mode h.1 h.2, rfl⟩
  | st mode r => exact ⟨_, decodeNat_of_store mode h.1 h.2, rfl⟩
  | lds d address =>
    rw [decodeNat_load h.1, decodeLoad, h.2]
    exact ⟨_, rfl, rfl⟩
  | sts address r =>
    rw [decodeNat_store h.1, decodeStore, h.2]
    exact ⟨_, rfl, rfl⟩
  | lpm d inc =>
    rw [decodeNat_load h.1, decodeLoad, h.2]
    cases inc <;> exact ⟨_, rfl, rfl⟩
  | input d a =>
    simp only [decodeNat, h.1]
    rw [if_pos h.2]
    exact ⟨_, rfl, rfl⟩
  | output a r =>
    simp only [decodeNat, h.1]
    rw [if_neg h.2]
    exact ⟨_, rfl, rfl⟩
  | rjmp k =>
    have hlead : n / 4096 = 0xC := h
    simp only [decodeNat, hlead]
    exact ⟨_, rfl, rfl⟩
  | rcall k =>
    have hlead : n / 4096 = 0xD := h
    simp only [decodeNat, hlead]
    exact ⟨_, rfl, rfl⟩
  | jmp k =>
    obtain ⟨hlead, hlow | hlow⟩ := h
    all_goals
      simp only [decodeNat_unary hlead, decodeUnary, hlow]
      -- By unfolding, since comparing the two targets first would take long.
      exact ⟨_, rfl, by simp only [diagram]⟩
  | call k =>
    obtain ⟨hlead, hlow | hlow⟩ := h
    all_goals
      simp only [decodeNat_unary hlead, decodeUnary, hlow]
      exact ⟨_, rfl, by simp only [diagram]⟩
  | branch s set k =>
    refine ⟨_, decodeNat_of_branch set h, ?_⟩
    cases set <;> rfl
  | bset s =>
    obtain ⟨hlead, hlow, hs⟩ := h
    simp only [decodeNat_unary hlead, decodeUnary, hlow]
    rw [decodeControl_of_lt (by omega), if_pos hs]
    exact ⟨_, rfl, rfl⟩
  | bclr s =>
    obtain ⟨hlead, hlow, hs, hlt⟩ := h
    simp only [decodeNat_unary hlead, decodeUnary, hlow]
    rw [decodeControl_of_lt hlt, if_neg (by omega)]
    exact ⟨_, rfl, rfl⟩
  | ioBit op a b => exact ⟨_, decodeNat_of_ioBitOp op h, rfl⟩
  | regBit op r b => exact ⟨_, decodeNat_of_regBitOp op h.1 h.2, rfl⟩
  | nop | ret | reti | sleep | breakpoint | wdr | ijmp | icall | lpmZero =>
    obtain rfl : n = _ := h
    exact ⟨_, rfl, rfl⟩

theorem nibble_of_indirect? {low : Nat} {mode : Indirect} (h : indirect? low = some mode) :
    low = mode.nibble := by
  unfold indirect? at h
  split at h <;> cases h <;> rfl

theorem selects_of_decodeLoad (hlead : n / 512 = 0x48) (h : decodeLoad n ext = some i) :
    i.Selects n := by
  unfold decodeLoad at h
  split at h
  case h_5 =>
    obtain ⟨mode, hmode, rfl⟩ := Option.map_eq_some_iff.1 h
    exact ⟨hlead, nibble_of_indirect? hmode⟩
  all_goals
    cases h
    exact ⟨hlead, ‹_›⟩

theorem selects_of_decodeStore (hlead : n / 512 = 0x49) (h : decodeStore n ext = some i) :
    i.Selects n := by
  unfold decodeStore at h
  split at h
  case h_3 =>
    obtain ⟨mode, hmode, rfl⟩ := Option.map_eq_some_iff.1 h
    exact ⟨hlead, nibble_of_indirect? hmode⟩
  all_goals
    cases h
    exact ⟨hlead, ‹_›⟩

theorem selects_of_decodeControl (hlead : n / 512 = 0x4A) (hlow : n % 16 = 8)
    (h : decodeControl n = some i) : i.Selects n := by
  unfold decodeControl at h
  split at h
  case h_7 =>
    split at h
    · cases h
      exact ⟨hlead, hlow, ‹_›⟩
    · split at h
      · cases h
        exact ⟨hlead, hlow, Nat.le_of_not_lt ‹_›, ‹_›⟩
      · cases h
  all_goals
    cases h
    simp only [Selects, word]
    omega

theorem selects_of_decodeUnary (hlead : n / 512 = 0x4A) (h : decodeUnary n ext = some i) :
    i.Selects n := by
  unfold decodeUnary at h
  split at h
  case h_8 hlow => exact selects_of_decodeControl hlead hlow h
  case h_9 hlow =>
    split at h <;> cases h <;> simp only [Selects, word] <;> omega
  case h_15 => cases h
  case h_11 hlow | h_12 hlow | h_13 hlow | h_14 hlow =>
    cases h
    simp only [Selects]
    omega
  all_goals
    cases h
    exact ⟨hlead, ‹_›⟩

theorem selects_of_decodeNine (hlead : n / 4096 = 9) (h : decodeNine n ext = some i) :
    i.Selects n := by
  unfold decodeNine at h
  split at h
  case h_1 | h_2 => exact selects_of_decodeLoad (by omega) h
  case h_3 | h_4 => exact selects_of_decodeStore (by omega) h
  case h_5 | h_6 => exact selects_of_decodeUnary (by omega) h
  case h_13 =>
    cases h
    simp only [imp_false] at *
    simp only [Selects, BinaryOp.opcode]
    omega
  all_goals
    cases h
    simp only [Selects, PairOp.opcode, IoBitOp.opcode]
    omega

theorem selects_of_decodeZero (hlead : n / 4096 = 0) (h : decodeZero n = some i) : i.Selects n := by
  unfold decodeZero at h
  split at h
  case h_1 =>
    split at h
    · cases h
      assumption
    · split at h <;> cases h
      assumption
  case h_4 =>
    cases h
    simp only [imp_false] at *
    simp only [Selects, BinaryOp.opcode]
    omega
  all_goals
    cases h
    simp only [Selects, BinaryOp.opcode]
    omega

theorem selects_of_decodeFifteen (hlead : n / 4096 = 15) (h : decodeFifteen n = some i) :
    i.Selects n := by
  unfold decodeFifteen at h
  split at h
  · cases h
    by_cases hset : n / 1024 % 2 = 0
    · simp only [Selects, hset, BEq.rfl, if_true]
      omega
    · simp only [Selects, beq_eq_false_iff_ne.2 hset, Bool.false_eq_true, if_false]
      omega
  · split at h
    · cases h
    · split at h
      case h_4 =>
        cases h
        simp only [imp_false] at *
        simp only [Selects, RegBitOp.opcode]
        omega
      all_goals
        cases h
        simp only [Selects, RegBitOp.opcode]
        omega

theorem binaryOp_opcode : ∀ k < 12, 4 ≤ k → k = (binaryOp k).opcode / 1024 := by
  decide

/-- The decoder gives an instruction only for a word with its bits. -/
theorem selects_of_decodeNat (hn : n < 65536) (h : decodeNat n ext = some i) : i.Selects n := by
  unfold decodeNat at h
  split at h
  case h_1 hlead => exact selects_of_decodeZero hlead h
  case h_2 hlead | h_3 hlead =>
    cases h
    exact binaryOp_opcode (n / 1024) (by omega) (by omega)
  case h_9 hlead | h_10 hlead =>
    split at h <;> cases h <;> simp only [Selects] <;> omega
  case h_11 hlead => exact selects_of_decodeNine hlead h
  case h_12 hlead =>
    split at h <;> cases h <;> exact ⟨hlead, ‹_›⟩
  case h_16 =>
    simp only [imp_false] at *
    exact selects_of_decodeFifteen (by omega) h
  all_goals
    cases h
    assumption

/-- A word that fits no diagram is not decoded. -/
theorem decode_of_unlisted {w : UInt16} (h : ∀ i : Instr, ¬ i.diagram.Fits w.toNat) (ext : UInt16) :
    decode w ext = none := by
  cases hdecode : decode w ext with
  | none => rfl
  | some i =>
    have hselects : i.Selects w.toNat := selects_of_decodeNat w.toNat_lt hdecode
    exact absurd ((fits_iff_selects i w.toNat_lt).mpr hselects) (h i)

/-- A word that fits a diagram is decoded to an instruction with that diagram. -/
theorem exists_decode_of_fits {w : UInt16} {i : Instr} (h : i.diagram.Fits w.toNat) (ext : UInt16) :
    ∃ j, decode w ext = some j ∧ j.diagram = i.diagram :=
  exists_decodeNat_of_selects ((fits_iff_selects i w.toNat_lt).mp h) ext.toNat

end Instr

/-! ## The core -/

namespace Machine

variable {m : Machine}

/-- A machine whose run was ended by a crash and that is otherwise as another, apart from the cycles it
counted and the entries it reported. -/
def CrashedFrom (m m' : Machine) : Prop :=
  m' = { m with run := .crashed, cycle := m'.cycle, journal := m'.journal }

theorem dispatch_of_decode_eq_none {w : UInt16} (h : ∀ ext, Instr.decode w ext = none) :
    m.dispatch w = (m.advanced w).illegal w := by
  have hshort : isLong w = false := by
    cases hlong : isLong w with
    | false => rfl
    | true =>
      obtain ⟨i, hdecode, -⟩ := Instr.encode_of_isLong hlong 0
      rw [h] at hdecode
      cases hdecode
  unfold dispatch fetchExtension
  simp only [hshort, h, Bool.false_eq_true, if_false]

/-- The word is stepped back over, so that the core ends in front of it. -/
theorem crashedFrom_illegal (m : Machine) (w : UInt16) : m.CrashedFrom ((m.advanced w).illegal w) := by
  obtain ⟨journal, htrace⟩ : ∃ journal, m.traceStep w = { m with journal } := ⟨_, traceStep_eq w⟩
  have hback : m.program + 2 - 2 = m.program := UInt32.add_sub_cancel m.program 2
  unfold CrashedFrom advanced
  rw [htrace]
  simp only [illegal, onCore, Core.crash, Core.report, hback]

theorem execute_of_unlisted (hrun : m.run = .running)
    (h : ∀ i : Instr, ¬ i.diagram.Fits m.currentWord.toNat) : m.CrashedFrom m.execute := by
  rw [execute_eq]
  split
  · rfl
  · split
    · rw [if_neg (not_not_intro hrun), dispatch_of_decode_eq_none (Instr.decode_of_unlisted h)]
      exact crashedFrom_illegal m _
    · rfl

theorem execute_of_decoded? {i : Instr} (hrun : m.run = .running) (hend : m.program ≤ m.codeEnd)
    (hflash : m.program.toNat + 1 < m.flash.size) (h : m.decoded? = some i) :
    m.execute = ((m.advanced m.currentWord).fetchExtension m.currentWord).2.perform i := by
  unfold decoded? at h
  rw [execute_eq, if_neg (UInt32.not_lt.mpr hend), if_pos hflash, if_neg (not_not_intro hrun)]
  unfold dispatch
  dsimp only
  rw [h]

/-- The core refuses exactly the words that fit no diagram. Then the run is over: no debugger is asked,
and the core stands in front of the word with its memories, its UART and the lines as they were. A word
that fits a diagram is taken for an instruction with that diagram, which is performed. -/
theorem opcodes_as_listed (m : Machine) (hrun : m.run = .running) :
    ((∀ i : Instr, ¬ i.diagram.Fits m.currentWord.toNat) →
      m.tick.2 = false ∧ m.step.run = .crashed ∧ m.step.program = m.program ∧
        m.step.data = m.data ∧ m.step.flash = m.flash ∧ m.step.uart = m.uart ∧
        m.step.wiring = m.wiring) ∧
    (∀ i : Instr, i.diagram.Fits m.currentWord.toNat →
      ∃ j, j.diagram = i.diagram ∧ m.decoded? = some j ∧
        (m.program ≤ m.codeEnd → m.program.toNat + 1 < m.flash.size →
          m.execute =
            ((m.advanced m.currentWord).fetchExtension m.currentWord).2.perform j)) := by
  constructor
  · intro hunlisted
    have hcrash := execute_of_unlisted hrun hunlisted
    have hended : m.execute.run = .crashed := by rw [hcrash]
    have htick : m.tick = (m.execute, false) := by
      rw [tick_of_active (by rw [hrun]; decide) (by rw [hrun]; decide) (by rw [hrun]; decide)]
      have hsettled : m.execute.settled = m.execute := if_neg (by rw [hended]; decide)
      rw [hsettled, hended]
      simp [RunState.isTerminal]
    have hstep : m.step = m.execute := congrArg Prod.fst htick
    rw [hstep, htick]
    refine ⟨rfl, hended, ?_, ?_, ?_, ?_, ?_⟩ <;> rw [hcrash]
  · intro i hfits
    obtain ⟨j, hdecode, hdiagram⟩ := Instr.exists_decode_of_fits hfits
      ((m.advanced m.currentWord).fetchExtension m.currentWord).1
    refine ⟨j, hdiagram, hdecode, fun hend hflash => ?_⟩
    exact execute_of_decoded? hrun hend hflash hdecode

/-- A machine in front of a word that differs in one bit from a load of program memory. -/
def stray : Machine where
  model := .atmega48
  data := (Memory.zeros 256).setSp 0xFF
  flash := (Memory.zeros 4).store 0 [0xE8, 0x95]
  codeEnd := 3
  journal := { threshold := none }
  wiring := {}

theorem stray_refused :
    stray.run = .running ∧ (∀ i : Instr, ¬ i.diagram.Fits stray.currentWord.toNat) ∧
      stray.step.run = .crashed ∧ stray.step.program = 0 ∧ stray.step.data = stray.data := by
  have hdecode : Instr.decode stray.currentWord 0 = none := by decide
  have hunlisted (i : Instr) : ¬ i.diagram.Fits stray.currentWord.toNat := by
    intro hfits
    obtain ⟨j, hsome, -⟩ := Instr.exists_decode_of_fits hfits 0
    rw [hdecode] at hsome
    cases hsome
  obtain ⟨-, hrun, hprogram, hdata, -⟩ := (opcodes_as_listed stray rfl).1 hunlisted
  exact ⟨rfl, hunlisted, hrun, hprogram, hdata⟩

end Machine

end AvrSim
