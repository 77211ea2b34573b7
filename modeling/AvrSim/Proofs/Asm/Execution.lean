import AvrSim.Proofs.Asm.Operands
import AvrSim.Proofs.Core.Access
import AvrSim.Proofs.Core.Phases
import AvrSim.Proofs.Isa.Coding

/-!
# Executing what was assembled

The words of an instruction are put into program memory low byte first. A core that stands in front of
them finds the instruction again, performs it behind its last word, and goes on there unless it is one
that jumps or skips.

* `execute_of_holds`: executing the words of an instruction is performing it.
* `program_perform`: only jumps and skips move the program counter.
* `execute_of_instruction`: what a statement means is what the core does with its words.
-/

namespace AvrSim

/-- Whether the core goes on behind the instruction in any case: it neither jumps nor skips. -/
def Instr.isSequential : Instr → Bool
  | .ret | .reti | .ijmp | .icall | .rjmp _ | .rcall _ | .jmp _ | .call _ | .branch _ _ _ => false
  | .binary .cpse _ _ => false
  | .ioBit .sbic _ _ | .ioBit .sbis _ _ => false
  | .regBit .sbrc _ _ | .regBit .sbrs _ _ => false
  | _ => true

theorem Instr.decode_words (instr : Instr) :
    decode (UInt16.ofNat instr.word) (instr.extension?.getD 0) = some instr := by
  apply instr.decode_word
  intro e he
  rw [he]
  rfl

namespace Machine

variable {m : Machine} {instr : Instr}

/-! ## Words in program memory -/

/-- Words stand in program memory from a byte address on, low bytes first. -/
def Holds (m : Machine) (pc : UInt32) : List UInt16 → Prop
  | [] => True
  | w :: words =>
    pc.toNat + 1 < m.flash.size ∧ m.flash.get pc.toNat = w.toUInt8 ∧
      m.flash.get (pc.toNat + 1) = (w >>> 8).toUInt8 ∧ Holds m (pc + 2) words

theorem word_of_bytes (w : UInt16) :
    w.toUInt8.toUInt16 ||| ((w >>> 8).toUInt8.toUInt16 <<< 8) = w := by
  have hw := w.toNat_lt
  apply UInt16.toNat_inj.mp
  have hhigh : (w.toNat >>> 8 % 256) <<< 8 % 65536 = (w.toNat / 256) <<< 8 := by
    rw [Nat.shiftRight_eq_div_pow, Nat.shiftLeft_eq, Nat.shiftLeft_eq]
    omega
  have hsum := Nat.shiftLeft_add_eq_or_of_lt (show w.toNat % 256 < 2 ^ 8 by omega) (w.toNat / 256)
  simp only [UInt16.toNat_or, UInt16.toNat_shiftLeft, UInt8.toNat_toUInt16, UInt16.toNat_toUInt8,
    UInt16.toNat_shiftRight]
  change w.toNat % 256 ||| (w.toNat >>> 8 % 256) <<< 8 % 65536 = w.toNat
  rw [hhigh, Nat.or_comm, ← hsum, Nat.shiftLeft_eq]
  omega

theorem sp_setSp {data : Memory} (h : sphAddress < data.size) (value : UInt16) :
    (data.setSp value).sp = value := by
  have hlow : splAddress < data.size := Nat.lt_trans (by decide) h
  have hne : ¬ sphAddress = splAddress := by decide
  unfold Memory.sp Memory.setSp Memory.getWord Memory.setWord
  simp only [Memory.get_set, Memory.size_set, h, hlow, hne, and_true, if_true, if_false]
  exact word_of_bytes value

theorem fetch_of_holds {pc : UInt32} {w : UInt16} {words : List UInt16}
    (h : m.Holds pc (w :: words)) : m.fetch pc = (w, m) := by
  obtain ⟨hsize, hlow, hhigh, -⟩ := h
  unfold fetch
  rw [if_pos hsize, hlow, hhigh, word_of_bytes]

/-! ## Behind an instruction -/

/-- The machine behind an instruction, with its first cycle spent. -/
def behind (instr : Instr) (m : Machine) : Machine :=
  let m := m.traceStep (UInt16.ofNat instr.word)
  { m with program := m.program + UInt32.ofNat instr.size, cycle := m.cycle + 1 }

theorem traceStep_eq (w : UInt16) :
    m.traceStep w = { m with journal := (m.traceStep w).journal } := by
  unfold traceStep
  split <;> rfl

theorem program_traceStep (w : UInt16) : (m.traceStep w).program = m.program := by
  rw [traceStep_eq]

theorem flash_traceStep (w : UInt16) : (m.traceStep w).flash = m.flash := by
  rw [traceStep_eq]

theorem program_behind : (m.behind instr).program = m.program + UInt32.ofNat instr.size :=
  congrArg (· + UInt32.ofNat instr.size) (program_traceStep _)

theorem data_behind : (m.behind instr).data = m.data := by
  unfold behind
  rw [traceStep_eq]

/-- The instruction at the program counter, as the core decodes it. -/
def decoded? (m : Machine) : Option Instr :=
  Instr.decode m.currentWord ((m.advanced m.currentWord).fetchExtension m.currentWord).1

theorem holds_advanced {pc : UInt32} {words : List UInt16} (w : UInt16) (h : m.Holds pc words) :
    (m.advanced w).Holds pc words := by
  induction words generalizing pc with
  | nil => trivial
  | cons v words ih =>
    obtain ⟨hsize, hlow, hhigh, hrest⟩ := h
    have hflash : (m.advanced w).flash = m.flash := flash_traceStep w
    refine ⟨?_, ?_, ?_, ih hrest⟩
    · rw [hflash]
      exact hsize
    · rw [hflash]
      exact hlow
    · rw [hflash]
      exact hhigh

/-- The core reads the second word of an instruction if there is one and then stands behind it. -/
theorem fetchExtension_of_holds (h : m.Holds m.program instr.encode) :
    (m.advanced (UInt16.ofNat instr.word)).fetchExtension (UInt16.ofNat instr.word) =
      (instr.extension?.getD 0, m.behind instr) := by
  have hlong := Instr.isLong_of_decode instr.decode_words
  have hsecond := holds_advanced (UInt16.ofNat instr.word) h.2.2.2
  have hprogram : (m.advanced (UInt16.ofNat instr.word)).program = m.program + 2 :=
    congrArg (· + 2) (program_traceStep _)
  -- Whether there is a second word is told by the first one alone.
  unfold fetchExtension
  cases hext : instr.extension? with
  | none =>
    rw [hext] at hlong
    rw [if_neg (by simp [hlong])]
    simp [behind, advanced, Instr.size, hext]
  | some e =>
    rw [hext, Option.isSome_some] at hlong
    rw [hext] at hsecond
    rw [if_pos hlong, hprogram, fetch_of_holds hsecond]
    simp [behind, advanced, Instr.size, hext, UInt32.add_assoc]

theorem currentWord_of_holds {w : UInt16} {words : List UInt16}
    (h : m.Holds m.program (w :: words)) : m.currentWord = w := by
  obtain ⟨-, hlow, hhigh, -⟩ := h
  unfold currentWord
  rw [hlow, hhigh, word_of_bytes]

theorem decoded?_of_holds (h : m.Holds m.program instr.encode) : m.decoded? = some instr := by
  unfold decoded?
  rw [currentWord_of_holds h, fetchExtension_of_holds h]
  exact instr.decode_words

theorem execute_of_holds (hrun : m.run = .running) (hend : ¬ m.codeEnd < m.program)
    (h : m.Holds m.program instr.encode) : m.execute = (m.behind instr).perform instr := by
  have hdecoded := decoded?_of_holds h
  unfold decoded? at hdecoded
  rw [execute_eq, if_neg hend, if_pos h.1, if_neg (not_not_intro hrun)]
  unfold dispatch
  rw [currentWord_of_holds h, fetchExtension_of_holds h] at hdecoded ⊢
  dsimp only at hdecoded ⊢
  rw [hdecoded]

/-! ## Jumps and skips -/

@[simp] theorem program_onData (f : Memory → Memory) : (m.onData f).program = m.program := rfl

@[simp] theorem program_spend (n : UInt64) : (m.spend n).program = m.program := rfl

@[simp] theorem program_load (d : Nat) (result : UInt8 × Machine) :
    (load d result).program = result.2.program := rfl

@[simp] theorem program_read (address : UInt16) : (m.read address).2.program = m.program :=
  (access_read m address).program

@[simp] theorem program_write (address : UInt16) (value : UInt8) :
    (m.write address value).program = m.program :=
  (access_write m address value).program

@[simp] theorem program_push (value : UInt8) : (m.push value).program = m.program :=
  (access_push m value).program

@[simp] theorem program_pop : m.pop.2.program = m.program := (access_pop m).program

@[simp] theorem program_programByte (address : UInt16) :
    (m.programByte address).2.program = m.program := by
  unfold programByte
  dsimp only
  split <;> rfl

@[simp] theorem program_indirectAddress (mode : Indirect) :
    (m.indirectAddress mode).2.program = m.program := by
  cases mode <;> rfl

theorem program_sleep : m.sleep.program = m.program := by
  unfold sleep
  split <;> rfl

/-- Only jumps and skips move the program counter. -/
theorem program_perform (h : instr.isSequential) : (m.perform instr).program = m.program := by
  cases instr with
  | sleep => exact program_sleep
  | breakpoint =>
    dsimp only [perform]
    split <;> rfl
  | binary op d r =>
    cases op with
    | cpse => cases h
    | _ => simp [perform]
  | lpm d inc =>
    dsimp only [perform]
    split <;> simp
  | bset s =>
    dsimp only [perform]
    split <;> rfl
  | ioBit op a b =>
    cases op with
    | cbi => simp [perform, performIoBit]
    | sbi => simp [perform, performIoBit]
    | sbic => cases h
    | sbis => cases h
  | regBit op r b =>
    cases op with
    | bld => simp [perform, performRegBit]
    | bst => simp [perform, performRegBit]
    | sbrc => cases h
    | sbrs => cases h
  | ret => cases h
  | reti => cases h
  | ijmp => cases h
  | icall => cases h
  | rjmp => cases h
  | rcall => cases h
  | jmp => cases h
  | call => cases h
  | branch => cases h
  | _ => simp [perform]

end Machine

namespace Asm

/-- The words of a statement are executed as what the statement means. The core decodes them to the
instruction with the operands that the statement names, performs it behind its last word, and goes on
there, as far as the mnemonic announced, unless it jumps or skips. -/
theorem execute_of_instruction {symbols : Symbols} {address : UInt32} {position : Position}
    {name : String} {mnemonic : Mnemonic} {operands : List Token} {instr : Instr} {m : Machine}
    (hname : (name, mnemonic) ∈ Mnemonic.table)
    (hinstr : instruction symbols address position mnemonic operands = .ok instr)
    (hrun : m.run = .running) (hend : m.program ≤ m.codeEnd)
    (hholds : m.Holds m.program instr.encode) :
    Stands symbols address mnemonic operands instr ∧ m.decoded? = some instr ∧
      m.execute = (m.behind instr).perform instr ∧
      (instr.isSequential → m.execute.program = m.program + UInt32.ofNat mnemonic.size) := by
  have hstands := stands_of_instruction hinstr
  have hexecute := Machine.execute_of_holds hrun (UInt32.not_lt.mpr hend) hholds
  refine ⟨hstands, Machine.decoded?_of_holds hholds, hexecute, fun hsequential => ?_⟩
  calc m.execute.program
    _ = (m.behind instr).program := by rw [hexecute, Machine.program_perform hsequential]
    _ = m.program + UInt32.ofNat instr.size := Machine.program_behind
    _ = m.program + UInt32.ofNat mnemonic.size := by rw [size_of_stands hname hstands]

/-- A machine whose program is one load with displacement. -/
def loader : Machine where
  model := .atmega48
  data := Memory.zeros 256
  flash := (Memory.zeros 4).store 0 [0x1D, 0xA1]
  codeEnd := 3
  journal := { threshold := none }
  wiring := {}

/-- The operands `r17` and `Y+37`. -/
def loaded : List Token :=
  [⟨.identifier, ⟨1, 5, 4, 3, 0⟩, [0x72, 0x31, 0x37]⟩,
    ⟨.pointer, ⟨1, 10, 9, 4, 0⟩, [0x59, 0x2B, 0x33, 0x37]⟩]

theorem execute_loader :
    instruction ∅ 0 ⟨1, 1, 0, 3, 0⟩ .load loaded = .ok (.ldd 17 true 37) ∧
      Stands ∅ 0 .load loaded (.ldd 17 true 37) ∧ loader.decoded? = some (.ldd 17 true 37) ∧
      loader.execute = (loader.behind (.ldd 17 true 37)).perform (.ldd 17 true 37) ∧
      loader.execute.program = 2 := by
  have hinstr : instruction ∅ 0 ⟨1, 1, 0, 3, 0⟩ .load loaded = .ok (.ldd 17 true 37) :=
    rfl
  have hname : ("ldd", Mnemonic.load) ∈ Mnemonic.table := by decide
  have hholds : loader.Holds loader.program (Instr.ldd 17 true 37).encode :=
    ⟨by decide, by decide, by decide, trivial⟩
  obtain ⟨hstands, hdecoded, hexecute, hprogram⟩ :=
    execute_of_instruction hname hinstr rfl (by decide) hholds
  exact ⟨hinstr, hstands, hdecoded, hexecute, hprogram rfl⟩

end Asm

end AvrSim
