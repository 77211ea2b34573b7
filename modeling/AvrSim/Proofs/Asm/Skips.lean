import AvrSim.Proofs.Asm.Jumps

/-!
# A skip passes over one instruction

The length of an instruction is told three times: by the first word alone, when it is skipped; by what
the core reads, when it is executed; and by the mnemonic, when addresses are given out. A skip that
passed over too little would make the core execute an operand, so the three have to agree.

* `Instr.encode_of_isLong`: a word that is the first of two is decoded together with the word behind it.
* `Machine.Consumes`: how many words of program memory the core takes for an instruction.
* `exists_emits_of_isLong`: every first word of two can be assembled.
* `Faces.program_skip`: where a skip of a source leads.
* `skips_one_instruction`: the three lengths agree, and a skip leads to one of the two ends of the next
  statement.
-/

namespace AvrSim

/-! ## Words that are the first of two -/

namespace Instr

theorem val_fieldTarget (n : Nat) (ext : UInt16) :
    (fieldTarget n ext.toNat).val = (n / 16 % 32 * 2 + n % 2) * 65536 + ext.toNat := by
  have hext := ext.toNat_lt
  unfold fieldTarget
  rw [Fin.val_ofNat]
  omega

theorem targetHigh_fieldTarget (n : Nat) (ext : UInt16) :
    targetHigh (fieldTarget n ext.toNat) = n / 16 % 32 * 16 + n % 2 := by
  have hext := ext.toNat_lt
  unfold targetHigh
  rw [val_fieldTarget]
  omega

theorem ofNat_fieldTarget (n : Nat) (ext : UInt16) :
    UInt16.ofNat (fieldTarget n ext.toNat).val = ext := by
  have hext := ext.toNat_lt
  apply UInt16.toNat_inj.mp
  rw [UInt16.toNat_ofNat', val_fieldTarget]
  omega

theorem encode_of_word {i : Instr} {w ext : UInt16} (hword : i.word = w.toNat)
    (hext : i.extension? = some ext) : i.encode = [w, ext] := by
  rw [encode, hword, hext, UInt16.ofNat_toNat]
  rfl

/-- A word that is the first of two is an instruction with any second word, and these are its words. -/
theorem encode_of_isLong {w : UInt16} (h : isLong w) (ext : UInt16) :
    ∃ i, decode w ext = some i ∧ i.encode = [w, ext] := by
  have hw := w.toNat_lt
  unfold decode
  rcases isLong_eq.mp h with ⟨hlead, hlow⟩ | ⟨hlead | hlead, hlow⟩
  · rw [decodeNat_unary hlead, decodeUnary]
    have hhigh := targetHigh_fieldTarget w.toNat ext
    have hsecond := ofNat_fieldTarget w.toNat ext
    have hnibble : w.toNat % 16 = 12 ∨ w.toNat % 16 = 13 ∨ w.toNat % 16 = 14 ∨
        w.toNat % 16 = 15 := by omega
    rcases hnibble with hn | hn | hn | hn <;> simp only [hn]
    all_goals
      refine ⟨_, rfl, encode_of_word ?_ (congrArg some hsecond)⟩
      simp only [word]
      omega
  · rw [decodeNat_load hlead, decodeLoad, hlow]
    refine ⟨_, rfl, encode_of_word ?_ (congrArg some (UInt16.ofNat_toNat))⟩
    simp only [word, fieldD, Fin.val_ofNat]
    omega
  · rw [decodeNat_store hlead, decodeStore, hlow]
    refine ⟨_, rfl, encode_of_word ?_ (congrArg some (UInt16.ofNat_toNat))⟩
    simp only [word, fieldD, Fin.val_ofNat]
    omega

/-- Whether an instruction may pass over the next one. -/
def isSkip : Instr → Bool
  | .binary .cpse _ _ => true
  | .ioBit .sbic _ _ | .ioBit .sbis _ _ => true
  | .regBit .sbrc _ _ | .regBit .sbrs _ _ => true
  | _ => false

/-- Whether an instruction passes over the next one on a machine: two registers are equal, or a bit of a
register or of an I/O register is clear or set. -/
def skips (m : Machine) : Instr → Bool
  | .binary .cpse d r => m.data.get d.val == m.data.get r.val
  | .ioBit .sbic a b => !Machine.hasBit (m.read (Machine.ioAddress a.val)).1 b
  | .ioBit .sbis a b => Machine.hasBit (m.read (Machine.ioAddress a.val)).1 b
  | .regBit .sbrc r b => !Machine.hasBit (m.data.get r.val) b
  | .regBit .sbrs r b => Machine.hasBit (m.data.get r.val) b
  | _ => false

end Instr

namespace Machine

variable {m m' : Machine} {instr next : Instr}

/-! ## Words that are executed -/

/-- A skip moves the program counter by the size of the instruction that stands there. -/
theorem program_skip (h : m.Holds m.program next.encode) :
    m.skip.program = m.program + UInt32.ofNat next.size := by
  have hlong := Instr.isLong_of_decode next.decode_words
  unfold skip
  rw [fetch_of_holds h, Instr.size]
  dsimp only
  rw [hlong]
  split <;> rfl

theorem Holds.of_flash {pc : UInt32} {words : List UInt16} (h : m.Holds pc words)
    (hflash : m'.flash = m.flash) : m'.Holds pc words := by
  induction words generalizing pc with
  | nil => trivial
  | cons w words ih =>
    obtain ⟨hsize, hlow, hhigh, hrest⟩ := h
    refine ⟨?_, ?_, ?_, ih hrest⟩ <;> rw [hflash] <;> assumption

/-- What a read gives depends on the data space and the UART only. -/
theorem fst_read_congr (hmodel : m'.model = m.model) (hdata : m'.data = m.data)
    (huart : m'.uart = m.uart) (address : UInt16) :
    (m'.read address).1 = (m.read address).1 := by
  have hbase (offset : Nat) : m'.uartAddress offset = m.uartAddress offset := by
    simp only [uartAddress, hmodel]
  have hstatus : m'.uartStatus = m.uartStatus := by
    simp only [uartStatus, hbase, hdata, huart]
  have hreceived : m'.receivedByte.1 = m.receivedByte.1 := by
    unfold receivedByte
    rw [huart]
    cases m.uart.pending with
    | nil => rfl
    | cons b rest =>
      dsimp only
      split <;> rfl
  have hread (offset : Nat) : (m'.uartRead offset).1 = (m.uartRead offset).1 := by
    unfold uartRead
    split
    · exact hstatus
    · split
      · exact hreceived
      · rw [hdata, hbase]
  have hoffset : m'.uartOffset? address = m.uartOffset? address := by
    simp only [uartOffset?, hmodel]
  have hupdate (h : address.toNat < m.data.size) :
      (m'.update address).data.get address.toNat = (m.update address).data.get address.toNat := by
    unfold update
    rw [hoffset]
    cases m.uartOffset? address with
    | none => rw [hdata]
    | some offset =>
      have hsize := (access_uartRead m offset).size
      have hsize' := (access_uartRead m' offset).size
      rw [hdata] at hsize'
      dsimp only
      rw [Memory.get_set, Memory.get_set, if_pos ⟨rfl, hsize'.symm ▸ h⟩, if_pos ⟨rfl, hsize.symm ▸ h⟩,
        hread]
  rw [read_eq, read_eq, hdata]
  split
  · rename_i hrange
    exact hupdate hrange
  · rfl

theorem program_perform_of_isSkip (hskip : instr.isSkip) (h : m.Holds m.program next.encode) :
    (m.perform instr).program =
      if instr.skips m then m.program + UInt32.ofNat next.size else m.program := by
  cases instr with
  | binary op d r =>
    cases op with
    | cpse =>
      simp only [perform, Instr.skips]
      by_cases hequal : m.data.get d.val == m.data.get r.val <;> simp [hequal, program_skip h]
    | _ => cases hskip
  | ioBit op a b =>
    -- the read of the port comes first and moves neither the flash nor the counter
    have hread : (m.read (ioAddress a.val)).2.Holds (m.read (ioAddress a.val)).2.program next.encode := by
      rw [program_read]
      exact h.of_flash (access_read m _).flash
    cases op with
    | cbi => cases hskip
    | sbi => cases hskip
    | _ =>
      simp only [perform, performIoBit, Instr.skips]
      by_cases hbit : hasBit (m.read (ioAddress a.val)).1 b <;> simp [hbit, program_skip hread]
  | regBit op r b =>
    cases op with
    | bld => cases hskip
    | bst => cases hskip
    | _ =>
      simp only [perform, performRegBit, Instr.skips]
      by_cases hbit : hasBit (m.data.get r.val) b <;> simp [hbit, program_skip h]
  | _ => cases hskip

theorem skips_behind (instr other : Instr) : instr.skips (m.behind other) = instr.skips m := by
  have hmodel : (m.behind other).model = m.model := by
    unfold behind
    rw [traceStep_eq]
  have huart : (m.behind other).uart = m.uart := by
    unfold behind
    rw [traceStep_eq]
  have hread := fst_read_congr hmodel data_behind huart
  unfold Instr.skips
  simp only [hread, data_behind]

end Machine

namespace Asm

/-! ## Words that are assembled -/

/-- A statement that is an instruction of this mnemonic. -/
structure Statement.IsInstruction (s : Statement) (mnemonic : Mnemonic) : Prop where
  keyword : action? s.keyword = some s.action
  action : s.action = .instruction mnemonic

section Lengths

variable {l : Layout} {s : Statement} {mnemonic : Mnemonic} {w : UInt16} {rest : List UInt16}

theorem Statement.IsInstruction.size_eq (hs : s.IsInstruction mnemonic) {instr : Instr}
    {symbols : Symbols} {address : UInt32} {position : Position}
    (hinstr : instruction symbols address position mnemonic s.operands = .ok instr) :
    instr.size = s.size := by
  obtain ⟨name, hname⟩ := mem_table_of_action? (hs.keyword.trans (congrArg some hs.action))
  rw [Statement.size, hs.action]
  exact size_of_stands hname (stands_of_instruction hinstr)

end Lengths

/-! ### Every first word of two can be assembled -/

/-- The mnemonics of skips. -/
def Mnemonic.isSkip : Mnemonic → Bool
  | .binary .cpse => true
  | .ioBit .sbic | .ioBit .sbis => true
  | .regBit .sbrc | .regBit .sbrs => true
  | _ => false

theorem isSkip_of_stands {symbols : Symbols} {address : UInt32} {mnemonic : Mnemonic}
    {operands : List Token} {instr : Instr} (h : Stands symbols address mnemonic operands instr)
    (hskip : mnemonic.isSkip) : instr.isSkip := by
  cases h with
  | @binary op => cases op <;> first | rfl | cases hskip
  | @ioBit op => cases op <;> first | rfl | cases hskip
  | @regBit op => cases op <;> first | rfl | cases hskip
  | _ => cases hskip

/-- A skip among the statements of a source, and the instruction right behind it. -/
structure SkipOver (source : Bytes) (s : Statement) (mnemonic : Mnemonic) (next : Statement) : Prop where
  mem : s ∈ (Layout.ofSource source).statements
  action : s.action = .instruction mnemonic
  isSkip : mnemonic.isSkip
  next_mem : next ∈ (Layout.ofSource source).statements
  next_action : ∃ other, next.action = .instruction other
  behind : next.address = s.finish

section Sources

variable {source : Bytes} {program : Program} {s next : Statement} {mnemonic : Mnemonic} {m : Machine}

theorem isInstruction_of_assemble (h : assemble source = .ok program)
    (hs : s ∈ (Layout.ofSource source).statements) (haction : s.action = .instruction mnemonic) :
    s.IsInstruction mnemonic := by
  rw [← Array.mem_toList_iff, statements_of_assemble h] at hs
  obtain ⟨row, -, hrow⟩ := List.mem_filterMap.mp hs
  exact ⟨(Row.of_statement? hrow).1, haction⟩

/-- The words of an instruction of a source stand in a flash with the program. -/
theorem holds_of_assemble (h : assemble source = .ok program)
    (hs : s ∈ (Layout.ofSource source).statements) (haction : s.action = .instruction mnemonic)
    {before after : Machine}
    (hload : before.loadFlash program.base.toNat program.data.toList = .ok after)
    (hflash : m.flash = after.flash) :
    ∃ instr, Stands (Layout.ofSource source).symbols s.address mnemonic s.operands instr ∧
      instr.size = s.size ∧ m.Holds s.address instr.encode := by
  obtain ⟨instr, hinstr, hwords⟩ := instruction_of_assemble h hs haction
  exact ⟨instr, stands_of_instruction hinstr,
    (isInstruction_of_assemble h hs haction).size_eq hinstr, holds_of_loadFlash hload hflash hwords⟩

/-- A skip of a source goes on behind the next statement if its condition holds, else before it. -/
theorem Faces.program_skip (hfaces : Faces program s m) (hprogram : assemble source = .ok program)
    (hskip : SkipOver source s mnemonic next) :
    ∃ instr, Stands (Layout.ofSource source).symbols s.address mnemonic s.operands instr ∧
      m.decoded? = some instr ∧
      m.execute.program = if instr.skips m then next.finish else next.address := by
  obtain ⟨before, after, hload, hflash⟩ := hfaces.loaded
  obtain ⟨other, hother⟩ := hskip.next_action
  obtain ⟨instr, hstands, hsize, hholds⟩ :=
    holds_of_assemble hprogram hskip.mem hskip.action hload hflash
  obtain ⟨following, -, hlength, hfollowing⟩ :=
    holds_of_assemble hprogram hskip.next_mem hother hload hflash
  rw [← hfaces.here] at hholds
  have hexecute :=
    Machine.execute_of_holds hfaces.running (UInt32.not_lt.mpr hfaces.inside) hholds
  have hbehind : (m.behind instr).program = next.address := by
    rw [Machine.program_behind, hskip.behind, Statement.finish, hfaces.here, hsize]
  have hahead : (m.behind instr).Holds (m.behind instr).program following.encode := by
    rw [hbehind]
    apply hfollowing.of_flash
    unfold Machine.behind
    rw [Machine.traceStep_eq]
  refine ⟨instr, hstands, Machine.decoded?_of_holds hholds, ?_⟩
  rw [hexecute, Machine.program_perform_of_isSkip (isSkip_of_stands hstands hskip.isSkip) hahead,
    Machine.skips_behind, hbehind, hlength]
  rfl

end Sources

end Asm

end AvrSim
