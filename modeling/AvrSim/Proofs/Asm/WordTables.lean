import AvrSim.Proofs.Core.Stack
import AvrSim.Proofs.Uart.Transmission

/-!
# Tables of words

`.word` puts the values of its operands into memory. A label stands for its word address, which is what an
indirect jump wants to find in `Z`; anything else stands for its value, which must fit into 16 bits. Word
addresses of the lower 128 KiB fit too. No one asks whether the address of a label does, so that of a
label beyond them only the low 16 bits are left, and an indirect jump goes astray.

* `get_pushAddress`: a call keeps the registers that it does not push into.
* `program_of_jumpsBy`: where an indirect jump goes.
* `wordValue_label` and `wordValue_value`: the word of an operand.
* `word_operands`: the words of a source that has a program, and the operands for which there is none.
-/

namespace AvrSim

/-! ## Indirect jumps -/

namespace Machine

variable {m : Machine} {x : Nat}

theorem get_refreshStatus (hx : x ≠ m.uartAddress ucsra) :
    m.refreshStatus.data.get x = m.data.get x := by
  unfold refreshStatus
  rw [Memory.get_set, if_neg fun h => hx h.1.symm]

/-- What a write to a UART register does beyond storing the byte changes at most the status. -/
theorem get_uartWrite (hx : x ≠ m.uartAddress ucsra) (offset : Nat) (value : UInt8) :
    (m.uartWrite offset value).data.get x = m.data.get x := by
  unfold uartWrite
  split
  · dsimp only
    split
    · exact get_refreshStatus hx
    · exact get_refreshStatus hx
  · split
    · unfold reportRate
      dsimp only
      split <;> rfl
    · split
      · exact get_send m value hx
      · rfl

theorem get_write {address : UInt16} (hx : x ≠ address.toNat) (hstatus : x ≠ m.uartAddress ucsra)
    (value : UInt8) : (m.write address value).data.get x = m.data.get x := by
  have hset : (m.data.set address.toNat value).get x = m.data.get x := by
    rw [Memory.get_set, if_neg fun h => hx h.1.symm]
  have hnote (k : Machine) (n : Note) : (k.onCore (·.noteAccess n)).data = k.data := by
    unfold onCore Core.noteAccess
    dsimp only
    split <;> rfl
  unfold write
  split
  · dsimp only
    rw [hnote]
    split
    · exact hset
    · rw [get_uartWrite (m := { m with data := m.data.set address.toNat value }) hstatus]
      exact hset
  · rfl

theorem get_push (hx : x ≠ m.data.sp.toNat) (hstatus : x ≠ m.uartAddress ucsra)
    (hlow : x ≠ splAddress) (hhigh : x ≠ sphAddress) (value : UInt8) :
    (m.push value).data.get x = m.data.get x := by
  have hpush : (m.push value).data = (m.write m.data.sp value).data.setSp (m.data.sp - 1) := rfl
  rw [hpush, get_setSp_of_ne hlow hhigh, get_write hx hstatus]

/-- The next two bytes are not pushed into the register. -/
def SparesRegister (m : Machine) (r : Nat) : Prop :=
  r ≠ m.data.sp.toNat ∧ r ≠ (m.data.sp - 1).toNat

theorem uart_above_registers : ∀ part ∈ Model.all, 32 ≤ part.uart.base.toNat := by decide

theorem get_pushAddress (h : m.Housed) {r : Nat} (hr : r < 32) (hspares : m.SparesRegister r)
    (word : UInt32) : (m.pushAddress word).data.get r = m.data.get r := by
  have hbase := uart_above_registers m.model h.model
  have haccess := access_push m word.toUInt8
  have hstatus (k : Machine) (hmodel : k.model = m.model) : r ≠ k.uartAddress ucsra := by
    unfold uartAddress
    rw [hmodel]
    omega
  have hlow : r ≠ splAddress := by simp only [splAddress]; omega
  have hhigh : r ≠ sphAddress := by simp only [sphAddress]; omega
  unfold pushAddress
  rw [get_push _ (hstatus _ haccess.model) hlow hhigh, get_push hspares.1 (hstatus m rfl) hlow hhigh]
  rw [sp_push (Nat.lt_of_lt_of_le (by decide) h.room)]
  exact hspares.2

/-- The core comes to an indirect jump or call with a word in `Z`. A call does not push into `Z`. -/
structure JumpsBy (w : UInt16) (m : Machine) : Prop where
  z : m.data.pair 30 = w
  meets : m.Meets .ijmp ∨
    m.Meets .icall ∧ m.Housed ∧ m.SparesRegister 30 ∧ m.SparesRegister 31

theorem toNat_indirectTarget (w : UInt16) : (w.toUInt32 <<< 1).toNat = 2 * w.toNat := by
  have hw := w.toNat_lt
  have hone : (1 : UInt32).toNat % 32 = 1 := by decide
  rw [UInt32.toNat_shiftLeft, UInt16.toNat_toUInt32, Nat.shiftLeft_eq, hone]
  omega

theorem program_of_jumpsBy {w : UInt16} (h : m.JumpsBy w) : m.execute.program.toNat = 2 * w.toNat := by
  obtain ⟨hz, hmeets | ⟨hmeets, hhoused, hlow, hhigh⟩⟩ := h
  · rw [execute_of_holds hmeets.running (UInt32.not_lt.mpr hmeets.inside) hmeets.holds, perform, spend,
      goto, data_behind, hz]
    exact toNat_indirectTarget w
  · have hz' : ((m.behind .icall).pushAddress (m.behind .icall).returnAddress).data.pair 30 = w := by
      have hdata : (m.behind .icall).data = m.data := data_behind
      have hhoused' : (m.behind .icall).Housed := grows_behind.toSameHouse.housed hhoused
      have hspares {r : Nat} (hr : m.SparesRegister r) : (m.behind .icall).SparesRegister r := by
        unfold SparesRegister
        rw [hdata]
        exact hr
      rw [← hz]
      unfold Memory.pair Memory.getWord
      rw [get_pushAddress hhoused' (by decide) (hspares hlow),
        get_pushAddress hhoused' (by decide) (hspares hhigh), hdata]
    rw [execute_of_holds hmeets.running (UInt32.not_lt.mpr hmeets.inside) hmeets.holds, perform, spend,
      goto, hz']
    exact toNat_indirectTarget w

end Machine

namespace Asm

/-! ## The word of an operand -/

/-- The operand is the name of a label. -/
def NamesLabel (labels : Std.HashMap Bytes UInt32) (operand : Token) (address : UInt32) : Prop :=
  operand.kind = .identifier ∧ labels[operand.text]? = some address

section Operands

variable {l : Layout} {operand : Token} {address : UInt32} {v : Int}

theorem wordValue_label (h : NamesLabel l.labels operand address) :
    l.wordValue operand = .ok (UInt16.ofNat (address.toNat / 2)) := by
  unfold Layout.wordValue
  rw [if_pos h.1, h.2]

theorem wordValue_value (h : ∀ address, ¬ NamesLabel l.labels operand address) :
    l.wordValue operand = (l.symbols.value operand (-0x8000) 0xFFFF).map UInt16.ofInt := by
  have hnone : (if operand.kind = .identifier then l.labels[operand.text]? else none) = none := by
    split
    · rename_i hkind
      rw [Option.eq_none_iff_forall_ne_some]
      exact fun address hlabel => h address ⟨hkind, hlabel⟩
    · rfl
  unfold Layout.wordValue
  rw [hnone]

theorem toNat_ofInt (v : Int) : ((UInt16.ofInt v).toNat : Int) = v % 2 ^ 16 := by
  rw [UInt16.ofInt, UInt16.toNat_ofNat']
  omega

theorem wordValue_of_out (h : ∀ address, ¬ NamesLabel l.labels operand address)
    (hv : l.symbols.rawValue operand = .ok v) (hout : ¬ (-0x8000 ≤ v ∧ v ≤ 0xFFFF)) :
    l.wordValue operand = .error [.outOfRange operand.position (-0x8000) 0xFFFF v] := by
  have hvalue : l.symbols.value operand (-0x8000) 0xFFFF =
      .error [.outOfRange operand.position (-0x8000) 0xFFFF v] := by
    unfold Symbols.value
    rw [hv]
    dsimp only
    rw [if_pos (by omega)]
  rw [wordValue_value h, hvalue]
  rfl

end Operands

/-! ## Words of a source -/

/-- An operand of `.word` among the statements of a source. -/
structure WordOperand (source : Bytes) (s : Statement) (i : Nat) (operand : Token) : Prop where
  mem : s ∈ (Layout.ofSource source).statements
  action : s.action = .words
  operand : s.operands[i]? = some operand

theorem Layout.aligned_rows {state : Layout × LineStart} (h : state.1.Aligned) (lines : List Bytes) :
    ∀ row ∈ rows state lines, Asm.Aligned row.address := by
  induction lines generalizing state with
  | nil => exact nofun
  | cons text rest ih =>
    rw [rows, List.forall_mem_cons]
    exact ⟨h.next, ih (aligned_line h state.2 text)⟩

section Sources

variable {source : Bytes} {program : Program} {s : Statement} {i : Nat} {operand : Token}

theorem aligned_label_of_assemble (h : assemble source = .ok program) {name : Bytes}
    {address : UInt32} (hlabel : program.labels[name]? = some address) : Aligned address := by
  obtain ⟨row, hrow, -, rfl⟩ := (labels_of_assemble h name address).mp hlabel
  have hstart : ({} : Layout).Aligned := ⟨rfl, by simp⟩
  exact Layout.aligned_rows hstart _ row hrow

theorem WordOperand.mem_items (h : WordOperand source s i operand) :
    (s.address + UInt32.ofNat (2 * i), (Layout.ofSource source).wordValue operand) ∈
      s.items (Layout.ofSource source) := by
  rw [Statement.items, h.action]
  refine mem_placed_iff.mpr ⟨i, ?_, rfl⟩
  rw [List.getElem?_map, h.operand]
  rfl

theorem WordOperand.exists_holds (h : WordOperand source s i operand)
    (hprogram : assemble source = .ok program) :
    ∃ w, (Layout.ofSource source).wordValue operand = .ok w ∧
      program.Holds (s.address + UInt32.ofNat (2 * i)).toNat w := by
  obtain ⟨-, -, -, hsound, hshows⟩ := shows_of_assemble hprogram
  have hmem := List.mem_flatMap.mpr ⟨s, Array.mem_toList_iff.mpr h.mem, h.mem_items⟩
  obtain ⟨w, hw⟩ := hsound _ hmem
  refine ⟨w, hw, hshows.words _ _ ?_⟩
  rw [← hw]
  exact hmem

/-- The word of a label is the low half of its word address, and that is all of it exactly for the lower
128 KiB. Then, and only then, an indirect jump by the word goes to the label. -/
theorem jumps_of_label {address : UInt32} (heven : Aligned address) {w : UInt16}
    (hw : w = UInt16.ofNat (address.toNat / 2)) :
    w.toNat = address.toNat / 2 % 2 ^ 16 ∧
      (w.toNat = address.toNat / 2 ↔ address.toNat < 2 ^ 17) ∧
      ∀ m : Machine, m.JumpsBy w → (m.execute.program = address ↔ address.toNat < 2 ^ 17) := by
  have hvalue : w.toNat = address.toNat / 2 % 2 ^ 16 := by rw [hw, UInt16.toNat_ofNat']
  unfold Aligned at heven
  refine ⟨hvalue, by omega, fun m hm => ?_⟩
  rw [← UInt32.toNat_inj, Machine.program_of_jumpsBy hm]
  omega

/-- Each operand of `.word` in a source that has a program has its word there. A label gives the low 16
bits of its word address: the whole of it, and with it the way of an indirect jump to the label, only in
the lower 128 KiB. Any other operand has a value that fits into 16 bits with or without a sign, and gives
that. An operand that is no label and has a value that does not fit is not assembled: it is reported as
out of range, unless the first pass found errors. -/
theorem word_operands (h : WordOperand source s i operand) :
    (∀ program, assemble source = .ok program →
      ∃ w, program.Holds (s.address + UInt32.ofNat (2 * i)).toNat w ∧
        (∀ address, NamesLabel program.labels operand address →
          w.toNat = address.toNat / 2 % 2 ^ 16 ∧
          (w.toNat = address.toNat / 2 ↔ address.toNat < 2 ^ 17) ∧
          ∀ m : Machine, m.JumpsBy w → (m.execute.program = address ↔ address.toNat < 2 ^ 17)) ∧
        ((∀ address, ¬ NamesLabel program.labels operand address) →
          ∃ v : Int, (Layout.ofSource source).symbols.rawValue operand = .ok v ∧
            -0x8000 ≤ v ∧ v ≤ 0xFFFF ∧ (w.toNat : Int) = v % 2 ^ 16)) ∧
    ∀ v : Int, (∀ address, ¬ NamesLabel (Layout.ofSource source).labels operand address) →
      (Layout.ofSource source).symbols.rawValue operand = .ok v → ¬ (-0x8000 ≤ v ∧ v ≤ 0xFFFF) →
      ∃ errors, assemble source = .error errors ∧
        ((Layout.ofSource source).errors = #[] →
          .outOfRange operand.position (-0x8000) 0xFFFF v ∈ errors) := by
  constructor
  · intro program hprogram
    obtain ⟨w, hw, hholds⟩ := h.exists_holds hprogram
    have hlabels : program.labels = (Layout.ofSource source).labels := (shows_of_assemble hprogram).2.1
    refine ⟨w, hholds, fun address hlabel => ?_, fun hplain => ?_⟩
    · have heven := aligned_label_of_assemble hprogram hlabel.2
      rw [hlabels] at hlabel
      rw [wordValue_label hlabel] at hw
      exact jumps_of_label heven (Except.ok.inj hw).symm
    · rw [hlabels] at hplain
      rw [wordValue_value hplain] at hw
      obtain ⟨v, hv, rfl⟩ := Checked.of_map_eq_ok hw
      obtain ⟨hraw, hlow, hhigh⟩ := of_value_eq_ok hv
      exact ⟨v, hraw, hlow, hhigh, toNat_ofInt v⟩
  · intro v hplain hv hout
    have hitem := h.mem_items
    rw [wordValue_of_out hplain hv hout] at hitem
    exact error_of_item h.mem hitem (List.mem_singleton_self _)

end Sources

/-- A table with one entry, which is its own label. -/
def tableSource (origin : String) : Bytes := Bytes.ofString (".org " ++ origin ++ "\nhere: .word here\n")

/-- The label of the table. -/
def tableLabel : Token := ⟨.identifier, ⟨2, 1, 13, 4, 13⟩, Bytes.ofString "here"⟩

/-- The entry of the table. -/
def tableOperand : Token := ⟨.identifier, ⟨2, 13, 25, 4, 13⟩, Bytes.ofString "here"⟩

/-- The statement of the table. -/
def tableStatement (address : UInt32) : Statement :=
  ⟨⟨.directive, ⟨2, 7, 19, 5, 13⟩, Bytes.ofString ".word"⟩, [tableOperand], address, .words⟩

/-- The layout of the table. -/
def tableLayout (address : UInt32) : Layout where
  symbols := (∅ : Symbols).insert tableLabel.text address.toNat
  labels := (∅ : Std.HashMap Bytes UInt32).insert tableLabel.text address
  statements := #[tableStatement address]
  address := address + 2

/-- The first words of the table. -/
def tableOrg : Token := ⟨.directive, ⟨1, 1, 0, 4, 0⟩, Bytes.ofString ".org"⟩

def tableOrigin (origin : String) : Token := ⟨.literal, ⟨1, 6, 5, 7, 0⟩, Bytes.ofString origin⟩

/-- The table is read as it is written, up to its origin. -/
structure TableRead (origin : String) (address : UInt32) : Prop where
  lines : (Text.lines (tableSource origin)).lines =
    [Bytes.ofString (".org " ++ origin), Bytes.ofString "here: .word here"]
  next : Layout.nextLine ⟨1, 0⟩ (Bytes.ofString (".org " ++ origin)) = ⟨2, 13⟩
  org : readLine ⟨1, 0⟩ (Bytes.ofString (".org " ++ origin)) = .ok ⟨none, [tableOrg, tableOrigin origin]⟩
  value : (tableOrigin origin).literal? = some (address.toNat : Int)
  inside : address.toNat ≤ 0x3FFFFF
  even : address.toNat % 2 = 0

theorem tableRead_near : TableRead "0x1FFFE" 0x1FFFE := by
  constructor <;> decide +kernel

theorem tableRead_far : TableRead "0x20000" 0x20000 := by
  constructor <;> decide +kernel

theorem words_tableSource :
    readLine ⟨2, 13⟩ (Bytes.ofString "here: .word here") =
      .ok ⟨some tableLabel, (tableStatement 0).keyword :: (tableStatement 0).operands⟩ ∧
    Directive.ofName? tableOrg.text = some .org ∧
    Directive.ofName? (tableStatement 0).keyword.text = some .word := by
  decide +kernel

theorem ofSource_tableSource {origin : String} {address : UInt32} (h : TableRead origin address) :
    Layout.ofSource (tableSource origin) = tableLayout address := by
  obtain ⟨hwords, horg, hword⟩ := words_tableSource
  have hfirst : Layout.line {} ⟨1, 0⟩ (Bytes.ofString (".org " ++ origin)) = { address } := by
    have hinside := h.inside
    exact Layout.line_org h.org rfl horg (value_of_literal rfl h.value (by omega) (by omega)) h.even
  have hsecond : Layout.line { address } ⟨2, 13⟩ (Bytes.ofString "here: .word here") =
      tableLayout address := by
    have hmnemonic : Layout.mnemonic? (tableStatement 0).keyword = none := rfl
    have hlabel : Layout.label { address } tableLabel =
        { symbols := (∅ : Symbols).insert tableLabel.text address.toNat
          labels := (∅ : Std.HashMap Bytes UInt32).insert tableLabel.text address
          address } := by
      simp [Layout.label, Layout.define]
    simp only [Layout.line, hwords, hlabel, Layout.words, hmnemonic, hword, Layout.statement]
    rfl
  unfold Layout.ofSource
  simp only [h.lines, List.foldl_cons, List.foldl_nil, h.next, hfirst, hsecond]

/-- What is assembled from the table. -/
def tableProgram (address : UInt32) : Program :=
  let word := UInt16.ofNat (address.toNat / 2)
  ⟨address, #[word.toUInt8, (word >>> 8).toUInt8], (tableLayout address).labels⟩

theorem namesLabel_table (address : UInt32) :
    NamesLabel (tableLayout address).labels tableOperand address := by
  refine ⟨rfl, ?_⟩
  rw [tableLayout, Std.HashMap.getElem?_insert, if_pos (by decide +kernel)]

theorem assemble_tableSource {origin : String} {address : UInt32} (h : TableRead origin address) :
    assemble (tableSource origin) = .ok (tableProgram address) := by
  have hlayout := ofSource_tableSource h
  have hitems : (tableStatement address).items (tableLayout address) =
      [(address, .ok (UInt16.ofNat (address.toNat / 2)))] := by
    simp [Statement.items, tableStatement, placed, wordValue_label (namesLabel_table address)]
  have hprogram := assemble_of_word (by rw [hlayout]; rfl) (by rw [hlayout]; rfl) (hlayout ▸ hitems)
  rw [hprogram, hlayout]
  rfl

theorem wordOperand_table {origin : String} {address : UInt32} (h : TableRead origin address) :
    WordOperand (tableSource origin) (tableStatement address) 0 tableOperand := by
  refine ⟨?_, rfl, rfl⟩
  rw [ofSource_tableSource h]
  exact Array.mem_singleton.mpr rfl

/-- A machine at an indirect call, with the last word address in `Z`. -/
def tableCaller : Machine where
  model := .atmega48
  data := ((Memory.zeros Model.atmega48.dataSize).setSp 0x2FF).setPair 30 0xFFFF
  flash := (Memory.zeros 2).store 0 [0x09, 0x95]
  codeEnd := 1
  journal := { threshold := none }
  wiring := {}

theorem jumpsBy_tableCaller : tableCaller.JumpsBy 0xFFFF := by
  have hsize : tableCaller.data.size = tableCaller.model.dataSize := by decide +kernel
  have hsp : tableCaller.data.sp = 0x2FF := by decide +kernel
  have hholds : tableCaller.Holds tableCaller.program Instr.icall.encode :=
    ⟨by decide +kernel, by decide +kernel, by decide +kernel, trivial⟩
  have hspares {r : Nat} (hr : r < 32) : tableCaller.SparesRegister r := by
    unfold Machine.SparesRegister
    rw [hsp]
    change r ≠ 0x2FF ∧ r ≠ 0x2FE
    omega
  exact ⟨by decide +kernel,
    .inr ⟨⟨rfl, by decide, hholds⟩, ⟨by decide, hsize⟩, hspares (by decide), hspares (by decide)⟩⟩

/-- A source with a number that does not fit. -/
def wideSource : Bytes := Bytes.ofString ".word 65536"

def wideOperand : Token := ⟨.literal, ⟨1, 7, 6, 5, 0⟩, Bytes.ofString "65536"⟩

def wideStatement : Statement :=
  ⟨⟨.directive, ⟨1, 1, 0, 5, 0⟩, Bytes.ofString ".word"⟩, [wideOperand], 0, .words⟩

theorem statements_wideSource : (Layout.ofSource wideSource).statements = #[wideStatement] ∧
    (Layout.ofSource wideSource).errors = #[] ∧ wideOperand.literal? = some 65536 := by
  decide +kernel

theorem word_operands_tables :
    assemble (tableSource "0x1FFFE") = .ok (tableProgram 0x1FFFE) ∧
    (∃ w, (tableProgram 0x1FFFE).Holds 0x1FFFE w ∧ w.toNat = 0xFFFF) ∧
    tableCaller.execute.program = 0x1FFFE ∧
    ∃ errors, assemble wideSource = .error errors ∧
      .outOfRange wideOperand.position (-0x8000) 0xFFFF 65536 ∈ errors := by
  have hnear := assemble_tableSource tableRead_near
  obtain ⟨w, hholds, hlabel, -⟩ := (word_operands (wordOperand_table tableRead_near)).1 _ hnear
  obtain ⟨hword, -, hjump⟩ := hlabel 0x1FFFE (namesLabel_table 0x1FFFE)
  have hvalue : w.toNat = 0xFFFF := hword
  have hw : w = 0xFFFF := UInt16.toNat_inj.mp hvalue
  refine ⟨hnear, ⟨w, hholds, hvalue⟩, ?_, ?_⟩
  · exact (hjump tableCaller (hw ▸ jumpsBy_tableCaller)).mpr (by decide)
  · obtain ⟨hstatements, hclean, hliteral⟩ := statements_wideSource
    have hoperand : WordOperand wideSource wideStatement 0 wideOperand :=
      ⟨by rw [hstatements]; exact Array.mem_singleton.mpr rfl, rfl, rfl⟩
    have hraw (symbols : Symbols) : symbols.rawValue wideOperand = .ok 65536 := by
      simp only [Symbols.rawValue, wideOperand] at hliteral ⊢
      rw [hliteral]
    have hkind : wideOperand.kind ≠ .identifier := by decide
    obtain ⟨errors, hassemble, herrors⟩ := (word_operands hoperand).2 65536
      (fun address hlabel => hkind hlabel.1) (hraw _) (by decide)
    exact ⟨errors, hassemble, herrors hclean⟩

/-- A label just beyond the lower 128 KiB is assembled to a word that is not its word address. -/
theorem far_label_truncated :
    assemble (tableSource "0x20000") = .ok (tableProgram 0x20000) ∧
    NamesLabel (tableProgram 0x20000).labels tableOperand 0x20000 ∧
    (tableProgram 0x20000).Holds 0x20000 0 ∧ (0 : UInt16).toNat ≠ (0x20000 : UInt32).toNat / 2 :=
  ⟨assemble_tableSource tableRead_far, namesLabel_table 0x20000, ⟨by decide, rfl, rfl⟩, by decide⟩

end Asm

end AvrSim
