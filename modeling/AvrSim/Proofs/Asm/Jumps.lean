import AvrSim.Proofs.Asm.Passes
import AvrSim.Proofs.Asm.Execution

/-!
# Jumps land where the source says

A jump is written with the byte address of its target. The field of the instruction holds a word address
or a number of words from the next instruction on, and the core goes from there to a byte address again.
For a source that has a program the two ways cancel out; a target that a field cannot hold has no
program.

* `Mnemonic.Reaches`: the targets that the field of a jump can hold.
* `lands_of_instruction`: the address at which the core goes on is the value of the operand.
* `pushed_pushAddress`: what a call leaves on a stack in plain memory.
* `instruction_of_not_reaches`: a target out of reach is out of range.
* `jumps_land`: both for the statements of a source.
-/

namespace AvrSim

/-! ## The stack -/

namespace Machine

variable {m : Machine} {address : UInt16}

/-- An address where a byte is stored and nothing else happens, not even to the stack pointer. -/
structure IsPlain (m : Machine) (address : UInt16) : Prop where
  inside : address.toNat < m.data.size
  silent : m.uartOffset? address = none
  low : address.toNat ≠ splAddress
  high : address.toNat ≠ sphAddress

/-- The places of the next two bytes to be pushed are plain memory. -/
structure PlainStack (m : Machine) : Prop where
  room : sphAddress < m.data.size
  top : m.IsPlain m.data.sp
  below : m.IsPlain (m.data.sp - 1)

/-- Two bytes of a number have been pushed, the low one first. -/
structure Pushed (w : Nat) (before after : Memory) : Prop where
  sp : after.sp = before.sp - 2
  low : (after.get before.sp.toNat).toNat = w % 256
  high : (after.get (before.sp - 1).toNat).toNat = w / 256 % 256
  others : ∀ x, x ≠ before.sp.toNat → x ≠ (before.sp - 1).toNat → x ≠ splAddress → x ≠ sphAddress →
    after.get x = before.get x

theorem data_push (h : m.IsPlain m.data.sp) (value : UInt8) :
    (m.push value).data = (m.data.set m.data.sp.toNat value).setSp (m.data.sp - 1) := by
  have hwrite : (m.write m.data.sp value).data = m.data.set m.data.sp.toNat value := by
    have hsilent : ({ m with data := m.data.set m.data.sp.toNat value } : Machine).uartOffset?
        m.data.sp = none := h.silent
    unfold write
    rw [if_pos h.inside]
    dsimp only
    rw [hsilent]
    unfold onCore Core.noteAccess
    dsimp only
    split <;> rfl
  exact congrArg (·.setSp (m.data.sp - 1)) hwrite

theorem get_setSp_of_ne {data : Memory} {value : UInt16} {x : Nat} (hlow : x ≠ splAddress)
    (hhigh : x ≠ sphAddress) : (data.setSp value).get x = data.get x := by
  unfold Memory.setSp Memory.setWord
  rw [Memory.get_set, if_neg fun h => hhigh h.1.symm, Memory.get_set, if_neg fun h => hlow h.1.symm]

theorem isPlain_push (h : m.IsPlain address) (value : UInt8) : (m.push value).IsPlain address := by
  have haccess := access_push m value
  refine ⟨?_, ?_, h.low, h.high⟩
  · rw [haccess.size]
    exact h.inside
  · unfold uartOffset?
    rw [haccess.model]
    exact h.silent

theorem pushed_pushAddress (h : m.PlainStack) (word : UInt32) :
    Pushed word.toNat m.data (m.pushAddress word).data := by
  have hroom : sphAddress < (m.push word.toUInt8).data.size := by
    rw [(access_push m _).size]
    exact h.room
  have hfirst := data_push h.top word.toUInt8
  have hsp : (m.push word.toUInt8).data.sp = m.data.sp - 1 := by
    rw [hfirst]
    exact sp_setSp (by simpa using h.room) _
  have hbelow : (m.push word.toUInt8).IsPlain (m.push word.toUInt8).data.sp := by
    rw [hsp]
    exact isPlain_push h.below word.toUInt8
  have hsecond := data_push hbelow (word >>> 8).toUInt8
  have hne : m.data.sp.toNat ≠ (m.data.sp - 1).toNat := by
    intro heq
    have := UInt16.toNat_inj.mp heq
    grind
  rw [hsp] at hsecond
  unfold pushAddress
  rw [hsecond]
  constructor
  case sp =>
    rw [sp_setSp (by simpa using hroom)]
    grind
  case low =>
    rw [get_setSp_of_ne h.top.low h.top.high, Memory.get_set, if_neg fun heq => hne heq.1.symm, hfirst,
      get_setSp_of_ne h.top.low h.top.high, Memory.get_set, if_pos ⟨rfl, h.top.inside⟩]
    rfl
  case high =>
    rw [get_setSp_of_ne h.below.low h.below.high, Memory.get_set,
      if_pos ⟨rfl, hsp ▸ hbelow.inside⟩, UInt32.toNat_toUInt8, UInt32.toNat_shiftRight,
      Nat.shiftRight_eq_div_pow]
    rfl
  case others =>
    intro x hx hx' hlow hhigh
    rw [get_setSp_of_ne hlow hhigh, Memory.get_set, if_neg fun heq => hx' heq.1.symm, hfirst,
      get_setSp_of_ne hlow hhigh, Memory.get_set, if_neg fun heq => hx heq.1.symm]

end Machine

namespace Asm

/-! ## Targets -/

namespace Mnemonic

/-- The mnemonics of jumps, calls and branches. -/
def isJump : Mnemonic → Bool
  | .rjmp | .rcall | .jmp | .call | .branch _ _ => true
  | _ => false

def isCall : Mnemonic → Bool
  | .rcall | .call => true
  | _ => false

/-- Whether a core goes where the jump says. -/
def isTaken (m : Machine) : Mnemonic → Bool
  | .branch s set => m.data.flag s.val == set
  | _ => true

/-- A jump at an address can have a target: it is an address of program memory, and not too far from
the next instruction if the field holds a distance. -/
def Reaches (mnemonic : Mnemonic) (address : UInt32) (target : Int) : Prop :=
  0 ≤ target ∧ target ≤ 0x7FFFFF ∧
    match mnemonic with
    | .rjmp | .rcall => -4096 ≤ target - (address.toNat + 2) ∧ target - (address.toNat + 2) < 4096
    | .branch _ _ => -128 ≤ target - (address.toNat + 2) ∧ target - (address.toNat + 2) < 128
    | _ => True

end Mnemonic

section Targets

variable {symbols : Symbols} {address : UInt32} {position : Position} {mnemonic : Mnemonic}
  {operand : Token} {instr : Instr} {m : Machine}

theorem signed_bounds (half k : Nat) (h : k < 2 * half) :
    -(half : Int) ≤ Machine.signed half k ∧ Machine.signed half k < half := by
  unfold Machine.signed
  split <;> omega

/-- A distance that was accepted leads to the target, from behind an instruction of one word. -/
theorem toNat_of_relative (haligned : Aligned address) {last : Nat} {k : Fin (last + 1)}
    (half : Nat) (hhalf : last + 1 = 2 * half) (h : symbols.relative address last operand = .ok k) :
    ∃ t : Nat, symbols.rawValue operand = .ok t ∧ t ≤ 0x7FFFFF ∧
      -(2 * half : Nat) ≤ (t : Int) - (address.toNat + 2) ∧
      (t : Int) - (address.toNat + 2) < (2 * half : Nat) ∧
      (address + 2 + UInt32.ofInt (2 * Machine.signed half k.val)).toNat = t := by
  obtain ⟨word, htarget⟩ : ∃ word, symbols.target operand = .ok word := by
    unfold Symbols.relative at h
    split at h
    · cases h
    · exact ⟨_, by assumption⟩
  obtain ⟨hraw, hword⟩ := of_target_eq_ok htarget
  obtain ⟨target, hraw', hdistance⟩ := of_relative_eq_ok h half hhalf
  have hsame : (2 * word : Nat) = (2 * target : Nat) := by
    rw [hraw] at hraw'
    exact Int.ofNat_inj.mp (Except.ok.inj hraw')
  obtain ⟨hlow, hhigh⟩ := signed_bounds half k.val (by omega)
  have haddress := address.toNat_lt
  unfold Aligned at haligned
  refine ⟨2 * word, hraw, by omega, by omega, by omega, ?_⟩
  rw [UInt32.toNat_add, UInt32.toNat_add, UInt32.ofInt, UInt32.toNat_ofNat']
  change ((address.toNat + 2) % 2 ^ 32 + (2 * Machine.signed half k.val % 2 ^ 32).toNat % 2 ^ 32) %
    2 ^ 32 = _
  omega

theorem program_relativeJump (k : Fin 4096) :
    (m.relativeJump k).program = m.program + UInt32.ofInt (2 * Machine.signed 2048 k.val) := by
  unfold Machine.relativeJump
  dsimp only
  split
  · -- a jump to itself that ends the run leaves the counter at the jump
    rename_i hloop
    have hback : Machine.signed 2048 k.val = -1 := by
      simp only [Bool.and_eq_true, decide_eq_true_eq] at hloop
      exact hloop.1
    rw [hback]
    exact UInt32.sub_eq_add_neg ..
  · rfl

theorem toNat_longTarget {k : Nat} (h : k ≤ 4194303) :
    (Machine.longTarget (wrap 4194303 k)).toNat = 2 * k := by
  rw [Machine.longTarget, val_wrap h, UInt32.toNat_ofNat']
  omega

theorem lands_of_instruction (haligned : Aligned address) (hjump : mnemonic.isJump)
    (hinstr : instruction symbols address position mnemonic [operand] = .ok instr)
    (hprogram : m.program = address + UInt32.ofNat instr.size) (htaken : mnemonic.isTaken m) :
    ∃ t : Nat, symbols.rawValue operand = .ok t ∧ mnemonic.Reaches address t ∧
      (m.perform instr).program.toNat = t := by
  cases mnemonic with
  | rjmp =>
    obtain ⟨k, hk, rfl⟩ := Checked.of_map_eq_ok hinstr
    obtain ⟨t, ht, hlimit, hlow, hhigh, htarget⟩ := toNat_of_relative haligned 2048 rfl hk
    refine ⟨t, ht, ⟨by omega, by omega, hlow, hhigh⟩, ?_⟩
    rw [Machine.perform, program_relativeJump, hprogram]
    exact htarget
  | rcall =>
    obtain ⟨k, hk, rfl⟩ := Checked.of_map_eq_ok hinstr
    obtain ⟨t, ht, hlimit, hlow, hhigh, htarget⟩ := toNat_of_relative haligned 2048 rfl hk
    refine ⟨t, ht, ⟨by omega, by omega, hlow, hhigh⟩, ?_⟩
    have hpush : (m.pushAddress m.returnAddress).program = m.program :=
      (Machine.access_pushAddress m _).program
    rw [Machine.perform, Machine.spend, Machine.branch, hpush, hprogram]
    exact htarget
  | jmp =>
    obtain ⟨k, hk, rfl⟩ := Checked.of_map_eq_ok hinstr
    obtain ⟨ht, hlimit⟩ := of_target_eq_ok hk
    refine ⟨2 * k, ht, ⟨by omega, by omega, trivial⟩, ?_⟩
    rw [Machine.perform]
    exact toNat_longTarget hlimit
  | call =>
    obtain ⟨k, hk, rfl⟩ := Checked.of_map_eq_ok hinstr
    obtain ⟨ht, hlimit⟩ := of_target_eq_ok hk
    refine ⟨2 * k, ht, ⟨by omega, by omega, trivial⟩, ?_⟩
    rw [Machine.perform]
    exact toNat_longTarget hlimit
  | branch s set =>
    obtain ⟨k, hk, rfl⟩ := Checked.of_map_eq_ok hinstr
    obtain ⟨t, ht, hlimit, hlow, hhigh, htarget⟩ := toNat_of_relative haligned 64 rfl hk
    refine ⟨t, ht, ⟨by omega, by omega, hlow, hhigh⟩, ?_⟩
    have hflag : (m.data.flag s.val == set) = true := htaken
    rw [Machine.perform, if_pos hflag, Machine.spend, Machine.branch, hprogram]
    exact htarget
  | _ => cases hjump

/-- A call pushes the word address behind it. -/
theorem data_of_call (hcall : mnemonic.isCall)
    (hinstr : instruction symbols address position mnemonic [operand] = .ok instr) :
    (m.perform instr).data = (m.pushAddress (m.program >>> 1)).data := by
  cases mnemonic with
  | rcall =>
    obtain ⟨k, -, rfl⟩ := Checked.of_map_eq_ok hinstr
    rw [Machine.perform, Machine.spend, Machine.branch, Machine.returnAddress]
  | call =>
    obtain ⟨k, -, rfl⟩ := Checked.of_map_eq_ok hinstr
    rw [Machine.perform, Machine.spend, Machine.callTo, Machine.goto, Machine.returnAddress]
  | _ => cases hcall

/-! ## Targets out of reach -/

theorem target_of_not_inside {t : Int} (ht : symbols.rawValue operand = .ok t)
    (hout : ¬ (0 ≤ t ∧ t ≤ 0x7FFFFF)) :
    symbols.target operand = .error [.outOfRange operand.position 0 0x7FFFFF t] := by
  unfold Symbols.target Symbols.value
  rw [ht]
  dsimp only
  rw [if_pos (by omega)]

theorem relative_of_not_reaches {t : Int} (haligned : Aligned address) (last half : Nat)
    (hhalf : last + 1 = 2 * half) (ht : symbols.rawValue operand = .ok t) (heven : t % 2 = 0)
    (hout : ¬ (0 ≤ t ∧ t ≤ 0x7FFFFF ∧ -(2 * half : Nat) ≤ t - (address.toNat + 2) ∧
      t - (address.toNat + 2) < (2 * half : Nat))) :
    ∃ low high value, ¬ (low ≤ value ∧ value ≤ high) ∧ symbols.relative address last operand =
      .error [.outOfRange operand.position low high value] := by
  by_cases hinside : 0 ≤ t ∧ t ≤ 0x7FFFFF
  · have htarget : symbols.target operand = .ok (t.toNat / 2) := by
      unfold Symbols.target Symbols.value
      rw [ht]
      dsimp only
      rw [if_neg (by omega)]
      dsimp only
      rw [if_neg (by omega)]
    unfold Aligned at haligned
    unfold Symbols.relative
    rw [htarget]
    dsimp only
    rw [if_pos (by omega)]
    exact ⟨_, _, _, by omega, rfl⟩
  · refine ⟨0, 0x7FFFFF, t, hinside, ?_⟩
    unfold Symbols.relative
    rw [target_of_not_inside ht hinside]

/-- What is wrong with a jump to an even address out of reach. -/
theorem instruction_of_not_reaches {t : Int} (haligned : Aligned address) (hjump : mnemonic.isJump)
    (ht : symbols.rawValue operand = .ok t) (heven : t % 2 = 0) (hout : ¬ mnemonic.Reaches address t)
    (position : Position) :
    ∃ low high value, ¬ (low ≤ value ∧ value ≤ high) ∧
      instruction symbols address position mnemonic [operand] =
        .error [.outOfRange operand.position low high value] := by
  cases mnemonic with
  | rjmp =>
    obtain ⟨low, high, value, hvalue, herror⟩ :=
      relative_of_not_reaches haligned 4095 2048 rfl ht heven hout
    exact ⟨low, high, value, hvalue, congrArg (Except.map Instr.rjmp) herror⟩
  | rcall =>
    obtain ⟨low, high, value, hvalue, herror⟩ :=
      relative_of_not_reaches haligned 4095 2048 rfl ht heven hout
    exact ⟨low, high, value, hvalue, congrArg (Except.map Instr.rcall) herror⟩
  | jmp =>
    have hinside : ¬ (0 ≤ t ∧ t ≤ 0x7FFFFF) := fun h => hout ⟨h.1, h.2, trivial⟩
    exact ⟨0, 0x7FFFFF, t, hinside, congrArg (Except.map _) (target_of_not_inside ht hinside)⟩
  | call =>
    have hinside : ¬ (0 ≤ t ∧ t ≤ 0x7FFFFF) := fun h => hout ⟨h.1, h.2, trivial⟩
    exact ⟨0, 0x7FFFFF, t, hinside, congrArg (Except.map _) (target_of_not_inside ht hinside)⟩
  | branch s set =>
    obtain ⟨low, high, value, hvalue, herror⟩ :=
      relative_of_not_reaches haligned 127 64 rfl ht heven hout
    exact ⟨low, high, value, hvalue, congrArg (Except.map (Instr.branch s set)) herror⟩
  | _ => cases hjump

end Targets

/-! ## Programs in a flash -/

section Loaded

variable {program : Program} {m before after : Machine}

theorem flash_of_loadFlash
    (hload : before.loadFlash program.base.toNat program.data.toList = .ok after) {address : Nat}
    {word : UInt16} (hword : program.Holds address word) :
    address + 1 < after.flash.size ∧ after.flash.get address = word.toUInt8 ∧
      after.flash.get (address + 1) = (word >>> 8).toUInt8 := by
  obtain ⟨hbase, hlow, hhigh⟩ := hword
  have hlength := (Array.getElem?_eq_some_iff.mp hhigh).1
  unfold Machine.loadFlash at hload
  split at hload
  · cases hload
  · rename_i hfits
    cases hload
    have hroom : program.base.toNat + program.data.toList.length ≤ before.flash.size := by omega
    rw [Array.length_toList] at hfits
    have hstored {i : Nat} {b : UInt8} (hb : program.data[i]? = some b) :
        (before.flash.store program.base.toNat program.data.toList).get
          (program.base.toNat + i) = b := by
      have hi := (Array.getElem?_eq_some_iff.mp hb).1
      rw [Memory.get_store _ _ _ _ hroom, Array.length_toList, if_pos (by omega),
        Nat.add_sub_cancel_left]
      simp [hb]
    have hstart : program.base.toNat + (address - program.base.toNat) = address := by omega
    refine ⟨?_, ?_, ?_⟩
    · rw [Memory.size_store]
      omega
    · rw [← hstart]
      exact hstored hlow
    · rw [← hstart]
      exact hstored hhigh

/-- Words that a program holds in a row stand in a flash with the program. -/
theorem holds_of_loadFlash
    (hload : before.loadFlash program.base.toNat program.data.toList = .ok after)
    (hflash : m.flash = after.flash) {pc : UInt32} {words : List UInt16}
    (hwords : ∀ i word, words[i]? = some word →
      program.Holds (pc + UInt32.ofNat (2 * i)).toNat word) : m.Holds pc words := by
  induction words generalizing pc with
  | nil => trivial
  | cons word words ih =>
    have hfirst := hwords 0 word rfl
    rw [Nat.mul_zero, show pc + UInt32.ofNat 0 = pc from UInt32.add_zero pc] at hfirst
    obtain ⟨hsize, hlow, hhigh⟩ := flash_of_loadFlash hload hfirst
    rw [← hflash] at hsize hlow hhigh
    refine ⟨hsize, hlow, hhigh, ih fun i other hother => ?_⟩
    have hnext : pc + 2 + UInt32.ofNat (2 * i) = pc + UInt32.ofNat (2 * (i + 1)) := by
      rw [UInt32.add_assoc, Nat.mul_add, Nat.add_comm, UInt32.ofNat_add]
      rfl
    rw [hnext]
    exact hwords (i + 1) other hother

end Loaded

/-! ## Statements of a source -/

/-- A jump among the statements of a source. -/
structure Jump (source : Bytes) (s : Statement) (mnemonic : Mnemonic) (operand : Token) : Prop where
  mem : s ∈ (Layout.ofSource source).statements
  action : s.action = .instruction mnemonic
  isJump : mnemonic.isJump
  operands : s.operands = [operand]

/-- A running core with a program in its flash is at a statement. -/
structure Faces (program : Program) (s : Statement) (m : Machine) : Prop where
  loaded : ∃ before after : Machine,
    before.loadFlash program.base.toNat program.data.toList = .ok after ∧ m.flash = after.flash
  running : m.run = .running
  here : m.program = s.address
  inside : m.program ≤ m.codeEnd

/-- The byte address of the next statement. -/
def Statement.finish (s : Statement) : UInt32 := s.address + UInt32.ofNat s.size

section Sources

variable {source : Bytes} {program : Program} {s : Statement} {mnemonic : Mnemonic}
  {operand : Token} {m : Machine}

theorem Statement.items_of_ok {l : Layout} {instr : Instr} (haction : s.action = .instruction mnemonic)
    (hinstr : instruction l.symbols s.address s.keyword.position mnemonic s.operands = .ok instr) :
    s.items l = placed s.address (instr.encode.map .ok) := by
  rw [items, haction]
  dsimp only
  rw [hinstr]

theorem Statement.items_of_error {l : Layout} {errors : List Error}
    (haction : s.action = .instruction mnemonic)
    (hinstr : instruction l.symbols s.address s.keyword.position mnemonic s.operands =
      .error errors) : s.items l = [(s.address, .error errors)] := by
  rw [items, haction]
  dsimp only
  rw [hinstr]

/-- An instruction of a source that has a program stands in the program. -/
theorem instruction_of_assemble (h : assemble source = .ok program)
    (hs : s ∈ (Layout.ofSource source).statements) (haction : s.action = .instruction mnemonic) :
    ∃ instr, instruction (Layout.ofSource source).symbols s.address s.keyword.position mnemonic
        s.operands = .ok instr ∧
      ∀ i word, instr.encode[i]? = some word →
        program.Holds (s.address + UInt32.ofNat (2 * i)).toNat word := by
  obtain ⟨-, -, -, hsound, hshows⟩ := shows_of_assemble h
  have hmem : ∀ item ∈ s.items (Layout.ofSource source), item ∈
      (Layout.ofSource source).statements.toList.flatMap (·.items (Layout.ofSource source)) :=
    fun item hitem => List.mem_flatMap.mpr ⟨s, Array.mem_toList_iff.mpr hs, hitem⟩
  cases hinstr : instruction (Layout.ofSource source).symbols s.address s.keyword.position mnemonic
      s.operands with
  | error errors =>
    rw [Statement.items_of_error haction hinstr] at hmem
    obtain ⟨word, hword⟩ := hsound _ (hmem _ (List.mem_singleton_self _))
    cases hword
  | ok instr =>
    rw [Statement.items_of_ok haction hinstr] at hmem
    refine ⟨instr, rfl, fun i word hword => hshows.words _ _ (hmem _ ?_)⟩
    exact mem_placed_iff.mpr ⟨i, by rw [List.getElem?_map, hword]; rfl, rfl⟩

theorem Jump.size (hjump : Jump source s mnemonic operand) {instr : Instr} {symbols : Symbols}
    {position : Position}
    (hinstr : instruction symbols s.address position mnemonic s.operands = .ok instr) :
    instr.size = s.size := by
  have hstands := stands_of_instruction hinstr
  have hkind := hjump.isJump
  rw [Statement.size, hjump.action]
  generalize s.operands = operands at hstands
  cases hstands with
  | rjmp => rfl
  | rcall => rfl
  | jmp => rfl
  | call => rfl
  | branch => rfl
  | _ => cases hkind

/-! ## Errors of the second pass -/

/-- What is wrong with a statement is reported, and no report is taken back. -/
theorem Code.mem_errors_statement {l : Layout} {t : Statement} {c : Code} {e : Error}
    (he : e ∈ c.errors ∨ ∃ address errors, (address, .error errors) ∈ t.items l ∧ e ∈ errors) :
    e ∈ (c.statement l t).errors := by
  unfold statement
  generalize t.items l = items at he
  induction items generalizing c with
  | nil =>
    obtain he | ⟨_, _, hitem, -⟩ := he
    · exact he
    · cases hitem
  | cons item items ih =>
    rw [List.foldl_cons]
    apply ih
    obtain ⟨address, found | word⟩ := item
    · obtain he | ⟨other, errors, hitem, he⟩ := he
      · exact .inl (Array.mem_append_left _ he)
      · obtain heq | hitem := List.mem_cons.mp hitem
        · cases heq
          exact .inl (Array.mem_append_right _ (by simpa using he))
        · exact .inr ⟨other, errors, hitem, he⟩
    · obtain he | ⟨other, errors, hitem, he⟩ := he
      · left
        dsimp only
        unfold emit
        split
        · exact Array.mem_push_of_mem _ he
        · exact he
      · obtain heq | hitem := List.mem_cons.mp hitem
        · cases heq
        · exact .inr ⟨other, errors, hitem, he⟩

theorem Code.mem_errors_foldl {l : Layout} {statements : List Statement} {c : Code} {e : Error}
    (he : e ∈ c.errors ∨ ∃ t ∈ statements, ∃ address errors,
      (address, .error errors) ∈ t.items l ∧ e ∈ errors) :
    e ∈ (statements.foldl (Code.statement l) c).errors := by
  induction statements generalizing c with
  | nil =>
    obtain he | ⟨_, hmem, -⟩ := he
    · exact he
    · cases hmem
  | cons t rest ih =>
    rw [List.foldl_cons]
    apply ih
    obtain he | ⟨other, hmem, herror⟩ := he
    · exact .inl (mem_errors_statement (.inl he))
    · obtain rfl | hmem := List.mem_cons.mp hmem
      · exact .inl (mem_errors_statement (.inr herror))
      · exact .inr ⟨other, hmem, herror⟩

/-- A source with something wrong in a statement has no program, and it is among its errors unless the
first pass found some. -/
theorem error_of_item {errors : List Error} (hs : s ∈ (Layout.ofSource source).statements)
    {address : UInt32} (hitem : (address, .error errors) ∈ s.items (Layout.ofSource source)) {e : Error}
    (he : e ∈ errors) : ∃ all, assemble source = .error all ∧
      ((Layout.ofSource source).errors = #[] → e ∈ all) := by
  have hmem := Code.mem_errors_foldl (c := {})
    (.inr ⟨s, Array.mem_toList_iff.mpr hs, address, errors, hitem, he⟩)
  rw [Array.foldl_toList] at hmem
  unfold assemble
  dsimp only
  by_cases hlayout : (Layout.ofSource source).errors.isEmpty
  · rw [if_pos hlayout, if_neg]
    · exact ⟨_, rfl, fun _ => Array.mem_toList_iff.mpr hmem⟩
    · intro hempty
      rw [Array.isEmpty_iff.mp hempty] at hmem
      exact absurd hmem (Array.not_mem_empty e)
  · rw [if_neg hlayout]
    exact ⟨_, rfl, fun hclean => absurd (by rw [hclean]; rfl) hlayout⟩

theorem error_of_assemble {errors : List Error} (hs : s ∈ (Layout.ofSource source).statements)
    (hitems : s.items (Layout.ofSource source) = [(s.address, .error errors)]) {e : Error}
    (he : e ∈ errors) : ∃ all, assemble source = .error all ∧
      ((Layout.ofSource source).errors = #[] → e ∈ all) :=
  error_of_item hs (hitems ▸ List.mem_singleton_self _) he

/-! ## Jumps of a source -/

theorem plainStack_behind (instr : Instr) (h : m.PlainStack) : (m.behind instr).PlainStack := by
  unfold Machine.behind
  rw [Machine.traceStep_eq]
  exact ⟨h.room, ⟨h.top.inside, h.top.silent, h.top.low, h.top.high⟩,
    ⟨h.below.inside, h.below.silent, h.below.low, h.below.high⟩⟩

/-- What a core executes at a jump is what was assembled from it. -/
theorem Faces.exists_perform (hfaces : Faces program s m) (hprogram : assemble source = .ok program)
    (hjump : Jump source s mnemonic operand) :
    ∃ instr, instruction (Layout.ofSource source).symbols s.address s.keyword.position mnemonic
        [operand] = .ok instr ∧
      m.decoded? = some instr ∧ m.execute = (m.behind instr).perform instr ∧
      (m.behind instr).program = s.address + UInt32.ofNat instr.size ∧ instr.size = s.size := by
  obtain ⟨before, after, hload, hflash⟩ := hfaces.loaded
  obtain ⟨instr, hinstr, hwords⟩ := instruction_of_assemble hprogram hjump.mem hjump.action
  have hholds : m.Holds m.program instr.encode := by
    rw [hfaces.here]
    exact holds_of_loadFlash hload hflash hwords
  refine ⟨instr, hjump.operands ▸ hinstr, Machine.decoded?_of_holds hholds, ?_, ?_,
    hjump.size hinstr⟩
  · exact Machine.execute_of_holds hfaces.running (UInt32.not_lt.mpr hfaces.inside) hholds
  · rw [Machine.program_behind, hfaces.here]

/-- A jump of a source that has a program lands at the address that its operand gives, on every core
that has the program in its flash and comes to the jump, and a call has pushed the word address of the
statement behind it. A jump to an even address that its field cannot hold is not assembled: its operand
is reported as out of range, unless the first pass found errors. -/
theorem jumps_land (hjump : Jump source s mnemonic operand) :
    (∀ program m, assemble source = .ok program → Faces program s m → mnemonic.isTaken m →
      ∃ t : Nat, (Layout.ofSource source).symbols.rawValue operand = .ok t ∧
        mnemonic.Reaches s.address t ∧ m.execute.program.toNat = t ∧
        (mnemonic.isCall → ∃ instr, m.decoded? = some instr ∧
          m.execute.data = ((m.behind instr).pushAddress (s.finish >>> 1)).data ∧
          (m.PlainStack → Machine.Pushed (s.finish.toNat / 2) m.data m.execute.data))) ∧
    ∀ t : Int, (Layout.ofSource source).symbols.rawValue operand = .ok t → t % 2 = 0 →
      ¬ mnemonic.Reaches s.address t →
      ∃ low high value errors, ¬ (low ≤ value ∧ value ≤ high) ∧ assemble source = .error errors ∧
        ((Layout.ofSource source).errors = #[] →
          .outOfRange operand.position low high value ∈ errors) := by
  have haligned := (Layout.aligned_ofSource source).statements s hjump.mem
  constructor
  · intro program m hprogram hfaces htaken
    obtain ⟨instr, hinstr, hdecoded, hexecute, hbehind, hsize⟩ :=
      hfaces.exists_perform hprogram hjump
    have htaken' : mnemonic.isTaken (m.behind instr) := by
      unfold Mnemonic.isTaken at htaken ⊢
      rw [Machine.data_behind]
      exact htaken
    obtain ⟨t, ht, hreaches, hland⟩ :=
      lands_of_instruction haligned hjump.isJump hinstr hbehind htaken'
    refine ⟨t, ht, hreaches, by rw [hexecute]; exact hland, fun hcall => ?_⟩
    have hdata : m.execute.data = ((m.behind instr).pushAddress (s.finish >>> 1)).data := by
      rw [hexecute, data_of_call hcall hinstr, hbehind, hsize, Statement.finish]
    refine ⟨instr, hdecoded, hdata, fun hstack => ?_⟩
    have hpushed := Machine.pushed_pushAddress (plainStack_behind instr hstack)
      (s.finish >>> 1)
    rw [Machine.data_behind, ← hdata, UInt32.toNat_shiftRight, Nat.shiftRight_eq_div_pow] at hpushed
    exact hpushed
  · intro t ht heven hout
    obtain ⟨low, high, value, hvalue, hinstr⟩ := instruction_of_not_reaches haligned
      hjump.isJump ht heven hout s.keyword.position
    rw [← hjump.operands] at hinstr
    obtain ⟨errors, hassemble, herrors⟩ := error_of_assemble hjump.mem
      (Statement.items_of_error hjump.action hinstr) (List.mem_singleton_self _)
    exact ⟨low, high, value, errors, hvalue, hassemble, herrors⟩

end Sources

/-- A source with a call as far back as a call can go. -/
def nearSource : Bytes := Bytes.ofString ".org 4096\nrcall 2"

/-- A source with a call one word too far back. -/
def farSource : Bytes := Bytes.ofString ".org 4096\nrcall 0"

/-- The operand of the sources. -/
def callOperand (digit : String) : Token := ⟨.literal, ⟨2, 7, 16, 1, 10⟩, Bytes.ofString digit⟩

/-- The statement of the sources. -/
def callStatement (digit : String) : Statement :=
  ⟨⟨.identifier, ⟨2, 1, 10, 5, 10⟩, Bytes.ofString "rcall"⟩, [callOperand digit], 4096,
    .instruction .rcall⟩

/-- What is assembled from the first source. -/
def nearProgram : Program := ⟨4096, #[0x00, 0xD8], (Layout.ofSource nearSource).labels⟩

theorem rawValue_callOperand (symbols : Symbols) :
    symbols.rawValue (callOperand "2") = .ok 2 ∧ symbols.rawValue (callOperand "0") = .ok 0 := by
  have hnear : (callOperand "2").literal? = some 2 := by decide +kernel
  have hfar : (callOperand "0").literal? = some 0 := by decide +kernel
  unfold Symbols.rawValue
  rw [hnear, hfar]
  exact ⟨rfl, rfl⟩

theorem statements_callSources :
    (Layout.ofSource nearSource).statements = #[callStatement "2"] ∧
      (Layout.ofSource farSource).statements = #[callStatement "0"] := by
  decide +kernel

theorem errors_callSources : (Layout.ofSource nearSource).errors = #[] ∧
    (Layout.ofSource farSource).errors = #[] := by
  decide +kernel

theorem assemble_nearSource : assemble nearSource = .ok nearProgram := by
  have hitems (l : Layout) : (callStatement "2").items l = [(4096, .ok 0xD800)] := by
    have hinstr : instruction l.symbols 4096 (callStatement "2").keyword.position .rcall
        [callOperand "2"] = .ok (.rcall 2048) := by
      rw [instruction, Symbols.relative, Symbols.target, Symbols.value, (rawValue_callOperand _).1]
      rfl
    exact Statement.items_of_ok (s := callStatement "2") rfl hinstr
  exact assemble_of_word errors_callSources.1 statements_callSources.1 (hitems _)

/-- A machine at the call, with its stack pointer in plain memory. -/
def caller : Machine where
  model := .atmega48
  data := (Memory.zeros 512).setSp 0x1FF
  flash := (Memory.zeros 4098).store 4096 [0x00, 0xD8]
  program := 4096
  codeEnd := 4097
  journal := { threshold := none }
  wiring := {}

theorem faces_caller : Faces nearProgram (callStatement "2") caller := by
  refine ⟨⟨{ caller with flash := Memory.zeros 4098 }, caller, ?_, rfl⟩, rfl, rfl, by decide⟩
  exact if_neg (by simp [nearProgram, Memory.zeros, Memory.size])

theorem plainStack_caller : caller.PlainStack := by
  have hzeros : (Memory.zeros 512).size = 512 := Array.size_replicate
  have hsp : caller.data.sp = 0x1FF := Machine.sp_setSp (by rw [hzeros]; decide) _
  have hsize : caller.data.size = 512 := by simpa [caller, Memory.setSp, Memory.setWord] using hzeros
  refine ⟨by rw [hsize]; decide, ?_, ?_⟩ <;> rw [hsp] <;>
    exact ⟨by rw [hsize]; decide, by decide, by decide, by decide⟩

theorem caller_lands :
    assemble nearSource = .ok nearProgram ∧ Faces nearProgram (callStatement "2") caller ∧
      caller.execute.program.toNat = 2 ∧ Machine.Pushed 2049 caller.data caller.execute.data ∧
      ∃ low high value errors, ¬ (low ≤ value ∧ value ≤ high) ∧ assemble farSource = .error errors ∧
        .outOfRange (callOperand "0").position low high value ∈ errors := by
  have hnear : Jump nearSource (callStatement "2") .rcall (callOperand "2") :=
    ⟨by rw [statements_callSources.1]; exact Array.mem_singleton.mpr rfl, rfl, rfl, rfl⟩
  have hfar : Jump farSource (callStatement "0") .rcall (callOperand "0") :=
    ⟨by rw [statements_callSources.2]; exact Array.mem_singleton.mpr rfl, rfl, rfl, rfl⟩
  obtain ⟨t, ht, -, hland, hcall⟩ :=
    (jumps_land hnear).1 nearProgram caller assemble_nearSource faces_caller rfl
  obtain ⟨-, -, -, hpushed⟩ := hcall rfl
  have hvalue : (2 : Int) = t := Except.ok.inj ((rawValue_callOperand _).1.symm.trans ht)
  refine ⟨assemble_nearSource, faces_caller, by omega, hpushed plainStack_caller, ?_⟩
  obtain ⟨low, high, value, errors, hout, hassemble, herrors⟩ :=
    (jumps_land hfar).2 0 (rawValue_callOperand _).2 rfl (by unfold Mnemonic.Reaches; decide)
  exact ⟨low, high, value, errors, hout, hassemble, herrors errors_callSources.2⟩

end Asm

end AvrSim
