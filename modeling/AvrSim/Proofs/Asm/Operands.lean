import AvrSim.Core.Execute
import AvrSim.Proofs.Asm.Words

/-!
# What operands stand for

An instruction is found by checking the operands of its statement one by one and wrapping what they
stand for into fields. `Stands` says, without the checks, which instruction a statement means: which
registers its names are, which value a field holds, where a jump leads and which pointer an access goes
through.

* `stands_of_instruction`: an instruction that is found is the one that its statement means.
* `size_of_stands`: its size is the one that its mnemonic announced.
* `refused_instruction`: a statement that means none is refused with errors about its operands.
-/

namespace AvrSim

theorem val_wrap {last n : Nat} (h : n ≤ last) : (wrap last n).val = n :=
  Nat.mod_eq_of_lt (Nat.lt_succ_of_le h)

namespace Asm

namespace Checked

variable {α β γ : Type}

theorem of_map_eq_ok {f : α → β} {x : Checked α} {b : β} (h : x.map f = .ok b) :
    ∃ a, x = .ok a ∧ f a = b := by
  cases x with
  | error e => cases h
  | ok a =>
    cases h
    exact ⟨a, rfl, rfl⟩

theorem of_map₂_eq_ok {f : α → β → γ} {x : Checked α} {y : Checked β} {c : γ}
    (h : map₂ f x y = .ok c) : ∃ a b, x = .ok a ∧ y = .ok b ∧ f a b = c := by
  obtain ⟨⟨a, b⟩, hboth, rfl⟩ := of_map_eq_ok h
  unfold both at hboth
  split at hboth
  case h_1 =>
    cases hboth
    exact ⟨a, b, rfl, rfl, rfl⟩
  all_goals cases hboth

end Checked

open Checked (of_map_eq_ok of_map₂_eq_ok)

/-! ## Registers -/

section Registers

variable {token : Token} {low high : Nat} {even : Bool} {r : Fin 32}

theorem of_register_eq_ok (h : register token low high even = .ok r) :
    token.register? = some r ∧ low ≤ r.val ∧ r.val ≤ high ∧ (even → r.val % 2 = 0) := by
  unfold register at h
  split at h
  · rename_i r' htoken
    split at h
    · cases h
    · rename_i hchecks
      cases h
      simp only [Bool.or_eq_true, decide_eq_true_eq, Bool.and_eq_true, bne_iff_ne, not_or,
        not_and, Decidable.not_not, Nat.not_lt] at hchecks
      exact ⟨htoken, hchecks.1.1, hchecks.1.2, hchecks.2⟩
  · cases h

theorem of_anyRegister_eq_ok (h : anyRegister token = .ok r) : token.register? = some r :=
  (of_register_eq_ok h).1

theorem of_upperRegister_eq_ok {d : Fin 16} (h : upperRegister token = .ok d) :
    ∃ r, token.register? = some r ∧ r.val = 16 + d.val := by
  obtain ⟨r, hregister, rfl⟩ := of_map_eq_ok h
  obtain ⟨htoken, hlow, hhigh, -⟩ := of_register_eq_ok hregister
  refine ⟨r, htoken, ?_⟩
  rw [val_wrap (by omega)]
  omega

theorem of_registerPair_eq_ok {d : Fin 16} (h : registerPair token = .ok d) :
    ∃ r, token.register? = some r ∧ r.val = 2 * d.val := by
  obtain ⟨r, hregister, rfl⟩ := of_map_eq_ok h
  obtain ⟨htoken, -, hhigh, heven⟩ := of_register_eq_ok hregister
  have hmod := heven rfl
  refine ⟨r, htoken, ?_⟩
  rw [val_wrap (by omega)]
  omega

theorem of_upperPair_eq_ok {d : Fin 4} (h : upperPair token = .ok d) :
    ∃ r, token.register? = some r ∧ r.val = 24 + 2 * d.val := by
  obtain ⟨r, hregister, rfl⟩ := of_map_eq_ok h
  obtain ⟨htoken, hlow, hhigh, heven⟩ := of_register_eq_ok hregister
  have hmod := heven rfl
  refine ⟨r, htoken, ?_⟩
  rw [val_wrap (by omega)]
  omega

end Registers

/-! ## Values -/

section Values

variable {symbols : Symbols} {token : Token}

/-- The value of a number that is in range. -/
theorem value_of_literal {low high v : Int} (hkind : token.kind = .literal)
    (hvalue : token.literal? = some v) (hlow : low ≤ v) (hhigh : v ≤ high) :
    symbols.value token low high = .ok v := by
  unfold Symbols.value Symbols.rawValue
  rw [hkind, hvalue]
  exact if_neg (by omega)

theorem of_value_eq_ok {low high v : Int} (h : symbols.value token low high = .ok v) :
    symbols.rawValue token = .ok v ∧ low ≤ v ∧ v ≤ high := by
  unfold Symbols.value at h
  split at h
  · cases h
  · rename_i v' hraw
    split at h
    · cases h
    · cases h
      exact ⟨hraw, by omega, by omega⟩

theorem of_field_eq_ok {last : Nat} {k : Fin (last + 1)} (h : symbols.field last token = .ok k) :
    symbols.rawValue token = .ok k.val := by
  obtain ⟨v, hvalue, rfl⟩ := of_map_eq_ok h
  obtain ⟨hraw, hlow, hhigh⟩ := of_value_eq_ok hvalue
  rw [val_wrap (by omega), Int.toNat_of_nonneg hlow]
  exact hraw

theorem of_byte_eq_ok {k : UInt8} (h : symbols.byte token = .ok k) :
    ∃ v, symbols.rawValue token = .ok v ∧ (k.toNat : Int) = v % 256 := by
  obtain ⟨v, hvalue, rfl⟩ := of_map_eq_ok h
  refine ⟨v, (of_value_eq_ok hvalue).1, ?_⟩
  rw [UInt8.ofInt, UInt8.toNat_ofNat']
  omega

theorem of_address_eq_ok {k : UInt16} (h : symbols.address token = .ok k) :
    symbols.rawValue token = .ok k.toNat := by
  obtain ⟨v, hvalue, rfl⟩ := of_map_eq_ok h
  obtain ⟨hraw, hlow, hhigh⟩ := of_value_eq_ok hvalue
  have hword : v.toNat < 65536 := by omega
  rw [UInt16.toNat_ofNat_of_lt' hword, Int.toNat_of_nonneg hlow]
  exact hraw

theorem of_target_eq_ok {k : Nat} (h : symbols.target token = .ok k) :
    symbols.rawValue token = .ok (2 * k : Nat) ∧ k ≤ 4194303 := by
  unfold Symbols.target at h
  split at h
  · cases h
  · rename_i v hvalue
    obtain ⟨hraw, hlow, hhigh⟩ := of_value_eq_ok hvalue
    split at h
    · cases h
    · rename_i heven
      cases h
      have hk : ((2 * (v.toNat / 2) : Nat) : Int) = v := by omega
      rw [hk]
      exact ⟨hraw, by omega⟩

theorem signed_toNat_emod {half : Nat} {offset : Int} (hlow : -half ≤ offset)
    (hhigh : offset < half) : Machine.signed half (offset % (2 * half : Nat)).toNat = offset := by
  unfold Machine.signed
  by_cases hsign : 0 ≤ offset
  · rw [Int.emod_eq_of_lt hsign (by omega)]
    split <;> omega
  · rw [← Int.add_emod_right, Int.emod_eq_of_lt (by omega) (by omega)]
    split <;> omega

/-- A relative target is reached from the word behind the statement. -/
theorem of_relative_eq_ok {address : UInt32} {last : Nat} {k : Fin (last + 1)}
    (h : symbols.relative address last token = .ok k) (half : Nat) (hhalf : last + 1 = 2 * half) :
    ∃ target : Nat, symbols.rawValue token = .ok (2 * target : Nat) ∧
      (address.toNat / 2 : Nat) + 1 + Machine.signed half k.val = target := by
  unfold Symbols.relative at h
  split at h
  · cases h
  · rename_i target htarget
    refine ⟨target, (of_target_eq_ok htarget).1, ?_⟩
    have hlast : ((last : Int) + 1) = (2 * half : Nat) := by omega
    have hlimit : (last + 1) / 2 = half := by omega
    simp only [hlast, hlimit] at h
    split at h
    · cases h
    · rename_i hrange
      cases h
      have hmod := Int.emod_lt_of_pos (target - (address.toNat / 2 : Nat) - 1 : Int)
        (show (0 : Int) < (2 * half : Nat) by omega)
      rw [val_wrap (by omega), signed_toNat_emod (by omega) (by omega)]
      omega

end Values

/-! ## Pointers -/

/-- How an indirect access uses its pointer. -/
def use : Indirect → PointerMode
  | .x => .plain
  | .xInc | .yInc | .zInc => .postIncrement
  | .xDec | .yDec | .zDec => .preDecrement

/-- The accesses that a pointer operand means: the pointer is the one that the core goes through. -/
inductive Accesses : PointerOperand → Access → Prop
  | indirect (mode : Indirect) :
    Accesses ⟨Machine.indirectPointer mode, use mode⟩ (.indirect mode)
  | plain (y : Bool) {q : Fin 64} (hq : q.val = 0) :
    Accesses ⟨if y then .y else .z, .plain⟩ (.displaced y q)
  | displaced (y : Bool) (q : Fin 64) :
    Accesses ⟨if y then .y else .z, .displaced q.val⟩ (.displaced y q)

/-- What a token says about a pointer. -/
def Token.Points (token : Token) (operand : PointerOperand) : Prop :=
  token.kind = .pointer ∧ PointerOperand.parse? token.text = some operand

section Pointers

variable {token : Token}

theorem of_pointerOperand_eq_ok {operand : PointerOperand} (h : pointerOperand token = .ok operand) :
    token.Points operand := by
  unfold pointerOperand at h
  split at h
  · rename_i hkind hparse
    cases h
    exact ⟨hkind, hparse⟩
  · cases h

theorem ofSuffix?_x_ne_displaced (suffix : Bytes) (q : Int) :
    PointerMode.ofSuffix? .x suffix ≠ some (.displaced q) := by
  unfold PointerMode.ofSuffix?
  split <;> simp

/-- `X` takes no displacement. -/
theorem ne_x_of_parse?_displaced {text : Bytes} {pointer : Pointer} {q : Int}
    (h : PointerOperand.parse? text = some ⟨pointer, .displaced q⟩) : pointer ≠ .x := by
  rintro rfl
  unfold PointerOperand.parse? at h
  split at h
  · obtain ⟨_, -, hmode⟩ := Option.map_eq_some_iff.mp h
    cases hmode
  · split at h
    · cases h
    · obtain ⟨mode, hsuffix, hmode⟩ := Option.map_eq_some_iff.mp h
      cases hmode
      exact ofSuffix?_x_ne_displaced _ _ hsuffix
  · cases h

theorem of_access_eq_ok {a : Access} (h : access token = .ok a) :
    ∃ operand, token.Points operand ∧ Accesses operand a := by
  unfold access at h
  split at h
  · cases h
  · rename_i pointer mode hoperand
    have hpoints := of_pointerOperand_eq_ok hoperand
    refine ⟨_, hpoints, ?_⟩
    cases mode with
    | plain =>
      cases pointer with
      | x =>
        cases h
        exact .indirect .x
      | y =>
        cases h
        exact .plain true rfl
      | z =>
        cases h
        exact .plain false rfl
    | postIncrement =>
      cases pointer with
      | x =>
        cases h
        exact .indirect .xInc
      | y =>
        cases h
        exact .indirect .yInc
      | z =>
        cases h
        exact .indirect .zInc
    | preDecrement =>
      cases pointer with
      | x =>
        cases h
        exact .indirect .xDec
      | y =>
        cases h
        exact .indirect .yDec
      | z =>
        cases h
        exact .indirect .zDec
    | displaced q =>
      dsimp only at h
      split at h
      · cases h
      · cases h
        have hq : q = ((wrap 63 q.toNat).val : Int) := by
          rw [val_wrap (by omega)]
          omega
        -- The flag of the access tells `Y` from `Z` only; there is no third pointer here.
        have hbase : pointer = if pointer == .y then .y else .z := by
          cases pointer with
          | x => exact absurd rfl (ne_x_of_parse?_displaced hpoints.2)
          | y => rfl
          | z => rfl
        have haccesses := Accesses.displaced (pointer == .y) (wrap 63 q.toNat)
        rwa [← hq, ← hbase] at haccesses

theorem of_programPointer_eq_ok {inc : Bool} (h : programPointer token = .ok inc) :
    token.Points ⟨.z, if inc then .postIncrement else .plain⟩ := by
  unfold programPointer at h
  split at h
  · rename_i hkind hparse
    cases h
    exact ⟨hkind, hparse⟩
  · rename_i hkind hparse
    cases h
    exact ⟨hkind, hparse⟩
  · cases h

end Pointers

/-! ## Statements -/

/-- The instruction that a mnemonic with operands means in a statement at `address`. -/
inductive Stands (symbols : Symbols) (address : UInt32) : Mnemonic → List Token → Instr → Prop
  | plain (instr : Instr) : Stands symbols address (.plain instr) [] instr
  | binary {op : BinaryOp} {s t : Token} {d r : Fin 32} (hd : s.register? = some d)
    (hr : t.register? = some r) : Stands symbols address (.binary op) [s, t] (.binary op d r)
  | doubled {op : BinaryOp} {s : Token} {d : Fin 32} (hd : s.register? = some d) :
    Stands symbols address (.doubled op) [s] (.binary op d d)
  | immediate {op : ImmediateOp} {s t : Token} {r : Fin 32} {d : Fin 16} {k : UInt8} {v : Int}
    (hr : s.register? = some r) (hd : r.val = 16 + d.val) (hv : symbols.rawValue t = .ok v)
    (hk : (k.toNat : Int) = v % 256) :
    Stands symbols address (.immediate op) [s, t] (.immediate op d k)
  | ser {s : Token} {r : Fin 32} {d : Fin 16} (hr : s.register? = some r)
    (hd : r.val = 16 + d.val) : Stands symbols address .ser [s] (.immediate .ldi d 0xFF)
  | unary {op : UnaryOp} {s : Token} {d : Fin 32} (hd : s.register? = some d) :
    Stands symbols address (.unary op) [s] (.unary op d)
  | push {s : Token} {r : Fin 32} (hr : s.register? = some r) :
    Stands symbols address .push [s] (.push r)
  | pop {s : Token} {d : Fin 32} (hd : s.register? = some d) :
    Stands symbols address .pop [s] (.pop d)
  | movw {s t : Token} {x y : Fin 32} {d r : Fin 16} (hx : s.register? = some x)
    (hd : x.val = 2 * d.val) (hy : t.register? = some y) (hr : y.val = 2 * r.val) :
    Stands symbols address .movw [s, t] (.movw d r)
  | pair {op : PairOp} {s t : Token} {r : Fin 32} {d : Fin 4} {k : Fin 64}
    (hr : s.register? = some r) (hd : r.val = 24 + 2 * d.val)
    (hk : symbols.rawValue t = .ok k.val) : Stands symbols address (.pair op) [s, t] (.pair op d k)
  | rjmp {t : Token} {target : Nat} {k : Fin 4096} (ht : symbols.rawValue t = .ok (2 * target : Nat))
    (hk : (address.toNat / 2 : Nat) + 1 + Machine.signed 2048 k.val = target) :
    Stands symbols address .rjmp [t] (.rjmp k)
  | rcall {t : Token} {target : Nat} {k : Fin 4096} (ht : symbols.rawValue t = .ok (2 * target : Nat))
    (hk : (address.toNat / 2 : Nat) + 1 + Machine.signed 2048 k.val = target) :
    Stands symbols address .rcall [t] (.rcall k)
  | jmp {t : Token} {k : Fin 4194304} (hk : symbols.rawValue t = .ok (2 * k.val : Nat)) :
    Stands symbols address .jmp [t] (.jmp k)
  | call {t : Token} {k : Fin 4194304} (hk : symbols.rawValue t = .ok (2 * k.val : Nat)) :
    Stands symbols address .call [t] (.call k)
  | branch {s : Flag} {set : Bool} {t : Token} {target : Nat} {k : Fin 128}
    (ht : symbols.rawValue t = .ok (2 * target : Nat))
    (hk : (address.toNat / 2 : Nat) + 1 + Machine.signed 64 k.val = target) :
    Stands symbols address (.branch s set) [t] (.branch s set k)
  | input {s t : Token} {d : Fin 32} {a : Fin 64} (hd : s.register? = some d)
    (ha : symbols.rawValue t = .ok a.val) : Stands symbols address .input [s, t] (.input d a)
  | output {s t : Token} {a : Fin 64} {r : Fin 32} (ha : symbols.rawValue s = .ok a.val)
    (hr : t.register? = some r) : Stands symbols address .output [s, t] (.output a r)
  | ioBit {op : IoBitOp} {s t : Token} {a : Fin 32} {b : Fin 8}
    (ha : symbols.rawValue s = .ok a.val) (hb : symbols.rawValue t = .ok b.val) :
    Stands symbols address (.ioBit op) [s, t] (.ioBit op a b)
  | regBit {op : RegBitOp} {s t : Token} {r : Fin 32} {b : Fin 8} (hr : s.register? = some r)
    (hb : symbols.rawValue t = .ok b.val) :
    Stands symbols address (.regBit op) [s, t] (.regBit op r b)
  | lds {s t : Token} {d : Fin 32} {k : UInt16} (hd : s.register? = some d)
    (hk : symbols.rawValue t = .ok k.toNat) : Stands symbols address .lds [s, t] (.lds d k)
  | sts {s t : Token} {k : UInt16} {r : Fin 32} (hk : symbols.rawValue s = .ok k.toNat)
    (hr : t.register? = some r) : Stands symbols address .sts [s, t] (.sts k r)
  | load {s t : Token} {d : Fin 32} {operand : PointerOperand} {a : Access}
    (hd : s.register? = some d) (hpoints : t.Points operand) (ha : Accesses operand a) :
    Stands symbols address .load [s, t] (loadInstr d a)
  | store {s t : Token} {operand : PointerOperand} {a : Access} {r : Fin 32}
    (hpoints : s.Points operand) (ha : Accesses operand a) (hr : t.register? = some r) :
    Stands symbols address .store [s, t] (storeInstr a r)
  | lpmZero : Stands symbols address .lpm [] .lpmZero
  | lpm {s t : Token} {d : Fin 32} {inc : Bool} (hd : s.register? = some d)
    (hpoints : t.Points ⟨.z, if inc then .postIncrement else .plain⟩) :
    Stands symbols address .lpm [s, t] (.lpm d inc)

section Statements

variable {symbols : Symbols} {address : UInt32} {position : Position} {mnemonic : Mnemonic}
  {operands : List Token} {instr : Instr}

theorem stands_of_instruction
    (h : instruction symbols address position mnemonic operands = .ok instr) :
    Stands symbols address mnemonic operands instr := by
  unfold instruction at h
  split at h
  · cases h
    exact .plain _
  · obtain ⟨d, r, hd, hr, rfl⟩ := of_map₂_eq_ok h
    exact .binary (of_anyRegister_eq_ok hd) (of_anyRegister_eq_ok hr)
  · obtain ⟨d, hd, rfl⟩ := of_map_eq_ok h
    exact .doubled (of_anyRegister_eq_ok hd)
  · obtain ⟨d, k, hregister, hbyte, rfl⟩ := of_map₂_eq_ok h
    obtain ⟨r, hr, hd⟩ := of_upperRegister_eq_ok hregister
    obtain ⟨v, hv, hk⟩ := of_byte_eq_ok hbyte
    exact .immediate hr hd hv hk
  · obtain ⟨d, hregister, rfl⟩ := of_map_eq_ok h
    obtain ⟨r, hr, hd⟩ := of_upperRegister_eq_ok hregister
    exact .ser hr hd
  · obtain ⟨d, hd, rfl⟩ := of_map_eq_ok h
    exact .unary (of_anyRegister_eq_ok hd)
  · obtain ⟨r, hr, rfl⟩ := of_map_eq_ok h
    exact .push (of_anyRegister_eq_ok hr)
  · obtain ⟨d, hd, rfl⟩ := of_map_eq_ok h
    exact .pop (of_anyRegister_eq_ok hd)
  · obtain ⟨d, r, hpair, hpair', rfl⟩ := of_map₂_eq_ok h
    obtain ⟨x, hx, hd⟩ := of_registerPair_eq_ok hpair
    obtain ⟨y, hy, hr⟩ := of_registerPair_eq_ok hpair'
    exact .movw hx hd hy hr
  · obtain ⟨d, k, hpair, hk, rfl⟩ := of_map₂_eq_ok h
    obtain ⟨r, hr, hd⟩ := of_upperPair_eq_ok hpair
    exact .pair hr hd (of_field_eq_ok hk)
  · obtain ⟨k, hrelative, rfl⟩ := of_map_eq_ok h
    obtain ⟨target, ht, hk⟩ := of_relative_eq_ok hrelative 2048 rfl
    exact .rjmp ht hk
  · obtain ⟨k, hrelative, rfl⟩ := of_map_eq_ok h
    obtain ⟨target, ht, hk⟩ := of_relative_eq_ok hrelative 2048 rfl
    exact .rcall ht hk
  · obtain ⟨k, htarget, rfl⟩ := of_map_eq_ok h
    obtain ⟨hk, hlast⟩ := of_target_eq_ok htarget
    exact .jmp (by rw [val_wrap hlast]; exact hk)
  · obtain ⟨k, htarget, rfl⟩ := of_map_eq_ok h
    obtain ⟨hk, hlast⟩ := of_target_eq_ok htarget
    exact .call (by rw [val_wrap hlast]; exact hk)
  · obtain ⟨k, hrelative, rfl⟩ := of_map_eq_ok h
    obtain ⟨target, ht, hk⟩ := of_relative_eq_ok hrelative 64 rfl
    exact .branch ht hk
  · obtain ⟨d, a, hd, ha, rfl⟩ := of_map₂_eq_ok h
    exact .input (of_anyRegister_eq_ok hd) (of_field_eq_ok ha)
  · obtain ⟨a, r, ha, hr, rfl⟩ := of_map₂_eq_ok h
    exact .output (of_field_eq_ok ha) (of_anyRegister_eq_ok hr)
  · obtain ⟨a, b, ha, hb, rfl⟩ := of_map₂_eq_ok h
    exact .ioBit (of_field_eq_ok ha) (of_field_eq_ok hb)
  · obtain ⟨r, b, hr, hb, rfl⟩ := of_map₂_eq_ok h
    exact .regBit (of_anyRegister_eq_ok hr) (of_field_eq_ok hb)
  · obtain ⟨d, k, hd, hk, rfl⟩ := of_map₂_eq_ok h
    exact .lds (of_anyRegister_eq_ok hd) (of_address_eq_ok hk)
  · obtain ⟨k, r, hk, hr, rfl⟩ := of_map₂_eq_ok h
    exact .sts (of_address_eq_ok hk) (of_anyRegister_eq_ok hr)
  · obtain ⟨d, a, hd, haccess, rfl⟩ := of_map₂_eq_ok h
    obtain ⟨operand, hpoints, ha⟩ := of_access_eq_ok haccess
    exact .load (of_anyRegister_eq_ok hd) hpoints ha
  · obtain ⟨a, r, haccess, hr, rfl⟩ := of_map₂_eq_ok h
    obtain ⟨operand, hpoints, ha⟩ := of_access_eq_ok haccess
    exact .store hpoints ha (of_anyRegister_eq_ok hr)
  · cases h
    exact .lpmZero
  · split at h
    · cases h
    · rename_i d hd
      obtain ⟨inc, hinc, rfl⟩ := of_map_eq_ok h
      exact .lpm (of_anyRegister_eq_ok hd) (of_programPointer_eq_ok hinc)
  · cases h

/-- Of the instructions without operands that have names, none has a second word. -/
theorem extension?_of_mem_table {name : String} (h : (name, .plain instr) ∈ Mnemonic.table) :
    instr.extension? = none := by
  have hall : ∀ entry ∈ Mnemonic.table,
      (match entry.2 with | .plain i => i.extension? | _ => none) = none := by decide
  exact hall _ h

/-- The size of an instruction is the one that its mnemonic announces. -/
theorem size_of_stands {name : String} (hname : (name, mnemonic) ∈ Mnemonic.table)
    (h : Stands symbols address mnemonic operands instr) : instr.size = mnemonic.size := by
  cases h with
  | plain => simp [Instr.size, extension?_of_mem_table hname, Mnemonic.size]
  | load hd hpoints ha => cases ha <;> rfl
  | store hpoints ha hr => cases ha <;> rfl
  | _ => rfl

end Statements

/-! ## Refusals -/

/-- What is refused is refused with errors, and each of them satisfies `P`. -/
def Checked.Refused {α : Type} (x : Checked α) (P : Error → Prop) : Prop :=
  ∀ errors, x = .error errors → errors ≠ [] ∧ ∀ e ∈ errors, P e

namespace Checked.Refused

variable {α β γ : Type} {P Q : Error → Prop}

theorem ok (a : α) : Refused (.ok a) P := nofun

theorem error {e : Error} (h : P e) : Refused (.error [e] : Checked α) P := by
  rintro errors ⟨⟩
  exact ⟨List.cons_ne_nil _ _, by simpa using h⟩

/-- The errors of one check, handed on as those of another. -/
theorem of_error {x : Checked α} {errors : List Error} (h : x.Refused P) (hx : x = .error errors) :
    Refused (.error errors : Checked β) P := by
  rintro _ ⟨⟩
  exact h errors hx

theorem map {x : Checked α} (h : x.Refused P) (f : α → β) : Refused (x.map f) P := by
  cases x with
  | ok a => exact ok (f a)
  | error errors => exact h.of_error rfl

theorem map₂ {x : Checked α} {y : Checked β} (hx : x.Refused P) (hy : y.Refused P)
    (f : α → β → γ) : Refused (Checked.map₂ f x y) P := by
  apply map
  rcases x with errors | a <;> rcases y with more | b
  · rintro _ ⟨⟩
    obtain ⟨hne, hfirst⟩ := hx errors rfl
    obtain ⟨-, hsecond⟩ := hy more rfl
    refine ⟨List.append_ne_nil_of_left_ne_nil hne _, ?_⟩
    intro e he
    rcases List.mem_append.mp he with he | he
    · exact hfirst e he
    · exact hsecond e he
  · exact hx.of_error rfl
  · exact hy.of_error rfl
  · exact ok (a, b)

theorem mono {x : Checked α} (h : x.Refused P) (hPQ : ∀ e, P e → Q e) : x.Refused Q := by
  intro errors hx
  obtain ⟨hne, hall⟩ := h errors hx
  exact ⟨hne, fun e he => hPQ e (hall e he)⟩

end Checked.Refused

/-- The error is about the token, as an operand. -/
def Token.Accused (t : Token) (e : Error) : Prop :=
  e.position? = some t.position ∧ (t.kind = TokenKind.ofText t.text → e.Blames .operand t.text)

theorem Token.eq_ofText {t : Token} (h : t.kind = TokenKind.ofText t.text) :
    Token.ofText t.position t.text = t := by
  unfold Token.ofText
  rw [← h]

/-- The error is about one of the operands, or about their number. -/
def Faulty (position : Position) (operands : List Token) (e : Error) : Prop :=
  (∃ t ∈ operands, t.Accused e) ∨
    ∃ required, operands.length ≠ required ∧ e = .operandCount position required operands.length

theorem Checked.Refused.first {α : Type} {x : Checked α} {t : Token} (h : x.Refused t.Accused)
    (position : Position) (rest : List Token) : x.Refused (Faulty position (t :: rest)) :=
  h.mono fun _ he => .inl ⟨t, List.mem_cons_self, he⟩

theorem Checked.Refused.second {α : Type} {x : Checked α} {t : Token} (h : x.Refused t.Accused)
    (position : Position) (first : Token) (rest : List Token) :
    x.Refused (Faulty position (first :: t :: rest)) :=
  h.mono fun _ he => .inl ⟨t, List.mem_cons_of_mem _ List.mem_cons_self, he⟩

section Refusals

open Checked

variable (symbols : Symbols) (token : Token)

theorem refused_register (low high : Nat) (even : Bool) :
    Refused (register token low high even) token.Accused := by
  unfold register
  split
  · rename_i r hr
    split
    · rename_i hbad
      refine .error ⟨rfl, fun hkind => .register ?_⟩
      rw [Token.eq_ofText hkind, hr]
      rintro other ⟨⟩
      simpa [or_assoc] using hbad
    · exact .ok _
  · rename_i hnone
    refine .error ⟨rfl, fun hkind => .register ?_⟩
    rw [Token.eq_ofText hkind, hnone]
    nofun

theorem refused_rawValue : Refused (symbols.rawValue token) token.Accused := by
  have hliteral (hnone : token.literal? = none) :
      Refused (.error [.invalidLiteral token.position] : Checked Int) token.Accused := by
    refine .error ⟨rfl, fun hkind => .literal ?_⟩
    rw [Token.eq_ofText hkind, hnone]
  unfold Symbols.rawValue
  split
  · split
    · exact .ok _
    · exact hliteral (by assumption)
  · split
    · exact .ok _
    · exact hliteral (by assumption)
  · rename_i hname
    split
    · exact .ok _
    · exact .error ⟨rfl, fun hkind => .unknownSymbol (hkind.symm.trans hname)⟩
  · refine .error ⟨rfl, fun hkind => ?_⟩
    rw [hkind]
    exact .operand _

theorem refused_value (low high : Int) :
    Refused (symbols.value token low high) token.Accused := by
  unfold Symbols.value
  split
  · rename_i errors herrors
    exact (refused_rawValue symbols token).of_error herrors
  · split
    · rename_i hrange
      exact .error ⟨rfl, fun _ => .range hrange⟩
    · exact .ok _

theorem refused_target : Refused (symbols.target token) token.Accused := by
  unfold Symbols.target
  split
  · rename_i errors herrors
    exact (refused_value symbols token 0 0x7FFFFF).of_error herrors
  · split
    · exact .error ⟨rfl, fun _ => .unaligned _⟩
    · exact .ok _

theorem refused_relative (address : UInt32) (last : Nat) :
    Refused (symbols.relative address last token) token.Accused := by
  unfold Symbols.relative
  split
  · rename_i errors herrors
    exact (refused_target symbols token).of_error herrors
  · dsimp only
    split
    · rename_i hrange
      exact .error ⟨rfl, fun _ => .range (by omega)⟩
    · exact .ok _

theorem refused_access : Refused (access token) token.Accused := by
  have hpointer : Refused (pointerOperand token) token.Accused := by
    unfold pointerOperand
    split
    · exact .ok _
    · refine .error ⟨rfl, fun hkind => ?_⟩
      rw [hkind]
      exact .operand _
  unfold access
  split
  · rename_i errors herrors
    exact hpointer.of_error herrors
  · split
    case h_10 =>
      split
      · rename_i hrange
        exact .error ⟨rfl, fun _ => .range hrange⟩
      · exact .ok _
    all_goals exact .ok _

theorem refused_programPointer : Refused (programPointer token) token.Accused := by
  unfold programPointer
  split
  · exact .ok _
  · exact .ok _
  · refine .error ⟨rfl, fun hkind => ?_⟩
    rw [hkind]
    exact .operand _

/-- A statement that is no instruction is refused with errors about its operands. -/
theorem refused_instruction (address : UInt32) (position : Position) (mnemonic : Mnemonic)
    (operands : List Token) :
    Refused (instruction symbols address position mnemonic operands) (Faulty position operands) := by
  have hregister := fun token => refused_register token 0 31 false
  have hupper := fun token => (refused_register token 16 31 false).map fun r => wrap 15 (r.val - 16)
  have hpair := fun token => (refused_register token 0 30 true).map fun r => wrap 15 (r.val / 2)
  have hupperPair := fun token =>
    (refused_register token 24 30 true).map fun r => wrap 3 ((r.val - 24) / 2)
  have hfield := fun last token =>
    (refused_value symbols token 0 (last : Nat)).map fun value => wrap last value.toNat
  have hbyte := fun token => (refused_value symbols token (-128) 255).map UInt8.ofInt
  have haddress := fun token =>
    (refused_value symbols token 0 0xFFFF).map fun value => UInt16.ofNat value.toNat
  unfold instruction
  split
  · exact .ok _
  · exact .map₂ ((hregister _).first _ _) ((hregister _).second _ _ _) _
  · exact .map ((hregister _).first _ _) _
  · exact .map₂ ((hupper _).first _ _) ((hbyte _).second _ _ _) _
  · exact .map ((hupper _).first _ _) _
  · exact .map ((hregister _).first _ _) _
  · exact .map ((hregister _).first _ _) _
  · exact .map ((hregister _).first _ _) _
  · exact .map₂ ((hpair _).first _ _) ((hpair _).second _ _ _) _
  · exact .map₂ ((hupperPair _).first _ _) ((hfield 63 _).second _ _ _) _
  · exact .map ((refused_relative symbols _ address 4095).first _ _) _
  · exact .map ((refused_relative symbols _ address 4095).first _ _) _
  · exact .map ((refused_target symbols _).first _ _) _
  · exact .map ((refused_target symbols _).first _ _) _
  · exact .map ((refused_relative symbols _ address 127).first _ _) _
  · exact .map₂ ((hregister _).first _ _) ((hfield 63 _).second _ _ _) _
  · exact .map₂ ((hfield 63 _).first _ _) ((hregister _).second _ _ _) _
  · exact .map₂ ((hfield 31 _).first _ _) ((hfield 7 _).second _ _ _) _
  · exact .map₂ ((hregister _).first _ _) ((hfield 7 _).second _ _ _) _
  · exact .map₂ ((hregister _).first _ _) ((haddress _).second _ _ _) _
  · exact .map₂ ((haddress _).first _ _) ((hregister _).second _ _ _) _
  · exact .map₂ ((hregister _).first _ _) ((refused_access _).second _ _ _) _
  · exact .map₂ ((refused_access _).first _ _) ((hregister _).second _ _ _) _
  · exact .ok _
  · split
    · rename_i errors herrors
      exact ((hregister _).first _ _).of_error herrors
    · exact .map ((refused_programPointer _).second _ _ _) _
  · refine .error (.inr ⟨_, ?_, rfl⟩)
    clear hregister hupper hpair hupperPair hfield hbyte haddress
    -- operands of the right number would have been looked at
    intro hcount
    rcases operands with _ | ⟨_, _ | ⟨_, _ | _⟩⟩ <;> cases mnemonic <;> cases hcount <;> simp_all

end Refusals

end Asm

end AvrSim
