import AvrSim.Proofs.Asm.Jumps
import AvrSim.Proofs.Core.Arithmetic
import AvrSim.Proofs.Core.Reachable

/-!
# The stack

Pushes, calls and interrupts put bytes on the stack; pops and returns take them back. In a well-nested
sequence of these, with anything else in between that lets the stack alone, every byte comes back where
it was pushed from and every return leads behind its call.

* `Deed` is what a core does with its stack, `Nested` says that a sequence of deeds is well nested.
* `Intact` is what such a sequence leaves: the stack pointer and all that lay on the stack before.
* `intact_of_matches` is one pair with a kept stack in between, `intact_of_nested` the whole sequence.
* `stack_lifo` is the statement about every pair of every well-nested sequence.
-/

namespace AvrSim

/-- An instruction that pushes the address behind it. -/
def Instr.isCall : Instr → Bool
  | .rcall _ | .icall | .call _ => true
  | _ => false

namespace Machine

/-! ## Deeds -/

/-- What a core does with its stack. Anything else it does is told by the machine afterwards. -/
inductive Deed where
  | push (r : Fin 32)
  | pop (d : Fin 32)
  | call (instr : Instr)
  | ret
  | enter
  | reti
  | other (after : Machine)

/-- The machine after a deed. An interrupt is entered when interrupts are looked at; the others are
instructions. -/
def Deed.run (m : Machine) : Deed → Machine
  | .enter => m.serviceInterrupts
  | .other after => after
  | _ => m.execute

/-- The machine after a sequence of deeds. -/
def after (deeds : List Deed) (m : Machine) : Machine := deeds.foldl Deed.run m

/-- A deed takes back what another one puts on the stack. -/
inductive Matches : Deed → Deed → Prop
  | byte (r d : Fin 32) : Matches (.push r) (.pop d)
  | call (instr : Instr) : Matches (.call instr) .ret
  | interrupt : Matches .enter .reti

/-- All that is put on the stack is taken back, the last first. -/
inductive Nested : List Deed → Prop
  | nil : Nested []
  | other (after : Machine) : Nested [.other after]
  | append {first second : List Deed} (h : Nested first) (h' : Nested second) :
    Nested (first ++ second)
  | wrap {opening closing : Deed} {body : List Deed} (hpair : Matches opening closing)
    (h : Nested body) : Nested (opening :: (body ++ [closing]))

/-- The core runs and comes to an instruction. -/
structure Meets (m : Machine) (instr : Instr) : Prop where
  running : m.run = .running
  inside : m.program ≤ m.codeEnd
  holds : m.Holds m.program instr.encode

/-- An address in the SRAM of the part. -/
def InRam (m : Machine) (address : Nat) : Prop := 0x100 ≤ address ∧ address ≤ m.model.ramEnd.toNat

/-- An address that can be pushed and found again: it is even, and its word address has 16 bits. -/
def Returnable (pc : UInt32) : Prop := pc.toNat % 2 = 0 ∧ pc.toNat < 2 ^ 17

/-- The deed is what a core does next. Pushed bytes come to lie in the SRAM, and whatever else is done
changes neither the stack pointer nor a byte from above it up to `base`. -/
def Deed.Fits (base : Nat) (m : Machine) : Deed → Prop
  | .push r => m.Meets (.push r) ∧ m.InRam m.data.sp.toNat
  | .pop d => m.Meets (.pop d)
  | .call instr => m.Meets instr ∧ instr.isCall ∧ m.InRam m.data.sp.toNat ∧
      m.InRam (m.data.sp.toNat - 1) ∧ Returnable (m.program + UInt32.ofNat instr.size)
  | .ret => m.Meets .ret
  | .enter => m.dueVector?.isSome ∧ m.InRam m.data.sp.toNat ∧ m.InRam (m.data.sp.toNat - 1) ∧
      Returnable m.program
  | .reti => m.Meets .reti
  | .other after => after.model = m.model ∧ after.data.size = m.data.size ∧
      after.data.sp = m.data.sp ∧
      ∀ x, m.data.sp.toNat < x → x ≤ base → after.data.get x = m.data.get x

/-- The deeds are what a core does, one after the other. -/
def Fits (base : Nat) : List Deed → Machine → Prop
  | [], _ => True
  | deed :: deeds, m => deed.Fits base m ∧ Fits base deeds (deed.run m)

variable {base : Nat} {deeds first second : List Deed} {m m' k k' : Machine}

theorem after_append : after (first ++ second) m = after second (after first m) := List.foldl_append

theorem fits_append :
    Fits base (first ++ second) m ↔ Fits base first m ∧ Fits base second (after first m) := by
  induction first generalizing m with
  | nil => simp [Fits, after]
  | cons deed first ih => simp [Fits, after, ih, and_assoc]

/-! ## Growing and shrinking -/

/-- A machine with the data space of its part. -/
structure Housed (m : Machine) : Prop where
  model : m.model ∈ Model.all
  size : m.data.size = m.model.dataSize

/-- The part and the size of its data space are as before. -/
structure SameHouse (m m' : Machine) : Prop where
  model : m'.model = m.model
  size : m'.data.size = m.data.size

/-- The stack has `n` more bytes, and what lay on it before is still there. -/
structure Grows (n : Nat) (m m' : Machine) : Prop extends SameHouse m m' where
  sp : m'.data.sp.toNat + n = m.data.sp.toNat
  above : ∀ x, m.data.sp.toNat < x → m'.data.get x = m.data.get x

/-- The stack has `n` bytes less, and what lies on it is what lay there before. -/
structure Shrinks (n : Nat) (m m' : Machine) : Prop extends SameHouse m m' where
  sp : m'.data.sp.toNat = m.data.sp.toNat + n
  above : ∀ x, m'.data.sp.toNat < x → m'.data.get x = m.data.get x

/-- The stack pointer and the bytes above it are as before, up to `base`. -/
structure Intact (base : Nat) (m m' : Machine) : Prop extends SameHouse m m' where
  sp : m'.data.sp = m.data.sp
  above : ∀ x, m.data.sp.toNat < x → x ≤ base → m'.data.get x = m.data.get x

theorem SameHouse.housed (h : SameHouse m m') (hm : m.Housed) : m'.Housed := by
  refine ⟨?_, ?_⟩
  · rw [h.model]
    exact hm.model
  · rw [h.size, h.model]
    exact hm.size

theorem SameHouse.inRam {x : Nat} (h : SameHouse m m') (hx : m.InRam x) : m'.InRam x := by
  unfold InRam
  rw [h.model]
  exact hx

theorem SameHouse.trans (h : SameHouse m m') (h' : SameHouse m' k) : SameHouse m k :=
  ⟨h'.model.trans h.model, h'.size.trans h.size⟩

theorem sameHouse_of_access (h : Core.Access m.toCore m'.toCore) : SameHouse m m' :=
  ⟨h.model, h.size⟩

theorem Intact.refl : Intact base m m := ⟨⟨rfl, rfl⟩, rfl, fun _ _ _ => rfl⟩

theorem Intact.trans (h : Intact base m m') (h' : Intact base m' k) : Intact base m k where
  toSameHouse := h.toSameHouse.trans h'.toSameHouse
  sp := h'.sp.trans h.sp
  above := by
    intro x hx hbase
    rw [h'.above x (by rw [h.sp]; exact hx) hbase, h.above x hx hbase]

/-- What is between growing and shrinking by as much keeps the stack if it keeps the larger one. -/
theorem intact_of_grows {n : Nat} (hgrows : Grows n m k) (hintact : Intact base k k')
    (hshrinks : Shrinks n k' m') : Intact base m m' where
  toSameHouse := (hgrows.toSameHouse.trans hintact.toSameHouse).trans hshrinks.toSameHouse
  sp := by
    have hout := hshrinks.sp
    have hin := hgrows.sp
    rw [hintact.sp] at hout
    exact UInt16.toNat_inj.mp (by omega)
  above := by
    intro x hx hbase
    have hout := hshrinks.sp
    have hin := hgrows.sp
    rw [hintact.sp] at hout
    rw [hshrinks.above x (by omega), hintact.above x (by omega) hbase, hgrows.above x hx]

theorem Housed.room (h : m.Housed) : 0x100 ≤ m.data.size := by
  rw [h.size]
  exact (roomy_of_mem_all m.model h.model).1

theorem Housed.isPlain (h : m.Housed) {address : UInt16} (haddress : m.InRam address.toNat) :
    m.IsPlain address := by
  obtain ⟨hlow, hhigh⟩ := haddress
  obtain ⟨-, huart, -⟩ := roomy_of_mem_all m.model h.model
  refine ⟨?_, ?_, ?_, ?_⟩
  · rw [h.size, Model.dataSize]
    omega
  · unfold uartOffset?
    dsimp only
    rw [if_neg (by omega)]
  · simp only [splAddress]
    omega
  · simp only [sphAddress]
    omega

/-! ## One byte -/

theorem toNat_sp_sub_one (h : m.InRam m.data.sp.toNat) :
    (m.data.sp - 1).toNat + 1 = m.data.sp.toNat := by
  have hlow := h.1
  rw [UInt16.toNat_sub_of_le _ _ (UInt16.le_iff_toNat_le.mpr (by simp; omega))]
  simp
  omega

theorem toNat_sp_add_one (h : m.InRam (m.data.sp.toNat + 1)) :
    (m.data.sp + 1).toNat = m.data.sp.toNat + 1 := by
  have hhigh := h.2
  have hend := m.model.ramEnd.toNat_lt
  rw [UInt16.toNat_add]
  simp
  omega

theorem grows_push (h : m.Housed) (hram : m.InRam m.data.sp.toNat) (value : UInt8) :
    Grows 1 m (m.push value) ∧ (m.push value).data.get m.data.sp.toNat = value ∧
      (m.push value).data.status = m.data.status := by
  have hplain := h.isPlain hram
  have hroom := h.room
  have hdata := data_push hplain value
  have hlow := hram.1
  refine ⟨⟨sameHouse_of_access (access_push m value), ?_, ?_⟩, ?_, ?_⟩
  · rw [hdata, sp_setSp (by simp [sphAddress]; omega)]
    exact toNat_sp_sub_one hram
  · intro x hx
    rw [hdata, get_setSp_of_ne (by simp [splAddress]; omega) (by simp [sphAddress]; omega),
      Memory.get_set, if_neg (by omega)]
  · rw [hdata, get_setSp_of_ne hplain.low hplain.high, Memory.get_set,
      if_pos ⟨rfl, hplain.inside⟩]
  · unfold Memory.status
    rw [hdata, get_setSp_of_ne (by decide) (by decide), Memory.get_set,
      if_neg (by simp only [sregAddress]; omega)]

theorem pop_of_isPlain (h : m.IsPlain (m.data.sp + 1)) :
    m.pop.1 = m.data.get (m.data.sp + 1).toNat ∧
      m.pop.2.data = m.data.setSp (m.data.sp + 1) := by
  have hsilent : ({ m with data := m.data.setSp (m.data.sp + 1) } : Machine).uartOffset?
      (m.data.sp + 1) = none := h.silent
  have hinside : (m.data.sp + 1).toNat < (m.data.setSp (m.data.sp + 1)).size := by
    rw [Memory.size_setSp]
    exact h.inside
  unfold pop
  dsimp only
  rw [read_eq, if_pos hinside]
  unfold update
  rw [hsilent]
  dsimp only
  refine ⟨get_setSp_of_ne h.low h.high, ?_⟩
  unfold noted onCore Core.noteAccess
  dsimp only
  split <;> rfl

theorem shrinks_pop (h : m.Housed) (hram : m.InRam (m.data.sp.toNat + 1)) :
    Shrinks 1 m m.pop.2 ∧ m.pop.1 = m.data.get (m.data.sp.toNat + 1) ∧
      ∀ x, x ≠ splAddress → x ≠ sphAddress → m.pop.2.data.get x = m.data.get x := by
  have hsp := toNat_sp_add_one hram
  have hroom := h.room
  have hlow := hram.1
  obtain ⟨hvalue, hdata⟩ := pop_of_isPlain (h.isPlain (hsp ▸ hram))
  have hothers : ∀ x, x ≠ splAddress → x ≠ sphAddress → m.pop.2.data.get x = m.data.get x := by
    intro x hspl hsph
    rw [hdata, get_setSp_of_ne hspl hsph]
  have hpopped : m.pop.2.data.sp.toNat = m.data.sp.toNat + 1 := by
    rw [hdata, sp_setSp (by simp [sphAddress]; omega), hsp]
  refine ⟨⟨sameHouse_of_access (access_pop m), hpopped, ?_⟩, ?_, hothers⟩
  · intro x hx
    exact hothers x (by simp only [splAddress]; omega) (by simp only [sphAddress]; omega)
  · rw [hvalue, hsp]

/-! ## Return addresses -/

theorem Grows.trans {n n' : Nat} (h : Grows n m m') (h' : Grows n' m' k) : Grows (n' + n) m k where
  toSameHouse := h.toSameHouse.trans h'.toSameHouse
  sp := by
    have hfirst := h.sp
    have hsecond := h'.sp
    omega
  above := by
    intro x hx
    have hfirst := h.sp
    rw [h'.above x (by omega), h.above x hx]

theorem Shrinks.trans {n n' : Nat} (h : Shrinks n m m') (h' : Shrinks n' m' k) :
    Shrinks (n + n') m k where
  toSameHouse := h.toSameHouse.trans h'.toSameHouse
  sp := by
    have hfirst := h.sp
    have hsecond := h'.sp
    omega
  above := by
    intro x hx
    have hsecond := h'.sp
    rw [h'.above x hx, h.above x (by omega)]

theorem Grows.of_data {n : Nat} (h : Grows n m k) (hmodel : k'.model = k.model)
    (hdata : k'.data = k.data) : Grows n m k' where
  model := hmodel.trans h.model
  size := by rw [hdata, h.size]
  sp := by rw [hdata, h.sp]
  above := by
    rw [hdata]
    exact h.above

theorem Shrinks.of_data {n : Nat} (h : Shrinks n m k) (hmodel : k'.model = k.model)
    (hdata : k'.data = k.data) : Shrinks n m k' where
  model := hmodel.trans h.model
  size := by rw [hdata, h.size]
  sp := by rw [hdata, h.sp]
  above := by
    rw [hdata]
    exact h.above

theorem Grows.refl : Grows 0 m m := ⟨⟨rfl, rfl⟩, rfl, fun _ _ => rfl⟩

theorem Grows.shrinks (h : Grows 0 m k) : Shrinks 0 m k where
  toSameHouse := h.toSameHouse
  sp := h.sp
  above := by
    have hsp := h.sp
    exact fun x hx => h.above x (by omega)

/-- A byte below the stack that is not the stack pointer's. -/
theorem grows_set {d : Nat} {value : UInt8} (hlow : d ≠ splAddress) (hhigh : d ≠ sphAddress)
    (hd : d ≤ m.data.sp.toNat) (hmodel : k.model = m.model) (hdata : k.data = m.data.set d value) :
    Grows 0 m k := by
  have hsp : k.data.sp = m.data.sp := by
    rw [hdata]
    unfold Memory.sp Memory.getWord
    rw [Memory.get_set, if_neg fun h => hlow h.1, Memory.get_set, if_neg fun h => hhigh h.1]
  refine ⟨⟨hmodel, by rw [hdata, Memory.size_set]⟩, by rw [hsp]; rfl, ?_⟩
  intro x hx
  rw [hdata, Memory.get_set, if_neg (by omega)]

/-- The bytes of a word address lie on top of the stack, the high one above. -/
structure Tops (word : UInt32) (data : Memory) : Prop where
  high : data.get (data.sp.toNat + 1) = (word >>> 8).toUInt8
  low : data.get (data.sp.toNat + 2) = word.toUInt8

theorem grows_pushAddress (h : m.Housed) (hram : m.InRam m.data.sp.toNat)
    (hbelow : m.InRam (m.data.sp.toNat - 1)) (word : UInt32) :
    Grows 2 m (m.pushAddress word) ∧ Tops word (m.pushAddress word).data ∧
      (m.pushAddress word).data.status = m.data.status := by
  obtain ⟨hfirst, hlow, hstatus⟩ := grows_push h hram word.toUInt8
  have hsp := hfirst.sp
  have hram' : (m.push word.toUInt8).InRam (m.push word.toUInt8).data.sp.toNat := by
    apply hfirst.inRam
    rwa [show (m.push word.toUInt8).data.sp.toNat = m.data.sp.toNat - 1 by omega]
  obtain ⟨hsecond, hhigh, hstatus'⟩ := grows_push (hfirst.housed h) hram' (word >>> 8).toUInt8
  have hboth : Grows 2 m (m.pushAddress word) := hfirst.trans hsecond
  have htop : (m.pushAddress word).data.sp.toNat + 1 = (m.push word.toUInt8).data.sp.toNat :=
    hsecond.sp
  refine ⟨hboth, ⟨?_, ?_⟩, hstatus'.trans hstatus⟩
  · rw [htop]
    exact hhigh
  · rw [hboth.sp, ← hlow]
    exact hsecond.above m.data.sp.toNat (by omega)

theorem Tops.of_intact {word : UInt32} (h : Tops word m.data) (hintact : Intact base m m')
    (hbase : m.data.sp.toNat + 2 ≤ base) : Tops word m'.data where
  high := by
    rw [hintact.sp, hintact.above _ (by omega) (by omega)]
    exact h.high
  low := by
    rw [hintact.sp, hintact.above _ (by omega) hbase]
    exact h.low

theorem address_of_bytes {pc : UInt32} (h : Returnable pc) :
    (((pc >>> 1) >>> 8).toUInt8.toUInt32 <<< 8 ||| (pc >>> 1).toUInt8.toUInt32) <<< 1 = pc := by
  obtain ⟨heven, hlimit⟩ := h
  have hword : (pc >>> 1).toNat = pc.toNat / 2 := by
    rw [UInt32.toNat_shiftRight, Nat.shiftRight_eq_div_pow]
    rfl
  have hhigh : (pc.toNat / 2 / 256 % 256) <<< 8 % 2 ^ 32 = (pc.toNat / 2 / 256) <<< 8 := by
    rw [Nat.shiftLeft_eq, Nat.shiftLeft_eq]
    omega
  have hsum := Nat.shiftLeft_add_eq_or_of_lt (show pc.toNat / 2 % 256 < 2 ^ 8 by omega)
    (pc.toNat / 2 / 256)
  apply UInt32.toNat_inj.mp
  simp only [UInt32.toNat_shiftLeft, UInt32.toNat_or, UInt8.toNat_toUInt32, UInt32.toNat_toUInt8,
    UInt32.toNat_shiftRight (pc >>> 1), hword, Nat.shiftRight_eq_div_pow]
  change ((pc.toNat / 2 / 256 % 256) <<< 8 % 2 ^ 32 ||| pc.toNat / 2 % 256) <<< 1 % 2 ^ 32 = pc.toNat
  rw [hhigh, ← hsum, Nat.shiftLeft_eq, Nat.shiftLeft_eq]
  omega

theorem shrinks_popAddress (h : m.Housed) (hram : m.InRam (m.data.sp.toNat + 1))
    (habove : m.InRam (m.data.sp.toNat + 2)) {word : UInt32} (htops : Tops word m.data) :
    Shrinks 2 m m.popAddress.2 ∧
      m.popAddress.1 = (word >>> 8).toUInt8.toUInt32 <<< 8 ||| word.toUInt8.toUInt32 ∧
      m.popAddress.2.data.status = m.data.status := by
  obtain ⟨hfirst, hhigh, hothers⟩ := shrinks_pop h hram
  have hram' : m.pop.2.InRam (m.pop.2.data.sp.toNat + 1) := by
    rw [hfirst.sp]
    exact hfirst.inRam habove
  obtain ⟨hsecond, hlow, hothers'⟩ := shrinks_pop (hfirst.housed h) hram'
  have hsame : m.pop.2.data.get (m.pop.2.data.sp.toNat + 1) = m.data.get (m.data.sp.toNat + 2) := by
    rw [hfirst.above _ (Nat.lt_succ_self _), hfirst.sp]
  rw [popAddress_snd]
  refine ⟨hfirst.trans hsecond, ?_, ?_⟩
  · simp only [popAddress]
    rw [hhigh, hlow, hsame, htops.high, htops.low]
  · exact (hothers' _ (by decide) (by decide)).trans (hothers _ (by decide) (by decide))

/-- A return takes the address from the stack and goes there. -/
theorem shrinks_returnFrom (h : m.Housed) (hram : m.InRam (m.data.sp.toNat + 1))
    (habove : m.InRam (m.data.sp.toNat + 2)) {pc : UInt32} (htops : Tops (pc >>> 1) m.data)
    (hpc : Returnable pc) :
    Shrinks 2 m m.returnFrom ∧ m.returnFrom.program = pc ∧
      m.returnFrom.data.status = m.data.status := by
  obtain ⟨hshrinks, haddress, hstatus⟩ := shrinks_popAddress h hram habove htops
  unfold returnFrom
  generalize m.popAddress = popped at *
  obtain ⟨address, k⟩ := popped
  obtain rfl : address = _ := haddress
  exact ⟨hshrinks.of_data rfl rfl, address_of_bytes hpc, hstatus⟩

/-! ## The status register -/

theorem status_ext {status other : Status} (h : ∀ f : Flag, status.get f.val = other.get f.val) :
    status = other := by
  apply UInt8.toNat_inj.mp
  apply Nat.eq_of_testBit_eq
  intro i
  by_cases hi : i < 8
  · exact h ⟨i, hi⟩
  · have hpow : 256 ≤ 2 ^ i := Nat.pow_le_pow_right (i := 8) (n := 2) (by decide) (by omega)
    rw [Nat.testBit_lt_two_pow (Nat.lt_of_lt_of_le status.toNat_lt hpow),
      Nat.testBit_lt_two_pow (Nat.lt_of_lt_of_le other.toNat_lt hpow)]

/-- Interrupts that were on are on again. -/
theorem put_put_i {status : Status} (h : status.get Flag.i.val) :
    (status.put .i false).put .i true = status := by
  apply status_ext
  intro f
  rw [Status.get_put, Status.get_put]
  by_cases hf : f = Flag.i
  · rw [if_pos hf, hf]
    exact h.symm
  · rw [if_neg hf, if_neg hf]

/-! ## Opening deeds -/

theorem execute_of_meets {instr : Instr} (h : m.Meets instr) :
    m.execute = (m.behind instr).perform instr :=
  execute_of_holds h.running (UInt32.not_lt.mpr h.inside) h.holds

theorem model_behind {instr : Instr} : (m.behind instr).model = m.model := by
  unfold behind
  rw [traceStep_eq]

theorem grows_behind {instr : Instr} : Grows 0 m (m.behind instr) :=
  Grows.refl.of_data model_behind data_behind

theorem inRam_behind {instr : Instr} {x : Nat} (h : m.InRam x) : (m.behind instr).InRam x :=
  grows_behind.inRam h

theorem grows_of_push (h : m.Housed) {r : Fin 32} (hfit : (Deed.push r).Fits base m) :
    Grows 1 m m.execute ∧ m.execute.data.get m.data.sp.toNat = m.data.get r.val := by
  obtain ⟨hmeets, hram⟩ := hfit
  have hdata : (m.behind (.push r)).data = m.data := data_behind
  obtain ⟨hgrows, hvalue, -⟩ := grows_push (m := m.behind (.push r)) (grows_behind.housed h)
    (by rw [hdata]; exact inRam_behind hram) (m.data.get r.val)
  rw [hdata] at hvalue
  have hboth := grows_behind.trans hgrows
  rw [execute_of_meets hmeets, perform, hdata]
  generalize (m.behind (.push r)).push (m.data.get r.val) = pushed at *
  exact ⟨hboth.of_data rfl rfl, hvalue⟩

theorem perform_of_isCall {instr : Instr} (h : instr.isCall) :
    (m.perform instr).data = (m.pushAddress m.returnAddress).data ∧
      (m.perform instr).model = (m.pushAddress m.returnAddress).model := by
  cases instr with
  | icall =>
    rw [perform]
    generalize m.pushAddress m.returnAddress = pushed
    exact ⟨rfl, rfl⟩
  | rcall k =>
    rw [perform]
    generalize m.pushAddress m.returnAddress = pushed
    exact ⟨rfl, rfl⟩
  | call k =>
    rw [perform, callTo]
    generalize m.pushAddress m.returnAddress = pushed
    exact ⟨rfl, rfl⟩
  | _ => cases h

theorem grows_of_call (h : m.Housed) {instr : Instr} (hfit : (Deed.call instr).Fits base m) :
    Grows 2 m m.execute ∧
      Tops ((m.program + UInt32.ofNat instr.size) >>> 1) m.execute.data := by
  obtain ⟨hmeets, hcall, hram, hbelow, -⟩ := hfit
  have hdata : (m.behind instr).data = m.data := data_behind
  have hprogram : (m.behind instr).returnAddress =
      (m.program + UInt32.ofNat instr.size) >>> 1 := by
    rw [returnAddress, program_behind]
  obtain ⟨hgrows, htops, -⟩ := grows_pushAddress (m := m.behind instr) (grows_behind.housed h)
    (by rw [hdata]; exact inRam_behind hram) (by rw [hdata]; exact inRam_behind hbelow)
    (m.behind instr).returnAddress
  obtain ⟨hpushed, hmodel⟩ := perform_of_isCall (m := m.behind instr) hcall
  rw [execute_of_meets hmeets]
  refine ⟨(grows_behind.trans hgrows).of_data hmodel hpushed, ?_⟩
  rw [hpushed, ← hprogram]
  exact htops

/-- The entry of an interrupt stacks the address of the instruction that is interrupted. -/
theorem data_stackReturn (vector : Nat) : ∃ k : Machine, k.model = m.model ∧ k.data = m.data ∧
    m.stackReturn vector = k.pushAddress (m.program >>> 1) := by
  refine ⟨(m.acknowledge vector).onCore (·.report .debug "interrupt" [("vector", .number vector)]),
    ?_, ?_, ?_⟩
  · unfold acknowledge
    split <;> rfl
  · unfold acknowledge
    split <;> rfl
  · unfold stackReturn returnAddress acknowledge
    split <;> rfl

theorem Tops.of_data {word : UInt32} {data data' : Memory} (h : Tops word data)
    (hsp : data'.sp = data.sp) (hget : ∀ x, data.sp.toNat < x → data'.get x = data.get x) :
    Tops word data' where
  high := by
    rw [hsp, hget _ (by omega)]
    exact h.high
  low := by
    rw [hsp, hget _ (by omega)]
    exact h.low

theorem grows_of_enter (h : m.Housed) (hfit : Deed.enter.Fits base m) :
    Grows 2 m m.serviceInterrupts ∧ Tops (m.program >>> 1) m.serviceInterrupts.data ∧
      m.serviceInterrupts.data.status = m.data.status.put .i false ∧
      m.data.status.get Flag.i.val := by
  obtain ⟨hdue, hram, hbelow, -⟩ := hfit
  obtain ⟨vector, hvector⟩ := Option.isSome_iff_exists.mp hdue
  obtain ⟨k, hmodel, hdata, hstack⟩ := data_stackReturn (m := m) vector
  have hstart : Grows 0 m k := Grows.refl.of_data hmodel hdata
  obtain ⟨hgrows, htops, hstatus⟩ := grows_pushAddress (hstart.housed h)
    (by rw [hdata]; exact hstart.inRam hram) (by rw [hdata]; exact hstart.inRam hbelow)
    (m.program >>> 1)
  have hi : m.data.status.get Flag.i.val := by
    unfold dueVector? at hvector
    split at hvector
    · cases hvector
    · rename_i hon
      simp only [Bool.or_eq_true, Bool.not_eq_true', not_or, Bool.not_eq_false] at hon
      exact hon.2
  rw [serviceInterrupts_eq, hvector]
  dsimp only
  rw [enterInterrupt_eq, hstack]
  generalize k.pushAddress (m.program >>> 1) = pushed at hgrows htops hstatus
  have hboth := hstart.trans hgrows
  have hlow := hram.1
  have hsp := hboth.sp
  have hflag : Grows 0 pushed (pushed.vectored vector) :=
    grows_set (by decide) (by decide) (by simp only [sregAddress]; omega) rfl rfl
  refine ⟨hboth.trans hflag, ?_, ?_, hi⟩
  · exact htops.of_data (UInt16.toNat_inj.mp hflag.sp) hflag.above
  · have hroom := (hboth.housed h).room
    change (pushed.data.setStatus (pushed.data.status.put .i false)).status = _
    rw [Memory.status_setStatus (by simp only [sregAddress]; omega), hstatus, hdata]

/-! ## Closing deeds -/

theorem shrinks_behind {instr : Instr} : Shrinks 0 m (m.behind instr) := grows_behind.shrinks

theorem shrinks_of_pop (h : m.Housed) {d : Fin 32} (hmeets : m.Meets (.pop d))
    (hram : m.InRam (m.data.sp.toNat + 1)) :
    Shrinks 1 m m.execute ∧ m.execute.data.get d.val = m.data.get (m.data.sp.toNat + 1) := by
  have hd := d.isLt
  have hlow := hram.1
  have hdata : (m.behind (.pop d)).data = m.data := data_behind
  obtain ⟨hshrinks, hvalue, -⟩ := shrinks_pop (m := m.behind (.pop d)) (grows_behind.housed h)
    (by rw [hdata]; exact inRam_behind hram)
  rw [hdata] at hvalue
  rw [execute_of_meets hmeets, perform]
  have hboth := shrinks_behind.trans hshrinks
  generalize (m.behind (.pop d)).pop = popped at *
  obtain ⟨value, k⟩ := popped
  dsimp only at hboth hvalue
  have hsp := hboth.sp
  have hload : Grows 0 k ((load d.val (value, k)).spend 1) :=
    grows_set (by simp only [splAddress]; omega) (by simp only [sphAddress]; omega) (by omega) rfl rfl
  refine ⟨hboth.trans hload.shrinks, ?_⟩
  have hroom := (hboth.housed h).room
  change (k.data.set d.val value).get d.val = _
  rw [Memory.get_set, if_pos ⟨rfl, by omega⟩, ← hvalue]

theorem shrinks_of_ret (h : m.Housed) (hmeets : m.Meets .ret)
    (hram : m.InRam (m.data.sp.toNat + 1)) (habove : m.InRam (m.data.sp.toNat + 2)) {pc : UInt32}
    (htops : Tops (pc >>> 1) m.data) (hpc : Returnable pc) :
    Shrinks 2 m m.execute ∧ m.execute.program = pc := by
  have hdata : (m.behind .ret).data = m.data := data_behind
  obtain ⟨hshrinks, hprogram, -⟩ := shrinks_returnFrom (m := m.behind .ret) (grows_behind.housed h)
    (by rw [hdata]; exact inRam_behind hram) (by rw [hdata]; exact inRam_behind habove)
    (by rw [hdata]; exact htops) hpc
  rw [execute_of_meets hmeets, perform]
  exact ⟨shrinks_behind.trans hshrinks, hprogram⟩

theorem shrinks_of_reti (h : m.Housed) (hmeets : m.Meets .reti)
    (hram : m.InRam (m.data.sp.toNat + 1)) (habove : m.InRam (m.data.sp.toNat + 2)) {pc : UInt32}
    (htops : Tops (pc >>> 1) m.data) (hpc : Returnable pc) :
    Shrinks 2 m m.execute ∧ m.execute.program = pc ∧
      m.execute.data.status = m.data.status.put .i true := by
  have hlow := hram.1
  have hdata : (m.behind .reti).data = m.data := data_behind
  obtain ⟨hshrinks, hprogram, hstatus⟩ :=
    shrinks_returnFrom (m := m.behind .reti) (grows_behind.housed h)
      (by rw [hdata]; exact inRam_behind hram) (by rw [hdata]; exact inRam_behind habove)
      (by rw [hdata]; exact htops) hpc
  rw [execute_of_meets hmeets, perform]
  have hboth := shrinks_behind.trans hshrinks
  rw [hdata] at hstatus
  generalize (m.behind .reti).returnFrom = k at *
  have hsp := hboth.sp
  have hroom := (hboth.housed h).room
  have hflag : Grows 0 k ({ k.onData (·.setFlag .i true) with interruptDelay := true } : Machine) :=
    grows_set (by decide) (by decide) (by simp only [sregAddress]; omega) rfl rfl
  refine ⟨hboth.trans hflag.shrinks, hprogram, ?_⟩
  change (k.data.setStatus (k.data.status.put .i true)).status = _
  rw [Memory.status_setStatus (by simp only [sregAddress]; omega), hstatus]

/-! ## Pairs -/

section Pairs

variable {r d : Fin 32} {instr : Instr}

theorem intact_of_push (h : m.Housed) (hbase : m.data.sp.toNat ≤ base)
    (hopen : (Deed.push r).Fits base m) (hintact : Intact base m.execute k) (hclose : k.Meets (.pop d)) :
    Intact base m k.execute ∧ k.execute.data.get d.val = m.data.get r.val := by
  obtain ⟨hgrows, hvalue⟩ := grows_of_push h hopen
  have hsp := hgrows.sp
  have htop : k.data.sp.toNat + 1 = m.data.sp.toNat := by
    rw [hintact.sp]
    exact hsp
  have hhoused := hintact.housed (hgrows.housed h)
  obtain ⟨hshrinks, hpopped⟩ := shrinks_of_pop hhoused hclose
    (by rw [htop]; exact hintact.inRam (hgrows.inRam hopen.2))
  refine ⟨intact_of_grows hgrows hintact hshrinks, ?_⟩
  rw [hpopped, htop, hintact.above _ (by omega) hbase, hvalue]

/-- Two bytes pushed by a call or an interrupt, with the stack kept since. -/
theorem tops_of_grows {word : UInt32} (hbase : m.data.sp.toNat ≤ base) (hram : m.InRam m.data.sp.toNat)
    (hbelow : m.InRam (m.data.sp.toNat - 1)) (hgrows : Grows 2 m k) (htops : Tops word k.data)
    (hintact : Intact base k k') :
    k'.InRam (k'.data.sp.toNat + 1) ∧ k'.InRam (k'.data.sp.toNat + 2) ∧ Tops word k'.data := by
  have hsp := hgrows.sp
  have hlow := hbelow.1
  have hhouse := hgrows.toSameHouse.trans hintact.toSameHouse
  rw [hintact.sp]
  refine ⟨?_, ?_, htops.of_intact hintact (by omega)⟩
  · rw [show k.data.sp.toNat + 1 = m.data.sp.toNat - 1 by omega]
    exact hhouse.inRam hbelow
  · rw [hsp]
    exact hhouse.inRam hram

theorem intact_of_call (h : m.Housed) (hbase : m.data.sp.toNat ≤ base)
    (hopen : (Deed.call instr).Fits base m) (hintact : Intact base m.execute k) (hclose : k.Meets .ret) :
    Intact base m k.execute ∧ k.execute.program = m.program + UInt32.ofNat instr.size := by
  obtain ⟨hgrows, htops⟩ := grows_of_call h hopen
  obtain ⟨-, -, hram, hbelow, hpc⟩ := hopen
  obtain ⟨hfirst, hsecond, htops⟩ := tops_of_grows hbase hram hbelow hgrows htops hintact
  obtain ⟨hshrinks, hprogram⟩ := shrinks_of_ret (hintact.housed (hgrows.housed h)) hclose hfirst hsecond
    htops hpc
  exact ⟨intact_of_grows hgrows hintact hshrinks, hprogram⟩

theorem intact_of_enter (h : m.Housed) (hbase : m.data.sp.toNat ≤ base) (hopen : Deed.enter.Fits base m)
    (hintact : Intact base m.serviceInterrupts k) (hclose : k.Meets .reti) :
    Intact base m k.execute ∧ k.execute.program = m.program ∧
      (k.data.status = m.serviceInterrupts.data.status →
        k.execute.data.status = m.data.status) := by
  obtain ⟨hgrows, htops, hoff, hon⟩ := grows_of_enter h hopen
  obtain ⟨-, hram, hbelow, hpc⟩ := hopen
  obtain ⟨hfirst, hsecond, htops⟩ := tops_of_grows hbase hram hbelow hgrows htops hintact
  obtain ⟨hshrinks, hprogram, hstatus⟩ := shrinks_of_reti (hintact.housed (hgrows.housed h)) hclose hfirst
    hsecond htops hpc
  refine ⟨intact_of_grows hgrows hintact hshrinks, hprogram, ?_⟩
  intro hsame
  rw [hstatus, hsame, hoff, put_put_i hon]

variable {opening closing : Deed}

/-- What an opening deed does to the stack. -/
theorem grows_of_matches (hpair : Matches opening closing) (h : m.Housed)
    (hopen : opening.Fits base m) : ∃ n, Grows n m (opening.run m) := by
  cases hpair with
  | byte r d => exact ⟨1, (grows_of_push h hopen).1⟩
  | call instr => exact ⟨2, (grows_of_call h hopen).1⟩
  | interrupt => exact ⟨2, (grows_of_enter h hopen).1⟩

theorem intact_of_matches (hpair : Matches opening closing) (h : m.Housed)
    (hbase : m.data.sp.toNat ≤ base) (hopen : opening.Fits base m)
    (hintact : Intact base (opening.run m) k) (hclose : closing.Fits base k) :
    Intact base m (closing.run k) := by
  cases hpair with
  | byte r d => exact (intact_of_push h hbase hopen hintact hclose).1
  | call instr => exact (intact_of_call h hbase hopen hintact hclose).1
  | interrupt => exact (intact_of_enter h hbase hopen hintact hclose).1

end Pairs

/-! ## Sequences -/

theorem fits_wrap {opening closing : Deed} {body : List Deed} :
    Fits base (opening :: (body ++ [closing])) m ↔ opening.Fits base m ∧
      Fits base body (opening.run m) ∧ closing.Fits base (after body (opening.run m)) := by
  simp [Fits, fits_append]

theorem after_wrap {opening closing : Deed} {body : List Deed} :
    after (opening :: (body ++ [closing])) m = closing.run (after body (opening.run m)) := by
  simp [after]

/-- A well-nested sequence keeps the stack. -/
theorem intact_of_nested (hnested : Nested deeds) (h : m.Housed) (hbase : m.data.sp.toNat ≤ base)
    (hfits : Fits base deeds m) : Intact base m (after deeds m) := by
  induction hnested generalizing m with
  | nil => exact .refl
  | other k =>
    obtain ⟨⟨hmodel, hsize, hsp, habove⟩, -⟩ := hfits
    exact ⟨⟨hmodel, hsize⟩, hsp, habove⟩
  | append hfirst hsecond ihfirst ihsecond =>
    rw [fits_append] at hfits
    have hintact := ihfirst h hbase hfits.1
    rw [after_append]
    exact hintact.trans (ihsecond (hintact.housed h) (by rw [hintact.sp]; exact hbase) hfits.2)
  | wrap hpair hbody ih =>
    obtain ⟨hopen, hmiddle, hclose⟩ := fits_wrap.mp hfits
    obtain ⟨n, hgrows⟩ := grows_of_matches hpair h hopen
    have hsp := hgrows.sp
    rw [after_wrap]
    exact intact_of_matches hpair h hbase hopen (ih (hgrows.housed h) (by omega) hmiddle) hclose

theorem front_of_append {front : List Deed} (h : front <+: first ++ second) :
    front <+: first ∨ ∃ rest, rest <+: second ∧ front = first ++ rest := by
  rcases List.prefix_or_prefix_of_prefix h (List.prefix_append first second) with hfront | ⟨rest, rfl⟩
  · exact .inl hfront
  · exact .inr ⟨rest, (List.prefix_append_right_inj first).mp h, rfl⟩

theorem front_of_singleton {front : List Deed} {deed : Deed} (h : front <+: [deed]) :
    front = [] ∨ front = [deed] := by
  rcases List.prefix_cons_iff.mp h with rfl | ⟨rest, rfl, hrest⟩
  · exact .inl rfl
  · rw [List.prefix_nil.mp hrest]
    exact .inr rfl

/-- The machine has its part's data space, and the stack is at least as large as before. -/
structure Deep (m m' : Machine) : Prop where
  housed : m'.Housed
  sp : m'.data.sp.toNat ≤ m.data.sp.toNat

theorem Deep.refl (h : m.Housed) : Deep m m := ⟨h, Nat.le_refl _⟩

theorem Deep.trans (h : Deep m m') (h' : Deep m' k) : Deep m k := ⟨h'.housed, Nat.le_trans h'.sp h.sp⟩

theorem Intact.deep (h : m.Housed) (hintact : Intact base m m') : Deep m m' :=
  ⟨hintact.housed h, by rw [hintact.sp]⟩

theorem Grows.deep {n : Nat} (h : m.Housed) (hgrows : Grows n m m') : Deep m m' := by
  have hsp := hgrows.sp
  exact ⟨hgrows.housed h, by omega⟩

/-- Before the end of a well-nested sequence the stack is at least as large as at its beginning. -/
theorem deep_of_nested (hnested : Nested deeds) (h : m.Housed) (hbase : m.data.sp.toNat ≤ base)
    (hfits : Fits base deeds m) {front : List Deed} (hfront : front <+: deeds) :
    Deep m (after front m) := by
  induction hnested generalizing m front with
  | nil =>
    rw [List.prefix_nil.mp hfront]
    exact .refl h
  | other k =>
    rcases front_of_singleton hfront with rfl | rfl
    · exact .refl h
    · exact (intact_of_nested (.other k) h hbase hfits).deep h
  | append hfirst hsecond ihfirst ihsecond =>
    rw [fits_append] at hfits
    rcases front_of_append hfront with hfront | ⟨rest, hrest, rfl⟩
    · exact ihfirst h hbase hfits.1 hfront
    · have hintact := intact_of_nested hfirst h hbase hfits.1
      rw [after_append]
      exact (hintact.deep h).trans
        (ihsecond (hintact.housed h) (by rw [hintact.sp]; exact hbase) hfits.2 hrest)
  | wrap hpair hbody ih =>
    obtain ⟨hopen, hmiddle, -⟩ := fits_wrap.mp hfits
    obtain ⟨n, hgrows⟩ := grows_of_matches hpair h hopen
    have hopened := hgrows.deep h
    rcases List.prefix_cons_iff.mp hfront with rfl | ⟨rest, rfl, hrest⟩
    · exact .refl h
    · rcases front_of_append hrest with hrest | ⟨last, hlast, rfl⟩
      · exact hopened.trans (ih hopened.housed (hopened.sp.trans hbase) hmiddle hrest)
      · rcases front_of_singleton hlast with rfl | rfl
        · rw [List.append_nil]
          exact hopened.trans (ih hopened.housed (hopened.sp.trans hbase) hmiddle (List.prefix_refl _))
        · exact (intact_of_nested (.wrap hpair hbody) h hbase hfits).deep h

/-- A pair of deeds in a well-nested sequence: the machine at the opening one and what keeps the stack
up to the closing one. -/
theorem pair_of_nested (hnested : Nested deeds) (h : m.Housed)
    (hfits : Fits m.data.sp.toNat deeds m) {front body back : List Deed} {opening closing : Deed}
    (hdeeds : deeds = front ++ opening :: (body ++ closing :: back)) (hpair : Matches opening closing)
    (hbody : Nested body) :
    let k := after front m
    Deep m k ∧ opening.Fits m.data.sp.toNat k ∧
      Intact m.data.sp.toNat (opening.run k) (after body (opening.run k)) ∧
      closing.Fits m.data.sp.toNat (after body (opening.run k)) := by
  subst hdeeds
  have hdeep := deep_of_nested hnested h (Nat.le_refl _) hfits (List.prefix_append _ _)
  rw [fits_append] at hfits
  obtain ⟨-, hopen, hrest⟩ := hfits
  rw [fits_append] at hrest
  obtain ⟨hmiddle, hclose, -⟩ := hrest
  obtain ⟨n, hgrows⟩ := grows_of_matches hpair hdeep.housed hopen
  have hopened := hdeep.trans (hgrows.deep hdeep.housed)
  exact ⟨hdeep, hopen, intact_of_nested hbody hopened.housed hopened.sp hmiddle, hclose⟩

/-- The stack is last in, first out. In every well-nested sequence of pushes with pops, calls with
returns and interrupts with returns from them, whatever else is done in between, the stack pointer ends
where it began, each pop gives the byte of its push, each return leads behind its call and each return
from an interrupt to where it came, with the status of then if the handler left it. -/
theorem stack_lifo (hnested : Nested deeds) (hmodel : m.model ∈ Model.all)
    (hsize : m.data.size = m.model.dataSize) (hfits : Fits m.data.sp.toNat deeds m) :
    (after deeds m).data.sp = m.data.sp ∧
    (∀ front r body d back, deeds = front ++ Deed.push r :: (body ++ Deed.pop d :: back) → Nested body →
      (after (front ++ Deed.push r :: (body ++ [Deed.pop d])) m).data.get d.val =
        (after front m).data.get r.val) ∧
    (∀ front instr body back, deeds = front ++ Deed.call instr :: (body ++ Deed.ret :: back) → Nested body →
      (after (front ++ Deed.call instr :: (body ++ [Deed.ret])) m).program =
        (after front m).program + UInt32.ofNat instr.size) ∧
    (∀ front body back, deeds = front ++ Deed.enter :: (body ++ Deed.reti :: back) → Nested body →
      (after (front ++ Deed.enter :: (body ++ [Deed.reti])) m).program = (after front m).program ∧
      ((after (front ++ Deed.enter :: body) m).data.status =
          (after (front ++ [Deed.enter]) m).data.status →
        (after (front ++ Deed.enter :: (body ++ [Deed.reti])) m).data.status =
          (after front m).data.status)) := by
  have h : m.Housed := ⟨hmodel, hsize⟩
  refine ⟨(intact_of_nested hnested h (Nat.le_refl _) hfits).sp, ?_, ?_, ?_⟩
  · intro front r body d back hdeeds hbody
    obtain ⟨hdeep, hopen, hintact, hclose⟩ :=
      pair_of_nested hnested h hfits hdeeds (.byte r d) hbody
    rw [after_append, after_wrap]
    exact (intact_of_push hdeep.housed hdeep.sp hopen hintact hclose).2
  · intro front instr body back hdeeds hbody
    obtain ⟨hdeep, hopen, hintact, hclose⟩ :=
      pair_of_nested hnested h hfits hdeeds (.call instr) hbody
    rw [after_append, after_wrap]
    exact (intact_of_call hdeep.housed hdeep.sp hopen hintact hclose).2
  · intro front body back hdeeds hbody
    obtain ⟨hdeep, hopen, hintact, hclose⟩ :=
      pair_of_nested hnested h hfits hdeeds .interrupt hbody
    rw [after_append, after_wrap, after_append, after_append]
    exact (intact_of_enter hdeep.housed hdeep.sp hopen hintact hclose).2

/-! ## A sequence with all kinds of pairs -/

instance decidableHolds (m : Machine) : (pc : UInt32) → (words : List UInt16) →
    Decidable (m.Holds pc words)
  | _, [] => inferInstanceAs (Decidable True)
  | pc, w :: words =>
    have := decidableHolds m (pc + 2) words
    inferInstanceAs (Decidable (pc.toNat + 1 < m.flash.size ∧ m.flash.get pc.toNat = w.toUInt8 ∧
      m.flash.get (pc.toNat + 1) = (w >>> 8).toUInt8 ∧ m.Holds (pc + 2) words))

instance (m : Machine) (instr : Instr) : Decidable (m.Meets instr) :=
  decidable_of_iff (m.run = .running ∧ m.program ≤ m.codeEnd ∧ m.Holds m.program instr.encode)
    ⟨fun h => ⟨h.1, h.2.1, h.2.2⟩, fun h => ⟨h.running, h.inside, h.holds⟩⟩

instance (m : Machine) (address : Nat) : Decidable (m.InRam address) :=
  inferInstanceAs (Decidable (_ ∧ _))

instance (pc : UInt32) : Decidable (Returnable pc) := inferInstanceAs (Decidable (_ ∧ _))

instance (base : Nat) (m : Machine) : (deed : Deed) → Decidable (deed.Fits base m)
  | .push r => inferInstanceAs (Decidable (m.Meets (.push r) ∧ m.InRam m.data.sp.toNat))
  | .pop d => inferInstanceAs (Decidable (m.Meets (.pop d)))
  | .call instr => inferInstanceAs (Decidable (m.Meets instr ∧ instr.isCall ∧
      m.InRam m.data.sp.toNat ∧ m.InRam (m.data.sp.toNat - 1) ∧
      Returnable (m.program + UInt32.ofNat instr.size)))
  | .ret => inferInstanceAs (Decidable (m.Meets .ret))
  | .enter => inferInstanceAs (Decidable (m.dueVector?.isSome ∧ m.InRam m.data.sp.toNat ∧
      m.InRam (m.data.sp.toNat - 1) ∧ Returnable m.program))
  | .reti => inferInstanceAs (Decidable (m.Meets .reti))
  | .other after => decidable_of_iff (after.model = m.model ∧ after.data.size = m.data.size ∧
        after.data.sp = m.data.sp ∧
        ∀ x < base + 1, m.data.sp.toNat < x → after.data.get x = m.data.get x)
      ⟨fun ⟨hmodel, hsize, hsp, h⟩ => ⟨hmodel, hsize, hsp, fun x hx hbase => h x (by omega) hx⟩,
        fun ⟨hmodel, hsize, hsp, h⟩ => ⟨hmodel, hsize, hsp, fun x hbase hx => h x hx (by omega)⟩⟩

instance decidableFits (base : Nat) : (deeds : List Deed) → (m : Machine) → Decidable (Fits base deeds m)
  | [], _ => inferInstanceAs (Decidable True)
  | deed :: deeds, m =>
    have := decidableFits base deeds (deed.run m)
    inferInstanceAs (Decidable (deed.Fits base m ∧ Fits base deeds (deed.run m)))

/-- A machine that pushes a register, calls a subroutine that is interrupted at once, and pops the
register. Interrupts are on and the UART asks for one. -/
def nester : Machine where
  model := .atmega48
  data := ((((Memory.zeros 768).setSp 0x2FF).setStatus 0x80).set 0xC1 0x20).set 16 7
  flash := ((Memory.zeros 64).store 0 [0x0F, 0x93, 0x01, 0xD0, 0x0F, 0x91, 0x08, 0x95]).store 38
    [0x18, 0x95]
  codeEnd := 63
  journal := { threshold := none }
  wiring := {}

/-- The pushed register is cleared. -/
def clearing : Deed :=
  let pushed := nester.execute
  .other { pushed with data := pushed.data.set 16 0 }

/-- What the machine does up to the interrupt. -/
def nesterCall : List Deed := [.push (wrap 31 16), clearing, .call (.rcall (wrap 4095 1))]

/-- The subroutine with its interrupt. -/
def nesterBody : List Deed := [clearing, .call (.rcall (wrap 4095 1)), .enter, .reti, .ret]

theorem nested_nesterBody : Nested nesterBody := by
  have hinterrupt : Nested [.enter, .reti] := .wrap .interrupt .nil
  exact (Nested.other _).append (.wrap (.call (.rcall (wrap 4095 1))) hinterrupt)

theorem fits_nester :
    Fits nester.data.sp.toNat (.push 16 :: (nesterBody ++ [.pop 16])) nester := by
  decide +kernel

theorem nester_lifo :
    Nested (.push 16 :: (nesterBody ++ [.pop 16])) ∧
    Fits nester.data.sp.toNat (.push 16 :: (nesterBody ++ [.pop 16])) nester ∧
    (after (.push 16 :: (nesterBody ++ [.pop 16])) nester).data.sp = nester.data.sp ∧
    (after (.push 16 :: (nesterBody ++ [.pop 16])) nester).data.get 16 = nester.data.get 16 ∧
    (after (nesterCall ++ [Deed.enter, .reti]) nester).program = (after nesterCall nester).program ∧
    (after (nesterCall ++ [Deed.enter, .reti]) nester).data.status =
      (after nesterCall nester).data.status := by
  have hnested : Nested (.push 16 :: (nesterBody ++ [.pop 16])) :=
    .wrap (.byte 16 16) nested_nesterBody
  obtain ⟨hsp, hpop, -, hreti⟩ := stack_lifo hnested (by decide) (by decide +kernel) fits_nester
  have hbyte := hpop [] 16 nesterBody 16 [] rfl nested_nesterBody
  have hinterrupt := hreti nesterCall [] [.ret, .pop 16] rfl .nil
  rw [List.nil_append] at hbyte hinterrupt
  exact ⟨hnested, fits_nester, hsp, hbyte, hinterrupt.1, hinterrupt.2 rfl⟩

end Machine

end AvrSim
