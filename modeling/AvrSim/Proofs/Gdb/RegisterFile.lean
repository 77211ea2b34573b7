import AvrSim.Gdb.Server
import AvrSim.Proofs.Core.Arithmetic
import AvrSim.Proofs.Core.Strict

/-!
# The register file as bytes

All registers but the program counter are bytes of the data space. In the order in which a client counts
them, these bytes are `registerCells`, and to change a register, or all of them, is to change a stretch of
that list. What a client is shown afterwards is what it was shown before with that stretch replaced.

* `Memory.setAll` changes bytes here and there, with `Memory.map_get_setAll`.
* `Machine.longBytes_longOfBytes`: a number from bytes, filled up with zeros and cut to four bytes.
* `Machine.registerBytes_eq`, `Machine.register?_eq`: what a client is shown.
* `Machine.storeRegisters?_eq`, `Machine.storeRegister?_eq`: what it can change.
-/

namespace AvrSim

namespace Memory

/-! ## Bytes here and there -/

/-- The memory with bytes changed, each at an address of its own. -/
def setAll (m : Memory) : List Nat → List UInt8 → Memory
  | a :: cells, b :: bytes => (m.set a b).setAll cells bytes
  | _, _ => m

variable {cells : List Nat} {bytes : List UInt8}

@[simp] theorem size_setAll (m : Memory) (cells : List Nat) (bytes : List UInt8) :
    (m.setAll cells bytes).size = m.size := by
  fun_induction setAll m cells bytes with
  | case1 m a cells b bytes ih => rw [ih, size_set]
  | case2 => rfl

theorem get_setAll_of_not_mem (m : Memory) (bytes : List UInt8) {i : Nat} (h : i ∉ cells) :
    (m.setAll cells bytes).get i = m.get i := by
  fun_induction setAll m cells bytes with
  | case1 m a cells b bytes ih =>
    rw [List.mem_cons, not_or] at h
    rw [ih h.2, get_set, if_neg (fun heq => h.1 heq.1.symm)]
  | case2 => rfl

theorem map_get_setAll (m : Memory) (hnodup : cells.Nodup) (hsize : ∀ a ∈ cells, a < m.size)
    (hlength : cells.length = bytes.length) : cells.map (m.setAll cells bytes).get = bytes := by
  induction cells generalizing m bytes with
  | nil => exact (List.length_eq_zero_iff.mp hlength.symm).symm
  | cons a cells ih =>
    obtain ⟨b, bytes, rfl⟩ := List.exists_cons_of_length_eq_add_one hlength.symm
    rw [List.nodup_cons] at hnodup
    rw [List.forall_mem_cons] at hsize
    rw [List.map_cons, setAll, get_setAll_of_not_mem _ _ hnodup.1, get_set,
      if_pos ⟨rfl, hsize.1⟩, ih _ hnodup.2 (by simpa using hsize.2) (Nat.succ.inj hlength)]

/-- What stands in a stretch of cells is replaced, and nothing before or behind it. -/
theorem map_get_setAll_append (m : Memory) {front back : List Nat}
    (hnodup : (front ++ (cells ++ back)).Nodup) (hsize : ∀ a ∈ cells, a < m.size)
    (hlength : cells.length = bytes.length) :
    (front ++ (cells ++ back)).map (m.setAll cells bytes).get =
      front.map m.get ++ (bytes ++ back.map m.get) := by
  obtain ⟨-, hrest, hfront⟩ := List.nodup_append.mp hnodup
  obtain ⟨hcells, -, hback⟩ := List.nodup_append.mp hrest
  have hkeep {others : List Nat} (h : ∀ a ∈ others, a ∉ cells) :
      others.map (m.setAll cells bytes).get = others.map m.get :=
    List.map_congr_left fun a ha => get_setAll_of_not_mem m bytes (h a ha)
  rw [List.map_append, List.map_append, map_get_setAll m hcells hsize hlength, hkeep, hkeep]
  · intro a ha hmem
    exact hback a hmem a ha rfl
  · intro a ha hmem
    exact hfront a ha a (List.mem_append_left back hmem) rfl

theorem setAll_append (m : Memory) (h : cells.length = bytes.length) (cells' : List Nat)
    (bytes' : List UInt8) :
    m.setAll (cells ++ cells') (bytes ++ bytes') = (m.setAll cells bytes).setAll cells' bytes' := by
  induction cells generalizing m bytes with
  | nil =>
    rw [List.length_eq_zero_iff.mp h.symm]
    rfl
  | cons a cells ih =>
    obtain ⟨b, bytes, rfl⟩ := List.exists_cons_of_length_eq_add_one h.symm
    exact ih _ (Nat.succ.inj h)

theorem store_eq_setAll (m : Memory) (a : Nat) (bytes : List UInt8) :
    m.store a bytes = m.setAll (List.range' a bytes.length) bytes := by
  induction bytes generalizing m a with
  | nil => rfl
  | cons b bytes ih =>
    rw [store_cons, ih]
    rfl

theorem set_get_self (m : Memory) (a : Nat) : m.set a (m.get a) = m := by
  unfold set get
  congr
  rw [Array.setIfInBounds_def]
  split
  · simp
  · rfl

theorem setAll_get_self (m : Memory) (cells : List Nat) : m.setAll cells (cells.map m.get) = m := by
  induction cells with
  | nil => rfl
  | cons a cells ih => rw [List.map_cons, setAll, set_get_self, ih]

theorem slice_eq_map (m : Memory) {a n : Nat} (h : a + n ≤ m.size) :
    m.slice a n = (List.range' a n).map m.get := by
  apply List.ext_getElem
  · simp only [slice, size] at h ⊢
    simp
    omega
  · intro i hslice hrange
    simp only [List.length_map, List.length_range'] at hrange
    simp only [size] at h
    simp [slice, get, Array.getD, show a + i < m.bytes.size by omega]

end Memory

namespace Machine

/-! ## Numbers as bytes -/

theorem toNat_longOfBytes_cons (b : UInt8) (bytes : List UInt8) :
    (longOfBytes (b :: bytes)).toNat = ((longOfBytes bytes).toNat * 256 + b.toNat) % 2 ^ 32 := by
  have hb := b.toNat_lt
  have hshift : (longOfBytes bytes).toNat <<< 8 % 2 ^ 32 =
      ((longOfBytes bytes).toNat % 2 ^ 24) <<< 8 := by
    rw [Nat.shiftLeft_eq, Nat.shiftLeft_eq]
    omega
  -- The byte fills the place that the shift has cleared, so the two are added.
  have hsum := Nat.shiftLeft_add_eq_or_of_lt hb ((longOfBytes bytes).toNat % 2 ^ 24)
  have hcons : longOfBytes (b :: bytes) = longOfBytes bytes <<< 8 ||| b.toUInt32 := rfl
  rw [hcons, UInt32.toNat_or, UInt32.toNat_shiftLeft, UInt8.toNat_toUInt32]
  change (longOfBytes bytes).toNat <<< 8 % 2 ^ 32 ||| b.toNat = _
  rw [hshift, ← hsum, Nat.shiftLeft_eq]
  omega

theorem longBytes_eq (n : UInt32) :
    longBytes n = [UInt8.ofNat n.toNat, UInt8.ofNat (n.toNat / 2 ^ 8), UInt8.ofNat (n.toNat / 2 ^ 16),
      UInt8.ofNat (n.toNat / 2 ^ 24)] := by
  have hbyte (k : UInt32) (hk : k.toNat < 32) :
      (n >>> k).toUInt8 = UInt8.ofNat (n.toNat / 2 ^ k.toNat) := by
    rw [← Nat.shiftRight_eq_div_pow, ← Nat.mod_eq_of_lt hk, ← UInt32.toNat_shiftRight]
    rfl
  unfold longBytes
  rw [hbyte 8 (by decide), hbyte 16 (by decide), hbyte 24 (by decide)]
  rfl

/-- One more byte at the low end moves the others up, the last of them out. -/
theorem longBytes_longOfBytes_cons (b : UInt8) (bytes : List UInt8) :
    longBytes (longOfBytes (b :: bytes)) = b :: (longBytes (longOfBytes bytes)).take 3 := by
  have hb := b.toNat_lt
  rw [longBytes_eq, longBytes_eq, toNat_longOfBytes_cons]
  simp only [List.take_succ_cons, List.take_zero, List.cons.injEq, and_true, ← UInt8.toNat_inj,
    UInt8.toNat_ofNat']
  omega

theorem longBytes_longOfBytes (bytes : List UInt8) :
    longBytes (longOfBytes bytes) = (bytes ++ [0, 0, 0, 0]).take 4 := by
  induction bytes with
  | nil => rfl
  | cons b bytes ih =>
    rw [longBytes_longOfBytes_cons, ih, List.take_take, List.cons_append, List.take_succ_cons]
    rfl

theorem longOfBytes_longBytes (n : UInt32) : longOfBytes (longBytes n) = n := by
  have hn := n.toNat_lt
  have hnil : (longOfBytes []).toNat = 0 := rfl
  rw [← UInt32.toNat_inj, longBytes_eq]
  simp only [toNat_longOfBytes_cons, UInt8.toNat_ofNat', hnil]
  omega

theorem wordBytes_sp (m : Memory) : wordBytes m.sp = [m.get splAddress, m.get sphAddress] := by
  have hlow := (m.get splAddress).toNat_lt
  have hhigh := (m.get sphAddress).toNat_lt
  have hsp : m.sp.toNat = (m.get splAddress).toNat + 256 * (m.get sphAddress).toNat :=
    Memory.toNat_pair
  have hlowByte : m.sp.toUInt8 = m.get splAddress := by
    rw [← UInt8.toNat_inj, Memory.toNat_low_byte, hsp]
    omega
  have hhighByte : (m.sp >>> 8).toUInt8 = m.get sphAddress := by
    rw [← UInt8.toNat_inj, Memory.toNat_high_byte, hsp]
    omega
  rw [wordBytes, hlowByte, hhighByte]

/-! ## What a client is shown -/

/-- Where the bytes that a client is shown stand in the data space, up to the program counter. -/
def registerCells : List Nat := List.range 32 ++ [sregAddress, splAddress, sphAddress]

theorem nodup_registerCells : registerCells.Nodup := by decide

theorem lt_of_mem_registerCells : ∀ a ∈ registerCells, a < 0x100 := by decide

/-- The place of a register among the bytes that a client is shown. -/
def slotStart (n : Nat) : Nat := if n ≤ 33 then n else 35

/-- The width of a register in bytes. -/
def slotWidth (n : Nat) : Nat := if n ≤ 32 then 1 else if n = 33 then 2 else 4

/-- The bytes of the data space that a register consists of. -/
def slotCells (n : Nat) : List Nat := (registerCells.drop (slotStart n)).take (slotWidth n)

variable {m : Machine}

theorem registerBytes_eq (h : Strict.Roomy m.data) :
    m.registerBytes = registerCells.map m.data.get ++ longBytes m.program := by
  have hslice := m.data.slice_eq_map (show 0 + 32 ≤ m.data.size from Nat.le_trans (by decide) h)
  rw [registerBytes, hslice, wordBytes_sp, registerCells, List.map_append, List.range_eq_range',
    List.append_assoc]
  rfl

theorem length_registerBytes (h : Strict.Roomy m.data) : m.registerBytes.length = 39 := by
  rw [registerBytes_eq h, List.length_append, List.length_map]
  rfl

/-- A stretch of the bytes that a client is shown, before the program counter. -/
theorem take_drop_registerBytes (h : Strict.Roomy m.data) {k n : Nat} (hn : k + n ≤ 35) :
    (m.registerBytes.drop k).take n = ((registerCells.drop k).take n).map m.data.get := by
  have hlength : registerCells.length = 35 := rfl
  rw [registerBytes_eq h, List.drop_append_of_le_length (by rw [List.length_map]; omega),
    List.take_append_of_le_length (by rw [List.length_drop, List.length_map]; omega),
    List.map_take, List.map_drop]

theorem drop_registerBytes (h : Strict.Roomy m.data) : m.registerBytes.drop 35 = longBytes m.program := by
  rw [registerBytes_eq h]
  exact List.drop_left' rfl

theorem slotCells_of_lt {n : Nat} (h : n < 32) : slotCells n = [n] := by
  revert n
  decide

theorem length_slotCells {n : Nat} (h : n ≤ 33) : (slotCells n).length = slotWidth n := by
  obtain hlt | rfl | rfl : n < 32 ∨ n = 32 ∨ n = 33 := by omega
  · rw [slotCells_of_lt hlt, slotWidth, if_pos hlt.le]
    rfl
  · rfl
  · rfl

/-- A single register is shown as its bytes among all. -/
theorem register?_eq (h : Strict.Roomy m.data) {n : Nat} (hn : n ≤ 34) :
    m.register? n = some ((m.registerBytes.drop (slotStart n)).take (slotWidth n)) := by
  have hslot (hn : n ≤ 33) : (m.registerBytes.drop (slotStart n)).take (slotWidth n) =
      (slotCells n).map m.data.get := by
    apply take_drop_registerBytes h
    rw [slotStart, slotWidth, if_pos hn]
    split
    · omega
    · rw [if_pos (by omega)]
      omega
  obtain hlt | rfl | rfl | rfl : n < 32 ∨ n = 32 ∨ n = 33 ∨ n = 34 := by omega
  · rw [register?, if_pos hlt, hslot (by omega), slotCells_of_lt hlt]
    rfl
  · rw [hslot (by decide)]
    rfl
  · rw [hslot (by decide)]
    exact congrArg some (wordBytes_sp m.data)
  · have hprogram : m.registerBytes.drop (slotStart 34) = longBytes m.program := drop_registerBytes h
    rw [hprogram]
    rfl

/-! ## What a client can change -/

/-- The widths that a value for a register may have. -/
def FitsRegister (n width : Nat) : Prop :=
  n ≤ 32 ∧ width = 1 ∨ n = 33 ∧ width = 2 ∨ n = 34 ∧ 2 ≤ width

/-- The bytes that a register is shown as after a value was stored: the program counter is filled up
with zeros and cut to its width. -/
def shownValue (n : Nat) (value : List UInt8) : List UInt8 :=
  if n = 34 then (value ++ [0, 0, 0, 0]).take 4 else value

/-- A stretch of the bytes that a client is shown is replaced with the cells that it shows. -/
theorem registerBytes_setAll (h : Strict.Roomy m.data) (front : List Nat) {cells : List Nat}
    (back : List Nat) (hcells : registerCells = front ++ (cells ++ back)) {bytes : List UInt8}
    (hlength : cells.length = bytes.length) :
    registerBytes { m with data := m.data.setAll cells bytes } =
      m.registerBytes.take front.length ++
        (bytes ++ m.registerBytes.drop (front.length + bytes.length)) := by
  have hroomy : Strict.Roomy (m.data.setAll cells bytes) := h.of_size (m.data.size_setAll ..)
  have hsize : ∀ a ∈ cells, a < m.data.size := by
    intro a ha
    apply h.lt
    apply lt_of_mem_registerCells
    rw [hcells]
    simp [ha]
  have hnodup := nodup_registerCells
  rw [hcells] at hnodup
  rw [registerBytes_eq hroomy, registerBytes_eq h, hcells,
    Memory.map_get_setAll_append _ hnodup hsize hlength, ← hlength, ← List.drop_drop]
  simp

theorem registerBytes_setProgram (h : Strict.Roomy m.data) (program : UInt32) :
    registerBytes { m with program := program } = m.registerBytes.take 35 ++ longBytes program := by
  have hroomy : Strict.Roomy ({ m with program := program } : Machine).data := h
  rw [registerBytes_eq hroomy, registerBytes_eq h]
  congr

/-- Bytes for all registers: 32 for the registers proper, then status and stack pointer. -/
theorem exists_append_program {bytes : List UInt8} (h : 35 ≤ bytes.length) :
    ∃ front status low high program, front.length = 32 ∧
      bytes = front ++ status :: low :: high :: program := by
  have hback : (bytes.drop 32).length = bytes.length - 32 := List.length_drop
  match hsplit : bytes.drop 32 with
  | status :: low :: high :: program =>
    refine ⟨bytes.take 32, status, low, high, program, ?_, ?_⟩
    · rw [List.length_take]
      omega
    · rw [← hsplit, List.take_append_drop]
  | [] | [_] | [_, _] =>
    rw [hsplit] at hback
    simp only [List.length_nil, List.length_cons] at hback
    omega

theorem setAll_registerCells (data : Memory) {front : List UInt8} (h : front.length = 32)
    (status low high : UInt8) :
    data.setAll registerCells (front ++ [status, low, high]) =
      (((data.store 0 front).setStatus status).set splAddress low).set sphAddress high := by
  have hcells : registerCells = List.range' 0 front.length ++ [sregAddress, splAddress, sphAddress] := by
    rw [h]
    rfl
  rw [hcells, Memory.setAll_append _ List.length_range', ← Memory.store_eq_setAll]
  rfl

theorem storeRegisters?_eq {bytes : List UInt8} (h : 35 ≤ bytes.length) :
    m.storeRegisters? bytes =
      some { m with
        data := m.data.setAll registerCells (bytes.take 35)
        program := if bytes.length < 39 then m.program
          else longOfBytes ((bytes.drop 35).take 4) } := by
  obtain ⟨front, status, low, high, program, hfront, rfl⟩ := exists_append_program h
  have hsplit : front ++ status :: low :: high :: program =
      (front ++ [status, low, high]) ++ program := by simp
  have hregisters : (front ++ [status, low, high]).length = 35 := by simp [hfront]
  have hlt : (front ++ status :: low :: high :: program).length < 39 ↔ program.length < 4 := by
    simp only [List.length_append, List.length_cons, hfront]
    omega
  simp only [hlt]
  rw [storeRegisters?, List.drop_left' hfront, List.take_left' hfront, hsplit,
    List.take_left' hregisters, List.drop_left' hregisters, setAll_registerCells _ hfront]
  dsimp only
  split
  · rfl
  · rfl

theorem storeRegister?_eq {n : Nat} {value : List UInt8} (h : FitsRegister n value.length) :
    m.storeRegister? n value =
      some { m with
        data := m.data.setAll (slotCells n) value
        program := if n = 34 then longOfBytes value else m.program } := by
  match value, h with
  | [b], h =>
    obtain hlt | rfl : n < 32 ∨ n = 32 := by
      simp only [FitsRegister, List.length_singleton] at h
      omega
    · rw [storeRegister?, if_pos hlt, if_neg (by omega), slotCells_of_lt hlt]
      rfl
    · rfl
  | low :: high :: rest, h =>
    simp only [FitsRegister, List.length_cons] at h
    obtain ⟨rfl, hrest⟩ | rfl : (n = 33 ∧ rest.length = 0) ∨ n = 34 := by omega
    · rw [List.length_eq_zero_iff.mp hrest]
      rfl
    · rfl
  | [], h =>
    simp only [FitsRegister, List.length_nil] at h
    omega

theorem storeRegister?_of_not_fits {n : Nat} {value : List UInt8} (h : ¬ FitsRegister n value.length) :
    m.storeRegister? n value = none := by
  match value, h with
  | [b], h =>
    have hn : ¬ n ≤ 32 := fun hn => h (.inl ⟨hn, rfl⟩)
    rw [storeRegister?, if_neg (by omega), if_neg (show ¬ n = statusNumber from fun heq => hn heq.le)]
  | low :: high :: rest, h =>
    simp only [FitsRegister, List.length_cons] at h
    have hprogram : ¬ n = programNumber := by
      rintro rfl
      exact h (.inr (.inr ⟨rfl, by omega⟩))
    have hstack : ¬ (decide (n = stackNumber) && rest.isEmpty) = true := by
      rw [Bool.and_eq_true, decide_eq_true_eq, List.isEmpty_iff_length_eq_zero]
      rintro ⟨rfl, hrest⟩
      exact h (.inr (.inl ⟨rfl, by omega⟩))
    rw [storeRegister?, if_neg hprogram, if_neg hstack]
  | [], h => rfl

/-! ## What is shown after a change -/

theorem length_shownValue {n : Nat} {value : List UInt8} (h : FitsRegister n value.length) :
    (shownValue n value).length = slotWidth n := by
  unfold FitsRegister at h
  unfold shownValue slotWidth
  split
  · rw [List.length_take, List.length_append, if_neg (by omega), if_neg (by omega)]
    simp
  · split
    · omega
    · rw [if_pos (by omega)]
      omega

theorem registerBytes_storeRegisters (h : Strict.Roomy m.data) {bytes : List UInt8}
    (hlow : 35 ≤ bytes.length) (hhigh : bytes.length ≤ 39) :
    registerBytes { m with
      data := m.data.setAll registerCells (bytes.take 35)
      program := if bytes.length < 39 then m.program else longOfBytes ((bytes.drop 35).take 4) } =
      if bytes.length = 39 then bytes else bytes.take 35 ++ m.registerBytes.drop 35 := by
  have hlength : (bytes.take 35).length = 35 := by
    rw [List.length_take]
    omega
  have hroomy : Strict.Roomy (m.data.setAll registerCells (bytes.take 35)) :=
    h.of_size (m.data.size_setAll ..)
  have hdata : registerBytes { m with data := m.data.setAll registerCells (bytes.take 35) } =
      bytes.take 35 ++ m.registerBytes.drop 35 := by
    have hcells : registerCells = [] ++ (registerCells ++ []) := by simp
    have hset := registerBytes_setAll h [] [] hcells
      (show registerCells.length = (bytes.take 35).length from hlength.symm)
    rwa [hlength] at hset
  -- Only all 39 bytes reach the program counter.
  by_cases hall : bytes.length = 39
  · have hprogram := @registerBytes_setProgram
      { m with data := m.data.setAll registerCells (bytes.take 35) } hroomy
      (longOfBytes ((bytes.drop 35).take 4))
    have hpc : (bytes.drop 35).length = 4 := by
      rw [List.length_drop]
      omega
    rw [if_neg (by omega), if_pos hall, hprogram, hdata, List.take_left' hlength, longBytes_longOfBytes,
      List.take_of_length_le hpc.le, List.take_left' hpc, List.take_append_drop]
  · rw [if_pos (by omega), if_neg hall]
    exact hdata

theorem registerBytes_storeRegister (h : Strict.Roomy m.data) {n : Nat} {value : List UInt8}
    (hfits : FitsRegister n value.length) :
    registerBytes { m with
      data := m.data.setAll (slotCells n) value
      program := if n = 34 then longOfBytes value else m.program } =
      m.registerBytes.take (slotStart n) ++
        (shownValue n value ++ m.registerBytes.drop (slotStart n + slotWidth n)) := by
  have hlength := length_shownValue hfits
  by_cases hn : n = 34
  · subst hn
    have hprogram := registerBytes_setProgram h (longOfBytes value)
    rw [longBytes_longOfBytes] at hprogram
    have hnil : m.registerBytes.drop (slotStart 34 + slotWidth 34) = [] :=
      List.drop_eq_nil_of_le (length_registerBytes h).le
    rw [hnil, List.append_nil]
    exact hprogram
  · have hstart : n ≤ 33 := by
      unfold FitsRegister at hfits
      omega
    have hcells : registerCells = registerCells.take n ++
        (slotCells n ++ (registerCells.drop n).drop (slotWidth n)) := by
      rw [slotCells, slotStart, if_pos hstart, List.take_append_drop, List.take_append_drop]
    rw [shownValue, if_neg hn] at hlength ⊢
    rw [if_neg hn, slotStart, if_pos hstart]
    have hfront : (registerCells.take n).length = n := by
      rw [List.length_take]
      exact Nat.min_eq_left (Nat.le_trans hstart (by decide))
    have hset := registerBytes_setAll h _ _ hcells ((length_slotCells hstart).trans hlength.symm)
    rw [hfront, hlength] at hset
    exact hset

/-- To store what is shown changes nothing. -/
theorem storeRegisters?_registerBytes (h : Strict.Roomy m.data) :
    m.storeRegisters? m.registerBytes = some m := by
  have hlength := length_registerBytes h
  have hshown : m.registerBytes.take 35 = registerCells.map m.data.get := by
    rw [registerBytes_eq h]
    exact List.take_left' rfl
  have hprogram : longOfBytes ((m.registerBytes.drop 35).take 4) = m.program := by
    rw [drop_registerBytes h]
    exact longOfBytes_longBytes m.program
  rw [storeRegisters?_eq (by omega), if_neg (by omega), hshown, Memory.setAll_get_self, hprogram]

end Machine

end AvrSim
