/-!
# Memory

A memory is a fixed number of bytes. Reading past the end gives zero and writing past it changes
nothing; callers for whom that is an error check the size first.
-/

namespace AvrSim

/-- Overwrites an array from a position on; what does not fit is dropped. -/
def overwrite : Array UInt8 → Nat → List UInt8 → Array UInt8
  | data, _, [] => data
  | data, position, b :: rest => overwrite (data.setIfInBounds position b) (position + 1) rest

/-- A fixed number of bytes. -/
structure Memory where
  bytes : Array UInt8
  deriving DecidableEq, Repr

namespace Memory

/-- A memory of zeros. -/
def zeros (size : Nat) : Memory := ⟨Array.replicate size 0⟩

/-- The number of bytes. -/
def size (m : Memory) : Nat := m.bytes.size

/-- The byte at an address. -/
def get (m : Memory) (address : Nat) : UInt8 := m.bytes.getD address 0

/-- The memory with one byte changed. -/
def set (m : Memory) (address : Nat) (value : UInt8) : Memory :=
  ⟨m.bytes.setIfInBounds address value⟩

/-- The memory with several bytes changed. -/
def store (m : Memory) (address : Nat) (values : List UInt8) : Memory :=
  ⟨overwrite m.bytes address values⟩

/-- The bytes from an address on. -/
def slice (m : Memory) (address length : Nat) : List UInt8 :=
  (m.bytes.extract address (address + length)).toList

@[simp] theorem size_set (m : Memory) (a : Nat) (v : UInt8) : (m.set a v).size = m.size := by
  simp [size, set]

theorem get_set (m : Memory) (a b : Nat) (v : UInt8) :
    (m.set a v).get b = if a = b ∧ b < m.size then v else m.get b := by
  simp only [get, set, size, Array.getD_eq_getD_getElem?, Array.getElem?_setIfInBounds]
  by_cases h : a = b
  · subst h
    by_cases hlt : a < m.bytes.size <;> simp [hlt]
  · simp [h]

theorem store_cons (m : Memory) (a : Nat) (v : UInt8) (values : List UInt8) :
    m.store a (v :: values) = (m.set a v).store (a + 1) values := rfl

@[simp] theorem size_store (m : Memory) (a : Nat) (values : List UInt8) :
    (m.store a values).size = m.size := by
  induction values generalizing m a with
  | nil => rfl
  | cons v values ih => rw [store_cons, ih, size_set]

/-- Bytes that fit stand where they were stored, and nowhere else anything changes. -/
theorem get_store (m : Memory) (a b : Nat) (values : List UInt8) (h : a + values.length ≤ m.size) :
    (m.store a values).get b =
      if a ≤ b ∧ b < a + values.length then values.getD (b - a) 0 else m.get b := by
  induction values generalizing m a with
  | nil =>
    rw [List.length_nil, if_neg (by omega)]
    rfl
  | cons v values ih =>
    rw [List.length_cons] at h ⊢
    rw [store_cons, ih _ _ (by rw [size_set]; omega), get_set]
    by_cases heq : a = b
    · subst heq
      rw [if_neg (by omega), if_pos (by omega), if_pos (by omega), Nat.sub_self, List.getD_cons_zero]
    · by_cases hin : a + 1 ≤ b ∧ b < a + 1 + values.length
      · obtain ⟨i, rfl⟩ := Nat.exists_eq_add_of_le hin.1
        have hindex : a + 1 + i - a = i + 1 := by omega
        rw [if_pos hin, if_pos (by omega), hindex, Nat.add_sub_cancel_left, List.getD_cons_succ]
      · rw [if_neg hin, if_neg (by omega), if_neg (by omega)]

end Memory

end AvrSim
