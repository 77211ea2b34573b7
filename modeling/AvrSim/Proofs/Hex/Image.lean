import AvrSim.Hex.Image

/-!
# Images of contiguous data

Chunks that lie one behind the other leave nothing to fill and overwrite nothing: the image of a tiling
is what its chunks hold, one after the other.

* `overwrite_append`: overwriting a part of an array replaces it.
* `flatten_eq_of_tiling`: the span of a tiling and its bytes, or that there are too many.
-/

namespace AvrSim

/-! ## Extremes -/

theorem le_foldl_min_iff {α : Type} (f : α → Nat) (l : List α) (init n : Nat) :
    n ≤ l.foldl (fun low a => min low (f a)) init ↔ n ≤ init ∧ ∀ a ∈ l, n ≤ f a := by
  induction l generalizing init with
  | nil => simp
  | cons a l ih => rw [List.foldl_cons, ih, Nat.le_min, List.forall_mem_cons, and_assoc]

theorem foldl_max_le_iff {α : Type} (f : α → Nat) (l : List α) (init n : Nat) :
    l.foldl (fun high a => max high (f a)) init ≤ n ↔ init ≤ n ∧ ∀ a ∈ l, f a ≤ n := by
  induction l generalizing init with
  | nil => simp
  | cons a l ih => rw [List.foldl_cons, ih, Nat.max_le, List.forall_mem_cons, and_assoc]

/-! ## Overwriting -/

theorem overwrite_append (front : List UInt8) {old bytes : List UInt8} (back : List UInt8)
    (h : old.length = bytes.length) :
    overwrite (front ++ (old ++ back)).toArray front.length bytes =
      (front ++ (bytes ++ back)).toArray := by
  induction bytes generalizing front old with
  | nil =>
    rw [List.length_eq_zero_iff.mp h]
    rfl
  | cons b bytes ih =>
    obtain ⟨x, old, rfl⟩ := List.exists_cons_of_length_eq_add_one h
    have hset : (front ++ (x :: old ++ back)).toArray.setIfInBounds front.length b =
        ((front ++ [b]) ++ (old ++ back)).toArray := by
      simp
    have hlength : front.length + 1 = (front ++ [b]).length := by simp
    rw [overwrite, hset, hlength, ih _ (Nat.succ.inj h)]
    simp

namespace Hex

/-- Chunks that lie one behind the other from an address on, with what they hold together. -/
inductive Tiling : Nat → List Chunk → List UInt8 → Prop
  | nil (a : Nat) : Tiling a [] []
  | cons {a : Nat} {bytes rest : List UInt8} {chunks : List Chunk} (hne : bytes ≠ [])
    (h : Tiling (a + bytes.length) chunks rest) : Tiling a (⟨a, bytes⟩ :: chunks) (bytes ++ rest)

namespace Tiling

variable {a : Nat} {chunks : List Chunk} {data : List UInt8}

theorem foldl_min (h : Tiling a chunks data) {low : Nat} (hlow : low ≤ a) :
    chunks.foldl (fun low c => min low c.address) low = low := by
  induction h with
  | nil => rfl
  | cons hne h ih =>
    rw [List.foldl_cons, Nat.min_eq_left hlow]
    exact ih (by omega)

theorem foldl_max (h : Tiling a chunks data) :
    chunks.foldl (fun high c => max high c.stop) a = a + data.length := by
  induction h with
  | nil => rfl
  | @cons a bytes rest chunks hne h ih =>
    have hstop : max a (Chunk.stop ⟨a, bytes⟩) = a + bytes.length :=
      Nat.max_eq_right (Nat.le_add_right a _)
    rw [List.foldl_cons, hstop, ih, List.length_append, Nat.add_assoc]

/-- Each chunk of a tiling replaces the fill behind what the chunks before it have put down. -/
theorem foldl_overwrite (h : Tiling a chunks data) (low : Nat) (front : List UInt8)
    (ha : a = low + front.length) :
    chunks.foldl (fun data c => overwrite data (c.address - low) c.bytes)
        (front ++ List.replicate data.length fill).toArray = (front ++ data).toArray := by
  induction h generalizing front with
  | nil => rfl
  | @cons a bytes rest chunks hne h ih =>
    have hposition : a - low = front.length := by omega
    have hnext : a + bytes.length = low + (front ++ bytes).length := by
      rw [List.length_append]
      omega
    rw [List.foldl_cons, List.length_append, ← List.replicate_append_replicate]
    dsimp only
    rw [hposition, overwrite_append _ _ (List.length_replicate ..), ← List.append_assoc,
      ih _ hnext, List.append_assoc]

end Tiling

theorem lowest_of_tiling {a : Nat} {first : Chunk} {rest : List Chunk} {data : List UInt8}
    (h : Tiling a (first :: rest) data) : lowest first rest = a := by
  cases h with
  | cons hne h => exact h.foldl_min (Nat.le_add_right a _)

theorem highest_of_tiling {a : Nat} {first : Chunk} {rest : List Chunk} {data : List UInt8}
    (h : Tiling a (first :: rest) data) : highest first rest = a + data.length := by
  cases h with
  | cons hne h =>
    rw [List.length_append, ← Nat.add_assoc]
    exact h.foldl_max

/-- The image of a tiling, unless it is longer than the limit. -/
theorem flatten_eq_of_tiling (limit : Nat) {a : Nat} {first : Chunk} {rest : List Chunk}
    {data : List UInt8} (h : Tiling a (first :: rest) data) :
    flatten limit first rest =
      if limit < data.length then .error (.tooLarge a (a + data.length) limit)
      else .ok (a, data.toArray) := by
  have hdata := h.foldl_overwrite a [] rfl
  rw [List.nil_append, List.toArray_replicate, List.nil_append] at hdata
  unfold flatten
  rw [lowest_of_tiling h, highest_of_tiling h]
  dsimp only
  rw [Nat.add_sub_cancel_left, hdata]

theorem flatten_of_tiling {a limit : Nat} {first : Chunk} {rest : List Chunk} {data : List UInt8}
    (h : Tiling a (first :: rest) data) (hlimit : data.length ≤ limit) :
    flatten limit first rest = .ok (a, data.toArray) := by
  rw [flatten_eq_of_tiling limit h, if_neg (Nat.not_lt.mpr hlimit)]

end Hex

end AvrSim
