import AvrSim.Hex.Record
import AvrSim.Proofs.Text.Lines

/-!
# Reading back a record

A record with at most 255 bytes is written as a line that is read back: its digits give its bytes, its
count is the length of its payload, and its last byte brings the sum to zero.

* `decode_encodeUpper` for the digits, `Record.ofBytes_bytes` for the bytes, `Record.parse_line` for the
  line.
-/

namespace AvrSim

/-! ## Sums -/

theorem sum8_append_singleton (bytes : List UInt8) (b : UInt8) :
    sum8 (bytes ++ [b]) = sum8 bytes + b := by
  unfold sum8
  rw [List.foldl_append]
  rfl

theorem sum8_append_checksum (bytes : List UInt8) : sum8 (bytes ++ [checksum bytes]) = 0 := by
  rw [sum8_append_singleton, checksum, UInt8.zero_sub, ← UInt8.sub_eq_add_neg, UInt8.sub_self]

namespace Hex

/-! ## Digits -/

theorem digit?_upperDigit {n : Nat} (h : n < 16) : digit? (upperDigit n) = some n := by
  have hall : ∀ n ∈ List.range 16, digit? (upperDigit n) = some n := by decide
  exact hall n (List.mem_range.mpr h)

theorem isGraphic_upperDigit {n : Nat} (h : n < 16) : Text.isGraphic (upperDigit n) := by
  have hall : ∀ n ∈ List.range 16, Text.isGraphic (upperDigit n) := by decide
  exact hall n (List.mem_range.mpr h)

theorem exists_of_mem_encodeUpper {bytes : List UInt8} {b : UInt8} (h : b ∈ encodeUpper bytes) :
    ∃ n < 16, b = upperDigit n := by
  obtain ⟨x, -, hx⟩ := List.mem_flatMap.mp h
  have hlt := x.toNat_lt
  simp only [List.mem_cons, List.not_mem_nil, or_false] at hx
  rcases hx with rfl | rfl
  · exact ⟨_, by omega, rfl⟩
  · exact ⟨_, by omega, rfl⟩

theorem length_encodeUpper (bytes : List UInt8) :
    (encodeUpper bytes).length = 2 * bytes.length := by
  induction bytes with
  | nil => rfl
  | cons b bytes ih =>
    unfold encodeUpper at ih ⊢
    rw [List.flatMap_cons, List.length_append, ih, List.length_cons]
    simp
    omega

theorem pairs_encodeUpper (bytes : List UInt8) : pairs (encodeUpper bytes) = bytes := by
  induction bytes with
  | nil => rfl
  | cons b bytes ih =>
    have hlt := b.toNat_lt
    have hbyte : b.toNat / 16 * 16 + b.toNat % 16 = b.toNat := by omega
    unfold encodeUpper at ih ⊢
    rw [List.flatMap_cons]
    simp only [List.cons_append, List.nil_append, pairs, digitValue,
      digit?_upperDigit (show b.toNat / 16 < 16 by omega),
      digit?_upperDigit (show b.toNat % 16 < 16 by omega), Option.getD_some, hbyte, ih,
      UInt8.ofNat_toNat]

theorem decode_encodeUpper (bytes : List UInt8) : decode (encodeUpper bytes) = .ok bytes := by
  have hdigits : (encodeUpper bytes).find? (!isDigit ·) = none := by
    rw [List.find?_eq_none]
    intro b hb
    obtain ⟨n, hn, rfl⟩ := exists_of_mem_encodeUpper hb
    simp [isDigit, digit?_upperDigit hn]
  unfold decode
  rw [hdigits, length_encodeUpper, pairs_encodeUpper]
  simp

/-! ## Records -/

namespace Record

variable (r : Record)

/-- The line of a record without its line feed. -/
def line : Bytes := 0x3A :: encodeUpper r.bytes

theorem render_eq : render = fun r => r.line ++ ['\n'.toUInt8] := rfl

theorem ofBytes_of_ne_nil (count high low kind : UInt8) {rest : List UInt8} (h : rest ≠ []) :
    ofBytes (count :: high :: low :: kind :: rest) =
      if count.toNat ≠ rest.length - 1 then
        .error (.malformed (.count count.toNat (rest.length - 1)))
      else if sum8 (count :: high :: low :: kind :: rest) ≠ 0 then
        .error (.checksum (checksum (count :: high :: low :: kind :: rest).dropLast)
          ((count :: high :: low :: kind :: rest).getLastD 0))
      else .ok ⟨UInt16.ofNat (word high low), kind, rest.dropLast⟩ := by
  cases rest with
  | nil => exact absurd rfl h
  | cons b rest => rfl

theorem word_ofNat {n : Nat} (h : n < 65536) :
    word (UInt8.ofNat (n / 256)) (UInt8.ofNat n) = n := by
  unfold word
  rw [UInt8.toNat_ofNat', UInt8.toNat_ofNat']
  omega

theorem ofBytes_bytes (h : r.payload.length ≤ 255) : ofBytes r.bytes = .ok r := by
  have hcount : (UInt8.ofNat r.payload.length).toNat = r.payload.length :=
    UInt8.toNat_ofNat_of_lt' (show r.payload.length < 256 by omega)
  have hsum : sum8 r.bytes = 0 := sum8_append_checksum r.body
  unfold bytes body at hsum ⊢
  simp only [List.cons_append] at hsum ⊢
  rw [ofBytes_of_ne_nil _ _ _ _ (by simp), if_neg (by simp [hcount]), if_neg (not_not_intro hsum),
    word_ofNat r.address.toNat_lt, UInt16.ofNat_toNat, List.dropLast_concat]

theorem parse_line (h : r.payload.length ≤ 255) : parse r.line = .ok r := by
  unfold line
  rw [parse, decode_encodeUpper]
  exact ofBytes_bytes r h

/-! ## Lines of records -/

theorem length_bytes : r.bytes.length = r.payload.length + 5 := by
  simp [bytes, body]

theorem isGraphic_of_mem_line {b : UInt8} (h : b ∈ r.line) : Text.isGraphic b := by
  rcases List.mem_cons.mp h with rfl | hdigit
  · decide
  · obtain ⟨n, hn, rfl⟩ := exists_of_mem_encodeUpper hdigit
    exact isGraphic_upperDigit hn

theorem trim_line : Text.trim r.line = r.line := by
  have hne : r.line ≠ [] := List.cons_ne_nil _ _
  refine Text.trim_eq_self (List.head?_eq_some_head hne) (List.getLast?_eq_some_getLast hne) ?_ ?_
  · exact isGraphic_of_mem_line r (List.head_mem hne)
  · exact isGraphic_of_mem_line r (List.getLast_mem hne)

theorem isLine_line (h : r.payload.length ≤ 255) : Text.IsLine r.line where
  feed := fun hmem => absurd (isGraphic_of_mem_line r hmem) (by decide)
  ending := fun hlast =>
    absurd (isGraphic_of_mem_line r (List.mem_of_getLast? hlast)) (by decide)
  short := by
    simp only [line, List.length_cons, length_encodeUpper, length_bytes, Text.lineLimit]
    omega

end Record

end Hex

end AvrSim
