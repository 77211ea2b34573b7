import AvrSim.Hex.Record
import AvrSim.Proofs.Hex.Record

/-!
# Lines that hold a record

A line holds a record if it is a colon and the digits of a count, an address, a type, as many bytes as
the count says and a byte that brings the sum to zero. If one of these is not so, the first that is not
decides what kind of fault the line has.

* `HoldsRecord` says which record a line holds, `Misspelt` why it holds none.
* `parse_eq_ok_iff`: what is read from a line is the record that it holds.
* `misspelt_of_parse_eq_error` and `parse_of_misspelt`: the fault of a line that cannot be read.
-/

namespace AvrSim.Hex

/-! ## Spelling -/

/-- Digits that spell bytes, two for each. -/
inductive Spelling : Bytes → List UInt8 → Prop
  | nil : Spelling [] []
  | cons {a b : UInt8} {high low : Nat} {digits : Bytes} {bytes : List UInt8}
    (ha : digit? a = some high) (hb : digit? b = some low) (h : Spelling digits bytes) :
    Spelling (a :: b :: digits) (UInt8.ofNat (high * 16 + low) :: bytes)

/-- The sum of bytes as a number. -/
def total (bytes : List UInt8) : Nat := bytes.foldr (fun b n => b.toNat + n) 0

/-- The bytes of a record line: count, address, type, payload and sum. -/
def framed (count high low kind : UInt8) (payload : List UInt8) (sum : UInt8) : List UInt8 :=
  count :: high :: low :: kind :: (payload ++ [sum])

/-- A line that holds a record. -/
def HoldsRecord (line : Bytes) (r : Record) : Prop :=
  ∃ digits count high low sum, line = ':'.toUInt8 :: digits ∧
    Spelling digits (framed count high low r.kind r.payload sum) ∧
    count.toNat = r.payload.length ∧
    total (framed count high low r.kind r.payload sum) % 256 = 0 ∧
    r.address.toNat = high.toNat * 256 + low.toNat

/-! ## Faults -/

/-- The kinds of faults, without their details. -/
inductive FaultKind
  | malformed
  | checksum
  | unsupported
  | empty
  | tooLarge
  | lineTooLong
  deriving DecidableEq, Repr

/-- The kind of a fault. -/
def Fault.kind : Fault → FaultKind
  | .malformed _ => .malformed
  | .checksum _ _ => .checksum
  | .unsupported _ => .unsupported
  | .empty => .empty
  | .tooLarge _ _ _ => .tooLarge
  | .lineTooLong => .lineTooLong

/-- Why a line holds no record: in each case all that is looked at before is right. -/
inductive Misspelt (line : Bytes) : FaultKind → Prop
  | start (hblank : line ≠ []) (h : line.head? ≠ some ':'.toUInt8) : Misspelt line .malformed
  | digits {digits : Bytes} (hline : line = ':'.toUInt8 :: digits)
    (h : ∀ bytes, ¬ Spelling digits bytes) : Misspelt line .malformed
  | short {digits : Bytes} {bytes : List UInt8} (hline : line = ':'.toUInt8 :: digits)
    (hdigits : Spelling digits bytes) (h : bytes.length < 5) : Misspelt line .malformed
  | count {digits : Bytes} {count high low kind sum : UInt8} {payload : List UInt8}
    (hline : line = ':'.toUInt8 :: digits)
    (hdigits : Spelling digits (framed count high low kind payload sum))
    (h : count.toNat ≠ payload.length) : Misspelt line .malformed
  | sum {digits : Bytes} {count high low kind sum : UInt8} {payload : List UInt8}
    (hline : line = ':'.toUInt8 :: digits)
    (hdigits : Spelling digits (framed count high low kind payload sum))
    (hcount : count.toNat = payload.length)
    (h : total (framed count high low kind payload sum) % 256 ≠ 0) : Misspelt line .checksum

/-! ## Spelled bytes -/

theorem isDigit_of_spelling {digits : Bytes} {bytes : List UInt8} (h : Spelling digits bytes) :
    ∀ b ∈ digits, isDigit b := by
  induction h with
  | nil => simp
  | cons ha hb h ih =>
    refine List.forall_mem_cons.mpr ⟨by simp [isDigit, ha], ?_⟩
    exact List.forall_mem_cons.mpr ⟨by simp [isDigit, hb], ih⟩

theorem pairs_of_spelling {digits : Bytes} {bytes : List UInt8} (h : Spelling digits bytes) :
    pairs digits = bytes ∧ digits.length % 2 = 0 := by
  induction h with
  | nil => exact ⟨rfl, rfl⟩
  | cons ha hb h ih =>
    refine ⟨by simp [pairs, digitValue, ha, hb, ih.1], ?_⟩
    simp only [List.length_cons]
    omega

theorem spelling_pairs {digits : Bytes} (hdigits : ∀ b ∈ digits, isDigit b)
    (heven : digits.length % 2 = 0) : Spelling digits (pairs digits) := by
  fun_induction pairs digits with
  | case1 a b rest ih =>
    simp only [List.forall_mem_cons, isDigit, Option.isSome_iff_exists] at hdigits
    obtain ⟨⟨high, ha⟩, ⟨low, hb⟩, hrest⟩ := hdigits
    simp only [List.length_cons] at heven
    have hspelling := Spelling.cons ha hb
      (ih (fun b hb => Option.isSome_iff_exists.mpr (hrest b hb)) (by omega))
    simpa [digitValue, ha, hb] using hspelling
  | case2 digits hshort =>
    cases digits with
    | nil => exact .nil
    | cons a rest =>
      cases rest with
      | nil => cases heven
      | cons b rest => exact absurd rfl (hshort a b rest)

theorem decode_eq_ok_iff {digits : Bytes} {bytes : List UInt8} :
    decode digits = .ok bytes ↔ Spelling digits bytes := by
  have hnone : digits.find? (!isDigit ·) = none ↔ ∀ b ∈ digits, isDigit b := by simp
  constructor
  · intro h
    unfold decode at h
    split at h
    · cases h
    · rename_i hdigits
      split at h
      · cases h
      · rename_i heven
        cases h
        exact spelling_pairs (hnone.mp hdigits) (by omega)
  · intro h
    obtain ⟨hpairs, heven⟩ := pairs_of_spelling h
    unfold decode
    rw [hnone.mpr (isDigit_of_spelling h), hpairs]
    simp [heven]

theorem toNat_sum8 (bytes : List UInt8) : (sum8 bytes).toNat = total bytes % 256 := by
  have hfold (b : UInt8) : (bytes.foldl (· + ·) b).toNat = (b.toNat + total bytes) % 256 := by
    induction bytes generalizing b with
    | nil => simp [total]
    | cons x bytes ih =>
      rw [List.foldl_cons, ih, UInt8.toNat_add]
      simp [total]
      omega
  have hzero := hfold 0
  rwa [UInt8.toNat_zero, Nat.zero_add] at hzero

theorem sum8_eq_zero_iff {bytes : List UInt8} : sum8 bytes = 0 ↔ total bytes % 256 = 0 := by
  rw [← toNat_sum8, ← UInt8.toNat_inj]
  rfl

/-! ## Records -/

theorem exists_framed {bytes : List UInt8} (h : 5 ≤ bytes.length) :
    ∃ count high low kind payload sum, bytes = framed count high low kind payload sum := by
  match bytes, h with
  | count :: high :: low :: kind :: b :: rest, _ =>
    have hne : b :: rest ≠ [] := List.cons_ne_nil b rest
    refine ⟨count, high, low, kind, (b :: rest).dropLast, (b :: rest).getLast hne, ?_⟩
    rw [framed, List.dropLast_concat_getLast]

namespace Record

theorem ofBytes_short {bytes : List UInt8} (h : bytes.length < 5) :
    ofBytes bytes = .error (.malformed .tooShort) := by
  unfold ofBytes
  split
  · simp only [List.length_cons] at h
    omega
  · rfl

theorem ofBytes_framed (count high low kind : UInt8) (payload : List UInt8) (sum : UInt8) :
    ofBytes (framed count high low kind payload sum) =
      if count.toNat ≠ payload.length then
        .error (.malformed (.count count.toNat payload.length))
      else if total (framed count high low kind payload sum) % 256 ≠ 0 then
        .error (.checksum (checksum (framed count high low kind payload sum).dropLast)
          ((framed count high low kind payload sum).getLastD 0))
      else .ok ⟨UInt16.ofNat (word high low), kind, payload⟩ := by
  have hlength : (payload ++ [sum]).length - 1 = payload.length := by simp
  unfold framed
  rw [ofBytes_of_ne_nil _ _ _ _ (by simp), hlength, List.dropLast_concat]
  simp only [ne_eq, sum8_eq_zero_iff]

theorem parse_colon (digits : Bytes) :
    parse (':'.toUInt8 :: digits) =
      match decode digits with
      | .error fault => .error (.malformed (.digits fault))
      | .ok bytes => ofBytes bytes :=
  rfl

theorem parse_of_spelling {digits : Bytes} {bytes : List UInt8} (h : Spelling digits bytes) :
    parse (':'.toUInt8 :: digits) = ofBytes bytes := by
  rw [parse_colon, decode_eq_ok_iff.mpr h]

theorem parse_of_head? {line : Bytes} (h : line.head? ≠ some ':'.toUInt8) :
    parse line = .error (.malformed .missingStart) := by
  unfold parse
  split
  · exact absurd rfl h
  · rfl

end Record

theorem word_lt (high low : UInt8) : word high low < 65536 := by
  have hhigh := high.toNat_lt
  have hlow := low.toNat_lt
  unfold word
  omega

theorem toNat_ofNat_word (high low : UInt8) : (UInt16.ofNat (word high low)).toNat = word high low :=
  UInt16.toNat_ofNat_of_lt' (word_lt high low)

/-- What is read from a line is the record that it holds. -/
theorem parse_eq_ok_iff {line : Bytes} {r : Record} :
    Record.parse line = .ok r ↔ HoldsRecord line r := by
  constructor
  · intro h
    by_cases hstart : line.head? = some ':'.toUInt8
    · obtain ⟨digits, rfl⟩ := List.head?_eq_some_iff.mp hstart
      rw [Record.parse_colon] at h
      split at h
      · cases h
      · rename_i bytes hdecode
        by_cases hlength : bytes.length < 5
        · rw [Record.ofBytes_short hlength] at h
          cases h
        · obtain ⟨count, high, low, kind, payload, sum, rfl⟩ := exists_framed (Nat.not_lt.mp hlength)
          rw [Record.ofBytes_framed] at h
          split at h
          · cases h
          · rename_i hcount
            split at h
            · cases h
            · rename_i hsum
              cases h
              exact ⟨digits, count, high, low, sum, rfl, decode_eq_ok_iff.mp hdecode,
                Decidable.not_not.mp hcount, Decidable.not_not.mp hsum, toNat_ofNat_word high low⟩
    · rw [Record.parse_of_head? hstart] at h
      cases h
  · rintro ⟨digits, count, high, low, sum, rfl, hdigits, hcount, hsum, haddress⟩
    rw [Record.parse_of_spelling hdigits, Record.ofBytes_framed, if_neg (not_not_intro hcount),
      if_neg (not_not_intro hsum)]
    have hword : UInt16.ofNat (word high low) = r.address := by
      rw [← UInt16.toNat_inj, toNat_ofNat_word, haddress]
      rfl
    rw [hword]

theorem misspelt_of_parse_eq_error {line : Bytes} {fault : Fault} (hblank : line ≠ [])
    (h : Record.parse line = .error fault) : Misspelt line fault.kind := by
  by_cases hstart : line.head? = some ':'.toUInt8
  · obtain ⟨digits, rfl⟩ := List.head?_eq_some_iff.mp hstart
    rw [Record.parse_colon] at h
    split at h
    · rename_i digitFault hdecode
      cases h
      refine .digits rfl fun bytes hbytes => ?_
      rw [decode_eq_ok_iff.mpr hbytes] at hdecode
      cases hdecode
    · rename_i bytes hdecode
      have hspelling := decode_eq_ok_iff.mp hdecode
      by_cases hlength : bytes.length < 5
      · rw [Record.ofBytes_short hlength] at h
        cases h
        exact .short rfl hspelling hlength
      · obtain ⟨count, high, low, kind, payload, sum, rfl⟩ := exists_framed (Nat.not_lt.mp hlength)
        rw [Record.ofBytes_framed] at h
        split at h
        · rename_i hcount
          cases h
          exact .count rfl hspelling hcount
        · rename_i hcount
          split at h
          · rename_i hsum
            cases h
            exact .sum rfl hspelling (Decidable.not_not.mp hcount) hsum
          · cases h
  · rw [Record.parse_of_head? hstart] at h
    cases h
    exact .start hblank hstart

theorem parse_of_misspelt {line : Bytes} {kind : FaultKind} (h : Misspelt line kind) :
    line ≠ [] ∧ ∃ fault, Record.parse line = .error fault ∧ fault.kind = kind := by
  cases h with
  | start hblank h => exact ⟨hblank, _, Record.parse_of_head? h, rfl⟩
  | @digits digits hline h =>
    subst hline
    have hparse := Record.parse_colon digits
    cases hdecode : decode digits with
    | error fault =>
      rw [hdecode] at hparse
      exact ⟨List.cons_ne_nil _ _, _, hparse, rfl⟩
    | ok bytes => exact absurd (decode_eq_ok_iff.mp hdecode) (h bytes)
  | short hline hdigits h =>
    subst hline
    have hparse := Record.parse_of_spelling hdigits
    rw [Record.ofBytes_short h] at hparse
    exact ⟨List.cons_ne_nil _ _, _, hparse, rfl⟩
  | count hline hdigits h =>
    subst hline
    have hparse := Record.parse_of_spelling hdigits
    rw [Record.ofBytes_framed, if_pos h] at hparse
    exact ⟨List.cons_ne_nil _ _, _, hparse, rfl⟩
  | sum hline hdigits hcount h =>
    subst hline
    have hparse := Record.parse_of_spelling hdigits
    rw [Record.ofBytes_framed, if_neg (not_not_intro hcount), if_pos h] at hparse
    exact ⟨List.cons_ne_nil _ _, _, hparse, rfl⟩

end AvrSim.Hex
