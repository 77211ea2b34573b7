import AvrSim.Numeral
import Mathlib.Data.Nat.Digits.Defs
import Mathlib.Tactic.Ring

/-!
# What numerals say

A numeral is read digit by digit and refused where it no longer fits. What is read is the number that
the digits write in their base, and a row of digits is refused exactly if that number does not fit. A
sign can stand only where a signed numeral begins: no row of digits holds one, and neither does a
hexadecimal spelling.

* `Digits` and `Spells` say which number a row of digits writes; `exists_spells`: every number has one.
* `accumulate_of_digits` and `digits_of_accumulate`: reading a row of digits finds its number.
* `signed_of_spells`, `integer_of_spells`, `hex_of_spells`: what becomes of rows of digits.
* `of_signed_eq_ok`, `of_integer_eq_ok`, `not_isSign_of_hex`: where the signs of a numeral are.
-/

namespace AvrSim.Numeral

variable {base limit bits n value : Nat} {text digits : Bytes} {underscores : Bool}

/-! ## Rows of digits -/

/-- The bytes are digits of a base and write a number, the first of them its highest digit. -/
def Digits (base : Nat) (text : Bytes) (n : Nat) : Prop :=
  ∃ ds : List Nat, text.map digit? = ds.map some ∧ (∀ d ∈ ds, d < base) ∧
    Nat.ofDigits base ds.reverse = n

/-- A row of digits that is not empty writes a number. -/
structure Spells (base : Nat) (text : Bytes) (n : Nat) : Prop where
  nonempty : text ≠ []
  digits : Digits base text n

theorem digits_nil_iff : Digits base [] n ↔ n = 0 := by
  constructor
  · rintro ⟨ds, hmap, -, rfl⟩
    have hnil : ds = [] := by simpa using hmap.symm
    rw [hnil]
    rfl
  · rintro rfl
    exact ⟨[], rfl, by simp, rfl⟩

theorem digits_cons_iff {b : UInt8} :
    Digits base (b :: text) n ↔ ∃ d m, digit? b = some d ∧ d < base ∧ Digits base text m ∧
      n = d * base ^ text.length + m := by
  constructor
  · rintro ⟨ds, hmap, hlt, rfl⟩
    cases ds with
    | nil => simp at hmap
    | cons d ds =>
      rw [List.map_cons, List.map_cons, List.cons.injEq] at hmap
      have hlength : ds.length = text.length := by simpa using (congrArg List.length hmap.2).symm
      refine ⟨d, _, hmap.1, hlt d List.mem_cons_self,
        ⟨ds, hmap.2, fun x hx => hlt x (List.mem_cons_of_mem d hx), rfl⟩, ?_⟩
      rw [List.reverse_cons, Nat.ofDigits_append, Nat.ofDigits_singleton, List.length_reverse, hlength]
      ring
  · rintro ⟨d, m, hd, hlt, ⟨ds, hmap, hall, rfl⟩, rfl⟩
    have hlength : ds.length = text.length := by simpa using (congrArg List.length hmap).symm
    refine ⟨d :: ds, by simp [hd, hmap], List.forall_mem_cons.mpr ⟨hlt, hall⟩, ?_⟩
    rw [List.reverse_cons, Nat.ofDigits_append, Nat.ofDigits_singleton, List.length_reverse, hlength]
    ring

/-- A digit in a base up to 36, in lower case. -/
def digitByte (d : Nat) : UInt8 := UInt8.ofNat (if d < 10 then 48 + d else 87 + d)

theorem digit?_digitByte {d : Nat} (h : d < 36) : digit? (digitByte d) = some d := by
  have hall : ∀ d ∈ List.range 36, digit? (digitByte d) = some d := by decide
  exact hall d (List.mem_range.mpr h)

/-- Every number is written in every base. -/
theorem exists_spells (hbase : 1 < base) (hlast : base ≤ 36) (n : Nat) : ∃ text, Spells base text n := by
  have hlt : ∀ d ∈ 0 :: (Nat.digits base n).reverse, d < base := by
    rw [List.forall_mem_cons]
    refine ⟨by omega, fun d hd => ?_⟩
    exact Nat.digits_lt_base hbase (List.mem_reverse.mp hd)
  refine ⟨(0 :: (Nat.digits base n).reverse).map digitByte, by simp, _, ?_, hlt, ?_⟩
  · rw [List.map_map]
    refine List.map_congr_left fun d hd => ?_
    have hd := hlt d hd
    exact digit?_digitByte (by omega)
  · rw [List.reverse_cons, List.reverse_reverse, Nat.ofDigits_append, Nat.ofDigits_digits]
    simp

/-! ## Bytes that are no digits -/

/-- A plus or a minus. -/
def isSign (b : UInt8) : Bool := b == '+'.toUInt8 || b == '-'.toUInt8

theorem isSign_iff {b : UInt8} : isSign b ↔ b = '+'.toUInt8 ∨ b = '-'.toUInt8 := by
  simp [isSign]

theorem digit?_of_isSign {b : UInt8} (h : isSign b) : digit? b = none := by
  rcases isSign_iff.mp h with rfl | rfl <;> rfl

theorem not_isSign_of_digit? {b : UInt8} {d : Nat} (h : digit? b = some d) : ¬ isSign b := by
  intro hsign
  rw [digit?_of_isSign hsign] at h
  cases h

theorem exists_digit? (h : Digits base text n) : ∀ b ∈ text, ∃ d, digit? b = some d ∧ d < base := by
  obtain ⟨ds, hmap, hlt, -⟩ := h
  intro b hb
  have hmem : digit? b ∈ ds.map some := hmap ▸ List.mem_map_of_mem hb
  obtain ⟨d, hd, heq⟩ := List.mem_map.mp hmem
  exact ⟨d, heq.symm, hlt d hd⟩

theorem Spells.exists_cons (h : Spells base text n) :
    ∃ b rest d, text = b :: rest ∧ digit? b = some d ∧ d < base := by
  obtain ⟨b, rest, rfl⟩ := List.exists_cons_of_ne_nil h.nonempty
  obtain ⟨d, hd, hlt⟩ := exists_digit? h.digits b List.mem_cons_self
  exact ⟨b, rest, d, rfl, hd, hlt⟩

theorem Spells.not_isSign (h : Spells base text n) : ∀ b ∈ text, ¬ isSign b := by
  intro b hb
  obtain ⟨d, hd, -⟩ := exists_digit? h.digits b hb
  exact not_isSign_of_digit? hd

/-- A byte that is no digit of the base does not stand in a row of digits. -/
theorem Spells.not_mem {b : UInt8} (h : Spells base text n) (hb : ∀ d, digit? b = some d → base ≤ d) :
    b ∉ text := by
  intro hmem
  obtain ⟨d, hd, hlt⟩ := exists_digit? h.digits b hmem
  have hle := hb d hd
  omega

/-! ## Reading digits -/

/-- A row of digits is read as its number, or is too large. -/
theorem accumulate_of_digits (hbase : 0 < base) (hvalue : value ≤ limit) (h : Digits base text n) :
    accumulate base limit underscores text value =
      if value * base ^ text.length + n ≤ limit then .ok (value * base ^ text.length + n)
      else .error .outOfRange := by
  induction text generalizing value n with
  | nil =>
    rw [digits_nil_iff.mp h, List.length_nil, Nat.pow_zero, Nat.mul_one, Nat.add_zero, if_pos hvalue]
    rfl
  | cons b rest ih =>
    obtain ⟨d, m, hd, hlt, hrest, rfl⟩ := digits_cons_iff.mp h
    have hunderscore : (underscores && b == '_'.toUInt8) = false := by
      rw [Bool.and_eq_false_iff, beq_eq_false_iff_ne]
      right
      rintro rfl
      cases hd
    have hsum : (value * base + d) * base ^ rest.length + m =
        value * base ^ (b :: rest).length + (d * base ^ rest.length + m) := by
      rw [List.length_cons]
      ring
    rw [accumulate, hunderscore, hd, ← hsum]
    simp only [Bool.false_eq_true, if_false]
    rw [if_neg (by omega)]
    by_cases hfits : limit < value * base + d
    · -- the number of all digits is not smaller than that of the first ones
      have hgrows : value * base + d ≤ (value * base + d) * base ^ rest.length + m := by
        have hpower := Nat.le_mul_of_pos_right (value * base + d) (Nat.pow_pos (n := rest.length) hbase)
        omega
      rw [if_pos hfits, if_neg (by omega)]
    · rw [if_neg hfits, ih (by omega) hrest]

/-- What is read without underscores is a row of digits. -/
theorem digits_of_accumulate (h : accumulate base limit false text value = .ok n) :
    ∃ m, Digits base text m ∧ n = value * base ^ text.length + m := by
  induction text generalizing value with
  | nil =>
    cases h
    exact ⟨0, digits_nil_iff.mpr rfl, by simp⟩
  | cons b rest ih =>
    rw [accumulate] at h
    simp only [Bool.false_and, Bool.false_eq_true, if_false] at h
    split at h
    · cases h
    · rename_i d hd
      split at h
      · cases h
      · rename_i hlt
        split at h
        · cases h
        · obtain ⟨m, hm, rfl⟩ := ih h
          refine ⟨d * base ^ rest.length + m, digits_cons_iff.mpr ⟨d, m, hd, by omega, hm, rfl⟩, ?_⟩
          rw [List.length_cons]
          ring

/-- Whatever is read holds no sign. -/
theorem not_isSign_of_accumulate (h : accumulate base limit underscores text value = .ok n) :
    ∀ b ∈ text, ¬ isSign b := by
  induction text generalizing value with
  | nil => simp
  | cons b rest ih =>
    rw [accumulate] at h
    rw [List.forall_mem_cons]
    split at h
    · rename_i hunderscore
      simp only [Bool.and_eq_true, beq_iff_eq] at hunderscore
      refine ⟨?_, ih h⟩
      rw [hunderscore.2]
      decide
    · split at h
      · cases h
      · rename_i d hd
        refine ⟨not_isSign_of_digit? hd, ?_⟩
        split at h
        · cases h
        · split at h
          · cases h
          · exact ih h

/-! ## Unsigned and signed numerals -/

theorem unsigned_of_spells (hbase : 0 < base) (h : Spells base text n) :
    unsigned (.fixed base) bits text = if n < 2 ^ bits then .ok n else .error .outOfRange := by
  have hpower : 0 < 2 ^ bits := Nat.two_pow_pos bits
  unfold unsigned
  rw [if_neg (by simpa using h.nonempty)]
  dsimp only
  rw [accumulate_of_digits hbase (Nat.zero_le _) h.digits, Nat.zero_mul, Nat.zero_add, Nat.shiftLeft_eq,
    Nat.one_mul]
  by_cases hn : n < 2 ^ bits
  · rw [if_pos hn, if_pos (by omega)]
  · rw [if_neg hn, if_neg (by omega)]

theorem spells_of_unsigned (h : unsigned (.fixed base) bits text = .ok n) : Spells base text n := by
  unfold unsigned at h
  split at h
  · cases h
  · rename_i hne
    obtain ⟨m, hm, rfl⟩ := digits_of_accumulate h
    refine ⟨by simpa using hne, ?_⟩
    rwa [Nat.zero_mul, Nat.zero_add]

theorem unsigned_eq_ok_iff (hbase : 0 < base) :
    unsigned (.fixed base) bits text = .ok n ↔ Spells base text n ∧ n < 2 ^ bits := by
  constructor
  · intro h
    have hspells := spells_of_unsigned h
    rw [unsigned_of_spells hbase hspells] at h
    split at h
    · rename_i hlt
      exact ⟨hspells, hlt⟩
    · cases h
  · rintro ⟨hspells, hlt⟩
    rw [unsigned_of_spells hbase hspells, if_pos hlt]

theorem splitSign_of_not_isSign {b : UInt8} (h : ¬ isSign b) (rest : Bytes) :
    splitSign (b :: rest) = (false, b :: rest) := by
  unfold splitSign
  split
  · rename_i heq
    cases heq
    exact absurd rfl h
  · rename_i heq
    cases heq
    exact absurd rfl h
  · rfl

/-- A row of digits without a sign keeps clear of the sign bit. -/
theorem signed_of_spells (hbase : 0 < base) (h : Spells base text n) :
    signed (.fixed base) (bits + 1) text = if n < 2 ^ bits then .ok n else .error .outOfRange := by
  obtain ⟨b, rest, d, rfl, hd, -⟩ := h.exists_cons
  unfold signed
  rw [splitSign_of_not_isSign (not_isSign_of_digit? hd)]
  dsimp only
  rw [unsigned_of_spells hbase h, Nat.add_sub_cancel, Nat.shiftLeft_eq, Nat.one_mul]
  by_cases hwide : n < 2 ^ (bits + 1)
  · rw [if_pos hwide]
    by_cases hn : n < 2 ^ bits
    · rw [if_pos hn]
      simp [bind, Except.bind, Nat.not_le.mpr hn]
    · rw [if_neg hn]
      simp [bind, Except.bind, Nat.not_lt.mp hn]
  · have hn : ¬ n < 2 ^ bits := by
      rw [Nat.pow_succ] at hwide
      omega
    rw [if_neg hwide, if_neg hn]
    rfl

/-- A number with the sign that stands before it. -/
def withSign (sign : Bytes) (n : Nat) : Int := if sign = ['-'.toUInt8] then -n else n

/-- A signed numeral is a row of digits with at most one sign before it. -/
theorem of_signed_eq_ok {v : Int} (h : signed (.fixed base) bits text = .ok v) :
    ∃ sign digits n, text = sign ++ digits ∧ (sign = [] ∨ ∃ b, isSign b ∧ sign = [b]) ∧
      Spells base digits n ∧ v = withSign sign n := by
  have hpeel (negative : Bool) (magnitude : Bytes) (hsplit : splitSign text = (negative, magnitude)) :
      ∃ n, Spells base magnitude n ∧ v = if negative then -(n : Int) else n := by
    unfold signed at h
    rw [hsplit] at h
    dsimp only at h
    cases hread : unsigned (.fixed base) bits magnitude with
    | error fault =>
      rw [hread] at h
      cases h
    | ok n =>
      rw [hread] at h
      refine ⟨n, spells_of_unsigned hread, ?_⟩
      cases negative with
      | false =>
        simp only [bind, Except.bind, Bool.false_eq_true, if_false] at h ⊢
        split at h
        · cases h
        · exact (Except.ok.inj h).symm
      | true =>
        simp only [bind, Except.bind, if_true] at h ⊢
        split at h
        · cases h
        · exact (Except.ok.inj h).symm
  unfold splitSign at hpeel
  split at hpeel
  · rename_i rest
    obtain ⟨n, hn, rfl⟩ := hpeel _ _ rfl
    exact ⟨['+'.toUInt8], rest, n, rfl, .inr ⟨_, rfl, rfl⟩, hn, rfl⟩
  · rename_i rest
    obtain ⟨n, hn, rfl⟩ := hpeel _ _ rfl
    exact ⟨['-'.toUInt8], rest, n, rfl, .inr ⟨_, rfl, rfl⟩, hn, rfl⟩
  · obtain ⟨n, hn, rfl⟩ := hpeel _ _ rfl
    exact ⟨[], text, n, rfl, .inl rfl, hn, rfl⟩

/-! ## Decimal spellings -/

theorem integer_of_spells (h : Spells 10 text n) :
    (integer text).toOption = if n < 2 ^ 31 then some (n : Int) else none := by
  obtain ⟨b, rest, d, rfl, hd, -⟩ := h.exists_cons
  have hhash : (b :: rest).head? ≠ some '#'.toUInt8 := by
    rw [List.head?_cons]
    intro heq
    rw [Option.some.inj heq] at hd
    cases hd
  unfold integer
  rw [if_neg (by simpa using hhash)]
  dsimp only
  unfold readSigned
  rw [signed_of_spells (by decide) h]
  split <;> rfl

/-- A decimal spelling has at most one sign, and that before its digits. -/
theorem of_integer_eq_ok {v : Int} (h : integer text = .ok v) :
    ∃ front sign digits n, text = front ++ (sign ++ digits) ∧ (front = [] ∨ front = ['#'.toUInt8]) ∧
      (sign = [] ∨ ∃ b, isSign b ∧ sign = [b]) ∧ Spells 10 digits n ∧ v = withSign sign n := by
  have hread {numeral : Bytes}
      (hnumeral : (readSigned (.fixed 10) 32 numeral).mapError SpellingError.refused = .ok v) :
      signed (.fixed 10) 32 numeral = .ok v := by
    unfold readSigned at hnumeral
    cases hsigned : signed (.fixed 10) 32 numeral with
    | error fault =>
      rw [hsigned] at hnumeral
      cases hnumeral
    | ok w =>
      rw [hsigned] at hnumeral
      cases hnumeral
      rfl
  unfold integer at h
  split at h
  · rename_i hhash
    obtain ⟨rest, rfl⟩ := List.head?_eq_some_iff.mp (beq_iff_eq.mp hhash)
    obtain ⟨sign, digits, n, htext, hsign, hdigits, hv⟩ := of_signed_eq_ok (hread h)
    exact ⟨_, sign, digits, n, congrArg _ htext, .inr rfl, hsign, hdigits, hv⟩
  · obtain ⟨sign, digits, n, htext, hsign, hdigits, hv⟩ := of_signed_eq_ok (hread h)
    exact ⟨[], sign, digits, n, htext, .inl rfl, hsign, hdigits, hv⟩

/-! ## Hexadecimal spellings -/

theorem unsigned_marked_of_spells {mark : UInt8} (hmark : Bytes.lowerByte mark = 'x'.toUInt8)
    (h : Spells 16 digits n) :
    unsigned .marked bits (0x30 :: mark :: digits) =
      if n < 2 ^ bits then .ok n else .error .outOfRange := by
  obtain ⟨b, rest, d, rfl, hd, -⟩ := h.exists_cons
  have hpower : 0 < 2 ^ bits := Nat.two_pow_pos bits
  have hsplit : splitMark (0x30 :: mark :: b :: rest) = (16, b :: rest) := by
    simp only [splitMark, hmark]
    rfl
  have hclean : (0x30 :: mark :: b :: rest).contains '_'.toUInt8 = false := by
    have hdigits : '_'.toUInt8 ∉ b :: rest := h.not_mem (by rintro d ⟨⟩)
    have hne : '_'.toUInt8 ≠ mark := by
      rintro rfl
      exact absurd hmark (by decide)
    rw [List.contains_eq_mem, decide_eq_false_iff_not, List.mem_cons, List.mem_cons, not_or, not_or]
    exact ⟨by decide, hne, hdigits⟩
  unfold unsigned
  rw [if_neg (by simp)]
  dsimp only
  rw [hsplit, accumulate_of_digits (by decide) (Nat.zero_le _) h.digits, hclean, Nat.zero_mul,
    Nat.zero_add, Nat.shiftLeft_eq, Nat.one_mul]
  by_cases hn : n < 2 ^ bits
  · rw [if_pos hn, if_pos (by omega)]
    rfl
  · rw [if_neg hn, if_neg (by omega)]
    rfl

/-- Digits behind one of the marks `0x`, `0X` and `$`. -/
inductive Marked (digits : Bytes) : Bytes → Prop
  | zero {mark : UInt8} (hmark : isHexLetter mark) : Marked digits (0x30 :: mark :: digits)
  | dollar : Marked digits (0x24 :: digits)

theorem withHexMark_of_marked (h : Marked digits text) :
    ∃ mark, Bytes.lowerByte mark = 'x'.toUInt8 ∧ withHexMark text = some (0x30 :: mark :: digits) := by
  cases h with
  | zero hmark =>
    rename_i mark
    refine ⟨mark, ?_, ?_⟩
    · unfold isHexLetter at hmark
      simp only [Bool.or_eq_true, beq_iff_eq] at hmark
      rcases hmark with rfl | rfl <;> rfl
    · have hfirst : isHexLetter 0x30 = false := by decide
      simp [withHexMark, List.findIdx?_cons, hfirst, hmark]
  | dollar => exact ⟨'x'.toUInt8, rfl, rfl⟩

theorem hex_of_spells (hmarked : Marked digits text) (h : Spells 16 digits n) :
    (hex text).toOption = if n < 2 ^ 32 then some (UInt32.ofNat n) else none := by
  obtain ⟨mark, hmark, htext⟩ := withHexMark_of_marked hmarked
  unfold hex
  rw [htext]
  dsimp only
  unfold readUnsigned
  rw [unsigned_marked_of_spells hmark h]
  by_cases hn : n < 2 ^ 32
  · rw [if_pos hn, if_pos hn]
    rfl
  · rw [if_neg hn, if_neg hn]
    rfl

/-- A mark is not a sign. -/
theorem not_isSign_of_lowerByte {mark letter : UInt8} (hletter : ¬ isSign letter)
    (h : Bytes.lowerByte mark = letter) : ¬ isSign mark := by
  intro hsign
  apply hletter
  rw [← h]
  rcases isSign_iff.mp hsign with rfl | rfl <;> rfl

theorem not_isSign_of_splitMark (h : ∀ b ∈ (splitMark text).2, ¬ isSign b) :
    ∀ b ∈ text, ¬ isSign b := by
  have hzero : ¬ isSign 0x30 := by decide
  unfold splitMark at h
  split at h
  · rename_i mark d rest
    have hmark {letter : UInt8} (hletter : ¬ isSign letter)
        (heq : (Bytes.lowerByte mark == letter) = true) (hrest : ∀ b ∈ d :: rest, ¬ isSign b) :
        ∀ b ∈ 0x30 :: mark :: d :: rest, ¬ isSign b := by
      rw [List.forall_mem_cons, List.forall_mem_cons]
      exact ⟨hzero, not_isSign_of_lowerByte hletter (beq_iff_eq.mp heq), hrest⟩
    split at h
    · rename_i hletter
      exact hmark (by decide) hletter h
    · split at h
      · rename_i hletter
        exact hmark (by decide) hletter h
      · split at h
        · rename_i hletter
          exact hmark (by decide) hletter h
        · exact List.forall_mem_cons.mpr ⟨hzero, h⟩
  · exact List.forall_mem_cons.mpr ⟨hzero, h⟩
  · exact h

theorem not_isSign_of_unsigned (h : unsigned .marked bits text = .ok n) : ∀ b ∈ text, ¬ isSign b := by
  unfold unsigned at h
  split at h
  · cases h
  · dsimp only at h
    cases hread : accumulate (splitMark text).1 (1 <<< bits - 1) true (splitMark text).2 0 with
    | error fault =>
      rw [hread] at h
      cases h
    | ok m => exact not_isSign_of_splitMark (not_isSign_of_accumulate hread)

/-- A hexadecimal spelling has no sign. -/
theorem not_isSign_of_hex {w : UInt32} (h : hex text = .ok w) : ∀ b ∈ text, ¬ isSign b := by
  unfold hex at h
  split at h
  · cases h
  · rename_i numeral hnumeral
    have hclean : ∀ b ∈ numeral, ¬ isSign b := by
      cases hread : unsigned .marked 32 numeral with
      | error fault =>
        unfold readUnsigned at h
        rw [hread] at h
        cases h
      | ok m => exact not_isSign_of_unsigned hread
    unfold withHexMark at hnumeral
    split at hnumeral
    · -- only the dollar is not part of the numeral
      rename_i rest
      cases hnumeral
      rw [List.forall_mem_cons, List.forall_mem_cons] at hclean
      exact List.forall_mem_cons.mpr ⟨by decide, hclean.2.2⟩
    · split at hnumeral
      · cases hnumeral
        exact (List.forall_mem_cons.mp hclean).2
      · split at hnumeral
        · cases hnumeral
          exact hclean
        · cases hnumeral
      · cases hnumeral

/-! ## Spellings of either kind -/

theorem number_of_marked (hmarked : Marked digits text) (h : Spells 16 digits n) :
    (number text).toOption = if n < 2 ^ 32 then some (n : Int) else none := by
  have hany : (text.any fun b => isHexLetter b || b == '$'.toUInt8) = true := by
    cases hmarked with
    | zero hmark => simp [hmark]
    | dollar => rfl
  have hread := hex_of_spells hmarked h
  unfold number
  rw [if_pos hany]
  cases hhex : hex text with
  | error e =>
    rw [hhex] at hread
    split at hread
    · cases hread
    · rename_i hn
      rw [if_neg hn]
      rfl
  | ok w =>
    rw [hhex] at hread
    split at hread
    · rename_i hn
      cases hread
      rw [if_pos hn]
      change some (((UInt32.ofNat n).toNat : Nat) : Int) = _
      rw [UInt32.toNat_ofNat_of_lt' hn]
    · cases hread

theorem number_of_spells (h : Spells 10 text n) :
    (number text).toOption = if n < 2 ^ 31 then some (n : Int) else none := by
  have hany : ¬ (text.any fun b => isHexLetter b || b == '$'.toUInt8) = true := by
    rw [List.any_eq_true]
    rintro ⟨b, hb, hmark⟩
    simp only [isHexLetter, Bool.or_eq_true, beq_iff_eq] at hmark
    rcases hmark with (rfl | rfl) | rfl
    · exact h.not_mem (by rintro d ⟨⟩; decide) hb
    · exact h.not_mem (by rintro d ⟨⟩; decide) hb
    · exact h.not_mem (by rintro d ⟨⟩) hb
  unfold number
  rw [if_neg hany]
  exact integer_of_spells h

/-- A spelling is a natural number without a sign, or a decimal number with one before its digits. -/
theorem of_number_eq_ok {v : Int} (h : number text = .ok v) :
    (0 ≤ v ∧ ∀ b ∈ text, ¬ isSign b) ∨
      ∃ front sign digits n, text = front ++ sign :: digits ∧ (front = [] ∨ front = ['#'.toUInt8]) ∧
        isSign sign ∧ Spells 10 digits n ∧ v = withSign [sign] n := by
  unfold number at h
  split at h
  · left
    cases hhex : hex text with
    | error e =>
      rw [hhex] at h
      cases h
    | ok w =>
      rw [hhex] at h
      cases h
      exact ⟨Int.natCast_nonneg _, not_isSign_of_hex hhex⟩
  · obtain ⟨front, sign, digits, n, rfl, hfront, hsign, hdigits, rfl⟩ := of_integer_eq_ok h
    rcases hsign with rfl | ⟨b, hb, rfl⟩
    · left
      refine ⟨by simp [withSign], ?_⟩
      rw [List.nil_append, List.forall_mem_append]
      refine ⟨?_, hdigits.not_isSign⟩
      rcases hfront with rfl | rfl
      · simp
      · intro b hb
        rw [List.mem_singleton.mp hb]
        decide
    · exact .inr ⟨front, b, digits, n, rfl, hfront, hb, hdigits, rfl⟩

end AvrSim.Numeral
