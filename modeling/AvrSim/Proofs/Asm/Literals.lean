import AvrSim.Proofs.Asm.Words
import AvrSim.Proofs.Numeral

/-!
# Numbers in a source

A number can be written in decimal, in hexadecimal behind `0x` or `$`, and in binary behind `0b`. Each
notation reads its digits as what they write. They do not reach equally far: hexadecimal digits may use
all 32 bits, decimal and binary digits leave the sign bit out, so that of the numbers which only 32 bits
can hold the same one is accepted in one notation and refused in another.

The sign of a number is looked for twice. A minus is taken off before the notation is known, and binary
digits, as well as the decimal digits of a displacement, are read as a signed numeral, which takes a sign
of its own.

* `Spelling.Writes` are the texts of a number in a notation, `literal_spellings` is what they are read as.
* `SignLeads` says that the sign of a number is its first byte; `literal_signs` says when it is.
-/

namespace AvrSim.Asm

open Numeral (Spells Marked isSign withSign digit?)

/-! ## Notations -/

/-- The notations of numbers. Their marks have two cases. -/
inductive Spelling
  | decimal
  | hex (upper : Bool)
  | dollar
  | binary (upper : Bool)
  deriving DecidableEq, Repr

namespace Spelling

/-- What stands before the digits. -/
def mark : Spelling → Bytes
  | decimal => []
  | hex upper => [0x30, if upper then 'X'.toUInt8 else 'x'.toUInt8]
  | dollar => ['$'.toUInt8]
  | binary upper => [0x30, if upper then 'B'.toUInt8 else 'b'.toUInt8]

def base : Spelling → Nat
  | decimal => 10
  | hex _ | dollar => 16
  | binary _ => 2

/-- The first number that is refused. -/
def bound : Spelling → Nat
  | decimal | binary _ => 2 ^ 31
  | hex _ | dollar => 2 ^ 32

/-- Whether a minus can stand before the mark. -/
def takesMinus : Spelling → Bool
  | dollar => false
  | _ => true

/-- The text writes a number in the notation; there may be zeros before its digits. -/
def Writes (spelling : Spelling) (text : Bytes) (n : Nat) : Prop :=
  ∃ digits, Spells spelling.base digits n ∧ text = spelling.mark ++ digits

theorem exists_writes (spelling : Spelling) (n : Nat) : ∃ text, spelling.Writes text n := by
  have hbase : 1 < spelling.base ∧ spelling.base ≤ 36 := by
    cases spelling <;> simp [base]
  obtain ⟨digits, hdigits⟩ := Numeral.exists_spells hbase.1 hbase.2 n
  exact ⟨_, digits, hdigits, rfl⟩

end Spelling

/-! ## First bytes -/

theorem isDigit_of_digit? {b : UInt8} {d : Nat} (h : digit? b = some d) (hd : d < 10) :
    Bytes.isDigit b := by
  unfold digit? at h
  split at h
  · assumption
  · split at h
    · rename_i hletter
      have hlower : 97 ≤ (Bytes.lowerByte b).toNat := by
        unfold Bytes.lowerByte
        simp only [Bytes.isLetter, Bool.or_eq_true, Bool.and_eq_true, decide_eq_true_eq,
          UInt8.le_iff_toNat_le] at hletter ⊢
        split
        · rename_i hupper
          rw [UInt8.toNat_add]
          have hlow : 65 ≤ b.toNat := hupper.1
          have hhigh : b.toNat ≤ 90 := hupper.2
          change 97 ≤ (b.toNat + 32) % 256
          omega
        · rename_i hupper
          rcases hletter with hlow | hlow
          · exact hlow.1
          · exact absurd hlow hupper
      cases h
      omega
    · cases h

theorem not_isSign_of_isDigit {b : UInt8} (h : Bytes.isDigit b) : ¬ isSign b := by
  intro hsign
  rcases Numeral.isSign_iff.mp hsign with rfl | rfl <;> exact absurd h (by decide)

/-- A text that begins like a number without a sign. -/
def Begins (text : Bytes) : Prop := ∃ b ∈ text.head?, Bytes.isDigit b ∨ b = '$'.toUInt8

theorem Begins.not_isSign {b : UInt8} {rest : Bytes} (h : Begins (b :: rest)) : ¬ isSign b := by
  obtain ⟨_, ⟨⟩, hdigit | rfl⟩ := h
  · exact not_isSign_of_isDigit hdigit
  · decide

namespace Spelling

variable {spelling : Spelling} {text : Bytes} {n : Nat}

theorem Writes.isDigit_head? (h : spelling.Writes text n) (hminus : spelling.takesMinus) :
    ∃ b ∈ text.head?, Bytes.isDigit b := by
  obtain ⟨digits, hdigits, rfl⟩ := h
  cases spelling with
  | decimal =>
    obtain ⟨b, rest, d, rfl, hd, hlt⟩ := hdigits.exists_cons
    exact ⟨b, rfl, isDigit_of_digit? hd hlt⟩
  | hex upper => exact ⟨0x30, rfl, by decide⟩
  | binary upper => exact ⟨0x30, rfl, by decide⟩
  | dollar => cases hminus

theorem Writes.begins (h : spelling.Writes text n) : Begins text := by
  by_cases hminus : spelling.takesMinus
  · obtain ⟨b, hb, hdigit⟩ := h.isDigit_head? hminus
    exact ⟨b, hb, .inl hdigit⟩
  · cases spelling with
    | dollar =>
      obtain ⟨digits, -, rfl⟩ := h
      exact ⟨'$'.toUInt8, rfl, .inr rfl⟩
    | _ => exact absurd rfl hminus

end Spelling

theorem ofText_of_begins {text : Bytes} (h : Begins text) : TokenKind.ofText text = .literal := by
  obtain ⟨b, hb, hbegin⟩ := h
  obtain ⟨rest, rfl⟩ := List.head?_eq_some_iff.mp hb
  have hdot : (b == '.'.toUInt8) = false := by
    rw [beq_eq_false_iff_ne]
    rintro rfl
    exact absurd hbegin (by decide)
  have hquote : (b == '\''.toUInt8) = false := by
    rw [beq_eq_false_iff_ne]
    rintro rfl
    exact absurd hbegin (by decide)
  have hfirst : (Bytes.isDigit b || b == '$'.toUInt8) = true := by simpa using hbegin
  simp [TokenKind.ofText, hdot, hquote, hfirst]

theorem ofText_of_minus {text : Bytes} (h : ∃ b ∈ text.head?, Bytes.isDigit b) :
    TokenKind.ofText ('-'.toUInt8 :: text) = .literal := by
  obtain ⟨b, hb, hdigit⟩ := h
  obtain ⟨rest, rfl⟩ := List.head?_eq_some_iff.mp hb
  have hany : (b :: rest).head?.any Bytes.isDigit = true := by simpa using hdigit
  unfold TokenKind.ofText
  dsimp only
  rw [hany]
  rfl

theorem number?_of_begins {text : Bytes} (h : Begins text) : number? text = magnitude? text := by
  unfold number?
  split
  · exact absurd rfl h.not_isSign
  · rfl

/-! ## What a notation is read as -/

namespace Spelling

variable {spelling : Spelling} {text : Bytes} {n : Nat}

theorem magnitude?_decimal (h : Spells 10 text n) :
    magnitude? text = if n < 2 ^ 31 then some (n : Int) else none := by
  rw [← Numeral.number_of_spells h]
  unfold magnitude?
  split
  · rename_i mark d rest
    obtain ⟨k, hk, hlt⟩ := Numeral.exists_digit? h.digits mark (by simp)
    have hmark : ¬ (Bytes.lowerByte mark == 'b'.toUInt8) = true := by
      intro hb
      have hdigit := isDigit_of_digit? hk hlt
      have hlower : Bytes.lowerByte mark = mark := by
        unfold Bytes.lowerByte
        rw [if_neg]
        intro hupper
        simp only [Bytes.isDigit, Bool.and_eq_true, decide_eq_true_eq, UInt8.le_iff_toNat_le]
          at hdigit hupper
        have hhigh : mark.toNat ≤ 57 := hdigit.2
        have hlow : 65 ≤ mark.toNat := hupper.1
        omega
      rw [hlower, beq_iff_eq] at hb
      rw [hb] at hdigit
      exact absurd hdigit (by decide)
    rw [if_neg hmark]
  · rfl

theorem magnitude?_hex {mark : UInt8} {digits : Bytes} (hmark : Numeral.isHexLetter mark)
    (h : Spells 16 digits n) :
    magnitude? (0x30 :: mark :: digits) = if n < 2 ^ 32 then some (n : Int) else none := by
  rw [← Numeral.number_of_marked (.zero hmark) h]
  obtain ⟨d, rest, -, rfl, -⟩ := h.exists_cons
  have hletter : ¬ (Bytes.lowerByte mark == 'b'.toUInt8) = true := by
    simp only [Numeral.isHexLetter, Bool.or_eq_true, beq_iff_eq] at hmark
    rcases hmark with rfl | rfl <;> decide
  rw [magnitude?, if_neg hletter]

theorem magnitude?_dollar {digits : Bytes} (h : Spells 16 digits n) :
    magnitude? ('$'.toUInt8 :: digits) = if n < 2 ^ 32 then some (n : Int) else none :=
  Numeral.number_of_marked .dollar h

theorem magnitude?_binary {mark : UInt8} {digits : Bytes} (hmark : Bytes.lowerByte mark = 'b'.toUInt8)
    (h : Spells 2 digits n) :
    magnitude? (0x30 :: mark :: digits) = if n < 2 ^ 31 then some (n : Int) else none := by
  have hread : Numeral.signed (.fixed 2) 32 digits = _ := Numeral.signed_of_spells (by decide) h
  obtain ⟨d, rest, -, rfl, -⟩ := h.exists_cons
  rw [magnitude?, if_pos (beq_iff_eq.mpr hmark), hread]
  split <;> rfl

/-- A notation reads its digits as what they write, up to its bound. -/
theorem Writes.magnitude? (h : spelling.Writes text n) :
    magnitude? text = if n < spelling.bound then some (n : Int) else none := by
  obtain ⟨digits, hdigits, rfl⟩ := h
  cases spelling with
  | decimal => exact magnitude?_decimal hdigits
  | hex upper => exact magnitude?_hex (by cases upper <;> rfl) hdigits
  | dollar => exact magnitude?_dollar hdigits
  | binary upper => exact magnitude?_binary (by cases upper <;> rfl) hdigits

end Spelling

theorem literal?_ofText {text : Bytes} (h : TokenKind.ofText text = .literal) (position : Position) :
    (Token.ofText position text).literal? = number? text := by
  have hkind : (Token.ofText position text).kind ≠ .character := by
    change TokenKind.ofText text ≠ .character
    rw [h]
    decide
  unfold Token.literal?
  rw [if_neg hkind]
  rfl

/-- Every number is written in every notation, and what is written there is a literal and read as the
number if it lies below the bound of the notation; else it is refused. With a minus before it, which the
dollar does not take, the negated number is read under the same condition. The bound is `2 ^ 32` for
hexadecimal and `2 ^ 31` for decimal and binary notation. -/
theorem literal_spellings (spelling : Spelling) (n : Nat) (position : Position) :
    (∃ text, spelling.Writes text n) ∧
    ∀ text, spelling.Writes text n →
      TokenKind.ofText text = .literal ∧
      (Token.ofText position text).literal? = (if n < spelling.bound then some (n : Int) else none) ∧
      (spelling.takesMinus →
        TokenKind.ofText ('-'.toUInt8 :: text) = .literal ∧
        (Token.ofText position ('-'.toUInt8 :: text)).literal? =
          if n < spelling.bound then some (-n : Int) else none) := by
  refine ⟨spelling.exists_writes n, fun text h => ?_⟩
  have hbegins := h.begins
  have hkind := ofText_of_begins hbegins
  refine ⟨hkind, ?_, fun hminus => ?_⟩
  · rw [literal?_ofText hkind, number?_of_begins hbegins, h.magnitude?]
  · have hkind' := ofText_of_minus (h.isDigit_head? hminus)
    refine ⟨hkind', ?_⟩
    have hnumber : number? ('-'.toUInt8 :: text) = (magnitude? text).map (- ·) := rfl
    rw [literal?_ofText hkind', hnumber, h.magnitude?]
    split <;> rfl

/-- The place of a word at the start of a source. -/
def Position.start (size : Nat) : Position := ⟨1, 1, 0, size, 0⟩

theorem spells_ten_digits : Spells 10 (Bytes.ofString "2147483648") (2 ^ 31) :=
  ⟨by decide +kernel, [2, 1, 4, 7, 4, 8, 3, 6, 4, 8], by decide +kernel, by decide +kernel,
    by decide +kernel⟩

theorem spells_eight_digits : Spells 16 (Bytes.ofString "80000000") (2 ^ 31) :=
  ⟨by decide +kernel, [8, 0, 0, 0, 0, 0, 0, 0], by decide +kernel, by decide +kernel, by decide +kernel⟩

theorem literal_spellings_bound :
    (Token.ofText (.start 10) (Bytes.ofString "0X80000000")).literal? = some (2 ^ 31) ∧
      (Token.ofText (.start 11) (Bytes.ofString "-0X80000000")).literal? = some (-2 ^ 31) ∧
      (Token.ofText (.start 9) (Bytes.ofString "$80000000")).literal? = some (2 ^ 31) := by
  have hcons : Bytes.ofString "-0X80000000" = '-'.toUInt8 :: Bytes.ofString "0X80000000" := by
    decide +kernel
  have hhex : (Spelling.hex true).Writes (Bytes.ofString "0X80000000") (2 ^ 31) :=
    ⟨_, spells_eight_digits, by decide +kernel⟩
  have hdollar : Spelling.dollar.Writes (Bytes.ofString "$80000000") (2 ^ 31) :=
    ⟨_, spells_eight_digits, by decide +kernel⟩
  obtain ⟨-, hread, -⟩ := (literal_spellings (.hex true) (2 ^ 31) (.start 10)).2 _ hhex
  obtain ⟨-, -, hminus⟩ := (literal_spellings (.hex true) (2 ^ 31) (.start 11)).2 _ hhex
  obtain ⟨-, hread', -⟩ := (literal_spellings .dollar (2 ^ 31) (.start 9)).2 _ hdollar
  exact ⟨hread, hcons ▸ (hminus rfl).2, hread'⟩

/-- The same number is refused in decimal and accepted in hexadecimal notation. -/
theorem decimal_bound_refused :
    Spelling.decimal.Writes (Bytes.ofString "2147483648") (2 ^ 31) ∧
    (Spelling.hex false).Writes (Bytes.ofString "0x80000000") (2 ^ 31) ∧ 2 ^ 31 ≤ 2 ^ 32 - 1 ∧
    (Token.ofText (.start 10) (Bytes.ofString "2147483648")).kind = .literal ∧
    (Token.ofText (.start 10) (Bytes.ofString "2147483648")).literal? = none ∧
    (Token.ofText (.start 10) (Bytes.ofString "0x80000000")).literal? = some (2 ^ 31) :=
  ⟨⟨_, spells_ten_digits, rfl⟩, ⟨_, spells_eight_digits, by decide +kernel⟩, by decide, by decide +kernel,
    by decide +kernel, by decide +kernel⟩

/-! ## Signs -/

/-- The sign of a number is its first byte: the number is negative only behind a minus and not positive
behind one, and no sign stands anywhere else. -/
structure SignLeads (text : Bytes) (v : Int) : Prop where
  negative : v < 0 → text.head? = some '-'.toUInt8
  minus : text.head? = some '-'.toUInt8 → v ≤ 0
  signs : text.filter isSign = if text.head? = some '-'.toUInt8 then ['-'.toUInt8] else []

/-- A binary number has a sign between its mark and its digits. -/
structure BinarySigned (text front : Bytes) (sign : UInt8) (digits : Bytes) : Prop where
  sign_mem : isSign sign
  front_mem : front = [] ∨ front = ['-'.toUInt8]
  eq_append : ∃ mark, Bytes.lowerByte mark = 'b'.toUInt8 ∧ text = front ++ 0x30 :: mark :: sign :: digits

/-- A decimal number has a sign before its digits. -/
structure DecimalSigned (text : Bytes) (sign : UInt8) (digits : Bytes) : Prop where
  sign_mem : isSign sign
  eq_cons : text = sign :: digits ∨ text = '#'.toUInt8 :: sign :: digits

/-- Without its minus, a number has no sign but one behind a binary mark. -/
theorem of_magnitude?_eq_some {text : Bytes} {v : Int} (hbegins : Begins text)
    (h : magnitude? text = some v) :
    (0 ≤ v ∧ ∀ b ∈ text, ¬ isSign b) ∨ ∃ sign digits, BinarySigned text [] sign digits := by
  have hnumber (hread : (Numeral.number text).toOption = some v) :
      0 ≤ v ∧ ∀ b ∈ text, ¬ isSign b := by
    cases hok : Numeral.number text with
    | error e =>
      rw [hok] at hread
      cases hread
    | ok w =>
      rw [hok] at hread
      cases hread
      rcases Numeral.of_number_eq_ok hok with hclean | ⟨front, sign, digits, n, rfl, hfront, hsign, -, -⟩
      · exact hclean
      · -- a number begins neither with a sign nor with `#`
        rcases hfront with rfl | rfl
        · exact absurd hsign hbegins.not_isSign
        · obtain ⟨_, ⟨⟩, hdigit | hdollar⟩ := hbegins
          · exact absurd hdigit (by decide)
          · exact absurd hdollar (by decide)
  unfold magnitude? at h
  split at h
  · rename_i mark d rest
    split at h
    · rename_i hmark
      rw [beq_iff_eq] at hmark
      cases hok : Numeral.signed (.fixed 2) 32 (d :: rest) with
      | error e =>
        rw [hok] at h
        cases h
      | ok w =>
        rw [hok] at h
        cases h
        obtain ⟨sign, digits, n, htext, hsign, hdigits, rfl⟩ := Numeral.of_signed_eq_ok hok
        rw [htext]
        rcases hsign with rfl | ⟨b, hb, rfl⟩
        · left
          refine ⟨by simp [withSign], ?_⟩
          rw [List.forall_mem_cons, List.forall_mem_cons]
          exact ⟨by decide, Numeral.not_isSign_of_lowerByte (by decide) hmark, hdigits.not_isSign⟩
        · exact .inr ⟨b, digits, hb, .inl rfl, mark, hmark, rfl⟩
    · exact .inl (hnumber h)
  · exact .inl (hnumber h)

/-- The value of binary digits with a sign of their own. -/
theorem magnitude?_of_binarySigned {text digits : Bytes} {sign : UInt8} {v : Int}
    (hsigned : BinarySigned text [] sign digits) (h : magnitude? text = some v) :
    ∃ n, Spells 2 digits n ∧ v = withSign [sign] n := by
  obtain ⟨hsign, -, mark, hmark, rfl⟩ := hsigned
  rw [List.nil_append, magnitude?, if_pos (beq_iff_eq.mpr hmark)] at h
  cases hok : Numeral.signed (.fixed 2) 32 (sign :: digits) with
  | error e =>
    rw [hok] at h
    cases h
  | ok w =>
    rw [hok] at h
    cases h
    obtain ⟨front, digits', n, htext, hfront, hdigits, rfl⟩ := Numeral.of_signed_eq_ok hok
    rcases hfront with rfl | ⟨b, -, rfl⟩
    · rw [List.nil_append] at htext
      exact absurd hsign (hdigits.not_isSign sign (htext ▸ List.mem_cons_self))
    · rw [List.singleton_append, List.cons.injEq] at htext
      obtain ⟨rfl, rfl⟩ := htext
      exact ⟨n, hdigits, rfl⟩

theorem BinarySigned.not_signLeads {text front digits : Bytes} {sign : UInt8} {v : Int}
    (h : BinarySigned text front sign digits) : ¬ SignLeads text v := by
  intro hleads
  have hsigns := hleads.signs
  obtain ⟨hsign, hfront, mark, hmark, rfl⟩ := h
  have hzero : isSign 0x30 = false := by decide
  have hminus : isSign '-'.toUInt8 = true := by decide
  have hletter : isSign mark = false := by
    simpa using Numeral.not_isSign_of_lowerByte (by decide) hmark
  rcases hfront with rfl | rfl
  · have hhead : some (0x30 : UInt8) ≠ some '-'.toUInt8 := by decide
    rw [List.nil_append, List.head?_cons, if_neg hhead] at hsigns
    simp [hzero, hletter, hsign] at hsigns
  · simp [hzero, hminus, hletter, hsign] at hsigns

theorem BinarySigned.front_eq_nil {text front digits : Bytes} {sign : UInt8}
    (h : BinarySigned text front sign digits) (hbegins : Begins text) : front = [] := by
  obtain ⟨-, rfl | rfl, mark, -, rfl⟩ := h
  · rfl
  · exact absurd (by decide) hbegins.not_isSign

theorem binarySigned_minus_iff {text front digits : Bytes} {sign : UInt8} :
    BinarySigned ('-'.toUInt8 :: text) front sign digits ↔
      front = ['-'.toUInt8] ∧ BinarySigned text [] sign digits := by
  constructor
  · rintro ⟨hsign, rfl | rfl, mark, hmark, htext⟩
    · rw [List.nil_append, List.cons.injEq] at htext
      exact absurd htext.1 (by decide)
    · rw [List.singleton_append, List.cons.injEq] at htext
      exact ⟨rfl, hsign, .inl rfl, mark, hmark, htext.2⟩
  · rintro ⟨rfl, hsign, -, mark, hmark, rfl⟩
    exact ⟨hsign, .inr rfl, mark, hmark, rfl⟩

theorem signLeads_of_clean {text : Bytes} {v : Int} (hv : 0 ≤ v)
    (hclean : ∀ b ∈ text, ¬ isSign b) : SignLeads text v := by
  have hhead : text.head? ≠ some '-'.toUInt8 := by
    intro hhead
    exact hclean _ (List.mem_of_mem_head? hhead) (by decide)
  refine ⟨fun hneg => absurd hv (by omega), fun hminus => absurd hminus hhead, ?_⟩
  rw [if_neg hhead, List.filter_eq_nil_iff]
  exact hclean

theorem signLeads_of_minus {text : Bytes} {v : Int} (hv : 0 ≤ v) (hclean : ∀ b ∈ text, ¬ isSign b) :
    SignLeads ('-'.toUInt8 :: text) (-v) := by
  refine ⟨fun _ => rfl, fun _ => by omega, ?_⟩
  rw [List.filter_cons_of_pos (by decide), List.filter_eq_nil_iff.mpr hclean]
  rfl

theorem begins_of_ofText {text : Bytes} (h : TokenKind.ofText text = .literal) :
    Begins text ∨ ∃ rest, text = '-'.toUInt8 :: rest ∧ Begins rest := by
  unfold TokenKind.ofText at h
  split at h
  · cases h
  · rename_i first rest
    repeat' split at h
    · cases h
    · cases h
    · rename_i hfirst
      exact .inl ⟨first, rfl, by simpa using hfirst⟩
    · rename_i hminus
      rw [Bool.and_eq_true, beq_iff_eq, Option.any_eq_true] at hminus
      obtain ⟨rfl, b, hb, hdigit⟩ := hminus
      exact .inr ⟨rest, rfl, b, hb, .inl hdigit⟩
    · cases h
    · cases h

theorem signLeads_of_number? {text : Bytes} {v : Int} (hkind : TokenKind.ofText text = .literal)
    (hvalue : number? text = some v)
    (hplain : ∀ front sign digits, ¬ BinarySigned text front sign digits) : SignLeads text v := by
  rcases begins_of_ofText hkind with hbegins | ⟨rest, rfl, hbegins⟩
  · rw [number?_of_begins hbegins] at hvalue
    rcases of_magnitude?_eq_some hbegins hvalue with ⟨hv, hclean⟩ | ⟨sign, digits, hsigned⟩
    · exact signLeads_of_clean hv hclean
    · exact absurd hsigned (hplain _ _ _)
  · obtain ⟨w, hw, rfl⟩ := Option.map_eq_some_iff.mp hvalue
    rcases of_magnitude?_eq_some hbegins hw with ⟨hv, hclean⟩ | ⟨sign, digits, hsigned⟩
    · exact signLeads_of_minus hv hclean
    · exact absurd (binarySigned_minus_iff.mpr ⟨rfl, hsigned⟩) (hplain _ _ _)

theorem number?_of_binarySigned {text front digits : Bytes} {sign : UInt8} {v : Int}
    (hkind : TokenKind.ofText text = .literal) (hvalue : number? text = some v)
    (hsigned : BinarySigned text front sign digits) :
    ∃ n, Spells 2 digits n ∧ v = if front = [] then withSign [sign] n else -withSign [sign] n := by
  rcases begins_of_ofText hkind with hbegins | ⟨rest, rfl, hbegins⟩
  · obtain rfl := hsigned.front_eq_nil hbegins
    rw [number?_of_begins hbegins] at hvalue
    exact magnitude?_of_binarySigned hsigned hvalue
  · obtain ⟨rfl, hrest⟩ := binarySigned_minus_iff.mp hsigned
    obtain ⟨w, hw, rfl⟩ := Option.map_eq_some_iff.mp hvalue
    obtain ⟨n, hdigits, rfl⟩ := magnitude?_of_binarySigned hrest hw
    exact ⟨n, hdigits, rfl⟩

/-! ## Displacements -/

theorem eq_of_lowerByte_eq {b c : UInt8} (h : Bytes.lowerByte b = c) (hc : c.toNat < 97) : b = c := by
  unfold Bytes.lowerByte at h
  split at h
  · rename_i hupper
    simp only [Bool.and_eq_true, decide_eq_true_eq, UInt8.le_iff_toNat_le] at hupper
    have hlow : 65 ≤ b.toNat := hupper.1
    have hhigh : b.toNat ≤ 90 := hupper.2
    have hsum : (b.toNat + 32) % 256 = c.toNat := by
      rw [← h, UInt8.toNat_add]
      rfl
    omega
  · exact h

theorem toNat_of_isSign {b : UInt8} (h : isSign b) : b.toNat < 97 := by
  rcases Numeral.isSign_iff.mp h with rfl | rfl <;> decide

theorem toNat_of_isDigit {b : UInt8} (h : Bytes.isDigit b) : b.toNat < 97 := by
  simp only [Bytes.isDigit, Bool.and_eq_true, decide_eq_true_eq, UInt8.le_iff_toNat_le] at h
  have hhigh : b.toNat ≤ 57 := h.2
  omega

theorem eq_of_lower_eq {text other : Bytes} (h : Bytes.lower text = other)
    (hother : ∀ c ∈ other, c.toNat < 97) : text = other := by
  induction text generalizing other with
  | nil => exact h
  | cons b rest ih =>
    subst h
    have hcons : Bytes.lower (b :: rest) = Bytes.lowerByte b :: Bytes.lower rest := rfl
    rw [hcons, List.forall_mem_cons] at hother
    rw [hcons, ← eq_of_lowerByte_eq rfl hother.1, ← ih rfl hother.2]

theorem exists_displacement {text : Bytes} {pointer : Pointer} {q : Int}
    (h : PointerOperand.parse? text = some ⟨pointer, .displaced q⟩) :
    ∃ letter number, text = letter :: '+'.toUInt8 :: number ∧
      Numeral.number (Bytes.lower number) = .ok q := by
  have hsuffix {p : Pointer} {suffix : Bytes}
      (hmode : PointerMode.ofSuffix? p suffix = some (.displaced q)) :
      ∃ number, suffix = '+'.toUInt8 :: number ∧ Numeral.number number = .ok q := by
    unfold PointerMode.ofSuffix? at hmode
    split at hmode
    · cases hmode
    · cases hmode
    · split at hmode
      · cases hmode
      · split at hmode
        · rename_i number _ _ _ _ hnumber
          cases hmode
          exact ⟨number, rfl, hnumber⟩
        · cases hmode
    · cases hmode
  unfold PointerOperand.parse? at h
  split at h
  · rw [Option.map_eq_some_iff] at h
    obtain ⟨p, -, hp⟩ := h
    cases hp
  · rename_i letter suffix _ hlower
    split at h
    · cases h
    · rw [Option.map_eq_some_iff] at h
      obtain ⟨mode, hmode, hp⟩ := h
      cases hp
      obtain ⟨number, rfl, hnumber⟩ := hsuffix hmode
      obtain ⟨b, rest, rfl⟩ := List.exists_cons_of_ne_nil (l := text) (by rintro rfl; cases hlower)
      rw [Bytes.lower, List.map_cons, List.cons.injEq] at hlower
      obtain ⟨c, tail, rfl⟩ := List.exists_cons_of_ne_nil (l := rest) (by rintro rfl; cases hlower.2)
      rw [List.map_cons, List.cons.injEq] at hlower
      obtain ⟨-, hplus, rfl⟩ := hlower
      rw [eq_of_lowerByte_eq hplus (by decide)]
      exact ⟨b, tail, rfl, hnumber⟩
  · cases h

/-- A displacement either has no sign and is not negative, or its decimal digits have one. -/
theorem of_displacement {number : Bytes} {q : Int} (h : Numeral.number (Bytes.lower number) = .ok q) :
    (0 ≤ q ∧ ∀ b ∈ number, ¬ isSign b) ∨
      ∃ sign digits n, DecimalSigned number sign digits ∧ Spells 10 digits n ∧ q = withSign [sign] n := by
  obtain ⟨hq, hclean⟩ | ⟨front, sign, digits, n, htext, hfront, hsign, hdigits, hvalue⟩ :=
    Numeral.of_number_eq_ok h
  · refine .inl ⟨hq, fun b hb hsign => ?_⟩
    refine hclean (Bytes.lowerByte b) (List.mem_map_of_mem hb) ?_
    rcases Numeral.isSign_iff.mp hsign with rfl | rfl <;> decide
  · right
    have hlow : ∀ c ∈ sign :: digits, c.toNat < 97 := by
      rw [List.forall_mem_cons]
      refine ⟨toNat_of_isSign hsign, fun c hc => ?_⟩
      obtain ⟨d, hd, hlt⟩ := Numeral.exists_digit? hdigits.digits c hc
      exact toNat_of_isDigit (isDigit_of_digit? hd hlt)
    have hnumber : number = front ++ sign :: digits := by
      refine eq_of_lower_eq htext fun c hc => ?_
      rcases List.mem_append.mp hc with hc | hc
      · rcases hfront with rfl | rfl
        · cases hc
        · rw [List.mem_singleton.mp hc]
          decide
      · exact hlow c hc
    refine ⟨sign, digits, n, ⟨hsign, ?_⟩, hdigits, hvalue⟩
    rcases hfront with rfl | rfl
    · exact .inl hnumber
    · exact .inr hnumber

theorem not_decimalSigned {text digits : Bytes} {sign : UInt8} (hclean : ∀ b ∈ text, ¬ isSign b) :
    ¬ DecimalSigned text sign digits := by
  rintro ⟨hsign, rfl | rfl⟩ <;> exact hclean sign (by simp) hsign

theorem DecimalSigned.unique {text digits digits' : Bytes} {sign sign' : UInt8}
    (h : DecimalSigned text sign digits) (h' : DecimalSigned text sign' digits') :
    sign = sign' ∧ digits = digits' := by
  obtain ⟨hsign, htext⟩ := h
  obtain ⟨hsign', htext'⟩ := h'
  have hhash : ¬ isSign '#'.toUInt8 := by decide
  rcases htext with rfl | rfl <;> rcases htext' with heq | heq
  · simpa using heq
  · rw [List.cons.injEq] at heq
    exact absurd (heq.1 ▸ hsign) hhash
  · rw [List.cons.injEq] at heq
    exact absurd (heq.1.symm ▸ hsign') hhash
  · simpa using heq

/-- An accepted number has its sign in front unless it is binary and has a sign behind the mark. In that
case both signs count. Likewise a displacement that is accepted has no sign unless its digits are decimal
and have one, which counts. -/
theorem literal_signs (text : Bytes) :
    (∀ position v, TokenKind.ofText text = .literal →
      (Token.ofText position text).literal? = some v →
      (SignLeads text v ↔ ∀ front sign digits, ¬ BinarySigned text front sign digits) ∧
      ∀ front sign digits, BinarySigned text front sign digits →
        ∃ n, Spells 2 digits n ∧
          v = if front = [] then withSign [sign] n else -withSign [sign] n) ∧
    ∀ pointer q, PointerOperand.parse? text = some ⟨pointer, .displaced q⟩ →
      ∃ letter number, text = letter :: '+'.toUInt8 :: number ∧
        ((∀ b ∈ number, ¬ isSign b) ↔ ∀ sign digits, ¬ DecimalSigned number sign digits) ∧
        ((∀ b ∈ number, ¬ isSign b) → 0 ≤ q) ∧
        ∀ sign digits, DecimalSigned number sign digits →
          ∃ n, Spells 10 digits n ∧ q = withSign [sign] n := by
  constructor
  · intro position v hkind hvalue
    rw [literal?_ofText hkind] at hvalue
    refine ⟨⟨fun hleads _ _ _ hsigned => hsigned.not_signLeads hleads, fun hplain => ?_⟩, ?_⟩
    · exact signLeads_of_number? hkind hvalue hplain
    · exact fun _ _ _ => number?_of_binarySigned hkind hvalue
  · intro pointer q h
    obtain ⟨letter, number, rfl, hnumber⟩ := exists_displacement h
    refine ⟨letter, number, rfl, ⟨fun hclean _ _ => not_decimalSigned hclean, fun hplain => ?_⟩, ?_, ?_⟩
    · rcases of_displacement hnumber with hclean | ⟨sign, digits, n, hsigned, -⟩
      · exact hclean.2
      · exact absurd hsigned (hplain sign digits)
    · intro hclean
      rcases of_displacement hnumber with hq | ⟨sign, digits, n, hsigned, -⟩
      · exact hq.1
      · exact absurd hsigned (not_decimalSigned hclean)
    · intro sign digits hsigned
      rcases of_displacement hnumber with hclean | ⟨sign', digits', n, hsigned', hdigits, hvalue⟩
      · exact absurd hsigned (not_decimalSigned hclean.2)
      · obtain ⟨rfl, rfl⟩ := hsigned.unique hsigned'
        exact ⟨n, hdigits, hvalue⟩

theorem literal_signs_behind_mark :
    (∃ n, Spells 2 ['1'.toUInt8] n ∧ (-1 : Int) = -withSign ['+'.toUInt8] n) ∧
      SignLeads (Bytes.ofString "-0b1") (-1) ∧
      ∃ n, Spells 10 ['5'.toUInt8] n ∧ (-5 : Int) = withSign ['-'.toUInt8] n := by
  have hplus : Bytes.ofString "-0b+1" = ['-', '0', 'b', '+', '1'].map Char.toUInt8 := by decide +kernel
  have hplain : Bytes.ofString "-0b1" = ['-', '0', 'b', '1'].map Char.toUInt8 := by decide +kernel
  have hpointer : Bytes.ofString "Y+-5" = ['Y', '+', '-', '5'].map Char.toUInt8 := by decide +kernel
  refine ⟨?_, ?_, ?_⟩
  · have hsigned : BinarySigned (Bytes.ofString "-0b+1") ['-'.toUInt8] '+'.toUInt8 ['1'.toUInt8] :=
      ⟨by decide, .inr rfl, 'b'.toUInt8, by decide, hplus⟩
    exact ((literal_signs (Bytes.ofString "-0b+1")).1 (.start 5) (-1) (by decide +kernel)
      (by decide +kernel)).2 _ _ _ hsigned
  · refine ((literal_signs (Bytes.ofString "-0b1")).1 (.start 4) (-1) (by decide +kernel)
      (by decide +kernel)).1.mpr ?_
    rintro front sign digits ⟨hsign, rfl | rfl, mark, hmark, htext⟩
    · rw [hplain] at htext
      cases htext
    · rw [hplain] at htext
      cases htext
      exact absurd hsign (by decide)
  · obtain ⟨letter, number, htext, -, -, hsigned⟩ :=
      (literal_signs (Bytes.ofString "Y+-5")).2 .y (-5) (by decide +kernel)
    rw [hpointer] at htext
    cases htext
    exact hsigned _ _ ⟨by decide, .inl rfl⟩

/-- A negative number without a minus in front, and a displacement with a sign. -/
theorem sign_behind_mark :
    TokenKind.ofText (Bytes.ofString "0b-1") = .literal ∧
    (Token.ofText (.start 4) (Bytes.ofString "0b-1")).literal? = some (-1) ∧
    (Bytes.ofString "0b-1").head? ≠ some '-'.toUInt8 ∧
    PointerOperand.parse? (Bytes.ofString "Z++5") = some ⟨.z, .displaced 5⟩ := by
  decide +kernel

end AvrSim.Asm
