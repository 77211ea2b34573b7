import AvrSim.Proofs.Hex.Overlay
import AvrSim.Proofs.Text.Substitution

/-!
# Corrupted digits

A record carries two safeguards, its byte count and its sum. If one digit of a line that holds a record is
replaced by a digit of another value, one byte of the record changes. A change of the count no longer
agrees with the length of the payload. A change of any other byte leaves the length as it was and changes
the sum by less than 256, so that it is no longer zero; this comes before the type or the address of the
record is looked at.

* `Spelling.replace`: one digit replaced is one byte replaced.
* `misspelt_of_replaced`: what is wrong with a line in which a digit was replaced.
* `replaced_digit_caught`: what becomes of a file in which a digit was replaced.
-/

namespace AvrSim.Hex

/-! ## Digits -/

theorem digit?_lt {b : UInt8} {n : Nat} (h : digit? b = some n) : n < 16 := by
  simpa using (Option.filter_eq_some_iff.mp h).2

theorem isGraphic_of_isDigit {b : UInt8} (h : isDigit b) : Text.isGraphic b := by
  obtain ⟨n, hn⟩ := Option.isSome_iff_exists.mp h
  have hdigit := (Option.filter_eq_some_iff.mp hn).1
  have hgraphic (hrange : 32 < b.toNat ∧ b.toNat < 127) : Text.isGraphic b := by
    simpa [Text.isGraphic, UInt8.lt_iff_toNat_lt] using hrange
  apply hgraphic
  unfold Numeral.digit? at hdigit
  split at hdigit
  · rename_i hrange
    simp only [Bytes.isDigit, Bool.and_eq_true, decide_eq_true_eq, UInt8.le_iff_toNat_le] at hrange
    have hdecimal : 48 ≤ b.toNat ∧ b.toNat ≤ 57 := hrange
    omega
  · split at hdigit
    · rename_i hrange
      simp only [Bytes.isLetter, Bool.or_eq_true, Bool.and_eq_true, decide_eq_true_eq,
        UInt8.le_iff_toNat_le] at hrange
      have hletter : 97 ≤ b.toNat ∧ b.toNat ≤ 122 ∨ 65 ≤ b.toNat ∧ b.toNat ≤ 90 := hrange
      omega
    · cases hdigit

theorem ne_of_isDigit {a b : UInt8} (ha : isDigit a) (hb : isDigit b = false) : a ≠ b := by
  rintro rfl
  rw [ha] at hb
  cases hb

/-! ## Bytes -/

theorem ofNat_ne_ofNat {m n : Nat} (hm : m < 256) (hn : n < 256) (h : m ≠ n) :
    UInt8.ofNat m ≠ UInt8.ofNat n := by
  intro heq
  apply h
  have htoNat := congrArg UInt8.toNat heq
  rwa [UInt8.toNat_ofNat_of_lt' hm, UInt8.toNat_ofNat_of_lt' hn] at htoNat

/-- One digit replaced is one byte replaced. -/
theorem Spelling.replace {front back : Bytes} {bytes : List UInt8} {a b : UInt8} {m n : Nat}
    (h : Spelling (front ++ a :: back) bytes) (ha : digit? a = some m) (hb : digit? b = some n)
    (hne : m ≠ n) :
    ∃ before x y after, bytes = before ++ x :: after ∧ before.length = front.length / 2 ∧ x ≠ y ∧
      Spelling (front ++ b :: back) (before ++ y :: after) := by
  have hm := digit?_lt ha
  have hn := digit?_lt hb
  generalize hdigits : front ++ a :: back = digits at h
  -- the digits are taken two at a time, so the place may be the first or the second of a pair
  induction h generalizing front with
  | nil => simp at hdigits
  | @cons c d high low digits bytes hc hd h ih =>
    have hhigh := digit?_lt hc
    have hlow := digit?_lt hd
    obtain _ | ⟨e, _ | ⟨f, front⟩⟩ := front
    · obtain ⟨rfl, rfl⟩ := List.cons.inj hdigits
      obtain rfl : m = high := Option.some.inj (ha.symm.trans hc)
      exact ⟨[], _, _, bytes, rfl, rfl, ofNat_ne_ofNat (by omega) (by omega) (by omega),
        .cons hb hd h⟩
    · simp only [List.cons_append, List.nil_append, List.cons.injEq] at hdigits
      obtain ⟨rfl, rfl, rfl⟩ := hdigits
      obtain rfl : m = low := Option.some.inj (ha.symm.trans hd)
      exact ⟨[], _, _, bytes, rfl, by simp, ofNat_ne_ofNat (by omega) (by omega) (by omega),
        .cons hc hb h⟩
    · simp only [List.cons_append, List.cons.injEq] at hdigits
      obtain ⟨rfl, rfl, hrest⟩ := hdigits
      obtain ⟨before, x, y, after, rfl, hlength, hxy, hspelling⟩ := ih hrest
      refine ⟨_ :: before, x, y, after, rfl, ?_, hxy, .cons hc hd hspelling⟩
      simp only [List.length_cons, hlength]
      omega

theorem total_append_cons (before : List UInt8) (x : UInt8) (after : List UInt8) :
    total (before ++ x :: after) = total before + x.toNat + total after := by
  induction before with
  | nil => simp [total]
  | cons b before ih =>
    have hcons (bytes : List UInt8) : total (b :: bytes) = b.toNat + total bytes := rfl
    rw [List.cons_append, hcons, hcons, ih]
    omega

/-- Replacing one byte changes the sum. -/
theorem total_replace_ne {x y : UInt8} (h : x ≠ y) (before after : List UInt8) :
    total (before ++ x :: after) % 256 ≠ total (before ++ y :: after) % 256 := by
  have hx := x.toNat_lt
  have hy := y.toNat_lt
  have hne : x.toNat ≠ y.toNat := fun heq => h (UInt8.toNat_inj.mp heq)
  rw [total_append_cons, total_append_cons]
  omega

/-! ## Lines -/

/-- A line that holds a record holds none after one of its digits was replaced. In the first two digits,
which are those of the count, this is a malformation, and behind them a wrong sum. -/
theorem misspelt_of_replaced {front back : Bytes} {r : Record} {a b : UInt8} {m n : Nat}
    (h : HoldsRecord (':'.toUInt8 :: (front ++ a :: back)) r) (ha : digit? a = some m)
    (hb : digit? b = some n) (hne : m ≠ n) :
    Misspelt (':'.toUInt8 :: (front ++ b :: back))
      (if front.length < 2 then .malformed else .checksum) := by
  obtain ⟨digits, count, high, low, sum, hline, hdigits, hcount, hsum, -⟩ := h
  obtain ⟨-, rfl⟩ := List.cons.inj hline
  obtain ⟨before, x, y, after, hbytes, hlength, hxy, hspelling⟩ := hdigits.replace ha hb hne
  cases before with
  | nil =>
    obtain ⟨rfl, rfl⟩ := List.cons.inj hbytes
    have hfront : front.length < 2 := by
      simp only [List.length_nil] at hlength
      omega
    rw [if_pos hfront]
    refine .count rfl hspelling fun hy => hxy ?_
    rw [← UInt8.toNat_inj, hcount, hy]
  | cons c before =>
    have hparts := hbytes
    simp only [framed, List.cons_append, List.cons.injEq] at hparts
    obtain ⟨rfl, hrest⟩ := hparts
    have hfront : ¬ front.length < 2 := by
      simp only [List.length_cons] at hlength
      omega
    have hlast : (before ++ y :: after).length = r.payload.length + 4 := by
      have hsame := congrArg List.length hrest
      simp only [List.length_append, List.length_cons, List.length_nil] at hsame ⊢
      omega
    -- the count and the length are as they were, so that the sum is what decides
    obtain ⟨count', high', low', kind', payload', sum', hframed⟩ :=
      exists_framed (show 5 ≤ (count :: (before ++ y :: after)).length by
        simp only [List.length_cons]
        omega)
    have hpayload : payload'.length = r.payload.length := by
      have hsame := congrArg List.length hframed
      simp only [framed, List.length_append, List.length_cons, List.length_nil] at hsame hlast
      omega
    have hbad : total (count :: (before ++ y :: after)) % 256 ≠ 0 := by
      rw [← hsum, hbytes]
      exact (total_replace_ne hxy (count :: before) after).symm
    rw [if_neg hfront]
    rw [List.cons_append, hframed] at hspelling
    rw [hframed] at hbad
    obtain rfl : count = count' := (List.cons.inj hframed).1
    exact .sum rfl hspelling (hcount.trans hpayload.symm) hbad

/-- The line that a digit stands on holds a record, if it is not blank, and replacing the digit spoils
it. -/
theorem exists_misspelt_trim {head tail : Bytes} {a : UInt8} (ha : isDigit a)
    (hline : Text.trim (head ++ a :: tail) = [] ∨ ∃ r, HoldsRecord (Text.trim (head ++ a :: tail)) r) :
    ∃ margin digits, head = margin ++ ':'.toUInt8 :: digits ∧ (∀ d ∈ digits, isDigit d) ∧
      ∀ b, isDigit b → digitValue b ≠ digitValue a →
        Misspelt (Text.trim (head ++ b :: tail))
          (if digits.length < 2 then .malformed else .checksum) := by
  obtain ⟨margin, front, back, rfl, htrim⟩ := Text.exists_trim_append_cons head tail
  rw [htrim a (isGraphic_of_isDigit ha)] at hline
  obtain hblank | ⟨r, hholds⟩ := hline
  · simp at hblank
  obtain ⟨m, hm⟩ := Option.isSome_iff_exists.mp ha
  obtain ⟨digits, count, high, low, sum, hcolon, hdigits, -⟩ := id hholds
  cases front with
  | nil => exact absurd (List.cons.inj hcolon).1 (ne_of_isDigit ha (by decide))
  | cons c front =>
    obtain ⟨rfl, rfl⟩ := List.cons.inj hcolon
    refine ⟨margin, front, rfl, ?_, ?_⟩
    · intro d hd
      exact isDigit_of_spelling hdigits d (List.mem_append_left _ hd)
    · intro b hb hne
      obtain ⟨n, hn⟩ := Option.isSome_iff_exists.mp hb
      rw [htrim b (isGraphic_of_isDigit hb)]
      refine misspelt_of_replaced hholds hm hn fun heq => hne ?_
      simp only [digitValue, hm, hn, heq]

/-! ## Files -/

theorem Reads.of_append {front rest : List Bytes} {records : List Record}
    (h : Reads (front ++ rest) records) : ∃ before, Reads front before := by
  induction rest using List.reverseRecOn generalizing records with
  | nil => exact ⟨records, by simpa using h⟩
  | append_singleton rest line ih =>
    generalize hlines : front ++ (rest ++ [line]) = lines at h
    cases h with
    | nil => simp at hlines
    | blank h _ =>
      rw [← List.append_assoc] at hlines
      obtain ⟨rfl, -⟩ := List.append_inj' hlines rfl
      exact ih h
    | record h _ _ =>
      rw [← List.append_assoc] at hlines
      obtain ⟨rfl, -⟩ := List.append_inj' hlines rfl
      exact ih h

theorem Reads.blank_or_holds {lines : List Bytes} {records : List Record} (h : Reads lines records) :
    ∀ line ∈ lines, Text.trim line = [] ∨ ∃ r, HoldsRecord (Text.trim line) r := by
  induction h with
  | nil => simp
  | blank _ hblank ih =>
    intro line hline
    rcases List.mem_append.mp hline with hold | hnew
    · exact ih line hold
    · rw [List.mem_singleton.mp hnew]
      exact .inl hblank
  | record _ hholds _ ih =>
    intro line hline
    rcases List.mem_append.mp hline with hold | hnew
    · exact ih line hold
    · rw [List.mem_singleton.mp hnew]
      exact .inr ⟨_, hholds⟩

/-- A file whose first lines do not end it goes on with a line that is blank or holds a record. -/
theorem exists_line_of_file {front rest before after : List Bytes} {line stop : Bytes}
    {records : List Record} (hlines : before ++ line :: after = front ++ stop :: rest)
    (hfront : Reads front records) (hstop : EndsFile (Text.trim stop))
    (hopen : ∀ l ∈ before, ¬ EndsFile (Text.trim l)) :
    (∃ records, Reads before records) ∧
      (Text.trim line = [] ∨ ∃ r, HoldsRecord (Text.trim line) r) := by
  obtain ⟨more, rfl, hmore⟩ | ⟨more, rfl, hmore⟩ := List.append_eq_append_iff.mp hlines
  · refine ⟨hfront.of_append, ?_⟩
    cases more with
    | nil =>
      obtain ⟨rfl, -⟩ := List.cons.inj hmore
      obtain ⟨r, hholds, -⟩ := hstop
      exact .inr ⟨r, hholds⟩
    | cons first more =>
      obtain ⟨rfl, -⟩ := List.cons.inj hmore
      exact hfront.blank_or_holds line (by simp)
  · cases more with
    | nil =>
      obtain ⟨rfl, -⟩ := List.cons.inj hmore
      obtain ⟨r, hholds, -⟩ := hstop
      exact ⟨⟨records, by simpa using hfront⟩, .inr ⟨r, hholds⟩⟩
    | cons first more =>
      obtain ⟨rfl, -⟩ := List.cons.inj hmore
      exact absurd hstop (hopen stop (by simp))

/-- **Every corrupted digit is caught.** Let a text be a file that is read, and take any digit on a line
before which no line ends the file. The digit stands behind a colon and perhaps further digits; if it is
replaced by a digit of another value, the text is refused, the line of the digit is to blame, and what is
wrong with it is its form if the digit is one of the first two, which give the byte count, and its sum
otherwise. -/
theorem replaced_digit_caught (limit : Nat) {lead head rest : Bytes} {a b : UInt8}
    (hlead : Text.EndsLine lead) (hhead : '\n'.toUInt8 ∉ head)
    (hok : (Image.parse limit (lead ++ (head ++ a :: rest))).isOk)
    (hopen : ∀ line ∈ (Text.lines lead).lines, ¬ EndsFile (Text.trim line))
    (ha : isDigit a) (hb : isDigit b) (hne : digitValue b ≠ digitValue a) :
    ∃ margin digits fault, head = margin ++ ':'.toUInt8 :: digits ∧ (∀ d ∈ digits, isDigit d) ∧
      Image.parse limit (lead ++ (head ++ b :: rest)) =
        .error ⟨lead.count '\n'.toUInt8 + 1, fault⟩ ∧
      fault.kind = if digits.length < 2 then .malformed else .checksum := by
  obtain ⟨image, hparse⟩ : ∃ image, Image.parse limit (lead ++ (head ++ a :: rest)) = .ok image := by
    cases hparse : Image.parse limit (lead ++ (head ++ a :: rest)) with
    | ok image => exact ⟨image, rfl⟩
    | error failure =>
      rw [hparse] at hok
      cases hok
  obtain ⟨front, stop, more, records, hlines, hfront, hstop, -⟩ := of_parse_eq_ok hparse
  -- if the line of the digit is not delivered, the file has ended before it
  have hdelivered : (Text.lines (lead ++ (head ++ a :: rest))).lines ≠ (Text.lines lead).lines := by
    intro hsame
    rw [hsame] at hlines
    exact hopen stop (by simp [hlines]) hstop
  have hfeed (d : UInt8) (hd : isDigit d) : d ≠ '\n'.toUInt8 := ne_of_isDigit hd (by decide)
  have hreturn (d : UInt8) (hd : isDigit d) : d ≠ '\r'.toUInt8 := ne_of_isDigit hd (by decide)
  by_cases hshort : (Text.pieces lead).all Text.isShort = true
  · obtain ⟨tail, after, hbehind⟩ | hnone := Text.exists_lines_append_cons hhead rest
    · have haround (d : UInt8) (hd : isDigit d) : (Text.lines (lead ++ (head ++ d :: rest))).lines =
          (Text.lines lead).lines ++ (head ++ d :: tail) :: after := by
        rw [Text.lines_append hlead, if_pos hshort, hbehind d (hfeed d hd) (hreturn d hd)]
      rw [haround a ha] at hlines
      obtain ⟨⟨before, hbefore⟩, hline⟩ := exists_line_of_file hlines hfront hstop hopen
      obtain ⟨margin, digits, hcolon, hdigits, hspoilt⟩ := exists_misspelt_trim ha hline
      obtain ⟨fault, hkind, hfails⟩ :=
        parse_of_offends limit (haround b hb) hbefore (.misspelt (hspoilt b hb hne))
      have hnumber : (Text.lines lead).lines.length = lead.count '\n'.toUInt8 := by
        rw [Text.lines_of_short, List.length_map, Text.length_pieces hlead]
        simpa [Text.isShort] using hshort
      rw [hnumber] at hfails
      exact ⟨margin, digits, fault, hcolon, hdigits, hfails, hkind⟩
    · refine absurd ?_ hdelivered
      rw [Text.lines_append hlead, if_pos hshort, hnone a (hfeed a ha), List.append_nil]
  · refine absurd ?_ hdelivered
    rw [Text.lines_append hlead, if_neg hshort, List.append_nil]

/-- The file `twoPages` around a digit of its second line, the last one of the record type. -/
def pageLead : Bytes := Bytes.ofString ":020000040001F9\n"
def typeHead : Bytes := Bytes.ofString ":02FFFE0"
def typeRest : Bytes := Bytes.ofString
  "1234BB\r\n \t\n:020000040002F8\n:02000000567830\n:00000001FF\n:junk"

theorem pageLead_open : ∀ line ∈ (Text.lines pageLead).lines, ¬ EndsFile (Text.trim line) := by
  have hlines : (Text.lines pageLead).lines = [Bytes.ofString ":020000040001F9"] := by decide +kernel
  have hparse : Record.parse (Text.trim (Bytes.ofString ":020000040001F9")) =
      .ok ⟨0, Record.extendedLinear, [0, 1]⟩ := by decide +kernel
  rw [hlines]
  rintro line hline ⟨r, hholds, hkind⟩
  rw [List.mem_singleton.mp hline, ← parse_eq_ok_iff, hparse] at hholds
  cases hholds
  exact absurd hkind (by decide)

/-- A digit that would make the second record an end-of-file record is caught by its sum. -/
theorem twoPages_caught :
    pageLead ++ (typeHead ++ '0'.toUInt8 :: typeRest) = twoPages ∧
      (Image.parse 4 twoPages).isOk = true ∧
      ∃ margin digits fault, typeHead = margin ++ ':'.toUInt8 :: digits ∧ (∀ d ∈ digits, isDigit d) ∧
        Image.parse 4 (pageLead ++ (typeHead ++ '1'.toUInt8 :: typeRest)) = .error ⟨2, fault⟩ ∧
        fault.kind = if digits.length < 2 then .malformed else .checksum := by
  have htext : pageLead ++ (typeHead ++ '0'.toUInt8 :: typeRest) = twoPages := by decide +kernel
  have hok : (Image.parse 4 twoPages).isOk = true := by decide +kernel
  have hnumber : pageLead.count '\n'.toUInt8 + 1 = 2 := by decide +kernel
  have hcaught := @replaced_digit_caught 4 pageLead typeHead typeRest '0'.toUInt8 '1'.toUInt8
    (.inr (by decide +kernel)) (by decide +kernel) (by rw [htext]; exact hok) pageLead_open
    (by decide) (by decide) (by decide)
  rw [hnumber] at hcaught
  exact ⟨htext, hok, hcaught⟩

end AvrSim.Hex
