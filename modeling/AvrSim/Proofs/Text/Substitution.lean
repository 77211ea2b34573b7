import AvrSim.Proofs.Text.Lines
import Mathlib.Data.List.Find
import Mathlib.Data.List.TakeWhile

/-!
# One byte of a text replaced

A byte of a text stands on a line, behind the lines that end before it and behind what stands before it on
its own line. If a visible byte is replaced by another visible byte, that line changes at one place and
the other lines stay as they are, and so does what is trimmed from the line.

* `Text.lines_append`: the lines of a text behind others.
* `Text.exists_lines_append_cons`: the lines around a byte, whatever byte it is.
* `Text.exists_trim_append_cons`: the blanks around a line, whatever visible byte stands in it.
-/

namespace AvrSim

namespace Bytes

theorem length_fields (mark : UInt8) (text : Bytes) :
    (fields mark text).length = text.count mark + 1 := by
  induction text with
  | nil => rfl
  | cons b text ih =>
    by_cases hb : b = mark
    · rw [hb, fields_cons_self, List.length_cons, ih, List.count_cons_self]
    · obtain ⟨piece, more, htext⟩ := List.exists_cons_of_ne_nil (fields_ne_nil mark text)
      rw [htext] at ih
      rw [fields_cons_of_ne hb htext, List.count_cons_of_ne hb]
      exact ih

end Bytes

namespace Text

/-! ## Lines -/

/-- A text that ends a line has as many lines as line feeds. -/
theorem length_pieces {text : Bytes} (h : EndsLine text) :
    (pieces text).length = text.count '\n'.toUInt8 := by
  rcases h with rfl | hlast
  · rfl
  · obtain ⟨front, rfl⟩ := List.getLast?_eq_some_iff.mp hlast
    have hfields : Bytes.fields '\n'.toUInt8 (front ++ ['\n'.toUInt8]) =
        Bytes.fields '\n'.toUInt8 front ++ [[]] := Bytes.fields_append_mark front []
    have hpieces : pieces (front ++ ['\n'.toUInt8]) = Bytes.fields '\n'.toUInt8 front := by
      simp [pieces, hfields]
    rw [hpieces, Bytes.length_fields, List.count_append, List.count_singleton_self]

/-- Lines behind others are delivered if all of the others are short. -/
theorem lines_append {front : Bytes} (h : EndsLine front) (text : Bytes) :
    (lines (front ++ text)).lines =
      (lines front).lines ++ if (pieces front).all isShort then (lines text).lines else [] := by
  simp only [lines]
  rw [pieces_append h, List.takeWhile_append]
  by_cases hall : (pieces front).all isShort = true
  · have hwhole : (pieces front).takeWhile isShort = pieces front := by
      rw [List.takeWhile_eq_self_iff]
      exact List.all_eq_true.mp hall
    rw [if_pos hall, hwhole, if_pos rfl, List.map_append]
  · have hpart : ((pieces front).takeWhile isShort).length ≠ (pieces front).length := by
      intro hlength
      apply hall
      rw [List.all_eq_true, ← List.takeWhile_eq_self_iff]
      exact (List.takeWhile_prefix isShort).eq_of_length hlength
    rw [if_neg hall, if_neg hpart, List.append_nil]

/-- Up to the end of its line a text looks the same whatever byte stands at a place within. -/
theorem exists_pieces_append_cons {head : Bytes} (h : '\n'.toUInt8 ∉ head) (rest : Bytes) :
    ∃ tail more, ∀ b, b ≠ '\n'.toUInt8 → pieces (head ++ b :: rest) = (head ++ b :: tail) :: more := by
  obtain ⟨tail, more, hrest⟩ := List.exists_cons_of_ne_nil (Bytes.fields_ne_nil '\n'.toUInt8 rest)
  refine ⟨tail, if more.getLast? = some [] then more.dropLast else more, ?_⟩
  intro b hb
  have hfields : Bytes.fields '\n'.toUInt8 (head ++ b :: rest) = (head ++ b :: tail) :: more :=
    Bytes.fields_append_of_eq_cons h (Bytes.fields_cons_of_ne hb hrest)
  simp only [pieces, hfields]
  cases more with
  | nil => simp
  | cons second more =>
    simp only [List.getLast?_cons_cons, List.dropLast_cons_cons, beq_iff_eq]
    split
    · rfl
    · rfl

theorem dropReturn_append_cons (head tail : Bytes) {b : UInt8} (hb : b ≠ '\r'.toUInt8) :
    dropReturn (head ++ b :: tail) = head ++ b :: dropReturn tail := by
  rcases List.eq_nil_or_concat tail with rfl | ⟨front, last, rfl⟩
  · simp [dropReturn, hb]
  · rw [List.concat_eq_append]
    have happend : head ++ b :: (front ++ [last]) = (head ++ b :: front) ++ [last] := by simp
    simp only [dropReturn, happend, List.getLast?_concat, List.dropLast_concat]
    split
    · rfl
    · exact happend.symm

/-- The lines from the one on that a byte stands on, whatever byte it is. If this line is too long, none
of them is delivered. -/
theorem exists_lines_append_cons {head : Bytes} (h : '\n'.toUInt8 ∉ head) (rest : Bytes) :
    (∃ tail more, ∀ b, b ≠ '\n'.toUInt8 → b ≠ '\r'.toUInt8 →
      (lines (head ++ b :: rest)).lines = (head ++ b :: tail) :: more) ∨
    ∀ b, b ≠ '\n'.toUInt8 → (lines (head ++ b :: rest)).lines = [] := by
  obtain ⟨tail, more, hpieces⟩ := exists_pieces_append_cons h rest
  have hlength (b : UInt8) : (head ++ b :: tail).length = head.length + tail.length + 1 := by
    simp only [List.length_append, List.length_cons]
    omega
  by_cases hshort : head.length + tail.length + 1 < lineLimit
  · refine .inl ⟨dropReturn tail, (more.takeWhile isShort).map dropReturn, ?_⟩
    intro b hfeed hreturn
    have hfirst : isShort (head ++ b :: tail) = true := by
      simpa [isShort, hlength b] using hshort
    simp only [lines, hpieces b hfeed, List.takeWhile_cons, hfirst, if_true, List.map_cons,
      dropReturn_append_cons head tail hreturn]
  · refine .inr fun b hfeed => ?_
    have hfirst : isShort (head ++ b :: tail) = false := by
      simpa [isShort, hlength b] using hshort
    simp [lines, hpieces b hfeed, hfirst]

/-! ## Blanks -/

/-- A word that does not hold a byte begins a text only if it begins what stands before that byte. -/
theorem isPrefixOf_append_cons {word : Bytes} {b : UInt8} (h : b ∉ word) (head rest : Bytes) :
    word.isPrefixOf (head ++ b :: rest) = word.isPrefixOf head := by
  induction word generalizing head with
  | nil => simp
  | cons c word ih =>
    rw [List.mem_cons, not_or] at h
    cases head with
    | nil => simp [List.isPrefixOf, Ne.symm h.1]
    | cons d head => simp [List.isPrefixOf, ih h.2]

/-- Dropping words stops at a byte that no word holds, and what is left before it does not depend on
it. -/
theorem exists_dropWords_append_cons (words : List Bytes) (fuel : Nat) (head : Bytes) :
    ∃ margin front, head = margin ++ front ∧ ∀ b rest, (∀ word ∈ words, b ∉ word) →
      dropWords words fuel (head ++ b :: rest) = front ++ b :: rest := by
  induction fuel generalizing head with
  | zero => exact ⟨[], head, rfl, fun _ _ _ => rfl⟩
  | succ fuel ih =>
    have hfind (b : UInt8) (rest : Bytes) (h : ∀ word ∈ words, b ∉ word) :
        words.find? (·.isPrefixOf (head ++ b :: rest)) = words.find? (·.isPrefixOf head) := by
      apply List.find?_congr
      intro word hword
      exact isPrefixOf_append_cons (h word hword) head rest
    cases hfound : words.find? (·.isPrefixOf head) with
    | none =>
      refine ⟨[], head, rfl, fun b rest h => ?_⟩
      rw [dropWords, hfind b rest h, hfound]
    | some word =>
      have hprefix : word.isPrefixOf head = true :=
        List.find?_some (p := fun word : Bytes => word.isPrefixOf head) hfound
      obtain ⟨more, rfl⟩ := List.isPrefixOf_iff_prefix.mp hprefix
      obtain ⟨margin, front, rfl, hdrop⟩ := ih more
      refine ⟨word ++ margin, front, by rw [List.append_assoc], fun b rest h => ?_⟩
      rw [dropWords, hfind b rest h, hfound, ← hdrop b rest h, List.append_assoc word]
      dsimp only
      rw [List.drop_left]

/-- A blank holds no visible character. -/
theorem not_mem_of_isGraphic {b : UInt8} (hb : isGraphic b) :
    ∀ word ∈ blanks ++ blanks.map List.reverse, b ∉ word := by
  have hblank : ∀ word ∈ blanks ++ blanks.map List.reverse, ∀ c ∈ word, ¬ isGraphic c := by
    decide +kernel
  intro word hword hmem
  exact hblank word hword b hmem hb

/-- Trimming a line leaves the same around a place within, whatever visible byte stands there. -/
theorem exists_trim_append_cons (head tail : Bytes) :
    ∃ margin front back, head = margin ++ front ∧
      ∀ b, isGraphic b → trim (head ++ b :: tail) = front ++ b :: back := by
  have hlength (b : UInt8) : (head ++ b :: tail).length = head.length + tail.length + 1 := by
    simp only [List.length_append, List.length_cons]
    omega
  obtain ⟨margin, front, hhead, hfront⟩ :=
    exists_dropWords_append_cons blanks (head.length + tail.length + 1) head
  obtain ⟨-, back, -, hback⟩ := exists_dropWords_append_cons (blanks.map List.reverse)
    (front.length + tail.length + 1) tail.reverse
  refine ⟨margin, front, back.reverse, hhead, fun b hb => ?_⟩
  have hwords := not_mem_of_isGraphic hb
  have htrimFront : trimFront (head ++ b :: tail) = front ++ b :: tail := by
    rw [trimFront, hlength b]
    exact hfront b tail fun word hword => hwords word (List.mem_append_left _ hword)
  have hreverse : (front ++ b :: tail).reverse = tail.reverse ++ b :: front.reverse := by simp
  have hlength' : (front ++ b :: tail).length = front.length + tail.length + 1 := by
    simp only [List.length_append, List.length_cons]
    omega
  rw [trim, htrimFront, trimEnd, hreverse, hlength',
    hback b _ fun word hword => hwords word (List.mem_append_right _ hword)]
  simp

end Text

end AvrSim
