import AvrSim.Text.Blank
import AvrSim.Text.Lines

/-!
# Reading back lines

Lines written one after another, each with a line feed behind it, are read back as they are if they
hold no line feed, do not end in a carriage return and are not too long. A line that begins and ends
with a visible character is not changed by trimming.

* `Text.lines_flatMap` for the lines, `Text.trim_eq_self` for the blanks around one.
* `Text.lines_of_short`: without long lines nothing is left out.
* `Text.lines_append_long`: the first long line and what follows it are.
-/

namespace AvrSim

namespace Bytes

variable {mark : UInt8}

theorem fields_append_cons {piece : Bytes} (h : mark ∉ piece) (text : Bytes) :
    fields mark (piece ++ mark :: text) = piece :: fields mark text := by
  induction piece with
  | nil => simp [fields]
  | cons b piece ih =>
    rw [List.mem_cons, not_or] at h
    have hb : (b == mark) = false := by simpa using Ne.symm h.1
    have hrest := ih h.2
    unfold fields at hrest ⊢
    rw [List.cons_append, List.foldr_cons, hrest, hb]
    rfl

theorem fields_ne_nil (mark : UInt8) (text : Bytes) : fields mark text ≠ [] := by
  cases text with
  | nil => exact List.cons_ne_nil _ _
  | cons b text =>
    unfold fields
    rw [List.foldr_cons]
    split
    · exact List.cons_ne_nil _ _
    · split <;> exact List.cons_ne_nil _ _

theorem fields_cons_self (text : Bytes) : fields mark (mark :: text) = [] :: fields mark text := by
  simp [fields]

theorem fields_cons_of_ne {b : UInt8} (hb : b ≠ mark) {text piece : Bytes} {more : List Bytes}
    (h : fields mark text = piece :: more) : fields mark (b :: text) = (b :: piece) :: more := by
  have hne : (b == mark) = false := by simpa using hb
  unfold fields at h ⊢
  rw [List.foldr_cons, h, hne]
  rfl

theorem fields_append_mark (front text : Bytes) :
    fields mark (front ++ mark :: text) = fields mark front ++ fields mark text := by
  induction front with
  | nil => exact fields_cons_self text
  | cons b front ih =>
    rw [List.cons_append]
    by_cases hb : b = mark
    · rw [hb, fields_cons_self, fields_cons_self, ih, List.cons_append]
    · obtain ⟨piece, more, hfront⟩ := List.exists_cons_of_ne_nil (fields_ne_nil mark front)
      rw [hfront, List.cons_append] at ih
      rw [fields_cons_of_ne hb ih, fields_cons_of_ne hb hfront, List.cons_append]

theorem fields_append_of_eq_cons {front text piece : Bytes} {more : List Bytes} (h : mark ∉ front)
    (htext : fields mark text = piece :: more) : fields mark (front ++ text) = (front ++ piece) :: more := by
  induction front with
  | nil => exact htext
  | cons b front ih =>
    rw [List.mem_cons, not_or] at h
    exact fields_cons_of_ne (Ne.symm h.1) (ih h.2)

theorem fields_append_of_not_mem {front : Bytes} (h : mark ∉ front) (text : Bytes) :
    ∃ piece more, fields mark (front ++ text) = (front ++ piece) :: more := by
  obtain ⟨piece, more, htext⟩ := List.exists_cons_of_ne_nil (fields_ne_nil mark text)
  exact ⟨piece, more, fields_append_of_eq_cons h htext⟩

/-- The first piece of a text, and where the next begins. -/
theorem of_fields_eq_cons {text piece : Bytes} {more : List Bytes}
    (h : fields mark text = piece :: more) :
    mark ∉ piece ∧ (text = piece ∧ more = [] ∨
      ∃ back, text = piece ++ mark :: back ∧ fields mark back = more) := by
  induction text generalizing piece more with
  | nil =>
    obtain ⟨rfl, rfl⟩ := List.cons.inj h
    exact ⟨List.not_mem_nil, .inl ⟨rfl, rfl⟩⟩
  | cons b rest ih =>
    by_cases hb : b = mark
    · rw [hb, fields_cons_self] at h
      obtain ⟨rfl, rfl⟩ := List.cons.inj h
      exact ⟨List.not_mem_nil, .inr ⟨rest, by rw [hb]; rfl, rfl⟩⟩
    · obtain ⟨first, others, hrest⟩ := List.exists_cons_of_ne_nil (fields_ne_nil mark rest)
      rw [fields_cons_of_ne hb hrest] at h
      obtain ⟨rfl, rfl⟩ := List.cons.inj h
      obtain ⟨hfeed, hsplit⟩ := ih hrest
      refine ⟨?_, ?_⟩
      · rw [List.mem_cons, not_or]
        exact ⟨Ne.symm hb, hfeed⟩
      · rcases hsplit with ⟨rfl, hnil⟩ | ⟨back, rfl, hback⟩
        · exact .inl ⟨rfl, hnil⟩
        · exact .inr ⟨back, rfl, hback⟩

theorem fields_flatMap {pieces : List Bytes} (h : ∀ piece ∈ pieces, mark ∉ piece) :
    fields mark (pieces.flatMap (· ++ [mark])) = pieces ++ [[]] := by
  induction pieces with
  | nil => rfl
  | cons piece pieces ih =>
    rw [List.forall_mem_cons] at h
    rw [List.flatMap_cons, List.append_assoc, List.singleton_append, fields_append_cons h.1,
      ih h.2, List.cons_append]

end Bytes

namespace Text

/-! ## Lines -/

/-- A line that is read back as it is. -/
structure IsLine (line : Bytes) : Prop where
  feed : '\n'.toUInt8 ∉ line
  ending : line.getLast? ≠ some '\r'.toUInt8
  short : line.length < lineLimit

theorem IsLine.dropReturn_eq {line : Bytes} (h : IsLine line) : dropReturn line = line := by
  unfold dropReturn
  rw [if_neg (by simpa using h.ending)]

/-- A text without long lines is delivered whole. -/
theorem lines_of_short {text : Bytes} (h : ∀ piece ∈ pieces text, piece.length < lineLimit) :
    lines text = ⟨(pieces text).map dropReturn, false⟩ := by
  have hshort : ∀ piece ∈ pieces text, isShort piece := by
    intro piece hpiece
    simpa [isShort] using h piece hpiece
  have hall : (pieces text).takeWhile isShort = pieces text := by
    have happend : (pieces text ++ []).takeWhile isShort = pieces text ++ [].takeWhile isShort :=
      List.takeWhile_append_of_pos hshort
    simpa using happend
  unfold lines
  simp only [hall, List.all_eq_true.mpr hshort, Bool.not_true]

/-- A text that ends a line, or is empty. -/
def EndsLine (text : Bytes) : Prop := text = [] ∨ text.getLast? = some '\n'.toUInt8

theorem pieces_append {front : Bytes} (h : EndsLine front) (text : Bytes) :
    pieces (front ++ text) = pieces front ++ pieces text := by
  rcases h with rfl | hlast
  · rfl
  · obtain ⟨front, rfl⟩ := List.getLast?_eq_some_iff.mp hlast
    have hne := Bytes.fields_ne_nil '\n'.toUInt8 text
    have hfront : pieces (front ++ ['\n'.toUInt8]) = Bytes.fields '\n'.toUInt8 front := by
      unfold pieces
      rw [Bytes.fields_append_mark]
      simp [Bytes.fields]
    rw [hfront, List.append_assoc, List.singleton_append]
    unfold pieces
    rw [Bytes.fields_append_mark]
    dsimp only
    have hlast : (Bytes.fields '\n'.toUInt8 front ++ Bytes.fields '\n'.toUInt8 text).getLast? =
        (Bytes.fields '\n'.toUInt8 text).getLast? := by
      rw [List.getLast?_append, List.getLast?_eq_some_getLast hne, Option.some_or]
    rw [hlast, List.dropLast_append_of_ne_nil hne]
    split <;> rfl

/-- A line that is too long ends the reading: of it and of what follows nothing is delivered. -/
theorem lines_append_long {front long : Bytes} (h : EndsLine front) (hfeed : '\n'.toUInt8 ∉ long)
    (hlong : lineLimit ≤ long.length) (rest : Bytes) :
    (lines (front ++ (long ++ rest))).lines = (lines front).lines := by
  obtain ⟨piece, more, hfields⟩ := Bytes.fields_append_of_not_mem hfeed rest
  have hlength : lineLimit ≤ (long ++ piece).length := by
    rw [List.length_append]
    omega
  have hpieces : ∃ others, pieces (long ++ rest) = (long ++ piece) :: others := by
    unfold pieces
    rw [hfields]
    dsimp only
    split
    · rename_i hempty
      cases more with
      | nil =>
        simp only [List.getLast?_singleton, beq_iff_eq, Option.some.injEq] at hempty
        rw [hempty] at hlength
        exact absurd hlength (by decide)
      | cons second more => exact ⟨_, List.dropLast_cons_of_ne_nil (List.cons_ne_nil _ _)⟩
    · exact ⟨more, rfl⟩
  obtain ⟨others, hpieces⟩ := hpieces
  have hstop : ((long ++ piece) :: others).takeWhile isShort = [] := by
    rw [List.takeWhile_cons_of_neg]
    simpa [isShort] using hlength
  unfold lines
  dsimp only
  rw [pieces_append h, hpieces, List.takeWhile_append, hstop, List.append_nil]
  split
  · rename_i hall
    rw [List.IsPrefix.eq_of_length (List.takeWhile_prefix isShort) hall]
  · rfl

theorem pieces_flatMap {written : List Bytes} (h : ∀ line ∈ written, '\n'.toUInt8 ∉ line) :
    pieces (written.flatMap (· ++ ['\n'.toUInt8])) = written := by
  unfold pieces
  rw [Bytes.fields_flatMap h]
  simp

theorem lines_flatMap {written : List Bytes} (h : ∀ line ∈ written, IsLine line) :
    lines (written.flatMap (· ++ ['\n'.toUInt8])) = ⟨written, false⟩ := by
  have hpieces := pieces_flatMap fun line hline => (h line hline).feed
  have hkept : written.map dropReturn = written := by
    rw [List.map_congr_left fun line hline => (h line hline).dropReturn_eq, List.map_id']
  have hshort : ∀ piece ∈ pieces (written.flatMap (· ++ ['\n'.toUInt8])),
      piece.length < lineLimit := by
    rw [hpieces]
    exact fun line hline => (h line hline).short
  rw [lines_of_short hshort, hpieces, hkept]

/-! ## Blanks -/

/-- A visible ASCII character. -/
def isGraphic (b : UInt8) : Bool := 0x20 < b && b < 0x7F

theorem dropWords_eq_self {words : List Bytes} {text : Bytes} {b : UInt8} (fuel : Nat)
    (hhead : text.head? = some b) (h : ∀ word ∈ words, ∃ c ∈ word.head?, c ≠ b) :
    dropWords words fuel text = text := by
  obtain ⟨rest, rfl⟩ := List.head?_eq_some_iff.mp hhead
  have hnone : words.find? (·.isPrefixOf (b :: rest)) = none := by
    rw [List.find?_eq_none]
    intro word hword
    obtain ⟨c, hc, hne⟩ := h word hword
    obtain ⟨more, rfl⟩ := List.head?_eq_some_iff.mp hc
    simp [List.isPrefixOf, hne]
  cases fuel with
  | zero => rfl
  | succ fuel =>
    unfold dropWords
    rw [hnone]

/-- No blank begins or ends with a visible character. -/
theorem not_isGraphic_of_mem_blanks :
    ∀ word ∈ blanks ++ blanks.map List.reverse, ∃ c ∈ word.head?, ¬ isGraphic c := by
  decide

theorem head?_ne_of_isGraphic {b : UInt8} (hb : isGraphic b) :
    ∀ word ∈ blanks ++ blanks.map List.reverse, ∃ c ∈ word.head?, c ≠ b := by
  intro word hword
  obtain ⟨c, hc, hblank⟩ := not_isGraphic_of_mem_blanks word hword
  exact ⟨c, hc, fun heq => hblank (heq ▸ hb)⟩

theorem trim_eq_self {text : Bytes} {a z : UInt8} (hhead : text.head? = some a)
    (hlast : text.getLast? = some z) (ha : isGraphic a) (hz : isGraphic z) : trim text = text := by
  have hfront : trimFront text = text :=
    dropWords_eq_self _ hhead fun word hword =>
      head?_ne_of_isGraphic ha word (List.mem_append_left _ hword)
  have hend : dropWords (blanks.map List.reverse) text.length text.reverse = text.reverse :=
    dropWords_eq_self _ (by rw [List.head?_reverse, hlast]) fun word hword =>
      head?_ne_of_isGraphic hz word (List.mem_append_right _ hword)
  unfold trim trimEnd
  rw [hfront, hend, List.reverse_reverse]

end Text

end AvrSim
