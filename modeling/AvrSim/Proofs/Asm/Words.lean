import AvrSim.Asm.Layout

/-!
# Where the words of a line stand

A line is a sequence of words, character literals and bytes between them, up to a comment. This file
says which stretch of a line is a word, without reading the line from its start as the reader does, and
proves that the reader puts every word, and every error that it finds, at its stretch.

* `Clear` are the beginnings of a line behind which a word can begin, `Occurs` the stretches of a line by
  what they are.
* `Error.Blames` says what an error has against a stretch.
* `LineReader.Reading` is the invariant of the reader; `reading_step` keeps it and `reading_foldl` carries
  it to the end of the line.
* `sits_of_readLine_error` and `sits_of_readLine` are the result.
-/

namespace AvrSim.Asm

/-! ## Stretches of a line -/

/-- What a line has shown so far: no word, a label alone, or a word. -/
inductive Seen
  | nothing
  | label
  | word
  deriving DecidableEq, Repr

/-- A byte that cannot be part of a word. A colon is one only where a label can stand. -/
def EndsWord (seen : Seen) (b : UInt8) : Prop :=
  isSeparator b ∨ b = ';'.toUInt8 ∨ seen = .nothing ∧ b = ':'.toUInt8

/-- A byte that stands between words if it is not part of one. -/
def IsGap (b : UInt8) : Prop := ¬ isWordByte b ∧ b ≠ '\''.toUInt8 ∧ b ≠ ';'.toUInt8

/-- A word that is no character literal, as far as it goes. -/
structure Plain (seen : Seen) (text : Bytes) : Prop where
  head : ∃ b ∈ text.head?, isWordByte b
  inside : ∀ b ∈ text, ¬ EndsWord seen b

/-- A character literal before its end, which is the first quote that no backslash precedes. -/
inductive Unclosed : Bytes → Prop
  | quote : Unclosed ['\''.toUInt8]
  | snoc {text : Bytes} {b : UInt8} (htext : Unclosed text)
    (hb : b = '\''.toUInt8 → text.getLast? = some '\\'.toUInt8) : Unclosed (text ++ [b])

/-- A whole character literal. -/
def Literal (text : Bytes) : Prop :=
  ∃ body, Unclosed body ∧ body.getLast? ≠ some '\\'.toUInt8 ∧ text = body ++ ['\''.toUInt8]

/-- The beginnings of a line behind which a word can begin. A word with a colon is the label if it is a
name, and else is not counted. -/
inductive Clear : Seen → Bytes → Prop
  | nil : Clear .nothing []
  | gap {seen : Seen} {front : Bytes} {b : UInt8} (hfront : Clear seen front) (hb : IsGap b) :
    Clear seen (front ++ [b])
  | word {seen : Seen} {front text : Bytes} {b : UInt8} (hfront : Clear seen front)
    (htext : Plain seen text) (hb : isSeparator b) : Clear .word (front ++ text ++ [b])
  | literal {seen : Seen} {front text : Bytes} (hfront : Clear seen front) (htext : Literal text) :
    Clear .word (front ++ text)
  | label {front text : Bytes} (hfront : Clear .nothing front) (htext : Plain .nothing text)
    (hkind : TokenKind.ofText text = .identifier) : Clear .label (front ++ text ++ [':'.toUInt8])
  | rejected {front text : Bytes} (hfront : Clear .nothing front) (htext : Plain .nothing text)
    (hkind : TokenKind.ofText text ≠ .identifier) : Clear .nothing (front ++ text ++ [':'.toUInt8])

/-- A word of either kind, and what follows it in its line. -/
def IsWord (seen : Seen) (text after : Bytes) : Prop :=
  (Plain seen text ∧ ∀ b ∈ after.head?, isSeparator b ∨ b = ';'.toUInt8) ∨ Literal text

/-- What a stretch of a line is. -/
inductive Part
  | label
  | keyword
  | operand
  | unclosed
  | character
  deriving DecidableEq, Repr

/-- The stretches of a line, each with what stands before and after it. -/
inductive Occurs : Part → Bytes → Bytes → Bytes → Prop
  | label {before text after : Bytes} (hbefore : Clear .nothing before) (htext : Plain .nothing text) :
    Occurs .label before text (':'.toUInt8 :: after)
  | keyword {seen : Seen} {before text after : Bytes} (hbefore : Clear seen before)
    (hseen : seen ≠ .word) (htext : IsWord seen text after) : Occurs .keyword before text after
  | operand {before text after : Bytes} (hbefore : Clear .word before)
    (htext : IsWord .word text after) : Occurs .operand before text after
  | unclosed {seen : Seen} {before text : Bytes} (hbefore : Clear seen before)
    (htext : Unclosed text) : Occurs .unclosed before text []
  | character {before after : Bytes} {b : UInt8} : Occurs .character before [b] after

/-- The token of a word. -/
def Token.ofText (position : Position) (text : Bytes) : Token := ⟨TokenKind.ofText text, position, text⟩

/-- What an error has against a stretch of a line. -/
inductive Error.Blames : Error → Part → Bytes → Prop
  | character {p : Position} {b : UInt8} (hb : isNameByte b = false) :
    Blames (.unexpectedCharacter p b) .character [b]
  | unclosed {p : Position} {text : Bytes} : Blames (.invalidLiteral p) .unclosed text
  | label {p : Position} {text : Bytes} (hkind : TokenKind.ofText text ≠ .identifier) :
    Blames (.invalidOperand p [.identifier] (TokenKind.ofText text)) .label text
  | operand {p : Position} {text : Bytes} (required : List TokenKind) :
    Blames (.invalidOperand p required (TokenKind.ofText text)) .operand text
  | literal {p : Position} {text : Bytes} (hvalue : (Token.ofText p text).literal? = none) :
    Blames (.invalidLiteral p) .operand text
  | range {p : Position} {text : Bytes} {low high value : Int} (hvalue : value < low ∨ high < value) :
    Blames (.outOfRange p low high value) .operand text
  | register {p : Position} {text : Bytes} {low high : Nat} {even : Bool}
    (hregister : ∀ r, (Token.ofText p text).register? = some r →
      r.val < low ∨ high < r.val ∨ even = true ∧ r.val % 2 ≠ 0) :
    Blames (.invalidRegister p low high even) .operand text
  | unaligned {p : Position} {text : Bytes} (address : UInt32) :
    Blames (.unaligned p address) .operand text
  | unknownSymbol {p : Position} {text : Bytes} (hkind : TokenKind.ofText text = .identifier) :
    Blames (.unknownSymbol p text) .operand text
  | redeclared {p : Position} {part : Part} {text : Bytes} (hpart : part = .label ∨ part = .operand)
    (hkind : TokenKind.ofText text = .identifier) : Blames (.redeclared p text) part text
  | unknownStatement {p : Position} {text : Bytes}
    (hmnemonic : Layout.mnemonic? (Token.ofText p text) = none)
    (hdirective : Directive.ofName? text = none) : Blames (.unknownStatement p text) .keyword text
  | count {p : Position} {text : Bytes} {required received : Nat} (hcount : received ≠ required) :
    Blames (.operandCount p required received) .keyword text
  | overlap {p : Position} {text : Bytes} (address : UInt32) :
    Blames (.overlap p address) .keyword text

/-- The token stands at a stretch of the line. -/
structure Token.Sits (origin : LineStart) (line : Bytes) (part : Part) (t : Token) : Prop where
  kind : t.kind = TokenKind.ofText t.text
  stretch : ∃ before after, line = before ++ (t.text ++ after) ∧ Occurs part before t.text after ∧
    t.position = origin.position before.length t.text.length

/-- The error is about a stretch of the line. -/
def Error.Sits (origin : LineStart) (line : Bytes) (e : Error) : Prop :=
  ∃ part before text after, line = before ++ (text ++ after) ∧ Occurs part before text after ∧
    e.position? = some (origin.position before.length text.length) ∧ e.Blames part text

/-! ## Bytes -/

theorem not_endsWord_of_isWordByte {b : UInt8} (h : isWordByte b) (seen : Seen) : ¬ EndsWord seen b := by
  rintro (hseparator | rfl | ⟨-, rfl⟩)
  · simp only [isSeparator, Bool.or_eq_true, beq_iff_eq] at hseparator
    rcases hseparator with ((rfl | rfl) | rfl) | rfl <;> exact absurd h (by decide)
  · exact absurd h (by decide)
  · exact absurd h (by decide)

theorem isGap_of_isSeparator {b : UInt8} (h : isSeparator b) : IsGap b := by
  refine ⟨fun hword => not_endsWord_of_isWordByte hword .nothing (.inl h), ?_, ?_⟩
  · rintro rfl
    exact absurd h (by decide)
  · rintro rfl
    exact absurd h (by decide)

theorem isNameByte_of_not_isWordByte {b : UInt8} (h : ¬ isWordByte b) : isNameByte b = false := by
  apply Bool.eq_false_iff.mpr
  intro hname
  unfold isNameByte at hname
  unfold isWordByte at h
  rw [hname] at h
  exact h rfl

theorem plain_singleton {b : UInt8} (h : isWordByte b) (seen : Seen) : Plain seen [b] := by
  refine ⟨⟨b, rfl, h⟩, ?_⟩
  intro c hc
  rw [List.mem_singleton.mp hc]
  exact not_endsWord_of_isWordByte h seen

theorem Plain.snoc {seen : Seen} {text : Bytes} {b : UInt8} (h : Plain seen text)
    (hb : ¬ EndsWord seen b) : Plain seen (text ++ [b]) where
  head := by
    obtain ⟨first, hfirst, hword⟩ := h.head
    exact ⟨first, by rw [List.head?_append, hfirst]; rfl, hword⟩
  inside := by
    intro c hc
    rcases List.mem_append.mp hc with hold | hnew
    · exact h.inside c hold
    · rw [List.mem_singleton.mp hnew]
      exact hb

theorem Unclosed.ne_nil {text : Bytes} (h : Unclosed text) : text ≠ [] := by
  cases h with
  | quote => exact List.cons_ne_nil _ _
  | snoc => exact List.append_ne_nil_of_right_ne_nil _ (List.cons_ne_nil _ _)

/-! ## The reader -/

namespace LineReader

variable {origin : LineStart} {line read todo : Bytes} {r : LineReader} {b : UInt8}

/-- What the words read so far amount to. -/
def seen (r : LineReader) : Seen :=
  if r.tokens.isEmpty then if r.label.isSome then .label else .nothing else .word

/-- The first word of a statement is its keyword, the others are operands. -/
def Statement (origin : LineStart) (line : Bytes) : List Token → Prop
  | [] => True
  | keyword :: operands =>
    keyword.Sits origin line .keyword ∧ ∀ t ∈ operands, t.Sits origin line .operand

/-- What the reader has found stands in the line. -/
structure Found (origin : LineStart) (line : Bytes) (r : LineReader) : Prop where
  tokens : Statement origin line r.tokens.toList
  label : ∀ t ∈ r.label, t.kind = .identifier ∧ t.Sits origin line .label
  errors : ∀ e ∈ r.errors, e.Sits origin line

/-- Where the reader is: in a comment, between words, in a word or in a character literal. -/
inductive State (r : LineReader) (read : Bytes) : Prop
  | comment (hcomment : r.comment = true) (hquoted : r.quoted = false) (hword : r.word = none)
  | between (hcomment : r.comment = false) (hquoted : r.quoted = false) (hword : r.word = none)
    (hread : Clear r.seen read)
  | word {front reversed : Bytes} (hcomment : r.comment = false) (hquoted : r.quoted = false)
    (hword : r.word = some (front.length, reversed)) (hread : read = front ++ reversed.reverse)
    (hfront : Clear r.seen front) (htext : Plain r.seen reversed.reverse)
  | literal {front reversed : Bytes} (hcomment : r.comment = false) (hquoted : r.quoted = true)
    (hword : r.word = some (front.length, reversed)) (hread : read = front ++ reversed.reverse)
    (hfront : Clear r.seen front) (htext : Unclosed reversed.reverse)

/-- The invariant of the reader behind the bytes `read` of a line. -/
structure Reading (origin : LineStart) (line read : Bytes) (r : LineReader) : Prop where
  found : Found origin line r
  state : State r read

theorem statement_snoc {tokens : List Token} {t : Token} (h : Statement origin line tokens)
    (ht : t.Sits origin line (if tokens = [] then .keyword else .operand)) :
    Statement origin line (tokens ++ [t]) := by
  cases tokens with
  | nil => exact ⟨ht, nofun⟩
  | cons keyword operands =>
    refine ⟨h.1, ?_⟩
    intro other hother
    rcases List.mem_append.mp hother with hold | hnew
    · exact h.2 other hold
    · rw [List.mem_singleton.mp hnew]
      exact ht

theorem found_report (h : Found origin line r) {e : Error} (he : e.Sits origin line) :
    Found origin line (r.report e) where
  tokens := h.tokens
  label := h.label
  errors := by
    intro other hother
    rcases Array.mem_push.mp hother with hold | rfl
    · exact h.errors other hold
    · exact he

theorem found_unexpected (h : Found origin line r) (hline : line = read ++ b :: todo)
    (hb : isNameByte b = false) : Found origin line (r.unexpected origin read.length b) :=
  found_report h ⟨.character, read, [b], todo, hline, .character, rfl, .character hb⟩

theorem found_extend (h : Found origin line r) : Found origin line (r.extend b) :=
  ⟨h.tokens, h.label, h.errors⟩

/-! ## The end of a word -/

theorem close_of_none (h : r.word = none) : r.close origin = r := by
  unfold close
  rw [h]

theorem of_findIdx?_eq_some {bytes : Bytes} {i : Nat} (h : bytes.findIdx? (!isNameByte ·) = some i) :
    ∃ before after, bytes = before ++ bytes.getD i 0 :: after ∧ i = before.length ∧
      isNameByte (bytes.getD i 0) = false := by
  obtain ⟨hlt, hbad, -⟩ := List.findIdx?_eq_some_iff_getElem.mp h
  have hget : bytes.getD i 0 = bytes[i] := by simp [hlt]
  rw [hget]
  refine ⟨bytes.take i, bytes.drop (i + 1), ?_, ?_, by simpa using hbad⟩
  · rw [← List.drop_eq_getElem_cons hlt, List.take_append_drop]
  · rw [List.length_take_of_le (Nat.le_of_lt hlt)]

/-- The byte that an identifier or directive reports when it ends. -/
theorem of_firstBad?_eq_some {kind : TokenKind} {start index : Nat} {text : Bytes}
    (h : firstBad? kind start text = some (index, b)) :
    ∃ before after, text = before ++ b :: after ∧ index = start + before.length ∧
      isNameByte b = false := by
  unfold firstBad? at h
  cases kind with
  | identifier =>
    dsimp only at h
    split at h
    · rename_i i hi
      obtain ⟨rfl, rfl⟩ := Prod.mk.inj (Option.some.inj h)
      obtain ⟨before, after, htext, rfl, hb⟩ := of_findIdx?_eq_some hi
      exact ⟨before, after, htext, rfl, hb⟩
    · cases h
  | directive =>
    dsimp only at h
    split at h
    · rename_i i hi
      obtain ⟨rfl, rfl⟩ := Prod.mk.inj (Option.some.inj h)
      obtain ⟨before, after, htail, rfl, hb⟩ := of_findIdx?_eq_some hi
      -- a directive is looked at behind its dot
      cases text with
      | nil => simp at htail
      | cons dot rest =>
        refine ⟨dot :: before, after, congrArg (dot :: ·) htail, ?_, hb⟩
        rw [List.length_cons]
        omega
    · cases h
  | _ => cases h

/-- The reader behind an open word, whose errors are the ones before and perhaps one more. -/
theorem exists_close {front reversed : Bytes} (h : Found origin line r)
    (hword : r.word = some (front.length, reversed)) {after : Bytes}
    (hline : line = front ++ (reversed.reverse ++ after)) :
    ∃ errors : Array Error, (∀ e ∈ errors, e.Sits origin line) ∧
      r.close origin = { r with
        word := none
        tokens := r.tokens.push
          (.ofText (origin.position front.length reversed.reverse.length) reversed.reverse)
        errors := errors } := by
  unfold close
  rw [hword]
  dsimp only
  cases hbad : firstBad? (TokenKind.ofText reversed.reverse) front.length reversed.reverse with
  | none => exact ⟨r.errors, h.errors, rfl⟩
  | some bad =>
    obtain ⟨index, b⟩ := bad
    obtain ⟨before, rest, htext, rfl, hb⟩ := of_firstBad?_eq_some hbad
    refine ⟨(r.unexpected origin (front.length + before.length) b).errors, ?_, rfl⟩
    have hsplit : line = (front ++ before) ++ b :: (rest ++ after) := by
      rw [hline, htext]
      simp
    have hfound := found_unexpected h hsplit hb
    rw [List.length_append] at hfound
    exact hfound.errors

/-- The word that ends is the keyword or an operand of the line. -/
theorem found_close {front reversed after : Bytes} (h : Found origin line r)
    (hword : r.word = some (front.length, reversed))
    (hline : line = front ++ (reversed.reverse ++ after)) (hfront : Clear r.seen front)
    (htext : IsWord r.seen reversed.reverse after) :
    Found origin line (r.close origin) ∧ (r.close origin).word = none ∧
      (r.close origin).seen = .word ∧ (r.close origin).quoted = r.quoted ∧
      (r.close origin).comment = r.comment := by
  obtain ⟨errors, herrors, hclose⟩ := exists_close h hword hline
  rw [hclose]
  refine ⟨⟨?_, h.label, herrors⟩, rfl, ?_, rfl, rfl⟩
  · rw [Array.toList_push]
    refine statement_snoc h.tokens ⟨rfl, front, after, hline, ?_, rfl⟩
    unfold seen at hfront htext
    split
    · rename_i hnil
      have hempty : r.tokens.isEmpty = true := by simpa using hnil
      rw [if_pos hempty] at hfront htext
      refine .keyword hfront ?_ htext
      split <;> nofun
    · rename_i hne
      have hfull : ¬ r.tokens.isEmpty = true := by simpa using hne
      rw [if_neg hfull] at hfront htext
      exact .operand hfront htext
  · unfold seen
    rw [if_neg (by simp)]

/-! ## Bytes between words -/

theorem reading_between (hfound : Found origin line r) (hindex : r.index = read.length)
    (hcomment : r.comment = false) (hquoted : r.quoted = false) (hword : r.word = none)
    (hread : Clear r.seen read) (hline : line = read ++ b :: todo) :
    Reading origin line (read ++ [b]) (r.plainByte origin b) := by
  have hgap (hb : IsGap b) : State r (read ++ [b]) :=
    .between hcomment hquoted hword (hread.gap hb)
  have hextend (r' : LineReader) (hnone : r'.word = none) : r'.extend b = r' := by
    unfold extend
    rw [hnone]
    cases r'
    cases hnone
    rfl
  have hstray (hname : isNameByte b = false) (hb : IsGap b) :
      Reading origin line (read ++ [b]) ((r.unexpected origin r.index b).extend b) := by
    rw [hextend (r.unexpected origin r.index b) hword, hindex]
    exact ⟨found_unexpected hfound hline hname, .between hcomment hquoted hword (hread.gap hb)⟩
  unfold plainByte
  rw [close_of_none hword]
  split
  · exact ⟨⟨hfound.tokens, hfound.label, hfound.errors⟩, .comment rfl hquoted hword⟩
  split
  · rename_i hseparator
    exact ⟨hfound, hgap (isGap_of_isSeparator hseparator)⟩
  split
  · rename_i hcolon
    obtain rfl : b = ':'.toUInt8 := by simpa using hcolon
    unfold colon
    rw [if_pos (by simp [hword])]
    exact hstray (by decide) ⟨by decide, by decide, by decide⟩
  split
  · rename_i hquote
    obtain rfl : b = '\''.toUInt8 := by simpa using hquote
    rw [if_neg (by simp [hword])]
    have hopen : (r.start '\''.toUInt8).word = some (read.length, ['\''.toUInt8]) :=
      congrArg (fun n => some (n, _)) hindex
    exact ⟨⟨hfound.tokens, hfound.label, hfound.errors⟩, .literal hcomment rfl hopen rfl hread .quote⟩
  · rename_i hsemicolon hseparator hcolon hquote
    split
    · rename_i hwordByte
      rw [if_neg (by simp [hword])]
      have hopen : (r.start b).word = some (read.length, [b]) := congrArg (fun n => some (n, _)) hindex
      exact ⟨⟨hfound.tokens, hfound.label, hfound.errors⟩,
        .word hcomment hquoted hopen rfl hread (plain_singleton hwordByte _)⟩
    · rename_i hwordByte
      have hgapByte : IsGap b := ⟨hwordByte, by simpa using hquote, by simpa using hsemicolon⟩
      exact hstray (isNameByte_of_not_isWordByte hwordByte) hgapByte

/-! ## Bytes of a word -/

theorem seen_eq_nothing_iff : r.seen = .nothing ↔ r.tokens = #[] ∧ r.label = none := by
  unfold seen
  split
  · rename_i hempty
    split
    · rename_i hlabel
      simp [Option.isSome_iff_ne_none.mp hlabel]
    · rename_i hlabel
      have hnone : r.label = none := by simpa using hlabel
      simpa [hnone] using hempty
  · rename_i hfull
    constructor
    · nofun
    · rintro ⟨hnil, -⟩
      exact absurd (by simp [hnil]) hfull

theorem clear_of_nothing (htokens : r.tokens = #[]) (hlabel : r.label = none)
    (h : Clear .nothing read) : Clear r.seen read := by
  rw [seen_eq_nothing_iff.mpr ⟨htokens, hlabel⟩]
  exact h

theorem word_extend {start : Nat} {reversed : Bytes} (h : r.word = some (start, reversed)) (b : UInt8) :
    (r.extend b).word = some (start, b :: reversed) := by
  unfold extend
  rw [h]
  rfl

theorem state_extend {front reversed : Bytes} (hcomment : r.comment = false) (hquoted : r.quoted = false)
    (hword : r.word = some (front.length, reversed)) (hread : read = front ++ reversed.reverse)
    (hfront : Clear r.seen front) (htext : Plain r.seen reversed.reverse) (hb : ¬ EndsWord r.seen b) :
    State (r.extend b) (read ++ [b]) := by
  have hlonger := word_extend hword b
  refine .word hcomment hquoted hlonger ?_ hfront ?_
  · rw [hread, List.reverse_cons, List.append_assoc]
  · rw [List.reverse_cons]
    exact htext.snoc hb

/-- A colon behind the first word of a line. -/
theorem reading_label {front reversed : Bytes} (hfound : Found origin line r)
    (hcomment : r.comment = false) (hquoted : r.quoted = false)
    (hword : r.word = some (front.length, reversed)) (hfront : Clear .nothing front)
    (htext : Plain .nothing reversed.reverse) (hseen : r.seen = .nothing)
    (hline : line = front ++ (reversed.reverse ++ ':'.toUInt8 :: todo)) :
    Reading origin line (front ++ reversed.reverse ++ [':'.toUInt8])
      (r.colon origin ':'.toUInt8) := by
  obtain ⟨htokens, hlabel⟩ := seen_eq_nothing_iff.mp hseen
  obtain ⟨errors, herrors, hclose⟩ := exists_close hfound hword hline
  have hsits : Token.Sits origin line .label
      (.ofText (origin.position front.length reversed.reverse.length) reversed.reverse) :=
    ⟨rfl, front, _, hline, .label hfront htext, rfl⟩
  unfold colon
  rw [if_neg (by simp [hword, htokens, hlabel]), hclose, htokens]
  generalize reversed.reverse = text at htext hsits hline
  have hfirst (t : Token) : (#[].push t)[0]? = some t := rfl
  simp only [hfirst]
  split
  · rename_i hkind
    refine ⟨⟨trivial, ?_, herrors⟩, .between hcomment hquoted rfl (.label hfront htext hkind)⟩
    intro t ht
    obtain rfl := Option.some.inj ht
    exact ⟨hkind, hsits⟩
  · rename_i hkind
    have hreport : Error.Sits origin line (.invalidOperand
        (origin.position front.length text.length) [.identifier] (TokenKind.ofText text)) :=
      ⟨.label, front, text, _, hline, .label hfront htext, rfl, .label hkind⟩
    have hcleared : Found origin line { r with word := none, tokens := #[], errors := errors } :=
      ⟨trivial, hfound.label, herrors⟩
    refine ⟨found_report hcleared hreport, .between hcomment hquoted rfl ?_⟩
    apply clear_of_nothing
    · rfl
    · exact hlabel
    · exact .rejected hfront htext hkind

theorem reading_word {front reversed : Bytes} (hfound : Found origin line r)
    (hindex : r.index = read.length) (hcomment : r.comment = false) (hquoted : r.quoted = false)
    (hword : r.word = some (front.length, reversed)) (hread : read = front ++ reversed.reverse)
    (hfront : Clear r.seen front) (htext : Plain r.seen reversed.reverse)
    (hline : line = read ++ b :: todo) : Reading origin line (read ++ [b]) (r.plainByte origin b) := by
  have hsplit : line = front ++ (reversed.reverse ++ b :: todo) := by
    rw [hline, hread, List.append_assoc]
  have hclose (hb : isSeparator b ∨ b = ';'.toUInt8) : IsWord r.seen reversed.reverse (b :: todo) := by
    refine .inl ⟨htext, ?_⟩
    intro c hc
    obtain rfl := Option.some.inj hc
    exact hb
  have hstray (hname : isNameByte b = false) (hb : ¬ EndsWord r.seen b) :
      Reading origin line (read ++ [b]) ((r.unexpected origin r.index b).extend b) := by
    have hkept : (r.unexpected origin r.index b).seen = r.seen := rfl
    rw [hindex] at hkept ⊢
    exact ⟨found_extend (found_unexpected hfound hline hname),
      state_extend hcomment hquoted hword hread (hkept ▸ hfront) (hkept ▸ htext) (hkept ▸ hb)⟩
  unfold plainByte
  split
  · rename_i hsemicolon
    obtain ⟨hclosed, hnone, -, hopen, -⟩ :=
      found_close hfound hword hsplit hfront (hclose (.inr (by simpa using hsemicolon)))
    exact ⟨⟨hclosed.tokens, hclosed.label, hclosed.errors⟩, .comment rfl (hopen.trans hquoted) hnone⟩
  split
  · rename_i hseparator
    obtain ⟨hclosed, hnone, hseen, hopen, hcode⟩ :=
      found_close hfound hword hsplit hfront (hclose (.inl hseparator))
    refine ⟨hclosed, .between (hcode.trans hcomment) (hopen.trans hquoted) hnone ?_⟩
    rw [hseen, hread]
    exact .word hfront htext hseparator
  rename_i hsemicolon hseparator
  have hinside (hcolon : ¬ (r.seen = .nothing ∧ b = ':'.toUInt8)) : ¬ EndsWord r.seen b := by
    rintro (h | h | h)
    · exact hseparator h
    · exact hsemicolon (by simpa using h)
    · exact hcolon h
  split
  · rename_i hcolon
    obtain rfl : b = ':'.toUInt8 := by simpa using hcolon
    by_cases hseen : r.seen = .nothing
    · rw [hread]
      rw [hseen] at hfront htext
      exact reading_label hfound hcomment hquoted hword hfront htext hseen hsplit
    · have hlate : (r.word.isNone || !r.tokens.isEmpty || r.label.isSome) = true := by
        cases hlabel : r.label with
        | some name => simp
        | none =>
          have hfull : r.tokens ≠ #[] := fun h => hseen (seen_eq_nothing_iff.mpr ⟨h, hlabel⟩)
          simp [hfull]
      unfold colon
      rw [if_pos hlate]
      exact hstray (by decide) (hinside fun h => hseen h.1)
  rename_i hcolon
  have hgoes : ¬ EndsWord r.seen b := hinside fun h => hcolon (by simpa using h.2)
  split
  · rename_i hquote
    obtain rfl : b = '\''.toUInt8 := by simpa using hquote
    rw [if_pos (by simp [hword])]
    exact hstray (by decide) hgoes
  split
  · rw [if_pos (by simp [hword])]
    exact ⟨found_extend hfound, state_extend hcomment hquoted hword hread hfront htext hgoes⟩
  · rename_i hwordByte
    exact hstray (isNameByte_of_not_isWordByte hwordByte) hgoes

/-! ## Bytes of a character literal -/

theorem reading_literal {front reversed : Bytes} (hfound : Found origin line r)
    (hprevious : ∀ c ∈ read.getLast?, r.previous = c) (hcomment : r.comment = false)
    (hquoted : r.quoted = true) (hword : r.word = some (front.length, reversed))
    (hread : read = front ++ reversed.reverse) (hfront : Clear r.seen front)
    (htext : Unclosed reversed.reverse) (hline : line = read ++ b :: todo) :
    Reading origin line (read ++ [b])
      (if b == '\''.toUInt8 && (r.extend b).previous != '\\'.toUInt8 then
        { (r.extend b).close origin with quoted := false } else r.extend b) := by
  have hsplit : line = front ++ ((b :: reversed).reverse ++ todo) := by
    rw [hline, hread, List.reverse_cons]
    simp
  have hlonger := word_extend hword b
  have hlast : reversed.reverse.getLast? = some r.previous := by
    have hsome := List.getLast?_eq_some_getLast htext.ne_nil
    have hend : read.getLast? = reversed.reverse.getLast? := by
      rw [hread, List.getLast?_append, hsome, Option.some_or]
    rw [hsome, hprevious _ (hend.trans hsome)]
  split
  · rename_i hends
    simp only [Bool.and_eq_true, beq_iff_eq, bne_iff_ne] at hends
    obtain ⟨rfl, hescape⟩ := hends
    have hliteral : Literal ('\''.toUInt8 :: reversed).reverse := by
      refine ⟨reversed.reverse, htext, ?_, List.reverse_cons⟩
      rw [hlast]
      exact fun h => hescape (Option.some.inj h)
    obtain ⟨hclosed, hnone, hseen, -, hcode⟩ :=
      found_close (found_extend hfound) hlonger hsplit hfront (.inr hliteral)
    refine ⟨⟨hclosed.tokens, hclosed.label, hclosed.errors⟩,
      .between (hcode.trans hcomment) rfl hnone ?_⟩
    change Clear (((r.extend '\''.toUInt8).close origin).seen) _
    rw [hseen, hread, List.append_assoc, ← List.reverse_cons]
    exact .literal hfront hliteral
  · rename_i hgoes
    refine ⟨found_extend hfound, .literal hcomment hquoted hlonger ?_ hfront ?_⟩
    · rw [hread, List.reverse_cons, List.append_assoc]
    · rw [List.reverse_cons]
      refine .snoc htext ?_
      rintro rfl
      have hescape : r.previous = '\\'.toUInt8 := by simpa [extend] using hgoes
      rw [hlast, hescape]

/-! ## The whole line -/

/-- One byte. -/
theorem reading_step (h : Reading origin line read r) (hindex : r.index = read.length)
    (hprevious : ∀ c ∈ read.getLast?, r.previous = c) (hline : line = read ++ b :: todo) :
    Reading origin line (read ++ [b]) (step origin r b) := by
  obtain ⟨hfound, hstate⟩ := h
  have hmarked {next : LineReader} (hnext : Reading origin line (read ++ [b]) next) :
      Reading origin line (read ++ [b]) { next with index := r.index + 1, previous := b } := by
    refine ⟨⟨hnext.found.tokens, hnext.found.label, hnext.found.errors⟩, ?_⟩
    cases hnext.state with
    | comment hcomment hquoted hword => exact .comment hcomment hquoted hword
    | between hcomment hquoted hword hread => exact .between hcomment hquoted hword hread
    | word hcomment hquoted hword hread hfront htext =>
      exact .word hcomment hquoted hword hread hfront htext
    | literal hcomment hquoted hword hread hfront htext =>
      exact .literal hcomment hquoted hword hread hfront htext
  unfold step
  apply hmarked
  cases hstate with
  | comment hcomment hquoted hword =>
    rw [if_pos hcomment]
    exact ⟨hfound, .comment hcomment hquoted hword⟩
  | between hcomment hquoted hword hread =>
    rw [if_neg (by simp [hcomment]), if_neg (by simp [hquoted])]
    exact reading_between hfound hindex hcomment hquoted hword hread hline
  | word hcomment hquoted hword hread hfront htext =>
    rw [if_neg (by simp [hcomment]), if_neg (by simp [hquoted])]
    exact reading_word hfound hindex hcomment hquoted hword hread hfront htext hline
  | literal hcomment hquoted hword hread hfront htext =>
    rw [if_neg (by simp [hcomment]), if_pos hquoted]
    exact reading_literal hfound hprevious hcomment hquoted hword hread hfront htext hline

theorem reading_foldl (h : Reading origin line read r) (hindex : r.index = read.length)
    (hprevious : ∀ c ∈ read.getLast?, r.previous = c) (hline : line = read ++ todo) :
    Reading origin line line (todo.foldl (step origin) r) := by
  induction todo generalizing read r with
  | nil =>
    rw [hline, List.append_nil]
    rw [hline, List.append_nil] at h
    exact h
  | cons b rest ih =>
    have hnext := reading_step h hindex hprevious hline
    have hlength : (step origin r b).index = (read ++ [b]).length := by
      rw [List.length_append, ← hindex]
      rfl
    refine ih hnext hlength ?_ (by rw [hline]; simp)
    intro c hc
    rw [List.getLast?_append] at hc
    exact Option.some.inj hc

/-- What is found at the end of the line. -/
theorem found_finish (h : Reading origin line line r) : Found origin line (r.finish origin) := by
  obtain ⟨hfound, hstate⟩ := h
  unfold finish
  cases hstate with
  | comment hcomment hquoted hword =>
    rw [if_neg (by simp [hquoted]), close_of_none hword]
    exact hfound
  | between hcomment hquoted hword hread =>
    rw [if_neg (by simp [hquoted]), close_of_none hword]
    exact hfound
  | word hcomment hquoted hword hread hfront htext =>
    rw [if_neg (by simp [hquoted])]
    exact (found_close hfound hword (by rw [List.append_nil]; exact hread) hfront
      (.inl ⟨htext, by simp⟩)).1
  | literal hcomment hquoted hword hread hfront htext =>
    rename_i front reversed
    have hopen : Error.Sits origin line
        (.invalidLiteral (origin.position front.length reversed.length)) := by
      refine ⟨.unclosed, front, reversed.reverse, [], ?_, .unclosed hfront htext, ?_, .unclosed⟩
      · rw [List.append_nil]
        exact hread
      · rw [List.length_reverse]
        rfl
    have hreported := found_report hfound hopen
    rw [if_pos hquoted, hword]
    exact ⟨hreported.tokens, hreported.label, hreported.errors⟩

end LineReader

theorem found_line (origin : LineStart) (line : Bytes) :
    LineReader.Found origin line ((line.foldl (LineReader.step origin) {}).finish origin) := by
  have hstart : LineReader.Reading origin line [] {} :=
    ⟨⟨trivial, nofun, by simp⟩, .between rfl rfl rfl .nil⟩
  exact LineReader.found_finish (LineReader.reading_foldl hstart rfl nofun rfl)

/-- Every error of a line is about a stretch of it. -/
theorem sits_of_readLine_error {origin : LineStart} {line : Bytes} {errors : List Error}
    (h : readLine origin line = .error errors) : ∀ e ∈ errors, e.Sits origin line := by
  have hfound := (found_line origin line).errors
  unfold readLine at h
  generalize (line.foldl (LineReader.step origin) {}).finish origin = r at h hfound
  dsimp only at h
  split at h
  · cases h
  · cases h
    intro e he
    exact hfound e (Array.mem_toList_iff.mp he)

/-- The words of a line stand in it. -/
theorem sits_of_readLine {origin : LineStart} {line : Bytes} {words : LineWords}
    (h : readLine origin line = .ok words) :
    (∀ t ∈ words.label, t.kind = .identifier ∧ t.Sits origin line .label) ∧
      LineReader.Statement origin line words.tokens := by
  have hfound := found_line origin line
  unfold readLine at h
  generalize (line.foldl (LineReader.step origin) {}).finish origin = r at h hfound
  dsimp only at h
  split at h
  · cases h
    exact ⟨hfound.label, hfound.tokens⟩
  · cases h

end AvrSim.Asm
