import AvrSim.Cli.Assemble
import AvrSim.Proofs.Asm.Image
import AvrSim.Proofs.Text.Lines

/-!
# Where errors point

The first pass counts lines and bytes as it reads, but it sees its lines without the carriage returns
before their line feeds and counts one byte for each line end. So an error names its line and its column,
and its size is that of the word or byte that it is about, but where the line begins is short by the
number of carriage returns before line feeds up to there. Without such line ends the error points to what
it is about, and the assembler program underlines it.

* `Text.returns` counts the carriage returns, and `LineStart.Begins` says where a line begins by the count.
* `Error.Located` is what the passes keep: `Layout.located_line` for a line, `Code.located_put` for a word.
* `error_position` is the result, `foreignSource_position` that carriage returns spoil it.
-/

namespace AvrSim

/-! ## Lines of a text -/

namespace Text

/-- The number of carriage returns that stand just before a line feed. -/
def returns : Bytes → Nat
  | [] => 0
  | b :: rest => (if b = '\r'.toUInt8 ∧ rest.head? = some '\n'.toUInt8 then 1 else 0) + returns rest

/-- A line of a text, with the carriage return that may end it, and what stands before and after it. -/
structure LineOf (text front piece rest : Bytes) : Prop where
  split : text = front ++ (piece ++ rest)
  begins : EndsLine front
  feed : '\n'.toUInt8 ∉ piece
  ends : ∀ b ∈ rest.head?, b = '\n'.toUInt8

variable {front piece text : Bytes}

theorem returns_append (h : EndsLine front) (text : Bytes) :
    returns (front ++ text) = returns front + returns text := by
  induction front with
  | nil => exact (Nat.zero_add _).symm
  | cons b rest ih =>
    cases rest with
    | nil =>
      have hb : b ≠ '\r'.toUInt8 := by
        rintro rfl
        rcases h with h | h
        · cases h
        · exact absurd h (by decide)
      simp [returns, hb]
    | cons c more =>
      have hrest : EndsLine (c :: more) := by
        rcases h with h | h
        · cases h
        · rw [List.getLast?_cons_cons] at h
          exact .inr h
      have hstep (tail : Bytes) : returns (b :: tail) =
          (if b = '\r'.toUInt8 ∧ tail.head? = some '\n'.toUInt8 then 1 else 0) + returns tail := rfl
      rw [List.cons_append, hstep, hstep, ih hrest, List.cons_append, List.head?_cons, List.head?_cons,
        Nat.add_assoc]

theorem returns_feed (h : '\n'.toUInt8 ∉ piece) :
    returns (piece ++ ['\n'.toUInt8]) = if piece.getLast? = some '\r'.toUInt8 then 1 else 0 := by
  induction piece with
  | nil => rfl
  | cons b rest ih =>
    rw [List.mem_cons, not_or] at h
    rw [List.cons_append, returns, ih h.2]
    cases rest with
    | nil => simp
    | cons c more =>
      have hc : c ≠ '\n'.toUInt8 := fun heq => h.2 (heq ▸ List.mem_cons_self)
      simp [hc]

theorem length_dropReturn (piece : Bytes) :
    (dropReturn piece).length + (if piece.getLast? = some '\r'.toUInt8 then 1 else 0) =
      piece.length := by
  unfold dropReturn
  simp only [beq_iff_eq]
  split
  · rename_i hlast
    have hne : piece ≠ [] := by
      rintro rfl
      cases hlast
    have hpositive := List.length_pos_iff.mpr hne
    rw [List.length_dropLast]
    omega
  · rfl

theorem endsLine_append_feed (front piece : Bytes) : EndsLine (front ++ (piece ++ ['\n'.toUInt8])) := by
  right
  simp

theorem of_pieces_eq_cons {more : List Bytes} (h : pieces text = piece :: more) :
    '\n'.toUInt8 ∉ piece ∧ (text = piece ∧ more = [] ∨
      ∃ back, text = piece ++ '\n'.toUInt8 :: back ∧ pieces back = more) := by
  obtain ⟨first, others, hfields⟩ :=
    List.exists_cons_of_ne_nil (Bytes.fields_ne_nil '\n'.toUInt8 text)
  obtain ⟨hfeed, hsplit⟩ := Bytes.of_fields_eq_cons hfields
  unfold pieces at h
  rw [hfields] at h
  rcases hsplit with ⟨rfl, rfl⟩ | ⟨back, rfl, rfl⟩
  · dsimp only at h
    split at h
    · cases h
    · obtain ⟨rfl, rfl⟩ := List.cons.inj h
      exact ⟨hfeed, .inl ⟨rfl, rfl⟩⟩
  · have hne := Bytes.fields_ne_nil '\n'.toUInt8 back
    have hrest : first :: pieces back = piece :: more := by
      rw [← h]
      unfold pieces
      dsimp only
      rw [List.getLast?_cons_of_ne_nil hne, List.dropLast_cons_of_ne_nil hne]
      split <;> rfl
    obtain ⟨rfl, rfl⟩ := List.cons.inj hrest
    exact ⟨hfeed, .inr ⟨back, rfl, rfl⟩⟩

end Text

namespace Asm

open Text

variable {source front piece rest : Bytes} {origin : LineStart}

/-! ## What the passes keep -/

/-- The line that begins behind `front`. Its number is right, and its first byte is short by the carriage
returns of the line ends before. -/
structure LineStart.Begins (origin : LineStart) (front : Bytes) : Prop where
  line : origin.line = front.count '\n'.toUInt8 + 1
  byte : origin.byte + returns front = front.length

theorem begins_nextLine (h : origin.Begins front) (hfront : EndsLine front)
    (hpiece : '\n'.toUInt8 ∉ piece) :
    (Layout.nextLine origin (dropReturn piece)).Begins (front ++ (piece ++ ['\n'.toUInt8])) where
  line := by
    rw [List.count_append, List.count_append, List.count_eq_zero_of_not_mem hpiece]
    exact congrArg (· + 1) h.line
  byte := by
    have hbyte := h.byte
    have hlength := length_dropReturn piece
    rw [returns_append hfront, returns_feed hpiece]
    simp only [Layout.nextLine, List.length_append, List.length_singleton]
    omega

/-- The token stands in the source. -/
def Token.Located (source : Bytes) (part : Part) (t : Token) : Prop :=
  ∃ front piece rest origin, LineOf source front piece rest ∧ LineStart.Begins origin front ∧
    t.Sits origin (dropReturn piece) part

/-- The error is about something that stands in the source. -/
def Error.Located (source : Bytes) (e : Error) : Prop :=
  ∃ front piece rest origin, LineOf source front piece rest ∧ LineStart.Begins origin front ∧
    e.Sits origin (dropReturn piece)

/-- The words of the statement stand in the source. -/
structure Statement.Located (source : Bytes) (s : Statement) : Prop where
  keyword : s.keyword.Located source .keyword
  operands : ∀ t ∈ s.operands, t.Located source .operand

/-- All that the first pass has found stands in the source. -/
structure Layout.Located (source : Bytes) (l : Layout) : Prop where
  errors : ∀ e ∈ l.errors, e.Located source
  statements : ∀ s ∈ l.statements, s.Located source

theorem Token.Located.kind {part : Part} {t : Token} (h : t.Located source part) :
    t.kind = TokenKind.ofText t.text := by
  obtain ⟨_, _, _, _, -, -, hsits⟩ := h
  exact hsits.kind

/-- An error at the place of a token. -/
theorem Token.Located.error {part : Part} {t : Token} {e : Error} (h : t.Located source part)
    (hposition : e.position? = some t.position) (hblames : e.Blames part t.text) :
    e.Located source := by
  obtain ⟨front, piece, rest, origin, hline, hbegins, -, before, after, hsplit, hoccurs, hplace⟩ := h
  refine ⟨front, piece, rest, origin, hline, hbegins, part, before, t.text, after, hsplit, hoccurs, ?_,
    hblames⟩
  rw [hposition, hplace]

theorem Token.Located.accused {t : Token} {e : Error} (h : t.Located source .operand)
    (he : t.Accused e) : e.Located source :=
  h.error he.1 (he.2 h.kind)

/-! ## The first pass -/

namespace Layout

variable {l : Layout} {keyword : Token} {operands : List Token}

theorem located_report (h : l.Located source) {errors : List Error}
    (herrors : ∀ e ∈ errors, e.Located source) : (l.report errors).Located source where
  errors := by
    intro e he
    rcases Array.mem_append.mp he with hold | hnew
    · exact h.errors e hold
    · exact herrors e (List.mem_toArray.mp hnew)
  statements := h.statements

theorem located_report_one (h : l.Located source) {e : Error} (he : e.Located source) :
    (l.report [e]).Located source := by
  apply located_report h
  intro other hother
  rw [List.mem_singleton.mp hother]
  exact he

theorem located_define (h : l.Located source) {name : Token} {part : Part}
    (hname : name.Located source part) (hpart : part = .label ∨ part = .operand)
    (hkind : name.kind = .identifier) (value : Int) : (l.define name value).Located source := by
  unfold define
  split
  · exact located_report_one h (hname.error rfl (.redeclared hpart (hname.kind ▸ hkind)))
  · exact ⟨h.errors, h.statements⟩

theorem located_statement (h : l.Located source) (hkeyword : keyword.Located source .keyword)
    (hoperands : ∀ t ∈ operands, t.Located source .operand) (action : Action) :
    (l.statement keyword operands action).Located source where
  errors := h.errors
  statements := by
    intro s hs
    rcases Array.mem_push.mp hs with hold | rfl
    · exact h.statements s hold
    · exact ⟨hkeyword, hoperands⟩

theorem located_value (h : l.Located source) {operand : Token} (hoperand : operand.Located source .operand)
    {low high : Int} {errors : List Error} (herrors : l.symbols.value operand low high = .error errors) :
    (l.report errors).Located source := by
  apply located_report h
  intro e he
  exact hoperand.accused ((refused_value l.symbols operand low high errors herrors).2 e he)

theorem located_org (h : l.Located source) (hkeyword : keyword.Located source .keyword)
    (hoperands : ∀ t ∈ operands, t.Located source .operand) :
    (l.org keyword operands).Located source := by
  unfold org
  split
  · rename_i operand
    have hoperand := hoperands operand List.mem_cons_self
    split
    · rename_i errors herrors
      exact located_value h hoperand herrors
    · split
      · exact located_report_one h (hoperand.error rfl (.unaligned _))
      · exact ⟨h.errors, h.statements⟩
  · rename_i hcount
    refine located_report_one h (hkeyword.error rfl (.count ?_))
    intro hone
    obtain ⟨operand, rfl⟩ := List.length_eq_one_iff.mp hone
    exact hcount operand rfl

theorem located_equ (h : l.Located source) (hkeyword : keyword.Located source .keyword)
    (hoperands : ∀ t ∈ operands, t.Located source .operand) :
    (l.equ keyword operands).Located source := by
  unfold equ
  split
  · rename_i name operand
    have hname := hoperands name List.mem_cons_self
    have hoperand := hoperands operand (List.mem_cons_of_mem _ List.mem_cons_self)
    split
    · refine located_report_one h (hname.error rfl ?_)
      rw [hname.kind]
      exact .operand _
    · rename_i hkind
      split
      · rename_i errors herrors
        exact located_value h hoperand herrors
      · exact located_define h hname (.inr rfl) (Decidable.not_not.mp hkind) _
  · rename_i hcount
    refine located_report_one h (hkeyword.error rfl (.count ?_))
    intro htwo
    obtain ⟨name, operand, rfl⟩ := List.length_eq_two.mp htwo
    exact hcount name operand rfl

theorem located_words (h : l.Located source) (hkeyword : keyword.Located source .keyword)
    (hoperands : ∀ t ∈ operands, t.Located source .operand) :
    (l.words keyword operands).Located source := by
  unfold words
  split
  · exact located_statement h hkeyword hoperands _
  · rename_i hmnemonic
    split
    · exact located_org h hkeyword hoperands
    · split
      · exact located_report_one h (hkeyword.error rfl (.count (by decide)))
      · exact located_statement h hkeyword hoperands _
    · exact located_equ h hkeyword hoperands
    · rename_i hdirective
      refine located_report_one h (hkeyword.error rfl (.unknownStatement ?_ hdirective))
      rw [Token.eq_ofText hkeyword.kind]
      exact hmnemonic

/-- One line. -/
theorem located_line (h : l.Located source) (hline : LineOf source front piece rest)
    (hbegins : origin.Begins front) : (l.line origin (dropReturn piece)).Located source := by
  have hlocated {part : Part} {t : Token} (hsits : t.Sits origin (dropReturn piece) part) :
      t.Located source part := ⟨front, piece, rest, origin, hline, hbegins, hsits⟩
  unfold line
  split
  · rename_i errors herrors
    apply located_report h
    intro e he
    exact ⟨front, piece, rest, origin, hline, hbegins, sits_of_readLine_error herrors e he⟩
  · rename_i content hcontent
    obtain ⟨hlabel, htokens⟩ := sits_of_readLine hcontent
    have hwords {l : Layout} (hl : l.Located source) {keyword : Token} {operands : List Token}
        (heq : content.tokens = keyword :: operands) : (l.words keyword operands).Located source := by
      rw [heq] at htokens
      exact located_words hl (hlocated htokens.1) fun t ht => hlocated (htokens.2 t ht)
    cases hname : content.label with
    | none =>
      dsimp only
      split
      · exact h
      · exact hwords h (by assumption)
    | some name =>
      obtain ⟨hkind, hsits⟩ := hlabel name hname
      have hdefined := located_define h (hlocated hsits) (.inl rfl) hkind l.address.toNat
      have hlabelled : (l.label name).Located source := ⟨hdefined.errors, hdefined.statements⟩
      dsimp only
      split
      · exact hlabelled
      · exact hwords hlabelled (by assumption)

/-- All lines of a source behind `front`. -/
theorem located_foldl (h : l.Located source) (hbegins : origin.Begins front) (hfront : EndsLine front)
    {text : Bytes} (hsource : source = front ++ text) :
    (((((pieces text).takeWhile isShort).map dropReturn).foldl
      (fun (state : Layout × LineStart) text => (state.1.line state.2 text, nextLine state.2 text))
      (l, origin)).1).Located source := by
  induction hpieces : pieces text generalizing text front l origin with
  | nil => exact h
  | cons piece more ih =>
    obtain ⟨hfeed, hsplit⟩ := of_pieces_eq_cons hpieces
    rw [List.takeWhile_cons]
    split
    · rw [List.map_cons, List.foldl_cons]
      rcases hsplit with ⟨rfl, rfl⟩ | ⟨back, rfl, hback⟩
      · have hline : LineOf source front text [] :=
          ⟨by rw [hsource, List.append_nil], hfront, hfeed, by simp⟩
        exact located_line h hline hbegins
      · have hline : LineOf source front piece ('\n'.toUInt8 :: back) := by
          refine ⟨hsource, hfront, hfeed, ?_⟩
          rintro b ⟨⟩
          rfl
        refine ih (located_line h hline hbegins) (begins_nextLine hbegins hfront hfeed)
          (endsLine_append_feed front piece) ?_ hback
        rw [hsource]
        simp
    · exact h

theorem located_ofSource (source : Bytes) : (ofSource source).Located source :=
  located_foldl ⟨by simp, by simp⟩ ⟨rfl, rfl⟩ (.inl rfl) rfl

end Layout

/-! ## The second pass -/

namespace Code

variable {c : Code} {s : Statement}

/-- One word. -/
theorem located_put (h : ∀ e ∈ c.errors, e.Located source) (hs : s.Located source)
    {item : UInt32 × Checked UInt16}
    (hitem : Checked.Refused item.2 (Faulty s.keyword.position s.operands)) :
    ∀ e ∈ (c.put s item).errors, e.Located source := by
  intro e he
  unfold put at he
  split at he
  · unfold emit at he
    split at he
    · rcases Array.mem_push.mp he with hold | rfl
      · exact h e hold
      · exact hs.keyword.error rfl (.overlap _)
    · exact h e he
  · rename_i errors herrors
    rcases Array.mem_append.mp he with hold | hnew
    · exact h e hold
    · rcases (hitem errors herrors).2 e (List.mem_toArray.mp hnew) with ⟨t, ht, haccused⟩ | ⟨n, hn, rfl⟩
      · exact (hs.operands t ht).accused haccused
      · exact hs.keyword.error rfl (.count hn)

theorem located_statements (l : Layout) {statements : List Statement}
    (h : ∀ e ∈ c.errors, e.Located source) (hstatements : ∀ s ∈ statements, s.Located source) :
    ∀ e ∈ (statements.foldl (Code.statement l) c).errors, e.Located source := by
  induction statements generalizing c with
  | nil => exact h
  | cons s rest ih =>
    rw [List.forall_mem_cons] at hstatements
    refine ih ?_ hstatements.2
    have hitems := s.refused_items l
    unfold Code.statement
    change ∀ e ∈ ((s.items l).foldl (put s) c).errors, e.Located source
    generalize s.items l = items at hitems
    induction items generalizing c with
    | nil => exact h
    | cons item more ihitems =>
      rw [List.forall_mem_cons] at hitems
      exact ihitems (located_put h hstatements.1 hitems.1) hitems.2

end Code

theorem located_of_assemble {errors : List Error} (h : assemble source = .error errors) :
    ∀ e ∈ errors, e = .emptyProgram ∨ e.Located source := by
  have hlayout := Layout.located_ofSource source
  have hcode := Code.located_statements (Layout.ofSource source) (c := {}) (by simp)
    fun s hs => hlayout.statements s (Array.mem_toList_iff.mp hs)
  rw [Array.foldl_toList] at hcode
  intro e he
  unfold assemble at h
  dsimp only at h
  split at h
  · split at h
    · split at h
      · cases h
      · cases h
        exact .inl (List.mem_singleton.mp he)
    · cases h
      exact .inr (hcode e (Array.mem_toList_iff.mp he))
  · cases h
    exact .inr (hlayout.errors e (Array.mem_toList_iff.mp he))

end Asm

/-! ## What is shown -/

namespace Cli.Assemble

open Text

variable {source front piece rest : Bytes}

theorem lineAt_of_lineOf (h : LineOf source front piece rest) :
    ∃ n, piece = lineAt source front.length ++ List.replicate n '\r'.toUInt8 ∧
      (lineAt source front.length).getLast? ≠ some '\r'.toUInt8 := by
  have hline : (source.drop front.length).takeWhile (· != '\n'.toUInt8) = piece := by
    have hinside : ∀ b ∈ piece, (b != '\n'.toUInt8) = true := by
      intro b hb
      rw [bne_iff_ne]
      rintro rfl
      exact h.feed hb
    have hbehind : rest.takeWhile (· != '\n'.toUInt8) = [] := by
      cases rest with
      | nil => rfl
      | cons b more =>
        rw [h.ends b rfl]
        rfl
    rw [h.split, List.drop_left, List.takeWhile_append_of_pos hinside, hbehind, List.append_nil]
  have hreturns : ∀ b ∈ piece.reverse.takeWhile (· == '\r'.toUInt8), b = '\r'.toUInt8 := by
    intro b hb
    have hall := List.all_eq_true.mp (List.all_takeWhile (p := (· == '\r'.toUInt8)) (l := piece.reverse))
    simpa using hall b hb
  have hends := List.head?_dropWhile_not (· == '\r'.toUInt8) piece.reverse
  have hsplit := List.takeWhile_append_dropWhile (p := (· == '\r'.toUInt8)) (l := piece.reverse)
  have hcount := List.eq_replicate_of_mem hreturns
  unfold lineAt
  dsimp only
  rw [hline]
  generalize piece.reverse.takeWhile (· == '\r'.toUInt8) = returned at hsplit hcount
  generalize piece.reverse.dropWhile (· == '\r'.toUInt8) = shown at hends hsplit ⊢
  refine ⟨returned.length, ?_, ?_⟩
  · rw [← List.reverse_reverse piece, ← hsplit, List.reverse_append, hcount, List.reverse_replicate,
      List.length_replicate]
  · rw [List.getLast?_reverse]
    intro hlast
    rw [hlast] at hends
    exact absurd hends (by decide)

theorem underline_eq {p : Asm.Position} {before : Nat} (h : p.byte = p.lineByte + before) :
    underline p =
      String.ofList (List.replicate before ' ' ++ '^' :: List.replicate (p.size - 1) '~') := by
  have hwidth : p.byte - p.lineByte + 1 - "^".length = before := by
    rw [h, Nat.add_sub_cancel_left]
    rfl
  unfold underline padLeft
  rw [hwidth, ← String.toList_inj]
  simp

end Cli.Assemble

/-! ## Where errors point -/

namespace Asm

open Text

theorem Occurs.ne_nil {part : Part} {before text after : Bytes} (h : Occurs part before text after) :
    text ≠ [] := by
  have hplain {seen : Seen} (htext : Plain seen text) : text ≠ [] := by
    rintro rfl
    obtain ⟨b, hb, -⟩ := htext.head
    cases hb
  have hword {seen : Seen} (htext : IsWord seen text after) : text ≠ [] := by
    rcases htext with ⟨htext, -⟩ | ⟨body, -, -, rfl⟩
    · exact hplain htext
    · exact List.append_ne_nil_of_right_ne_nil _ (List.cons_ne_nil _ _)
  cases h with
  | label hbefore htext => exact hplain htext
  | keyword hbefore hseen htext => exact hword htext
  | operand hbefore htext => exact hword htext
  | unclosed hbefore htext => exact htext.ne_nil
  | character => exact List.cons_ne_nil _ _

theorem exists_dropReturn (piece : Bytes) : ∃ ending, piece = dropReturn piece ++ ending := by
  unfold dropReturn
  split
  · rename_i hlast
    obtain ⟨line, rfl⟩ := List.getLast?_eq_some_iff.mp (beq_iff_eq.mp hlast)
    exact ⟨['\r'.toUInt8], by rw [List.dropLast_concat]⟩
  · exact ⟨[], (List.append_nil piece).symm⟩

/-- An error with a position is about a stretch of a line of the source. The position names the line and
the column and has the size of the stretch, but it takes the line to begin too early, by the carriage
returns of the line ends before. If there are none, the bytes at the position are those of the stretch,
and what is shown is the line with marks below the stretch. -/
theorem error_position {source : Bytes} {errors : List Error} {e : Error} {p : Position}
    (h : assemble source = .error errors) (he : e ∈ errors) (hp : e.position? = some p) :
    ∃ front piece rest part before text after,
      LineOf source front piece rest ∧ p.line = front.count '\n'.toUInt8 + 1 ∧
      dropReturn piece = before ++ (text ++ after) ∧ Occurs part before text after ∧
      e.Blames part text ∧ text ≠ [] ∧ p.size = text.length ∧ p.column = before.length + 1 ∧
      p.byte + 1 = p.lineByte + p.column ∧ p.lineByte + returns front = front.length ∧
      (p.lineByte = front.length ↔ returns front = 0) ∧
      (returns front = 0 → (source.drop p.byte).take p.size = text ∧
        ∃ shownLine n, piece = shownLine ++ List.replicate n '\r'.toUInt8 ∧
          shownLine.getLast? ≠ some '\r'.toUInt8 ∧
          Cli.Assemble.shown source e = Bytes.ofString (e.message ++ "\n") ++ shownLine ++
            Bytes.ofString ("\n\x1b[31m" ++ String.ofList (List.replicate before.length ' ' ++
              '^' :: List.replicate (text.length - 1) '~') ++ "\x1b[0m\n")) := by
  have hlocated : e.Located source := by
    rcases located_of_assemble h e he with rfl | hlocated
    · cases hp
    · exact hlocated
  obtain ⟨front, piece, rest, origin, hline, hbegins, part, before, text, after, hsplit, hoccurs,
    hposition, hblames⟩ := hlocated
  obtain rfl : p = origin.position before.length text.length :=
    Option.some.inj (hp.symm.trans hposition)
  have hbyte : origin.byte + returns front = front.length := hbegins.byte
  refine ⟨front, piece, rest, part, before, text, after, hline, hbegins.line, hsplit, hoccurs, hblames,
    hoccurs.ne_nil, rfl, rfl, ?_, hbyte, ?_, ?_⟩
  · exact Nat.add_assoc _ _ _
  · show origin.byte = front.length ↔ _
    omega
  · intro hreturns
    have hfirst : origin.byte = front.length := by omega
    refine ⟨?_, ?_⟩
    · obtain ⟨ending, hpiece⟩ := exists_dropReturn piece
      have hsource : source = (front ++ before) ++ (text ++ (after ++ (ending ++ rest))) := by
        rw [hline.split, hpiece, hsplit]
        simp
      have hbyte : origin.byte + before.length = (front ++ before).length := by
        rw [List.length_append, hfirst]
      show (source.drop (origin.byte + before.length)).take text.length = text
      rw [hbyte, hsource, List.drop_left, List.take_left]
    · obtain ⟨n, hpiece, hlast⟩ := Cli.Assemble.lineAt_of_lineOf hline
      refine ⟨_, n, hpiece, hlast, ?_⟩
      unfold Cli.Assemble.shown
      rw [hp]
      dsimp only
      rw [Cli.Assemble.underline_eq rfl]
      show _ ++ Cli.Assemble.lineAt source origin.byte ++ _ = _
      rw [hfirst]
      rfl

theorem returns_of_not_mem {text : Bytes} (h : '\r'.toUInt8 ∉ text) : returns text = 0 := by
  induction text with
  | nil => rfl
  | cons b rest ih =>
    rw [List.mem_cons, not_or] at h
    have hb : b ≠ '\r'.toUInt8 := Ne.symm h.1
    rw [returns, if_neg fun hboth => hb hboth.1, ih h.2]

theorem assemble_of_layout_errors {source : Bytes} {errors : Array Error}
    (h : (Layout.ofSource source).errors = errors) (herrors : errors.isEmpty = false) :
    assemble source = .error errors.toList := by
  unfold assemble
  dsimp only
  rw [h, if_neg (by simp [herrors])]

/-- A source whose second line has an odd origin. -/
def oddSource : Bytes := Bytes.ofString "nop\n  .org 3 ; odd"

theorem assemble_oddSource : assemble oddSource = .error [.unaligned ⟨2, 8, 11, 1, 4⟩ 3] := by
  have herrors : (Layout.ofSource oddSource).errors = #[.unaligned ⟨2, 8, 11, 1, 4⟩ 3] := by
    decide +kernel
  exact assemble_of_layout_errors herrors rfl

/-- The origin is underlined. -/
theorem oddSource_position : assemble oddSource = .error [.unaligned ⟨2, 8, 11, 1, 4⟩ 3] ∧
    ∃ front piece rest before text after, LineOf oddSource front piece rest ∧
      2 = front.count '\n'.toUInt8 + 1 ∧ dropReturn piece = before ++ (text ++ after) ∧
      Occurs .operand before text after ∧ 1 = text.length ∧ 8 = before.length + 1 ∧
      4 = front.length ∧ (oddSource.drop 11).take 1 = text := by
  refine ⟨assemble_oddSource, ?_⟩
  obtain ⟨front, piece, rest, part, before, text, after, hline, hnumber, hsplit, hoccurs, hblames, -,
    hsize, hcolumn, -, -, hfirst, hshown⟩ :=
    error_position assemble_oddSource List.mem_cons_self rfl
  have hreturns : returns front = 0 := by
    apply returns_of_not_mem
    intro hmem
    have hsource : '\r'.toUInt8 ∈ oddSource := by
      rw [hline.split]
      exact List.mem_append_left _ hmem
    exact absurd hsource (by decide +kernel)
  cases hblames with
  | unaligned =>
    exact ⟨front, piece, rest, before, text, after, hline, hnumber, hsplit, hoccurs, hsize, hcolumn,
      hfirst.mpr hreturns, (hshown hreturns).1⟩

/-- A source with carriage returns before its line feeds. -/
def foreignSource : Bytes := Bytes.ofString "nop\r\nfoo\r\n"

/-- The error of the second line does not point to what it is about, and the line is not shown. -/
theorem foreignSource_position :
    assemble foreignSource = .error [.unknownStatement ⟨2, 1, 4, 3, 4⟩ (Bytes.ofString "foo")] ∧
    LineOf foreignSource (Bytes.ofString "nop\r\n") (Bytes.ofString "foo\r") (Bytes.ofString "\n") ∧
    4 ≠ (Bytes.ofString "nop\r\n").length ∧
    (foreignSource.drop 4).take 3 ≠ Bytes.ofString "foo" ∧
    Cli.Assemble.lineAt foreignSource 4 = [] := by
  refine ⟨?_, ⟨?_, ?_, ?_, ?_⟩, ?_, ?_, ?_⟩
  · have herrors : (Layout.ofSource foreignSource).errors =
        #[.unknownStatement ⟨2, 1, 4, 3, 4⟩ (Bytes.ofString "foo")] := by
      decide +kernel
    exact assemble_of_layout_errors herrors rfl
  · decide +kernel
  · right
    decide +kernel
  · decide +kernel
  · decide +kernel
  · decide +kernel
  · decide +kernel
  · decide +kernel

end Asm

end AvrSim
