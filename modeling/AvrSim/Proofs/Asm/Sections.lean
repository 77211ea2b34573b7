import AvrSim.Proofs.Asm.Outcome
import Mathlib.Data.List.Induction

/-!
# Sections

A section is a stretch of a source that begins with `.org` at a constant address, and in which nothing
depends on names before the second pass. It is laid out in the same way wherever it stands: what comes
before it is kept, and its names and statements are added. Only names of two sections can clash. So the
sections of a source can come in any order.

* `Layout.Joined`: a layout on top of another one; `Layout.Over`: this, or their names clash.
* `Layout.Over.line`: a line keeps it, `Layout.over_section` for a section.
* `Layout.Gathers`: what is laid out is what the sections have each; `Layout.gathers_or_clash`.
* `section_order`: sources with the same sections in different orders.
-/

namespace AvrSim.Asm

/-! ## Lines that need no names -/

/-- A word whose value does not depend on names. -/
def Token.IsConstant (t : Token) : Prop := t.kind = .literal ∨ t.kind = .character

instance (t : Token) : Decidable t.IsConstant := inferInstanceAs (Decidable (_ ∨ _))

/-- The operand whose value the first pass needs: that of `.org`, and the second one of `.equ`. -/
def LineWords.valueOperand? (words : LineWords) : Option Token :=
  match words.tokens with
  | [] => none
  | keyword :: operands =>
    match Layout.mnemonic? keyword, Directive.ofName? keyword.text, operands with
    | none, some .org, [operand] => some operand
    | none, some .equ, [_, operand] => some operand
    | _, _, _ => none

/-- The words of a line, read as the first of a source. -/
def lineWords? (text : Bytes) : Option LineWords := (readLine ⟨1, 0⟩ text).toOption

/-- A value that the first pass needs is a constant. -/
def LineWords.IsSteady (words : LineWords) : Prop :=
  ∀ operand ∈ words.valueOperand?, operand.IsConstant

instance (words : LineWords) : Decidable words.IsSteady :=
  inferInstanceAs (Decidable (∀ operand ∈ words.valueOperand?, operand.IsConstant))

theorem LineWords.valueOperand?_unplaced (words : LineWords) :
    words.unplaced.valueOperand? = words.valueOperand?.map Token.unplaced := by
  obtain ⟨label, _ | ⟨keyword, operands⟩⟩ := words
  · rfl
  · have hmnemonic : Layout.mnemonic? keyword.unplaced = Layout.mnemonic? keyword := rfl
    have htext : keyword.unplaced.text = keyword.text := rfl
    simp only [valueOperand?, unplaced, List.map_cons, hmnemonic, htext]
    rcases operands with _ | ⟨first, _ | ⟨second, _ | _⟩⟩ <;>
      cases Layout.mnemonic? keyword <;> rcases Directive.ofName? keyword.text with _ | _ | _ | _ <;> rfl

theorem LineWords.isSteady_of_unplaced {words words' : LineWords} (h : words'.unplaced = words.unplaced)
    (hsteady : words.IsSteady) : words'.IsSteady := by
  intro operand hoperand
  have hmem : operand.unplaced ∈ words.valueOperand?.map Token.unplaced := by
    rw [← valueOperand?_unplaced, ← h, valueOperand?_unplaced]
    exact Option.mem_map_of_mem _ hoperand
  obtain ⟨other, hother, hsame⟩ := Option.map_eq_some_iff.mp hmem
  have hkind : other.kind = operand.kind := (Token.alike_iff.mpr hsame).kind
  have hconstant := hsteady other hother
  unfold Token.IsConstant at hconstant ⊢
  rwa [hkind] at hconstant

theorem LineWords.of_isOrg {words : LineWords} {operand : Token} (horg : words.isOrg)
    (hoperand : operand ∈ words.valueOperand?) :
    ∃ keyword, words.tokens = [keyword, operand] ∧ Layout.mnemonic? keyword = none ∧
      Directive.ofName? keyword.text = some .org := by
  obtain ⟨label, _ | ⟨keyword, operands⟩⟩ := words
  · cases hoperand
  · simp only [isOrg, Bool.and_eq_true, decide_eq_true_eq] at horg
    obtain ⟨hnone, hdirective⟩ := horg
    simp only [valueOperand?, hnone, hdirective] at hoperand
    refine ⟨keyword, ?_, hnone, hdirective⟩
    rcases operands with _ | ⟨first, _ | _⟩ <;> simp_all

/-- A line with nothing but `.org` and a constant. -/
def OpensSection (text : Bytes) : Prop :=
  ∃ words ∈ lineWords? text, words.label = none ∧ words.isOrg ∧
    ∃ operand ∈ words.valueOperand?, operand.IsConstant

instance (text : Bytes) : Decidable (OpensSection text) :=
  inferInstanceAs (Decidable (∃ words ∈ lineWords? text, words.label = none ∧ words.isOrg ∧
    ∃ operand ∈ words.valueOperand?, operand.IsConstant))

/-- The lines of a section. -/
structure IsSection (lines : List Bytes) : Prop where
  opens : ∃ first ∈ lines.head?, OpensSection first
  steady : ∀ text ∈ lines, ∀ words ∈ lineWords? text, words.IsSteady

/-! ## One layout on top of another -/

namespace Layout

/-- No name of one layout is a name of the other. -/
def Apart (e l : Layout) : Prop := ∀ name ∈ e.symbols, name ∉ l.symbols

/-- Nothing is wrong, and `r` has what `l` has and then what `e` has. -/
structure Joined (l e r : Layout) : Prop where
  below : l.errors = #[]
  above : e.errors = #[]
  clean : r.errors = #[]
  apart : e.Apart l
  address : r.address = e.address
  symbols : ∀ name : Bytes, r.symbols[name]? = e.symbols[name]?.or l.symbols[name]?
  labels : ∀ name : Bytes, r.labels[name]? = e.labels[name]?.or l.labels[name]?
  statements : r.statements.toList.map Statement.unplaced =
    l.statements.toList.map Statement.unplaced ++ e.statements.toList.map Statement.unplaced

/-- Either `e` has been put on top of `l`, or they cannot be joined and an error has been reported. -/
inductive Over (l e r : Layout) : Prop
  | joined (h : Joined l e r)
  | clash (hr : r.errors ≠ #[]) (h : ¬ (l.errors = #[] ∧ e.errors = #[] ∧ e.Apart l))

variable {l e r : Layout}

theorem mnemonic?_of_alike {keyword keyword' : Token} (h : keyword.Alike keyword') :
    mnemonic? keyword = mnemonic? keyword' := by
  unfold mnemonic?
  rw [h.kind, h.text]

theorem report_errors_ne {errors : List Error} (h : errors ≠ []) : (l.report errors).errors ≠ #[] :=
  fun hclean => h (of_report_errors hclean).2

theorem over_report {errors errors' : List Error} (h : errors ≠ []) (h' : errors' ≠ []) :
    Over l (e.report errors) (r.report errors') :=
  .clash (report_errors_ne h') fun hclean => report_errors_ne h hclean.2.1

/-- What does not fit together does not get better. -/
theorem Over.persist {e' r' : Layout} (hr : r.errors ≠ #[])
    (h : ¬ (l.errors = #[] ∧ e.errors = #[] ∧ e.Apart l)) (hr' : r'.errors = #[] → r.errors = #[])
    (he : e'.errors = #[] → e.errors = #[] ∧ ∀ name ∈ e.symbols, name ∈ e'.symbols) :
    Over l e' r' := by
  refine .clash (fun hclean => hr (hr' hclean)) ?_
  rintro ⟨hl, hclean, hapart⟩
  obtain ⟨hbefore, hsymbols⟩ := he hclean
  exact h ⟨hl, hbefore, fun name hname => hapart name (hsymbols name hname)⟩

namespace Joined

theorem mem_symbols (h : Joined l e r) {name : Bytes} :
    name ∈ r.symbols ↔ name ∈ e.symbols ∨ name ∈ l.symbols := by
  simp only [← Std.HashMap.isSome_getElem?_iff_mem, h.symbols, Option.isSome_or, Bool.or_eq_true]

/-- A name is new to the whole if it is new to both. -/
theorem define (h : Joined l e r) {name name' : Token} (hname : name.text = name'.text) (value : Int) :
    Over l (e.define name value) (r.define name' value) := by
  have hiff : name'.text ∈ r.symbols ↔ _ := h.mem_symbols
  unfold Layout.define
  rw [hname]
  by_cases hown : name'.text ∈ e.symbols
  · rw [if_pos (by simpa using hown), if_pos (by simpa using hiff.mpr (.inl hown))]
    exact over_report (List.cons_ne_nil _ _) (List.cons_ne_nil _ _)
  · rw [if_neg (by simpa using hown)]
    by_cases hbelow : name'.text ∈ l.symbols
    · rw [if_pos (by simpa using hiff.mpr (.inr hbelow))]
      refine .clash (report_errors_ne (List.cons_ne_nil _ _)) ?_
      rintro ⟨-, -, hapart⟩
      exact hapart _ Std.HashMap.mem_insert_self hbelow
    · rw [if_neg (by simpa using fun hmem => (hiff.mp hmem).elim hown hbelow)]
      refine .joined { h with apart := ?_, symbols := ?_ }
      · intro other hother
        rcases Std.HashMap.mem_insert.mp hother with hsame | hother
        · rw [← eq_of_beq hsame]
          exact hbelow
        · exact h.apart other hother
      · intro other
        rw [Std.HashMap.getElem?_insert, Std.HashMap.getElem?_insert, h.symbols]
        split
        · rfl
        · rfl

theorem label (h : Joined l e r) {name name' : Token} (hname : name.text = name'.text) :
    Over l (e.label name) (r.label name') := by
  have haddress : (e.address.toNat : Int) = r.address.toNat := by rw [h.address]
  unfold Layout.label
  dsimp only
  rw [hname, ← haddress]
  cases h.define hname e.address.toNat with
  | joined hjoined =>
    refine .joined { hjoined with labels := ?_ }
    intro other
    rw [Std.HashMap.getElem?_insert, Std.HashMap.getElem?_insert, hjoined.labels, hjoined.address]
    split
    · rfl
    · rfl
  | clash hr hclash => exact .clash hr hclash

variable {keyword keyword' : Token} {operands operands' : List Token}

theorem statement (h : Joined l e r) (hkeyword : keyword.Alike keyword')
    (hoperands : List.Forall₂ Token.Alike operands operands') (action : Action) :
    Joined l (e.statement keyword operands action) (r.statement keyword' operands' action) := by
  refine { h with address := ?_, statements := ?_ }
  · have hsize : Statement.size ⟨keyword', operands', r.address, action⟩ =
        Statement.size ⟨keyword, operands, e.address, action⟩ := by
      unfold Statement.size
      cases action with
      | instruction m => rfl
      | words => exact congrArg (2 * ·) hoperands.length_eq.symm
    change r.address + UInt32.ofNat (Statement.size ⟨keyword', operands', r.address, action⟩) = _
    rw [hsize, h.address]
    rfl
  · have hwords := forall₂_alike_iff.mp hoperands
    have hfirst := Token.alike_iff.mp hkeyword
    simp [Layout.statement, h.statements, h.address, Statement.unplaced, hwords, hfirst]

/-- The value of a constant is found or refused in both. -/
theorem agree_constant {operand operand' : Token} (h : operand.Alike operand')
    (hconstant : operand.IsConstant) (low high : Int) :
    Checked.Agree (e.symbols.value operand low high) (r.symbols.value operand' low high) := by
  refine agree_value h (fun hkind => ?_) low high
  rcases hconstant with hconstant | hconstant <;> simp [hconstant] at hkind

end Joined

theorem value_error_ne {symbols : Symbols} {operand : Token} {low high : Int} {errors : List Error}
    (h : symbols.value operand low high = .error errors) : errors ≠ [] :=
  (refused_value symbols operand low high errors h).1

/-! ## The words of a line on top -/

section Words

variable {keyword keyword' : Token} {operands operands' : List Token}

theorem Joined.org (h : Joined l e r) (hoperands : List.Forall₂ Token.Alike operands operands')
    (hconstant : ∀ operand, operands = [operand] → operand.IsConstant) :
    Over l (e.org keyword operands) (r.org keyword' operands') := by
  obtain _ | @⟨operand, operand', _, _, halike, _ | _⟩ := hoperands
  · exact over_report (List.cons_ne_nil _ _) (List.cons_ne_nil _ _)
  · have hvalue : Checked.Agree (e.symbols.value operand 0 0x3FFFFF)
        (r.symbols.value operand' 0 0x3FFFFF) :=
      Joined.agree_constant halike (hconstant operand rfl) 0 0x3FFFFF
    unfold Layout.org
    dsimp only
    obtain ⟨v, hv, hv'⟩ | ⟨errors, errors', herrors, herrors'⟩ := hvalue.cases
    · rw [hv, hv']
      dsimp only
      split
      · exact over_report (List.cons_ne_nil _ _) (List.cons_ne_nil _ _)
      · exact .joined { h with address := rfl }
    · rw [herrors, herrors']
      exact over_report (value_error_ne herrors) (value_error_ne herrors')
  · exact over_report (List.cons_ne_nil _ _) (List.cons_ne_nil _ _)

theorem Joined.equ (h : Joined l e r) (hoperands : List.Forall₂ Token.Alike operands operands')
    (hconstant : ∀ name operand, operands = [name, operand] → operand.IsConstant) :
    Over l (e.equ keyword operands) (r.equ keyword' operands') := by
  have hcount {k k' : Token} {n n' : Nat} :
      Over l (e.report [.operandCount k.position 2 n]) (r.report [.operandCount k'.position 2 n']) :=
    over_report (List.cons_ne_nil _ _) (List.cons_ne_nil _ _)
  obtain _ | @⟨name, name', _, _, hname, _ | @⟨operand, operand', _, _, halike, _ | _⟩⟩ := hoperands
  · exact hcount
  · exact hcount
  · have hvalue : Checked.Agree (e.symbols.value operand (-0x80000000) 0xFFFFFFFF)
        (r.symbols.value operand' (-0x80000000) 0xFFFFFFFF) :=
      Joined.agree_constant halike (hconstant name operand rfl) _ _
    unfold Layout.equ
    dsimp only
    rw [← hname.kind]
    split
    · exact over_report (List.cons_ne_nil _ _) (List.cons_ne_nil _ _)
    · obtain ⟨v, hv, hv'⟩ | ⟨errors, errors', herrors, herrors'⟩ := hvalue.cases
      · rw [hv, hv']
        exact h.define hname.text v
      · rw [herrors, herrors']
        exact over_report (value_error_ne herrors) (value_error_ne herrors')
  · exact hcount

theorem Joined.words (h : Joined l e r) (hkeyword : keyword.Alike keyword')
    (hoperands : List.Forall₂ Token.Alike operands operands')
    (hsteady : LineWords.IsSteady ⟨none, keyword :: operands⟩) :
    Over l (e.words keyword operands) (r.words keyword' operands') := by
  have hmnemonic : mnemonic? keyword' = mnemonic? keyword := mnemonic?_of_alike hkeyword.symm
  unfold Layout.words
  rw [hmnemonic, ← hkeyword.text]
  split
  · exact .joined (h.statement hkeyword hoperands _)
  · rename_i hnone
    split
    · rename_i horg
      refine h.org hoperands ?_
      rintro operand rfl
      exact hsteady operand (by simp [LineWords.valueOperand?, hnone, horg])
    · have hempty : operands'.isEmpty = operands.isEmpty := by
        cases hoperands <;> rfl
      rw [hempty]
      split
      · exact over_report (List.cons_ne_nil _ _) (List.cons_ne_nil _ _)
      · exact .joined (h.statement hkeyword hoperands _)
    · rename_i hequ
      refine h.equ hoperands ?_
      rintro name operand rfl
      exact hsteady operand (by simp [LineWords.valueOperand?, hnone, hequ])
    · exact over_report (List.cons_ne_nil _ _) (List.cons_ne_nil _ _)

theorem Over.words (h : Over l e r) (hkeyword : keyword.Alike keyword')
    (hoperands : List.Forall₂ Token.Alike operands operands')
    (hsteady : LineWords.IsSteady ⟨none, keyword :: operands⟩) :
    Over l (e.words keyword operands) (r.words keyword' operands') := by
  cases h with
  | joined h => exact h.words hkeyword hoperands hsteady
  | clash hr hclash =>
    refine Over.persist hr hclash (fun hclean => (reads_words hclean).clean) fun hclean => ?_
    exact ⟨(reads_words hclean).clean, (reads_words hclean).symbols⟩

end Words

/-! ## Sections on top -/

/-- The effect of the words behind a label. -/
def rest (l : Layout) : List Token → Layout
  | [] => l
  | keyword :: operands => l.words keyword operands

section Read

variable {origin origin' : LineStart} {text : Bytes} {tokens : List Token}

theorem line_unlabelled (h : readLine origin text = .ok ⟨none, tokens⟩) :
    l.line origin text = l.rest tokens := by
  unfold line
  rw [h]
  cases tokens <;> rfl

theorem line_labelled {name : Token} (h : readLine origin text = .ok ⟨some name, tokens⟩) :
    l.line origin text = (l.label name).rest tokens := by
  unfold line
  rw [h]
  cases tokens <;> rfl

theorem Over.rest {tokens' : List Token} (h : Over l e r)
    (htokens : List.Forall₂ Token.Alike tokens tokens') {label : Option Token}
    (hsteady : LineWords.IsSteady ⟨label, tokens⟩) : Over l (e.rest tokens) (r.rest tokens') := by
  cases htokens with
  | nil => exact h
  | cons hkeyword hoperands => exact h.words hkeyword hoperands hsteady

/-- The effect of a line that has been read. -/
theorem Joined.line {words words' : LineWords} (h : Joined l e r)
    (hsame : words'.unplaced = words.unplaced) (hsteady : words.IsSteady)
    (hread : readLine origin text = .ok words) (hread' : readLine origin' text = .ok words') :
    Over l (e.line origin text) (r.line origin' text) := by
  obtain ⟨label, tokens⟩ := words
  obtain ⟨label', tokens'⟩ := words'
  simp only [LineWords.unplaced, LineWords.mk.injEq] at hsame
  obtain ⟨hlabel, htokens⟩ := hsame
  have halike := forall₂_alike_iff.mpr htokens.symm
  cases label with
  | none =>
    rw [Option.map_none, Option.map_eq_none_iff] at hlabel
    rw [hlabel] at hread'
    rw [line_unlabelled hread, line_unlabelled hread']
    exact Over.rest (.joined h) halike hsteady
  | some name =>
    rw [Option.map_some, Option.map_eq_some_iff] at hlabel
    obtain ⟨name', rfl, hname⟩ := hlabel
    rw [line_labelled hread, line_labelled hread']
    exact (h.label (Token.alike_iff.mpr hname.symm).text).rest halike hsteady

end Read

/-- A line that needs no names does the same on top of another layout. -/
theorem Over.line {text : Bytes} (h : Over l e r) (hsteady : ∀ words ∈ lineWords? text, words.IsSteady)
    (origin origin' : LineStart) : Over l (e.line origin text) (r.line origin' text) := by
  cases h with
  | clash hr hclash =>
    refine Over.persist hr hclash (fun hclean => ?_) fun hclean => ?_
    · obtain ⟨_, _, hreads⟩ := reads_line hclean
      exact hreads.clean
    · obtain ⟨_, _, hreads⟩ := reads_line hclean
      exact ⟨hreads.clean, hreads.symbols⟩
  | joined h =>
    cases hread : readLine origin text with
    | error errors =>
      cases hread' : readLine origin' text with
      | error errors' =>
        unfold Layout.line
        rw [hread, hread']
        refine over_report ?_ ?_
        · rintro rfl
          exact readLine_ne_error_nil origin text hread
        · rintro rfl
          exact readLine_ne_error_nil origin' text hread'
      | ok words' =>
        obtain ⟨words, hwords, -⟩ := readLine_elsewhere hread' origin
        rw [hread] at hwords
        cases hwords
    | ok words =>
      obtain ⟨words', hread', hsame⟩ := readLine_elsewhere hread origin'
      obtain ⟨first, hfirst, hfirst'⟩ := readLine_elsewhere hread ⟨1, 0⟩
      have hmem : first ∈ lineWords? text := by
        rw [lineWords?, hfirst]
        rfl
      exact h.line hsame (LineWords.isSteady_of_unplaced hfirst'.symm (hsteady first hmem)) hread hread'

theorem Over.foldl {lines : List Bytes} {origin origin' : LineStart} (h : Over l e r)
    (hsteady : ∀ text ∈ lines, ∀ words ∈ lineWords? text, words.IsSteady) :
    Over l (lines.foldl step (e, origin)).1 (lines.foldl step (r, origin')).1 := by
  induction lines generalizing e r origin origin' with
  | nil => exact h
  | cons text rest ih =>
    rw [List.forall_mem_cons] at hsteady
    exact ih (h.line hsteady.1 origin origin') hsteady.2

/-- The first line of a section is `.org` at the same constant wherever it stands. -/
theorem line_of_opensSection {text : Bytes} (h : OpensSection text) :
    ∃ operand : Token, operand.IsConstant ∧ ∀ (l : Layout) (origin : LineStart), ∃ keyword operand',
      operand'.Alike operand ∧ l.line origin text = l.org keyword [operand'] := by
  obtain ⟨⟨label, tokens⟩, hwords, rfl, horg, operand, hoperand, hconstant⟩ := h
  refine ⟨operand, hconstant, fun l origin => ?_⟩
  obtain ⟨⟨label', tokens'⟩, hread, hsame⟩ :=
    readLine_elsewhere (Checked.eq_ok_of_toOption hwords) origin
  simp only [LineWords.unplaced, Option.map_none, Option.map_eq_none_iff, LineWords.mk.injEq] at hsame
  obtain ⟨rfl, htokens⟩ := hsame
  rw [line_unlabelled hread]
  obtain ⟨keyword, rfl, hnone, hdirective⟩ := LineWords.of_isOrg horg hoperand
  obtain _ | @⟨keyword', _, _, _, hkeyword, _ | ⟨halike, _ | _⟩⟩ := forall₂_alike_iff.mpr htokens
  refine ⟨keyword', _, halike, ?_⟩
  have hmnemonic : mnemonic? keyword' = none := (mnemonic?_of_alike hkeyword).trans hnone
  rw [← hkeyword.text] at hdirective
  simp only [rest, words, hmnemonic, hdirective]

/-- The first line of a section says where it stands, whatever comes before it. -/
theorem over_opensSection {text : Bytes} (h : OpensSection text) (origin origin' : LineStart) :
    Over l (Layout.line {} origin text) (l.line origin' text) := by
  obtain ⟨operand, hconstant, hline⟩ := line_of_opensSection h
  obtain ⟨keyword, first, hfirst, he⟩ := hline {} origin
  obtain ⟨keyword', second, hsecond, hr⟩ := hline l origin'
  by_cases hl : l.errors = #[]
  · have hconstant' : first.IsConstant := by
      unfold Token.IsConstant
      rwa [hfirst.kind]
    have hvalue : Checked.Agree ((∅ : Symbols).value first 0 0x3FFFFF)
        (l.symbols.value second 0 0x3FFFFF) :=
      Joined.agree_constant (e := {}) (hfirst.trans hsecond.symm) hconstant' 0 0x3FFFFF
    rw [he, hr]
    unfold Layout.org
    dsimp only
    obtain ⟨v, hv, hv'⟩ | ⟨errors, errors', herrors, herrors'⟩ := hvalue.cases
    · rw [hv, hv']
      dsimp only
      split
      · exact over_report (List.cons_ne_nil _ _) (List.cons_ne_nil _ _)
      · exact .joined
          { below := hl
            above := rfl
            clean := hl
            apart := fun name hname => absurd hname Std.HashMap.not_mem_empty
            address := rfl
            symbols := by simp
            labels := by simp
            statements := by simp }
    · rw [herrors, herrors']
      exact over_report (value_error_ne herrors) (value_error_ne herrors')
  · refine .clash (fun hclean => ?_) fun h => hl h.1
    obtain ⟨_, _, hreads⟩ := reads_line hclean
    exact hl hreads.clean

/-- The layout of some lines alone. -/
def ofLines (lines : List Bytes) : Layout := (lines.foldl step ({}, ⟨1, 0⟩)).1

theorem ofSource_eq (source : Bytes) : ofSource source = ofLines (Text.lines source).lines := rfl

/-- A section is laid out as if it were alone. -/
theorem over_section {lines : List Bytes} (h : IsSection lines) (origin : LineStart) :
    Over l (ofLines lines) (lines.foldl step (l, origin)).1 := by
  obtain ⟨⟨first, hfirst, hopens⟩, hsteady⟩ := h
  obtain ⟨rest, rfl⟩ := List.head?_eq_some_iff.mp hfirst
  rw [List.forall_mem_cons] at hsteady
  exact (over_opensSection hopens ⟨1, 0⟩ origin).foldl hsteady.2

/-! ## Many sections -/

/-- Each section is fine alone, and no two of them define a name. -/
structure Compatible (sections : List (List Bytes)) : Prop where
  sound : ∀ lines ∈ sections, (ofLines lines).errors = #[]
  apart : sections.Pairwise fun first second => (ofLines first).Apart (ofLines second)

/-- The layout has what the sections have. -/
structure Gathers (sections : List (List Bytes)) (r : Layout) : Prop where
  clean : r.errors = #[]
  known : ∀ name ∈ r.labels, name ∈ r.symbols
  symbols : ∀ (name : Bytes) (value : Int), r.symbols[name]? = some value ↔
    ∃ lines ∈ sections, (ofLines lines).symbols[name]? = some value
  labels : ∀ (name : Bytes) (address : UInt32), r.labels[name]? = some address ↔
    ∃ lines ∈ sections, (ofLines lines).labels[name]? = some address
  statements : r.statements.toList.map Statement.unplaced =
    sections.flatMap fun lines => (ofLines lines).statements.toList.map Statement.unplaced

theorem Apart.symm (h : e.Apart l) : l.Apart e := fun name hname hname' => h name hname' hname

theorem Gathers.mem_symbols {sections : List (List Bytes)} (h : Gathers sections r) {name : Bytes} :
    name ∈ r.symbols ↔ ∃ lines ∈ sections, name ∈ (ofLines lines).symbols := by
  simp only [← Std.HashMap.isSome_getElem?_iff_mem, Option.isSome_iff_exists, h.symbols]
  exact ⟨fun ⟨v, lines, hlines, hv⟩ => ⟨lines, hlines, v, hv⟩,
    fun ⟨lines, hlines, v, hv⟩ => ⟨v, lines, hlines, hv⟩⟩

theorem Compatible.perm {sections order : List (List Bytes)} (h : Compatible sections)
    (hperm : sections.Perm order) : Compatible order :=
  ⟨fun lines hlines => h.sound lines (hperm.mem_iff.mpr hlines),
    hperm.pairwise h.apart Apart.symm⟩

theorem compatible_snoc {sections : List (List Bytes)} {lines : List Bytes} (hl : Gathers sections l) :
    Compatible (sections ++ [lines]) ↔
      Compatible sections ∧ (ofLines lines).errors = #[] ∧ (ofLines lines).Apart l := by
  constructor
  · rintro ⟨hsound, hapart⟩
    rw [List.pairwise_append] at hapart
    refine ⟨⟨fun other hother => hsound other (by simp [hother]), hapart.1⟩, hsound lines (by simp), ?_⟩
    intro name hname hbelow
    obtain ⟨other, hother, hmem⟩ := hl.mem_symbols.mp hbelow
    exact hapart.2.2 other hother lines (List.mem_singleton_self _) name hmem hname
  · rintro ⟨⟨hsound, hapart⟩, hclean, hlines⟩
    refine ⟨?_, List.pairwise_append.mpr ⟨hapart, List.pairwise_singleton _ _, ?_⟩⟩
    · intro other hother
      rcases List.mem_append.mp hother with hother | hother
      · exact hsound other hother
      · rw [List.mem_singleton.mp hother]
        exact hclean
    · intro other hother _ hlast
      rw [List.mem_singleton.mp hlast]
      exact fun name hname hown => hlines name hown (hl.mem_symbols.mpr ⟨other, hother, hname⟩)

theorem known_ofLines {lines : List Bytes} (h : (ofLines lines).errors = #[]) :
    ∀ name ∈ (ofLines lines).labels, name ∈ (ofLines lines).symbols :=
  Follows.known (follows_rows h) (by simp)

theorem or_eq_some_of_apart {α : Type} {x y : Option α} {a : α} (h : x.isSome → y = none) :
    x.or y = some a ↔ y = some a ∨ x = some a := by
  cases x with
  | none => simp
  | some b => simp [h rfl]

/-- A section more. -/
theorem Gathers.snoc {sections : List (List Bytes)} {lines : List Bytes} (hl : Gathers sections l)
    (h : Joined l (ofLines lines) r) : Gathers (sections ++ [lines]) r := by
  have hown := known_ofLines h.above
  have hsymbols (name : Bytes) (hname : (ofLines lines).symbols[name]?.isSome) :
      l.symbols[name]? = none :=
    Std.HashMap.getElem?_eq_none (h.apart name (Std.HashMap.isSome_getElem?_iff_mem.mp hname))
  have hlabels (name : Bytes) (hname : (ofLines lines).labels[name]?.isSome) :
      l.labels[name]? = none := by
    have hmem := hown name (Std.HashMap.isSome_getElem?_iff_mem.mp hname)
    exact Std.HashMap.getElem?_eq_none fun hbelow => h.apart name hmem (hl.known name hbelow)
  constructor
  case clean => exact h.clean
  case known =>
    intro name hname
    rw [← Std.HashMap.isSome_getElem?_iff_mem, h.labels, Option.isSome_or, Bool.or_eq_true,
      Std.HashMap.isSome_getElem?_iff_mem, Std.HashMap.isSome_getElem?_iff_mem] at hname
    rcases hname with hname | hname
    · exact h.mem_symbols.mpr (.inl (hown name hname))
    · exact h.mem_symbols.mpr (.inr (hl.known name hname))
  case symbols =>
    intro name value
    rw [h.symbols, or_eq_some_of_apart (hsymbols name), hl.symbols]
    simp [or_and_right, exists_or]
  case labels =>
    intro name address
    rw [h.labels, or_eq_some_of_apart (hlabels name), hl.labels]
    simp [or_and_right, exists_or]
  case statements =>
    rw [h.statements, hl.statements]
    simp

/-- Sections that are compatible are gathered, and others have no layout without errors. -/
theorem gathers_or_clash {sections : List (List Bytes)} (h : ∀ lines ∈ sections, IsSection lines) :
    Compatible sections ∧ Gathers sections (ofLines sections.flatten) ∨
      ¬ Compatible sections ∧ (ofLines sections.flatten).errors ≠ #[] := by
  induction sections using List.reverseRecOn with
  | nil =>
    left
    refine ⟨⟨nofun, List.Pairwise.nil⟩, rfl, ?_, ?_, ?_, rfl⟩
    all_goals simp [ofLines]
  | append_singleton sections lines ih =>
    have hover : Over (ofLines sections.flatten) (ofLines lines)
        (ofLines (sections ++ [lines]).flatten) := by
      unfold ofLines
      rw [List.flatten_append, List.flatten_singleton, List.foldl_append]
      exact over_section (h lines (by simp)) _
    have hfront := ih fun other hother => h other (by simp [hother])
    cases hover with
    | joined hjoined =>
      obtain ⟨hcompatible, hgathers⟩ | ⟨-, hdirty⟩ := hfront
      · exact .inl ⟨(compatible_snoc hgathers).mpr ⟨hcompatible, hjoined.above, hjoined.apart⟩,
          hgathers.snoc hjoined⟩
      · exact absurd hjoined.below hdirty
    | clash hdirty hclash =>
      refine .inr ⟨fun hcompatible => ?_, hdirty⟩
      have hsub : Compatible sections :=
        ⟨fun other hother => hcompatible.sound other (by simp [hother]),
          (List.pairwise_append.mp hcompatible.apart).1⟩
      obtain ⟨-, hgathers⟩ | ⟨hno, -⟩ := hfront
      · obtain ⟨-, hclean, hapart⟩ := (compatible_snoc hgathers).mp hcompatible
        exact hclash ⟨hgathers.clean, hclean, hapart⟩
      · exact hno hsub

end Layout

/-! ## Sources made of sections -/

/-- The source has no line that is too long, and its lines are those of the sections. -/
structure Consists (source : Bytes) (sections : List (List Bytes)) : Prop where
  short : ∀ piece ∈ Text.pieces source, piece.length < Text.lineLimit
  lines : (Text.pieces source).map Text.dropReturn = sections.flatten
  isSection : ∀ lines ∈ sections, IsSection lines

section Sources

variable {s t : Bytes} {sections order : List (List Bytes)}

theorem Consists.ofSource (h : Consists s sections) :
    Layout.ofSource s = Layout.ofLines sections.flatten := by
  rw [Layout.ofSource_eq, Text.lines_of_short h.short, h.lines]

theorem Consists.gathers (h : Consists s sections) (hclean : (Layout.ofSource s).errors = #[]) :
    Layout.Compatible sections ∧ Layout.Gathers sections (Layout.ofSource s) := by
  rw [h.ofSource] at hclean ⊢
  obtain hgathers | ⟨-, hdirty⟩ := Layout.gathers_or_clash h.isSection
  · exact hgathers
  · exact absurd hclean hdirty

theorem Consists.gathers_of_compatible (h : Consists s sections)
    (hsections : Layout.Compatible sections) : Layout.Gathers sections (Layout.ofSource s) := by
  rw [h.ofSource]
  obtain ⟨-, hgathers⟩ | ⟨hno, -⟩ := Layout.gathers_or_clash h.isSection
  · exact hgathers
  · exact absurd hsections hno

/-- Sections can be written one after another. -/
theorem consists_flatMap (h : ∀ lines ∈ sections, IsSection lines)
    (hlines : ∀ line ∈ sections.flatten, Text.IsLine line) :
    Consists (sections.flatten.flatMap (· ++ ['\n'.toUInt8])) sections := by
  have hpieces := Text.pieces_flatMap fun line hline => (hlines line hline).feed
  refine ⟨?_, ?_, h⟩
  · rw [hpieces]
    exact fun line hline => (hlines line hline).short
  · rw [hpieces, List.map_congr_left fun line hline => (hlines line hline).dropReturn_eq, List.map_id']

/-- Layouts of the same sections know the same names and have the same words. -/
theorem Layout.Gathers.same {l l' : Layout} (h : Gathers sections l) (h' : Gathers order l')
    (hperm : sections.Perm order) : l.SameNames l' ∧ l.SameItems l' := by
  have hnames : l.SameNames l' := by
    constructor
    · intro name
      apply Option.ext
      intro value
      rw [h.symbols, h'.symbols]
      simp only [hperm.mem_iff]
    · intro name
      apply Option.ext
      intro address
      rw [h.labels, h'.labels]
      simp only [hperm.mem_iff]
  refine ⟨hnames, sameItems_of_perm hnames ?_⟩
  rw [h.statements, h'.statements]
  exact hperm.flatMap_right _

/-- A source keeps its program when its sections change their order. -/
theorem Consists.reorder (hs : Consists s sections) (ht : Consists t order)
    (hperm : sections.Perm order) {p : Program} (hp : assemble s = .ok p) :
    ∃ q, assemble t = .ok q := by
  obtain ⟨hclean, hplaceable⟩ := exists_assemble_iff.mp ⟨p, hp⟩
  obtain ⟨hcompatible, hgathers⟩ := hs.gathers hclean
  have hgathers' := ht.gathers_of_compatible (hcompatible.perm hperm)
  obtain ⟨-, hitems⟩ := hgathers.same hgathers' hperm
  exact exists_assemble_iff.mpr ⟨hgathers'.clean, hitems.placeable hplaceable⟩

/-- The order of sections does not matter: if two sources have the same sections in different orders,
both have a program or none has, and the programs have the same bytes and labels. -/
theorem section_order (hs : Consists s sections) (ht : Consists t order)
    (hperm : sections.Perm order) :
    ((∃ p, assemble s = .ok p) ↔ ∃ q, assemble t = .ok q) ∧
    ∀ p q, assemble s = .ok p → assemble t = .ok q →
      p.base = q.base ∧ p.data = q.data ∧ ∀ name : Bytes, p.labels[name]? = q.labels[name]? := by
  refine ⟨⟨fun ⟨_, hp⟩ => hs.reorder ht hperm hp, fun ⟨_, hq⟩ => ht.reorder hs hperm.symm hq⟩, ?_⟩
  intro p q hp hq
  obtain ⟨-, hgathers⟩ := hs.gathers (shows_of_assemble hp).1
  obtain ⟨-, hgathers'⟩ := ht.gathers (shows_of_assemble hq).1
  obtain ⟨hnames, hitems⟩ := hgathers.same hgathers' hperm
  obtain ⟨hbase, hdata⟩ := image_of_sameItems hitems hp hq
  refine ⟨hbase, hdata, fun name => ?_⟩
  rw [(shows_of_assemble hp).2.1, (shows_of_assemble hq).2.1]
  exact hnames.labels name

end Sources

/-- A section with a name that is defined in the other one. -/
def entrySection : List Bytes := [Bytes.ofString ".org 0", Bytes.ofString ".word goal"]

/-- A section with a label. -/
def goalSection : List Bytes := [Bytes.ofString ".org 4", Bytes.ofString "goal: .word 4660"]

/-- The sections one after another. -/
def sectionsSource (sections : List (List Bytes)) : Bytes :=
  sections.flatten.flatMap (· ++ ['\n'.toUInt8])

/-- The words of the source. -/
def goalLabel : Token := ⟨.identifier, ⟨4, 1, 25, 4, 25⟩, Bytes.ofString "goal"⟩

def goalNumber : Token := ⟨.literal, ⟨4, 13, 37, 4, 25⟩, Bytes.ofString "4660"⟩

def entryOperand : Token := ⟨.identifier, ⟨2, 7, 13, 4, 7⟩, Bytes.ofString "goal"⟩

def originAt (line byte : Nat) (digit : String) : Token :=
  ⟨.literal, ⟨line, 6, byte + 5, 1, byte⟩, Bytes.ofString digit⟩

/-- The statements of the source. -/
def entryStatement : Statement :=
  ⟨⟨.directive, ⟨2, 1, 7, 5, 7⟩, Bytes.ofString ".word"⟩, [entryOperand], 0, .words⟩

def goalStatement : Statement :=
  ⟨⟨.directive, ⟨4, 7, 31, 5, 25⟩, Bytes.ofString ".word"⟩, [goalNumber], 4, .words⟩

theorem consists_sectionsSource {sections : List (List Bytes)}
    (h : ∀ lines ∈ sections, lines = entrySection ∨ lines = goalSection) :
    Consists (sectionsSource sections) sections := by
  have hsections : IsSection entrySection ∧ IsSection goalSection := by
    refine ⟨⟨⟨_, rfl, ?_⟩, ?_⟩, ⟨⟨_, rfl, ?_⟩, ?_⟩⟩ <;> decide +kernel
  have hlines : ∀ line ∈ entrySection ++ goalSection,
      '\n'.toUInt8 ∉ line ∧ line.getLast? ≠ some '\r'.toUInt8 ∧ line.length < Text.lineLimit := by
    decide +kernel
  refine consists_flatMap (fun lines hmem => ?_) fun line hline => ?_
  · rcases h lines hmem with rfl | rfl
    · exact hsections.1
    · exact hsections.2
  · obtain ⟨lines, hmem, hline⟩ := List.mem_flatten.mp hline
    have hline' : line ∈ entrySection ++ goalSection := by
      rcases h lines hmem with rfl | rfl
      · exact List.mem_append_left _ hline
      · exact List.mem_append_right _ hline
    obtain ⟨hfeed, hending, hshort⟩ := hlines line hline'
    exact ⟨hfeed, hending, hshort⟩

theorem words_sectionsSource :
    (Text.lines (sectionsSource [entrySection, goalSection])).lines = entrySection ++ goalSection ∧
    readLine ⟨1, 0⟩ (Bytes.ofString ".org 0") =
      .ok ⟨none, [⟨.directive, ⟨1, 1, 0, 4, 0⟩, Bytes.ofString ".org"⟩, originAt 1 0 "0"]⟩ ∧
    readLine ⟨2, 7⟩ (Bytes.ofString ".word goal") =
      .ok ⟨none, [entryStatement.keyword, entryOperand]⟩ ∧
    readLine ⟨3, 18⟩ (Bytes.ofString ".org 4") =
      .ok ⟨none, [⟨.directive, ⟨3, 1, 18, 4, 18⟩, Bytes.ofString ".org"⟩, originAt 3 18 "4"]⟩ ∧
    readLine ⟨4, 25⟩ (Bytes.ofString "goal: .word 4660") =
      .ok ⟨some goalLabel, [goalStatement.keyword, goalNumber]⟩ ∧
    Layout.nextLine ⟨1, 0⟩ (Bytes.ofString ".org 0") = ⟨2, 7⟩ ∧
    Layout.nextLine ⟨2, 7⟩ (Bytes.ofString ".word goal") = ⟨3, 18⟩ ∧
    Layout.nextLine ⟨3, 18⟩ (Bytes.ofString ".org 4") = ⟨4, 25⟩ ∧
    Directive.ofName? (Bytes.ofString ".org") = some .org ∧
    Directive.ofName? (Bytes.ofString ".word") = some .word ∧
    (originAt 1 0 "0").literal? = some 0 ∧ (originAt 3 18 "4").literal? = some 4 ∧
    goalNumber.literal? = some 0x1234 := by
  decide +kernel

/-- The layout of the source. -/
def sectionsLayout : Layout where
  symbols := (∅ : Symbols).insert goalLabel.text 4
  labels := (∅ : Std.HashMap Bytes UInt32).insert goalLabel.text 4
  statements := #[entryStatement, goalStatement]
  address := 6

theorem ofSource_sectionsSource :
    Layout.ofSource (sectionsSource [entrySection, goalSection]) = sectionsLayout := by
  obtain ⟨hlines, hzero, hentry, hfour, hgoal, hsecond, hthird, hfourth, horg, hword, hzeroValue,
    hfourValue, -⟩ := words_sectionsSource
  have hfirst : Layout.line {} ⟨1, 0⟩ (Bytes.ofString ".org 0") = {} :=
    Layout.line_org hzero rfl horg (value_of_literal rfl hzeroValue (by decide) (by decide)) rfl
  have hnext : Layout.line {} ⟨2, 7⟩ (Bytes.ofString ".word goal") =
      { statements := #[entryStatement], address := 2 } := by
    have hmnemonic : Layout.mnemonic? entryStatement.keyword = none := rfl
    have hdirective : Directive.ofName? entryStatement.keyword.text = some .word := hword
    simp only [Layout.line, hentry, Layout.words, hmnemonic, hdirective]
    rfl
  have hmove : Layout.line { statements := #[entryStatement], address := 2 } ⟨3, 18⟩
      (Bytes.ofString ".org 4") = { statements := #[entryStatement], address := 4 } :=
    Layout.line_org hfour rfl horg (value_of_literal rfl hfourValue (by decide) (by decide)) rfl
  have hlast : Layout.line { statements := #[entryStatement], address := 4 } ⟨4, 25⟩
      (Bytes.ofString "goal: .word 4660") = sectionsLayout := by
    have hmnemonic : Layout.mnemonic? goalStatement.keyword = none := rfl
    have hdirective : Directive.ofName? goalStatement.keyword.text = some .word := hword
    have hlabel : Layout.label { statements := #[entryStatement], address := 4 } goalLabel =
        { symbols := (∅ : Symbols).insert goalLabel.text 4
          labels := (∅ : Std.HashMap Bytes UInt32).insert goalLabel.text 4
          statements := #[entryStatement]
          address := 4 } := by
      simp [Layout.label, Layout.define]
    simp only [Layout.line, hgoal, hlabel, Layout.words, hmnemonic, hdirective]
    rfl
  unfold Layout.ofSource
  rw [hlines]
  simp only [entrySection, goalSection, List.cons_append, List.nil_append, List.foldl_cons,
    List.foldl_nil, hfirst, hsecond, hnext, hthird, hmove, hfourth, hlast]

theorem items_sectionsLayout : sectionsLayout.items = [(0, .ok 2), (4, .ok 0x1234)] := by
  obtain ⟨-, -, -, -, -, -, -, -, -, -, -, -, hnumber⟩ := words_sectionsSource
  have hlabel : sectionsLayout.labels[entryOperand.text]? = some 4 := by
    rw [sectionsLayout, Std.HashMap.getElem?_insert, if_pos (by decide +kernel)]
  have hentry : sectionsLayout.wordValue entryOperand = .ok 2 := by
    unfold Layout.wordValue
    rw [if_pos (show entryOperand.kind = .identifier from rfl), hlabel]
    rfl
  have hgoal : sectionsLayout.wordValue goalNumber = .ok 0x1234 := by
    have hvalue : sectionsLayout.symbols.value goalNumber (-0x8000) 0xFFFF = .ok 0x1234 :=
      value_of_literal rfl hnumber (by decide) (by decide)
    unfold Layout.wordValue
    rw [if_neg (by decide), hvalue]
    rfl
  have hstatements : sectionsLayout.statements.toList = [entryStatement, goalStatement] := rfl
  simp [Layout.items, hstatements, Statement.items, entryStatement, goalStatement, placed, hentry, hgoal]

theorem section_order_swapped :
    ∃ p q, assemble (sectionsSource [entrySection, goalSection]) = .ok p ∧
      assemble (sectionsSource [goalSection, entrySection]) = .ok q ∧
      p.base = q.base ∧ p.data = q.data ∧ ∀ name : Bytes, p.labels[name]? = q.labels[name]? := by
  have hs : Consists (sectionsSource [entrySection, goalSection]) [entrySection, goalSection] :=
    consists_sectionsSource (by simp)
  have ht : Consists (sectionsSource [goalSection, entrySection]) [goalSection, entrySection] :=
    consists_sectionsSource (by simp)
  obtain ⟨hiff, hsame⟩ := section_order hs ht (List.Perm.swap _ _ _)
  have hplaceable : sectionsLayout.Placeable := by
    refine ⟨?_, ?_, ?_⟩ <;> rw [items_sectionsLayout]
    · simp
    · decide
    · simp
  obtain ⟨p, hp⟩ := exists_assemble_iff.mpr ⟨congrArg Layout.errors ofSource_sectionsSource,
    ofSource_sectionsSource ▸ hplaceable⟩
  obtain ⟨q, hq⟩ := hiff.mp ⟨p, hp⟩
  exact ⟨p, q, hp, hq, hsame p q hp hq⟩

end AvrSim.Asm
