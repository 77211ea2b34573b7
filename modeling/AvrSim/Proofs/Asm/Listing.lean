import AvrSim.Asm.Program

/-!
# The listing of a source

A row of a listing is a line of the source with its place and the address that was reached before it. If
the first pass reports nothing, every row has been understood: the statements are those of the rows, one
after another, and the labels those of the rows, each at the address of its row. Addresses move by the
size of a statement, by `.org`, and by nothing else.

* `Layout.Reads` is the effect of a line, `Layout.Follows` that of a sequence of rows.
* `Layout.follows_listing`: a source whose first pass reports nothing follows its listing.
* `Follows.statements`, `Follows.labels` and `Follows.address_quiet` read the result off the rows.
-/

namespace AvrSim.Asm

/-! ## Rows -/

/-- What a statement with this first word puts into memory, if anything. -/
def action? (keyword : Token) : Option Action :=
  match Layout.mnemonic? keyword with
  | some m => some (.instruction m)
  | none => if Directive.ofName? keyword.text = some .word then some .words else none

namespace LineWords

/-- The statement of a line that stands at `address`. -/
def statement? (words : LineWords) (address : UInt32) : Option Statement :=
  match words.tokens with
  | [] => none
  | keyword :: operands => (action? keyword).map fun action => ⟨keyword, operands, address, action⟩

/-- Whether a line continues at another address. -/
def isOrg (words : LineWords) : Bool :=
  match words.tokens with
  | [] => false
  | keyword :: _ =>
    Layout.mnemonic? keyword = none && Directive.ofName? keyword.text = some .org

end LineWords

/-- A line of a source: where it begins, the address reached before it and its text. -/
structure Row where
  origin : LineStart
  address : UInt32
  text : Bytes
  deriving DecidableEq, Repr

namespace Row

/-- The label and the words of the line, if nothing is wrong with them. -/
def words? (r : Row) : Option LineWords := (readLine r.origin r.text).toOption

/-- The name of the label of the line. -/
def label? (r : Row) : Option Bytes := r.words?.bind fun words => words.label.map Token.text

/-- The instruction or `.word` statement of the line. -/
def statement? (r : Row) : Option Statement := r.words?.bind fun words => words.statement? r.address

/-- Whether the line is understood and leaves the address as it is. -/
def isQuiet (r : Row) : Bool :=
  match r.words? with
  | none => false
  | some words => (words.statement? r.address).isNone && !words.isOrg

end Row

namespace Layout

/-- Reads a line: the layout and where the next line begins. -/
def step (state : Layout × LineStart) (text : Bytes) : Layout × LineStart :=
  (state.1.line state.2 text, nextLine state.2 text)

/-- The rows of lines that are read one after another. -/
def rows : Layout × LineStart → List Bytes → List Row
  | _, [] => []
  | state, text :: rest => ⟨state.2, state.1.address, text⟩ :: rows (step state text) rest

end Layout

/-- The listing of a source: the lines that are read from it, in order. -/
def listing (source : Bytes) : List Row := Layout.rows ({}, ⟨1, 0⟩) (Text.lines source).lines

namespace Layout

theorem map_text_rows (state : Layout × LineStart) (lines : List Bytes) :
    (rows state lines).map Row.text = lines := by
  induction lines generalizing state with
  | nil => rfl
  | cons text rest ih => rw [rows, List.map_cons, ih]

/-! ## The effect of a line -/

/-- What a line with these words makes of a layout if nothing is wrong. -/
structure Reads (l : Layout) (words : LineWords) (after : Layout) : Prop where
  clean : l.errors = #[]
  statements :
    after.statements.toList = l.statements.toList ++ (words.statement? l.address).toList
  size : ∀ s, words.statement? l.address = some s → after.address = l.address + UInt32.ofNat s.size
  quiet : words.statement? l.address = none → words.isOrg = false → after.address = l.address
  labels : after.labels = match words.label with
    | some name => l.labels.insert name.text l.address
    | none => l.labels
  fresh : ∀ name, words.label = some name → name.text ∉ l.symbols ∧ name.text ∈ after.symbols
  symbols : ∀ name ∈ l.symbols, name ∈ after.symbols

variable {l : Layout}

theorem of_report_errors {errors : List Error} (h : (l.report errors).errors = #[]) :
    l.errors = #[] ∧ errors = [] := by
  simpa [report] using h

theorem of_define_errors {name : Token} {value : Int} (h : (l.define name value).errors = #[]) :
    l.errors = #[] ∧ name.text ∉ l.symbols ∧
      l.define name value = { l with symbols := l.symbols.insert name.text value } := by
  unfold define at h ⊢
  split at h
  · exact absurd (of_report_errors h).2 (List.cons_ne_nil _ _)
  · rename_i hnew
    rw [if_neg hnew]
    exact ⟨h, by simpa using hnew, rfl⟩

/-- A line that only defines names, or nothing at all. -/
theorem reads_of_frame {after : Layout} {tokens : List Token} (hclean : l.errors = #[])
    (hnone : LineWords.statement? ⟨none, tokens⟩ l.address = none)
    (hstatements : after.statements = l.statements) (hlabels : after.labels = l.labels)
    (haddress : LineWords.isOrg ⟨none, tokens⟩ = false → after.address = l.address)
    (hsymbols : ∀ name ∈ l.symbols, name ∈ after.symbols) : l.Reads ⟨none, tokens⟩ after where
  clean := hclean
  statements := by rw [hnone, hstatements]; simp
  size s hs := by rw [hnone] at hs; cases hs
  quiet _ horg := haddress horg
  labels := hlabels
  fresh name hname := by cases hname
  symbols := hsymbols

theorem reads_statement {keyword : Token} {operands : List Token} {action : Action}
    (haction : action? keyword = some action)
    (h : (l.statement keyword operands action).errors = #[]) :
    l.Reads ⟨none, keyword :: operands⟩ (l.statement keyword operands action) where
  clean := h
  statements := by simp [statement, LineWords.statement?, haction]
  size s hs := by
    simp only [LineWords.statement?, haction, Option.map_some, Option.some.injEq] at hs
    rw [← hs]
    rfl
  quiet hnone := by simp [LineWords.statement?, haction] at hnone
  labels := rfl
  fresh name hname := by cases hname
  symbols name hname := hname

section Directives

variable {keyword : Token} {operands : List Token}

theorem reads_org (haction : action? keyword = none)
    (horg : LineWords.isOrg ⟨none, keyword :: operands⟩ = true)
    (h : (l.org keyword operands).errors = #[]) :
    l.Reads ⟨none, keyword :: operands⟩ (l.org keyword operands) := by
  have hnone : LineWords.statement? ⟨none, keyword :: operands⟩ l.address = none := by
    simp [LineWords.statement?, haction]
  have hmoves : ∀ after : Layout, LineWords.isOrg ⟨none, keyword :: operands⟩ = false →
      after.address = l.address := by
    intro after hfalse
    rw [horg] at hfalse
    cases hfalse
  unfold org at h ⊢
  split at h
  · split at h
    · exact reads_of_frame (of_report_errors h).1 hnone rfl rfl (hmoves _) fun _ => id
    · split at h
      · exact absurd (of_report_errors h).2 (List.cons_ne_nil _ _)
      · rename_i heven
        rw [if_neg heven]
        exact reads_of_frame h hnone rfl rfl (hmoves _) fun _ => id
  · exact absurd (of_report_errors h).2 (List.cons_ne_nil _ _)

theorem reads_equ (haction : action? keyword = none) (h : (l.equ keyword operands).errors = #[]) :
    l.Reads ⟨none, keyword :: operands⟩ (l.equ keyword operands) := by
  have hnone : LineWords.statement? ⟨none, keyword :: operands⟩ l.address = none := by
    simp [LineWords.statement?, haction]
  unfold equ at h ⊢
  split at h
  · split at h
    · exact absurd (of_report_errors h).2 (List.cons_ne_nil _ _)
    · rename_i hkind
      rw [if_neg hkind]
      split at h
      · exact reads_of_frame (of_report_errors h).1 hnone rfl rfl (fun _ => rfl) fun _ => id
      · obtain ⟨hclean, -, hdefine⟩ := of_define_errors h
        rw [hdefine]
        exact reads_of_frame hclean hnone rfl rfl (fun _ => rfl) fun name hname =>
          Std.HashMap.mem_insert.mpr (.inr hname)
  · exact absurd (of_report_errors h).2 (List.cons_ne_nil _ _)

theorem reads_words (h : (l.words keyword operands).errors = #[]) :
    l.Reads ⟨none, keyword :: operands⟩ (l.words keyword operands) := by
  unfold words at h ⊢
  split at h
  · rename_i m hm
    exact reads_statement (by simp [action?, hm]) h
  · rename_i hm
    split at h
    · rename_i hdirective
      exact reads_org (by simp [action?, hm, hdirective]) (by simp [LineWords.isOrg, hm, hdirective]) h
    · rename_i hdirective
      split at h
      · exact absurd (of_report_errors h).2 (List.cons_ne_nil _ _)
      · rename_i hne
        rw [if_neg hne]
        exact reads_statement (by simp [action?, hm, hdirective]) h
    · rename_i hdirective
      exact reads_equ (by simp [action?, hm, hdirective]) h
    · exact absurd (of_report_errors h).2 (List.cons_ne_nil _ _)

end Directives

theorem reads_nil (h : l.errors = #[]) : l.Reads ⟨none, []⟩ l :=
  reads_of_frame h rfl rfl rfl (fun _ => rfl) fun _ => id

/-- A label takes the address at which the rest of its line stands. -/
theorem Reads.labelled {after : Layout} {name : Token} {tokens : List Token}
    (h : (l.label name).Reads ⟨none, tokens⟩ after) : l.Reads ⟨some name, tokens⟩ after := by
  have hdefined : (l.define name l.address.toNat).errors = #[] := h.clean
  obtain ⟨hclean, hnew, hdefine⟩ := of_define_errors hdefined
  have hlabel : l.label name =
      { l with
        symbols := l.symbols.insert name.text l.address.toNat
        labels := l.labels.insert name.text l.address } := by
    unfold label
    rw [hdefine]
  rw [hlabel] at h
  exact
    { clean := hclean
      statements := h.statements
      size := h.size
      quiet := h.quiet
      labels := h.labels
      fresh := by
        rintro _ ⟨⟩
        exact ⟨hnew, h.symbols _ Std.HashMap.mem_insert_self⟩
      symbols := fun other hother => h.symbols _ (Std.HashMap.mem_insert.mpr (.inr hother)) }

theorem readLine_ne_error_nil (origin : LineStart) (text : Bytes) :
    readLine origin text ≠ .error [] := by
  unfold readLine
  dsimp only
  split
  · exact nofun
  · rename_i herrors
    intro h
    apply herrors
    simpa using h

/-- A line with `.org` at an even address. -/
theorem line_org {origin : LineStart} {text : Bytes} {keyword operand : Token} {address : UInt32}
    (hread : readLine origin text = .ok ⟨none, [keyword, operand]⟩)
    (hmnemonic : mnemonic? keyword = none) (hdirective : Directive.ofName? keyword.text = some .org)
    (hvalue : l.symbols.value operand 0 0x3FFFFF = .ok (address.toNat : Int))
    (heven : address.toNat % 2 = 0) : l.line origin text = { l with address } := by
  have hnot : ¬ ((address.toNat : Int) % 2 ≠ 0) := by omega
  simp only [line, hread, words, hmnemonic, hdirective, org, hvalue, if_neg hnot, Int.toNat_natCast,
    UInt32.ofNat_toNat]

/-- A line after which nothing has been reported was understood. -/
theorem reads_line {origin : LineStart} {text : Bytes} (h : (l.line origin text).errors = #[]) :
    ∃ words, readLine origin text = .ok words ∧ l.Reads words (l.line origin text) := by
  unfold line at h ⊢
  split at h
  · rename_i errors herror
    rw [(of_report_errors h).2] at herror
    exact absurd herror (readLine_ne_error_nil origin text)
  · rename_i words hwords
    refine ⟨words, hwords, ?_⟩
    obtain ⟨_ | name, _ | ⟨keyword, operands⟩⟩ := words
    · exact reads_nil h
    · exact reads_words h
    · exact (reads_nil h).labelled
    · exact (reads_words h).labelled

/-- Labels are symbols. -/
theorem Reads.known {words : LineWords} {after : Layout} (h : l.Reads words after)
    (hknown : ∀ name ∈ l.labels, name ∈ l.symbols) : ∀ name ∈ after.labels, name ∈ after.symbols := by
  intro name hname
  rw [h.labels] at hname
  cases hlabel : words.label with
  | none =>
    rw [hlabel] at hname
    exact h.symbols name (hknown name hname)
  | some token =>
    rw [hlabel, Std.HashMap.mem_insert] at hname
    rcases hname with hname | hname
    · rw [← eq_of_beq hname]
      exact (h.fresh token hlabel).2
    · exact h.symbols name (hknown name hname)

/-! ## The effect of a source -/

/-- The rows lead from one layout to another, and nothing is wrong on the way. -/
inductive Follows : Layout → List Row → Layout → Prop
  | nil {l : Layout} (hclean : l.errors = #[]) : Follows l [] l
  | cons {l next last : Layout} {row : Row} {rest : List Row} {words : LineWords}
      (haddress : row.address = l.address) (hwords : row.words? = some words)
      (hreads : l.Reads words next) (hrest : Follows next rest last) : Follows l (row :: rest) last

namespace Follows

variable {last : Layout} {listed : List Row}

theorem clean (h : l.Follows listed last) : l.errors = #[] := by
  cases h with
  | nil hclean => exact hclean
  | cons _ _ hreads _ => exact hreads.clean

/-- Every row has been understood. -/
theorem isSome_words? (h : l.Follows listed last) : ∀ row ∈ listed, row.words?.isSome := by
  induction h with
  | nil => exact nofun
  | cons haddress hwords hreads hrest ih =>
    refine List.forall_mem_cons.mpr ⟨?_, ih⟩
    rw [hwords]
    rfl

/-- The statements are those of the rows. -/
theorem statements (h : l.Follows listed last) :
    last.statements.toList = l.statements.toList ++ listed.filterMap Row.statement? := by
  induction h with
  | nil => simp
  | @cons l next last row rest words haddress hwords hreads hrest ih =>
    have hrow : row.statement? = words.statement? l.address := by
      rw [Row.statement?, hwords, haddress, Option.bind_some]
    rw [ih, hreads.statements, List.append_assoc, List.filterMap_cons, hrow]
    cases words.statement? l.address <;> rfl

theorem of_append {front back : List Row} (h : l.Follows (front ++ back) last) :
    ∃ middle, l.Follows front middle ∧ middle.Follows back last := by
  induction front generalizing l with
  | nil => exact ⟨l, .nil h.clean, h⟩
  | cons row front ih =>
    cases h with
    | cons haddress hwords hreads hrest =>
      obtain ⟨middle, hfront, hback⟩ := ih hrest
      exact ⟨middle, .cons haddress hwords hreads hfront, hback⟩

/-- Rows that put nothing into memory, without `.org`, all stand at one address, and so does the row
behind them. -/
theorem address_quiet {quiet back : List Row} {row : Row}
    (h : l.Follows (quiet ++ row :: back) last) (hquiet : ∀ r ∈ quiet, r.isQuiet) :
    ∀ r ∈ quiet ++ [row], r.address = l.address := by
  induction quiet generalizing l with
  | nil =>
    cases h with
    | cons haddress _ _ _ => simpa using haddress
  | cons first quiet ih =>
    cases h with
    | @cons _ next _ _ _ words haddress hwords hreads hrest =>
      rw [List.forall_mem_cons] at hquiet
      have hfirst := hquiet.1
      simp only [Row.isQuiet, hwords, haddress, Bool.and_eq_true, Option.isNone_iff_eq_none,
        Bool.not_eq_true'] at hfirst
      have hnext := hreads.quiet hfirst.1 hfirst.2
      rw [← hnext, List.cons_append, List.forall_mem_cons]
      exact ⟨haddress.trans hnext.symm, ih hrest hquiet.2⟩

/-- The row behind a statement and the quiet rows after it stands where the statement ends. -/
theorem address_statement {quiet back : List Row} {first row : Row} {s : Statement}
    (h : l.Follows (first :: quiet ++ row :: back) last) (hs : first.statement? = some s)
    (hquiet : ∀ r ∈ quiet, r.isQuiet) : row.address = s.address + UInt32.ofNat s.size := by
  cases h with
  | @cons _ next _ _ _ words haddress hwords hreads hrest =>
    rw [Row.statement?, hwords, haddress, Option.bind_some] at hs
    have hstart : s.address = l.address := by
      unfold LineWords.statement? at hs
      split at hs
      · cases hs
      · obtain ⟨action, -, rfl⟩ := Option.map_eq_some_iff.mp hs
        rfl
    rw [hstart, ← hreads.size s hs]
    exact address_quiet hrest hquiet row (List.mem_append_right _ (List.mem_singleton_self row))

theorem known (h : l.Follows listed last) (hknown : ∀ name ∈ l.labels, name ∈ l.symbols) :
    ∀ name ∈ last.labels, name ∈ last.symbols := by
  induction h with
  | nil => exact hknown
  | cons _ _ hreads _ ih => exact ih (hreads.known hknown)

/-- The labels are those of the rows, each at the address of its row. -/
theorem labels (h : l.Follows listed last) (hknown : ∀ name ∈ l.labels, name ∈ l.symbols)
    (name : Bytes) (address : UInt32) :
    last.labels[name]? = some address ↔
      l.labels[name]? = some address ∨
        ∃ row ∈ listed, row.label? = some name ∧ row.address = address := by
  induction h with
  | nil => simp
  | @cons l next last row rest words haddress hwords hreads hrest ih =>
    have hrow : row.label? = words.label.map Token.text := by
      rw [Row.label?, hwords, Option.bind_some]
    cases hlabel : words.label with
    | none =>
      have hlabels : next.labels = l.labels := by rw [hreads.labels, hlabel]
      rw [hlabel, Option.map_none] at hrow
      rw [ih (hreads.known hknown), hlabels]
      simp [hrow]
    | some token =>
      obtain ⟨hnew, -⟩ := hreads.fresh token hlabel
      have hlabels : next.labels = l.labels.insert token.text l.address := by
        rw [hreads.labels, hlabel]
      rw [hlabel, Option.map_some] at hrow
      -- the label is new, so that none is overwritten
      have hold : l.labels[token.text]? = none :=
        Std.HashMap.getElem?_eq_none fun hmem => hnew (hknown _ hmem)
      rw [ih (hreads.known hknown), hlabels, Std.HashMap.getElem?_insert]
      by_cases hname : token.text = name
      · subst hname
        simp [hold, hrow, haddress]
      · simp [hname, hrow]

end Follows

theorem follows_rows {state : Layout × LineStart} {lines : List Bytes}
    (h : (lines.foldl step state).1.errors = #[]) :
    state.1.Follows (rows state lines) (lines.foldl step state).1 := by
  induction lines generalizing state with
  | nil => exact .nil h
  | cons text rest ih =>
    have hrest := ih h
    obtain ⟨words, hwords, hreads⟩ := reads_line hrest.clean
    have hrow : Row.words? ⟨state.2, state.1.address, text⟩ = some words := by
      rw [Row.words?, hwords]
      rfl
    exact .cons rfl hrow hreads hrest

/-- A source whose first pass reports nothing follows its listing from the empty layout on. -/
theorem follows_listing {source : Bytes} (h : (ofSource source).errors = #[]) :
    Follows {} (listing source) (ofSource source) := follows_rows h

end Layout

end AvrSim.Asm
