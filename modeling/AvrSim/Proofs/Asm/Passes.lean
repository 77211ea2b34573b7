import AvrSim.Proofs.Asm.Image
import AvrSim.Proofs.Asm.Listing
import AvrSim.Proofs.Text.Lines

/-!
# The two passes agree

The first pass counts bytes by mnemonics and operands, the second finds the words. They never drift: each
statement has the words that were counted for it, so that the program shows it where the listing says,
and a label is where the next statement begins. Nothing of a source is passed over but what follows a
line that is too long, and that without a word.

* `Statement.exists_emits`: a statement has as many words as the first pass counted.
* `renders_of_assemble`: a program renders the statements of its source.
* `assemble_exact`: sizes, bytes and labels of a source without long lines.
* `assemble_delivers`: what becomes of each line of any source.
-/

namespace AvrSim.Asm

/-! ## The words of a statement -/

/-- The bytes that the first pass counts for a statement. -/
def Statement.Covers (s : Statement) (x : Nat) : Prop :=
  s.address.toNat ≤ x ∧ x < s.address.toNat + s.size

/-- The second pass finds these words for a statement, and nothing wrong with it. -/
def Statement.Emits (l : Layout) (s : Statement) (words : List UInt16) : Prop :=
  s.items l = placed s.address (words.map .ok)

theorem mem_table_of_mnemonic? {keyword : Token} {m : Mnemonic}
    (h : Layout.mnemonic? keyword = some m) : ∃ name, (name, m) ∈ Mnemonic.table := by
  unfold Layout.mnemonic? at h
  split at h
  · unfold Mnemonic.ofName? at h
    obtain ⟨entry, hentry, rfl⟩ := Option.map_eq_some_iff.mp h
    exact ⟨entry.1, List.mem_of_find?_eq_some hentry⟩
  · cases h

theorem mem_table_of_action? {keyword : Token} {m : Mnemonic}
    (h : action? keyword = some (.instruction m)) : ∃ name, (name, m) ∈ Mnemonic.table := by
  unfold action? at h
  split at h
  · rename_i hm
    cases h
    exact mem_table_of_mnemonic? hm
  · split at h <;> cases h

theorem LineWords.of_statement? {words : LineWords} {address : UInt32} {s : Statement}
    (h : words.statement? address = some s) :
    action? s.keyword = some s.action ∧ s.address = address := by
  unfold statement? at h
  split at h
  · cases h
  · obtain ⟨action, haction, rfl⟩ := Option.map_eq_some_iff.mp h
    exact ⟨haction, rfl⟩

theorem exists_map_ok {words : List (Checked UInt16)} (h : ∀ x ∈ words, ∃ word, x = .ok word) :
    ∃ found : List UInt16, words = found.map .ok := by
  induction words with
  | nil => exact ⟨[], rfl⟩
  | cons x words ih =>
    rw [List.forall_mem_cons] at h
    obtain ⟨word, rfl⟩ := h.1
    obtain ⟨found, rfl⟩ := ih h.2
    exact ⟨word :: found, rfl⟩

theorem length_encode (instr : Instr) : 2 * instr.encode.length = instr.size := by
  unfold Instr.encode Instr.size
  cases instr.extension? <;> rfl

/-- A statement with which nothing is wrong has as many words as the first pass counted. -/
theorem Statement.exists_emits {l : Layout} {s : Statement}
    (hkeyword : action? s.keyword = some s.action)
    (hsound : ∀ item ∈ s.items l, ∃ word, item.2 = .ok word) :
    ∃ words, s.Emits l words ∧ 2 * words.length = s.size := by
  unfold Emits
  cases haction : s.action with
  | words =>
    have hitems : s.items l = placed s.address (s.operands.map l.wordValue) := by
      rw [items, haction]
    have hok : ∀ x ∈ s.operands.map l.wordValue, ∃ word, x = .ok word := by
      intro x hx
      obtain ⟨i, hi⟩ := List.getElem?_of_mem hx
      refine hsound (s.address + UInt32.ofNat (2 * i), x) ?_
      rw [hitems]
      exact mem_placed_iff.mpr ⟨i, hi, rfl⟩
    obtain ⟨words, hwords⟩ := exists_map_ok hok
    refine ⟨words, by rw [hitems, hwords], ?_⟩
    have hlength := congrArg List.length hwords
    rw [List.length_map, List.length_map] at hlength
    rw [size, haction, hlength]
  | instruction m =>
    obtain ⟨name, hname⟩ := mem_table_of_action? (hkeyword.trans (congrArg some haction))
    cases hinstr : instruction l.symbols s.address s.keyword.position m s.operands with
    | error errors =>
      have hitems : s.items l = [(s.address, .error errors)] := by
        rw [items, haction]
        dsimp only
        rw [hinstr]
      rw [hitems] at hsound
      obtain ⟨word, hword⟩ := hsound _ (List.mem_singleton_self _)
      cases hword
    | ok instr =>
      have hitems : s.items l = placed s.address (instr.encode.map .ok) := by
        rw [items, haction]
        dsimp only
        rw [hinstr]
      refine ⟨instr.encode, hitems, ?_⟩
      rw [length_encode, size_of_stands hname (stands_of_instruction hinstr), size, haction]

section Space

variable {l : Layout} {s : Statement} {words : List UInt16}
  (hsize : 2 * words.length = s.size) (hspace : s.address.toNat + s.size ≤ UInt32.size)

include hsize hspace

theorem Statement.toNat_address_add {i : Nat} (hi : i < words.length) :
    (s.address + UInt32.ofNat (2 * i)).toNat = s.address.toNat + 2 * i := by
  rw [UInt32.toNat_add, UInt32.toNat_ofNat']
  unfold UInt32.size at hspace
  omega

/-- The bytes of a statement that ends within the address space are those of its words. -/
theorem Statement.covers_iff (hemits : s.Emits l words) {x : Nat} :
    s.Covers x ↔ ∃ item ∈ s.items l, x = item.1.toNat ∨ x = item.1.toNat + 1 := by
  have haddress := fun i hi => toNat_address_add hsize hspace (i := i) hi
  rw [hemits]
  unfold Covers
  constructor
  · rintro ⟨hstart, hend⟩
    have hi : (x - s.address.toNat) / 2 < words.length := by omega
    generalize hindex : (x - s.address.toNat) / 2 = i at hi
    have hword : (words.map Except.ok)[i]? = some (.ok words[i] : Checked UInt16) := by
      rw [List.getElem?_map, List.getElem?_eq_getElem hi, Option.map_some]
    refine ⟨(s.address + UInt32.ofNat (2 * i), .ok words[i]), mem_placed_iff.mpr ⟨i, hword, rfl⟩, ?_⟩
    dsimp only
    rw [haddress i hi]
    omega
  · rintro ⟨item, hitem, hx⟩
    obtain ⟨i, hword, hi⟩ := mem_placed_iff.mp hitem
    have hlength := (List.getElem?_eq_some_iff.mp hword).1
    rw [List.length_map] at hlength
    rw [hi, haddress i hlength] at hx
    omega

end Space

/-! ## Programs -/

/-- The program is the image of the statements: the words of each, as many as the first pass counted,
stand low byte first from its address on; no two statements share a byte; everything else between the
first and the last byte is erased memory. -/
structure Program.Renders (p : Program) (l : Layout) (statements : List Statement) : Prop where
  words : ∀ s ∈ statements, ∃ words, s.Emits l words ∧ 2 * words.length = s.size ∧
    ∀ i word, words[i]? = some word → p.Holds (s.address.toNat + 2 * i) word
  disjoint : statements.Pairwise fun s t => ∀ x, ¬ (s.Covers x ∧ t.Covers x)
  within : ∀ s ∈ statements, ∀ x, s.Covers x →
    p.base.toNat ≤ x ∧ x < p.base.toNat + p.data.size
  first : ∃ s ∈ statements, s.Covers p.base.toNat
  last : ∃ s ∈ statements, s.Covers (p.base.toNat + p.data.size - 1)
  gaps : ∀ x, p.base.toNat ≤ x → x < p.base.toNat + p.data.size →
    (∀ s ∈ statements, ¬ s.Covers x) → p.data[x - p.base.toNat]? = some gap

theorem Row.of_statement? {row : Row} {s : Statement} (h : row.statement? = some s) :
    action? s.keyword = some s.action ∧ s.address = row.address := by
  obtain ⟨words, -, hs⟩ := Option.bind_eq_some_iff.mp h
  exact LineWords.of_statement? hs

section Assembled

variable {source : Bytes} {program : Program} (h : assemble source = .ok program)

include h

/-- A source that has a program follows its listing. -/
theorem follows_of_assemble :
    Layout.Follows {} (listing source) (Layout.ofSource source) :=
  Layout.follows_listing (shows_of_assemble h).1

theorem statements_of_assemble :
    (Layout.ofSource source).statements.toList = (listing source).filterMap Row.statement? := by
  rw [(follows_of_assemble h).statements]
  rfl

/-- Each statement of a source that has a program emits what was counted, and the program shows it. -/
theorem emits_of_assemble {s : Statement} (hs : s ∈ (listing source).filterMap Row.statement?) :
    ∃ words, s.Emits (Layout.ofSource source) words ∧ 2 * words.length = s.size ∧
      ∀ i word, words[i]? = some word →
        program.Holds (s.address + UInt32.ofNat (2 * i)).toNat word := by
  obtain ⟨-, -, -, hsound, hshows⟩ := shows_of_assemble h
  rw [statements_of_assemble h] at hsound hshows
  obtain ⟨row, -, hrow⟩ := List.mem_filterMap.mp hs
  obtain ⟨words, hemits, hsize⟩ := Statement.exists_emits (Row.of_statement? hrow).1
    fun item hitem => hsound item (List.mem_flatMap.mpr ⟨s, hs, hitem⟩)
  refine ⟨words, hemits, hsize, fun i word hword => ?_⟩
  apply hshows.words
  refine List.mem_flatMap.mpr ⟨s, hs, ?_⟩
  rw [hemits]
  exact mem_placed_iff.mpr ⟨i, by rw [List.getElem?_map, hword]; rfl, rfl⟩

/-- A program renders the statements of its source, if none runs over the end of the address space. -/
theorem renders_of_assemble
    (hspace : ∀ s ∈ (listing source).filterMap Row.statement?,
      s.address.toNat + s.size ≤ UInt32.size) :
    program.Renders (Layout.ofSource source) ((listing source).filterMap Row.statement?) := by
  have hcovers : ∀ s ∈ (listing source).filterMap Row.statement?, ∀ x, s.Covers x ↔
      ∃ item ∈ s.items (Layout.ofSource source), x = item.1.toNat ∨ x = item.1.toNat + 1 := by
    intro s hs x
    obtain ⟨words, hemits, hsize, -⟩ := emits_of_assemble h hs
    exact Statement.covers_iff hsize (hspace s hs) hemits
  have heven : ∀ s ∈ (listing source).filterMap Row.statement?,
      ∀ item ∈ s.items (Layout.ofSource source), Aligned item.1 := by
    intro s hs
    rw [← statements_of_assemble h, Array.mem_toList_iff] at hs
    exact s.aligned_items _ ((Layout.aligned_ofSource source).statements s hs)
  obtain ⟨-, -, hdistinct, hsound, hshows⟩ := shows_of_assemble h
  rw [statements_of_assemble h] at hdistinct hsound hshows
  constructor
  case words =>
    intro s hs
    obtain ⟨words, hemits, hsize, hholds⟩ := emits_of_assemble h hs
    refine ⟨words, hemits, hsize, fun i word hword => ?_⟩
    have hi := (List.getElem?_eq_some_iff.mp hword).1
    rw [← Statement.toNat_address_add hsize (hspace s hs) hi]
    exact hholds i word hword
  case disjoint =>
    rw [List.map_flatMap, List.nodup_flatMap] at hdistinct
    refine hdistinct.2.imp_of_mem fun {s t} hs ht hdisjoint x hx => ?_
    obtain ⟨item, hitem, hxitem⟩ := (hcovers s hs x).mp hx.1
    obtain ⟨other, hother, hxother⟩ := (hcovers t ht x).mp hx.2
    -- both words stand at even addresses, so that sharing a byte they share their address
    have hsame : item.1 = other.1 := by
      have hitem := heven s hs item hitem
      have hother := heven t ht other hother
      unfold Aligned at hitem hother
      exact UInt32.toNat_inj.mp (by omega)
    exact hdisjoint (List.mem_map_of_mem hitem) (hsame ▸ List.mem_map_of_mem hother)
  case within =>
    intro s hs x hx
    obtain ⟨⟨a, found⟩, hitem, hxitem⟩ := (hcovers s hs x).mp hx
    have hmem := List.mem_flatMap.mpr ⟨s, hs, hitem⟩
    obtain ⟨word, rfl⟩ := hsound _ hmem
    obtain ⟨hbase, -, hhigh⟩ := hshows.words a word hmem
    have hend := (Array.getElem?_eq_some_iff.mp hhigh).1
    dsimp only at hxitem
    omega
  case first =>
    obtain ⟨item, hmem, hbase⟩ := hshows.first
    obtain ⟨s, hs, hitem⟩ := List.mem_flatMap.mp hmem
    exact ⟨s, hs, (hcovers s hs _).mpr ⟨item, hitem, .inl hbase.symm⟩⟩
  case last =>
    obtain ⟨item, hmem, hend⟩ := hshows.last
    obtain ⟨s, hs, hitem⟩ := List.mem_flatMap.mp hmem
    exact ⟨s, hs, (hcovers s hs _).mpr ⟨item, hitem, .inr (by omega)⟩⟩
  case gaps =>
    intro x hbase hend huncovered
    refine hshows.gaps x hbase hend fun item hmem => ?_
    obtain ⟨s, hs, hitem⟩ := List.mem_flatMap.mp hmem
    rw [← not_or]
    exact fun hx => huncovered s hs ((hcovers s hs x).mpr ⟨item, hitem, hx⟩)

/-- The labels of a program are those of its listing. -/
theorem labels_of_assemble (name : Bytes) (address : UInt32) :
    program.labels[name]? = some address ↔
      ∃ row ∈ listing source, row.label? = some name ∧ row.address = address := by
  rw [(shows_of_assemble h).2.1, (follows_of_assemble h).labels (by simp)]
  simp

/-- A label before a statement, without another statement or `.org` between them, is where the statement
begins. -/
theorem label_before_statement {front quiet back : List Row} {row r : Row} {s : Statement}
    {name : Bytes} (hlisting : listing source = front ++ (quiet ++ row :: back))
    (hquiet : ∀ r ∈ quiet, r.isQuiet) (hs : row.statement? = some s) (hr : r ∈ quiet ++ [row])
    (hname : r.label? = some name) : program.labels[name]? = some s.address := by
  have hfollows := follows_of_assemble h
  rw [hlisting] at hfollows
  obtain ⟨middle, -, hback⟩ := hfollows.of_append
  have haddress := hback.address_quiet hquiet
  have hrow : row ∈ quiet ++ [row] := List.mem_append_right _ (List.mem_singleton_self row)
  have hmem : r ∈ listing source := by
    rw [hlisting, ← List.singleton_append (x := row), ← List.append_assoc quiet]
    exact List.mem_append_right _ (List.mem_append_left _ hr)
  rw [labels_of_assemble h]
  refine ⟨r, hmem, hname, ?_⟩
  rw [(Row.of_statement? hs).2, haddress r hr, haddress row hrow]

/-- The row behind a statement, without another statement or `.org` between them, stands where the
statement ends. -/
theorem address_behind_statement {front quiet back : List Row} {first row : Row} {s : Statement}
    (hlisting : listing source = front ++ (first :: quiet ++ row :: back))
    (hs : first.statement? = some s) (hquiet : ∀ r ∈ quiet, r.isQuiet) :
    row.address = s.address + UInt32.ofNat s.size := by
  have hfollows := follows_of_assemble h
  rw [hlisting] at hfollows
  obtain ⟨middle, -, hback⟩ := hfollows.of_append
  exact hback.address_statement hs hquiet

end Assembled

/-- A source without long lines that has a program and no statement past the end of the address space:
every line has been understood; the statements of the second pass are those of the listing; the program
renders them; the first pass has moved from each by the bytes that the second has put there; and the
labels are those of the listing, each where the statement behind it begins. -/
theorem assemble_exact {source : Bytes} {program : Program}
    (hshort : ∀ piece ∈ Text.pieces source, piece.length < Text.lineLimit)
    (hspace : ∀ s ∈ (listing source).filterMap Row.statement?,
      s.address.toNat + s.size ≤ UInt32.size)
    (h : assemble source = .ok program) :
    (listing source).map Row.text = (Text.pieces source).map Text.dropReturn ∧
    (∀ row ∈ listing source, row.words?.isSome) ∧
    (Layout.ofSource source).statements.toList = (listing source).filterMap Row.statement? ∧
    program.Renders (Layout.ofSource source) ((listing source).filterMap Row.statement?) ∧
    (∀ front first quiet row back s, listing source = front ++ (first :: quiet ++ row :: back) →
      first.statement? = some s → (∀ r ∈ quiet, r.isQuiet) →
      row.address = s.address + UInt32.ofNat s.size) ∧
    (∀ name address, program.labels[name]? = some address ↔
      ∃ row ∈ listing source, row.label? = some name ∧ row.address = address) ∧
    (∀ front quiet row back s, listing source = front ++ (quiet ++ row :: back) →
      (∀ r ∈ quiet, r.isQuiet) → row.statement? = some s →
      ∀ r ∈ quiet ++ [row], ∀ name, r.label? = some name →
        program.labels[name]? = some s.address) := by
  refine ⟨?_, (follows_of_assemble h).isSome_words?, statements_of_assemble h,
    renders_of_assemble h hspace, ?_, labels_of_assemble h, ?_⟩
  · rw [listing, Layout.map_text_rows, Text.lines_of_short hshort]
  · intro front first quiet row back s hlisting hs hquiet
    exact address_behind_statement h hlisting hs hquiet
  · intro front quiet row back s hlisting hquiet hs r hr name hname
    exact label_before_statement h hlisting hquiet hs hr hname

/-- A source with an instruction, a gap and a labelled word. -/
def gapSource : Bytes := Bytes.ofString "nop\n.org 4\nlast: .word 4660\n"

/-- The lines of the source. -/
def gapLines : List Bytes :=
  [Bytes.ofString "nop", Bytes.ofString ".org 4", Bytes.ofString "last: .word 4660"]

/-- The instruction of the source. -/
def gapNop : Statement :=
  ⟨⟨.identifier, ⟨1, 1, 0, 3, 0⟩, Bytes.ofString "nop"⟩, [], 0, .instruction (.plain .nop)⟩

/-- The number of the source. -/
def gapNumber : Token := ⟨.literal, ⟨3, 13, 23, 4, 11⟩, Bytes.ofString "4660"⟩

/-- The word of the source. -/
def gapWord : Statement :=
  ⟨⟨.directive, ⟨3, 7, 17, 5, 11⟩, Bytes.ofString ".word"⟩, [gapNumber], 4, .words⟩

/-- The label of the source. -/
def gapLabel : Token := ⟨.identifier, ⟨3, 1, 11, 4, 11⟩, Bytes.ofString "last"⟩

/-- The origin of the word, as it is written. -/
def gapOrigin : Token := ⟨.literal, ⟨2, 6, 9, 1, 4⟩, Bytes.ofString "4"⟩

/-- The rows of the source. -/
def gapRows : List Row :=
  [⟨⟨1, 0⟩, 0, Bytes.ofString "nop"⟩, ⟨⟨2, 4⟩, 2, Bytes.ofString ".org 4"⟩,
    ⟨⟨3, 11⟩, 4, Bytes.ofString "last: .word 4660"⟩]

-- One evaluation by the kernel for the lines and one for their words: the lemmas below only take
-- these facts apart.
theorem lines_gapSource :
    gapSource = gapLines.flatMap (· ++ ['\n'.toUInt8]) ∧
    Text.pieces gapSource = gapLines ∧
    (∀ line ∈ gapLines, line.length < Text.lineLimit ∧ '\n'.toUInt8 ∉ line) ∧
    (Text.lines gapSource).lines = gapLines ∧
    Layout.nextLine ⟨1, 0⟩ (Bytes.ofString "nop") = ⟨2, 4⟩ ∧
    Layout.nextLine ⟨2, 4⟩ (Bytes.ofString ".org 4") = ⟨3, 11⟩ ∧
    listing gapSource = gapRows ∧
    gapSource.getLast? = some '\n'.toUInt8 := by
  decide +kernel

theorem words_gapSource :
    readLine ⟨1, 0⟩ (Bytes.ofString "nop") = .ok ⟨none, [gapNop.keyword]⟩ ∧
    readLine ⟨2, 4⟩ (Bytes.ofString ".org 4") =
      .ok ⟨none, [⟨.directive, ⟨2, 1, 4, 4, 4⟩, Bytes.ofString ".org"⟩, gapOrigin]⟩ ∧
    readLine ⟨3, 11⟩ (Bytes.ofString "last: .word 4660") =
      .ok ⟨some gapLabel, gapWord.keyword :: gapWord.operands⟩ ∧
    Layout.mnemonic? gapNop.keyword = some (.plain .nop) ∧
    Directive.ofName? (Bytes.ofString ".org") = some .org ∧
    Directive.ofName? gapWord.keyword.text = some .word ∧
    gapOrigin.literal? = some 4 ∧
    gapNumber.literal? = some 0x1234 ∧
    gapRows[2].statement? = some gapWord ∧
    gapRows[2].label? = some gapLabel.text := by
  decide +kernel

theorem line_gapNop : Layout.line {} ⟨1, 0⟩ (Bytes.ofString "nop") =
    { statements := #[gapNop], address := 2 } := by
  obtain ⟨hread, -, -, hmnemonic, -⟩ := words_gapSource
  simp only [Layout.line, hread, Layout.words, hmnemonic]
  rfl

theorem line_gapOrg (l : Layout) : l.line ⟨2, 4⟩ (Bytes.ofString ".org 4") =
    { l with address := 4 } := by
  obtain ⟨-, hread, -, -, hdirective, -, hliteral, -⟩ := words_gapSource
  simp only [Layout.line, hread, Layout.words, Layout.mnemonic?, hdirective, Layout.org,
    Symbols.value, Symbols.rawValue, hliteral]
  rfl

theorem line_gapWord {l : Layout} (hsymbols : l.symbols = ∅) (haddress : l.address = 4) :
    l.line ⟨3, 11⟩ (Bytes.ofString "last: .word 4660") =
      { l with
        symbols := (∅ : Symbols).insert gapLabel.text 4
        labels := l.labels.insert gapLabel.text 4
        statements := l.statements.push gapWord
        address := 6 } := by
  obtain ⟨-, -, hread, -, -, hdirective, -⟩ := words_gapSource
  have hmnemonic : Layout.mnemonic? gapWord.keyword = none := rfl
  have hlabel : l.label gapLabel =
      { l with
        symbols := (∅ : Symbols).insert gapLabel.text 4
        labels := l.labels.insert gapLabel.text 4 } := by
    simp [Layout.label, Layout.define, hsymbols, haddress]
  simp only [Layout.line, hread, hlabel, Layout.words, hmnemonic, hdirective, Layout.statement, haddress]
  rfl

theorem ofSource_gapSource : Layout.ofSource gapSource =
    { symbols := (∅ : Symbols).insert gapLabel.text 4
      labels := (∅ : Std.HashMap Bytes UInt32).insert gapLabel.text 4
      statements := #[gapNop, gapWord]
      address := 6 } := by
  obtain ⟨-, -, -, hlines, hsecond, hthird, -⟩ := lines_gapSource
  unfold Layout.ofSource
  simp only [hlines, gapLines, List.foldl_cons, List.foldl_nil, line_gapNop, hsecond, line_gapOrg,
    hthird]
  exact line_gapWord rfl rfl

theorem Code.exists_program? {c : Code} (h : c.words.isEmpty = false)
    (labels : Std.HashMap Bytes UInt32) : ∃ program, c.program? labels = some program := by
  unfold program?
  split
  · rename_i hnil
    rw [← List.isEmpty_iff, Std.HashMap.isEmpty_toList, h] at hnil
    cases hnil
  · exact ⟨_, rfl⟩

/-- A source with a layout and with words that are all put into memory has a program. -/
theorem exists_assemble {source : Bytes} (herrors : (Layout.ofSource source).errors = #[])
    {statements : Array Statement} (hstatements : (Layout.ofSource source).statements = statements)
    {words : Std.HashMap UInt32 UInt16} (hwords : words.isEmpty = false)
    (hcode : ∀ l, statements.foldl (Code.statement l) {} = { words := words }) :
    ∃ program, assemble source = .ok program := by
  obtain ⟨program, hprogram⟩ :=
    Code.exists_program? (c := { words := words }) hwords (Layout.ofSource source).labels
  unfold assemble
  simp only [herrors, hstatements, hcode, Array.isEmpty_empty, if_true, hprogram]
  exact ⟨program, rfl⟩

theorem exists_assemble_gapSource : ∃ program, assemble gapSource = .ok program := by
  obtain ⟨-, -, -, -, -, -, -, hnumber, -⟩ := words_gapSource
  have hvalue : ∀ l : Layout, l.wordValue gapNumber = .ok 0x1234 := by
    intro l
    unfold Layout.wordValue Symbols.value Symbols.rawValue
    rw [hnumber]
    rfl
  have hnop : ∀ l, gapNop.items l = [(0, .ok 0)] := fun l => rfl
  have hword : ∀ l, gapWord.items l = [(4, .ok 0x1234)] := by
    intro l
    rw [Statement.items, gapWord]
    simp [placed, hvalue]
  have hcode : ∀ l, #[gapNop, gapWord].foldl (Code.statement l) {} =
      { words := ((∅ : Std.HashMap UInt32 UInt16).insert 0 0).insert 4 0x1234 } := by
    intro l
    simp [Code.statement, hnop, hword, Code.emit]
  have hlayout := ofSource_gapSource
  exact exists_assemble (by rw [hlayout]) (by rw [hlayout]) (by simp) hcode

theorem statements_gapSource :
    (listing gapSource).filterMap Row.statement? = [gapNop, gapWord] := by
  obtain ⟨program, h⟩ := exists_assemble_gapSource
  rw [← statements_of_assemble h, ofSource_gapSource]

theorem space_gapSource : ∀ s ∈ (listing gapSource).filterMap Row.statement?,
    s.address.toNat + s.size ≤ UInt32.size := by
  rw [statements_gapSource]
  decide

theorem gapSource_exact : ∃ program, assemble gapSource = .ok program ∧
    program.Renders (Layout.ofSource gapSource) [gapNop, gapWord] ∧
    program.labels[gapLabel.text]? = some gapWord.address := by
  obtain ⟨program, h⟩ := exists_assemble_gapSource
  obtain ⟨-, hpieces, hgap, -, -, -, hrows, -⟩ := lines_gapSource
  obtain ⟨-, -, -, -, -, -, -, -, hstatement, hlabel⟩ := words_gapSource
  have hshort : ∀ piece ∈ Text.pieces gapSource, piece.length < Text.lineLimit := by
    rw [hpieces]
    exact fun piece hpiece => (hgap piece hpiece).1
  have hlisting : listing gapSource = gapRows.take 2 ++ ([] ++ gapRows[2] :: []) := hrows
  obtain ⟨-, -, -, hrenders, -, -, hlabels⟩ := assemble_exact hshort space_gapSource h
  rw [statements_gapSource] at hrenders
  refine ⟨program, h, hrenders, ?_⟩
  exact hlabels _ _ _ _ gapWord hlisting nofun hstatement _ List.mem_cons_self _ hlabel

/-! ## Long lines -/

theorem assemble_append_long {front long : Bytes} (h : Text.EndsLine front)
    (hfeed : '\n'.toUInt8 ∉ long) (hlong : Text.lineLimit ≤ long.length) (rest : Bytes) :
    assemble (front ++ (long ++ rest)) = assemble front := by
  have hlayout : Layout.ofSource (front ++ (long ++ rest)) = Layout.ofSource front := by
    unfold Layout.ofSource
    rw [Text.lines_append_long h hfeed hlong]
  unfold assemble
  rw [hlayout]

theorem getElem?_listing {source piece : Bytes} {i : Nat}
    (hpiece : (Text.pieces source)[i]? = some piece)
    (hshort : ∀ p ∈ (Text.pieces source).take (i + 1), p.length < Text.lineLimit) :
    ∃ row, (listing source)[i]? = some row ∧ row.text = Text.dropReturn piece := by
  have hi := (List.getElem?_eq_some_iff.mp hpiece).1
  have htexts : (listing source).map Row.text =
      ((Text.pieces source).takeWhile Text.isShort).map Text.dropReturn := by
    rw [listing, Layout.map_text_rows]
    rfl
  have hread : ((Text.pieces source).takeWhile Text.isShort)[i]? = some piece := by
    rw [← hpiece]
    generalize Text.pieces source = all at hshort hi
    have hall : ∀ p ∈ all.take (i + 1), Text.isShort p := by
      intro p hp
      simpa [Text.isShort] using hshort p hp
    conv_lhs => rw [← List.take_append_drop (i + 1) all]
    rw [List.takeWhile_append_of_pos hall, List.getElem?_append_left (by simp; omega),
      List.getElem?_take_of_lt (Nat.lt_succ_self i)]
  have hrow := congrArg (·[i]?) htexts
  simp only [List.getElem?_map, hread, Option.map_some] at hrow
  exact Option.map_eq_some_iff.mp hrow

/-- A source that has a program: each line before the first that is too long has been understood, its
statement is in the program at its address and its label among the labels. The line that is too long and
all that follows it are passed over without an error: the program is that of the lines before it. -/
theorem assemble_delivers {source : Bytes} {program : Program}
    (h : assemble source = .ok program) :
    (∀ i piece, (Text.pieces source)[i]? = some piece →
      (∀ p ∈ (Text.pieces source).take (i + 1), p.length < Text.lineLimit) →
      ∃ row, (listing source)[i]? = some row ∧ row.text = Text.dropReturn piece ∧
        row.words?.isSome ∧
        (∀ s, row.statement? = some s →
          ∃ words, s.Emits (Layout.ofSource source) words ∧ 2 * words.length = s.size ∧
            ∀ k word, words[k]? = some word →
              program.Holds (s.address + UInt32.ofNat (2 * k)).toNat word) ∧
        (∀ name, row.label? = some name → program.labels[name]? = some row.address)) ∧
    (∀ front long rest, source = front ++ (long ++ rest) → Text.EndsLine front →
      '\n'.toUInt8 ∉ long → Text.lineLimit ≤ long.length → assemble front = .ok program) := by
  constructor
  · intro i piece hpiece hshort
    obtain ⟨row, hrow, htext⟩ := getElem?_listing hpiece hshort
    have hmem := List.mem_of_getElem? hrow
    refine ⟨row, hrow, htext, (follows_of_assemble h).isSome_words? row hmem, ?_, ?_⟩
    · intro s hs
      exact emits_of_assemble h (List.mem_filterMap.mpr ⟨row, hmem, hs⟩)
    · intro name hname
      exact (labels_of_assemble h name row.address).mpr ⟨row, hmem, hname, rfl⟩
  · rintro front long rest rfl hfront hfeed hlong
    rwa [assemble_append_long hfront hfeed hlong] at h

/-- A comment that is too long. -/
def longComment : Bytes := List.replicate Text.lineLimit ';'.toUInt8

/-- The same source with the long comment behind it, and behind that another instruction. -/
def longSource : Bytes := gapSource ++ (longComment ++ Bytes.ofString "\nldi r16, 1\n")

theorem endsLine_gapSource : Text.EndsLine gapSource := by
  obtain ⟨-, -, -, -, -, -, -, hends⟩ := lines_gapSource
  exact .inr hends

theorem not_mem_longComment : '\n'.toUInt8 ∉ longComment := by
  intro h
  exact absurd (List.eq_of_mem_replicate h) (by decide)

theorem lineLimit_le_longComment : Text.lineLimit ≤ longComment.length :=
  Nat.le_of_eq List.length_replicate.symm

theorem assemble_longSource : assemble longSource = assemble gapSource :=
  assemble_append_long endsLine_gapSource not_mem_longComment lineLimit_le_longComment _

theorem line_behind_longComment :
    Bytes.ofString "\nldi r16, 1\n" =
      ['\n'.toUInt8] ++ (Bytes.ofString "ldi r16, 1" ++ ['\n'.toUInt8]) ∧
    (∀ line ∈ [Bytes.ofString "ldi r16, 1"], '\n'.toUInt8 ∉ line) ∧
    ∃ s, Row.statement? ⟨⟨5, 65565⟩, 6, Bytes.ofString "ldi r16, 1"⟩ = some s ∧ s.size = 2 := by
  decide +kernel

theorem pieces_longSource : Text.pieces longSource =
    gapLines ++ [longComment, Bytes.ofString "ldi r16, 1"] := by
  obtain ⟨hgap, -, hlines, -⟩ := lines_gapSource
  obtain ⟨hrest, hlast, -⟩ := line_behind_longComment
  have hfeeds : ∀ line ∈ gapLines ++ [longComment, Bytes.ofString "ldi r16, 1"],
      '\n'.toUInt8 ∉ line := by
    rw [List.forall_mem_append, List.forall_mem_cons]
    exact ⟨fun line hline => (hlines line hline).2, not_mem_longComment, hlast⟩
  rw [← Text.pieces_flatMap hfeeds]
  simp [longSource, hgap, hrest]

theorem longSource_delivers : ∃ program, assemble longSource = .ok program ∧
    program.labels[gapLabel.text]? = some 4 ∧ assemble gapSource = .ok program := by
  obtain ⟨program, h⟩ := exists_assemble_gapSource
  rw [← assemble_longSource] at h
  obtain ⟨hlines, hlong⟩ := assemble_delivers h
  refine ⟨program, h, ?_, hlong _ _ _ rfl endsLine_gapSource not_mem_longComment
    lineLimit_le_longComment⟩
  obtain ⟨-, -, hgap, -, -, -, hrows, -⟩ := lines_gapSource
  obtain ⟨-, -, -, -, -, -, -, -, -, hlast⟩ := words_gapSource
  have hshort : ∀ p ∈ (Text.pieces longSource).take 3, p.length < Text.lineLimit := by
    rw [pieces_longSource]
    exact fun p hp => (hgap p hp).1
  obtain ⟨row, hrow, -, -, -, hlabel⟩ := hlines 2 (Bytes.ofString "last: .word 4660")
    (by rw [pieces_longSource]; rfl) hshort
  have hlisting : listing longSource = gapRows := by
    rw [← hrows, listing, listing, longSource, Text.lines_append_long endsLine_gapSource
      not_mem_longComment lineLimit_le_longComment]
  rw [hlisting] at hrow
  cases hrow
  exact hlabel _ hlast

/-- The instruction behind the long comment is a statement like any other, but its place in the program
holds nothing. -/
theorem longSource_truncated :
    (Text.pieces longSource)[4]? = some (Bytes.ofString "ldi r16, 1") ∧
    (∃ s, Row.statement? ⟨⟨5, 65565⟩, 6, Bytes.ofString "ldi r16, 1"⟩ = some s ∧ s.size = 2) ∧
    ∃ program, assemble longSource = .ok program ∧ ∀ word, ¬ program.Holds 6 word := by
  obtain ⟨-, -, hldi⟩ := line_behind_longComment
  refine ⟨by rw [pieces_longSource]; rfl, hldi, ?_⟩
  obtain ⟨program, h⟩ := exists_assemble_gapSource
  refine ⟨program, assemble_longSource.trans h, fun word hholds => ?_⟩
  obtain ⟨s, hs, hlast⟩ := (renders_of_assemble h space_gapSource).last
  have hend : ∀ s ∈ [gapNop, gapWord], s.address.toNat + s.size ≤ 6 := by decide
  rw [statements_gapSource] at hs
  have hsix := hend s hs
  have hhigh := (Array.getElem?_eq_some_iff.mp hholds.2.2).1
  have hlow := hlast.2
  omega

end AvrSim.Asm
