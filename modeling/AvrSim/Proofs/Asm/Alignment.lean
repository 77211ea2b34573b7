import AvrSim.Asm.Program

/-!
# Where the words of a program stand

Every statement takes an even number of bytes and `.org` refuses odd addresses. Sizes and addresses wrap
together, so no way of reaching an address makes it odd, and a word that stands at an even address ends
within the address space. The two passes keep this from line to line and from word to word.

* `Layout.aligned_ofSource`: the statements of a source stand at even addresses.
* `Code.aligned_statement`: so do the words they put into memory.
* `assemble_span`: a program is not empty and ends within the address space.
-/

namespace AvrSim.Asm

/-- An even address. -/
def Aligned (a : UInt32) : Prop := a.toNat % 2 = 0

theorem Aligned.add {a : UInt32} (h : Aligned a) {n : Nat} (hn : n % 2 = 0) :
    Aligned (a + UInt32.ofNat n) := by
  unfold Aligned at *
  rw [UInt32.toNat_add, UInt32.toNat_ofNat']
  omega

theorem aligned_ofNat {n : Nat} (hn : n % 2 = 0) : Aligned (UInt32.ofNat n) := by
  unfold Aligned
  rw [UInt32.toNat_ofNat']
  omega

/-! ## The first pass -/

theorem Statement.size_even (s : Statement) : s.size % 2 = 0 := by
  unfold size
  split
  · unfold Mnemonic.size
    split <;> rfl
  · exact Nat.mul_mod_right 2 _

/-- The next statement and all statements before it stand at even addresses. -/
structure Layout.Aligned (l : Layout) : Prop where
  next : Asm.Aligned l.address
  statements : ∀ s ∈ l.statements, Asm.Aligned s.address

namespace Layout

variable {l : Layout}

theorem aligned_report (h : l.Aligned) (errors : List Error) : (l.report errors).Aligned :=
  ⟨h.next, h.statements⟩

theorem aligned_define (h : l.Aligned) (name : Token) (value : Int) :
    (l.define name value).Aligned := by
  unfold define
  split
  · exact aligned_report h _
  · exact ⟨h.next, h.statements⟩

theorem aligned_label (h : l.Aligned) (name : Token) : (l.label name).Aligned := by
  obtain ⟨hnext, hstatements⟩ := aligned_define h name l.address.toNat
  exact ⟨hnext, hstatements⟩

theorem aligned_statement (h : l.Aligned) (keyword : Token) (operands : List Token)
    (action : Action) : (l.statement keyword operands action).Aligned := by
  refine ⟨h.next.add (Statement.size_even _), ?_⟩
  intro s hs
  rcases Array.mem_push.mp hs with hs | rfl
  · exact h.statements s hs
  · exact h.next

theorem aligned_org (h : l.Aligned) (keyword : Token) (operands : List Token) :
    (l.org keyword operands).Aligned := by
  unfold org
  split
  · split
    · exact aligned_report h _
    · rename_i value _
      split
      · exact aligned_report h _
      · rename_i hvalue
        have heven : value.toNat % 2 = 0 := by omega
        exact ⟨aligned_ofNat heven, h.statements⟩
  · exact aligned_report h _

theorem aligned_equ (h : l.Aligned) (keyword : Token) (operands : List Token) :
    (l.equ keyword operands).Aligned := by
  unfold equ
  split
  · split
    · exact aligned_report h _
    · split
      · exact aligned_report h _
      · exact aligned_define h _ _
  · exact aligned_report h _

theorem aligned_words (h : l.Aligned) (keyword : Token) (operands : List Token) :
    (l.words keyword operands).Aligned := by
  unfold words
  split
  · exact aligned_statement h _ _ _
  · split
    · exact aligned_org h _ _
    · split
      · exact aligned_report h _
      · exact aligned_statement h _ _ _
    · exact aligned_equ h _ _
    · exact aligned_report h _

theorem aligned_line (h : l.Aligned) (origin : LineStart) (text : Bytes) :
    (l.line origin text).Aligned := by
  unfold line
  split
  · exact aligned_report h _
  · rename_i content _
    cases content.label with
    | none =>
      dsimp only
      split
      · exact h
      · exact aligned_words h _ _
    | some name =>
      have hlabel := aligned_label h name
      dsimp only
      split
      · exact hlabel
      · exact aligned_words hlabel _ _

theorem aligned_ofSource (source : Bytes) : (ofSource source).Aligned := by
  unfold ofSource
  have hstart : ({} : Layout).Aligned := ⟨rfl, by simp⟩
  generalize ({} : Layout) = l at hstart
  generalize (⟨1, 0⟩ : LineStart) = origin
  induction (Text.lines source).lines generalizing l origin with
  | nil => exact hstart
  | cons text rest ih => exact ih _ (aligned_line hstart origin text) _

end Layout

/-! ## The second pass -/

theorem aligned_placed {α : Type} {a : UInt32} (h : Aligned a) (words : List α) :
    ∀ item ∈ placed a words, Aligned item.1 := by
  intro item hitem
  obtain ⟨⟨word, i⟩, -, rfl⟩ := List.mem_map.mp hitem
  exact h.add (Nat.mul_mod_right 2 i)

theorem Statement.aligned_items (l : Layout) {s : Statement} (h : Aligned s.address) :
    ∀ item ∈ s.items l, Aligned item.1 := by
  unfold items
  split
  · exact aligned_placed h _
  · split
    · exact aligned_placed h _
    · intro item hitem
      rw [List.mem_singleton.mp hitem]
      exact h

namespace Code

/-- The words in memory stand at even addresses. -/
def Aligned (c : Code) : Prop := ∀ a ∈ c.words, Asm.Aligned a

theorem aligned_emit {c : Code} (h : c.Aligned) (s : Statement) {a : UInt32} (ha : Asm.Aligned a)
    (word : UInt16) : (c.emit s a word).Aligned := by
  unfold emit
  split
  · exact h
  · intro b hb
    rcases Std.HashMap.mem_insert.mp hb with hab | hb
    · rw [← eq_of_beq hab]
      exact ha
    · exact h b hb

theorem aligned_statement (l : Layout) {c : Code} (h : c.Aligned) {s : Statement}
    (hs : Asm.Aligned s.address) : (c.statement l s).Aligned := by
  unfold statement
  have hitems := s.aligned_items l hs
  generalize s.items l = items at hitems
  induction items generalizing c with
  | nil => exact h
  | cons item rest ih =>
    obtain ⟨hitem, hrest⟩ := List.forall_mem_cons.mp hitems
    apply ih _ hrest
    obtain ⟨a, errors | word⟩ := item
    · exact h
    · exact aligned_emit h s hitem word

theorem aligned_foldl (l : Layout) {statements : List Statement}
    (hs : ∀ s ∈ statements, Asm.Aligned s.address) {c : Code} (h : c.Aligned) :
    (statements.foldl (Code.statement l) c).Aligned := by
  induction statements generalizing c with
  | nil => exact h
  | cons s rest ih =>
    obtain ⟨hhead, hrest⟩ := List.forall_mem_cons.mp hs
    exact ih hrest (aligned_statement l h hhead)

end Code

/-! ## Programs -/

theorem foldl_min_le (words : List (UInt32 × UInt16)) (low : Nat) :
    words.foldl (fun low word => min low word.1.toNat) low ≤ low := by
  induction words generalizing low with
  | nil => exact Nat.le_refl low
  | cons word rest ih => exact Nat.le_trans (ih _) (Nat.min_le_left _ _)

theorem le_foldl_max (words : List (UInt32 × UInt16)) (high : Nat) :
    high ≤ words.foldl (fun high word => max high word.1.toNat) high := by
  induction words generalizing high with
  | nil => exact Nat.le_refl high
  | cons word rest ih => exact Nat.le_trans (Nat.le_max_left _ _) (ih _)

theorem exists_foldl_max (first : UInt32 × UInt16) (rest : List (UInt32 × UInt16)) :
    ∃ word ∈ first :: rest,
      rest.foldl (fun high word => max high word.1.toNat) first.1.toNat = word.1.toNat := by
  induction rest generalizing first with
  | nil => exact ⟨first, List.mem_singleton_self first, rfl⟩
  | cons second rest ih =>
    rw [List.foldl_cons]
    rcases Nat.le_total first.1.toNat second.1.toNat with hle | hle
    · rw [Nat.max_eq_right hle]
      obtain ⟨word, hword, heq⟩ := ih second
      exact ⟨word, List.mem_cons_of_mem first hword, heq⟩
    · rw [Nat.max_eq_left hle]
      obtain ⟨word, hword, heq⟩ := ih first
      refine ⟨word, ?_, heq⟩
      rcases List.mem_cons.mp hword with rfl | hword
      · exact List.mem_cons_self
      · exact List.mem_cons_of_mem first (List.mem_cons_of_mem second hword)

@[simp] theorem size_imageBytes (base stop : Nat) (words : List (UInt32 × UInt16)) :
    (imageBytes base stop words).size = stop - base := by
  unfold imageBytes
  have hsize : (Array.replicate (stop - base) gap).size = stop - base := Array.size_replicate
  generalize Array.replicate (stop - base) gap = data at hsize
  induction words generalizing data with
  | nil => exact hsize
  | cons word rest ih => exact ih _ (by simpa using hsize)

theorem Code.span_of_aligned {c : Code} (h : c.Aligned) {labels : Std.HashMap Bytes UInt32}
    {program : Program} (hprogram : c.program? labels = some program) :
    0 < program.data.size ∧ program.base.toNat + program.data.size ≤ UInt32.size := by
  unfold program? at hprogram
  split at hprogram
  · cases hprogram
  · rename_i first rest hwords
    obtain ⟨last, hlast, hhigh⟩ := exists_foldl_max first rest
    have heven : Asm.Aligned last.1 := by
      rw [← hwords] at hlast
      apply h
      rw [← Std.HashMap.mem_keys, ← Std.HashMap.map_fst_toList_eq_keys]
      exact List.mem_map_of_mem hlast
    have hlow := foldl_min_le rest first.1.toNat
    have hle := le_foldl_max rest first.1.toNat
    have hspace := last.1.toNat_lt
    unfold Asm.Aligned at heven
    cases hprogram
    dsimp only
    rw [size_imageBytes, UInt32.toNat_ofNat', hhigh]
    unfold UInt32.size
    omega

/-- A program is not empty and ends within the address space. -/
theorem assemble_span {source : Bytes} {program : Program}
    (h : assemble source = .ok program) :
    0 < program.data.size ∧ program.base.toNat + program.data.size ≤ UInt32.size := by
  unfold assemble at h
  have hstatements := (Layout.aligned_ofSource source).statements
  generalize Layout.ofSource source = layout at h hstatements
  have hempty : ({} : Code).Aligned := fun a ha => absurd ha Std.HashMap.not_mem_empty
  have hcode : (layout.statements.foldl (Code.statement layout) {}).Aligned := by
    rw [← Array.foldl_toList]
    exact Code.aligned_foldl layout (fun s hs => hstatements s (Array.mem_toList_iff.mp hs)) hempty
  dsimp only at h
  split at h
  · split at h
    · split at h
      · rename_i hprogram
        cases h
        exact Code.span_of_aligned hcode hprogram
      · cases h
    · cases h
  · cases h

end AvrSim.Asm
