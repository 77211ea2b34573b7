import AvrSim.Proofs.Asm.Alignment
import AvrSim.Proofs.Asm.Operands
import AvrSim.Proofs.Hex.Image
import Mathlib.Data.List.Nodup

/-!
# The bytes of a program

The second pass puts the words of every statement into memory and reports a word that meets another. If
it reports nothing, memory holds the words of all statements, no two of them at one address, and the
program is their image: each word low byte first at its address, 0xFF between them, from the first word
to the last.

* `Code.Stores` is what holds of memory while nothing is reported, `Code.stores_statements` that it does.
* `Program.Shows` is what an image shows of words, `Code.shows_of_stores` that a program shows them.
* `shows_of_assemble` for a source.
-/

namespace AvrSim.Asm

/-! ## The words of a statement -/

theorem mem_placed_iff {α : Type} {address : UInt32} {words : List α} {item : UInt32 × α} :
    item ∈ placed address words ↔
      ∃ i, words[i]? = some item.2 ∧ item.1 = address + UInt32.ofNat (2 * i) := by
  unfold placed
  rw [List.mem_map]
  constructor
  · rintro ⟨⟨word, i⟩, hmem, rfl⟩
    exact ⟨i, List.mem_zipIdx_iff_getElem?.mp hmem, rfl⟩
  · rintro ⟨i, hword, haddress⟩
    exact ⟨(item.2, i), List.mem_zipIdx_iff_getElem?.mpr hword, Prod.ext haddress.symm rfl⟩

theorem Layout.refused_wordValue (l : Layout) (operand : Token) :
    Checked.Refused (l.wordValue operand) operand.Accused := by
  unfold wordValue
  split
  · exact .ok _
  · exact .map (refused_value _ _ _ _) _

/-- A word of a statement is missing only with errors about the operands of the statement. -/
theorem Statement.refused_items (l : Layout) (s : Statement) :
    ∀ item ∈ s.items l, Checked.Refused item.2 (Faulty s.keyword.position s.operands) := by
  have hplaced : ∀ words : List (Checked UInt16),
      (∀ word ∈ words, Checked.Refused word (Faulty s.keyword.position s.operands)) →
      ∀ item ∈ placed s.address words,
        Checked.Refused item.2 (Faulty s.keyword.position s.operands) := by
    intro words hwords item hitem
    obtain ⟨i, hword, -⟩ := mem_placed_iff.mp hitem
    exact hwords item.2 (List.mem_of_getElem? hword)
  unfold items
  split
  · apply hplaced
    intro word hword
    obtain ⟨operand, hoperand, rfl⟩ := List.mem_map.mp hword
    exact (l.refused_wordValue operand).mono fun e he => .inl ⟨operand, hoperand, he⟩
  · split
    · apply hplaced
      intro word hword
      obtain ⟨word, -, rfl⟩ := List.mem_map.mp hword
      exact .ok word
    · rename_i errors herrors
      intro item hitem
      rw [List.mem_singleton.mp hitem]
      exact (refused_instruction _ _ _ _ _).of_error herrors

/-! ## Memory -/

/-- Puts a word into memory, or reports what stands in its place. -/
def Code.put (s : Statement) (c : Code) (item : UInt32 × Checked UInt16) : Code :=
  match item.2 with
  | .ok word => c.emit s item.1 word
  | .error errors => { c with errors := c.errors ++ errors.toArray }

/-- Nothing has been reported, and memory holds the words of these items, each at an address of its
own. -/
structure Code.Stores (c : Code) (items : List (UInt32 × Checked UInt16)) : Prop where
  clean : c.errors = #[]
  sound : ∀ item ∈ items, ∃ word, item.2 = .ok word
  distinct : (items.map Prod.fst).Nodup
  words : ∀ a word, c.words[a]? = some word ↔ (a, .ok word) ∈ items

namespace Code

variable {c : Code} {items : List (UInt32 × Checked UInt16)} {s : Statement}

theorem stores_empty : ({} : Code).Stores [] where
  clean := rfl
  sound := nofun
  distinct := List.nodup_nil
  words a word := by simp

theorem Stores.mem_words (h : c.Stores items) {a : UInt32} :
    a ∈ c.words ↔ a ∈ items.map Prod.fst := by
  rw [List.mem_map, ← Std.HashMap.isSome_getElem?_iff_mem, Option.isSome_iff_exists]
  constructor
  · rintro ⟨word, hword⟩
    exact ⟨_, (h.words a word).mp hword, rfl⟩
  · rintro ⟨⟨a, x⟩, hmem, rfl⟩
    obtain ⟨word, rfl⟩ := h.sound _ hmem
    exact ⟨word, (h.words a word).mpr hmem⟩

/-- A word that is put into memory without a report was put where there was none. -/
theorem stores_put {item : UInt32 × Checked UInt16} {P : Error → Prop}
    (h : c.errors = #[] → c.Stores items) (hitem : Checked.Refused item.2 P)
    (hclean : (c.put s item).errors = #[]) : (c.put s item).Stores (items ++ [item]) := by
  obtain ⟨a, errors | word⟩ := item
  · have hnil : errors = [] := by
      unfold put at hclean
      simp only [Array.append_eq_empty_iff] at hclean
      simpa using hclean.2
    exact absurd hnil (hitem errors rfl).1
  · unfold put emit at hclean ⊢
    dsimp only at hclean ⊢
    split at hclean
    · simp at hclean
    · rename_i hfree
      rw [if_neg hfree]
      rw [Std.HashMap.contains_iff_mem] at hfree
      have hold := h hclean
      rw [hold.mem_words] at hfree
      constructor
      case clean => exact hclean
      case sound =>
        intro item hmem
        rcases List.mem_append.mp hmem with hmem | hmem
        · exact hold.sound item hmem
        · exact ⟨word, by rw [List.mem_singleton.mp hmem]⟩
      case distinct =>
        rw [List.map_append, List.nodup_append]
        refine ⟨hold.distinct, List.nodup_singleton a, ?_⟩
        intro b hb d hd heq
        rw [heq, List.mem_singleton.mp hd] at hb
        exact hfree hb
      case words =>
        intro b other
        rw [Std.HashMap.getElem?_insert, List.mem_append, List.mem_singleton, ← hold.words]
        by_cases hb : a = b
        · subst hb
          have hnone : c.words[a]? = none :=
            Std.HashMap.getElem?_eq_none fun hmem => hfree (hold.mem_words.mp hmem)
          simp [hnone, eq_comm]
        · simp [hb, Ne.symm hb]

theorem stores_foldl_put {more : List (UInt32 × Checked UInt16)} {P : Error → Prop}
    (h : c.errors = #[] → c.Stores items) (hmore : ∀ item ∈ more, Checked.Refused item.2 P)
    (hclean : (more.foldl (put s) c).errors = #[]) :
    (more.foldl (put s) c).Stores (items ++ more) := by
  induction more generalizing c items with
  | nil => simpa using h hclean
  | cons item more ih =>
    rw [List.forall_mem_cons] at hmore
    have hrest := ih (stores_put h hmore.1) hmore.2 hclean
    rwa [List.append_assoc] at hrest

/-- The second pass stores the words of all statements, or something is reported. -/
theorem stores_statements {l : Layout} {statements : List Statement}
    (h : c.errors = #[] → c.Stores items)
    (hclean : (statements.foldl (Code.statement l) c).errors = #[]) :
    (statements.foldl (Code.statement l) c).Stores (items ++ statements.flatMap (·.items l)) := by
  induction statements generalizing c items with
  | nil => simpa using h hclean
  | cons s rest ih =>
    have hrest := ih (stores_foldl_put h (s.refused_items l)) hclean
    rwa [List.append_assoc] at hrest

end Code

/-! ## Images -/

/-- A word at a byte address of a program, low byte first. -/
def Program.Holds (p : Program) (address : Nat) (word : UInt16) : Prop :=
  p.base.toNat ≤ address ∧
    p.data[address - p.base.toNat]? = some word.toUInt8 ∧
    p.data[address - p.base.toNat + 1]? = some (word >>> 8).toUInt8

/-- The program is the image of the words: from the first to the last, each at its address, and erased
memory between them. -/
structure Program.Shows (p : Program) (items : List (UInt32 × Checked UInt16)) : Prop where
  words : ∀ a word, (a, .ok word) ∈ items → p.Holds a.toNat word
  gaps : ∀ x, p.base.toNat ≤ x → x < p.base.toNat + p.data.size →
    (∀ item ∈ items, x ≠ item.1.toNat ∧ x ≠ item.1.toNat + 1) → p.data[x - p.base.toNat]? = some gap
  first : ∃ item ∈ items, item.1.toNat = p.base.toNat
  last : ∃ item ∈ items, item.1.toNat + 2 = p.base.toNat + p.data.size

section Bytes

variable {base : Nat} {data : Array UInt8}

/-- Writes a word into the bytes from `base` on. -/
def putBytes (base : Nat) (data : Array UInt8) (item : UInt32 × UInt16) : Array UInt8 :=
  (data.setIfInBounds (item.1.toNat - base) item.2.toUInt8).setIfInBounds
    (item.1.toNat - base + 1) (item.2 >>> 8).toUInt8

@[simp] theorem size_putBytes (item : UInt32 × UInt16) :
    (putBytes base data item).size = data.size := by simp [putBytes]

theorem getElem?_putBytes_of_ne {item : UInt32 × UInt16} {p : Nat} (hlow : p ≠ item.1.toNat - base)
    (hhigh : p ≠ item.1.toNat - base + 1) : (putBytes base data item)[p]? = data[p]? := by
  unfold putBytes
  rw [Array.getElem?_setIfInBounds_ne (Ne.symm hhigh), Array.getElem?_setIfInBounds_ne (Ne.symm hlow)]

theorem getElem?_foldl_putBytes_of_ne {words : List (UInt32 × UInt16)} {p : Nat}
    (h : ∀ item ∈ words, p ≠ item.1.toNat - base ∧ p ≠ item.1.toNat - base + 1) :
    (words.foldl (putBytes base) data)[p]? = data[p]? := by
  induction words generalizing data with
  | nil => rfl
  | cons item rest ih =>
    rw [List.forall_mem_cons] at h
    rw [List.foldl_cons, ih h.2, getElem?_putBytes_of_ne h.1.1 h.1.2]

/-- Words at different even addresses do not overwrite each other. -/
theorem getElem?_foldl_putBytes_of_mem {words : List (UInt32 × UInt16)} {item : UInt32 × UInt16}
    (hdistinct : words.Pairwise fun v w => v.1 ≠ w.1)
    (hplaced : ∀ v ∈ words,
      Aligned v.1 ∧ base ≤ v.1.toNat ∧ v.1.toNat + 2 ≤ base + data.size)
    (hmem : item ∈ words) :
    (words.foldl (putBytes base) data)[item.1.toNat - base]? = some item.2.toUInt8 ∧
      (words.foldl (putBytes base) data)[item.1.toNat - base + 1]? =
        some (item.2 >>> 8).toUInt8 := by
  induction words generalizing data with
  | nil => cases hmem
  | cons first rest ih =>
    rw [List.pairwise_cons] at hdistinct
    rw [List.forall_mem_cons] at hplaced
    obtain ⟨⟨heven, hbase, hend⟩, hrest⟩ := hplaced
    rcases List.mem_cons.mp hmem with rfl | hmem
    · have happart : ∀ v ∈ rest, v.1.toNat + 2 ≤ item.1.toNat ∨ item.1.toNat + 2 ≤ v.1.toNat := by
        intro v hv
        have hne : v.1.toNat ≠ item.1.toNat := fun heq =>
          hdistinct.1 v hv (UInt32.toNat_inj.mp heq.symm)
        have hv := (hrest v hv).1
        unfold Aligned at heven hv
        omega
      have hbefore := fun v hv => (hrest v hv).2.1
      rw [List.foldl_cons, getElem?_foldl_putBytes_of_ne, getElem?_foldl_putBytes_of_ne]
      · unfold putBytes
        constructor
        · rw [Array.getElem?_setIfInBounds_ne (by omega),
            Array.getElem?_setIfInBounds_self_of_lt (by omega)]
        · rw [Array.getElem?_setIfInBounds_self_of_lt (by rw [Array.size_setIfInBounds]; omega)]
      all_goals
        intro v hv
        have hv' := happart v hv
        have hbelow := hbefore v hv
        omega
    · refine ih hdistinct.2 ?_ hmem
      rwa [size_putBytes]

end Bytes

theorem imageBytes_eq_foldl (base stop : Nat) (words : List (UInt32 × UInt16)) :
    imageBytes base stop words =
      words.foldl (putBytes base) (Array.replicate (stop - base) gap) := rfl

/-- The bytes from the lowest to the highest of some words are their image. -/
theorem shows_imageBytes {words : List (UInt32 × UInt16)} {items : List (UInt32 × Checked UInt16)}
    {lowest highest : UInt32 × UInt16} (labels : Std.HashMap Bytes UInt32)
    (hdistinct : words.Pairwise fun v w => v.1 ≠ w.1) (heven : ∀ v ∈ words, Aligned v.1)
    (hmem : ∀ v, v ∈ words ↔ (v.1, .ok v.2) ∈ items)
    (hlowest : lowest ∈ words) (hlow : ∀ v ∈ words, lowest.1.toNat ≤ v.1.toNat)
    (hhighest : highest ∈ words) (hhigh : ∀ v ∈ words, v.1.toNat ≤ highest.1.toNat) :
    Program.Shows
      ⟨lowest.1, imageBytes lowest.1.toNat (highest.1.toNat + 2) words, labels⟩ items := by
  have hsize := size_imageBytes lowest.1.toNat (highest.1.toNat + 2) words
  have hspan := hhigh lowest hlowest
  constructor
  case words =>
    intro a word hitem
    have hword : (a, word) ∈ words := (hmem (a, word)).mpr hitem
    refine ⟨hlow _ hword, getElem?_foldl_putBytes_of_mem hdistinct (fun v hv => ?_) hword⟩
    have hbelow := hlow v hv
    have habove := hhigh v hv
    rw [Array.size_replicate]
    exact ⟨heven v hv, by omega, by omega⟩
  case gaps =>
    intro x hbase hend huncovered
    dsimp only at hbase hend ⊢
    rw [hsize] at hend
    rw [imageBytes_eq_foldl, getElem?_foldl_putBytes_of_ne, Array.getElem?_replicate,
      if_pos (by omega)]
    intro v hv
    have hoff : x ≠ v.1.toNat ∧ x ≠ v.1.toNat + 1 := huncovered _ ((hmem v).mp hv)
    have hbelow := hlow v hv
    omega
  case first => exact ⟨_, (hmem lowest).mp hlowest, rfl⟩
  case last =>
    refine ⟨_, (hmem highest).mp hhighest, ?_⟩
    dsimp only
    rw [hsize]
    omega

namespace Code

variable {c : Code} {items : List (UInt32 × Checked UInt16)}

theorem Stores.mem_toList (h : c.Stores items) {a : UInt32} {word : UInt16} :
    (a, word) ∈ c.words.toList ↔ (a, .ok word) ∈ items := by
  rw [Std.HashMap.mem_toList_iff_getElem?_eq_some, h.words]

theorem lowest_of_foldl (first : UInt32 × UInt16) (rest : List (UInt32 × UInt16)) :
    (∀ v ∈ first :: rest,
      rest.foldl (fun low word => min low word.1.toNat) first.1.toNat ≤ v.1.toNat) ∧
    ∃ v ∈ first :: rest,
      v.1.toNat = rest.foldl (fun low word => min low word.1.toNat) first.1.toNat := by
  have hiff := le_foldl_min_iff (fun word : UInt32 × UInt16 => word.1.toNat) rest first.1.toNat
  generalize rest.foldl (fun low word => min low word.1.toNat) first.1.toNat = low at hiff ⊢
  have hlow : ∀ v ∈ first :: rest, low ≤ v.1.toNat :=
    List.forall_mem_cons.mpr ((hiff low).mp (Nat.le_refl low))
  refine ⟨hlow, Decidable.by_contra fun hnone => ?_⟩
  have habove : ∀ v ∈ first :: rest, low + 1 ≤ v.1.toNat := fun v hv =>
    Nat.lt_of_le_of_ne (hlow v hv) fun heq => hnone ⟨v, hv, heq.symm⟩
  exact Nat.not_succ_le_self low ((hiff (low + 1)).mpr (List.forall_mem_cons.mp habove))

theorem le_highest_of_foldl (first : UInt32 × UInt16) (rest : List (UInt32 × UInt16)) :
    ∀ v ∈ first :: rest,
      v.1.toNat ≤ rest.foldl (fun high word => max high word.1.toNat) first.1.toNat :=
  List.forall_mem_cons.mpr
    ((foldl_max_le_iff (fun word : UInt32 × UInt16 => word.1.toNat) rest first.1.toNat _).mp
      (Nat.le_refl _))

/-- The program of stored words is their image. -/
theorem shows_of_stores (h : c.Stores items) (haligned : c.Aligned)
    {labels : Std.HashMap Bytes UInt32} {program : Program}
    (hprogram : c.program? labels = some program) :
    program.labels = labels ∧ program.Shows items := by
  have hdistinct : c.words.toList.Pairwise fun v w => v.1 ≠ w.1 :=
    Std.HashMap.distinct_keys_toList.imp fun hne heq => by simp [heq] at hne
  have heven : ∀ v ∈ c.words.toList, Asm.Aligned v.1 := by
    intro v hv
    apply haligned
    rw [← Std.HashMap.mem_keys, ← Std.HashMap.map_fst_toList_eq_keys]
    exact List.mem_map_of_mem hv
  have hmem : ∀ v, v ∈ c.words.toList ↔ (v.1, .ok v.2) ∈ items := fun v => h.mem_toList
  unfold program? at hprogram
  split at hprogram
  · cases hprogram
  · rename_i first rest hwords
    rw [hwords] at hdistinct heven hmem
    obtain ⟨hlow, lowest, hlowest, hbase⟩ := lowest_of_foldl first rest
    have hhigh := le_highest_of_foldl first rest
    obtain ⟨highest, hhighest, hlast⟩ := exists_foldl_max first rest
    have hofNat : UInt32.ofNat (rest.foldl (fun low word => min low word.1.toNat) first.1.toNat) =
        lowest.1 := by
      rw [← hbase, UInt32.ofNat_toNat]
    dsimp only at hprogram
    rw [hofNat, ← hbase, hlast] at hprogram
    rw [← hbase] at hlow
    rw [hlast] at hhigh
    cases hprogram
    exact ⟨rfl, shows_imageBytes labels hdistinct heven hmem hlowest hlow hhighest hhigh⟩

end Code

/-! ## Sources -/

/-- A source that has a program passes both passes, and the program shows the words of its statements. -/
theorem shows_of_assemble {source : Bytes} {program : Program} (h : assemble source = .ok program) :
    let layout := Layout.ofSource source
    let items := layout.statements.toList.flatMap (·.items layout)
    layout.errors = #[] ∧ program.labels = layout.labels ∧ (items.map Prod.fst).Nodup ∧
      (∀ item ∈ items, ∃ word, item.2 = .ok word) ∧ program.Shows items := by
  have haligned := (Layout.aligned_ofSource source).statements
  unfold assemble at h
  generalize Layout.ofSource source = layout at h haligned
  dsimp only at h
  split at h
  · rename_i hlayout
    split at h
    · rename_i hcode
      split at h
      · rename_i hprogram
        cases h
        rw [Array.isEmpty_iff] at hlayout hcode
        rw [← Array.foldl_toList] at hcode hprogram
        have hstores := Code.stores_statements (fun _ => Code.stores_empty) hcode
        have heven := Code.aligned_foldl layout
          (fun s hs => haligned s (Array.mem_toList_iff.mp hs))
          (fun a ha => absurd ha Std.HashMap.not_mem_empty : ({} : Code).Aligned)
        obtain ⟨hlabels, hshows⟩ := Code.shows_of_stores hstores heven hprogram
        exact ⟨hlayout, hlabels, hstores.distinct, hstores.sound, hshows⟩
      · cases h
    · cases h
  · cases h

/-- A source of one statement that gives one word. -/
theorem assemble_of_word {source : Bytes} {s : Statement} {address : UInt32} {word : UInt16}
    (herrors : (Layout.ofSource source).errors = #[])
    (hstatements : (Layout.ofSource source).statements = #[s])
    (hitems : s.items (Layout.ofSource source) = [(address, .ok word)]) : assemble source =
      .ok ⟨address, #[word.toUInt8, (word >>> 8).toUInt8], (Layout.ofSource source).labels⟩ := by
  unfold assemble
  generalize Layout.ofSource source = l at herrors hstatements hitems
  have hcode : l.statements.foldl (Code.statement l) {} =
      { words := (∅ : Std.HashMap UInt32 UInt16).insert address word } := by
    rw [hstatements]
    simp [Code.statement, hitems, Code.emit]
  have hwords : ((∅ : Std.HashMap UInt32 UInt16).insert address word).toList = [(address, word)] := by
    apply List.perm_singleton.mp
    refine Std.HashMap.toList_insert_perm.trans ?_
    simp
  have hbytes : imageBytes address.toNat (address.toNat + 2) [(address, word)] =
      #[word.toUInt8, (word >>> 8).toUInt8] := by
    unfold imageBytes
    rw [List.foldl_cons, List.foldl_nil, Nat.add_sub_cancel_left]
    dsimp only
    rw [Nat.sub_self]
    rfl
  dsimp only
  rw [herrors, hcode]
  unfold Code.program?
  dsimp only
  rw [hwords]
  dsimp only [List.foldl_nil]
  rw [hbytes, UInt32.ofNat_toNat]
  rfl

end AvrSim.Asm
