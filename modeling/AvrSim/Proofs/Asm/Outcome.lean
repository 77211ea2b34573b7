import AvrSim.Proofs.Asm.Passes
import AvrSim.Proofs.Asm.Unplaced

/-!
# What a source assembles to

A source has a program exactly if its first pass reports nothing and its words can all be found, stand at
addresses of their own, and are not none at all. Which program it is depends on the words and their
addresses only, not on the order in which they come.

* `Layout.Placeable` is the condition on the words, `exists_assemble_iff` says that there is no other.
* `Program.Shows.unique`: the words determine the bytes.
* `Layout.SameItems`: the same words in any order; `image_of_sameItems`: they give the same bytes.
-/

namespace AvrSim.Asm

/-- The words of all statements with their addresses, or what is wrong in their places. -/
def Layout.items (l : Layout) : List (UInt32 × Checked UInt16) :=
  l.statements.toList.flatMap (·.items l)

/-- The words can be put into memory, and there are some. -/
structure Layout.Placeable (l : Layout) : Prop where
  sound : ∀ item ∈ l.items, ∃ word, item.2 = .ok word
  distinct : (l.items.map Prod.fst).Nodup
  some : l.items ≠ []

/-! ## Success -/

namespace Code

variable {c : Code} {items more : List (UInt32 × Checked UInt16)} {s : Statement}

/-- A word finds its place if there is no other at its address. -/
theorem stores_put_of_free {item : UInt32 × Checked UInt16} (h : c.Stores items)
    (hsound : ∃ word, item.2 = .ok word) (hfree : item.1 ∉ items.map Prod.fst) :
    (c.put s item).Stores (items ++ [item]) := by
  obtain ⟨word, hword⟩ := hsound
  have hrefused : Checked.Refused item.2 fun _ => True := by
    rw [hword]
    exact .ok word
  refine stores_put (fun _ => h) hrefused ?_
  rw [← h.mem_words] at hfree
  unfold put emit
  rw [hword]
  dsimp only
  rw [if_neg (by simpa using hfree)]
  exact h.clean

theorem stores_foldl_put_of_distinct (h : c.Stores items)
    (hsound : ∀ item ∈ more, ∃ word, item.2 = .ok word)
    (hdistinct : ((items ++ more).map Prod.fst).Nodup) :
    (more.foldl (put s) c).Stores (items ++ more) := by
  induction more generalizing c items with
  | nil => simpa using h
  | cons item more ih =>
    rw [List.forall_mem_cons] at hsound
    have hfree : item.1 ∉ items.map Prod.fst := by
      intro hmem
      rw [List.map_append, List.nodup_append] at hdistinct
      exact hdistinct.2.2 _ hmem _ List.mem_cons_self rfl
    have hassoc : items ++ item :: more = (items ++ [item]) ++ more := by simp
    rw [hassoc] at hdistinct ⊢
    exact ih (stores_put_of_free h hsound.1 hfree) hsound.2 hdistinct

/-- Words that stand apart are all stored. -/
theorem stores_of_distinct {l : Layout} {statements : List Statement} (h : c.Stores items)
    (hsound : ∀ item ∈ statements.flatMap (·.items l), ∃ word, item.2 = .ok word)
    (hdistinct : ((items ++ statements.flatMap (·.items l)).map Prod.fst).Nodup) :
    (statements.foldl (Code.statement l) c).Stores (items ++ statements.flatMap (·.items l)) := by
  induction statements generalizing c items with
  | nil => simpa using h
  | cons s rest ih =>
    rw [List.flatMap_cons] at hsound hdistinct ⊢
    rw [← List.append_assoc] at hdistinct ⊢
    have hfirst : ((items ++ s.items l).map Prod.fst).Nodup := by
      rw [List.map_append, List.nodup_append] at hdistinct
      exact hdistinct.1
    have hstep : (c.statement l s).Stores (items ++ s.items l) :=
      stores_foldl_put_of_distinct h (fun item hitem => hsound item (List.mem_append_left _ hitem)) hfirst
    exact ih hstep (fun item hitem => hsound item (List.mem_append_right _ hitem)) hdistinct

end Code

/-- A source has a program exactly if nothing is wrong with its lines and its words can be placed. -/
theorem exists_assemble_iff {source : Bytes} :
    (∃ program, assemble source = .ok program) ↔
      (Layout.ofSource source).errors = #[] ∧ (Layout.ofSource source).Placeable := by
  constructor
  · rintro ⟨program, h⟩
    obtain ⟨hclean, -, hdistinct, hsound, hshows⟩ := shows_of_assemble h
    obtain ⟨item, hitem, -⟩ := hshows.first
    exact ⟨hclean, hsound, hdistinct, List.ne_nil_of_mem hitem⟩
  · rintro ⟨hclean, hplaceable⟩
    unfold assemble
    generalize Layout.ofSource source = l at hclean hplaceable
    have hstores := Code.stores_of_distinct Code.stores_empty hplaceable.sound hplaceable.distinct
    rw [Array.foldl_toList] at hstores
    have hwords : (l.statements.foldl (Code.statement l) {}).words.isEmpty = false := by
      obtain ⟨item, hitem⟩ := List.exists_mem_of_ne_nil _ hplaceable.some
      rw [Std.HashMap.isEmpty_eq_false_iff_exists_mem]
      exact ⟨item.1, hstores.mem_words.mpr (List.mem_map_of_mem hitem)⟩
    obtain ⟨program, hprogram⟩ := Code.exists_program? hwords l.labels
    refine ⟨program, ?_⟩
    simp only [hclean, hstores.clean, Array.isEmpty_empty, if_true, hprogram]

/-! ## Images -/

namespace Program.Shows

variable {p q : Program} {items items' : List (UInt32 × Checked UInt16)}

/-- Words lie within the image. -/
theorem bounds (h : p.Shows items) {a : UInt32} {word : UInt16} (hitem : (a, .ok word) ∈ items) :
    p.base.toNat ≤ a.toNat ∧ a.toNat + 2 ≤ p.base.toNat + p.data.size := by
  obtain ⟨hbase, -, hhigh⟩ := h.words a word hitem
  have hinside := (Array.getElem?_eq_some_iff.mp hhigh).1
  omega

variable (hsound : ∀ item ∈ items, ∃ word, item.2 = .ok word)

include hsound

theorem span_le (hp : p.Shows items) (hq : q.Shows items) :
    p.base.toNat ≤ q.base.toNat ∧
      q.base.toNat + q.data.size ≤ p.base.toNat + p.data.size := by
  constructor
  · obtain ⟨⟨a, x⟩, hitem, hfirst⟩ := hq.first
    obtain ⟨word, rfl⟩ := hsound _ hitem
    rw [← hfirst]
    exact (hp.bounds hitem).1
  · obtain ⟨⟨a, x⟩, hitem, hlast⟩ := hq.last
    obtain ⟨word, rfl⟩ := hsound _ hitem
    rw [← hlast]
    exact (hp.bounds hitem).2

/-- The words determine the image. -/
theorem unique (hp : p.Shows items) (hq : q.Shows items) : p.base = q.base ∧ p.data = q.data := by
  obtain ⟨hbelow, habove⟩ := span_le hsound hp hq
  obtain ⟨hbelow', habove'⟩ := span_le hsound hq hp
  have hbase : p.base.toNat = q.base.toNat := by omega
  refine ⟨UInt32.toNat_inj.mp hbase, Array.ext_getElem? fun i => ?_⟩
  by_cases hi : i < p.data.size
  · -- a byte of a word, the low or the high one, or a gap
    by_cases hcovered : ∃ item ∈ items,
        p.base.toNat + i = item.1.toNat ∨ p.base.toNat + i = item.1.toNat + 1
    · obtain ⟨⟨a, x⟩, hitem, hplace⟩ := hcovered
      obtain ⟨word, rfl⟩ := hsound _ hitem
      obtain ⟨hstart, hlow, hhigh⟩ := hp.words a word hitem
      obtain ⟨-, hlow', hhigh'⟩ := hq.words a word hitem
      dsimp only at hplace
      rcases hplace with hplace | hplace
      · have hindex : i = a.toNat - p.base.toNat := by omega
        rw [hindex, hlow, hbase, hlow']
      · have hindex : i = a.toNat - p.base.toNat + 1 := by omega
        rw [hindex, hhigh, hbase, hhigh']
    · have hfree : ∀ item ∈ items,
          p.base.toNat + i ≠ item.1.toNat ∧ p.base.toNat + i ≠ item.1.toNat + 1 := by
        intro item hitem
        exact ⟨fun h => hcovered ⟨item, hitem, .inl h⟩, fun h => hcovered ⟨item, hitem, .inr h⟩⟩
      have hgap := hp.gaps (p.base.toNat + i) (by omega) (by omega) hfree
      have hgap' := hq.gaps (p.base.toNat + i) (by omega) (by omega) hfree
      rw [Nat.add_sub_cancel_left] at hgap
      rw [hbase, Nat.add_sub_cancel_left] at hgap'
      rw [hgap, hgap']
  · rw [Array.getElem?_eq_none (by omega), Array.getElem?_eq_none (by omega)]

end Program.Shows

/-! ## Other orders -/

section Orders

variable {l l' : Layout}

/-- The same words at the same addresses, in any order. -/
def Layout.SameItems (l l' : Layout) : Prop := (l.items.map settled).Perm (l'.items.map settled)

theorem Layout.map_settled_items (hl : l.SameNames l') :
    l.items.map settled =
      (l.statements.toList.map Statement.unplaced).flatMap fun s => (s.items l').map settled := by
  rw [items, List.map_flatMap, List.flatMap_map]
  exact congrArg (List.flatMap · l.statements.toList) (funext fun s => settled_items hl (by simp))

/-- Statements that differ in their order and places only have the same words. -/
theorem Layout.sameItems_of_perm (hl : l.SameNames l')
    (h : (l.statements.toList.map Statement.unplaced).Perm
      (l'.statements.toList.map Statement.unplaced)) : l.SameItems l' := by
  unfold SameItems
  rw [map_settled_items hl, map_settled_items ⟨fun _ => rfl, fun _ => rfl⟩]
  exact h.flatMap_right _

theorem settled_eq_iff {item : UInt32 × Checked UInt16} {a : UInt32} {word : UInt16} :
    settled item = (a, some word) ↔ item = (a, .ok word) := by
  obtain ⟨b, x⟩ := item
  cases x with
  | ok v => simp [settled, Except.toOption]
  | error e => simp [settled, Except.toOption]

theorem Layout.SameItems.mem (h : l.SameItems l') {a : UInt32} {word : UInt16}
    (hitem : (a, .ok word) ∈ l.items) : (a, .ok word) ∈ l'.items := by
  have hsettled : settled (a, .ok word) ∈ l'.items.map settled :=
    h.mem_iff.mp (List.mem_map_of_mem hitem)
  obtain ⟨item, hmem, heq⟩ := List.mem_map.mp hsettled
  rwa [← settled_eq_iff.mp heq]

theorem Layout.SameItems.placeable (h : l.SameItems l') (hl : l.Placeable) : l'.Placeable where
  sound := by
    intro item hitem
    obtain ⟨⟨a, x⟩, hmem, heq⟩ := List.mem_map.mp (h.mem_iff.mpr (List.mem_map_of_mem hitem))
    obtain ⟨word, rfl⟩ := hl.sound _ hmem
    exact ⟨word, congrArg Prod.snd (settled_eq_iff.mp heq.symm)⟩
  distinct := by
    have hfst (k : Layout) : k.items.map Prod.fst = (k.items.map settled).map Prod.fst := by
      rw [List.map_map]
      rfl
    have hdistinct := hl.distinct
    rw [hfst] at hdistinct ⊢
    exact (h.map Prod.fst).nodup_iff.mp hdistinct
  some := by
    intro hnil
    have hperm := h
    rw [SameItems, hnil, List.map_nil, List.perm_nil, List.map_eq_nil_iff] at hperm
    exact hl.some hperm

/-- The order of the words does not show in an image. -/
theorem Program.Shows.of_sameItems {p : Program} (h : l.SameItems l') (hl : l.Placeable)
    (hp : p.Shows l.items) : p.Shows l'.items := by
  have hmem : ∀ item, item ∈ l.items ↔ item ∈ l'.items := by
    rintro ⟨a, x⟩
    constructor
    · intro hitem
      obtain ⟨word, rfl⟩ := hl.sound _ hitem
      exact h.mem hitem
    · intro hitem
      obtain ⟨word, rfl⟩ := (h.placeable hl).sound _ hitem
      exact Layout.SameItems.mem h.symm hitem
  exact
    { words := fun a word hitem => hp.words a word ((hmem _).mpr hitem)
      gaps := fun x hbase hend hfree =>
        hp.gaps x hbase hend fun item hitem => hfree item ((hmem item).mp hitem)
      first := by
        obtain ⟨item, hitem, hfirst⟩ := hp.first
        exact ⟨item, (hmem item).mp hitem, hfirst⟩
      last := by
        obtain ⟨item, hitem, hlast⟩ := hp.last
        exact ⟨item, (hmem item).mp hitem, hlast⟩ }

/-- Sources with the same words have the same bytes. -/
theorem image_of_sameItems {s t : Bytes} {p q : Program}
    (h : (Layout.ofSource s).SameItems (Layout.ofSource t)) (hp : assemble s = .ok p)
    (hq : assemble t = .ok q) : p.base = q.base ∧ p.data = q.data := by
  have hplaceable := (exists_assemble_iff.mp ⟨p, hp⟩).2
  obtain ⟨-, -, -, -, hshows⟩ := shows_of_assemble hp
  obtain ⟨-, -, -, hsound, hshows'⟩ := shows_of_assemble hq
  exact Program.Shows.unique hsound (hshows.of_sameItems h hplaceable) hshows'

end Orders

end AvrSim.Asm
