import AvrSim.Proofs.Hex.Language

/-!
# The last record wins

The data records of a file may come in any order, overlap and leave gaps. Said address by address, a
record writes its bytes from its own address on, moved by the offset in force behind the records before
it. The image of a file reaches from the lowest to the highest address written and holds at each address
what the last record to write there has put down, and the fill where none did.

* `Writes` is what a record writes, `Overlaid` what an image shows of that.
* `lastByte` computes the last byte written at an address, `get_foldl_store` that placing chunks one after
  the other leaves it there.
* `parse_overlaid`: every image that is read is an overlay of the records of its file.
-/

namespace AvrSim.Hex

/-! ## What records write -/

/-- The record at position `i` writes `b` at the address `a`. -/
def Writes (records : List Record) (i a : Nat) (b : UInt8) : Prop :=
  ∃ r k, records[i]? = some r ∧ r.kind = Record.data ∧ r.payload[k]? = some b ∧
    a = offsetBehind (records.take i) + r.address.toNat + k

/-- An image shows what records have written: it spans the addresses written, holds what the last record
to write at an address has put there, is filled where none has, and starts where the last record to name
a start says. -/
structure Overlaid (records : List Record) (image : Image) : Prop where
  size : image.size.toNat = image.data.size
  lowest : ∃ i b, Writes records i image.base.toNat b
  highest : ∃ i a b, Writes records i a b ∧ image.base.toNat + image.size.toNat = a + 1
  within : ∀ i a b, Writes records i a b →
    image.base.toNat ≤ a ∧ a < image.base.toNat + image.size.toNat
  written : ∀ i a b, Writes records i a b → (∀ j c, Writes records j a c → j ≤ i) →
    image.data[a - image.base.toNat]? = some b
  filled : ∀ a, image.base.toNat ≤ a → a < image.base.toNat + image.size.toNat →
    (∀ i b, ¬ Writes records i a b) → image.data[a - image.base.toNat]? = some fill
  start : image.start = startBehind records

/-! ## Bytes of chunks -/

/-- The byte that a chunk has at an address. -/
def Chunk.byteAt? (c : Chunk) (a : Nat) : Option UInt8 :=
  if c.address ≤ a then c.bytes[a - c.address]? else none

/-- The byte that the last chunk to cover an address has there. -/
def lastByte (chunks : List Chunk) (a : Nat) : Option UInt8 :=
  chunks.reverse.findSome? (·.byteAt? a)

theorem lastByte_cons (c : Chunk) (chunks : List Chunk) (a : Nat) :
    lastByte (c :: chunks) a = (lastByte chunks a).or (c.byteAt? a) := by
  simp [lastByte, List.findSome?_append]

theorem lastByte_append (front back : List Chunk) (a : Nat) :
    lastByte (front ++ back) a = (lastByte back a).or (lastByte front a) := by
  simp [lastByte, List.findSome?_append]

theorem Chunk.byteAt?_eq_some_iff {c : Chunk} {a : Nat} {b : UInt8} :
    c.byteAt? a = some b ↔ ∃ k, c.bytes[k]? = some b ∧ a = c.address + k := by
  unfold byteAt?
  constructor
  · intro h
    split at h
    · exact ⟨a - c.address, h, by omega⟩
    · cases h
  · rintro ⟨k, hk, rfl⟩
    rw [if_pos (Nat.le_add_right _ _), Nat.add_sub_cancel_left]
    exact hk

/-- Storing a chunk puts its bytes at their addresses. -/
theorem Chunk.get_store {m : Memory} {c : Chunk} {low a : Nat} (hlow : low ≤ c.address)
    (hstop : c.stop ≤ low + m.size) (ha : low ≤ a) :
    (m.store (c.address - low) c.bytes).get (a - low) = (c.byteAt? a).getD (m.get (a - low)) := by
  unfold stop at hstop
  rw [Memory.get_store m _ _ _ (by omega)]
  unfold byteAt?
  by_cases hfrom : c.address ≤ a
  · have hindex : a - low - (c.address - low) = a - c.address := by omega
    rw [if_pos hfrom, hindex]
    by_cases hto : a - c.address < c.bytes.length
    · rw [if_pos (by omega), List.getElem?_eq_getElem hto]
      simp [hto]
    · rw [if_neg (by omega), List.getElem?_eq_none (Nat.not_lt.mp hto)]
      rfl
  · rw [if_neg hfrom, if_neg (by omega)]
    rfl

/-- Chunks that are stored one after the other leave the last byte at each address. -/
theorem get_foldl_store {chunks : List Chunk} {m : Memory} {low a : Nat}
    (hchunks : ∀ c ∈ chunks, low ≤ c.address ∧ c.stop ≤ low + m.size) (ha : low ≤ a) :
    (chunks.foldl (fun m c => m.store (c.address - low) c.bytes) m).get (a - low) =
      (lastByte chunks a).getD (m.get (a - low)) := by
  induction chunks generalizing m with
  | nil => rfl
  | cons c chunks ih =>
    obtain ⟨hlow, hstop⟩ := hchunks c List.mem_cons_self
    have hrest : ∀ d ∈ chunks, low ≤ d.address ∧
        d.stop ≤ low + (m.store (c.address - low) c.bytes).size := by
      intro d hd
      rw [Memory.size_store]
      exact hchunks d (List.mem_cons_of_mem c hd)
    rw [List.foldl_cons, ih hrest, Chunk.get_store hlow hstop ha, lastByte_cons]
    cases lastByte chunks a <;> rfl

theorem size_foldl_store (chunks : List Chunk) (m : Memory) (low : Nat) :
    (chunks.foldl (fun m c => m.store (c.address - low) c.bytes) m).size = m.size := by
  induction chunks generalizing m with
  | nil => rfl
  | cons c chunks ih => rw [List.foldl_cons, ih, Memory.size_store]

/-! ## Bytes of records -/

theorem writes_iff {records : List Record} {i a : Nat} {b : UInt8} :
    Writes records i a b ↔
      ∃ r, records[i]? = some r ∧
        ∃ c, placement? (records.take i) r = some c ∧ c.byteAt? a = some b := by
  constructor
  · rintro ⟨r, k, hr, hkind, hk, rfl⟩
    have hne : r.payload ≠ [] := by
      intro hempty
      rw [hempty] at hk
      cases hk
    exact ⟨r, hr, _, if_pos ⟨hkind, hne⟩, Chunk.byteAt?_eq_some_iff.mpr ⟨k, hk, rfl⟩⟩
  · rintro ⟨r, hr, c, hc, hbyte⟩
    unfold placement? at hc
    split at hc
    · rename_i hdata
      cases hc
      obtain ⟨k, hk, ha⟩ := Chunk.byteAt?_eq_some_iff.mp hbyte
      exact ⟨r, k, hr, hdata.1, hk, ha⟩
    · cases hc

theorem Writes.lt {records : List Record} {i a : Nat} {b : UInt8} (h : Writes records i a b) :
    i < records.length := by
  obtain ⟨r, -, hr, -⟩ := h
  exact (List.getElem?_eq_some_iff.mp hr).1

theorem writes_append_iff {front back : List Record} {i a : Nat} {b : UInt8}
    (hi : i < front.length) : Writes (front ++ back) i a b ↔ Writes front i a b := by
  unfold Writes
  rw [List.getElem?_append_left hi, List.take_append_of_le_length (Nat.le_of_lt hi)]

theorem writes_last_iff {records : List Record} {r : Record} {a : Nat} {b : UInt8} :
    Writes (records ++ [r]) records.length a b ↔
      lastByte (placement? records r).toList a = some b := by
  rw [writes_iff, List.take_left, List.getElem?_concat_length]
  cases hplaced : placement? records r with
  | none => simp [lastByte, hplaced]
  | some c => simp [lastByte, hplaced]

/-- The byte of the last record to write at an address, whichever it is. -/
theorem lastByte_of_writes {records : List Record} {i a : Nat} {b : UInt8}
    (h : Writes records i a b) (hlast : ∀ j c, Writes records j a c → j ≤ i) :
    lastByte (placements records) a = some b := by
  induction records using List.reverseRecOn with
  | nil => exact absurd h.lt (Nat.not_lt_zero i)
  | append_singleton records r ih =>
    rw [placements_concat, lastByte_append]
    have hlt := h.lt
    rw [List.length_append, List.length_singleton] at hlt
    cases hbyte : lastByte (placement? records r).toList a with
    | some c =>
      -- the new record writes here, so it is the last one
      have hle := hlast _ c (writes_last_iff.mpr hbyte)
      obtain rfl : i = records.length := by omega
      rw [writes_last_iff, hbyte] at h
      exact h
    | none =>
      have hi : i < records.length := by
        rcases Nat.lt_succ_iff_lt_or_eq.mp hlt with hi | rfl
        · exact hi
        · rw [writes_last_iff, hbyte] at h
          cases h
      refine ih ((writes_append_iff hi).mp h) ?_
      intro j c hj
      exact hlast j c ((writes_append_iff hj.lt).mpr hj)

theorem lastByte_eq_none {records : List Record} {a : Nat} (h : ∀ i b, ¬ Writes records i a b) :
    lastByte (placements records) a = none := by
  induction records using List.reverseRecOn with
  | nil => rfl
  | append_singleton records r ih =>
    rw [placements_concat, lastByte_append]
    cases hbyte : lastByte (placement? records r).toList a with
    | some b => exact absurd (writes_last_iff.mpr hbyte) (h _ b)
    | none => exact ih fun i b hi => h i b ((writes_append_iff hi.lt).mpr hi)

theorem mem_placements_iff {records : List Record} {c : Chunk} :
    c ∈ placements records ↔
      ∃ i r, records[i]? = some r ∧ placement? (records.take i) r = some c := by
  unfold placements
  rw [List.mem_filterMap]
  constructor
  · rintro ⟨i, -, hi⟩
    obtain ⟨r, hr, hc⟩ := Option.bind_eq_some_iff.mp hi
    exact ⟨i, r, hr, hc⟩
  · rintro ⟨i, r, hr, hc⟩
    refine ⟨i, List.mem_range.mpr (List.getElem?_eq_some_iff.mp hr).1, ?_⟩
    rw [hr]
    exact hc

/-- Records write what their chunks hold. -/
theorem exists_writes_iff {records : List Record} {a : Nat} {b : UInt8} :
    (∃ i, Writes records i a b) ↔ ∃ c ∈ placements records, c.byteAt? a = some b := by
  constructor
  · rintro ⟨i, h⟩
    obtain ⟨r, hr, c, hc, hbyte⟩ := writes_iff.mp h
    exact ⟨c, mem_placements_iff.mpr ⟨i, r, hr, hc⟩, hbyte⟩
  · rintro ⟨c, hc, hbyte⟩
    obtain ⟨i, r, hr, hplaced⟩ := mem_placements_iff.mp hc
    exact ⟨i, writes_iff.mpr ⟨r, hr, c, hplaced, hbyte⟩⟩

/-- A chunk that records place is not empty. -/
theorem bytes_ne_nil_of_mem_placements {records : List Record} {c : Chunk}
    (h : c ∈ placements records) : c.bytes ≠ [] := by
  obtain ⟨i, r, -, hc⟩ := mem_placements_iff.mp h
  unfold placement? at hc
  split at hc
  · rename_i hdata
    cases hc
    exact hdata.2
  · cases hc

/-- Data ends within the address space. -/
theorem Reads.stop_le {lines : List Bytes} {records : List Record} (h : Reads lines records) :
    ∀ c ∈ placements records, c.stop ≤ addressLimit := by
  induction h with
  | nil => exact fun c hc => by cases hc
  | blank _ _ ih => exact ih
  | @record lines records line r _ _ hadmissible ih =>
    intro c hc
    rw [placements_concat] at hc
    rcases List.mem_append.mp hc with hc | hc
    · exact ih c hc
    · have hplaced := Option.mem_toList.mp hc
      unfold placement? at hplaced
      split at hplaced
      · rename_i hdata
        cases hplaced
        cases hadmissible with
        | data _ hspace => exact hspace
        | address hkind =>
          rw [hdata.1] at hkind
          exact absurd hkind (by decide)
        | start hkind =>
          rw [hdata.1] at hkind
          exact absurd hkind (by decide)
      · cases hplaced

/-! ## The span -/

section Span

variable {first : Chunk} {rest : List Chunk}

theorem lowest_le {c : Chunk} (hc : c ∈ first :: rest) : lowest first rest ≤ c.address := by
  have hall : ∀ c ∈ first :: rest, lowest first rest ≤ c.address := by
    rw [List.forall_mem_cons]
    exact (le_foldl_min_iff Chunk.address rest first.address _).mp (Nat.le_refl _)
  exact hall c hc

theorem le_highest {c : Chunk} (hc : c ∈ first :: rest) : c.stop ≤ highest first rest := by
  have hall : ∀ c ∈ first :: rest, c.stop ≤ highest first rest := by
    rw [List.forall_mem_cons]
    exact (foldl_max_le_iff Chunk.stop rest first.stop _).mp (Nat.le_refl _)
  exact hall c hc

theorem exists_lowest (first : Chunk) (rest : List Chunk) :
    ∃ c ∈ first :: rest, c.address = lowest first rest := by
  by_contra hnone
  have habove : ∀ c ∈ first :: rest, lowest first rest + 1 ≤ c.address := by
    intro c hc
    have hle := lowest_le hc
    have hne : c.address ≠ lowest first rest := fun heq => hnone ⟨c, hc, heq⟩
    omega
  have hless := (le_foldl_min_iff Chunk.address rest first.address _).mpr
    (List.forall_mem_cons.mp habove)
  exact Nat.not_succ_le_self _ hless

theorem exists_highest (first : Chunk) (rest : List Chunk) :
    ∃ c ∈ first :: rest, c.stop = highest first rest := by
  by_contra hnone
  have hbelow : ∀ c ∈ first :: rest, c.stop ≤ highest first rest - 1 := by
    intro c hc
    have hle := le_highest hc
    have hne : c.stop ≠ highest first rest := fun heq => hnone ⟨c, hc, heq⟩
    omega
  have hmore : highest first rest ≤ highest first rest - 1 :=
    (foldl_max_le_iff Chunk.stop rest first.stop _).mpr (List.forall_mem_cons.mp hbelow)
  have hzero : highest first rest = 0 := by omega
  have hfirst : first.stop ≤ highest first rest := le_highest List.mem_cons_self
  exact hnone ⟨first, List.mem_cons_self, by omega⟩

end Span

/-! ## Images -/

/-- The memory that chunks are laid out in. -/
def layOut (first : Chunk) (rest : List Chunk) : Memory :=
  (first :: rest).foldl (fun m c => m.store (c.address - lowest first rest) c.bytes)
    ⟨Array.replicate (highest first rest - lowest first rest) fill⟩

theorem of_flatten_eq_ok {limit low : Nat} {first : Chunk} {rest : List Chunk} {data : Array UInt8}
    (h : flatten limit first rest = .ok (low, data)) :
    low = lowest first rest ∧ data = (layOut first rest).bytes ∧
      highest first rest - lowest first rest ≤ limit := by
  unfold flatten at h
  dsimp only at h
  split at h
  · cases h
  · rename_i hspan
    cases h
    refine ⟨rfl, ?_, Nat.not_lt.mp hspan⟩
    unfold layOut
    exact List.foldl_hom Memory.bytes (fun _ _ => rfl)

theorem size_layOut (first : Chunk) (rest : List Chunk) :
    (layOut first rest).bytes.size = highest first rest - lowest first rest :=
  (size_foldl_store _ _ _).trans Array.size_replicate

/-- Between its ends the layout holds the last byte at each address. -/
theorem getElem?_layOut {first : Chunk} {rest : List Chunk} {a : Nat}
    (hlow : lowest first rest ≤ a) (hhigh : a < highest first rest) :
    (layOut first rest).bytes[a - lowest first rest]? =
      some ((lastByte (first :: rest) a).getD fill) := by
  have hspan := size_layOut first rest
  have hindex : a - lowest first rest < (layOut first rest).bytes.size := by omega
  have hget : (layOut first rest).get (a - lowest first rest) =
      (lastByte (first :: rest) a).getD fill := by
    unfold layOut
    rw [get_foldl_store ?_ hlow]
    · congr 1
      unfold Memory.get
      simp only [Array.getD_eq_getD_getElem?]
      rw [Array.getElem?_replicate, if_pos (by omega)]
      rfl
    · intro c hc
      have hsize : Memory.size ⟨Array.replicate (highest first rest - lowest first rest) fill⟩ =
          highest first rest - lowest first rest := Array.size_replicate
      have hbelow := lowest_le hc
      have habove := le_highest hc
      rw [hsize]
      omega
  rw [← hget, Array.getElem?_eq_getElem hindex]
  simp [Memory.get, hindex]

/-- What a text was read as: the records before its first end-of-file record, and what the reader makes
of them. -/
theorem of_parse_eq_ok {limit : Nat} {text : Bytes} {image : Image}
    (h : Image.parse limit text = .ok image) :
    ∃ front line rest records, (Text.lines text).lines = front ++ line :: rest ∧
      Reads front records ∧ EndsFile (Text.trim line) ∧
      ∃ reader : Reader, reader.Tracks records ∧
        reader.finish limit (front.length + 1) = .ok image := by
  obtain ⟨records, hreads⟩ | ⟨front, line, rest, records, hlines, hfront, hends | ⟨kind, hoffends⟩⟩ :=
    reads_cases (Text.lines text).lines
  · obtain ⟨reader, -, hrun⟩ := Reader.run_of_reads limit hreads
    have hrun := hrun (Text.lines text).tooLong []
    rw [List.append_nil] at hrun
    have hparse : Image.parse limit text = Reader.run limit (Text.lines text).tooLong [] _ reader :=
      hrun
    rw [h] at hparse
    cases hparse
  · obtain ⟨reader, htracks, hparse⟩ := parse_of_endsFile limit hfront hends
    rw [hparse text ⟨rest, by simp [hlines]⟩] at h
    exact ⟨front, line, rest, records, hlines, hfront, hends, reader, htracks, h⟩
  · obtain ⟨fault, -, hparse⟩ := parse_of_offends limit hlines hfront hoffends
    rw [hparse] at h
    cases h

theorem Reader.of_finish_eq_ok {reader : Reader} {limit stop : Nat} {image : Image}
    (h : reader.finish limit stop = .ok image) :
    ∃ first rest, reader.chunks.toList = first :: rest ∧
      highest first rest - lowest first rest ≤ limit ∧
      image = ⟨UInt32.ofNat (lowest first rest), (layOut first rest).bytes, reader.start⟩ := by
  unfold finish at h
  split at h
  · cases h
  · rename_i first rest hchunks
    refine ⟨first, rest, hchunks, ?_⟩
    split at h
    · cases h
    · rename_i low data hflatten
      obtain ⟨rfl, rfl, hspan⟩ := of_flatten_eq_ok hflatten
      cases h
      exact ⟨hspan, rfl⟩

/-! ## Images show what was written -/

section Shown

variable {records : List Record} {first : Chunk} {rest : List Chunk}
  (hchunks : placements records = first :: rest)

include hchunks

theorem exists_writes_of_mem {c : Chunk} (hc : c ∈ first :: rest) {k : Nat}
    (hk : k < c.bytes.length) : ∃ i b, Writes records i (c.address + k) b := by
  obtain ⟨i, hi⟩ := exists_writes_iff.mpr ⟨c, hchunks ▸ hc,
    Chunk.byteAt?_eq_some_iff.mpr ⟨k, List.getElem?_eq_getElem hk, rfl⟩⟩
  exact ⟨i, _, hi⟩

theorem length_pos_of_mem {c : Chunk} (hc : c ∈ first :: rest) : 0 < c.bytes.length :=
  List.length_pos_iff.mpr (bytes_ne_nil_of_mem_placements (hchunks ▸ hc))

theorem exists_writes_lowest : ∃ i b, Writes records i (lowest first rest) b := by
  obtain ⟨c, hc, hlowest⟩ := exists_lowest first rest
  rw [← hlowest]
  exact exists_writes_of_mem hchunks hc (length_pos_of_mem hchunks hc)

theorem exists_writes_highest : ∃ i a b, Writes records i a b ∧ highest first rest = a + 1 := by
  obtain ⟨c, hc, hhighest⟩ := exists_highest first rest
  have hpos := length_pos_of_mem hchunks hc
  obtain ⟨i, b, hi⟩ := exists_writes_of_mem hchunks hc (k := c.bytes.length - 1) (by omega)
  unfold Chunk.stop at hhighest
  exact ⟨i, _, b, hi, by omega⟩

theorem Writes.within {i a : Nat} {b : UInt8} (h : Writes records i a b) :
    lowest first rest ≤ a ∧ a < highest first rest := by
  obtain ⟨c, hc, hbyte⟩ := exists_writes_iff.mp ⟨i, h⟩
  obtain ⟨k, hk, rfl⟩ := Chunk.byteAt?_eq_some_iff.mp hbyte
  have hlength := (List.getElem?_eq_some_iff.mp hk).1
  have hle := lowest_le (hchunks ▸ hc)
  have hge := le_highest (hchunks ▸ hc)
  unfold Chunk.stop at hge
  omega

theorem overlaid_of_span {image : Image} (hbase : image.base.toNat = lowest first rest)
    (hsize : image.size.toNat = highest first rest - lowest first rest)
    (hdata : image.data = (layOut first rest).bytes) (hstart : image.start = startBehind records) :
    Overlaid records image := by
  obtain ⟨i, b, hi⟩ := exists_writes_lowest hchunks
  have hspan := hi.within hchunks
  have hend : image.base.toNat + image.size.toNat = highest first rest := by omega
  constructor
  · rw [hsize, hdata, size_layOut]
  · rw [hbase]
    exact ⟨i, b, hi⟩
  · rw [hend]
    exact exists_writes_highest hchunks
  · intro i a b h
    rw [hend, hbase]
    exact h.within hchunks
  · intro i a b h hlast
    obtain ⟨hfrom, hto⟩ := h.within hchunks
    rw [hbase, hdata, getElem?_layOut hfrom hto, ← hchunks, lastByte_of_writes h hlast]
    rfl
  · intro a hfrom hto hnone
    rw [hbase] at hfrom
    rw [hend] at hto
    rw [hbase, hdata, getElem?_layOut hfrom hto, ← hchunks, lastByte_eq_none hnone]
    rfl
  · exact hstart

end Shown

/-- **An image is what its records have written.** Every image that is read shows the records before
the first end-of-file record of its text, the last one to write at an address winning. -/
theorem parse_overlaid {limit : UInt32} {text : Bytes} {image : Image}
    (h : Image.parse limit.toNat text = .ok image) :
    ∃ front line rest records, (Text.lines text).lines = front ++ line :: rest ∧
      Reads front records ∧ EndsFile (Text.trim line) ∧ Overlaid records image := by
  obtain ⟨front, line, rest, records, hlines, hfront, hends, reader, htracks, hfinish⟩ :=
    of_parse_eq_ok h
  obtain ⟨first, more, hchunks, hspan, rfl⟩ := Reader.of_finish_eq_ok hfinish
  rw [htracks.chunks] at hchunks
  obtain ⟨i, b, hlowest⟩ := exists_writes_lowest hchunks
  have hspace : highest first more ≤ addressLimit := by
    obtain ⟨c, hc, hhighest⟩ := exists_highest first more
    rw [← hhighest]
    exact hfront.stop_le c (hchunks ▸ hc)
  refine ⟨front, line, rest, records, hlines, hfront, hends,
    overlaid_of_span hchunks ?_ ?_ rfl htracks.start⟩
  · apply UInt32.toNat_ofNat_of_lt'
    exact Nat.lt_of_lt_of_le (hlowest.within hchunks).2 hspace
  · unfold Image.size
    rw [size_layOut]
    exact UInt32.toNat_ofNat_of_lt' (Nat.lt_of_le_of_lt hspan limit.toNat_lt)

/-- Three bytes in segment 0x1000, the last of which is written anew at its absolute address, a gap of
one byte and a byte behind it; two start addresses; a line behind the end. -/
def patched : Bytes := Bytes.ofString
  (":020000021000EC\n:03000000AABBCCCC\n:0400000300000000F9\n:020000040001F9\n:01000200DD20\n" ++
    ":0100040055A6\n:0400000500010002F4\n:00000001FF\n:junk")

/-- The image of these records. -/
def patchedImage : Image := ⟨0x10000, #[0xAA, 0xBB, 0xDD, 0xFF, 0x55], some 0x10002⟩

/-- The later byte wins, the gap is filled, and the second start address counts. -/
theorem patched_overlaid :
    Image.parse (5 : UInt32).toNat patched = .ok patchedImage ∧
      ∃ front line rest records, (Text.lines patched).lines = front ++ line :: rest ∧
        Reads front records ∧ EndsFile (Text.trim line) ∧ Overlaid records patchedImage := by
  have hparse : Image.parse (5 : UInt32).toNat patched = .ok patchedImage := by decide +kernel
  exact ⟨hparse, parse_overlaid hparse⟩

end AvrSim.Hex
