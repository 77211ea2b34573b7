import AvrSim.Hex.Writer
import AvrSim.Proofs.Hex.Image
import AvrSim.Proofs.Hex.Record

/-!
# Reading back a file

The writer cuts data into records that do not cross a page and names a page before the first of them;
the reader keeps the page named last and puts each record where the one before it ended. `Covers` says
what lies between the two: the records of a file, by the address that is reached and the page that is in
force.

* `records_covers`: what is written covers the data.
* `Reader.run_of_covers`: what covers the data is read as a tiling of it.
* `parse_encode`: the image of a written file.
-/

namespace AvrSim.Hex

/-- Records that hold data from an address on, with a page in force before them. -/
inductive Covers : Nat → Nat → List UInt8 → List Record → Prop
  | nil (a page : Nat) : Covers a page [] []
  | page {a page : Nat} {data : List UInt8} {records : List Record} (old : Nat)
    (hpage : page < 65536) (h : Covers a page data records) :
    Covers a old data (.ofPage page :: records)
  | data {base : UInt32} {bytes rest : List UInt8} {records : List Record} (hne : bytes ≠ [])
    (hlength : bytes.length ≤ 255) (hspace : base.toNat + bytes.length ≤ addressLimit)
    (h : Covers (base.toNat + bytes.length) (base.toNat / 65536) rest records) :
    Covers base.toNat (base.toNat / 65536) (bytes ++ rest) (.ofData base bytes :: records)

/-! ## Writing -/

theorem addRecords_nil (width : Nat) (hw : 0 < width) (base : UInt32) (page : Nat)
    (written : Array Record) : addRecords width hw base page [] written = written := by
  rw [addRecords]
  rfl

theorem toNat_add_ofNat (base : UInt32) {n : Nat} (h : base.toNat + n < addressLimit) :
    (base + UInt32.ofNat n).toNat = base.toNat + n := by
  unfold addressLimit at h
  rw [UInt32.toNat_add, UInt32.toNat_ofNat']
  omega

theorem addRecords_covers {width : Nat} (hw : 0 < width) (hwidth : width ≤ 255) (base : UInt32)
    (page : Nat) (data : List UInt8) (written : Array Record)
    (hspace : base.toNat + data.length ≤ addressLimit) :
    ∃ records, (addRecords width hw base page data written).toList = written.toList ++ records ∧
      Covers base.toNat page data records := by
  fun_induction addRecords width hw base page data written with
  | case1 base page written => exact ⟨[], by simp, .nil _ _⟩
  | case2 base page data written hdata room chunk written' ih =>
    have hroom : 0 < room ∧ room ≤ width := ⟨recordRoom_pos base hw, Nat.min_le_left _ _⟩
    have hlength : chunk.length = min room data.length := List.length_take
    have hpositive := List.length_pos_iff.mpr hdata
    -- The address wraps only if the data ends with the address space, and then nothing is left.
    have hrest : ∃ records,
        (addRecords width hw (base + UInt32.ofNat chunk.length) (base.toNat / 65536)
          (data.drop room) (written'.push (.ofData base chunk))).toList =
            (written'.push (.ofData base chunk)).toList ++ records ∧
          Covers (base.toNat + chunk.length) (base.toNat / 65536) (data.drop room) records := by
      by_cases hend : data.length ≤ room
      · rw [List.drop_eq_nil_of_le hend, addRecords_nil]
        exact ⟨[], by simp, .nil _ _⟩
      · have hnext := toNat_add_ofNat base (show base.toNat + chunk.length < addressLimit by omega)
        rw [← hnext]
        exact ih (by rw [hnext, List.length_drop]; omega)
    obtain ⟨records, hrecords, hcovers⟩ := hrest
    have hsplit : chunk ++ data.drop room = data := List.take_append_drop room data
    have hcovers := Covers.data (List.ne_nil_of_length_pos (by omega)) (by omega) (by omega) hcovers
    rw [hsplit] at hcovers
    by_cases hpage : base.toNat / 65536 = page
    · refine ⟨_, ?_, hpage ▸ hcovers⟩
      rw [hrecords]
      simp [written', hpage]
    · have hlt := base.toNat_lt
      refine ⟨_, ?_, .page page (by omega) hcovers⟩
      rw [hrecords]
      simp [written', hpage]

theorem effectiveWidth_le (width : Int) : effectiveWidth width ≤ 255 := by
  unfold effectiveWidth defaultWidth
  split <;> omega

theorem records_covers (base : UInt32) (data : List UInt8) (width : Int)
    (hspace : base.toNat + data.length ≤ addressLimit) :
    ∃ written, records base data width = written ++ [.last] ∧
      Covers base.toNat 0 data written := by
  obtain ⟨written, hwritten, hcovers⟩ :=
    addRecords_covers (effectiveWidth_pos width) (effectiveWidth_le width) base 0 data #[] hspace
  refine ⟨written, ?_, hcovers⟩
  unfold records
  rw [Array.toList_push, hwritten]
  rfl

theorem length_ofPage (page : Nat) : (Record.ofPage page).payload.length ≤ 255 :=
  show 2 ≤ 255 by decide

theorem Covers.length_payload {a page : Nat} {data : List UInt8} {records : List Record}
    (h : Covers a page data records) : ∀ r ∈ records, r.payload.length ≤ 255 := by
  induction h with
  | nil => simp
  | page old hpage h ih => exact List.forall_mem_cons.mpr ⟨length_ofPage _, ih⟩
  | data hne hlength hspace h ih => exact List.forall_mem_cons.mpr ⟨hlength, ih⟩

/-! ## Reading -/

namespace Reader

variable (reader : Reader) (limit : Nat) (tooLong : Bool)

theorem accept_ofPage {page : Nat} (h : page < 65536) :
    reader.accept (.ofPage page) = .ok { reader with offset := page * 65536 } := by
  unfold accept Record.ofPage
  rw [if_neg (show Record.extendedLinear ≠ Record.data by decide),
    if_neg (show Record.extendedLinear ≠ Record.extendedSegment by decide), if_pos rfl]
  dsimp only
  rw [Record.word_ofNat h]

theorem accept_ofData {base : UInt32} {bytes : List UInt8}
    (hoffset : reader.offset = base.toNat / 65536 * 65536) (hne : bytes ≠ [])
    (hspace : base.toNat + bytes.length ≤ addressLimit) :
    reader.accept (.ofData base bytes) =
      .ok { reader with chunks := reader.chunks.push ⟨base.toNat, bytes⟩ } := by
  have haddress : reader.offset + (UInt16.ofNat base.toNat).toNat = base.toNat := by
    rw [hoffset, UInt16.toNat_ofNat']
    omega
  have hstop : ¬ addressLimit < Chunk.stop ⟨base.toNat, bytes⟩ := Nat.not_lt.mpr hspace
  unfold accept Record.ofData
  rw [if_pos rfl]
  dsimp only
  rw [haddress, if_neg (by simpa using hne), if_neg hstop]

theorem run_line {r : Record} (hlength : r.payload.length ≤ 255) (rest : List Bytes) (n : Nat) :
    run limit tooLong (r.line :: rest) n reader =
      if r.kind = Record.endOfFile then reader.finish limit (n + 1)
      else match reader.accept r with
        | .error fault => .error ⟨n + 1, fault⟩
        | .ok reader => run limit tooLong rest (n + 1) reader := by
  rw [run, r.trim_line, r.parse_line hlength]
  rfl

theorem run_accepted {r : Record} {reader' : Reader} (hlength : r.payload.length ≤ 255)
    (hkind : r.kind ≠ Record.endOfFile) (haccept : reader.accept r = .ok reader')
    (rest : List Bytes) (n : Nat) :
    run limit tooLong (r.line :: rest) n reader = run limit tooLong rest (n + 1) reader' := by
  rw [run_line reader limit tooLong hlength, if_neg hkind, haccept]

/-- Records that cover data are read as a tiling of it, which is added to the chunks before. -/
theorem run_of_covers {a page : Nat} {data : List UInt8} {records : List Record}
    (h : Covers a page data records) (hoffset : reader.offset = page * 65536) (n : Nat) :
    ∃ (chunks : List Chunk) (final : Reader) (stop : Nat), Tiling a chunks data ∧
      final.chunks.toList = reader.chunks.toList ++ chunks ∧ final.start = reader.start ∧
      run limit tooLong ((records ++ [Record.last]).map Record.line) n reader =
        final.finish limit stop := by
  induction h generalizing reader n with
  | nil =>
    refine ⟨[], reader, n + 1, .nil _, by simp, rfl, ?_⟩
    exact run_line reader limit tooLong (by decide) [] n
  | @page a page data records old hpage h ih =>
    obtain ⟨chunks, final, stop, htiling, hchunks, hstart, hrun⟩ :=
      ih { reader with offset := page * 65536 } rfl (n + 1)
    refine ⟨chunks, final, stop, htiling, hchunks, hstart, ?_⟩
    rw [← hrun]
    exact run_accepted reader limit tooLong (length_ofPage page)
      (show Record.extendedLinear ≠ Record.endOfFile by decide) (accept_ofPage reader hpage) _ n
  | @data base bytes rest records hne hlength hspace h ih =>
    obtain ⟨chunks, final, stop, htiling, hchunks, hstart, hrun⟩ :=
      ih { reader with chunks := reader.chunks.push ⟨base.toNat, bytes⟩ } hoffset (n + 1)
    refine ⟨_, final, stop, .cons hne htiling, by simp [hchunks], hstart, ?_⟩
    rw [← hrun]
    exact run_accepted reader limit tooLong hlength
      (show Record.data ≠ Record.endOfFile by decide) (accept_ofData reader hoffset hne hspace) _ n

theorem finish_of_tiling {reader : Reader} {limit : Nat} {base : UInt32} {data : List UInt8}
    (h : Tiling base.toNat reader.chunks.toList data) (hlimit : data.length ≤ limit) (stop : Nat) :
    reader.finish limit stop =
      if data = [] then .error ⟨0, .empty⟩ else .ok ⟨base, data.toArray, reader.start⟩ := by
  unfold finish
  generalize reader.chunks.toList = chunks at h
  cases chunks with
  | nil =>
    cases h
    rfl
  | cons first rest =>
    have hne : data ≠ [] := by
      cases h with
      | cons hne h => simp [hne]
    dsimp only
    rw [flatten_of_tiling h hlimit, if_neg hne]
    simp

end Reader

/-! ## Files -/

theorem lines_flatMap_render {records : List Record}
    (h : ∀ r ∈ records, r.payload.length ≤ 255) :
    Text.lines (records.flatMap Record.render) = ⟨records.map Record.line, false⟩ := by
  have hlines : ∀ line ∈ records.map Record.line, Text.IsLine line :=
    List.forall_mem_map.mpr fun r hr => r.isLine_line (h r hr)
  rw [← Text.lines_flatMap hlines, List.flatMap_map, Record.render_eq]

/-- A written file is read back: the image begins at the base, holds the data and names no start
address. A file without data has no image. -/
theorem parse_encode (base : UInt32) (data : List UInt8) (width : Int) {limit : Nat}
    (hspace : base.toNat + data.length ≤ addressLimit) (hlimit : data.length ≤ limit) :
    Image.parse limit (encode base data width) =
      if data = [] then .error ⟨0, .empty⟩ else .ok ⟨base, data.toArray, none⟩ := by
  obtain ⟨written, hrecords, hcovers⟩ := records_covers base data width hspace
  have hlength : ∀ r ∈ written ++ [.last], r.payload.length ≤ 255 :=
    List.forall_mem_append.mpr ⟨hcovers.length_payload, by decide⟩
  obtain ⟨chunks, final, stop, htiling, hchunks, hstart, hrun⟩ :=
    Reader.run_of_covers {} limit false hcovers rfl 0
  unfold Image.parse encode
  rw [hrecords, lines_flatMap_render hlength]
  dsimp only
  rw [hrun, Reader.finish_of_tiling (by rw [hchunks]; exact htiling) hlimit, hstart]

/-- Four bytes over the end of a page, in records of three. -/
theorem parse_encode_page :
    (0x1FFFE : UInt32).toNat + 4 ≤ addressLimit ∧
      Image.parse 4 (encode 0x1FFFE [0x12, 0x34, 0x56, 0x78] 3) =
        .ok ⟨0x1FFFE, #[0x12, 0x34, 0x56, 0x78], none⟩ := by
  have hspace : (0x1FFFE : UInt32).toNat + 4 ≤ addressLimit := by decide
  exact ⟨hspace, parse_encode 0x1FFFE [0x12, 0x34, 0x56, 0x78] 3 hspace (by decide)⟩

end AvrSim.Hex
