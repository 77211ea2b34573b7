import AvrSim.Proofs.Hex.Language
import AvrSim.Proofs.Hex.RoundTrip

/-!
# The records of a written file

A written file is its data cut into records. Where the next byte belongs, which page is in force and how
much is left to write decide what the next record is: the name of another page, more of the data, or the
end. Addresses wrap at 2^32, so data may begin on the last page and go on on the first.

* `Due` says what a record must be at its place in a file, `Arranged` that all records of a file are what
  they must be.
* `addRecords_cuts` is the loop of the writer, one record after the other.
* `Cuts.due`: what the loop writes is due.
* `encode_arranged`: the lines of a file are lines of records that are arranged.
-/

namespace AvrSim.Hex

/-! ## Arranged records -/

/-- The bytes that the data records among some records hold, in order. -/
def heldBytes (records : List Record) : List UInt8 :=
  (records.filter (·.kind == Record.data)).flatMap Record.payload

/-- Where the byte behind some records belongs if the first byte belongs at a base. -/
def nextAddress (base : UInt32) (before : List Record) : Nat :=
  (base.toNat + (heldBytes before).length) % addressLimit

/-- Where the page of an address begins. -/
def pageStart (address : Nat) : Nat := address / 65536 * 65536

/-- What a record must be if the next byte belongs at `address`, `offset` is in force, the bytes `left`
are still to be written and the records `after` come behind it. A page is named exactly if there are
bytes left and another page is in force, and a data record is next. A data record holds the first of the
bytes left, at most `width` of them and all of one page, and is shorter only at the end of the page or of
the data. The file ends exactly if no byte is left. -/
structure Due (width address offset : Nat) (left : List UInt8) (r : Record) (after : List Record) :
    Prop where
  page : r.kind = Record.extendedLinear ↔ left ≠ [] ∧ offset ≠ pageStart address
  named : r.kind = Record.extendedLinear →
    r.offset? = some (pageStart address) ∧ ∃ next ∈ after.head?, next.kind = Record.data
  data : r.kind = Record.data ↔ left ≠ [] ∧ offset = pageStart address
  placed : r.kind = Record.data → offset + r.address.toNat = address ∧ r.payload <+: left
  sized : r.kind = Record.data → 0 < r.payload.length ∧ r.payload.length ≤ width ∧
    r.address.toNat + r.payload.length ≤ 65536
  full : r.kind = Record.data → r.payload.length = width ∨ r.payload = left ∨
    r.address.toNat + r.payload.length = 65536
  ends : r.kind = Record.endOfFile ↔ left = []

/-- Records that are a file of some data at a base: each is due where it stands, together they hold the
data, and the last one alone ends the file. -/
structure Arranged (base : UInt32) (data : List UInt8) (width : Nat) (records : List Record) : Prop where
  due : ∀ before r after, records = before ++ r :: after →
    Due width (nextAddress base before) (offsetBehind before)
      (data.drop (heldBytes before).length) r after
  held : heldBytes records = data
  ended : ∃ body, records = body ++ [.last] ∧ ∀ r ∈ body, r.kind ≠ Record.endOfFile

/-! ## Writing -/

/-- Records that the writer adds for data at a base while an offset is in force. -/
inductive Cuts (width : Nat) : UInt32 → Nat → List UInt8 → List Record → Prop
  | nil (base : UInt32) (offset : Nat) : Cuts width base offset [] []
  | page {base : UInt32} {offset : Nat} {data : List UInt8} {records : List Record} (hdata : data ≠ [])
    (hpage : offset ≠ pageStart base.toNat) (h : Cuts width base (pageStart base.toNat) data records) :
    Cuts width base offset data (.ofPage (base.toNat / 65536) :: records)
  | data {base : UInt32} {bytes rest : List UInt8} {records : List Record} (hne : bytes ≠ [])
    (hwidth : bytes.length ≤ width) (hroom : base.toNat % 65536 + bytes.length ≤ 65536)
    (hfull : bytes.length = width ∨ rest = [] ∨ base.toNat % 65536 + bytes.length = 65536)
    (h : Cuts width (base + UInt32.ofNat bytes.length) (pageStart base.toNat) rest records) :
    Cuts width base (pageStart base.toNat) (bytes ++ rest) (.ofData base bytes :: records)

variable {width offset : Nat} {base : UInt32} {data : List UInt8} {records : List Record}

theorem addRecords_cuts (hw : 0 < width) (base : UInt32) (page : Nat) (data : List UInt8)
    (written : Array Record) :
    ∃ records, (addRecords width hw base page data written).toList = written.toList ++ records ∧
      Cuts width base (page * 65536) data records := by
  fun_induction addRecords width hw base page data written with
  | case1 base page written => exact ⟨[], by simp, .nil _ _⟩
  | case2 base page data written hdata room chunk written' ih =>
    obtain ⟨records, hrecords, hcuts⟩ := ih
    have hroom : room = min width (65536 - base.toNat % 65536) := rfl
    have hlength : chunk.length = min room data.length := List.length_take
    have hpositive := List.length_pos_iff.mpr hdata
    have hsplit : chunk ++ data.drop room = data := List.take_append_drop room data
    have hfull : chunk.length = width ∨ data.drop room = [] ∨
        base.toNat % 65536 + chunk.length = 65536 := by
      rw [List.drop_eq_nil_iff]
      omega
    have hcuts := Cuts.data (List.ne_nil_of_length_pos (by omega)) (by omega) (by omega) hfull hcuts
    rw [hsplit] at hcuts
    by_cases hpage : base.toNat / 65536 = page
    · have hoffset : pageStart base.toNat = page * 65536 := congrArg (· * 65536) hpage
      refine ⟨_, ?_, hoffset ▸ hcuts⟩
      rw [hrecords]
      simp [written', hpage]
    · refine ⟨_, ?_, .page hdata (by unfold pageStart; omega) hcuts⟩
      rw [hrecords]
      simp [written', hpage]

theorem records_cuts (base : UInt32) (data : List UInt8) (width : Int) :
    ∃ written, Hex.records base data width = written ++ [.last] ∧
      Cuts (effectiveWidth width) base 0 data written := by
  obtain ⟨written, hwritten, hcuts⟩ := addRecords_cuts (effectiveWidth_pos width) base 0 data #[]
  refine ⟨written, ?_, Nat.zero_mul 65536 ▸ hcuts⟩
  unfold Hex.records
  rw [Array.toList_push, hwritten]
  rfl

/-! ## What is written -/

theorem heldBytes_ofData (base : UInt32) (bytes : List UInt8) (records : List Record) :
    heldBytes (.ofData base bytes :: records) = bytes ++ heldBytes records := rfl

theorem heldBytes_append (first second : List Record) :
    heldBytes (first ++ second) = heldBytes first ++ heldBytes second := by
  simp [heldBytes]

theorem Cuts.heldBytes_eq (h : Cuts width base offset data records) : heldBytes records = data := by
  induction h with
  | nil => rfl
  | page hdata hpage h ih => exact ih
  | data hne hwidth hroom hfull h ih => rw [heldBytes_ofData, ih]

theorem Cuts.kind_ne (h : Cuts width base offset data records) :
    ∀ r ∈ records, r.kind ≠ Record.endOfFile := by
  induction h with
  | nil => simp
  | page hdata hpage h ih =>
    exact List.forall_mem_cons.mpr ⟨show Record.extendedLinear ≠ Record.endOfFile by decide, ih⟩
  | data hne hwidth hroom hfull h ih =>
    exact List.forall_mem_cons.mpr ⟨show Record.data ≠ Record.endOfFile by decide, ih⟩

theorem Cuts.length_payload (hwidth : width ≤ 255) (h : Cuts width base offset data records) :
    ∀ r ∈ records, r.payload.length ≤ 255 := by
  induction h with
  | nil => simp
  | page hdata hpage h ih => exact List.forall_mem_cons.mpr ⟨length_ofPage _, ih⟩
  | data hne hle hroom hfull h ih => exact List.forall_mem_cons.mpr ⟨Nat.le_trans hle hwidth, ih⟩

/-- With the right page in force, the next record is a data record. -/
theorem Cuts.exists_head (h : Cuts width base (pageStart base.toNat) data records) (hdata : data ≠ [])
    (rest : List Record) : ∃ next ∈ (records ++ rest).head?, next.kind = Record.data := by
  cases h with
  | nil => exact absurd rfl hdata
  | page _ hpage => exact absurd rfl hpage
  | data => exact ⟨_, rfl, rfl⟩

theorem offset?_ofPage (base : UInt32) :
    (Record.ofPage (base.toNat / 65536)).offset? = some (pageStart base.toNat) := by
  have hlt := base.toNat_lt
  unfold Record.ofPage Record.offset?
  dsimp only
  rw [if_neg (show Record.extendedLinear ≠ Record.extendedSegment by decide), if_pos rfl,
    Record.word_ofNat (by omega)]
  rfl

theorem offset?_ofData (base : UInt32) (bytes : List UInt8) :
    (Record.ofData base bytes).offset? = none := by
  unfold Record.ofData Record.offset?
  dsimp only
  split
  · rw [if_neg (show Record.data ≠ Record.extendedSegment by decide),
      if_neg (show Record.data ≠ Record.extendedLinear by decide)]
  · rfl

/-! ## Records that are due -/

/-- The offset in force behind some records, if another one was in force before them. -/
def offsetSince (offset : Nat) (records : List Record) : Nat :=
  (records.filterMap Record.offset?).getLast?.getD offset

theorem offsetSince_cons (offset : Nat) (r : Record) (records : List Record) :
    offsetSince offset (r :: records) = offsetSince (r.offset?.getD offset) records := by
  unfold offsetSince
  cases hr : r.offset? with
  | none => rw [List.filterMap_cons_none hr, Option.getD_none]
  | some new =>
    rw [List.filterMap_cons_some hr, List.getLast?_cons, Option.getD_some, Option.getD_some]

theorem nextAddress_nil (base : UInt32) : nextAddress base [] = base.toNat :=
  Nat.mod_eq_of_lt base.toNat_lt

theorem nextAddress_ofData (base : UInt32) (bytes : List UInt8) (records : List Record) :
    nextAddress base (.ofData base bytes :: records) =
      nextAddress (base + UInt32.ofNat bytes.length) records := by
  unfold nextAddress addressLimit
  rw [heldBytes_ofData, List.length_append, UInt32.toNat_add, UInt32.toNat_ofNat']
  omega

theorem due_last (width address offset : Nat) : Due width address offset [] .last [] where
  page := ⟨nofun, fun h => absurd rfl h.1⟩
  named := nofun
  data := ⟨nofun, fun h => absurd rfl h.1⟩
  placed := nofun
  sized := nofun
  full := nofun
  ends := ⟨fun _ => rfl, fun _ => rfl⟩

theorem due_ofPage (hdata : data ≠ []) (hpage : offset ≠ pageStart base.toNat)
    (h : Cuts width base (pageStart base.toNat) data records) :
    Due width base.toNat offset data (.ofPage (base.toNat / 65536)) (records ++ [.last]) where
  page := ⟨fun _ => ⟨hdata, hpage⟩, fun _ => rfl⟩
  named := fun _ => ⟨offset?_ofPage base, h.exists_head hdata _⟩
  data := ⟨nofun, fun h => absurd h.2 hpage⟩
  placed := nofun
  sized := nofun
  full := nofun
  ends := ⟨nofun, fun h => absurd h hdata⟩

theorem due_ofData {bytes rest : List UInt8} (hne : bytes ≠ []) (hwidth : bytes.length ≤ width)
    (hroom : base.toNat % 65536 + bytes.length ≤ 65536)
    (hfull : bytes.length = width ∨ rest = [] ∨ base.toNat % 65536 + bytes.length = 65536)
    (after : List Record) :
    Due width base.toNat (pageStart base.toNat) (bytes ++ rest) (.ofData base bytes) after := by
  have hleft : bytes ++ rest ≠ [] := List.append_ne_nil_of_left_ne_nil hne rest
  have haddress : (Record.ofData base bytes).address.toNat = base.toNat % 65536 :=
    UInt16.toNat_ofNat'
  exact {
    page := ⟨nofun, fun h => absurd rfl h.2⟩
    named := nofun
    data := ⟨fun _ => ⟨hleft, rfl⟩, fun _ => rfl⟩
    placed := fun _ => ⟨by rw [haddress]; unfold pageStart; omega, List.prefix_append bytes rest⟩
    sized := fun _ => ⟨List.length_pos_iff.mpr hne, hwidth, by rw [haddress]; exact hroom⟩
    full := by
      intro _
      rw [haddress]
      refine hfull.imp_right (Or.imp_left fun hrest => ?_)
      rw [hrest, List.append_nil]
      rfl
    ends := ⟨nofun, fun h => absurd h hleft⟩ }

/-- Every record of the writer is due. The induction goes over the records that are written; a place
further on is a place in the rest, with the address reached and the offset in force there. -/
theorem Cuts.due (h : Cuts width base offset data records) {before after : List Record} {r : Record}
    (hsplit : records ++ [.last] = before ++ r :: after) :
    Due width (nextAddress base before) (offsetSince offset before)
      (data.drop (heldBytes before).length) r after := by
  induction h generalizing before with
  | nil base offset =>
    cases before with
    | nil =>
      cases hsplit
      exact due_last _ _ _
    | cons b before =>
      have hlength := congrArg List.length hsplit
      simp at hlength
  | @page base offset data records hdata hpage h ih =>
    cases before with
    | nil =>
      cases hsplit
      rw [nextAddress_nil]
      exact due_ofPage hdata hpage h
    | cons b before =>
      obtain ⟨rfl, hrest⟩ := List.cons.inj hsplit
      rw [offsetSince_cons, offset?_ofPage, Option.getD_some]
      exact ih hrest
  | @data base bytes rest records hne hwidth hroom hfull h ih =>
    cases before with
    | nil =>
      cases hsplit
      rw [nextAddress_nil]
      exact due_ofData hne hwidth hroom hfull _
    | cons b before =>
      obtain ⟨rfl, hrest⟩ := List.cons.inj hsplit
      rw [offsetSince_cons, offset?_ofData, Option.getD_none, nextAddress_ofData, heldBytes_ofData,
        List.length_append, List.drop_length_add_append]
      exact ih hrest

theorem Cuts.arranged (h : Cuts width base 0 data records) :
    Arranged base data width (records ++ [.last]) where
  due := fun _ _ _ hsplit => h.due hsplit
  held := by
    rw [heldBytes_append, h.heldBytes_eq]
    exact List.append_nil data
  ended := ⟨records, rfl, h.kind_ne⟩

/-! ## Files -/

/-- A written file consists of lines, each of them a record that is read without a fault, and the records
are arranged for the base, the data and the width, which counts if it is between 1 and 255 and else
is 16. -/
theorem encode_arranged (base : UInt32) (data : List UInt8) (width : Int) :
    ∃ (lines : List Bytes) (records : List Record),
      encode base data width = lines.flatMap (· ++ ['\n'.toUInt8]) ∧
      (∀ line ∈ lines, '\n'.toUInt8 ∉ line) ∧
      lines.map Record.parse = records.map .ok ∧
      Arranged base data (if 1 ≤ width ∧ width ≤ 255 then width.toNat else 16) records := by
  obtain ⟨written, hrecords, hcuts⟩ := records_cuts base data width
  have hlength : ∀ r ∈ written ++ [Record.last], r.payload.length ≤ 255 :=
    List.forall_mem_append.mpr ⟨hcuts.length_payload (effectiveWidth_le width), by decide⟩
  have hwidth : effectiveWidth width = if 1 ≤ width ∧ width ≤ 255 then width.toNat else 16 := rfl
  refine ⟨(written ++ [Record.last]).map Record.line, written ++ [Record.last], ?_, ?_, ?_,
    hwidth ▸ hcuts.arranged⟩
  · unfold encode
    rw [hrecords, Record.render_eq, List.flatMap_map]
  · exact List.forall_mem_map.mpr fun r hr => (r.isLine_line (hlength r hr)).feed
  · rw [List.map_map]
    exact List.map_congr_left fun r hr => Record.parse_line r (hlength r hr)

end AvrSim.Hex
