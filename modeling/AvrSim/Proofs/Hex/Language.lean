import AvrSim.Hex.Image
import AvrSim.Proofs.Hex.Image
import AvrSim.Proofs.Hex.Line
import Mathlib.Data.List.Basic
import Mathlib.Data.List.Induction

/-!
# The language of HEX files

What a HEX file is, said without the reader. It is a sequence of blank lines and of lines with records,
each of which may stand behind the records before it, up to the first end-of-file record; what follows
that one is not part of the file. There must be data, and it must fit under a limit.

* `Admissible` and `Reads` describe files, `placements` what their data records place.
* `Offends` lists what can be wrong with a line behind others and `Blames` what can be wrong with a text.
* `parse_isOk_iff`: the reader accepts exactly the files whose data fits, and blames the first line that
  offends.
-/

namespace AvrSim.Hex

/-! ## Files -/

/-- A line that holds an end-of-file record. -/
def EndsFile (line : Bytes) : Prop := ∃ r, HoldsRecord line r ∧ r.kind = Record.endOfFile

/-- The offset that a record puts in force. -/
def Record.offset? (r : Record) : Option Nat :=
  match r.payload with
  | [high, low] =>
    if r.kind = extendedSegment then some (word high low * 16)
    else if r.kind = extendedLinear then some (word high low * 65536)
    else none
  | _ => none

/-- The offset in force behind some records: the last one that was set. -/
def offsetBehind (records : List Record) : Nat :=
  (records.filterMap Record.offset?).getLast?.getD 0

/-- The start address that a record gives: a segment and an offset in it, or one number. -/
def Record.start? (r : Record) : Option UInt32 :=
  match r.payload with
  | [a, b, c, d] =>
    if r.kind = startSegment then some (UInt32.ofNat (word a b * 16 + word c d))
    else if r.kind = startLinear then some (UInt32.ofNat (word a b * 65536 + word c d))
    else none
  | _ => none

/-- The start address given by some records: the last one. -/
def startBehind (records : List Record) : Option UInt32 := (records.filterMap Record.start?).getLast?

/-- The record types that may stand before the end of a file, with the payloads they need. Data must
end within the address space. -/
inductive Admissible (before : List Record) (r : Record) : Prop
  | data (hkind : r.kind = Record.data)
    (hspace : offsetBehind before + r.address.toNat + r.payload.length ≤ addressLimit)
  | address (hkind : r.kind = Record.extendedSegment ∨ r.kind = Record.extendedLinear)
    (hlength : r.payload.length = 2)
  | start (hkind : r.kind = Record.startSegment ∨ r.kind = Record.startLinear)
    (hlength : r.payload.length = 4)

/-- Lines that are blank or hold records which may stand one behind the other. -/
inductive Reads : List Bytes → List Record → Prop
  | nil : Reads [] []
  | blank {lines : List Bytes} {records : List Record} {line : Bytes} (h : Reads lines records)
    (hblank : Text.trim line = []) : Reads (lines ++ [line]) records
  | record {lines : List Bytes} {records : List Record} {line : Bytes} {r : Record}
    (h : Reads lines records) (hholds : HoldsRecord (Text.trim line) r)
    (hadmissible : Admissible records r) : Reads (lines ++ [line]) (records ++ [r])

/-- What a record places behind others. A data record without payload places nothing. -/
def placement? (before : List Record) (r : Record) : Option Chunk :=
  if r.kind = Record.data ∧ r.payload ≠ [] then
    some ⟨offsetBehind before + r.address.toNat, r.payload⟩
  else none

/-- What some records place, in order. -/
def placements (records : List Record) : List Chunk :=
  (List.range records.length).filterMap fun i => records[i]?.bind (placement? (records.take i))

/-- The bytes placed lie no further apart than the limit allows. -/
def SpanAtMost (limit : Nat) (chunks : List Chunk) : Prop :=
  ∀ c ∈ chunks, ∀ d ∈ chunks, d.stop ≤ c.address + limit

/-! ## Faults -/

/-- What is wrong with a line behind some records: it holds no record, or one that may not stand
there. -/
inductive Offends (before : List Record) (line : Bytes) : FaultKind → Prop
  | misspelt {kind : FaultKind} (h : Misspelt line kind) : Offends before line kind
  | kind {r : Record} (hholds : HoldsRecord line r) (h : Record.startLinear < r.kind) :
    Offends before line .unsupported
  | addressLength {r : Record} (hholds : HoldsRecord line r)
    (hkind : r.kind = Record.extendedSegment ∨ r.kind = Record.extendedLinear)
    (h : r.payload.length ≠ 2) : Offends before line .malformed
  | startLength {r : Record} (hholds : HoldsRecord line r)
    (hkind : r.kind = Record.startSegment ∨ r.kind = Record.startLinear)
    (h : r.payload.length ≠ 4) : Offends before line .malformed
  | space {r : Record} (hholds : HoldsRecord line r) (hkind : r.kind = Record.data)
    (h : addressLimit < offsetBehind before + r.address.toNat + r.payload.length) :
    Offends before line .malformed

/-- What is wrong with the lines of a text, and the line to blame: the first one that offends, the
end-of-file line if the data spans too much, and none if there is no data or no end. -/
inductive Blames (limit : Nat) (lines : List Bytes) : Nat → FaultKind → Prop
  | line {front rest : List Bytes} {line : Bytes} {records : List Record} {kind : FaultKind}
    (hlines : lines = front ++ line :: rest) (hfront : Reads front records)
    (h : Offends records (Text.trim line) kind) : Blames limit lines (front.length + 1) kind
  | empty {front rest : List Bytes} {line : Bytes} {records : List Record}
    (hlines : lines = front ++ line :: rest) (hfront : Reads front records)
    (hends : EndsFile (Text.trim line)) (h : placements records = []) : Blames limit lines 0 .empty
  | tooLarge {front rest : List Bytes} {line : Bytes} {records : List Record}
    (hlines : lines = front ++ line :: rest) (hfront : Reads front records)
    (hends : EndsFile (Text.trim line)) (h : ¬ SpanAtMost limit (placements records)) :
    Blames limit lines (front.length + 1) .tooLarge
  | unfinished {records : List Record} (h : Reads lines records) : Blames limit lines 0 .malformed

/-! ## The reader behind some records -/

theorem offsetBehind_concat (records : List Record) (r : Record) :
    offsetBehind (records ++ [r]) = r.offset?.getD (offsetBehind records) := by
  unfold offsetBehind
  rw [List.filterMap_append, List.getLast?_append]
  cases h : r.offset? with
  | none => simp [h]
  | some offset => simp [h]

theorem offset?_le {r : Record} {offset : Nat} (h : r.offset? = some offset) :
    offset ≤ 65535 * 65536 := by
  unfold Record.offset? at h
  split at h
  · rename_i high low _
    have hword := word_lt high low
    split at h
    · cases h
      omega
    · split at h
      · cases h
        omega
      · cases h
  · cases h

theorem offsetBehind_le (records : List Record) : offsetBehind records ≤ 65535 * 65536 := by
  unfold offsetBehind
  cases h : (records.filterMap Record.offset?).getLast? with
  | none => simp
  | some offset =>
    obtain ⟨r, -, hr⟩ := List.mem_filterMap.mp (List.mem_of_getLast? h)
    exact offset?_le hr

theorem startBehind_concat (records : List Record) (r : Record) :
    startBehind (records ++ [r]) = r.start?.or (startBehind records) := by
  unfold startBehind
  rw [List.filterMap_append, List.getLast?_append]
  cases h : r.start? with
  | none => simp [h]
  | some start => simp [h]

theorem placements_concat (records : List Record) (r : Record) :
    placements (records ++ [r]) = placements records ++ (placement? records r).toList := by
  unfold placements
  rw [List.length_append, List.length_singleton, List.range_succ, List.filterMap_append]
  congr 1
  · apply List.filterMap_congr
    intro i hi
    have hlt := List.mem_range.mp hi
    rw [List.getElem?_append_left hlt, List.take_append_of_le_length (Nat.le_of_lt hlt)]
  · cases h : placement? records r with
    | none => simp [h]
    | some chunk => simp [h]

namespace Reader

/-- The reader knows what the records read so far have set. -/
structure Tracks (reader : Reader) (records : List Record) : Prop where
  offset : reader.offset = offsetBehind records
  chunks : reader.chunks.toList = placements records
  start : reader.start = startBehind records

theorem tracks_nil : Tracks {} [] := ⟨rfl, rfl, rfl⟩

variable {reader : Reader} {records : List Record} {r : Record}

theorem Tracks.concat {reader' : Reader} (h : reader.Tracks records)
    (hoffset : reader'.offset = r.offset?.getD reader.offset)
    (hchunks : reader'.chunks.toList = reader.chunks.toList ++ (placement? records r).toList)
    (hstart : reader'.start = r.start?.or reader.start) :
    reader'.Tracks (records ++ [r]) where
  offset := by rw [hoffset, offsetBehind_concat, h.offset]
  chunks := by rw [hchunks, placements_concat, h.chunks]
  start := by rw [hstart, startBehind_concat, h.start]

/-! ### The effect of a record by its type -/

theorem accept_data (h : reader.Tracks records) (hkind : r.kind = Record.data) :
    reader.accept r =
      if r.payload = [] then .ok reader
      else if addressLimit < offsetBehind records + r.address.toNat + r.payload.length then
        .error (.malformed (.pastEnd r.payload.length (reader.offset + r.address.toNat)))
      else .ok { reader with
        chunks := reader.chunks.push ⟨offsetBehind records + r.address.toNat, r.payload⟩ } := by
  have hstop : Chunk.stop ⟨offsetBehind records + r.address.toNat, r.payload⟩ =
      offsetBehind records + r.address.toNat + r.payload.length := rfl
  unfold accept
  simp only [hkind, List.isEmpty_iff, h.offset, hstop, if_true]

theorem accept_address (reader : Reader)
    (hkind : r.kind = Record.extendedSegment ∨ r.kind = Record.extendedLinear) :
    reader.accept r =
      match r.offset? with
      | some offset => .ok { reader with offset := offset }
      | none => .error (.malformed (.addressLength r.payload.length)) := by
  unfold accept Record.offset?
  rcases hkind with hkind | hkind
  · simp only [hkind, Record.data, Record.extendedSegment]
    rcases r.payload with _ | ⟨a, _ | ⟨b, _ | ⟨c, rest⟩⟩⟩ <;> rfl
  · simp only [hkind, Record.data, Record.extendedSegment, Record.extendedLinear]
    rcases r.payload with _ | ⟨a, _ | ⟨b, _ | ⟨c, rest⟩⟩⟩ <;> rfl

theorem offset?_eq_none_iff
    (hkind : r.kind = Record.extendedSegment ∨ r.kind = Record.extendedLinear) :
    r.offset? = none ↔ r.payload.length ≠ 2 := by
  unfold Record.offset?
  rcases hkind with hkind | hkind
  · rcases r.payload with _ | ⟨a, _ | ⟨b, _ | ⟨c, rest⟩⟩⟩ <;> simp [hkind]
  · rcases r.payload with _ | ⟨a, _ | ⟨b, _ | ⟨c, rest⟩⟩⟩ <;>
      simp [hkind, Record.extendedSegment, Record.extendedLinear]

theorem accept_start (reader : Reader)
    (hkind : r.kind = Record.startSegment ∨ r.kind = Record.startLinear) :
    (r.payload.length = 4 ∧ ∃ start, r.start? = some start ∧
        reader.accept r = .ok { reader with start := some start }) ∨
      (r.payload.length ≠ 4 ∧
        reader.accept r = .error (.malformed (.startLength r.payload.length))) := by
  unfold accept Record.start?
  rcases hkind with hkind | hkind
  · simp only [hkind, Record.data, Record.extendedSegment, Record.extendedLinear,
      Record.startSegment]
    rcases r.payload with _ | ⟨a, _ | ⟨b, _ | ⟨c, _ | ⟨d, _ | ⟨e, rest⟩⟩⟩⟩⟩ <;> simp
  · simp only [hkind, Record.data, Record.extendedSegment, Record.extendedLinear,
      Record.startSegment, Record.startLinear]
    rcases r.payload with _ | ⟨a, _ | ⟨b, _ | ⟨c, _ | ⟨d, _ | ⟨e, rest⟩⟩⟩⟩⟩ <;> simp

theorem accept_other (reader : Reader) (hkind : Record.startLinear < r.kind) :
    reader.accept r = .error (.unsupported r.kind) := by
  have hne {kind : UInt8} (hle : kind ≤ Record.startLinear) : r.kind ≠ kind := by
    rintro rfl
    exact absurd hkind (UInt8.not_lt.mpr hle)
  unfold accept
  rw [if_neg (hne (by decide)), if_neg (hne (by decide)), if_neg (hne (by decide)),
    if_neg (hne (by decide)), if_neg (hne (by decide))]

/-! ### Records that may stand where they do -/

/-- A record that places nothing leaves the data alone. -/
theorem placement?_eq_none {before : List Record} (hkind : r.kind ≠ Record.data) :
    placement? before r = none :=
  if_neg fun h => hkind h.1

theorem accept_of_admissible (h : reader.Tracks records) (hr : Admissible records r) :
    ∃ reader', reader.accept r = .ok reader' ∧ reader'.Tracks (records ++ [r]) := by
  cases hr with
  | data hkind hspace =>
    have hoffset : r.offset? = none := by
      unfold Record.offset?
      rw [hkind]
      split <;> rfl
    have hstart : r.start? = none := by
      unfold Record.start?
      rw [hkind]
      split <;> rfl
    rw [accept_data h hkind]
    by_cases hempty : r.payload = []
    · rw [if_pos hempty]
      exact ⟨reader, rfl, h.concat (by rw [hoffset]; rfl) (by simp [placement?, hempty])
        (by rw [hstart]; rfl)⟩
    · rw [if_neg hempty, if_neg (Nat.not_lt.mpr hspace)]
      refine ⟨_, rfl, h.concat (by rw [hoffset]; rfl) ?_ (by rw [hstart]; rfl)⟩
      rw [placement?, if_pos ⟨hkind, hempty⟩]
      simp
  | address hkind hlength =>
    have hdata : r.kind ≠ Record.data := by
      rcases hkind with hkind | hkind <;> rw [hkind] <;> decide
    have hstart : r.start? = none := by
      unfold Record.start?
      split
      · rename_i hpayload
        rw [hpayload] at hlength
        cases hlength
      · rfl
    rw [accept_address reader hkind]
    cases hoffset : r.offset? with
    | none => exact absurd hlength ((offset?_eq_none_iff hkind).mp hoffset)
    | some offset =>
      refine ⟨_, rfl, h.concat (by rw [hoffset]; rfl) ?_ (by rw [hstart]; rfl)⟩
      simp [placement?_eq_none hdata]
  | start hkind hlength =>
    have hdata : r.kind ≠ Record.data := by
      rcases hkind with hkind | hkind <;> rw [hkind] <;> decide
    have hoffset : r.offset? = none := by
      unfold Record.offset?
      split
      · rename_i hpayload
        rw [hpayload] at hlength
        cases hlength
      · rfl
    obtain ⟨-, start, hstart, haccept⟩ | ⟨hne, -⟩ := accept_start reader hkind
    · refine ⟨_, haccept, h.concat (by rw [hoffset]; rfl) ?_ (by rw [hstart]; rfl)⟩
      simp [placement?_eq_none hdata]
    · exact absurd hlength hne

/-! ### Records that may not -/

theorem payload_ne_nil_of_space
    (h : addressLimit < offsetBehind records + r.address.toNat + r.payload.length) :
    r.payload ≠ [] := by
  intro hempty
  have hoffset := offsetBehind_le records
  have haddress := r.address.toNat_lt
  rw [hempty, List.length_nil, addressLimit] at h
  omega

/-- A line that offends is refused, when it is read or when its record is looked at. -/
theorem refused_of_offends (htracks : reader.Tracks records) {line : Bytes} {kind : FaultKind}
    (hline : Offends records line kind) :
    line ≠ [] ∧ ∃ fault, fault.kind = kind ∧ (Record.parse line = .error fault ∨
      ∃ r, Record.parse line = .ok r ∧ r.kind ≠ Record.endOfFile ∧
        reader.accept r = .error fault) := by
  have hrecord {r : Record} {fault : Fault} (hholds : HoldsRecord line r)
      (hkind : r.kind ≠ Record.endOfFile) (haccept : reader.accept r = .error fault) :
      line ≠ [] ∧ ∃ fault', fault'.kind = fault.kind ∧ (Record.parse line = .error fault' ∨
        ∃ r, Record.parse line = .ok r ∧ r.kind ≠ Record.endOfFile ∧
          reader.accept r = .error fault') := by
    have hparse := parse_eq_ok_iff.mpr hholds
    obtain ⟨digits, -, -, -, -, rfl, -⟩ := hholds
    exact ⟨List.cons_ne_nil _ _, fault, rfl, .inr ⟨r, hparse, hkind, haccept⟩⟩
  cases hline with
  | misspelt h =>
    obtain ⟨hne, fault, hparse, hfault⟩ := parse_of_misspelt h
    exact ⟨hne, fault, hfault, .inl hparse⟩
  | kind hholds h =>
    refine hrecord hholds ?_ (accept_other reader h)
    intro hend
    rw [hend] at h
    exact absurd h (by decide)
  | addressLength hholds hkind h =>
    have haccept := accept_address reader hkind
    rw [(offset?_eq_none_iff hkind).mpr h] at haccept
    refine hrecord hholds ?_ haccept
    rcases hkind with hkind | hkind <;> rw [hkind] <;> decide
  | startLength hholds hkind h =>
    have haccept := (accept_start reader hkind).resolve_left fun hlength => h hlength.1
    refine hrecord hholds ?_ haccept.2
    rcases hkind with hkind | hkind <;> rw [hkind] <;> decide
  | space hholds hkind h =>
    have haccept := accept_data htracks hkind
    rw [if_neg (payload_ne_nil_of_space h), if_pos h] at haccept
    refine hrecord hholds ?_ haccept
    rw [hkind]
    decide

end Reader

/-! ## Lines that are read -/

/-- A record other than end-of-file may stand where it does, or its line offends. -/
theorem admissible_or_offends (before : List Record) {line : Bytes} {r : Record}
    (hholds : HoldsRecord line r) (hkind : r.kind ≠ Record.endOfFile) :
    Admissible before r ∨ ∃ kind, Offends before line kind := by
  by_cases hdata : r.kind = Record.data
  · by_cases hspace : addressLimit < offsetBehind before + r.address.toNat + r.payload.length
    · exact .inr ⟨_, .space hholds hdata hspace⟩
    · exact .inl (.data hdata (Nat.not_lt.mp hspace))
  by_cases haddress : r.kind = Record.extendedSegment ∨ r.kind = Record.extendedLinear
  · by_cases hlength : r.payload.length = 2
    · exact .inl (.address haddress hlength)
    · exact .inr ⟨_, .addressLength hholds haddress hlength⟩
  by_cases hstart : r.kind = Record.startSegment ∨ r.kind = Record.startLinear
  · by_cases hlength : r.payload.length = 4
    · exact .inl (.start hstart hlength)
    · exact .inr ⟨_, .startLength hholds hstart hlength⟩
  · refine .inr ⟨_, .kind hholds ?_⟩
    have hne {kind : UInt8} (h : r.kind ≠ kind) : r.kind.toNat ≠ kind.toNat :=
      fun heq => h (UInt8.toNat_inj.mp heq)
    rw [not_or] at haddress hstart
    have h0 : r.kind.toNat ≠ 0 := hne hdata
    have h1 : r.kind.toNat ≠ 1 := hne hkind
    have h2 : r.kind.toNat ≠ 2 := hne haddress.1
    have h3 : r.kind.toNat ≠ 3 := hne hstart.1
    have h4 : r.kind.toNat ≠ 4 := hne haddress.2
    have h5 : r.kind.toNat ≠ 5 := hne hstart.2
    have hlt : 5 < r.kind.toNat := by omega
    exact UInt8.lt_iff_toNat_lt.mpr hlt

theorem line_cases (before : List Record) (line : Bytes) :
    line = [] ∨ (∃ r, HoldsRecord line r ∧ Admissible before r) ∨ EndsFile line ∨
      ∃ kind, Offends before line kind := by
  by_cases hblank : line = []
  · exact .inl hblank
  refine .inr ?_
  cases hparse : Record.parse line with
  | error fault =>
    exact .inr (.inr ⟨_, .misspelt (misspelt_of_parse_eq_error hblank hparse)⟩)
  | ok r =>
    have hholds := parse_eq_ok_iff.mp hparse
    by_cases hkind : r.kind = Record.endOfFile
    · exact .inr (.inl ⟨r, hholds, hkind⟩)
    · obtain hadmissible | hoffends := admissible_or_offends before hholds hkind
      · exact .inl ⟨r, hholds, hadmissible⟩
      · exact .inr (.inr hoffends)

/-- Lines are read to their end, up to the end of the file, or up to a line that offends. -/
theorem reads_cases (lines : List Bytes) :
    (∃ records, Reads lines records) ∨
      ∃ front line rest records, lines = front ++ line :: rest ∧ Reads front records ∧
        (EndsFile (Text.trim line) ∨ ∃ kind, Offends records (Text.trim line) kind) := by
  induction lines using List.reverseRecOn with
  | nil => exact .inl ⟨[], .nil⟩
  | append_singleton lines line ih =>
    obtain ⟨records, hreads⟩ | ⟨front, stop, rest, records, rfl, hreads, hstop⟩ := ih
    · obtain hblank | ⟨r, hholds, hadmissible⟩ | hstop := line_cases records (Text.trim line)
      · exact .inl ⟨records, .blank hreads hblank⟩
      · exact .inl ⟨records ++ [r], .record hreads hholds hadmissible⟩
      · exact .inr ⟨lines, line, [], records, rfl, hreads, hstop⟩
    · exact .inr ⟨front, stop, rest ++ [line], records, by simp, hreads, hstop⟩

theorem Admissible.kind_ne {before : List Record} {r : Record} (h : Admissible before r) :
    r.kind ≠ Record.endOfFile := by
  cases h with
  | data hkind =>
    rw [hkind]
    decide
  | address hkind => rcases hkind with hkind | hkind <;> rw [hkind] <;> decide
  | start hkind => rcases hkind with hkind | hkind <;> rw [hkind] <;> decide

namespace Reader

variable (limit : Nat) (tooLong : Bool) (reader : Reader)

theorem run_blank {line : Bytes} (h : Text.trim line = []) (rest : List Bytes) (n : Nat) :
    run limit tooLong (line :: rest) n reader = run limit tooLong rest (n + 1) reader := by
  rw [run, h]
  rfl

theorem run_parsed {line : Bytes} {r : Record} (h : Record.parse (Text.trim line) = .ok r)
    (rest : List Bytes) (n : Nat) :
    run limit tooLong (line :: rest) n reader =
      if r.kind = Record.endOfFile then reader.finish limit (n + 1)
      else match reader.accept r with
        | .error fault => .error ⟨n + 1, fault⟩
        | .ok reader => run limit tooLong rest (n + 1) reader := by
  have hne : (Text.trim line).isEmpty = false := by
    cases htrim : Text.trim line with
    | nil =>
      rw [htrim] at h
      cases h
    | cons => rfl
  rw [run, hne, h]
  rfl

theorem run_of_endsFile {line : Bytes} (h : EndsFile (Text.trim line)) (rest : List Bytes)
    (n : Nat) : run limit tooLong (line :: rest) n reader = reader.finish limit (n + 1) := by
  obtain ⟨r, hholds, hkind⟩ := h
  rw [run_parsed limit tooLong reader (parse_eq_ok_iff.mpr hholds), if_pos hkind]

theorem run_of_offends {reader : Reader} {records : List Record} (htracks : reader.Tracks records)
    {line : Bytes} {kind : FaultKind} (h : Offends records (Text.trim line) kind)
    (rest : List Bytes) (n : Nat) :
    ∃ fault, fault.kind = kind ∧
      run limit tooLong (line :: rest) n reader = .error ⟨n + 1, fault⟩ := by
  obtain ⟨hne, fault, hfault, hparse | ⟨r, hparse, hkind, haccept⟩⟩ := refused_of_offends htracks h
  · refine ⟨fault, hfault, ?_⟩
    rw [run, List.isEmpty_eq_false_iff.mpr hne, hparse]
    rfl
  · refine ⟨fault, hfault, ?_⟩
    rw [run_parsed limit tooLong reader hparse, if_neg hkind, haccept]

/-- Reading goes on behind lines that are read, with what their records have set. -/
theorem run_of_reads {front : List Bytes} {records : List Record} (h : Reads front records) :
    ∃ reader : Reader, reader.Tracks records ∧ ∀ tooLong rest,
      run limit tooLong (front ++ rest) 0 {} = run limit tooLong rest front.length reader := by
  induction h with
  | nil => exact ⟨{}, tracks_nil, fun tooLong rest => rfl⟩
  | @blank lines records line _ hblank ih =>
    obtain ⟨reader, htracks, hrun⟩ := ih
    refine ⟨reader, htracks, fun tooLong rest => ?_⟩
    rw [List.append_assoc, hrun, List.singleton_append, run_blank limit tooLong reader hblank,
      List.length_append, List.length_singleton]
  | @record lines records line r _ hholds hadmissible ih =>
    obtain ⟨reader, htracks, hrun⟩ := ih
    obtain ⟨reader', haccept, htracks'⟩ := accept_of_admissible htracks hadmissible
    refine ⟨reader', htracks', fun tooLong rest => ?_⟩
    rw [List.append_assoc, hrun, List.singleton_append,
      run_parsed limit tooLong reader (parse_eq_ok_iff.mpr hholds), if_neg hadmissible.kind_ne,
      haccept, List.length_append, List.length_singleton]

end Reader

/-! ## The span of the data -/

theorem span_le_iff {limit : Nat} {first : Chunk} {rest : List Chunk} :
    highest first rest - lowest first rest ≤ limit ↔ SpanAtMost limit (first :: rest) := by
  have hlow (n : Nat) : n ≤ lowest first rest ↔ ∀ c ∈ first :: rest, n ≤ c.address := by
    rw [lowest, le_foldl_min_iff, List.forall_mem_cons]
  have hhigh (n : Nat) : highest first rest ≤ n ↔ ∀ d ∈ first :: rest, d.stop ≤ n := by
    rw [highest, foldl_max_le_iff, List.forall_mem_cons]
  rw [Nat.sub_le_iff_le_add, hhigh]
  constructor
  · intro h c hc d hd
    have hstop := h d hd
    have haddress := (hlow _).mp (Nat.le_refl _) c hc
    omega
  · intro h d hd
    have hle : d.stop - limit ≤ lowest first rest := (hlow _).mpr fun c hc => by
      have hstop := h c hc d hd
      omega
    omega

namespace Reader

variable {reader : Reader} {records : List Record} (limit stop : Nat)

theorem finish_of_empty (h : reader.Tracks records) (hempty : placements records = []) :
    reader.finish limit stop = .error ⟨0, .empty⟩ := by
  unfold finish
  rw [h.chunks, hempty]

theorem finish_of_spanAtMost (h : reader.Tracks records) (hne : placements records ≠ [])
    (hspan : SpanAtMost limit (placements records)) : ∃ image, reader.finish limit stop = .ok image := by
  unfold finish
  rw [h.chunks]
  obtain ⟨first, rest, hchunks⟩ := List.exists_cons_of_ne_nil hne
  rw [hchunks] at hspan ⊢
  unfold flatten
  dsimp only
  rw [if_neg (Nat.not_lt.mpr (span_le_iff.mpr hspan))]
  exact ⟨_, rfl⟩

theorem finish_of_not_spanAtMost (h : reader.Tracks records)
    (hspan : ¬ SpanAtMost limit (placements records)) :
    ∃ fault, fault.kind = .tooLarge ∧ reader.finish limit stop = .error ⟨stop, fault⟩ := by
  unfold finish
  rw [h.chunks]
  cases hchunks : placements records with
  | nil =>
    rw [hchunks] at hspan
    exact absurd (fun c hc => by cases hc) hspan
  | cons first rest =>
    rw [hchunks, ← span_le_iff, Nat.not_le] at hspan
    unfold flatten
    dsimp only
    rw [if_pos hspan]
    exact ⟨_, rfl, rfl⟩

end Reader

/-! ## Texts -/

section Outcomes

variable (limit : Nat) {text : Bytes} {front rest : List Bytes} {line : Bytes}
  {records : List Record}

/-- What is read up to the end-of-file record decides, whatever stands behind it. -/
theorem parse_of_endsFile (hfront : Reads front records) (hends : EndsFile (Text.trim line)) :
    ∃ reader : Reader, reader.Tracks records ∧ ∀ text,
      front ++ [line] <+: (Text.lines text).lines →
        Image.parse limit text = reader.finish limit (front.length + 1) := by
  obtain ⟨reader, htracks, hrun⟩ := Reader.run_of_reads limit hfront
  refine ⟨reader, htracks, ?_⟩
  rintro text ⟨rest, hlines⟩
  rw [List.append_assoc, List.singleton_append] at hlines
  unfold Image.parse
  dsimp only
  rw [← hlines, hrun, Reader.run_of_endsFile limit _ reader hends]

theorem parse_of_offends {kind : FaultKind}
    (hlines : (Text.lines text).lines = front ++ line :: rest) (hfront : Reads front records)
    (hoffends : Offends records (Text.trim line) kind) :
    ∃ fault, fault.kind = kind ∧ Image.parse limit text = .error ⟨front.length + 1, fault⟩ := by
  obtain ⟨reader, htracks, hrun⟩ := Reader.run_of_reads limit hfront
  unfold Image.parse
  dsimp only
  rw [hlines, hrun]
  exact Reader.run_of_offends limit _ htracks hoffends rest front.length

theorem parse_of_reads (hlong : (Text.lines text).tooLong = false)
    (hreads : Reads (Text.lines text).lines records) :
    Image.parse limit text = .error ⟨0, .malformed .missingEnd⟩ := by
  obtain ⟨reader, -, hrun⟩ := Reader.run_of_reads limit hreads
  have hrun := hrun (Text.lines text).tooLong []
  rw [List.append_nil] at hrun
  unfold Image.parse
  dsimp only
  rw [hrun, hlong]
  rfl

end Outcomes

/-- What a text comes to: an image if it is a file whose data fits, and otherwise a fault with the line
to blame. -/
theorem parse_cases (limit : Nat) {text : Bytes} (hlong : (Text.lines text).tooLong = false) :
    (∃ front line rest records, (Text.lines text).lines = front ++ line :: rest ∧
      Reads front records ∧ EndsFile (Text.trim line) ∧ placements records ≠ [] ∧
      SpanAtMost limit (placements records) ∧ ∃ image, Image.parse limit text = .ok image) ∨
    ∃ failure, Image.parse limit text = .error failure ∧
      Blames limit (Text.lines text).lines failure.line failure.fault.kind := by
  obtain ⟨records, hreads⟩ | ⟨front, line, rest, records, hlines, hfront, hends | ⟨kind, hoffends⟩⟩ :=
    reads_cases (Text.lines text).lines
  · exact .inr ⟨_, parse_of_reads limit hlong hreads, .unfinished hreads⟩
  · obtain ⟨reader, htracks, hparse⟩ := parse_of_endsFile limit hfront hends
    have hparse := hparse text ⟨rest, by simp [hlines]⟩
    by_cases hempty : placements records = []
    · rw [Reader.finish_of_empty limit _ htracks hempty] at hparse
      exact .inr ⟨_, hparse, .empty hlines hfront hends hempty⟩
    by_cases hspan : SpanAtMost limit (placements records)
    · obtain ⟨image, hfinish⟩ :=
        Reader.finish_of_spanAtMost limit (front.length + 1) htracks hempty hspan
      exact .inl ⟨front, line, rest, records, hlines, hfront, hends, hempty, hspan, image,
        hparse.trans hfinish⟩
    · obtain ⟨fault, hkind, hfinish⟩ :=
        Reader.finish_of_not_spanAtMost limit (front.length + 1) htracks hspan
      refine .inr ⟨_, hparse.trans hfinish, ?_⟩
      dsimp only
      rw [hkind]
      exact .tooLarge hlines hfront hends hspan
  · obtain ⟨fault, rfl, hparse⟩ := parse_of_offends limit hlines hfront hoffends
    exact .inr ⟨_, hparse, .line hlines hfront hoffends⟩

theorem parse_of_blames {limit : Nat} {text : Bytes} (hlong : (Text.lines text).tooLong = false)
    {n : Nat} {kind : FaultKind} (h : Blames limit (Text.lines text).lines n kind) :
    ∃ fault, fault.kind = kind ∧ Image.parse limit text = .error ⟨n, fault⟩ := by
  cases h with
  | line hlines hfront hoffends => exact parse_of_offends limit hlines hfront hoffends
  | empty hlines hfront hends hempty =>
    obtain ⟨reader, htracks, hparse⟩ := parse_of_endsFile limit hfront hends
    rw [hparse text ⟨_, by rw [hlines, List.append_assoc]; rfl⟩]
    exact ⟨_, rfl, Reader.finish_of_empty limit _ htracks hempty⟩
  | tooLarge hlines hfront hends hspan =>
    obtain ⟨reader, htracks, hparse⟩ := parse_of_endsFile limit hfront hends
    rw [hparse text ⟨_, by rw [hlines, List.append_assoc]; rfl⟩]
    exact Reader.finish_of_not_spanAtMost limit _ htracks hspan
  | unfinished hreads => exact ⟨_, rfl, parse_of_reads limit hlong hreads⟩

/-- **The reader accepts exactly the HEX files whose data fits**, nothing behind the first end-of-file
record matters, and it blames the first line that offends for the first thing that is wrong with it. -/
theorem parse_isOk_iff (limit : Nat) {text : Bytes}
    (hshort : ∀ piece ∈ Text.pieces text, piece.length < Text.lineLimit) :
    ((Image.parse limit text).isOk ↔
      ∃ front line rest records,
        (Text.pieces text).map Text.dropReturn = front ++ line :: rest ∧ Reads front records ∧
        EndsFile (Text.trim line) ∧ placements records ≠ [] ∧
        SpanAtMost limit (placements records)) ∧
    (∀ front line records, front ++ [line] <+: (Text.pieces text).map Text.dropReturn →
      Reads front records → EndsFile (Text.trim line) →
      ∀ other, front ++ [line] <+: (Text.lines other).lines →
        Image.parse limit other = Image.parse limit text) ∧
    ∀ n kind, (∃ fault, fault.kind = kind ∧ Image.parse limit text = .error ⟨n, fault⟩) ↔
      Blames limit ((Text.pieces text).map Text.dropReturn) n kind := by
  have hlong : (Text.lines text).tooLong = false := by rw [Text.lines_of_short hshort]
  have hlines : (Text.pieces text).map Text.dropReturn = (Text.lines text).lines := by
    rw [Text.lines_of_short hshort]
  rw [hlines]
  refine ⟨⟨?_, ?_⟩, ?_, fun n kind => ⟨?_, parse_of_blames hlong⟩⟩
  · intro hok
    obtain ⟨front, line, rest, records, hlines, hfront, hends, hne, hspan, -⟩ | ⟨failure, hparse, -⟩ :=
      parse_cases limit hlong
    · exact ⟨front, line, rest, records, hlines, hfront, hends, hne, hspan⟩
    · rw [hparse] at hok
      cases hok
  · rintro ⟨front, line, rest, records, hlines, hfront, hends, hne, hspan⟩
    obtain ⟨reader, htracks, hparse⟩ := parse_of_endsFile limit hfront hends
    obtain ⟨image, hfinish⟩ := Reader.finish_of_spanAtMost limit (front.length + 1) htracks hne hspan
    rw [hparse text ⟨rest, by simp [hlines]⟩, hfinish]
    rfl
  · intro front line records hfile hfront hends other hother
    obtain ⟨reader, -, hparse⟩ := parse_of_endsFile limit hfront hends
    rw [hparse other hother, hparse text hfile]
  · rintro ⟨fault, rfl, herror⟩
    obtain ⟨-, -, -, -, -, -, -, -, -, image, hparse⟩ | ⟨failure, hparse, hblames⟩ :=
      parse_cases limit hlong
    · rw [hparse] at herror
      cases herror
    · rw [hparse] at herror
      cases herror
      exact hblames

/-- Two bytes on each side of a page boundary, with a blank line between them and a line behind the
end. -/
def twoPages : Bytes := Bytes.ofString
  ":020000040001F9\n:02FFFE001234BB\r\n \t\n:020000040002F8\n:02000000567830\n:00000001FF\n:junk"

theorem twoPages_short : ∀ piece ∈ Text.pieces twoPages, piece.length < Text.lineLimit := by
  decide +kernel

/-- The four bytes are read under a limit of four; under a limit of three the line of the end is to
blame. -/
theorem twoPages_isOk :
    (∀ piece ∈ Text.pieces twoPages, piece.length < Text.lineLimit) ∧
    (∃ front line rest records,
      (Text.pieces twoPages).map Text.dropReturn = front ++ line :: rest ∧ Reads front records ∧
      EndsFile (Text.trim line) ∧ placements records ≠ [] ∧ SpanAtMost 4 (placements records)) ∧
    Blames 3 ((Text.pieces twoPages).map Text.dropReturn) 6 .tooLarge := by
  have hok : (Image.parse 4 twoPages).isOk = true := by decide +kernel
  have herror : Image.parse 3 twoPages = .error ⟨6, .tooLarge 0x1FFFE 0x20002 3⟩ := by
    decide +kernel
  exact ⟨twoPages_short, (parse_isOk_iff 4 twoPages_short).1.mp hok,
    ((parse_isOk_iff 3 twoPages_short).2.2 6 .tooLarge).mp ⟨_, rfl, herror⟩⟩
end AvrSim.Hex
