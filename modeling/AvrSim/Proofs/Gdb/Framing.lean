import AvrSim.Proofs.Gdb.Session
import AvrSim.Proofs.Hex.Line

/-!
# What a server makes of a byte stream

Whatever a client sends falls into pieces: frames with the digits of their sum, frames without,
interrupts, and bytes between them that mean nothing. A payload ends at the first `#`, so it may hold the bytes that
mean something elsewhere. The reader finds the pieces again, however the stream is cut up on its way: a
frame with other digits is refused and costs nothing but itself.

* `Piece` is a piece of a stream, `Unfinished` the start of a frame that has not ended.
* `exists_pieces`: every stream is a sequence of pieces and possibly the start of a frame.
* `Reader.feedAll_pieces`: what the reader finds in it.
* `Reply.isPlain_payload`: no answer of the server holds a byte that starts a frame or ends a payload.
-/

namespace AvrSim

/-! ## Digits of a sum -/

namespace Hex

/-- A hexadecimal digit of either case and its value. -/
def Spells (b : UInt8) (n : Nat) : Prop := n < 16 ∧ (b = lowerDigit n ∨ b = upperDigit n)

theorem digit?_eq_some_iff {b : UInt8} {n : Nat} : digit? b = some n ↔ Spells b n := by
  have hall : ∀ k ∈ List.range 256, ∀ n ∈ List.range 16, digit? (UInt8.ofNat k) = some n ↔
      UInt8.ofNat k = lowerDigit n ∨ UInt8.ofNat k = upperDigit n := by
    decide +kernel
  have hb := hall b.toNat (List.mem_range.mpr b.toNat_lt) n
  rw [UInt8.ofNat_toNat, List.mem_range] at hb
  constructor
  · intro h
    have hn : n < 16 := of_decide_eq_true (Option.filter_eq_some_iff.mp h).2
    exact ⟨hn, (hb hn).mp h⟩
  · rintro ⟨hn, h⟩
    exact (hb hn).mpr h

end Hex

namespace Gdb

/-- Two bytes are the digits of the sum of a payload. -/
def Seals (first last : UInt8) (payload : Bytes) : Prop :=
  ∃ high low, Hex.Spells first high ∧ Hex.Spells last low ∧
    16 * high + low = Hex.total payload % 256

theorem sumMatches_iff {payload : Bytes} {first last : UInt8} :
    sumMatches payload first last ↔ Seals first last payload := by
  have hdecode : sumMatches payload first last ↔ Hex.Spelling [first, last] [sum8 payload] := by
    rw [← Hex.decode_eq_ok_iff, sumMatches, beq_iff_eq]
    cases Hex.decode [first, last] <;> simp [Except.toOption]
  have hsum := Hex.toNat_sum8 payload
  rw [hdecode]
  constructor
  · intro h
    generalize hbytes : [sum8 payload] = bytes at h
    obtain _ | ⟨hfirst, hlast, -⟩ := h
    rename_i high low _ 
    obtain ⟨hbyte, -⟩ := List.cons.inj hbytes
    have hhigh := (Hex.digit?_eq_some_iff.mp hfirst).1
    have hlow := (Hex.digit?_eq_some_iff.mp hlast).1
    refine ⟨high, low, Hex.digit?_eq_some_iff.mp hfirst, Hex.digit?_eq_some_iff.mp hlast, ?_⟩
    rw [← hsum, hbyte, UInt8.toNat_ofNat']
    omega
  · rintro ⟨high, low, hfirst, hlast, htotal⟩
    have hhigh := hfirst.1
    have hlow := hlast.1
    have hbyte : UInt8.ofNat (high * 16 + low) = sum8 payload := by
      rw [← UInt8.toNat_inj, hsum, UInt8.toNat_ofNat']
      omega
    rw [← hbyte]
    exact .cons (Hex.digit?_eq_some_iff.mpr hfirst) (Hex.digit?_eq_some_iff.mpr hlast) .nil

instance (first last : UInt8) (payload : Bytes) : Decidable (Seals first last payload) :=
  decidable_of_iff _ sumMatches_iff

/-! ## Pieces -/

/-- A piece of what a client sends. -/
inductive Piece
  | noise (b : UInt8) (h : b ≠ '$'.toUInt8 ∧ b ≠ 3)
  | interrupt
  | packet (payload : Bytes) (first last : UInt8) (hfree : '#'.toUInt8 ∉ payload)
    (hsum : Seals first last payload)
  | garbled (payload : Bytes) (first last : UInt8) (hfree : '#'.toUInt8 ∉ payload)
    (hsum : ¬ Seals first last payload)

namespace Piece

/-- A payload between its marks, followed by two bytes. -/
def framed (payload : Bytes) (first last : UInt8) : Bytes :=
  '$'.toUInt8 :: (payload ++ ['#'.toUInt8, first, last])

def bytes : Piece → Bytes
  | noise b _ => [b]
  | interrupt => [3]
  | packet payload first last _ _ => framed payload first last
  | garbled payload first last _ _ => framed payload first last

/-- What is delivered to be served. -/
def delivered? : Piece → Option Bytes
  | noise _ _ => none
  | interrupt => some [3]
  | packet payload _ _ _ _ => some payload
  | garbled _ _ _ _ _ => none

/-- How the piece is acknowledged. -/
def answer? : Piece → Option Char
  | noise _ _ => none
  | interrupt => none
  | packet _ _ _ _ _ => some '+'
  | garbled _ _ _ _ _ => some '-'

def arrival? : Piece → Option Arrival
  | noise _ _ => none
  | interrupt => some .interrupt
  | packet payload _ _ _ _ => some (.packet payload)
  | garbled _ _ _ _ _ => some .garbled

theorem arrival?_bind_packet? (piece : Piece) :
    piece.arrival?.bind Arrival.packet? = piece.delivered? := by
  cases piece <;> rfl

theorem arrival?_bind_acknowledgement? (piece : Piece) :
    piece.arrival?.bind Arrival.acknowledgement? = piece.answer? := by
  cases piece <;> rfl

end Piece

/-- The bytes of pieces in a row. -/
def wire (pieces : List Piece) : Bytes := pieces.flatMap Piece.bytes

/-- Nothing, or the start of a frame. -/
inductive Unfinished : Bytes → Prop
  | nothing : Unfinished []
  | payload {payload : Bytes} (hfree : '#'.toUInt8 ∉ payload) : Unfinished ('$'.toUInt8 :: payload)
  | sum {payload : Bytes} (hfree : '#'.toUInt8 ∉ payload) :
    Unfinished ('$'.toUInt8 :: (payload ++ ['#'.toUInt8]))
  | sumEnd {payload : Bytes} (hfree : '#'.toUInt8 ∉ payload) (first : UInt8) :
    Unfinished ('$'.toUInt8 :: (payload ++ ['#'.toUInt8, first]))

theorem exists_pieces (bytes : Bytes) :
    ∃ pieces tail, bytes = wire pieces ++ tail ∧ Unfinished tail := by
  have hpiece (piece : Piece) {rest : Bytes}
      (h : ∃ pieces tail, rest = wire pieces ++ tail ∧ Unfinished tail) :
      ∃ pieces tail, piece.bytes ++ rest = wire pieces ++ tail ∧ Unfinished tail := by
    obtain ⟨pieces, tail, rfl, htail⟩ := h
    exact ⟨piece :: pieces, tail, by simp [wire], htail⟩
  induction hlength : bytes.length using Nat.strongRecOn generalizing bytes with
  | _ n ih =>
    match bytes, hlength with
    | [], _ => exact ⟨[], [], rfl, .nothing⟩
    | b :: rest, hlength =>
      rw [List.length_cons] at hlength
      by_cases hinterrupt : b = 3
      · subst hinterrupt
        exact hpiece .interrupt (ih rest.length (by omega) rest rfl)
      by_cases hstart : b = '$'.toUInt8
      · subst hstart
        by_cases hmark : '#'.toUInt8 ∈ rest
        · obtain ⟨payload, after, rfl, hfree⟩ := List.eq_append_cons_of_mem hmark
          match after, hlength with
          | [], _ => exact ⟨[], _, rfl, .sum hfree⟩
          | [first], _ => exact ⟨[], _, rfl, .sumEnd hfree first⟩
          | first :: last :: after, hlength =>
            have hafter := ih after.length (by simp at hlength; omega) after rfl
            have hbytes : '$'.toUInt8 :: (payload ++ '#'.toUInt8 :: first :: last :: after) =
                Piece.framed payload first last ++ after := by
              simp [Piece.framed]
            rw [hbytes]
            by_cases hsum : Seals first last payload
            · exact hpiece (.packet payload first last hfree hsum) hafter
            · exact hpiece (.garbled payload first last hfree hsum) hafter
        · exact ⟨[], _, rfl, .payload hmark⟩
      · exact hpiece (.noise b ⟨hstart, hinterrupt⟩) (ih rest.length (by omega) rest rfl)

/-! ## Reading -/

namespace Reader

variable {rest : Bytes}

theorem feedAll_cons (reader : Reader) (b : UInt8) (rest : Bytes) :
    reader.feedAll (b :: rest) =
      (((reader.feed b).1.feedAll rest).1,
        (reader.feed b).2.toList ++ ((reader.feed b).1.feedAll rest).2) :=
  feedAll_append reader [b] rest

theorem feedAll_payload {payload : Bytes} (hfree : '#'.toUInt8 ∉ payload) (reversed : Bytes) :
    (Reader.payload reversed).feedAll (payload ++ rest) =
      (Reader.payload (payload.reverse ++ reversed)).feedAll rest := by
  induction payload generalizing reversed with
  | nil => rfl
  | cons b payload ih =>
    obtain ⟨hb, hfree⟩ := not_or.mp (mt List.mem_cons.mpr hfree)
    have hfeed : (Reader.payload reversed).feed b = (Reader.payload (b :: reversed), none) := by
      rw [feed, if_neg (by simpa using Ne.symm hb)]
    rw [List.cons_append, feedAll_cons, hfeed, ih hfree]
    simp

theorem feedAll_framed {payload : Bytes} (hfree : '#'.toUInt8 ∉ payload) (first last : UInt8) :
    idle.feedAll (Piece.framed payload first last ++ rest) =
      ((idle.feedAll rest).1,
        (if sumMatches payload first last then .packet payload else .garbled) ::
          (idle.feedAll rest).2) := by
  have hstart : idle.feed '$'.toUInt8 = (Reader.payload [], none) := rfl
  have hmark (reversed : Bytes) :
      (Reader.payload reversed).feed '#'.toUInt8 = (Reader.sum reversed.reverse, none) := rfl
  unfold Piece.framed
  rw [List.cons_append, List.append_assoc, feedAll_cons, hstart, feedAll_payload hfree]
  simp only [List.cons_append, List.nil_append, feedAll_cons, hmark]
  simp [feed]

theorem feedAll_piece (piece : Piece) :
    idle.feedAll (piece.bytes ++ rest) =
      ((idle.feedAll rest).1, piece.arrival?.toList ++ (idle.feedAll rest).2) := by
  cases piece with
  | noise b h =>
    have hfeed : idle.feed b = (idle, none) := by
      rw [feed, if_neg (by simpa using h.2), if_neg (by simpa using h.1)]
    unfold Piece.bytes
    rw [List.singleton_append, feedAll_cons, hfeed]
    rfl
  | interrupt => exact feedAll_cons idle 3 rest
  | packet payload first last hfree hsum =>
    unfold Piece.bytes
    rw [feedAll_framed hfree, if_pos (sumMatches_iff.mpr hsum)]
    rfl
  | garbled payload first last hfree hsum =>
    unfold Piece.bytes
    rw [feedAll_framed hfree, if_neg (mt sumMatches_iff.mp hsum)]
    rfl

theorem feedAll_pieces (pieces : List Piece) :
    idle.feedAll (wire pieces ++ rest) =
      ((idle.feedAll rest).1, pieces.filterMap Piece.arrival? ++ (idle.feedAll rest).2) := by
  induction pieces with
  | nil => rfl
  | cons piece pieces ih =>
    unfold wire at ih ⊢
    rw [List.flatMap_cons, List.append_assoc, feedAll_piece, ih]
    cases h : piece.arrival? with
    | none => rw [List.filterMap_cons_none h]; rfl
    | some arrival => rw [List.filterMap_cons_some h]; rfl

theorem feedAll_unfinished {tail : Bytes} (h : Unfinished tail) : (idle.feedAll tail).2 = [] := by
  have hstart (bytes : Bytes) :
      (idle.feedAll ('$'.toUInt8 :: bytes)).2 = ((Reader.payload []).feedAll bytes).2 := by
    rw [feedAll_cons]
    rfl
  cases h with
  | nothing => rfl
  | @payload payload hfree =>
    rw [hstart, ← List.append_nil payload, feedAll_payload hfree]
    rfl
  | sum hfree =>
    rw [hstart, feedAll_payload hfree]
    rfl
  | sumEnd hfree first =>
    rw [hstart, feedAll_payload hfree]
    rfl

end Reader

/-! ## Receiving -/

namespace Server

/-- Takes what a client sends as it comes in. -/
def receiveAll (s : Server) : List Bytes → Server × List Arrival
  | [] => (s, [])
  | bytes :: rest =>
    (((s.receive bytes).1.receiveAll rest).1,
      (s.receive bytes).2 ++ ((s.receive bytes).1.receiveAll rest).2)

variable {s : Server} {c : Connection}

/-- How a stream is cut up does not matter. -/
theorem receiveAll_of_connection (hc : s.connection = some c) (chunks : List Bytes) :
    s.receiveAll chunks =
      ({ s with connection := some { c with
          reader := (c.reader.feedAll chunks.flatten).1
          queue := c.queue ++ (c.reader.feedAll chunks.flatten).2.filterMap Arrival.packet? } },
        (c.reader.feedAll chunks.flatten).2) := by
  induction chunks generalizing s c with
  | nil =>
    have hsame : ({ c with queue := c.queue ++ [] } : Connection) = c := by
      rw [List.append_nil]
    change (s, []) = ({ s with connection := some { c with queue := c.queue ++ [] } }, [])
    rw [hsame, ← hc]
  | cons bytes chunks ih =>
    have hreceive : s.receive bytes =
        ({ s with connection := some { c with
            reader := (c.reader.feedAll bytes).1
            queue := c.queue ++ (c.reader.feedAll bytes).2.filterMap Arrival.packet? } },
          (c.reader.feedAll bytes).2) := by
      rw [receive, hc]
    rw [receiveAll, hreceive, ih rfl, List.flatten_cons, Reader.feedAll_append]
    simp only [List.filterMap_append, List.append_assoc]

/-- Payloads are delivered and acknowledgements are given for what comes in. -/
structure Takes (s : Server) (chunks payloads : List Bytes) (answers : List Char) : Prop where
  queue : (s.receiveAll chunks).1.queue = s.queue ++ payloads
  answers : (s.receiveAll chunks).2.filterMap Arrival.acknowledgement? = answers

theorem takes_of_pieces (hc : s.connection = some c) (hidle : c.reader = .idle)
    {chunks : List Bytes} {pieces : List Piece} {tail : Bytes}
    (hchunks : chunks.flatten = wire pieces ++ tail) (htail : Unfinished tail) :
    s.Takes chunks (pieces.filterMap Piece.delivered?) (pieces.filterMap Piece.answer?) := by
  have harrivals : (c.reader.feedAll chunks.flatten).2 = pieces.filterMap Piece.arrival? := by
    rw [hidle, hchunks, Reader.feedAll_pieces, Reader.feedAll_unfinished htail, List.append_nil]
  have hqueue : s.queue = c.queue := by
    rw [queue, hc]
    rfl
  constructor
  · rw [receiveAll_of_connection hc, harrivals, List.filterMap_filterMap, hqueue,
      funext Piece.arrival?_bind_packet?]
    rfl
  · rw [receiveAll_of_connection hc, harrivals, List.filterMap_filterMap,
      funext Piece.arrival?_bind_acknowledgement?]

end Server

/-! ## Frames with gaps between them -/

/-- Frames of payloads, with bytes before, between and after them that mean nothing. -/
inductive Spaced : List Bytes → Bytes → Prop
  | nil {gap : Bytes} (hgap : ∀ b ∈ gap, b ≠ '$'.toUInt8 ∧ b ≠ 3) : Spaced [] gap
  | cons {gap payload rest : Bytes} {payloads : List Bytes}
    (hgap : ∀ b ∈ gap, b ≠ '$'.toUInt8 ∧ b ≠ 3) (hfree : '#'.toUInt8 ∉ payload)
    (h : Spaced payloads rest) : Spaced (payload :: payloads) (gap ++ frame payload ++ rest)

theorem seals_sum8 (payload : Bytes) :
    Seals (Hex.lowerDigit ((sum8 payload).toNat / 16)) (Hex.lowerDigit ((sum8 payload).toNat % 16))
      payload := by
  have hlt := (sum8 payload).toNat_lt
  refine ⟨_, _, ⟨by omega, .inl rfl⟩, ⟨by omega, .inl rfl⟩, ?_⟩
  rw [← Hex.toNat_sum8]
  omega

/-- The piece that a frame is. -/
def Piece.ofPayload (payload : Bytes) (hfree : '#'.toUInt8 ∉ payload) : Piece :=
  .packet payload _ _ hfree (seals_sum8 payload)

theorem Piece.bytes_ofPayload {payload : Bytes} (hfree : '#'.toUInt8 ∉ payload) :
    (ofPayload payload hfree).bytes = frame payload := rfl

theorem Piece.delivered?_ofPayload {payload : Bytes} (hfree : '#'.toUInt8 ∉ payload) :
    (ofPayload payload hfree).delivered? = some payload := rfl

theorem Piece.answer?_ofPayload {payload : Bytes} (hfree : '#'.toUInt8 ∉ payload) :
    (ofPayload payload hfree).answer? = some '+' := rfl

/-- The pieces of a gap. -/
def Piece.gap (bytes : Bytes) (h : ∀ b ∈ bytes, b ≠ '$'.toUInt8 ∧ b ≠ 3) : List Piece :=
  bytes.pmap Piece.noise h

theorem Piece.wire_gap {bytes : Bytes} (h : ∀ b ∈ bytes, b ≠ '$'.toUInt8 ∧ b ≠ 3) :
    wire (gap bytes h) = bytes := by
  induction bytes with
  | nil => rfl
  | cons b bytes ih =>
    unfold wire gap at ih ⊢
    rw [List.pmap_cons, List.flatMap_cons, ih]
    rfl

theorem Piece.filterMap_gap {α : Type} {f : Piece → Option α} (hf : ∀ b h, f (noise b h) = none)
    {bytes : Bytes} (h : ∀ b ∈ bytes, b ≠ '$'.toUInt8 ∧ b ≠ 3) :
    (gap bytes h).filterMap f = [] := by
  rw [List.filterMap_eq_nil_iff]
  intro piece hpiece
  obtain ⟨b, hb, rfl⟩ := List.mem_pmap.mp hpiece
  exact hf b _

theorem exists_pieces_of_spaced {payloads : List Bytes} {bytes : Bytes} (h : Spaced payloads bytes) :
    ∃ pieces, bytes = wire pieces ∧ pieces.filterMap Piece.delivered? = payloads ∧
      pieces.filterMap Piece.answer? = List.replicate payloads.length '+' := by
  induction h with
  | nil hgap =>
    exact ⟨Piece.gap _ hgap, (Piece.wire_gap hgap).symm,
      Piece.filterMap_gap (fun _ _ => rfl) hgap, Piece.filterMap_gap (fun _ _ => rfl) hgap⟩
  | @cons gap payload rest payloads hgap hfree h ih =>
    obtain ⟨pieces, rfl, hdelivered, hanswers⟩ := ih
    refine ⟨Piece.gap gap hgap ++ Piece.ofPayload payload hfree :: pieces, ?_, ?_, ?_⟩
    · have hwire := Piece.wire_gap hgap
      unfold wire at hwire ⊢
      rw [List.flatMap_append, hwire, List.flatMap_cons, Piece.bytes_ofPayload, List.append_assoc]
    · rw [List.filterMap_append, Piece.filterMap_gap (fun _ _ => rfl) hgap,
        List.filterMap_cons_some (Piece.delivered?_ofPayload hfree), hdelivered]
      rfl
    · rw [List.filterMap_append, Piece.filterMap_gap (fun _ _ => rfl) hgap,
        List.filterMap_cons_some (Piece.answer?_ofPayload hfree), hanswers]
      rfl

end Gdb

/-! ## Answers -/

namespace Bytes

theorem toList_loop (bytes : ByteArray) (i : Nat) (acc : List UInt8) :
    ByteArray.toList.loop bytes i acc = acc.reverse ++ bytes.data.toList.drop i := by
  induction i, acc using ByteArray.toList.loop.induct bytes with
  | case1 i acc hi ih =>
    have hlength : i < bytes.data.toList.length := by simpa using hi
    have hget : bytes.get! i = bytes.data.toList[i] := by
      simp [ByteArray.get!, hi]
    rw [ByteArray.toList.loop, if_pos hi, ih, List.drop_eq_getElem_cons hlength, hget]
    simp
  | case2 i acc hi =>
    rw [ByteArray.toList.loop, if_neg hi, List.drop_of_length_le (by simpa using hi), List.append_nil]

theorem ofString_eq (s : String) : ofString s = s.toByteArray.data.toList :=
  toList_loop s.toByteArray 0 []

theorem ofString_append (s t : String) : ofString (s ++ t) = ofString s ++ ofString t := by
  simp only [ofString_eq, String.toByteArray_append, ByteArray.data_append, Array.toList_append]

theorem ofString_ofList (chars : List Char) :
    ofString (String.ofList chars) = chars.flatMap String.utf8EncodeChar := by
  rw [ofString_eq, String.toByteArray_ofList, List.utf8Encode]
  simp

end Bytes

theorem Text.exists_of_mem_toDigits {n : Nat} {c : Char} (h : c ∈ Nat.toDigits 16 n) :
    ∃ d < 16, c = Nat.digitChar d := by
  induction n using Nat.strongRecOn with
  | _ n ih =>
    rw [Nat.toDigits_eq_if (by decide)] at h
    split at h
    case isTrue hn => exact ⟨n, hn, List.mem_singleton.mp h⟩
    case isFalse hn =>
      obtain h | h := List.mem_append.mp h
      · exact ih (n / 16) (by omega) h
      · exact ⟨n % 16, by omega, List.mem_singleton.mp h⟩

namespace Gdb

/-- A byte that neither starts a frame nor ends a payload. -/
def isPlain (b : UInt8) : Bool := b ≠ '$'.toUInt8 ∧ b ≠ '#'.toUInt8

theorem isPlain_hex (width n : Nat) : ∀ b ∈ Bytes.ofString (Text.hex width n), isPlain b := by
  have hdigits : ∀ d ∈ List.range 16, ∀ b ∈ String.utf8EncodeChar (Nat.digitChar d), isPlain b := by
    decide +kernel
  intro b hb
  rw [Text.hex, Text.digits, Text.padLeft, Bytes.ofString_append, Bytes.ofString_ofList,
    Bytes.ofString_ofList, ← List.flatMap_append] at hb
  obtain ⟨c, hc, hb⟩ := List.mem_flatMap.mp hb
  obtain ⟨d, hd, rfl⟩ : ∃ d < 16, c = Nat.digitChar d := by
    obtain hc | hc := List.mem_append.mp hc
    · exact ⟨0, by decide, List.eq_of_mem_replicate hc⟩
    · exact Text.exists_of_mem_toDigits hc
  exact hdigits d (List.mem_range.mpr hd) b hb

theorem StopReply.isPlain_text (reason : StopReply) : ∀ b ∈ Bytes.ofString reason.text, isPlain b := by
  cases reason with
  | signal number =>
    have hsignal : ∀ b ∈ Bytes.ofString "S", isPlain b := by decide +kernel
    rw [text, Bytes.ofString_append]
    exact List.forall_mem_append.mpr ⟨hsignal, isPlain_hex 2 number⟩
  | watch kind address =>
    have hmarks : ∀ s ∈ ["T", ":", ";", kind.word], ∀ b ∈ Bytes.ofString s, isPlain b := by
      cases kind <;> decide +kernel
    simp only [List.mem_cons, List.not_mem_nil, or_false, forall_eq_or_imp, forall_eq] at hmarks
    obtain ⟨htrap, hcolon, hend, hword⟩ := hmarks
    simp only [text, Bytes.ofString_append, List.forall_mem_append]
    exact ⟨⟨⟨⟨⟨htrap, isPlain_hex 2 5⟩, hword⟩, hcolon⟩, isPlain_hex 1 _⟩, hend⟩

theorem Reply.isPlain_payload (reply : Reply) : ∀ b ∈ reply.payload, isPlain b := by
  cases reply with
  | bytes value =>
    have hdigits : ∀ n ∈ List.range 16, isPlain (Hex.lowerDigit n) := by decide
    intro b hb
    obtain ⟨x, -, hx⟩ := List.mem_flatMap.mp hb
    have hlt := x.toNat_lt
    obtain rfl | rfl : b = _ ∨ b = _ := by simpa using hx
    · exact hdigits _ (List.mem_range.mpr (by omega))
    · exact hdigits _ (List.mem_range.mpr (by omega))
  | stop reason => exact reason.isPlain_text
  | _ => decide +kernel

/-- Between frames, a server takes a stream for what it is, however it is cut up. Of frames with gaps
between them the payloads are delivered in order, each acknowledged. More generally every stream
consists of pieces and perhaps the start of a frame; each frame with the digits of its sum is delivered and
acknowledged, each other frame is refused and not delivered, each interrupt between frames is delivered,
and no piece changes what becomes of the others. What the server itself sends needs no other framing. -/
theorem stream_delivered {s : Server} {c : Connection} (hc : s.connection = some c)
    (hidle : c.reader = .idle) (chunks : List Bytes) :
    (∀ payloads, Spaced payloads chunks.flatten →
      s.Takes chunks payloads (List.replicate payloads.length '+')) ∧
    (∃ pieces tail, chunks.flatten = wire pieces ++ tail ∧ Unfinished tail) ∧
    (∀ pieces tail, chunks.flatten = wire pieces ++ tail → Unfinished tail →
      s.Takes chunks (pieces.filterMap Piece.delivered?) (pieces.filterMap Piece.answer?)) ∧
    ∀ reply : Reply, '$'.toUInt8 ∉ reply.payload ∧ '#'.toUInt8 ∉ reply.payload := by
  refine ⟨?_, exists_pieces chunks.flatten, ?_, ?_⟩
  · intro payloads hspaced
    obtain ⟨pieces, hbytes, rfl, hanswers⟩ := exists_pieces_of_spaced hspaced
    rw [← hanswers]
    exact Server.takes_of_pieces hc hidle (by rw [hbytes, List.append_nil]) .nothing
  · exact fun pieces tail hchunks htail => Server.takes_of_pieces hc hidle hchunks htail
  · intro reply
    constructor
    · exact fun h => absurd (reply.isPlain_payload _ h) (by decide)
    · exact fun h => absurd (reply.isPlain_payload _ h) (by decide)

/-- An acknowledgement, a request, the same request with a wrong sum, an interrupt, a payload that looks
like the start of a frame, and the start of a frame. -/
def mixedChunks : List Bytes :=
  [Bytes.ofString "+$m0,", Bytes.ofString "4#fd$m0,4#0", 0x30 :: 3 :: Bytes.ofString "$$#2",
    Bytes.ofString "4$g"]

def mixedPieces : List Piece :=
  [.noise '+'.toUInt8 (by decide),
    .packet (Bytes.ofString "m0,4") 'f'.toUInt8 'd'.toUInt8 (by decide +kernel) (by decide +kernel),
    .garbled (Bytes.ofString "m0,4") '0'.toUInt8 '0'.toUInt8 (by decide +kernel) (by decide +kernel),
    .interrupt,
    .packet (Bytes.ofString "$") '2'.toUInt8 '4'.toUInt8 (by decide +kernel) (by decide +kernel)]

theorem mixedChunks_delivered :
    mixedChunks.flatten = wire mixedPieces ++ Bytes.ofString "$g" ∧
      Server.Takes { connection := some {} } mixedChunks
        [Bytes.ofString "m0,4", [3], Bytes.ofString "$"] ['+', '-', '+'] ∧
      Spaced [Bytes.ofString "g"] (Bytes.ofString "+$g#67+") ∧
      Server.Takes { connection := some {} } [Bytes.ofString "+$g#67+"] [Bytes.ofString "g"] ['+'] := by
  have hwire : mixedChunks.flatten = wire mixedPieces ++ Bytes.ofString "$g" := by decide +kernel
  have htail : Unfinished (Bytes.ofString "$g") := by
    have hbytes : Bytes.ofString "$g" = '$'.toUInt8 :: ['g'.toUInt8] := by decide +kernel
    rw [hbytes]
    exact .payload (by decide)
  have hspaced : Spaced [Bytes.ofString "g"] (Bytes.ofString "+$g#67+") := by
    have hbytes : Bytes.ofString "+$g#67+" =
        Bytes.ofString "+" ++ frame (Bytes.ofString "g") ++ Bytes.ofString "+" := by
      decide +kernel
    rw [hbytes]
    exact .cons (by decide +kernel) (by decide +kernel) (.nil (by decide +kernel))
  obtain ⟨-, -, hpieces, -⟩ :=
    stream_delivered (s := { connection := some {} }) (c := {}) rfl rfl mixedChunks
  obtain ⟨hframes, -⟩ :=
    stream_delivered (s := { connection := some {} }) (c := {}) rfl rfl [Bytes.ofString "+$g#67+"]
  refine ⟨hwire, hpieces mixedPieces _ hwire htail, hspaced, hframes [Bytes.ofString "g"] ?_⟩
  rwa [List.flatten_singleton]

end Gdb

end AvrSim
