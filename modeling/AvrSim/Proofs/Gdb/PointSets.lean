import AvrSim.Proofs.Gdb.Refusal
import AvrSim.Proofs.Gdb.Requests
import AvrSim.Proofs.Wiring.Build
import Mathlib.Data.List.Induction
import Mathlib.Data.List.Nodup
import Mathlib.Data.Set.Basic

/-!
# The points are ordered sets

A client inserts and removes points one by one, as often as it likes and in any order. What is in force
then is what the requests describe as operations on a set: one point is inserted or removed by a request
that names it, and nothing happens for a request that names none. The server keeps the set as lists
without duplicates, in the order in which the points came into force.

* `Names`: the point that the arguments of a request name, with `Point.parse_eq_ok_iff`.
* `inForce`: the set that requests describe. `Since`: the request that brought a point into force.
* `Lists`: a list is one part of that set, in order, with `Lists.keep`, `Lists.insert` and
  `Lists.erase` for one more request.
* `Server.points_ordered_set`: the points after any requests.
-/

namespace AvrSim

namespace Bytes

theorem fields_eq_three_iff {mark : UInt8} {text first second third : Bytes} :
    fields mark text = [first, second, third] ↔
      mark ∉ first ∧ mark ∉ second ∧ mark ∉ third ∧
        text = first ++ mark :: (second ++ mark :: third) := by
  constructor
  · intro h
    obtain ⟨hfirst, ⟨-, hnil⟩ | ⟨back, rfl, hback⟩⟩ := of_fields_eq_cons h
    · cases hnil
    · obtain ⟨hsecond, ⟨-, hnil⟩ | ⟨last, rfl, hlast⟩⟩ := of_fields_eq_cons hback
      · cases hnil
      · obtain ⟨hthird, ⟨rfl, -⟩ | ⟨more, -, hmore⟩⟩ := of_fields_eq_cons hlast
        · exact ⟨hfirst, hsecond, hthird, rfl⟩
        · exact absurd hmore (fields_ne_nil mark more)
  · rintro ⟨hfirst, hsecond, hthird, rfl⟩
    have hlast := fields_append_of_eq_cons hthird (show fields mark [] = [[]] from rfl)
    rw [List.append_nil] at hlast
    rw [fields_append_cons hfirst, fields_append_cons hsecond, hlast]

end Bytes

namespace Gdb

open Numeral (Spells)

/-! ## The point that a request names -/

/-- `type,address,size`: hexadecimal numbers of at most 8, 32 and 16 bits. -/
def NamesFields (args : Bytes) (kind address size : Nat) : Prop :=
  ∃ first second third, args = first ++ ','.toUInt8 :: (second ++ ','.toUInt8 :: third) ∧
    (Spells 16 first kind ∧ kind < 2 ^ 8) ∧ (Spells 16 second address ∧ address < 2 ^ 32) ∧
    (Spells 16 third size ∧ size < 2 ^ 16)

/-- The point that arguments name. -/
inductive Names (args : Bytes) : Point → Prop
  | breakpoint {kind address size : Nat} (h : NamesFields args kind address size)
    (hkind : kind ≤ 1) : Names args (.breakpoint (UInt32.ofNat address))
  | watchpoint {kind : WatchKind} {address size : Nat}
    (h : NamesFields args kind.code address size) (hstart : 0x800000 ≤ address)
    (hlimit : address < 0x810000) :
    Names args
      (.watchpoint ⟨UInt16.ofNat (address - 0x800000), UInt16.ofNat (max size 1), kind⟩)

theorem hexField_eq_ok_iff {bits n : Nat} {text : Bytes} :
    hexField bits text = .ok n ↔ Spells 16 text n ∧ n < 2 ^ bits := by
  rw [hexField, Numeral.readUnsigned, mapError_eq_ok_iff, mapError_eq_ok_iff,
    Numeral.unsigned_eq_ok_iff (by decide)]

theorem watchpointAt_eq_ok_iff {kind : WatchKind} {address size : Nat} {p : Point} :
    watchpointAt kind address size = .ok p ↔ (0x800000 ≤ address ∧ address < 0x810000) ∧
      p = .watchpoint ⟨UInt16.ofNat (address - 0x800000), UInt16.ofNat (max size 1), kind⟩ := by
  unfold watchpointAt dataStart dataLimit
  split
  · rename_i h
    rw [Except.ok.injEq, and_iff_right h, eq_comm]
  · rename_i h
    exact ⟨nofun, fun hp => absurd hp.1 h⟩

/-- The point that three numbers stand for. -/
def pointOf (kind address size : Nat) : Except PointError Point :=
  match kind with
  | 0 | 1 => .ok (.breakpoint (UInt32.ofNat address))
  | 2 => watchpointAt .write address size
  | 3 => watchpointAt .read address size
  | 4 => watchpointAt .access address size
  | kind => .error (.unsupported kind)

theorem parse_of_namesFields {args : Bytes} {kind address size : Nat}
    (h : NamesFields args kind address size) : Point.parse args = pointOf kind address size := by
  obtain ⟨first, second, third, rfl, hfirst, hsecond, hthird⟩ := h
  have hcomma {text : Bytes} {n : Nat} (h : Spells 16 text n) : ','.toUInt8 ∉ text :=
    h.not_mem (by rintro d ⟨⟩)
  have hfields := Bytes.fields_eq_three_iff.mpr
    ⟨hcomma hfirst.1, hcomma hsecond.1, hcomma hthird.1, rfl⟩
  unfold Point.parse
  rw [hfields]
  dsimp only
  rw [hexField_eq_ok_iff.mpr hfirst, hexField_eq_ok_iff.mpr hsecond, hexField_eq_ok_iff.mpr hthird]
  rfl

/-- Arguments from which a point is read spell three numbers. -/
theorem exists_namesFields {args : Bytes} {p : Point} (h : Point.parse args = .ok p) :
    ∃ kind address size, NamesFields args kind address size := by
  unfold Point.parse at h
  split at h
  · rename_i first second third hfields
    obtain ⟨-, -, -, htext⟩ := Bytes.fields_eq_three_iff.mp hfields
    obtain ⟨kind, hkind, h⟩ := exists_of_bind_eq_ok h
    obtain ⟨address, haddress, h⟩ := exists_of_bind_eq_ok h
    obtain ⟨size, hsize, -⟩ := exists_of_bind_eq_ok h
    exact ⟨kind, address, size, first, second, third, htext, hexField_eq_ok_iff.mp hkind,
      hexField_eq_ok_iff.mp haddress, hexField_eq_ok_iff.mp hsize⟩
  · cases h

/-- What is read from arguments is the point that they name. -/
theorem Point.parse_eq_ok_iff {args : Bytes} {p : Point} :
    Point.parse args = .ok p ↔ Names args p := by
  constructor
  · intro h
    obtain ⟨kind, address, size, hnames⟩ := exists_namesFields h
    rw [parse_of_namesFields hnames] at h
    unfold pointOf at h
    split at h
    · cases h
      exact .breakpoint hnames (by decide)
    · cases h
      exact .breakpoint hnames (by decide)
    · obtain ⟨hrange, rfl⟩ := watchpointAt_eq_ok_iff.mp h
      exact .watchpoint hnames hrange.1 hrange.2
    · obtain ⟨hrange, rfl⟩ := watchpointAt_eq_ok_iff.mp h
      exact .watchpoint hnames hrange.1 hrange.2
    · obtain ⟨hrange, rfl⟩ := watchpointAt_eq_ok_iff.mp h
      exact .watchpoint hnames hrange.1 hrange.2
    · cases h
  · intro h
    cases h with
    | @breakpoint kind address size hnames hkind =>
      rw [parse_of_namesFields hnames]
      obtain rfl | rfl : kind = 0 ∨ kind = 1 := by omega
      · rfl
      · rfl
    | @watchpoint kind address size hnames hstart hlimit =>
      rw [parse_of_namesFields hnames]
      cases kind with
      | write => exact watchpointAt_eq_ok_iff.mpr ⟨⟨hstart, hlimit⟩, rfl⟩
      | read => exact watchpointAt_eq_ok_iff.mpr ⟨⟨hstart, hlimit⟩, rfl⟩
      | access => exact watchpointAt_eq_ok_iff.mpr ⟨⟨hstart, hlimit⟩, rfl⟩

theorem Names.unique {args : Bytes} {p q : Point} (hp : Names args p) (hq : Names args q) : p = q := by
  rw [← Point.parse_eq_ok_iff] at hp hq
  exact Except.ok.inj (hp.symm.trans hq)

/-! ## The set that requests describe -/

/-- A request to insert a point or to remove one. -/
structure PointRequest where
  inserts : Bool
  args : Bytes
  deriving DecidableEq, Repr

def PointRequest.packet (r : PointRequest) : Bytes := Gdb.packet (if r.inserts then 'Z' else 'z') r.args

/-- The points in force after requests. -/
def inForce (requests : List PointRequest) : Set Point :=
  requests.foldl
    (fun points r =>
      if r.inserts then points ∪ {p | Names r.args p} else points \ {p | Names r.args p}) ∅

/-- A point is in force since a request: it was not before, and is at all times after. -/
structure Since (requests : List PointRequest) (p : Point) (i : Nat) : Prop where
  lt_length : i < requests.length
  before : p ∉ inForce (requests.take i)
  after : ∀ j, i < j → p ∈ inForce (requests.take j)

/-- Of two points in force, one came earlier than the other. -/
def Precedes (requests : List PointRequest) (p q : Point) : Prop :=
  ∃ i j, i < j ∧ Since requests p i ∧ Since requests q j

section

variable {requests : List PointRequest} {r : PointRequest} {p q : Point}

theorem mem_inForce_concat :
    p ∈ inForce (requests ++ [r]) ↔
      if r.inserts then p ∈ inForce requests ∨ Names r.args p
      else p ∈ inForce requests ∧ ¬ Names r.args p := by
  unfold inForce
  rw [List.foldl_append, List.foldl_cons, List.foldl_nil]
  split
  · exact Iff.rfl
  · exact Iff.rfl

theorem mem_inForce_concat_of_not (h : ¬ Names r.args p) :
    p ∈ inForce (requests ++ [r]) ↔ p ∈ inForce requests := by
  rw [mem_inForce_concat]
  split
  · exact or_iff_left h
  · exact and_iff_left h

theorem Since.concat {i : Nat} (h : Since requests p i) (hp : p ∈ inForce (requests ++ [r])) :
    Since (requests ++ [r]) p i where
  lt_length := by
    have hlt := h.lt_length
    rw [List.length_append]
    omega
  before := by
    rw [List.take_append_of_le_length (Nat.le_of_lt h.lt_length)]
    exact h.before
  after j hj := by
    by_cases hlast : j ≤ requests.length
    · rw [List.take_append_of_le_length hlast]
      exact h.after j hj
    · rw [List.take_of_length_le (by rw [List.length_append, List.length_singleton]; omega)]
      exact hp

theorem since_concat_self (hbefore : p ∉ inForce requests) (hp : p ∈ inForce (requests ++ [r])) :
    Since (requests ++ [r]) p requests.length where
  lt_length := by simp
  before := by rwa [List.take_left]
  after j hj := by
    rwa [List.take_of_length_le (by rw [List.length_append, List.length_singleton]; omega)]

/-- Every point in force is so since some request. -/
theorem exists_since (h : p ∈ inForce requests) : ∃ i, Since requests p i := by
  induction requests using List.reverseRecOn with
  | nil => exact absurd h (Set.notMem_empty p)
  | append_singleton requests r ih =>
    by_cases hbefore : p ∈ inForce requests
    · obtain ⟨i, hi⟩ := ih hbefore
      exact ⟨i, hi.concat h⟩
    · exact ⟨requests.length, since_concat_self hbefore h⟩

theorem Precedes.concat (h : Precedes requests p q) (hp : p ∈ inForce (requests ++ [r]))
    (hq : q ∈ inForce (requests ++ [r])) : Precedes (requests ++ [r]) p q := by
  obtain ⟨i, j, hij, hi, hj⟩ := h
  exact ⟨i, j, hij, hi.concat hp, hj.concat hq⟩

theorem precedes_concat_self (hbefore : p ∈ inForce requests) (hp : p ∈ inForce (requests ++ [r]))
    (hnew : q ∉ inForce requests) (hq : q ∈ inForce (requests ++ [r])) :
    Precedes (requests ++ [r]) p q := by
  obtain ⟨i, hi⟩ := exists_since hbefore
  exact ⟨i, requests.length, hi.lt_length, hi.concat hp, since_concat_self hnew hq⟩

end

/-! ## Lists of points -/

/-- A list is the part of the points in force that have one form, in the order in which they came into
force. -/
structure Lists {α : Type} (requests : List PointRequest) (point : α → Point) (xs : List α) :
    Prop where
  nodup : xs.Nodup
  mem : ∀ x, x ∈ xs ↔ point x ∈ inForce requests
  ordered : xs.Pairwise fun x y => Precedes requests (point x) (point y)

namespace Lists

variable {α : Type} {requests : List PointRequest} {r : PointRequest} {point : α → Point}
  {xs : List α}

theorem nil (point : α → Point) : Lists [] point [] where
  nodup := List.nodup_nil
  mem x := by simp [inForce]
  ordered := List.Pairwise.nil

/-- Points that stay in force stay in order. -/
theorem ordered_of_sublist (h : Lists requests point xs) {ys : List α} (hsub : ys.Sublist xs)
    (hys : ∀ y ∈ ys, point y ∈ inForce (requests ++ [r])) :
    ys.Pairwise fun x y => Precedes (requests ++ [r]) (point x) (point y) := by
  apply (h.ordered.sublist hsub).imp_of_mem
  intro x y hx hy hprecedes
  exact hprecedes.concat (hys x hx) (hys y hy)

theorem keep (h : Lists requests point xs)
    (hsame : ∀ x, point x ∈ inForce (requests ++ [r]) ↔ point x ∈ inForce requests) :
    Lists (requests ++ [r]) point xs where
  nodup := h.nodup
  mem x := (h.mem x).trans (hsame x).symm
  ordered := h.ordered_of_sublist (List.Sublist.refl xs)
    fun x hx => (hsame x).mpr ((h.mem x).mp hx)

variable [DecidableEq α]

theorem insert (h : Lists requests point xs) (hinj : Function.Injective point) {x : α}
    (hr : r.inserts = true) (hx : Names r.args (point x)) :
    Lists (requests ++ [r]) point (insertLast xs x) := by
  have hmem (y : α) : point y ∈ inForce (requests ++ [r]) ↔ point y ∈ inForce requests ∨ y = x := by
    have hy : Names r.args (point y) ↔ y = x :=
      ⟨fun hy => hinj (hy.unique hx), fun hy => hy ▸ hx⟩
    rw [mem_inForce_concat, if_pos hr, hy]
  unfold insertLast
  split
  · -- The point stays where it is: it is in force since an earlier request.
    rename_i hold
    have hold : x ∈ xs := by simpa using hold
    apply h.keep
    intro y
    rw [hmem, or_iff_left_iff_imp]
    rintro rfl
    exact (h.mem y).mp hold
  · rename_i hnew
    have hnew : x ∉ xs := by simpa using hnew
    refine ⟨?_, ?_, ?_⟩
    · rw [List.nodup_append]
      refine ⟨h.nodup, List.nodup_singleton x, ?_⟩
      rintro y hy _ hx rfl
      exact hnew (List.mem_singleton.mp hx ▸ hy)
    · intro y
      rw [List.mem_append, List.mem_singleton, h.mem, hmem]
    · rw [List.pairwise_append]
      refine ⟨h.ordered_of_sublist (List.Sublist.refl xs) ?_, List.pairwise_singleton _ x, ?_⟩
      · intro y hy
        exact (hmem y).mpr (.inl ((h.mem y).mp hy))
      · rintro y hy _ hx
        obtain rfl := List.mem_singleton.mp hx
        have hbefore := (h.mem y).mp hy
        exact precedes_concat_self hbefore ((hmem y).mpr (.inl hbefore))
          (fun hforce => hnew ((h.mem _).mpr hforce)) ((hmem _).mpr (.inr rfl))

theorem erase (h : Lists requests point xs) (hinj : Function.Injective point) {x : α}
    (hr : r.inserts = false) (hx : Names r.args (point x)) :
    Lists (requests ++ [r]) point (xs.erase x) := by
  have hmem (y : α) : y ∈ xs.erase x ↔ point y ∈ inForce (requests ++ [r]) := by
    have hy : Names r.args (point y) ↔ y = x :=
      ⟨fun hy => hinj (hy.unique hx), fun hy => hy ▸ hx⟩
    -- A single removal is complete because there are no duplicates.
    rw [h.nodup.mem_erase_iff, mem_inForce_concat, if_neg (by simp [hr]), hy, h.mem, and_comm]
  exact ⟨h.nodup.erase x, hmem, h.ordered_of_sublist List.erase_sublist fun y hy => (hmem y).mp hy⟩

end Lists

/-! ## The points of a server -/

/-- The points are the set that requests describe, its two parts each in order. -/
structure Points.Keep (points : Points) (requests : List PointRequest) : Prop where
  breakpoints : Lists requests Point.breakpoint points.breakpoints
  watchpoints : Lists requests Point.watchpoint points.watchpoints

namespace Points.Keep

variable {points : Points} {requests : List PointRequest} {r : PointRequest} {p : Point}

theorem empty : Keep {} [] := ⟨.nil _, .nil _⟩

theorem concat_of_not (h : Keep points requests) (hr : ∀ p, ¬ Names r.args p) :
    Keep points (requests ++ [r]) where
  breakpoints := h.breakpoints.keep fun _ => mem_inForce_concat_of_not (hr _)
  watchpoints := h.watchpoints.keep fun _ => mem_inForce_concat_of_not (hr _)

theorem breakpoints_of_watchpoint (h : Keep points requests) {w : Watchpoint}
    (hw : Names r.args (.watchpoint w)) :
    Lists (requests ++ [r]) Point.breakpoint points.breakpoints := by
  apply h.breakpoints.keep
  intro a
  exact mem_inForce_concat_of_not fun ha => nomatch hw.unique ha

theorem watchpoints_of_breakpoint (h : Keep points requests) {a : UInt32}
    (ha : Names r.args (.breakpoint a)) :
    Lists (requests ++ [r]) Point.watchpoint points.watchpoints := by
  apply h.watchpoints.keep
  intro w
  exact mem_inForce_concat_of_not fun hw => nomatch ha.unique hw

theorem insert (h : Keep points requests) (hr : r.inserts = true) (hp : Names r.args p) :
    Keep (points.insert p) (requests ++ [r]) := by
  cases p with
  | breakpoint a =>
    exact ⟨h.breakpoints.insert (fun _ _ => Point.breakpoint.inj) hr hp,
      h.watchpoints_of_breakpoint hp⟩
  | watchpoint w =>
    exact ⟨h.breakpoints_of_watchpoint hp,
      h.watchpoints.insert (fun _ _ => Point.watchpoint.inj) hr hp⟩

theorem erase (h : Keep points requests) (hr : r.inserts = false) (hp : Names r.args p) :
    Keep (points.erase p) (requests ++ [r]) := by
  cases p with
  | breakpoint a =>
    exact ⟨h.breakpoints.erase (fun _ _ => Point.breakpoint.inj) hr hp,
      h.watchpoints_of_breakpoint hp⟩
  | watchpoint w =>
    exact ⟨h.breakpoints_of_watchpoint hp,
      h.watchpoints.erase (fun _ _ => Point.watchpoint.inj) hr hp⟩

end Points.Keep

namespace Server

variable (s : Server) (m : Machine) (requests : List PointRequest) (r : PointRequest)

/-- A request is read as such, and changes the points if it names one. -/
theorem handle_request :
    s.handle m r.packet =
      s.changePoint (noted m r.packet) r.packet (Point.parse r.args)
        (if r.inserts then Points.insert else Points.erase) := by
  unfold PointRequest.packet
  cases r.inserts with
  | false => exact handle_packet s m (by decide) r.args
  | true => exact handle_packet s m (by decide) r.args

theorem handle_request_of_names {p : Point} (h : Names r.args p) :
    s.handle m r.packet =
      ⟨{ s with points := (if r.inserts then Points.insert else Points.erase) s.points p },
        noted m r.packet, some .ok⟩ := by
  rw [handle_request, Point.parse_eq_ok_iff.mpr h]
  rfl

theorem handle_request_of_not (h : ∀ p, ¬ Names r.args p) :
    (s.handle m r.packet).reply = some .unsupported ∧ (s.handle m r.packet).Inert s m := by
  cases hparse : Point.parse r.args with
  | ok p => exact absurd (Point.parse_eq_ok_iff.mp hparse) (h p)
  | error e =>
    rw [handle_request, hparse]
    exact ⟨rfl, rfl, rfl⟩

/-- The last answer to requests, one after the other, if no point was in force before. -/
def answerAll : Answer :=
  requests.foldl (fun a r => a.server.handle a.machine r.packet) ⟨{ s with points := {} }, m, none⟩

theorem answerAll_concat :
    s.answerAll m (requests ++ [r]) =
      (s.answerAll m requests).server.handle (s.answerAll m requests).machine r.packet := by
  unfold answerAll
  rw [List.foldl_append]
  rfl

/-- By induction on the last request, which inserts, removes or names no point. -/
theorem keep_answerAll : (s.answerAll m requests).server.points.Keep requests := by
  induction requests using List.reverseRecOn with
  | nil => exact .empty
  | append_singleton requests r ih =>
    rw [answerAll_concat]
    by_cases hnames : ∃ p, Names r.args p
    · obtain ⟨p, hp⟩ := hnames
      rw [handle_request_of_names _ _ _ hp]
      cases hr : r.inserts with
      | false => exact ih.erase hr hp
      | true => exact ih.insert hr hp
    · have hnot := not_exists.mp hnames
      rw [(handle_request_of_not _ _ _ hnot).2.server]
      exact ih.concat_of_not hnot

/-- **Points are ordered sets.** After any requests, from a server without points, the break- and the
watchpoints are without duplicates those that the requests have inserted and not removed again, in the
order in which they came into force. A request is accepted if it names a point, and is rejected without
effect if it names none. -/
theorem points_ordered_set :
    ((s.answerAll m requests).server.points.breakpoints.Nodup ∧
      (s.answerAll m requests).server.points.watchpoints.Nodup) ∧
    ({a | a ∈ (s.answerAll m requests).server.points.breakpoints} =
        {a | .breakpoint a ∈ inForce requests} ∧
      {w | w ∈ (s.answerAll m requests).server.points.watchpoints} =
        {w | .watchpoint w ∈ inForce requests}) ∧
    ((s.answerAll m requests).server.points.breakpoints.Pairwise
        (fun a b => Precedes requests (.breakpoint a) (.breakpoint b)) ∧
      (s.answerAll m requests).server.points.watchpoints.Pairwise
        (fun v w => Precedes requests (.watchpoint v) (.watchpoint w))) ∧
    ((∃ p, Names r.args p) → (s.answerAll m (requests ++ [r])).reply = some .ok) ∧
    ((∀ p, ¬ Names r.args p) →
      (s.answerAll m (requests ++ [r])).reply = some .unsupported ∧
        (s.answerAll m (requests ++ [r])).server = (s.answerAll m requests).server) := by
  obtain ⟨hbreak, hwatch⟩ := keep_answerAll s m requests
  refine ⟨⟨hbreak.nodup, hwatch.nodup⟩, ⟨Set.ext hbreak.mem, Set.ext hwatch.mem⟩,
    ⟨hbreak.ordered, hwatch.ordered⟩, ?_, ?_⟩
  · rintro ⟨p, hp⟩
    rw [answerAll_concat, handle_request_of_names _ _ _ hp]
  · intro hnot
    rw [answerAll_concat]
    obtain ⟨hreply, hinert⟩ := handle_request_of_not (s.answerAll m requests).server
      (s.answerAll m requests).machine r hnot
    exact ⟨hreply, hinert.server⟩

end Server

end Gdb

end AvrSim
