import AvrSim.Proofs.Wiring.Build
import Mathlib.Data.Set.Card
import Mathlib.Logic.Relation

/-!
# Wiring without cycles

A wiring is built by calls on any number of pools, in any order and with any lines. However it was
built, a connection joins two lines of one pool, and no line leads back to itself. The two facts need
each other: the search that refuses a cycle is bounded by the number of lines, and it is the absence of
cycles that makes this bound good enough.

* `Wiring.Sound`: connections stay within a pool and form no cycle.
* `Wiring.reaches_iff`: in a sound wiring the search finds exactly what connections lead to.
* `Wiring.sound_after`, `Wiring.sound_built`: one call keeps a wiring sound, so every wiring that is
  built is sound.
-/

namespace AvrSim.Wiring

open Relation

variable {ω : Type} {w w' : Wiring ω} {pool line sink source target : Nat}

/-- A raise of `line` is passed on to `sink`. -/
def Leads (w : Wiring ω) (line sink : Nat) : Prop := sink ∈ w.sinks line

/-- Connections join lines of the same pool and form no cycle. -/
structure Sound (w : Wiring ω) : Prop where
  samePool : ∀ line sink, w.Leads line sink → ∃ pool, w.owns pool line ∧ w.owns pool sink
  acyclic : ∀ line, ¬ TransGen w.Leads line line

theorem lt_size_of_owns (h : w.owns pool line) : line < w.lines.size := by
  unfold owns at h
  split at h
  · rename_i hl
    exact (Array.getElem?_eq_some_iff.mp hl).1
  · cases h

/-! ## How far a line leads -/

/-- The lines that a raise of `line` can get to. -/
def downstream (w : Wiring ω) (line : Nat) : Set Nat := {target | TransGen w.Leads line target}

/-- The number of lines that a raise of `line` can get to. It bounds the length of every path from
there. -/
noncomputable def span (w : Wiring ω) (line : Nat) : Nat := (w.downstream line).ncard

theorem Sound.downstream_subset (h : w.Sound) (line : Nat) :
    w.downstream line ⊆ Finset.range w.lines.size := by
  intro target htarget
  obtain ⟨last, -, hlast⟩ := TransGen.tail'_iff.mp htarget
  obtain ⟨pool, -, howns⟩ := h.samePool last target hlast
  simpa using lt_size_of_owns howns

theorem Sound.finite_downstream (h : w.Sound) (line : Nat) : (w.downstream line).Finite :=
  (Finset.finite_toSet _).subset (h.downstream_subset line)

theorem Sound.span_le (h : w.Sound) (line : Nat) : w.span line ≤ w.lines.size := by
  have hcard := Set.ncard_le_ncard (h.downstream_subset line) (Finset.finite_toSet _)
  rwa [Set.ncard_coe_finset, Finset.card_range] at hcard

/-- A sink leads to fewer lines: to none that its source does not lead to, and not to itself. -/
theorem Sound.span_lt (h : w.Sound) (hleads : w.Leads line sink) : w.span sink < w.span line := by
  apply Set.ncard_lt_ncard _ (h.finite_downstream line)
  refine (Set.ssubset_iff_of_subset ?_).mpr ⟨sink, TransGen.single hleads, h.acyclic sink⟩
  intro target htarget
  exact TransGen.head hleads htarget

/-! ## The search -/

theorem reachesWithin_succ (depth : Nat) :
    w.reachesWithin (depth + 1) line target =
      (line == target || (w.sinks line).any fun sink => w.reachesWithin depth sink target) := rfl

theorem reach_of_reachesWithin {depth : Nat} (h : w.reachesWithin depth line target) :
    ReflTransGen w.Leads line target := by
  induction depth generalizing line with
  | zero =>
    obtain rfl : line = target := by simpa [reachesWithin] using h
    exact .refl
  | succ depth ih =>
    simp only [reachesWithin_succ, Bool.or_eq_true, beq_iff_eq, List.any_eq_true] at h
    rcases h with rfl | ⟨sink, hleads, hsink⟩
    · exact .refl
    · exact .head hleads (ih hsink)

/-- A search that may go as deep as the span of its line misses nothing. -/
theorem Sound.reachesWithin_of_reach (h : w.Sound) {depth : Nat} (hdepth : w.span line ≤ depth)
    (hreach : ReflTransGen w.Leads line target) : w.reachesWithin depth line target := by
  induction depth generalizing line with
  | zero =>
    rcases hreach.cases_head with rfl | ⟨sink, hleads, -⟩
    · simp [reachesWithin]
    · have hlt := h.span_lt hleads
      omega
  | succ depth ih =>
    simp only [reachesWithin_succ, Bool.or_eq_true, beq_iff_eq, List.any_eq_true]
    rcases hreach.cases_head with rfl | ⟨sink, hleads, hsink⟩
    · exact .inl rfl
    · have hlt := h.span_lt hleads
      exact .inr ⟨sink, hleads, ih (by omega) hsink⟩

theorem reaches_iff (h : w.Sound) : w.reaches line target ↔ ReflTransGen w.Leads line target :=
  ⟨reach_of_reachesWithin, h.reachesWithin_of_reach (h.span_le line)⟩

/-! ## One connection more -/

theorem of_check_eq_ok {lines : List Nat} (h : w.check pool lines = .ok ()) :
    w.isFrozen pool = false ∧ ∀ line ∈ lines, w.owns pool line := by
  unfold check at h
  split at h
  · cases h
  · rename_i hfrozen
    split at h
    · cases h
    · rename_i hnone
      refine ⟨by simpa using hfrozen, ?_⟩
      intro line hline
      simpa using List.find?_eq_none.mp hnone line hline

theorem check_of_owned {lines : List Nat} (hfrozen : w.isFrozen pool = false)
    (howns : ∀ line ∈ lines, w.owns pool line) : w.check pool lines = .ok () := by
  have hnone : lines.find? (!w.owns pool ·) = none := by
    rw [List.find?_eq_none]
    intro line hline
    simp [howns line hline]
  simp [check, hfrozen, hnone]

theorem connect_of_owned (hfrozen : w.isFrozen pool = false) (hsource : w.owns pool source)
    (hsink : w.owns pool sink) :
    w.connect pool source sink =
      if source == sink || w.reaches sink source then
        .error (.cycle (w.label source) (w.label sink))
      else
        .ok { w with
          lines := w.lines.modify source fun l => { l with sinks := l.sinks ++ [sink] } } := by
  have hcheck : w.check pool [source, sink] = .ok () := by
    apply check_of_owned hfrozen
    simp [hsource, hsink]
  unfold connect
  rw [hcheck]
  rfl

/-- A connection is made only between lines of the pool, and not if it would close a cycle. -/
theorem admitted_of_connect (h : w.connect pool source sink = .ok w') :
    w.owns pool source ∧ w.owns pool sink ∧ w.reaches sink source = false := by
  obtain ⟨_, hcheck, -⟩ := exists_of_bind_eq_ok h
  obtain ⟨hfrozen, howns⟩ := of_check_eq_ok hcheck
  have hsource := howns source (by simp)
  have hsink := howns sink (by simp)
  rw [connect_of_owned hfrozen hsource hsink] at h
  split at h
  · cases h
  · rename_i hadmitted
    simp only [Bool.or_eq_true, not_or, Bool.not_eq_true] at hadmitted
    exact ⟨hsource, hsink, hadmitted.2⟩

/-- A path over one connection more goes over the old ones, or over them up to the new one and from
there on. -/
theorem transGen_of_added {R R' : Nat → Nat → Prop}
    (hadded : ∀ a b, R' a b → R a b ∨ a = source ∧ b = sink) {a b : Nat} (h : TransGen R' a b) :
    TransGen R a b ∨ ReflTransGen R a source ∧ ReflTransGen R sink b := by
  induction h with
  | single hedge =>
    rcases hadded _ _ hedge with hold | ⟨rfl, rfl⟩
    · exact .inl (.single hold)
    · exact .inr ⟨.refl, .refl⟩
  | tail _ hedge ih =>
    rcases hadded _ _ hedge with hold | ⟨rfl, rfl⟩
    · rcases ih with hpath | ⟨hbefore, hbehind⟩
      · exact .inl (hpath.tail hold)
      · exact .inr ⟨hbefore, hbehind.tail hold⟩
    · rcases ih with hpath | ⟨hbefore, -⟩
      · exact .inr ⟨hpath.to_reflTransGen, .refl⟩
      · exact .inr ⟨hbefore, .refl⟩

/-! ## Calls -/

/-- The calls that build a wiring. -/
inductive Call (ω : Type)
  | alloc (pool : Nat) (base : Int64) (count : Nat) (names : List String)
  | subscribe (pool line : Nat) (observer : ω)
  | connect (pool source sink : Nat)
  | freeze (pool : Nat)

/-- What a call gives. -/
def perform (w : Wiring ω) : Call ω → Except WiringError (Wiring ω)
  | .alloc pool base count names => .ok (w.alloc pool base count names)
  | .subscribe pool line observer => w.subscribe pool line observer
  | .connect pool source sink => w.connect pool source sink
  | .freeze pool => .ok (w.freeze pool)

/-- The wiring after a call, refused or not. -/
def after (w : Wiring ω) (call : Call ω) : Wiring ω :=
  match w.perform call with
  | .ok w' => w'
  | .error _ => w

/-- What can be built from nothing. -/
def built (calls : List (Call ω)) : Wiring ω := calls.foldl after {}

/-- Lines that lead where they led, and belong to the pools they belonged to. -/
theorem Sound.of_same (h : w.Sound) (hsinks : ∀ line, w'.sinks line = w.sinks line)
    (howns : ∀ pool line, w.owns pool line → w'.owns pool line) : w'.Sound := by
  have hleads : w'.Leads = w.Leads := by
    funext line sink
    simp [Leads, hsinks]
  refine ⟨?_, ?_⟩
  · intro line sink hsink
    rw [hleads] at hsink
    obtain ⟨pool, hline, hsink⟩ := h.samePool line sink hsink
    exact ⟨pool, howns pool line hline, howns pool sink hsink⟩
  · rw [hleads]
    exact h.acyclic

theorem sinks_alloc (base : Int64) (count : Nat) (names : List String) (line : Nat) :
    (w.alloc pool base count names).sinks line = w.sinks line := by
  unfold sinks alloc
  dsimp only
  rcases Nat.lt_or_ge line w.lines.size with hold | hnew
  · rw [Array.getElem?_append_left hold]
  · rw [Array.getElem?_append_right hnew, Array.getElem?_eq_none hnew]
    generalize line - w.lines.size = i
    by_cases hi : i < count
    · simp [hi]
    · simp [hi]

theorem owns_alloc (other : Nat) (base : Int64) (count : Nat) (names : List String)
    (h : w.owns pool line) : (w.alloc other base count names).owns pool line := by
  have hold := lt_size_of_owns h
  unfold owns alloc at *
  rwa [Array.getElem?_append_left hold]

theorem getElem?_modify (other line : Nat) (f : Line ω → Line ω) :
    (w.lines.modify other f)[line]? = w.lines[line]?.map fun l => if other = line then f l else l := by
  rw [Array.getElem?_modify]
  by_cases hother : other = line
  · simp [hother]
  · simp [hother]

theorem owns_modify {f : Line ω → Line ω} (hf : ∀ l, (f l).pool = l.pool) (other : Nat) :
    ({ w with lines := w.lines.modify other f } : Wiring ω).owns pool line = w.owns pool line := by
  unfold owns
  rw [getElem?_modify]
  cases w.lines[line]? with
  | none => rfl
  | some l =>
    dsimp only [Option.map]
    split
    · rw [hf]
    · rfl

theorem sinks_subscribe {observer : ω} (h : w.subscribe pool source observer = .ok w') (line : Nat) :
    w'.sinks line = w.sinks line := by
  rw [of_subscribe_eq_ok h]
  unfold sinks
  rw [getElem?_modify]
  cases w.lines[line]? with
  | none => rfl
  | some l =>
    dsimp only [Option.map]
    split
    · rfl
    · rfl

theorem leads_connect (h : w.connect pool source sink = .ok w') {a b : Nat} (hleads : w'.Leads a b) :
    w.Leads a b ∨ a = source ∧ b = sink := by
  rw [of_connect_eq_ok h] at hleads
  unfold Leads sinks at *
  rw [getElem?_modify] at hleads
  cases hline : w.lines[a]? with
  | none => simp [hline] at hleads
  | some l =>
    simp only [hline, Option.map_some] at hleads
    split at hleads
    · rename_i hsource
      rcases List.mem_append.mp hleads with hold | hnew
      · exact .inl hold
      · exact .inr ⟨hsource.symm, List.mem_singleton.mp hnew⟩
    · exact .inl hleads

theorem Sound.connect (h : w.Sound) (hconnect : w.connect pool source sink = .ok w') : w'.Sound := by
  obtain ⟨hsource, hsink, hreaches⟩ := admitted_of_connect hconnect
  have howns (pool line : Nat) : w'.owns pool line = w.owns pool line := by
    rw [of_connect_eq_ok hconnect]
    apply owns_modify
    intro l
    rfl
  refine ⟨?_, ?_⟩
  · intro line other hleads
    simp only [howns]
    rcases leads_connect hconnect hleads with hold | ⟨rfl, rfl⟩
    · exact h.samePool line other hold
    · exact ⟨pool, hsource, hsink⟩
  · intro line hcycle
    rcases transGen_of_added (fun _ _ => leads_connect hconnect) hcycle with hold | ⟨hto, hfrom⟩
    · exact h.acyclic line hold
    · -- the cycle goes over the new connection, so its sink led to its source before
      have hback : w.reaches sink source := (reaches_iff h).mpr (hfrom.trans hto)
      rw [hreaches] at hback
      cases hback

/-- **One call** keeps a wiring sound, whatever pool and lines it names. -/
theorem sound_after (h : w.Sound) (call : Call ω) : (w.after call).Sound := by
  unfold after
  split
  · rename_i w' hperform
    cases call with
    | alloc pool base count names =>
      cases hperform
      exact h.of_same (sinks_alloc base count names)
        fun _ _ howns => owns_alloc pool base count names howns
    | subscribe pool line observer =>
      have hsubscribe : w.subscribe pool line observer = .ok w' := hperform
      refine h.of_same (sinks_subscribe hsubscribe) ?_
      intro other line' howns
      rw [of_subscribe_eq_ok hsubscribe, owns_modify]
      · exact howns
      · intro l
        rfl
    | connect pool source sink => exact h.connect hperform
    | freeze pool =>
      cases hperform
      unfold freeze
      split
      · exact h
      · exact h.of_same (fun _ => rfl) fun _ _ howns => howns
  · exact h

theorem sound_empty : ({} : Wiring ω).Sound := by
  have hnone (line sink : Nat) : ¬ ({} : Wiring ω).Leads line sink := by
    simp [Leads, sinks]
  refine ⟨fun line sink hleads => absurd hleads (hnone line sink), ?_⟩
  intro line hcycle
  obtain ⟨next, hleads, -⟩ := TransGen.head'_iff.mp hcycle
  exact hnone line next hleads

theorem sound_built (calls : List (Call ω)) : (built calls).Sound := by
  refine List.foldlRecOn (motive := Sound) calls after sound_empty ?_
  intro w hw call _
  exact sound_after hw call

end AvrSim.Wiring
