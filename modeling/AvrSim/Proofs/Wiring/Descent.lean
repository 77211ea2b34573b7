import AvrSim.Proofs.Wiring.Acyclic
import Mathlib.Tactic.Ring

/-!
# Searches and raises come to an end

A search and a raise follow connections, and each call goes on from a line to its sinks. In a sound
wiring a sink leads to fewer lines than its source, so there is a last line on every way. The bounds
that searches and raises carry are therefore never reached: each of them obeys the recursion without
a bound.

* `Wiring.Sound.raiseWithin_eq`: a raise with room for the span of its line does not depend on its
  bound.
* `Wiring.Terminates`: connections lead nowhere for ever, and the recursions have their values.
* `Wiring.built_acyclic`: all this of every wiring that can be built, and which connections are refused.
-/

namespace AvrSim.Wiring

open Relation

variable {ω σ : Type} {w w' : Wiring ω} {pool line sink source target : Nat}

/-! ## Raises -/

/-- An observer that raises no line. -/
def Idle (react : Reaction ω σ) (observer : ω) : Prop :=
  ∀ position l value s, (react observer position l value s).2 = none

/-- A wiring all of whose observers raise no line. -/
def IdleAll (w : Wiring ω) (react : Reaction ω σ) : Prop :=
  ∀ (line : Nat) (l : Line ω), w.lines[line]? = some l → ∀ observer ∈ l.observers, Idle react observer

theorem notify_of_idle {react : Reaction ω σ} {observer : ω} (h : Idle react observer)
    (depth line : Nat) (l : Line ω) (value : UInt32) (state : Wiring ω × σ) :
    notify react depth line l value state observer =
      (state.1, (react observer line l value state.2).1) := by
  have hnone := h line l value state.2
  unfold notify
  generalize react observer line l value state.2 = result at hnone
  obtain ⟨s, raised⟩ := result
  cases hnone
  rfl

theorem foldl_notify_of_idle {react : Reaction ω σ} {observers : List ω}
    (h : ∀ observer ∈ observers, Idle react observer) (depth line : Nat) (l : Line ω)
    (value : UInt32) (state : Wiring ω × σ) :
    observers.foldl (notify react depth line l value) state =
      observers.foldl (fun state observer => (state.1, (react observer line l value state.2).1))
        state := by
  apply List.foldl_ext
  intro state observer hobserver
  exact notify_of_idle (h observer hobserver) depth line l value state

theorem fst_foldl_idle (react : Reaction ω σ) (observers : List ω) (line : Nat) (l : Line ω)
    (value : UInt32) (state : Wiring ω × σ) :
    (observers.foldl (fun state observer => (state.1, (react observer line l value state.2).1))
      state).1 = state.1 := by
  induction observers generalizing state with
  | nil => rfl
  | cons observer observers ih => exact ih _

/-- Raising the sinks of a line one after the other, in two ways that agree on each of them. -/
theorem foldl_sinks_congr {f g : Wiring ω × σ → Nat → Wiring ω × σ} {sinks : List Nat}
    (hfg : ∀ sink ∈ sinks, ∀ state, state.1.shape = w.shape → f state sink = g state sink)
    (hshape : ∀ state sink, (f state sink).1.shape = state.1.shape) (state : Wiring ω × σ)
    (hstate : state.1.shape = w.shape) : sinks.foldl f state = sinks.foldl g state := by
  induction sinks generalizing state with
  | nil => rfl
  | cons sink sinks ih =>
    have hfirst := hfg sink List.mem_cons_self state hstate
    rw [List.foldl_cons, List.foldl_cons, ← hfirst]
    apply ih
    · intro other hother
      exact hfg other (List.mem_cons_of_mem sink hother)
    · exact (hshape state sink).trans hstate

/-- With room for the span of its line a raise does not depend on its bound. -/
theorem Sound.raiseWithin_eq (h : w.Sound) {react : Reaction ω σ} (hidle : w.IdleAll react)
    {depth depth' : Nat} (value : UInt32) {state : Wiring ω × σ} (hstate : state.1.shape = w.shape)
    (hdepth : w.span line < depth) (hdepth' : w.span line < depth') :
    raiseWithin react depth line value state = raiseWithin react depth' line value state := by
  induction depth generalizing depth' line state with
  | zero => omega
  | succ depth ih =>
    obtain _ | depth' := depth'
    · omega
    rw [raiseWithin_succ, raiseWithin_succ]
    split
    · rfl
    · rename_i l hl
      obtain ⟨l', hl', -, hobservers, hsinks⟩ := exists_line_of_shape hstate hl
      have hobserversIdle : ∀ observer ∈ l.observers, Idle react observer := by
        rw [← hobservers]
        exact hidle line l' hl'
      split
      · rfl
      · rw [foldl_notify_of_idle hobserversIdle, foldl_notify_of_idle hobserversIdle]
        apply foldl_sinks_congr (w := w)
        · -- a sink has a smaller span, so both raises of it have room
          intro sink hsink state' hstate'
          have hleads : w.Leads line sink := by
            simpa [Leads, Wiring.sinks, hl', hsinks] using hsink
          have hlt := h.span_lt hleads
          exact ih hstate' (by omega) (by omega)
        · intro state' sink
          exact shape_raiseWithin react depth sink value state'
        · rw [fst_foldl_idle]
          exact (shape_setValue _ _ _).trans hstate

/-- What a raise of a line does, where `again` raises its sinks: observers are told before any sink. -/
def raisingBy (again : Wiring ω × σ → Nat → Wiring ω × σ) (react : Reaction ω σ) (w : Wiring ω)
    (line : Nat) (value : UInt32) (s : σ) : Wiring ω × σ :=
  match w.lines[line]? with
  | none => (w, s)
  | some l =>
    if l.filtered && l.value == value then (w, s)
    else
      l.sinks.foldl again
        (l.observers.foldl (fun state observer => (state.1, (react observer line l value state.2).1))
          (w.setValue line value, s))

/-- A raise is its own recursion, without a bound. -/
theorem Sound.raise_eq (h : w.Sound) {react : Reaction ω σ} (hidle : w.IdleAll react) (line : Nat)
    (value : UInt32) (s : σ) :
    w.raise react line value s =
      w.raisingBy (fun state sink => state.1.raise react sink value state.2) react line value s := by
  have hdepth : w.raiseDepth = w.lines.size * w.lines.size + 2 * w.lines.size + 1 := by
    simp only [raiseDepth]
    ring
  have hraise (state : Wiring ω × σ) (hstate : state.1.shape = w.shape) (sink : Nat) :
      state.1.raise react sink value state.2 = raiseWithin react w.raiseDepth sink value state := by
    rw [raise, raiseDepth_of_shape hstate]
  rw [raise, hdepth, raiseWithin_succ, raisingBy]
  cases hl : w.lines[line]? with
  | none => rfl
  | some l =>
    dsimp only
    split
    · rfl
    · rw [foldl_notify_of_idle (hidle line l hl)]
      apply foldl_sinks_congr (w := w)
      · intro sink hsink state hstate
        have hleads : w.Leads line sink := by
          simpa [Leads, Wiring.sinks, hl] using hsink
        have hlt := h.span_lt hleads
        have hle := h.span_le line
        rw [hraise state hstate]
        apply h.raiseWithin_eq hidle value hstate
        · omega
        · omega
      · intro state sink
        exact shape_raiseWithin react _ sink value state
      · rw [fst_foldl_idle]
        exact shape_setValue _ _ _

/-! ## The end -/

/-- No way over connections goes on for ever, and the search and the raise, which go from a line to its
sinks, have the values that their recursions without a bound give them. -/
structure Terminates (w : Wiring ω) : Prop where
  descends : WellFounded fun sink line => w.Leads line sink
  search : ∀ line target, w.reaches line target =
    (line == target || (w.sinks line).any fun sink => w.reaches sink target)
  raise : ∀ {σ : Type} (react : Reaction ω σ), w.IdleAll react → ∀ line value s,
    w.raise react line value s =
      w.raisingBy (fun state sink => state.1.raise react sink value state.2) react line value s

theorem Sound.search_eq (h : w.Sound) (line target : Nat) :
    w.reaches line target =
      (line == target || (w.sinks line).any fun sink => w.reaches sink target) := by
  rw [Bool.eq_iff_iff]
  simp only [Bool.or_eq_true, beq_iff_eq, List.any_eq_true, reaches_iff h]
  exact ReflTransGen.cases_head_iff

theorem Sound.terminates (h : w.Sound) : w.Terminates where
  descends := Subrelation.wf h.span_lt (measure w.span).wf
  search := h.search_eq
  raise := fun _ hidle line value s => h.raise_eq hidle line value s

/-! ## Connections that are refused -/

/-- Between lines of a pool that is not frozen, what decides is whether the sink leads back. -/
theorem Sound.connect_iff (h : w.Sound) (hfrozen : w.isFrozen pool = false)
    (hsource : w.owns pool source) (hsink : w.owns pool sink) :
    (w.connect pool source sink = .error (.cycle (w.label source) (w.label sink)) ↔
      source = sink ∨ ReflTransGen w.Leads sink source) ∧
    ((∃ w', w.connect pool source sink = .ok w') ↔
      ¬ (source = sink ∨ ReflTransGen w.Leads sink source)) := by
  have hcycle : (source == sink || w.reaches sink source) = true ↔
      source = sink ∨ ReflTransGen w.Leads sink source := by
    simp [reaches_iff h]
  rw [connect_of_owned hfrozen hsource hsink, ← hcycle]
  split
  · rename_i hclosed
    simp [hclosed]
  · rename_i hopen
    simp [hopen]

theorem built_append (calls rest : List (Call ω)) :
    built (calls ++ rest) = rest.foldl after (built calls) := List.foldl_append

/-- **Wirings stay acyclic.** However a wiring was built, connections stay within pools and form no
cycle, so that searches and raises end; a connection between lines of a pool that is not frozen is
refused as a cycle exactly if its sink is its source or leads there; and a call that is refused changes
nothing, so that whatever is built afterwards is built as if the call had not been made. -/
theorem built_acyclic (calls : List (Call ω)) :
    let w := built calls
    w.Sound ∧ w.Terminates ∧
    (∀ pool source sink, w.isFrozen pool = false → w.owns pool source → w.owns pool sink →
      (w.connect pool source sink = .error (.cycle (w.label source) (w.label sink)) ↔
        source = sink ∨ ReflTransGen w.Leads sink source) ∧
      ((∃ w', w.connect pool source sink = .ok w') ↔
        ¬ (source = sink ∨ ReflTransGen w.Leads sink source))) ∧
    ∀ call e, w.perform call = .error e →
      ∀ rest, built (calls ++ call :: rest) = built (calls ++ rest) := by
  intro w
  have hsound : w.Sound := sound_built calls
  refine ⟨hsound, hsound.terminates, ?_, ?_⟩
  · intro pool source sink hfrozen hsource hsink
    exact hsound.connect_iff hfrozen hsource hsink
  · intro call e hrefused rest
    have hsame : w.after call = w := by simp [after, hrefused]
    rw [built_append, built_append, List.foldl_cons, hsame]

/-- Four lines of one pool, connected from the first to the last over each of the two others, a line of
another pool, and an observer at the end. -/
def diamond : List (Call Unit) :=
  [.alloc 0 0 4 [], .alloc 1 0 1 [], .connect 0 0 1, .connect 0 0 2, .connect 0 1 3, .connect 0 2 3,
    .subscribe 0 3 (), .freeze 1]

/-- The last line cannot be connected to the first one, and a raise of the first one is the raises of
the two in between. -/
theorem diamond_acyclic :
    (built diamond).isFrozen 0 = false ∧ (built diamond).owns 0 3 = true ∧
      (built diamond).owns 0 0 = true ∧
      (built diamond).connect 0 3 0 = .error (.cycle "irq#3" "irq#0") ∧
      built (diamond ++ [.connect 0 3 0]) = built diamond ∧
      ((built diamond).raise (fun _ _ _ _ count => (count + 1, none)) 0 1 0 : Wiring Unit × Nat) =
        [1, 2].foldl (fun state sink =>
            state.1.raise (fun _ _ _ _ count => (count + 1, none)) sink 1 state.2)
          ((built diamond).setValue 0 1, 0) := by
  obtain ⟨-, hterminates, hconnect, hrefused⟩ := built_acyclic diamond
  have hpath : ReflTransGen (built diamond).Leads 0 3 := by
    have hfirst : (built diamond).Leads 0 1 := by
      show 1 ∈ (built diamond).sinks 0
      decide +kernel
    have hlast : (built diamond).Leads 1 3 := by
      show 3 ∈ (built diamond).sinks 1
      decide +kernel
    exact .head hfirst (.single hlast)
  have hcycle := (hconnect 0 3 0 (by decide +kernel) (by decide +kernel)
    (by decide +kernel)).1.mpr (.inr hpath)
  have hlabels : (built diamond).label 3 = "irq#3" ∧ (built diamond).label 0 = "irq#0" := by
    decide +kernel
  rw [hlabels.1, hlabels.2] at hcycle
  have hunchanged := hrefused (.connect 0 3 0) _ hcycle []
  rw [List.append_nil] at hunchanged
  refine ⟨by decide +kernel, by decide +kernel, by decide +kernel, hcycle, hunchanged, ?_⟩
  exact hterminates.raise (fun _ _ _ _ count => (count + 1, none)) (fun _ _ _ _ _ _ _ _ _ => rfl)
    0 1 0

end AvrSim.Wiring
