import AvrSim.Proofs.Wiring.Raise

/-!
# What a raise leaves of the wiring

A raise stores values on lines. Who listens to a line and where it leads stay as they are, so what is
known of a line before a raise is known of it at every point within.

* `Wiring.shape_raise` and `Wiring.revalued_raise`: a raise changes nothing but values.
* `Wiring.raiseWithin_of_carries`: raising a line whose observers and sinks are known.
* `Wiring.raise_closed`: a property that the observers of some lines keep, and that a raise among these
  lines therefore keeps.
* `Wiring.raise_abreast`: the same raise in two wirings of one shape.
-/

namespace AvrSim.Wiring

variable {ω σ : Type}

/-- The lines without the values on them. -/
def shape (w : Wiring ω) : Array (Line ω) := w.lines.map fun l => { l with value := 0 }

theorem shape_setValue (w : Wiring ω) (line : Nat) (value : UInt32) :
    (w.setValue line value).shape = w.shape := by
  unfold shape setValue
  apply Array.ext_getElem?
  intro i
  simp only [Array.getElem?_map, Array.getElem?_modify]
  split
  · cases w.lines[i]? <;> rfl
  · rfl

theorem raiseWithin_wiring {react : Reaction ω σ} {P : Wiring ω → Prop}
    (hset : ∀ w line value, P w → P (w.setValue line value)) (depth : Nat) :
    ∀ (line : Nat) (value : UInt32) (state : Wiring ω × σ), P state.1 →
      P (raiseWithin react depth line value state).1 := by
  induction depth with
  | zero =>
    intro line value state h
    exact h
  | succ depth ih =>
    intro line value state h
    rw [raiseWithin_succ]
    split
    · exact h
    · rename_i l _
      split
      · exact h
      · refine List.foldlRecOn (motive := fun current : Wiring ω × σ => P current.1) _ _ ?_
          fun current hcurrent sink _ => ih sink value current hcurrent
        refine List.foldlRecOn (motive := fun current : Wiring ω × σ => P current.1) _ _
          (hset _ _ _ h) ?_
        intro current hcurrent observer _
        unfold notify
        split
        · exact hcurrent
        · exact ih _ _ _ hcurrent

theorem shape_raiseWithin (react : Reaction ω σ) (depth line : Nat) (value : UInt32)
    (state : Wiring ω × σ) :
    (raiseWithin react depth line value state).1.shape = state.1.shape :=
  raiseWithin_wiring (P := fun w => w.shape = state.1.shape)
    (fun w line value h => (shape_setValue w line value).trans h) depth line value state rfl

theorem shape_raise (react : Reaction ω σ) (line : Nat) (value : UInt32) (w : Wiring ω) (s : σ) :
    (w.raise react line value s).1.shape = w.shape :=
  shape_raiseWithin react _ line value (w, s)

/-- The wiring `w'` differs from `w` in the values on its lines only. -/
structure Revalued (w w' : Wiring ω) : Prop where
  shape : w'.shape = w.shape
  frozen : w'.frozen = w.frozen

theorem Revalued.refl (w : Wiring ω) : Revalued w w := ⟨rfl, rfl⟩

theorem Revalued.trans {w w' w'' : Wiring ω} (h : Revalued w w') (h' : Revalued w' w'') :
    Revalued w w'' :=
  ⟨h'.shape.trans h.shape, h'.frozen.trans h.frozen⟩

theorem revalued_raise (react : Reaction ω σ) (line : Nat) (value : UInt32) (w : Wiring ω) (s : σ) :
    Revalued w (w.raise react line value s).1 where
  shape := shape_raise react line value w s
  frozen := raiseWithin_wiring (P := fun w' => w'.frozen = w.frozen) (fun _ _ _ h => h) _ line value
    (w, s) rfl

/-! ## Lines that are known -/

/-- A line that heeds every raise, by its observers and its sinks. -/
def Carries (w : Wiring ω) (line : Nat) (observers : List ω) (sinks : List Nat) : Prop :=
  ∃ l, w.lines[line]? = some l ∧ l.filtered = false ∧ l.observers = observers ∧ l.sinks = sinks

/-- A line of one wiring is there in every wiring of the same shape. -/
theorem exists_line_of_shape {w w' : Wiring ω} (h : w'.shape = w.shape) {line : Nat} {l : Line ω}
    (hl : w'.lines[line]? = some l) :
    ∃ l', w.lines[line]? = some l' ∧ l'.filtered = l.filtered ∧ l'.observers = l.observers ∧
      l'.sinks = l.sinks := by
  have hline := congrArg (fun lines : Array (Line ω) => lines[line]?) h
  simp only [shape, Array.getElem?_map, hl, Option.map_some] at hline
  obtain ⟨l', hl', heq⟩ := Option.map_eq_some_iff.mp hline.symm
  have hfiltered := congrArg Line.filtered heq
  have hobservers := congrArg Line.observers heq
  have hsinks := congrArg Line.sinks heq
  exact ⟨l', hl', hfiltered, hobservers, hsinks⟩

theorem Carries.of_shape {w w' : Wiring ω} (h : w'.shape = w.shape) {line : Nat}
    {observers : List ω} {sinks : List Nat} (hw : w.Carries line observers sinks) :
    w'.Carries line observers sinks := by
  obtain ⟨l, hl, hfiltered, hobservers, hsinks⟩ := hw
  obtain ⟨l', hl', hfiltered', hobservers', hsinks'⟩ := exists_line_of_shape h.symm hl
  exact ⟨l', hl', hfiltered'.trans hfiltered, hobservers'.trans hobservers, hsinks'.trans hsinks⟩

theorem raiseWithin_of_carries (react : Reaction ω σ) (depth : Nat) {line : Nat} (value : UInt32)
    {state : Wiring ω × σ} {observers : List ω} {sinks : List Nat}
    (h : state.1.Carries line observers sinks) :
    ∃ l, raiseWithin react (depth + 1) line value state =
      sinks.foldl (fun state sink => raiseWithin react depth sink value state)
        (observers.foldl (notify react depth line l value)
          (state.1.setValue line value, state.2)) := by
  obtain ⟨l, hl, hfiltered, rfl, rfl⟩ := h
  refine ⟨l, ?_⟩
  rw [raiseWithin_succ, hl]
  simp [hfiltered]

/-! ## Lines among themselves -/

/-- Lines that lead only to each other and whose observers are all of one kind. -/
def Closed (w : Wiring ω) (among : Nat → Prop) (kind : ω → Prop) : Prop :=
  ∀ line l, among line → w.lines[line]? = some l →
    (∀ observer ∈ l.observers, kind observer) ∧ ∀ sink ∈ l.sinks, among sink

theorem Closed.of_shape {w w' : Wiring ω} (h : w'.shape = w.shape) {among : Nat → Prop}
    {kind : ω → Prop} (hw : w.Closed among kind) : w'.Closed among kind := by
  intro line l hamong hl
  obtain ⟨l', hl', -, hobservers, hsinks⟩ := exists_line_of_shape h hl
  rw [← hobservers, ← hsinks]
  exact hw line l' hamong hl'

theorem raiseWithin_closed {react : Reaction ω σ} {P : σ → Prop} {among : Nat → Prop}
    {kind : ω → Prop} (hreact : ∀ observer position l value s, kind observer → P s →
      P (react observer position l value s).1 ∧ (react observer position l value s).2 = none)
    (depth : Nat) :
    ∀ (line : Nat) (value : UInt32) (state : Wiring ω × σ), among line →
      state.1.Closed among kind → P state.2 → P (raiseWithin react depth line value state).2 := by
  induction depth with
  | zero =>
    intro line value state _ _ h
    exact h
  | succ depth ih =>
    intro line value state hamong hclosed h
    rw [raiseWithin_succ]
    split
    · exact h
    · rename_i l hl
      obtain ⟨hobservers, hsinks⟩ := hclosed line l hamong hl
      split
      · exact h
      · -- values may have changed on the way, so it is the shape that carries the closure along
        refine (List.foldlRecOn (motive := fun current : Wiring ω × σ =>
          current.1.shape = state.1.shape ∧ P current.2) _ _ ?_ ?_).2
        · refine List.foldlRecOn (motive := fun current : Wiring ω × σ =>
            current.1.shape = state.1.shape ∧ P current.2) _ _ ⟨shape_setValue _ _ _, h⟩ ?_
          rintro current ⟨hshape, hcurrent⟩ observer hobserver
          obtain ⟨hkept, hnone⟩ :=
            hreact observer line l value current.2 (hobservers observer hobserver) hcurrent
          unfold notify
          generalize react observer line l value current.2 = result at hkept hnone
          obtain ⟨s, raised⟩ := result
          cases hnone
          exact ⟨hshape, hkept⟩
        · rintro current ⟨hshape, hcurrent⟩ sink hsink
          exact ⟨(shape_raiseWithin react depth sink value current).trans hshape,
            ih sink value current (hsinks sink hsink) (hclosed.of_shape hshape) hcurrent⟩

theorem raise_closed {react : Reaction ω σ} {P : σ → Prop} {among : Nat → Prop} {kind : ω → Prop}
    (hreact : ∀ observer position l value s, kind observer → P s →
      P (react observer position l value s).1 ∧ (react observer position l value s).2 = none)
    {line : Nat} (value : UInt32) {w : Wiring ω} {s : σ} (hamong : among line)
    (hclosed : w.Closed among kind) (h : P s) : P (w.raise react line value s).2 :=
  raiseWithin_closed hreact _ line value (w, s) hamong hclosed h

/-! ## Wirings of one shape -/

/-- No line ignores a raise. -/
def Unfiltered (w : Wiring ω) : Prop := ∀ l ∈ w.lines, l.filtered = false

instance (w : Wiring ω) : Decidable w.Unfiltered :=
  inferInstanceAs (Decidable (∀ l ∈ w.lines, l.filtered = false))

theorem Unfiltered.of_shape {w w' : Wiring ω} (h : w'.shape = w.shape) (hw : w.Unfiltered) :
    w'.Unfiltered := by
  intro l hl
  obtain ⟨line, hline⟩ := Array.mem_iff_getElem?.mp hl
  obtain ⟨l', hl', hfiltered, -, -⟩ := exists_line_of_shape h hline
  rw [← hfiltered]
  exact hw l' (Array.mem_of_getElem? hl')

theorem size_of_shape {w w' : Wiring ω} (h : w'.shape = w.shape) : w'.lines.size = w.lines.size := by
  simpa only [shape, Array.size_map] using congrArg Array.size h

theorem raiseDepth_of_shape {w w' : Wiring ω} (h : w'.shape = w.shape) :
    w'.raiseDepth = w.raiseDepth := by
  unfold raiseDepth
  rw [size_of_shape h]

/-- The wiring as it was before the first raise. -/
def silent (w : Wiring ω) : Wiring ω := { w with lines := w.shape }

theorem shape_silent (w : Wiring ω) : w.silent.shape = w.shape := by
  simp only [silent, shape, Array.map_map]
  rfl

/-- Two wirings of one shape in which every raise is heeded, with observers in related states. -/
structure Abreast {τ : Type} (Q : σ → τ → Prop) (state : Wiring ω × σ) (state' : Wiring ω × τ) :
    Prop where
  shape : state'.1.shape = state.1.shape
  unfiltered : state.1.Unfiltered
  related : Q state.2 state'.2

section Abreast

variable {τ : Type} {react : Reaction ω σ} {react' : Reaction ω τ} {Q : σ → τ → Prop}
  {state : Wiring ω × σ} {state' : Wiring ω × τ}

theorem Abreast.setValue (h : Abreast Q state state') (line : Nat) (value : UInt32) :
    Abreast Q (state.1.setValue line value, state.2) (state'.1.setValue line value, state'.2) where
  shape := by
    rw [shape_setValue, shape_setValue]
    exact h.shape
  unfiltered := h.unfiltered.of_shape (shape_setValue _ _ _)
  related := h.related

/-- Reactions may look at a line, but not at its value, if two raises are to go the same way. -/
theorem raiseWithin_abreast
    (hreact : ∀ observer position l l' value s t, Q s t →
      Q (react observer position l value s).1 (react' observer position l' value t).1 ∧
        (react' observer position l' value t).2 = (react observer position l value s).2)
    (depth line : Nat) (value : UInt32) (h : Abreast Q state state') :
    Abreast Q (raiseWithin react depth line value state)
      (raiseWithin react' depth line value state') := by
  induction depth generalizing line value state state' with
  | zero => exact h
  | succ depth ih =>
    cases hl : state.1.lines[line]? with
    | none =>
      have hl' : state'.1.lines[line]? = none := by
        rw [Array.getElem?_eq_none_iff, size_of_shape h.shape]
        exact Array.getElem?_eq_none_iff.mp hl
      simpa only [raiseWithin_succ, hl, hl'] using h
    | some l =>
      obtain ⟨l', hl', hfiltered', hobservers, hsinks⟩ := exists_line_of_shape h.shape.symm hl
      have hfiltered := h.unfiltered l (Array.mem_of_getElem? hl)
      rw [hfiltered] at hfiltered'
      simp only [raiseWithin_succ, hl, hl', hfiltered, hfiltered', hobservers, hsinks,
        Bool.false_and, Bool.false_eq_true, if_false]
      refine List.foldl_rel (r := Abreast Q) ?_ fun sink _ current current' hcurrent =>
        ih sink value hcurrent
      refine List.foldl_rel (r := Abreast Q) (h.setValue line value) ?_
      intro observer _ current current' hcurrent
      obtain ⟨hnext, hraised⟩ := hreact observer line l l' value _ _ hcurrent.related
      unfold notify
      generalize react observer line l value current.2 = x at hnext hraised
      generalize react' observer line l' value current'.2 = x' at hnext hraised
      obtain ⟨s, raised⟩ := x
      obtain ⟨t, raised'⟩ := x'
      obtain rfl : raised' = raised := hraised
      cases raised' with
      | none => exact ⟨hcurrent.shape, hcurrent.unfiltered, hnext⟩
      | some further => exact ih further.1 further.2 ⟨hcurrent.shape, hcurrent.unfiltered, hnext⟩

theorem raise_abreast
    (hreact : ∀ observer position l l' value s t, Q s t →
      Q (react observer position l value s).1 (react' observer position l' value t).1 ∧
        (react' observer position l' value t).2 = (react observer position l value s).2)
    (line : Nat) (value : UInt32) (h : Abreast Q state state') :
    Abreast Q (state.1.raise react line value state.2)
      (state'.1.raise react' line value state'.2) := by
  unfold raise
  rw [raiseDepth_of_shape h.shape]
  exact raiseWithin_abreast hreact _ line value h

end Abreast

end AvrSim.Wiring
