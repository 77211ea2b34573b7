import AvrSim.Proofs.Wiring.Shape

/-!
# What building leaves of a line

New lines stand behind the old ones and no one listens to them. Each subscription and each connection
adds to one line and leaves the others as they were.

* `Wiring.carries_alloc`, `Wiring.carries_subscribe`, `Wiring.carries_connect`: the line that is
  changed.
* `Wiring.Carries.alloc`, `.subscribe`, `.connect`, `.freeze`: all others.
-/

namespace AvrSim

theorem exists_of_bind_eq_ok {ε α β : Type} {x : Except ε α} {f : α → Except ε β} {b : β}
    (h : x >>= f = .ok b) : ∃ a, x = .ok a ∧ f a = .ok b := by
  cases x with
  | error e => cases h
  | ok a => exact ⟨a, rfl, h⟩

theorem mapError_eq_ok_iff {ε ε' α : Type} {x : Except ε α} {f : ε → ε'} {a : α} :
    x.mapError f = .ok a ↔ x = .ok a := by
  cases x with
  | error e => exact ⟨nofun, nofun⟩
  | ok b =>
    constructor
    · intro h
      cases h
      rfl
    · intro h
      cases h
      rfl

namespace Wiring

variable {ω : Type} {w w' : Wiring ω} {pool line other : Nat} {observers : List ω} {sinks : List Nat}

theorem Carries.lt_size (h : w.Carries line observers sinks) : line < w.lines.size := by
  obtain ⟨l, hl, -⟩ := h
  exact (Array.getElem?_eq_some_iff.mp hl).1

/-! ## Lines that a change is about -/

theorem carries_alloc (w : Wiring ω) (pool : Nat) (base : Int64) {count i : Nat} (hi : i < count)
    (names : List String) : (w.alloc pool base count names).Carries (w.lines.size + i) [] [] := by
  refine ⟨{ id := base + Int64.ofNat i, name := names.getD i "", pool := pool }, ?_, rfl, rfl, rfl⟩
  unfold alloc
  simp [hi]

theorem of_subscribe_eq_ok {observer : ω} (h : w.subscribe pool line observer = .ok w') :
    w' = { w with lines :=
      w.lines.modify line fun l => { l with observers := l.observers ++ [observer] } } := by
  obtain ⟨-, -, h⟩ := exists_of_bind_eq_ok h
  cases h
  rfl

theorem of_connect_eq_ok {source sink : Nat} (h : w.connect pool source sink = .ok w') :
    w' = { w with lines :=
      w.lines.modify source fun l => { l with sinks := l.sinks ++ [sink] } } := by
  obtain ⟨-, -, h⟩ := exists_of_bind_eq_ok h
  dsimp only at h
  split at h
  · cases h
  · cases h
    rfl

theorem carries_subscribe {observer : ω} (h : w.subscribe pool line observer = .ok w')
    (hline : w.Carries line observers sinks) : w'.Carries line (observers ++ [observer]) sinks := by
  obtain ⟨l, hl, hfiltered, rfl, rfl⟩ := hline
  rw [of_subscribe_eq_ok h]
  refine ⟨{ l with observers := l.observers ++ [observer] }, ?_, hfiltered, rfl, rfl⟩
  simp [Array.getElem?_modify, hl]

theorem carries_connect {sink : Nat} (h : w.connect pool line sink = .ok w')
    (hline : w.Carries line observers sinks) : w'.Carries line observers (sinks ++ [sink]) := by
  obtain ⟨l, hl, hfiltered, rfl, rfl⟩ := hline
  rw [of_connect_eq_ok h]
  refine ⟨{ l with sinks := l.sinks ++ [sink] }, ?_, hfiltered, rfl, rfl⟩
  simp [Array.getElem?_modify, hl]

/-! ## Other lines -/

theorem Carries.alloc (h : w.Carries line observers sinks) (pool : Nat) (base : Int64) (count : Nat)
    (names : List String) : (w.alloc pool base count names).Carries line observers sinks := by
  have hlt := h.lt_size
  obtain ⟨l, hl, hrest⟩ := h
  refine ⟨l, ?_, hrest⟩
  unfold Wiring.alloc
  dsimp only
  rw [Array.getElem?_append_left hlt, hl]

/-- A line stays as it is if another one is modified. -/
theorem Carries.modify (h : w.Carries line observers sinks) (hne : other ≠ line)
    (f : Line ω → Line ω) :
    ({ w with lines := w.lines.modify other f } : Wiring ω).Carries line observers sinks := by
  obtain ⟨l, hl, hrest⟩ := h
  refine ⟨l, ?_, hrest⟩
  simp [Array.getElem?_modify, hne, hl]

theorem Carries.subscribe {observer : ω} (hline : w.Carries line observers sinks)
    (h : w.subscribe pool other observer = .ok w') (hne : other ≠ line) :
    w'.Carries line observers sinks := by
  rw [of_subscribe_eq_ok h]
  exact hline.modify hne _

theorem Carries.connect {sink : Nat} (hline : w.Carries line observers sinks)
    (h : w.connect pool other sink = .ok w') (hne : other ≠ line) :
    w'.Carries line observers sinks := by
  rw [of_connect_eq_ok h]
  exact hline.modify hne _

theorem isFrozen_freeze (w : Wiring ω) (pool : Nat) : (w.freeze pool).isFrozen pool = true := by
  unfold Wiring.freeze
  split
  · assumption
  · simp [Wiring.isFrozen]

theorem Carries.freeze (h : w.Carries line observers sinks) (pool : Nat) :
    (w.freeze pool).Carries line observers sinks := by
  unfold Wiring.freeze
  split
  · exact h
  · exact h

theorem closed_of_carries {among : Nat → Prop} {kind : ω → Prop}
    (h : ∀ line, among line → ∃ observers sinks, w.Carries line observers sinks ∧
      (∀ observer ∈ observers, kind observer) ∧ ∀ sink ∈ sinks, among sink) :
    w.Closed among kind := by
  intro line l hamong hl
  obtain ⟨observers, sinks, ⟨l', hl', -, rfl, rfl⟩, hrest⟩ := h line hamong
  rw [hl] at hl'
  cases hl'
  exact hrest

end Wiring

end AvrSim
