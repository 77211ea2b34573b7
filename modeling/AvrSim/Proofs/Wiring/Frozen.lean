import AvrSim.Proofs.Wiring.Acyclic

/-!
# Frozen pools

A pool is frozen once and for all. Calls on it are refused from then on, and calls on another pool are
refused if they name one of its lines, since a line is changed only through the pool that owns it. Raises
store values. So whatever is done later, with any pool and any lines, who listens to a line of the frozen
pool and where it leads stay as they were; lines that the pool gets later stay bare.

* `Wiring.Keeps`: what of a pool is kept between two wirings.
* `Wiring.keeps_after`, `Wiring.keeps_use`: a call keeps a frozen pool, and so does a raise.
* `Wiring.freeze_final`: so does everything that follows a freeze.
-/

namespace AvrSim.Wiring

variable {ω σ : Type} {w w' w'' : Wiring ω} {pool other line : Nat}

/-! ## The lines of a pool -/

/-- The observers and the sinks of a line that belongs to a pool. -/
def wires (w : Wiring ω) (pool line : Nat) : Option (List ω × List Nat) :=
  match w.lines[line]? with
  | some l => if l.pool = pool then some (l.observers, l.sinks) else none
  | none => none

theorem wires_of_size_le (h : w.lines.size ≤ line) : w.wires pool line = none := by
  unfold wires
  rw [Array.getElem?_eq_none h]

/-- A line of one pool is changed, which the lines of another pool do not notice. -/
theorem wires_modify {f : Line ω → Line ω} (hf : ∀ l, (f l).pool = l.pool)
    (howns : w.owns other line) (hne : other ≠ pool) (i : Nat) :
    ({ w with lines := w.lines.modify line f } : Wiring ω).wires pool i = w.wires pool i := by
  unfold wires
  rw [getElem?_modify]
  cases hl : w.lines[i]? with
  | none => rfl
  | some l =>
    dsimp only [Option.map_some]
    split
    · rename_i hline
      subst hline
      have hpool : l.pool ≠ pool := by
        rw [owns, hl] at howns
        rw [eq_of_beq howns]
        exact hne
      rw [if_neg hpool, if_neg (by rw [hf]; exact hpool)]
    · rfl

theorem wires_of_shape (h : w'.shape = w.shape) (i : Nat) : w'.wires pool i = w.wires pool i := by
  have hwires (w : Wiring ω) : w.wires pool i = w.silent.wires pool i := by
    simp only [wires, silent, shape, Array.getElem?_map]
    cases w.lines[i]? <;> rfl
  rw [hwires w, hwires w', silent, silent, h]
  rfl

theorem wires_alloc (base : Int64) (count : Nat) (names : List String) (i : Nat) :
    (w.alloc other base count names).wires pool i = w.wires pool i ∨
      w.lines.size ≤ i ∧ (w.alloc other base count names).wires pool i = some ([], []) := by
  rcases Nat.lt_or_ge i w.lines.size with hold | hnew
  · left
    unfold wires alloc
    dsimp only
    rw [Array.getElem?_append_left hold]
  · rw [wires_of_size_le hnew]
    unfold wires alloc
    dsimp only
    rw [Array.getElem?_append_right hnew]
    generalize i - w.lines.size = k
    by_cases hk : k < count
    · by_cases hpool : other = pool
      · exact .inr ⟨hnew, by simp [hk, hpool]⟩
      · exact .inl (by simp [hk, hpool])
    · exact .inl (by simp [hk])

/-! ## What is kept -/

/-- The wiring `w'` has the lines of a pool as `w` has them, and perhaps some more that are bare. A pool
that is frozen in `w` is frozen in `w'`. -/
structure Keeps (pool : Nat) (w w' : Wiring ω) : Prop where
  frozen : w.isFrozen pool → w'.isFrozen pool
  size : w.lines.size ≤ w'.lines.size
  wires : ∀ line, w'.wires pool line = w.wires pool line ∨
    w.lines.size ≤ line ∧ w'.wires pool line = some ([], [])

namespace Keeps

theorem refl (pool : Nat) (w : Wiring ω) : Keeps pool w w where
  frozen := id
  size := Nat.le_refl _
  wires := fun _ => .inl rfl

theorem trans (h : Keeps pool w w') (h' : Keeps pool w' w'') : Keeps pool w w'' where
  frozen := fun hfrozen => h'.frozen (h.frozen hfrozen)
  size := Nat.le_trans h.size h'.size
  wires := by
    intro line
    rcases h'.wires line with hsame | ⟨hnew, hbare⟩
    · rw [hsame]
      exact h.wires line
    · exact .inr ⟨Nat.le_trans h.size hnew, hbare⟩

end Keeps

theorem keeps_of_modify {f : Line ω → Line ω} (hf : ∀ l, (f l).pool = l.pool)
    (howns : w.owns other line) (hne : other ≠ pool) :
    Keeps pool w { w with lines := w.lines.modify line f } where
  frozen := id
  size := by simp
  wires := fun i => .inl (wires_modify hf howns hne i)

theorem keeps_alloc (base : Int64) (count : Nat) (names : List String) :
    Keeps pool w (w.alloc other base count names) where
  frozen := id
  size := by simp [alloc]
  wires := wires_alloc base count names

theorem keeps_freeze : Keeps pool w (w.freeze other) := by
  unfold freeze
  split
  · exact .refl pool w
  · refine ⟨?_, Nat.le_refl _, fun _ => .inl rfl⟩
    simp only [isFrozen, List.contains_eq_mem, decide_eq_true_eq, List.mem_cons]
    exact .inr

theorem keeps_of_revalued (h : Revalued w w') : Keeps pool w w' where
  frozen := by
    unfold isFrozen
    rw [h.frozen]
    exact id
  size := Nat.le_of_eq (size_of_shape h.shape).symm
  wires := fun i => .inl (wires_of_shape h.shape i)

/-! ## Calls and raises -/

theorem check_of_frozen (h : w.isFrozen pool) (lines : List Nat) :
    w.check pool lines = .error .frozen := if_pos h

theorem subscribe_of_frozen (h : w.isFrozen pool) (line : Nat) (observer : ω) :
    w.subscribe pool line observer = .error .frozen := by
  unfold subscribe
  rw [check_of_frozen h]
  rfl

theorem connect_of_frozen (h : w.isFrozen pool) (source sink : Nat) :
    w.connect pool source sink = .error .frozen := by
  unfold connect
  rw [check_of_frozen h]
  rfl

/-- The lines that a call may change belong to the pool it is made on, which is not frozen. -/
theorem admitted_of_check {lines : List Nat} (hfrozen : w.isFrozen pool)
    (h : w.check other lines = .ok ()) : other ≠ pool ∧ ∀ line ∈ lines, w.owns other line := by
  obtain ⟨hopen, howns⟩ := of_check_eq_ok h
  refine ⟨?_, howns⟩
  rintro rfl
  rw [hfrozen] at hopen
  cases hopen

/-- **One call** on any pool and with any lines keeps a frozen pool. -/
theorem keeps_after (hfrozen : w.isFrozen pool) (call : Call ω) : Keeps pool w (w.after call) := by
  unfold after
  split
  · rename_i w' hperform
    cases call with
    | alloc other base count names =>
      cases hperform
      exact keeps_alloc base count names
    | subscribe other line observer =>
      have hsubscribe : w.subscribe other line observer = .ok w' := hperform
      obtain ⟨_, hcheck, -⟩ := exists_of_bind_eq_ok hsubscribe
      obtain ⟨hne, howns⟩ := admitted_of_check hfrozen hcheck
      rw [of_subscribe_eq_ok hsubscribe]
      exact keeps_of_modify (fun _ => rfl) (howns line (by simp)) hne
    | connect other source sink =>
      have hconnect : w.connect other source sink = .ok w' := hperform
      obtain ⟨_, hcheck, -⟩ := exists_of_bind_eq_ok hconnect
      obtain ⟨hne, howns⟩ := admitted_of_check hfrozen hcheck
      rw [of_connect_eq_ok hconnect]
      exact keeps_of_modify (fun _ => rfl) (howns source (by simp)) hne
    | freeze other =>
      cases hperform
      exact keeps_freeze
  · exact .refl pool w

/-- What a wiring is used for: a call that builds it, refused or not, or a raise of a line. -/
inductive Use (ω : Type)
  | call (call : Call ω)
  | raise (line : Nat) (value : UInt32)

/-- A wiring and the state of its observers after a use. -/
def use (react : Reaction ω σ) (state : Wiring ω × σ) : Use ω → Wiring ω × σ
  | .call call => (state.1.after call, state.2)
  | .raise line value => state.1.raise react line value state.2

/-- A wiring and the state of its observers after several uses. -/
def uses (react : Reaction ω σ) (state : Wiring ω × σ) (list : List (Use ω)) : Wiring ω × σ :=
  list.foldl (use react) state

theorem keeps_use (react : Reaction ω σ) (state : Wiring ω × σ) (hfrozen : state.1.isFrozen pool)
    (u : Use ω) : Keeps pool state.1 (use react state u).1 := by
  cases u with
  | call call => exact keeps_after hfrozen call
  | raise line value => exact keeps_of_revalued (revalued_raise react line value state.1 state.2)

theorem keeps_uses (react : Reaction ω σ) (state : Wiring ω × σ) (hfrozen : state.1.isFrozen pool)
    (list : List (Use ω)) : Keeps pool state.1 (uses react state list).1 := by
  induction list generalizing state with
  | nil => exact .refl pool state.1
  | cons u rest ih =>
    have hstep := keeps_use react state hfrozen u
    exact hstep.trans (ih (use react state u) (hstep.frozen hfrozen))

/-- **Freezing is final.** Between any two points after a pool was frozen, its lines keep their observers
and sinks, whatever was called on any pool and raised on any line meanwhile, and lines that it got
meanwhile have none; at any such point every subscription and connection on the pool is refused. -/
theorem freeze_final (react : Reaction ω σ) (w : Wiring ω) (s : σ) (pool : Nat)
    (early late : List (Use ω)) :
    let before := uses react (w.freeze pool, s) early
    let now := uses react before late
    (∀ line, now.1.wires pool line = before.1.wires pool line ∨
      before.1.wires pool line = none ∧ now.1.wires pool line = some ([], [])) ∧
    (∀ line observer, now.1.subscribe pool line observer = .error .frozen) ∧
    ∀ source sink, now.1.connect pool source sink = .error .frozen := by
  intro before now
  have hstart : (w.freeze pool).isFrozen pool := isFrozen_freeze w pool
  have hearly : Keeps pool (w.freeze pool) before.1 := keeps_uses react (_, s) hstart early
  have hbefore : before.1.isFrozen pool := hearly.frozen hstart
  have hkeeps : Keeps pool before.1 now.1 := keeps_uses react before hbefore late
  have hnow : now.1.isFrozen pool := hkeeps.frozen hbefore
  refine ⟨?_, subscribe_of_frozen hnow, connect_of_frozen hnow⟩
  intro line
  rcases hkeeps.wires line with hsame | ⟨hnew, hbare⟩
  · exact .inl hsame
  · exact .inr ⟨wires_of_size_le hnew, hbare⟩

end AvrSim.Wiring
