import AvrSim.Wiring.Raise

/-!
# What a raise does to the state of the observers

A raise runs observers and nothing else touches their state, so what every observer keeps a whole
cascade of raises keeps.

* `Wiring.raise_invariant`: a property that every reaction keeps holds after a raise.
* `Wiring.raise_map`: a map of states that commutes with every reaction commutes with a raise, and
  the wiring after it is the same.
-/

namespace AvrSim.Wiring

variable {ω σ τ : Type}

/-- One observer's turn: its reaction and the raise that it may ask for. -/
def notify (react : Reaction ω σ) (depth line : Nat) (l : Line ω) (value : UInt32)
    (state : Wiring ω × σ) (observer : ω) : Wiring ω × σ :=
  match react observer line l value state.2 with
  | (s, none) => (state.1, s)
  | (s, some (next, raised)) => raiseWithin react depth next raised (state.1, s)

theorem raiseWithin_succ (react : Reaction ω σ) (depth line : Nat) (value : UInt32)
    (state : Wiring ω × σ) :
    raiseWithin react (depth + 1) line value state =
      match state.1.lines[line]? with
      | none => state
      | some l =>
        if l.filtered && l.value == value then state
        else
          l.sinks.foldl (fun state sink => raiseWithin react depth sink value state)
            (l.observers.foldl (notify react depth line l value)
              (state.1.setValue line value, state.2)) := rfl

/-- What an observer's reaction has brought about stays if raises keep it. -/
theorem notify_invariant {react : Reaction ω σ} {P : σ → Prop} {depth line : Nat} {l : Line ω}
    {value : UInt32} {state : Wiring ω × σ} {observer : ω}
    (hraise : ∀ line value (state : Wiring ω × σ), P state.2 →
      P (raiseWithin react depth line value state).2)
    (h : P (react observer line l value state.2).1) :
    P (notify react depth line l value state observer).2 := by
  unfold notify
  split
  · rename_i heq
    rw [heq] at h
    exact h
  · rename_i heq
    rw [heq] at h
    exact hraise _ _ _ h

theorem raiseWithin_invariant {react : Reaction ω σ} {P : σ → Prop}
    (hreact : ∀ observer position line value s, P s →
      P (react observer position line value s).1) (depth : Nat) :
    ∀ (line : Nat) (value : UInt32) (state : Wiring ω × σ), P state.2 →
      P (raiseWithin react depth line value state).2 := by
  induction depth with
  | zero =>
    intro line value state h
    exact h
  | succ depth ih =>
    intro line value state h
    rw [raiseWithin_succ]
    split
    · exact h
    · rename_i l _
      split
      · exact h
      · -- the sinks come after the observers, so their fold starts from what the observers left
        refine List.foldlRecOn (motive := fun state : Wiring ω × σ => P state.2) _ _ ?_
          fun state hstate sink _ => ih sink value state hstate
        refine List.foldlRecOn (motive := fun state : Wiring ω × σ => P state.2) _ _ h ?_
        intro state hstate observer _
        exact notify_invariant ih (hreact observer line l value state.2 hstate)

theorem raise_invariant {react : Reaction ω σ} {P : σ → Prop}
    (hreact : ∀ observer position line value s, P s →
      P (react observer position line value s).1)
    (line : Nat) (value : UInt32) (w : Wiring ω) (s : σ) (h : P s) :
    P (w.raise react line value s).2 :=
  raiseWithin_invariant hreact _ line value (w, s) h

theorem raiseWithin_map {react : Reaction ω σ} {react' : Reaction ω τ} {f : σ → τ}
    (hreact : ∀ observer position line value s,
      react' observer position line value (f s) =
        Prod.map f id (react observer position line value s)) (depth : Nat) :
    ∀ (line : Nat) (value : UInt32) (state : Wiring ω × σ),
      raiseWithin react' depth line value (Prod.map id f state) =
        Prod.map id f (raiseWithin react depth line value state) := by
  induction depth with
  | zero =>
    intro line value state
    rfl
  | succ depth ih =>
    intro line value state
    have hturn : ∀ l state observer,
        notify react' depth line l value (Prod.map id f state) observer =
          Prod.map id f (notify react depth line l value state observer) := by
      intro l state observer
      simp only [notify, Prod.map_snd, hreact]
      rcases react observer line l value state.2 with ⟨s, _ | ⟨next, raised⟩⟩
      · rfl
      · exact ih next raised (state.1, s)
    simp only [raiseWithin_succ, Prod.map_fst, id]
    split
    · rfl
    · rename_i l _
      split
      · rfl
      · have hobserved : l.observers.foldl (notify react' depth line l value)
            (Prod.map id f (state.1.setValue line value, state.2)) =
              Prod.map id f (l.observers.foldl (notify react depth line l value)
                (state.1.setValue line value, state.2)) :=
          List.foldl_hom (Prod.map id f) (hturn l)
        refine (congrArg (List.foldl _ · l.sinks) hobserved).trans ?_
        exact List.foldl_hom (Prod.map id f) fun state sink => ih sink value state

theorem raise_map {react : Reaction ω σ} {react' : Reaction ω τ} {f : σ → τ}
    (hreact : ∀ observer position line value s,
      react' observer position line value (f s) =
        Prod.map f id (react observer position line value s))
    (line : Nat) (value : UInt32) (w : Wiring ω) (s : σ) :
    w.raise react' line value (f s) = Prod.map id f (w.raise react line value s) :=
  raiseWithin_map hreact _ line value (w, s)

end AvrSim.Wiring
