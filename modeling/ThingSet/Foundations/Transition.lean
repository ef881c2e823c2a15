import Mathlib.Data.Nat.Notation

/-!
# Transition systems with events

`step s e` is the state after the event `e`, or nothing when `e` cannot happen in `s`. A run is a
sequence of events; a state with no event left is final. Calls always happen, and return a result
(`runCalls`). `interleave` puts two systems side by side.

* `runFrom_invariant`: what every step preserves, a run preserves.
* `runFrom_invariant_of_meets`: the same for runs whose steps all meet a condition (`Meets`).
* `length_le_of_runFrom`: when every step decreases a measure, it bounds the length of every run.
-/

namespace Transition

variable {σ ε : Type} (step : σ → ε → Option σ)

/-- The state after a sequence of events. -/
def runFrom (s : σ) : List ε → Option σ
  | [] => some s
  | e :: es => (step s e).bind fun s => runFrom s es

/-- No event can happen. -/
def Final (s : σ) : Prop := ∀ e, step s e = none

variable {step} {P : σ → Prop} {s s' : σ}

/-- What every step preserves, a run preserves. -/
theorem runFrom_invariant (hP : ∀ s e s', P s → step s e = some s' → P s') (hs : P s)
    {es : List ε} (hrun : runFrom step s es = some s') : P s' := by
  induction es generalizing s with
  | nil => exact Option.some.inj hrun ▸ hs
  | cons e es ih =>
    obtain ⟨s₁, hs₁, hrun⟩ := Option.bind_eq_some_iff.1 hrun
    exact ih (hP s e s₁ hs hs₁) hrun

/-- Every step of a run meets the condition `G` on the state before it and its event. -/
def Meets (step : σ → ε → Option σ) (G : σ → ε → Prop) : σ → List ε → Prop
  | _, [] => True
  | s, e :: es => G s e ∧ ∀ s₁, step s e = some s₁ → Meets step G s₁ es

instance decidableMeets {G : σ → ε → Prop} [∀ s e, Decidable (G s e)] :
    ∀ s es, Decidable (Meets step G s es)
  | _, [] => isTrue trivial
  | s, e :: es =>
    match hstep : step s e with
    | none => decidable_of_iff (G s e)
      ⟨fun h => ⟨h, fun _ hs₁ => nomatch hstep.symm.trans hs₁⟩, And.left⟩
    | some s₁ =>
      have := decidableMeets (G := G) s₁ es
      decidable_of_iff (G s e ∧ Meets step G s₁ es)
        ⟨fun h => ⟨h.1, fun _ hs₁ => Option.some.inj (hstep.symm.trans hs₁) ▸ h.2⟩,
          fun h => ⟨h.1, h.2 s₁ hstep⟩⟩

theorem Meets.of_append {G : σ → ε → Prop} {es es' : List ε} (hG : Meets step G s (es ++ es'))
    (hrun : runFrom step s es = some s') : Meets step G s es ∧ Meets step G s' es' := by
  induction es generalizing s with
  | nil => exact ⟨trivial, Option.some.inj hrun ▸ hG⟩
  | cons e es ih =>
    obtain ⟨s₁, hs₁, hrun⟩ := Option.bind_eq_some_iff.1 hrun
    refine ⟨⟨hG.1, fun s₂ hs₂ => ?_⟩, (ih (hG.2 s₁ hs₁) hrun).2⟩
    obtain rfl := Option.some.inj (hs₁.symm.trans hs₂)
    exact (ih (hG.2 s₁ hs₁) hrun).1

/-- What every step that meets a condition preserves, a run of such steps preserves. -/
theorem runFrom_invariant_of_meets {G : σ → ε → Prop}
    (hP : ∀ s e s', P s → G s e → step s e = some s' → P s') (hs : P s) {es : List ε}
    (hG : Meets step G s es) (hrun : runFrom step s es = some s') : P s' := by
  induction es generalizing s with
  | nil => exact Option.some.inj hrun ▸ hs
  | cons e es ih =>
    obtain ⟨s₁, hs₁, hrun⟩ := Option.bind_eq_some_iff.1 hrun
    exact ih (hP s e s₁ hs hG.1 hs₁) (hG.2 s₁ hs₁) hrun

/-- When every step that keeps to an invariant decreases a measure, it bounds the length of every
run. -/
theorem length_le_of_runFrom (measure : σ → ℕ)
    (hP : ∀ s e s', P s → step s e = some s' → P s' ∧ measure s' < measure s) (hs : P s)
    {es : List ε} (hrun : runFrom step s es = some s') : es.length ≤ measure s := by
  induction es generalizing s with
  | nil => exact Nat.zero_le _
  | cons e es ih =>
    obtain ⟨s₁, hs₁, hrun⟩ := Option.bind_eq_some_iff.1 hrun
    obtain ⟨h₁, hlt⟩ := hP s e s₁ hs hs₁
    have hlen := ih h₁ hrun
    rw [List.length_cons]
    omega

/-- The same for runs whose steps all meet a condition. -/
theorem length_le_of_meets {G : σ → ε → Prop} (measure : σ → ℕ)
    (hP : ∀ s e s', G s e → step s e = some s' → measure s' < measure s) {es : List ε}
    (hG : Meets step G s es) (hrun : runFrom step s es = some s') : es.length ≤ measure s := by
  induction es generalizing s with
  | nil => exact Nat.zero_le _
  | cons e es ih =>
    obtain ⟨s₁, hs₁, hrun⟩ := Option.bind_eq_some_iff.1 hrun
    have hlt := hP s e s₁ hG.1 hs₁
    have hlen := ih (hG.2 s₁ hs₁) hrun
    rw [List.length_cons]
    omega

/-! ## Two systems -/

/-- The events of two systems come in any order. -/
def interleave {σ' ε' : Type} (step : σ → ε → Option σ) (step' : σ' → ε' → Option σ')
    (s : σ × σ') : ε ⊕ ε' → Option (σ × σ')
  | .inl e => (step s.1 e).map fun t => (t, s.2)
  | .inr e => (step' s.2 e).map fun t => (s.1, t)

/-! ## Calls -/

section Calls

variable {α β : Type} (call : α → σ → β × σ)

/-- The results of a sequence of calls, and the state after them. -/
def runCalls : List α → σ → List β × σ
  | [], s => ([], s)
  | x :: xs, s =>
    let (r, s) := call x s
    let (rs, s) := runCalls xs s
    (r :: rs, s)

variable {call}

theorem runCalls_append (xs ys : List α) (s : σ) :
    runCalls call (xs ++ ys) s =
      ((runCalls call xs s).1 ++ (runCalls call ys (runCalls call xs s).2).1,
        (runCalls call ys (runCalls call xs s).2).2) := by
  induction xs generalizing s with
  | nil => rfl
  | cons x xs ih => simp only [List.cons_append, runCalls, ih]

theorem length_runCalls (xs : List α) (s : σ) : (runCalls call xs s).1.length = xs.length := by
  induction xs generalizing s with
  | nil => rfl
  | cons x xs ih => rw [runCalls, List.length_cons, List.length_cons, ih]

end Calls

end Transition
