import ThingSet.Foundations.Interaction

/-!
# Loops without a bound

A `while` loop over an interface need not end. `Prog.loop` runs it for a number of rounds, and `Prog.Ends` says that
some number is enough.

* `ends_of_some`, `ends_of_none`: what a round says about the loop.
* `Ends.invariant`, `Ends.result`: what every round preserves holds where the loop ends.
* `not_ends_of_fixed`: a round that changes nothing is followed by the same one.
-/

namespace Interaction

namespace Prog

variable {I : Interface} {β σ : Type} (h : Handler I σ) (round : Prog I (Option β))

/-- Run a loop for a number of rounds. A round without a result is followed by another one. -/
def loop : ℕ → σ → Option (β × σ)
  | 0, _ => none
  | n + 1, s =>
    match run h round s with
    | (some b, s) => some (b, s)
    | (none, s) => loop n s

/-- The states in which the rounds start. -/
def starts : ℕ → σ → List σ
  | 0, _ => []
  | n + 1, s =>
    match run h round s with
    | (some _, _) => [s]
    | (none, s') => s :: starts n s'

/-- The loop ends, and all its rounds start in certain states. -/
def Ends (Q : σ → Prop) (s : σ) (b : β) (s' : σ) : Prop :=
  ∃ n, loop h round n s = some (b, s') ∧ ∀ x ∈ starts h round n s, Q x

variable {h round} {Q : σ → Prop} {s s' s₁ : σ} {b b₁ : β}

/-- The loop ends in the first round. -/
theorem ends_of_some (hround : run h round s = (some b₁, s₁)) :
    Ends h round Q s b s' ↔ Q s ∧ b = b₁ ∧ s' = s₁ := by
  have hloop (n : ℕ) : loop h round (n + 1) s = some (b₁, s₁) := by
    rw [loop, hround]
  have hstarts (n : ℕ) : starts h round (n + 1) s = [s] := by
    rw [starts, hround]
  constructor
  · rintro ⟨_ | n, hn, hQ⟩
    · cases hn
    · rw [hloop] at hn
      rw [hstarts] at hQ
      obtain ⟨rfl, rfl⟩ := Prod.mk.inj (Option.some.inj hn)
      exact ⟨hQ s (List.mem_singleton_self s), rfl, rfl⟩
  · rintro ⟨hQ, rfl, rfl⟩
    refine ⟨1, hloop 0, fun x hx => ?_⟩
    rw [hstarts] at hx
    obtain rfl := List.mem_singleton.1 hx
    exact hQ

/-- The loop goes on behind the first round. -/
theorem ends_of_none (hround : run h round s = (none, s₁)) :
    Ends h round Q s b s' ↔ Q s ∧ Ends h round Q s₁ b s' := by
  have hloop (n : ℕ) : loop h round (n + 1) s = loop h round n s₁ := by
    rw [loop, hround]
  have hstarts (n : ℕ) : starts h round (n + 1) s = s :: starts h round n s₁ := by
    rw [starts, hround]
  constructor
  · rintro ⟨_ | n, hn, hQ⟩
    · cases hn
    · rw [hloop] at hn
      rw [hstarts] at hQ
      exact ⟨hQ s List.mem_cons_self, n, hn, fun x hx => hQ x (List.mem_cons_of_mem s hx)⟩
  · rintro ⟨hs, n, hn, hQ⟩
    refine ⟨n + 1, (hloop n).trans hn, fun x hx => ?_⟩
    rw [hstarts] at hx
    rcases List.mem_cons.1 hx with rfl | hx
    · exact hs
    · exact hQ x hx

/-- The first round starts in such a state. -/
theorem Ends.start (hends : Ends h round Q s b s') : Q s := by
  cases hround : run h round s with
  | mk r s₁ =>
    cases r with
    | none => exact ((ends_of_none hround).1 hends).1
    | some b₁ => exact ((ends_of_some hround).1 hends).1

/-- What holds of the state that a round leaves, if it holds of the one in which the round starts, holds in the
end. -/
theorem Ends.invariant {P : σ → Prop} (hP : ∀ s, P s → P (run h round s).2) (hs : P s)
    (hends : Ends h round Q s b s') : P s' := by
  obtain ⟨n, hn, -⟩ := hends
  induction n generalizing s with
  | zero => cases hn
  | succ n ih =>
    have hnext := hP s hs
    rw [loop] at hn
    cases hround : run h round s with
    | mk r s₁ =>
      rw [hround] at hn hnext
      cases r with
      | none => exact ih hnext hn
      | some b₁ =>
        obtain ⟨-, rfl⟩ := Prod.mk.inj (Option.some.inj hn)
        exact hnext

/-- The result of a loop is the result of a round. -/
theorem Ends.result {P : β → Prop} (hP : ∀ s b, (run h round s).1 = some b → P b)
    (hends : Ends h round Q s b s') : P b := by
  obtain ⟨n, hn, -⟩ := hends
  induction n generalizing s with
  | zero => cases hn
  | succ n ih =>
    have hresult := hP s
    rw [loop] at hn
    cases hround : run h round s with
    | mk r s₁ =>
      rw [hround] at hn hresult
      cases r with
      | none => exact ih hn
      | some b₁ =>
        obtain ⟨rfl, -⟩ := Prod.mk.inj (Option.some.inj hn)
        exact hresult _ rfl

/-- A round that changes nothing is followed by the same one. -/
theorem not_ends_of_fixed (hround : run h round s = (none, s)) : ¬ Ends h round Q s b s' := by
  rintro ⟨n, hn, -⟩
  induction n with
  | zero => cases hn
  | succ n ih =>
    rw [loop, hround] at hn
    exact ih hn

end Prog

end Interaction
