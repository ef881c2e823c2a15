import Mathlib.Logic.Function.Iterate
import Mathlib.Data.Nat.Notation

/-!
# Retries

An attempt changes a state and succeeds or fails. It is repeated until it succeeds, for at most a number
of attempts (`retry`).

`retry_iff`: this succeeds exactly when one of these attempts, each on what the failed ones before it
left, does.
-/

namespace Retry

variable {σ : Type} (attempt : σ → Bool × σ)

/-- At most `n` attempts, up to the first that succeeds: whether there was one. -/
def retry : ℕ → σ → Bool × σ
  | 0, s => (false, s)
  | n + 1, s =>
    let (ok, s) := attempt s
    if ok then (true, s) else retry n s

/-- The first attempt succeeds. -/
theorem retry_of_first {attempt : σ → Bool × σ} {n : ℕ} (hn : 0 < n) {s : σ} (h : (attempt s).1 = true) :
    retry attempt n s = attempt s := by
  obtain ⟨m, rfl⟩ : ∃ m, n = m + 1 := ⟨n - 1, by omega⟩
  rw [retry]
  dsimp only
  rw [if_pos h]
  exact Prod.ext h.symm rfl

/-- The state after `i` attempts. -/
def after (i : ℕ) (s : σ) : σ := (fun s => (attempt s).2)^[i] s

/-- One of the first `n` attempts succeeds. -/
def Succeeds (n : ℕ) (s : σ) : Prop := ∃ i < n, (attempt (after attempt i s)).1 = true

instance decidableSucceeds (n : ℕ) (s : σ) : Decidable (Succeeds attempt n s) :=
  inferInstanceAs (Decidable (∃ i < n, (attempt (after attempt i s)).1 = true))

variable {attempt}

theorem succeeds_succ {n : ℕ} {s : σ} :
    Succeeds attempt (n + 1) s ↔ (attempt s).1 = true ∨ Succeeds attempt n (attempt s).2 := by
  constructor
  · rintro ⟨i, hi, hok⟩
    cases i with
    | zero => exact .inl hok
    | succ i => exact .inr ⟨i, by omega, hok⟩
  · rintro (hok | ⟨i, hi, hok⟩)
    · exact ⟨0, Nat.succ_pos n, hok⟩
    · exact ⟨i + 1, by omega, hok⟩

theorem retry_iff {n : ℕ} {s : σ} : (retry attempt n s).1 = true ↔ Succeeds attempt n s := by
  induction n generalizing s with
  | zero => exact ⟨nofun, fun ⟨i, hi, _⟩ => absurd hi (Nat.not_lt_zero i)⟩
  | succ n ih =>
    rw [succeeds_succ, ← ih, retry]
    rcases attempt s with ⟨ok, s'⟩
    cases ok <;> simp

end Retry
