import Mathlib.Logic.Function.Basic
import ThingSet.Foundations.Transition

/-!
# Machines by key

A family of machines with one state for each key. A call goes to the machine of its key.

* `runCalls_keyed`: in an interleaving each machine returns what it returns when it runs on its own.
-/

namespace Transition

open Function

variable {K α β σ : Type} [DecidableEq K] (key : α → K) (call : α → σ → β × σ)

/-- A call to the machine of its key. -/
def keyed (x : α) (states : K → σ) : β × (K → σ) :=
  let (r, s) := call x (states (key x))
  (r, update states (key x) s)

/-- The results of the calls with a key. -/
def resultsOf (k : K) (xs : List α) (rs : List β) : List β :=
  ((xs.zip rs).filter fun p => key p.1 = k).map (·.2)

variable {key call}

theorem resultsOf_cons (k : K) (x : α) (xs : List α) (r : β) (rs : List β) :
    resultsOf key k (x :: xs) (r :: rs) =
      if key x = k then r :: resultsOf key k xs rs else resultsOf key k xs rs := by
  rw [resultsOf, List.zip_cons_cons, List.filter_cons]
  split
  · rename_i h
    rw [if_pos (of_decide_eq_true h)]
    rfl
  · rename_i h
    rw [if_neg (by simpa using h)]
    rfl

/-- Each machine runs on its own calls. -/
theorem runCalls_keyed (xs : List α) (states : K → σ) (k : K) :
    resultsOf key k xs (runCalls (keyed key call) xs states).1 =
        (runCalls call (xs.filter fun x => key x = k) (states k)).1 ∧
      (runCalls (keyed key call) xs states).2 k =
        (runCalls call (xs.filter fun x => key x = k) (states k)).2 := by
  induction xs generalizing states with
  | nil => exact ⟨rfl, rfl⟩
  | cons x xs ih =>
    obtain ⟨hresults, hstate⟩ := ih (keyed key call x states).2
    by_cases hk : key x = k
    · have hself : (keyed key call x states).2 k = (call x (states k)).2 := by
        rw [← hk]
        exact update_self ..
      have hresult : (keyed key call x states).1 = (call x (states k)).1 := by
        rw [← hk]
        rfl
      rw [hself] at hresults hstate
      rw [List.filter_cons_of_pos (by simpa using hk)]
      simp only [runCalls, resultsOf_cons, if_pos hk, hresults, hstate, hresult, and_self]
    · have hother : (keyed key call x states).2 k = states k := update_of_ne (Ne.symm hk) ..
      rw [hother] at hresults hstate
      rw [List.filter_cons_of_neg (by simpa using hk)]
      simp only [runCalls, resultsOf_cons, if_neg hk, hresults, hstate, and_self]

end Transition
