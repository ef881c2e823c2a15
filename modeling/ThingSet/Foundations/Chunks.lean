import Mathlib.Algebra.Order.Group.Nat
import Mathlib.Data.List.Basic
import Mathlib.Data.Nat.Notation

/-!
# Sequences cut into chunks

A sequence that is sent in chunks of `n` elements: every chunk but the last is full (`Chunked`).

* `Chunked.drop_flatten`, `Chunked.take_flatten`: the first `k` chunks are the first `k * n`
  elements.
-/

variable {α : Type}

/-- All chunks but the last have `n` elements, and the last has at most `n`. -/
structure Chunked (n : ℕ) (chunks : List (List α)) : Prop where
  full : ∀ c ∈ chunks.dropLast, c.length = n
  last : ∀ c ∈ chunks.getLast?, c.length ≤ n

namespace Chunked

variable {n : ℕ} {chunks : List (List α)} {c : List α}

/-- Full chunks and a last one. -/
theorem append_last (hfull : ∀ c ∈ chunks, c.length = n) (hlast : c.length ≤ n) :
    Chunked n (chunks ++ [c]) := by
  constructor
  · simpa using hfull
  · simpa using hlast

theorem tail (h : Chunked n (c :: chunks)) : Chunked n chunks := by
  cases chunks with
  | nil => exact ⟨by simp, by simp⟩
  | cons c' chunks =>
    refine ⟨fun d hd => h.full d (List.mem_cons_of_mem c hd), fun d hd => h.last d ?_⟩
    rwa [List.getLast?_cons_cons]

/-- A chunk that is not the last is full. -/
theorem length_head (h : Chunked n (c :: chunks)) (hne : chunks ≠ []) : c.length = n := by
  apply h.full
  rw [List.dropLast_cons_of_ne_nil hne]
  exact List.mem_cons_self

/-- One more full chunk in front. -/
theorem cons (h : Chunked n chunks) (hne : chunks ≠ []) (hc : c.length = n) : Chunked n (c :: chunks) := by
  constructor
  · rw [List.dropLast_cons_of_ne_nil hne]
    simpa using ⟨hc, h.full⟩
  · rw [List.getLast?_cons_of_ne_nil hne]
    exact h.last

/-- No chunk has more than `n` elements. -/
theorem length_le (h : Chunked n chunks) (hc : c ∈ chunks) : c.length ≤ n := by
  induction chunks with
  | nil => cases hc
  | cons d chunks ih =>
    rcases List.mem_cons.1 hc with rfl | hc
    · cases chunks with
      | nil => exact h.last c rfl
      | cons d' chunks => exact (h.length_head (List.cons_ne_nil d' chunks)).le
    · exact ih h.tail hc

/-- Without the first `k` chunks the first `k * n` elements are missing. -/
theorem drop_flatten (h : Chunked n chunks) (k : ℕ) :
    chunks.flatten.drop (k * n) = (chunks.drop k).flatten := by
  induction k generalizing chunks with
  | zero => simp
  | succ k ih =>
    cases chunks with
    | nil => simp
    | cons c chunks =>
      have hk : (k + 1) * n = n + k * n := by rw [Nat.succ_mul, Nat.add_comm]
      rw [List.flatten_cons, List.drop_succ_cons, ← ih h.tail, hk]
      by_cases hne : chunks = []
      · subst hne
        have hc := h.last c rfl
        rw [List.flatten_nil, List.append_nil, List.drop_nil, List.drop_eq_nil_iff]
        omega
      · have hc := h.length_head hne
        rw [← List.drop_drop, List.drop_left' hc]

/-- The first `k` chunks are the first `k * n` elements. -/
theorem take_flatten (h : Chunked n chunks) (k : ℕ) :
    chunks.flatten.take (k * n) = (chunks.take k).flatten := by
  apply (List.append_left_inj (chunks.drop k).flatten).1
  rw [← List.flatten_append, List.take_append_drop, ← h.drop_flatten, List.take_append_drop]

theorem drop (h : Chunked n chunks) (k : ℕ) : Chunked n (chunks.drop k) := by
  induction k generalizing chunks with
  | zero => exact h
  | succ k ih =>
    cases chunks with
    | nil => exact h
    | cons c chunks => exact ih h.tail

end Chunked
