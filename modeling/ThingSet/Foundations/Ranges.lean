import Mathlib.Data.List.Basic
import Mathlib.Data.Nat.Notation

/-!
# Ranges

What a range-based loop works on: an iterator to begin with and one to end with, a comparison, and the functions
that advance and dereference an iterator. Where an iterator cannot be advanced or dereferenced these give nothing,
and so does the loop that does it.

* `Range.forEach`: the loop `for (auto x : range)`, with a bound on its rounds.
* `Range.Yields`: the elements from an iterator on, up to the end.
* `Range.Yields.forEach`: a loop with a round for each element, and one to see the end, folds over the elements.
-/

namespace Iteration

/-- A range with iterators `I` over elements `α`. -/
structure Range (I α : Type) where
  start : I
  stop : I
  equal : I → I → Bool
  next : I → Option I
  deref : I → Option α

namespace Range

variable {I α β : Type} (R : Range I α)

/-- The loop from an iterator on, which folds `f` over the elements. -/
def loop (f : β → α → β) : ℕ → β → I → Option β
  | 0, _, _ => none
  | rounds + 1, b, it =>
    if R.equal it R.stop then some b
    else (R.deref it).bind fun a => (R.next it).bind fun it => loop f rounds (f b a) it

/-- `for (auto x : range)`. -/
def forEach (f : β → α → β) (rounds : ℕ) (b : β) : Option β := R.loop f rounds b R.start

/-- The elements that a loop comes to, in order. -/
def elements (rounds : ℕ) : Option (List α) := R.forEach (fun l a => l ++ [a]) rounds []

/-- The elements from `it` on are those of `l`: none is at the end of the range, and behind them is the end. -/
def Yields : I → List α → Prop
  | it, [] => R.equal it R.stop = true
  | it, a :: l => R.equal it R.stop = false ∧ R.deref it = some a ∧ ∃ it', R.next it = some it' ∧ Yields it' l

variable {R} {it : I} {l : List α} {rounds : ℕ}

theorem Yields.loop (h : R.Yields it l) (f : β → α → β) (b : β) (hrounds : l.length < rounds) :
    R.loop f rounds b it = some (l.foldl f b) := by
  induction l generalizing it b rounds with
  | nil =>
    obtain ⟨rounds, rfl⟩ : ∃ k, rounds = k + 1 := ⟨rounds - 1, by rw [List.length_nil] at hrounds; omega⟩
    exact if_pos h
  | cons a l ih =>
    obtain ⟨rounds, rfl⟩ : ∃ k, rounds = k + 1 := ⟨rounds - 1, by rw [List.length_cons] at hrounds; omega⟩
    obtain ⟨hend, hderef, it', hnext, h⟩ := h
    rw [Range.loop, hend, if_neg Bool.false_ne_true, hderef, Option.bind_some, hnext, Option.bind_some, List.foldl_cons]
    exact ih h (f b a) (Nat.lt_of_succ_lt_succ hrounds)

/-- **A loop over a range folds over its elements.** -/
theorem Yields.forEach (h : R.Yields R.start l) (f : β → α → β) (b : β) (hrounds : l.length < rounds) :
    R.forEach f rounds b = some (l.foldl f b) := h.loop f b hrounds

theorem Yields.elements (h : R.Yields R.start l) (hrounds : l.length < rounds) : R.elements rounds = some l := by
  have hfold : ∀ l' : List α, l.foldl (fun l a => l ++ [a]) l' = l' ++ l := by
    clear h hrounds
    induction l with
    | nil => intro l'; exact (List.append_nil l').symm
    | cons a l ih =>
      intro l'
      rw [List.foldl_cons, ih, List.append_assoc]
      rfl
  rw [Range.elements, h.forEach _ _ hrounds, hfold, List.nil_append]

end Range

end Iteration
