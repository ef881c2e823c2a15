import Mathlib.Data.List.Basic
import Mathlib.Data.List.GetD
import Mathlib.Data.Nat.Notation

/-!
# Memory

A memory has a content at every address. `read` is the content of a range of addresses, and `write` puts a list
in the place of one.

* `write_of_outside`: a write leaves every other address alone.
* `read_write`: how a range looks after a write within it.
-/

/-- What is at every address. -/
abbrev Memory (α : Type) := ℕ → α

namespace Memory

variable {α : Type} (m : Memory α) (a n : ℕ) (l : List α)

/-- The `n` elements from the address `a` on. -/
def read : List α := (List.range n).map fun i => m (a + i)

/-- `l` is written from the address `a` on. -/
def write : Memory α := fun b => if b < a then m b else l.getD (b - a) (m b)

@[simp] theorem length_read : (m.read a n).length = n := by simp [read]

variable {m a n l}

theorem getElem_read {i : ℕ} (h : i < (m.read a n).length) : (m.read a n)[i] = m (a + i) := by
  simp [read]

theorem getD_read {i : ℕ} (h : i < n) (d : α) : (m.read a n).getD i d = m (a + i) := by
  rw [List.getD_eq_getElem _ _ (by simpa using h), getElem_read]

/-- A part of what is read is read. -/
theorem take_read {k : ℕ} (h : k ≤ n) : (m.read a n).take k = m.read a k := by
  rw [read, ← List.map_take, List.take_range, Nat.min_eq_left h, read]

theorem write_of_outside {b : ℕ} (h : b < a ∨ a + l.length ≤ b) : m.write a l b = m b := by
  unfold write
  split
  · rfl
  · exact List.getD_eq_default _ _ (by omega)

theorem write_of_inside {i : ℕ} (h : i < l.length) : m.write a l (a + i) = l[i] := by
  unfold write
  rw [if_neg (by omega), Nat.add_sub_cancel_left, List.getD_eq_getElem _ _ h]

/-- A range after a write within it. -/
theorem read_write {k : ℕ} (h : k + l.length ≤ n) :
    (m.write (a + k) l).read a n = (m.read a n).take k ++ l ++ (m.read a n).drop (k + l.length) := by
  apply List.ext_getElem
  · simp only [List.length_append, List.length_take, List.length_drop, length_read]
    omega
  intro i hi _
  rw [length_read] at hi
  rw [getElem_read]
  have hlen : ((m.read a n).take k).length = k := by rw [List.length_take, length_read]; omega
  rcases Nat.lt_or_ge i k with hbefore | hbehind
  · rw [write_of_outside (.inl (by omega)), List.getElem_append_left (by simp; omega),
      List.getElem_append_left (by omega), List.getElem_take, getElem_read]
  rcases Nat.lt_or_ge i (k + l.length) with hwithin | hafter
  · obtain ⟨j, rfl⟩ := Nat.exists_eq_add_of_le hbehind
    rw [← Nat.add_assoc, write_of_inside (by omega), List.getElem_append_left (by simp; omega),
      List.getElem_append_right (by omega)]
    congr 1
    omega
  · rw [write_of_outside (.inr (by omega)), List.getElem_append_right (by simp; omega), List.getElem_drop,
      getElem_read]
    congr 1
    simp only [List.length_append, hlen]
    omega

end Memory
