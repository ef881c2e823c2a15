import Mathlib.Data.List.Infix

/-!
# The first occurrence of a list in a list

`search` is where a list first occurs in another, or the end of this; `search_le`: no occurrence is before it.
-/

namespace List

variable {α : Type} [DecidableEq α]

/-- Where `needle` first occurs in a list, or the length of the list. -/
def search : List α → List α → ℕ
  | [], _ => 0
  | x :: xs, needle => if needle.isPrefixOf (x :: xs) then 0 else search xs needle + 1

variable {needle xs : List α} {i : ℕ}

theorem search_le (h : needle <+: xs.drop i) : xs.search needle ≤ i := by
  induction xs generalizing i with
  | nil => exact Nat.zero_le i
  | cons x xs ih =>
    rw [search]
    split
    · exact Nat.zero_le i
    · rename_i hstarts
      cases i with
      | zero => exact absurd ( isPrefixOf_iff_prefix.2 h) hstarts
      | succ i => exact Nat.succ_le_succ (ih h)

end List
