import Mathlib.Algebra.Order.Ring.Int

/-!
# Slabs of counted blocks

The blocks of a slab count the references to them that are held elsewhere. A block that is allocated
has the right count, and there is no reference to one that is free (`Counted`); a step returns a block
only when its count is zero (`Returned`).

* `counted_of_ne`: what a step on one block has to show for that block alone.
-/

namespace Slab

/-- Whether a block is allocated, and its count. -/
structure Block where
  allocated : Bool
  count : ℤ

/-- A block agrees with the number of references that are held. -/
structure Block.Agrees (b : Block) (held : ℕ) : Prop where
  count : b.allocated = true → b.count = held
  free : b.allocated = false → held = 0

/-- A step changes a block, and leaves that number of references to it. -/
structure Block.Steps (b b' : Block) (held' : ℕ) : Prop where
  agrees : b'.Agrees held'
  returned : b.allocated = true → b'.allocated = false → b'.count = 0

variable {ι : Type*} {blocks blocks' : ι → Block} {held held' : ι → ℕ} {b : Block} {n : ℕ}

/-- Every block agrees with the references that are held. -/
def Counted (blocks : ι → Block) (held : ι → ℕ) : Prop := ∀ i, (blocks i).Agrees (held i)

/-- The blocks that a step returns have a count of zero. -/
def Returned (blocks blocks' : ι → Block) : Prop :=
  ∀ i, (blocks i).allocated = true → (blocks' i).allocated = false → (blocks' i).count = 0

theorem returned_refl (blocks : ι → Block) : Returned blocks blocks := by
  intro i h h'
  simp [h] at h'

/-- A block to which a reference is held is allocated. -/
theorem Block.Agrees.allocated (h : b.Agrees n) (hn : n ≠ 0) : b.allocated = true := by
  by_contra hne
  exact hn (h.free (by simpa using hne))

/-- A block that stays allocated. -/
theorem Block.Steps.of_allocated {b' : Block} (ha : b'.allocated = true) (hcount : b'.count = n) :
    b.Steps b' n := by
  refine ⟨⟨fun _ => hcount, ?_⟩, ?_⟩ <;> simp [ha]

/-- A block that is free afterwards. -/
theorem Block.Steps.of_free {b' : Block} (ha : b'.allocated = false) (hn : n = 0)
    (hcount : b'.count = 0) : b.Steps b' n := by
  refine ⟨⟨?_, fun _ => hn⟩, fun _ _ => hcount⟩
  simp [ha]

/-- A block whose state and count stay. -/
theorem Block.Agrees.steps (h : b.Agrees n) : b.Steps b n where
  agrees := h
  returned ha hne := by simp [ha] at hne

/-- What a step on one block preserves. -/
theorem counted_of_ne {i : ι} (h : Counted blocks held)
    (hne : ∀ j ≠ i, blocks' j = blocks j ∧ held' j = held j)
    (hi : (blocks i).Steps (blocks' i) (held' i)) :
    Counted blocks' held' ∧ Returned blocks blocks' := by
  refine ⟨fun j => ?_, fun j => ?_⟩ <;> by_cases hj : j = i
  · exact hj ▸ hi.agrees
  · rw [(hne j hj).1, (hne j hj).2]
    exact h j
  · exact hj ▸ hi.returned
  · rw [(hne j hj).1]
    exact returned_refl blocks j

end Slab
