import Mathlib.Data.Nat.Notation

/-!
# Bit fields

A field of a word is the set of its bits, as a mask. A value is inserted into a field under its mask.

* `get_insert`: what was inserted is read back.
* `get_insert_of_disjoint`: a field that shares no bit with another is not changed by it.
-/

namespace BitField

variable {w : ℕ}

/-- The bits of a field. -/
def get (mask word : BitVec w) : BitVec w := word &&& mask

/-- The word with other bits in a field. -/
def insert (mask value word : BitVec w) : BitVec w := (word &&& ~~~mask) ||| value

/-- The value has no bits outside the field. -/
def Fits (mask value : BitVec w) : Prop := value &&& mask = value

instance (mask value : BitVec w) : Decidable (Fits mask value) :=
  inferInstanceAs (Decidable (value &&& mask = value))

theorem fits_and (mask value : BitVec w) : Fits mask (value &&& mask) := by
  rw [Fits, BitVec.and_assoc, BitVec.and_self]

variable {mask mask' value word : BitVec w}

theorem Fits.getElem (h : Fits mask value) {i : ℕ} (hi : i < w) : (value[i] && mask[i]) = value[i] := by
  have hbit := congrArg (fun x : BitVec w => x[i]) h
  rwa [BitVec.getElem_and] at hbit

/-- A value is inserted and read. -/
theorem get_insert (h : Fits mask value) : get mask (insert mask value word) = value := by
  rw [get, insert]
  ext i hi
  have hbit := h.getElem hi
  simp only [BitVec.getElem_and, BitVec.getElem_or, BitVec.getElem_not]
  rw [Bool.and_or_distrib_right, Bool.and_assoc, Bool.not_and_self, Bool.and_false, Bool.false_or, hbit]

/-- Another field is read. -/
theorem get_insert_of_disjoint (hdisjoint : mask &&& mask' = 0#w) (h : Fits mask' value) :
    get mask (insert mask' value word) = get mask word := by
  rw [get, get, insert]
  ext i hi
  have hbit := h.getElem hi
  have hzero : (mask[i] && mask'[i]) = false := by
    have := congrArg (fun x : BitVec w => x[i]) hdisjoint
    simpa only [BitVec.getElem_and, BitVec.getElem_zero] using this
  simp only [BitVec.getElem_and, BitVec.getElem_or, BitVec.getElem_not]
  revert hbit hzero
  cases word[i] <;> cases value[i] <;> cases mask[i] <;> cases mask'[i] <;> decide

/-- Two words agree in two fields. -/
theorem get_or_inj {x y : BitVec w} :
    get (mask ||| mask') x = get (mask ||| mask') y ↔ get mask x = get mask y ∧ get mask' x = get mask' y := by
  simp only [get]
  constructor
  · intro h
    have hbit : ∀ i (hi : i < w), (x[i] && (mask[i] || mask'[i])) = (y[i] && (mask[i] || mask'[i])) := by
      intro i hi
      simpa only [BitVec.getElem_and, BitVec.getElem_or] using congrArg (fun x : BitVec w => x[i]) h
    constructor <;> ext i hi <;> specialize hbit i hi <;> simp only [BitVec.getElem_and] <;> revert hbit <;>
      cases x[i] <;> cases y[i] <;> cases mask[i] <;> cases mask'[i] <;> decide
  · rintro ⟨h, h'⟩
    rw [BitVec.and_or_distrib_left, BitVec.and_or_distrib_left, h, h']

/-- A value is read where it was put. -/
theorem setWidth_ushiftRight_shiftLeft {k : ℕ} {v : BitVec k} {pos : ℕ} (hpos : pos + k ≤ w) :
    ((v.setWidth w <<< pos) >>> pos).setWidth k = v := by
  ext i hi
  simp only [BitVec.getElem_setWidth, BitVec.getLsbD_ushiftRight, BitVec.getLsbD_shiftLeft,
    BitVec.getLsbD_setWidth]
  rw [Nat.add_sub_cancel_left, decide_eq_true (show pos + i < w by omega),
    decide_eq_false (show ¬ pos + i < pos by omega), decide_eq_true (show i < w by omega)]
  exact (BitVec.getLsbD_eq_getElem hi)

end BitField
