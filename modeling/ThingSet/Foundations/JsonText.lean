import Mathlib.Algebra.BigOperators.Fin
import Mathlib.Algebra.Order.BigOperators.Group.Finset
import Mathlib.Data.List.OfFn
import ThingSet.Foundations.Json

/-!
# JSON texts

A value is a number, which is given by its literal, a string, an array or an object. White space may stand around
the values and keys of a text.

* `Value.IsText`: the texts of a value.
* `Bracketed.length_le`: a list between brackets is no shorter than its pieces, the commas and the brackets.
-/

namespace Json

open Finset

/-! ## Numbers -/

def IsDigit (c : UInt8) : Prop := 0x30 ≤ c ∧ c ≤ 0x39

/-- A zero, or digits that do not start with one. -/
def IsIntegerPart (t : List UInt8) : Prop :=
  t = [0x30] ∨ ∃ c cs, t = c :: cs ∧ 0x31 ≤ c ∧ c ≤ 0x39 ∧ ∀ d ∈ cs, IsDigit d

def IsFraction (t : List UInt8) : Prop :=
  t = [] ∨ ∃ cs, t = 0x2E :: cs ∧ cs ≠ [] ∧ ∀ d ∈ cs, IsDigit d

def IsExponent (t : List UInt8) : Prop :=
  t = [] ∨ ∃ e sign cs, t = e :: (sign ++ cs) ∧ (e = 0x65 ∨ e = 0x45) ∧
    (sign = [] ∨ sign = [0x2B] ∨ sign = [0x2D]) ∧ cs ≠ [] ∧ ∀ d ∈ cs, IsDigit d

/-- The literal of a number. -/
def IsNumber (t : List UInt8) : Prop :=
  ∃ sign int frac exp, t = sign ++ (int ++ (frac ++ exp)) ∧ (sign = [] ∨ sign = [0x2D]) ∧
    IsIntegerPart int ∧ IsFraction frac ∧ IsExponent exp

/-- An integer is a number. -/
theorem IsIntegerPart.isNumber {t : List UInt8} (h : IsIntegerPart t) : IsNumber t :=
  ⟨[], t, [], [], by simp, .inl rfl, h, .inl rfl, .inl rfl⟩

theorem IsIntegerPart.isNumber_minus {t : List UInt8} (h : IsIntegerPart t) : IsNumber (0x2D :: t) :=
  ⟨[0x2D], t, [], [], by simp, .inr rfl, h, .inl rfl, .inl rfl⟩

/-! ## Pieces between brackets -/

def IsBlank (t : List UInt8) : Prop := ∀ c ∈ t, c = 0x20 ∨ c = 0x09 ∨ c = 0x0A ∨ c = 0x0D

/-- A text with white space around it. -/
def Padded (P : List UInt8 → Prop) (t : List UInt8) : Prop :=
  ∃ a u b, IsBlank a ∧ IsBlank b ∧ P u ∧ t = a ++ (u ++ b)

/-- A key and a value. -/
def IsMember (key : List UInt8) (P : List UInt8 → Prop) (t : List UInt8) : Prop :=
  ∃ k v, Padded (Literal · key) k ∧ Padded P v ∧ t = k ++ 0x3A :: v

/-- Pieces with commas between them, in brackets. -/
def enclosed (opening closing : UInt8) (pieces : List (List UInt8)) : List UInt8 :=
  opening :: (([0x2C] : List UInt8).intercalate pieces ++ [closing])

/-- There may be white space where there is no piece. -/
def Bracketed (opening closing : UInt8) (pieces : List (List UInt8)) (t : List UInt8) : Prop :=
  t = enclosed opening closing pieces ∨ pieces = [] ∧ ∃ blank, IsBlank blank ∧ t = opening :: (blank ++ [closing])

section Length

variable {P : List UInt8 → Prop} {t key : List UInt8} {opening closing : UInt8}

theorem Padded.of (h : P t) : Padded P t := by
  refine ⟨[], t, [], ?_, ?_, h, (List.append_nil t).symm⟩
  · exact fun c hc => absurd hc List.not_mem_nil
  · exact fun c hc => absurd hc List.not_mem_nil

/-- A text with white space around it is longer than the text. -/
theorem Padded.length_le (h : Padded P t) : ∃ u, P u ∧ u.length ≤ t.length := by
  obtain ⟨a, u, b, -, -, hu, rfl⟩ := h
  refine ⟨u, hu, ?_⟩
  simp only [List.length_append]
  omega

theorem IsMember.length_le (h : IsMember key P t) :
    ∃ k u, Literal k key ∧ P u ∧ k.length + u.length + 1 ≤ t.length := by
  obtain ⟨k, v, hk, hv, rfl⟩ := h
  obtain ⟨k', hk', hkle⟩ := hk.length_le
  obtain ⟨u, hu, hle⟩ := hv.length_le
  refine ⟨k', u, hk', hu, ?_⟩
  simp only [List.length_append, List.length_cons]
  omega

theorem Literal.length_le {value : List UInt8} (h : Literal t value) : value.length + 2 ≤ t.length := by
  obtain ⟨body, rfl, hbody⟩ := h
  have hle := hbody.length_le
  simp only [List.length_cons, List.length_append, List.length_nil]
  omega

/-- A literal that is as long as what it denotes, with its quotes, has no escapes. -/
theorem Literal.plain_of_length {value : List UInt8} (h : Literal t value) (hlen : t.length = value.length + 2) :
    ∀ c ∈ value, IsPlain c := by
  obtain ⟨body, rfl, hbody⟩ := h
  apply hbody.plain_of_length
  simp only [List.length_cons, List.length_append, List.length_nil] at hlen
  omega

/-- A separator behind each piece, or between each two and one behind the last. -/
theorem flatMap_comma {pieces : List (List UInt8)} (hne : pieces ≠ []) :
    pieces.flatMap (· ++ [0x2C]) = ([0x2C] : List UInt8).intercalate pieces ++ [0x2C] := by
  induction pieces with
  | nil => exact absurd rfl hne
  | cons x pieces ih =>
    rw [List.flatMap_cons]
    rcases eq_or_ne pieces [] with rfl | hne
    · rw [List.flatMap_nil, List.append_nil, List.intercalate_singleton]
    · rw [ih hne, List.intercalate_cons_of_ne_nil hne, List.append_assoc, List.append_assoc, List.append_assoc]

theorem length_intercalate (pieces : List (List UInt8)) :
    (([0x2C] : List UInt8).intercalate pieces).length = (pieces.map List.length).sum + (pieces.length - 1) := by
  rcases eq_or_ne pieces [] with rfl | hne
  · rfl
  · have hsum : (pieces.flatMap (· ++ [0x2C])).length = (pieces.map List.length).sum + pieces.length := by
      induction pieces with
      | nil => rfl
      | cons x pieces ih =>
        rcases eq_or_ne pieces [] with rfl | hne'
        · simp
        · rw [List.flatMap_cons, List.length_append, ih hne', List.length_append, List.map_cons, List.sum_cons,
            List.length_singleton, List.length_cons]
          omega
    have hpos := List.length_pos_iff.2 hne
    rw [flatMap_comma hne, List.length_append, List.length_singleton] at hsum
    omega

/-- The pieces, a comma between each two, and the brackets. -/
theorem length_enclosed {size : ℕ} (piece : Fin size → List UInt8) :
    (enclosed opening closing (List.ofFn piece)).length = ∑ i, (piece i).length + (size - 1) + 2 := by
  rw [enclosed, List.length_cons, List.length_append, length_intercalate, List.map_ofFn, List.sum_ofFn,
    List.length_ofFn, List.length_singleton]
  rfl

theorem Bracketed.length_le {size : ℕ} {piece : Fin size → List UInt8}
    (h : Bracketed opening closing (List.ofFn piece) t) : ∑ i, (piece i).length + (size - 1) + 2 ≤ t.length := by
  rcases h with rfl | ⟨hnil, blank, -, rfl⟩
  · rw [length_enclosed]
  · obtain rfl := List.ofFn_eq_nil_iff.1 hnil
    simp

end Length

/-! ## Values -/

/-- A JSON value. A number is given by its literal. -/
inductive Value
  | number (literal : List UInt8)
  | string (value : List UInt8)
  | array (size : ℕ) (element : Fin size → Value)
  | object (size : ℕ) (key : Fin size → List UInt8) (value : Fin size → Value)

/-- The text is one of the value. -/
def Value.IsText : Value → List UInt8 → Prop
  | number literal, t => IsNumber literal ∧ t = literal
  | string value, t => Literal t value
  | array size element, t =>
    ∃ piece : Fin size → List UInt8, (∀ i, Padded (element i).IsText (piece i)) ∧
      Bracketed 0x5B 0x5D (List.ofFn piece) t
  | object size key value, t =>
    ∃ piece : Fin size → List UInt8, (∀ i, IsMember (key i) (value i).IsText (piece i)) ∧
      Bracketed 0x7B 0x7D (List.ofFn piece) t

end Json
