import Mathlib.Algebra.Group.Int.Defs
import Mathlib.Algebra.Group.Nat.Defs
import Mathlib.Data.Int.Notation
import Mathlib.Data.Nat.Digits.Defs
import Mathlib.Data.Nat.Notation
import Mathlib.Tactic.Set

/-!
# Functions of the C library

The functions on strings that the code calls, on lists of bytes: the memory from the pointer on.
Where a list ends, nothing is known of the memory; it is read as NUL.

* `numeral_congr`: the characters that `strtoul` and `strtol` look at decide what they return.
* `isLiteral_congr`: the same for a comparison with a literal.
-/

namespace ThingSet

/-- A sequence of bytes: a message, a string, a name. -/
abbrev Bytes := List UInt8

/-- `SIZE_MAX` on a 64-bit target. -/
def sizeMax : ℕ := 18446744073709551615

/-- An `int` as a `size_t`. -/
def toSize (i : ℤ) : ℕ := (i % 2 ^ 64).toNat

theorem toSize_natCast {n : ℕ} (hn : n < 2 ^ 64) : toSize n = n := by
  rw [toSize, Int.emod_eq_of_lt (by omega) (by omega), Int.toNat_natCast]

/-- An `int` as a `uint32_t`. -/
def toUint32 (i : ℤ) : ℕ := (i % 4294967296).toNat

theorem toUint32_natCast {n : ℕ} (hn : n < 4294967296) : toUint32 n = n := by
  rw [toUint32, Int.emod_eq_of_lt (by omega) (by omega), Int.toNat_natCast]

/-- An `int` as an unsigned bit field of twelve bits. -/
def toUint12 (i : ℤ) : ℕ := (i % 4096).toNat

theorem toUint12_sub {m n : ℕ} (hle : n ≤ m) (hm : m < 4096) : toUint12 (m - n) = m - n := by
  rw [toUint12]
  omega

/-- `strncpy(value, src, n)`: the characters up to a NUL, then NULs, `n` bytes in all. -/
def strncpy (src : Bytes) (n : ℕ) : Bytes :=
  let text := (src.take n).takeWhile (· ≠ 0)
  text ++ List.replicate (n - text.length) 0

/-- `memcpy(&buffer[pos], src, n)`. -/
def memcpy (buffer : Bytes) (pos : ℕ) (src : Bytes) (n : ℕ) : Bytes :=
  buffer.take pos ++ src.take n ++ buffer.drop (pos + n)

/-- `snprintf(&memory[pos], n, ..)` of a text, where `n` bytes are left behind `pos`: the text is cut where it
has no room, and a NUL is put behind it. -/
def snprintf (memory : Bytes) (pos : ℕ) (text : Bytes) : Bytes :=
  let n := memory.length - pos
  let written := text.take (n - 1) ++ [0]
  if n = 0 then memory else memcpy memory pos written written.length

/-- `memchr(src, c, n)`, as an offset. -/
def memchr (src : Bytes) (c : UInt8) (n : ℕ) : Option ℕ := (src.take n).findIdx? (· = c)

/-! ## Numbers -/

/-- `isdigit`. -/
def isDigit (c : UInt8) : Bool := 0x30 ≤ c ∧ c ≤ 0x39

/-- `isspace`. -/
def isSpace (c : UInt8) : Bool := c = 0x20 ∨ (0x09 ≤ c ∧ c ≤ 0x0D)

/-- The first digits of a string as a number. -/
def digitsValue (s : Bytes) : ℕ :=
  (s.takeWhile isDigit).foldl (fun n c => 10 * n + (c.toNat - 0x30)) 0

/-- `atoi` of a string that starts with a digit, and the assignment to a `size_t`: a number that
is too large for `strtol` is its largest value, whose low bits are taken. -/
def atoi (s : Bytes) : ℕ := toSize (Int.bmod (min (digitsValue s) (2 ^ 63 - 1) : ℕ) (2 ^ 32))

/-- `%u`. -/
def decimal (n : ℕ) : Bytes :=
  if n = 0 then [0x30] else (Nat.digits 10 n).reverse.map fun d => .ofNat (0x30 + d)

/-- `%i`. -/
def signedDecimal (i : ℤ) : Bytes := if i < 0 then 0x2D :: decimal i.natAbs else decimal i.natAbs

/-- What `strtoul` and `strtol` find: the characters before the digits (white space and a sign),
whether the sign is a minus, and the digits. -/
structure Numeral where
  before : ℕ
  negative : Bool
  digits : Bytes
  deriving DecidableEq, Repr

/-- The number at the start of a text. -/
def numeral (text : Bytes) : Numeral :=
  let spaces := (text.takeWhile isSpace).length
  let signed := text.drop spaces
  let sign := if signed.headD 0 = 0x2B ∨ signed.headD 0 = 0x2D then 1 else 0
  ⟨spaces + sign, signed.headD 0 = 0x2D, (signed.drop sign).takeWhile isDigit⟩

namespace Numeral

variable (n : Numeral)

/-- `endptr - nptr`: without digits nothing is consumed. -/
def consumed : ℕ := if n.digits = [] then 0 else n.before + n.digits.length

/-- The characters that are looked at: those of the number and one more. -/
def examined : ℕ := n.before + n.digits.length + 1

/-- The result of `strtoul`, of a 64-bit `unsigned long`. -/
def unsigned : ℕ :=
  if 2 ^ 64 ≤ digitsValue n.digits then 2 ^ 64 - 1
  else if n.negative then (2 ^ 64 - digitsValue n.digits) % 2 ^ 64
  else digitsValue n.digits

/-- The result of `strtol`, of a 64-bit `long`. -/
def signed : ℤ :=
  if n.negative then max (-digitsValue n.digits) (-2 ^ 63)
  else min (digitsValue n.digits) (2 ^ 63 - 1)

end Numeral

/-- `strtoul` in base 10, and the number of characters that it consumes. -/
def strtoul (text : Bytes) : ℕ × ℕ := ((numeral text).unsigned, (numeral text).consumed)

/-- `strtol` in base 10, and the number of characters that it consumes. -/
def strtol (text : Bytes) : ℤ × ℕ := ((numeral text).signed, (numeral text).consumed)

/-- `strtod`, with the number of characters that it consumes and of those that it looks at.
Doubles are bit patterns. -/
structure Strtod where
  convert : Bytes → UInt64 × ℕ
  examined : Bytes → ℕ
  convert_congr : ∀ text text' : Bytes,
    text.take (examined text) = text'.take (examined text) → convert text' = convert text

/-- `strtod` on texts that start with no number. -/
def strtodNone : Strtod where
  convert _ := (0, 0)
  examined _ := 1
  convert_congr _ _ _ := rfl

/-! ## Literals -/

/-- `strncmp(text, literal, strlen(literal)) == 0`. -/
def isLiteral : Bytes → Bytes → Bool
  | [], _ => true
  | c :: literal, text => text.headD 0 = c && isLiteral literal text.tail

/-- The characters that the comparison looks at: up to the first that differs. -/
def literalExamined : Bytes → Bytes → ℕ
  | [], _ => 0
  | c :: literal, text => if text.headD 0 = c then literalExamined literal text.tail + 1 else 1

/-! ## Numbers that are printed -/

theorem isDigit_ofNat : ∀ d < 10, isDigit (.ofNat (0x30 + d)) = true := by decide

theorem isDigit_of_mem_decimal {n : ℕ} {c : UInt8} (hc : c ∈ decimal n) : isDigit c = true := by
  rw [decimal] at hc
  split at hc
  · rw [List.mem_singleton.1 hc]
    rfl
  · obtain ⟨d, hd, rfl⟩ := List.mem_map.1 hc
    exact isDigit_ofNat d (Nat.digits_lt_base (by decide) (List.mem_reverse.1 hd))

theorem decimal_ne_nil (n : ℕ) : decimal n ≠ [] := by
  rw [decimal]
  split
  · exact List.cons_ne_nil _ _
  · rename_i hn
    simpa [List.map_eq_nil_iff] using Nat.digits_ne_nil_iff_ne_zero.2 hn

/-- The digits at the start of a text. -/
theorem takeWhile_digits {digits rest : Bytes} (hdigits : ∀ c ∈ digits, isDigit c = true)
    (hrest : isDigit (rest.headD 0) = false) : (digits ++ rest).takeWhile isDigit = digits := by
  rw [List.takeWhile_append_of_pos hdigits]
  cases rest with
  | nil => simp
  | cons c rest => simp_all

/-- The digits of a number that is printed. -/
theorem takeWhile_decimal (n : ℕ) {rest : Bytes} (hrest : isDigit (rest.headD 0) = false) :
    (decimal n ++ rest).takeWhile isDigit = decimal n :=
  takeWhile_digits (fun _ => isDigit_of_mem_decimal) hrest

/-- The value of the digits of a number. -/
theorem foldr_digits (ds : List ℕ) (hlt : ∀ d ∈ ds, d < 10) :
    ds.foldr (fun d n => 10 * n + ((UInt8.ofNat (0x30 + d)).toNat - 0x30)) 0 = Nat.ofDigits 10 ds := by
  induction ds with
  | nil => rfl
  | cons d ds ih =>
    have hd := hlt d List.mem_cons_self
    rw [List.foldr_cons, ih fun d hd => hlt d (List.mem_cons_of_mem _ hd), Nat.ofDigits_cons,
      UInt8.toNat_ofNat']
    omega

theorem digitsValue_decimal (n : ℕ) : digitsValue (decimal n) = n := by
  have htake : (decimal n).takeWhile isDigit = decimal n := by
    simpa using takeWhile_decimal n (show isDigit (([] : Bytes).headD 0) = false from rfl)
  rw [digitsValue, htake, decimal]
  split
  · subst_vars
    rfl
  · rw [List.map_reverse, List.foldl_reverse, List.foldr_map,
      foldr_digits _ fun _ => Nat.digits_lt_base (by decide), Nat.ofDigits_digits]

/-- A digit is no white space and no sign. -/
theorem not_sign_of_isDigit {c : UInt8} (hc : isDigit c = true) : isSpace c = false ∧ c ≠ 0x2B ∧ c ≠ 0x2D := by
  simp only [isDigit, isSpace, UInt8.le_iff_toNat_le, ← UInt8.toNat_inj, decide_eq_true_eq, ne_eq,
    decide_eq_false_iff_not, UInt8.reduceToNat] at hc ⊢
  omega

/-- A number without a sign. -/
theorem numeral_digits {digits rest : Bytes} (hne : digits ≠ []) (hdigits : ∀ c ∈ digits, isDigit c = true)
    (hrest : isDigit (rest.headD 0) = false) : numeral (digits ++ rest) = ⟨0, false, digits⟩ := by
  obtain ⟨c, cs, rfl⟩ := List.exists_cons_of_ne_nil hne
  obtain ⟨hspace, hplus, hminus⟩ := not_sign_of_isDigit (hdigits c List.mem_cons_self)
  have htake := takeWhile_digits hdigits hrest
  rw [List.cons_append] at htake ⊢
  have hspaces : (c :: (cs ++ rest)).takeWhile isSpace = [] := by
    rw [List.takeWhile_cons, hspace]
    rfl
  simp only [numeral, hspaces, List.length_nil, List.drop_zero, List.headD_cons, hplus, hminus, or_self, if_false,
    decide_false, Nat.add_zero, htake]

/-- A number with a minus. -/
theorem numeral_minus_digits {digits rest : Bytes} (hdigits : ∀ c ∈ digits, isDigit c = true)
    (hrest : isDigit (rest.headD 0) = false) : numeral (0x2D :: digits ++ rest) = ⟨1, true, digits⟩ := by
  have hspaces : (0x2D :: (digits ++ rest)).takeWhile isSpace = [] := rfl
  rw [List.cons_append]
  simp only [numeral, hspaces, List.length_nil, List.drop_zero, List.headD_cons, or_true, if_true,
    decide_true, Nat.zero_add, List.drop_succ_cons, takeWhile_digits hdigits hrest]

theorem numeral_decimal (n : ℕ) {rest : Bytes} (hrest : isDigit (rest.headD 0) = false) :
    numeral (decimal n ++ rest) = ⟨0, false, decimal n⟩ :=
  numeral_digits (decimal_ne_nil n) (fun _ => isDigit_of_mem_decimal) hrest

theorem numeral_minus (n : ℕ) {rest : Bytes} (hrest : isDigit (rest.headD 0) = false) :
    numeral (0x2D :: decimal n ++ rest) = ⟨1, true, decimal n⟩ :=
  numeral_minus_digits (fun _ => isDigit_of_mem_decimal) hrest

/-- **`strtoul` reads the number that is printed.** -/
theorem strtoul_decimal {n : ℕ} (hn : n < 2 ^ 64) {rest : Bytes}
    (hrest : isDigit (rest.headD 0) = false) :
    strtoul (decimal n ++ rest) = (n, (decimal n).length) := by
  rw [strtoul, numeral_decimal n hrest, Numeral.unsigned, Numeral.consumed, digitsValue_decimal,
    if_neg (by omega), if_neg (decimal_ne_nil n), Nat.zero_add]
  rfl

/-- **`strtol` reads the number that is printed.** -/
theorem strtol_signedDecimal {i : ℤ} (hi : -2 ^ 63 ≤ i ∧ i < 2 ^ 63) {rest : Bytes}
    (hrest : isDigit (rest.headD 0) = false) :
    strtol (signedDecimal i ++ rest) = (i, (signedDecimal i).length) := by
  rw [strtol, signedDecimal]
  split
  · rw [numeral_minus _ hrest, Numeral.signed, Numeral.consumed, digitsValue_decimal,
      if_neg (decimal_ne_nil _), List.length_cons, Nat.add_comm 1]
    simp only [if_true, Prod.mk.injEq, and_true]
    omega
  · rw [numeral_decimal _ hrest, Numeral.signed, Numeral.consumed, digitsValue_decimal,
      if_neg (decimal_ne_nil _), Nat.zero_add]
    simp only [Bool.false_eq_true, if_false, Prod.mk.injEq, and_true]
    omega

/-! ## What a text's prefix decides -/

/-- A prefix decides every stretch within it. -/
theorem take_drop_of_take {α : Type} {l l' : List α} {k m n : ℕ} (h : l.take n = l'.take n)
    (hm : k + m ≤ n) : (l.drop k).take m = (l'.drop k).take m := by
  have htake : ((l.take n).drop k).take m = ((l'.take n).drop k).take m := by rw [h]
  rwa [List.drop_take, List.drop_take, List.take_take, List.take_take,
    Nat.min_eq_left (by omega : m ≤ n - k)] at htake

theorem headD_of_take {l l' : Bytes} (h : l.take 1 = l'.take 1) : l'.headD 0 = l.headD 0 := by
  cases l <;> cases l' <;> simp_all

/-- `takeWhile` looks at one element more than it takes. -/
theorem takeWhile_of_take {α : Type} {p : α → Bool} {l l' : List α}
    (h : l.take ((l.takeWhile p).length + 1) = l'.take ((l.takeWhile p).length + 1)) :
    l'.takeWhile p = l.takeWhile p := by
  induction l generalizing l' with
  | nil =>
    obtain rfl : l' = [] := by cases l' <;> simp_all
    rfl
  | cons c l ih =>
    obtain ⟨l', rfl⟩ : ∃ l₁, l' = c :: l₁ := by
      cases l' with
      | nil => simp at h
      | cons c' l' =>
        obtain ⟨rfl, -⟩ := List.cons.inj h
        exact ⟨l', rfl⟩
    cases hc : p c with
    | false => simp [hc]
    | true =>
      simp only [List.takeWhile_cons, hc, if_true, List.length_cons] at h ⊢
      rw [ih (List.cons.inj h).2]

/-- **The number at the start of a text depends on the characters that are looked at.** -/
theorem numeral_congr {text text' : Bytes}
    (h : text.take (numeral text).examined = text'.take (numeral text).examined) :
    numeral text' = numeral text := by
  have hspaces : text'.takeWhile isSpace = text.takeWhile isSpace := by
    refine takeWhile_of_take ?_
    simpa using take_drop_of_take (k := 0) h (by simp [Numeral.examined, numeral]; omega)
  simp only [numeral] at h
  set spaces := (text.takeWhile isSpace).length with hlen
  set sign := if (text.drop spaces).headD 0 = 0x2B ∨ (text.drop spaces).headD 0 = 0x2D then 1 else 0
    with hsign
  have hhead : (text'.drop spaces).headD 0 = (text.drop spaces).headD 0 :=
    headD_of_take (take_drop_of_take h (by simp only [Numeral.examined]; omega))
  have hdigits : ((text'.drop spaces).drop sign).takeWhile isDigit =
      ((text.drop spaces).drop sign).takeWhile isDigit := by
    refine takeWhile_of_take ?_
    rw [List.drop_drop, List.drop_drop]
    rw [List.drop_drop] at h
    exact take_drop_of_take h (by simp only [Numeral.examined]; omega)
  simp only [numeral, hspaces, ← hlen, hhead, ← hsign, hdigits]

theorem strncpy_congr {src src' : Bytes} {n : ℕ} (h : src.take n = src'.take n) :
    strncpy src' n = strncpy src n := by
  rw [strncpy, strncpy, h]

/-- A comparison with a literal depends on the characters that are looked at. -/
theorem isLiteral_congr (literal : Bytes) {text text' : Bytes}
    (h : text.take (literalExamined literal text) = text'.take (literalExamined literal text)) :
    isLiteral literal text' = isLiteral literal text := by
  induction literal generalizing text text' with
  | nil => rfl
  | cons c literal ih =>
    simp only [literalExamined] at h
    have hhead : text'.headD 0 = text.headD 0 :=
      headD_of_take (by
        simpa using take_drop_of_take (k := 0) (m := 1) h (by split <;> omega))
    simp only [isLiteral, hhead]
    by_cases hc : text.headD 0 = c
    · rw [if_pos hc] at h
      have htail : text.tail.take (literalExamined literal text.tail) =
          text'.tail.take (literalExamined literal text.tail) := by
        simpa using take_drop_of_take (k := 1) (m := literalExamined literal text.tail) h (by omega)
      rw [ih htail]
    · simp only [decide_eq_false hc, Bool.false_and]

end ThingSet
