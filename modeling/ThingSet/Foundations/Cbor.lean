import Mathlib.Algebra.Group.Int.Defs
import Mathlib.Algebra.Group.Nat.Defs
import Mathlib.Data.Nat.Notation
import Mathlib.Data.Nat.Basic

/-!
# Heads of CBOR data items

A data item starts with a head: three bits of major type, five of additional information and up
to eight bytes of argument, most significant first. `writeHead` is the shortest form,
`readHead` reads any form, and `readHead_writeHead` is their round trip. An integer is a head
(`writeInt`).
-/

namespace Cbor

/-- The head of a data item; an item of indefinite length has no argument. -/
structure Head where
  major : ℕ
  argument : Option ℕ
  deriving DecidableEq, Repr

/-! ## Big-endian arguments -/

/-- The `k` bytes of `n`, most significant first. -/
def beBytes : ℕ → ℕ → List UInt8
  | 0, _ => []
  | k + 1, n => beBytes k (n / 256) ++ [UInt8.ofNat n]

/-- The number that a list of bytes denotes, most significant byte first. -/
def beValue (l : List UInt8) : ℕ := l.foldl (fun acc b => 256 * acc + b.toNat) 0

@[simp] theorem length_beBytes (k n : ℕ) : (beBytes k n).length = k := by
  induction k generalizing n with
  | zero => rfl
  | succ k ih => simp [beBytes, ih]

theorem beValue_append_singleton (l : List UInt8) (b : UInt8) :
    beValue (l ++ [b]) = 256 * beValue l + b.toNat := by
  simp [beValue]

theorem beValue_beBytes (k n : ℕ) (h : n < 256 ^ k) : beValue (beBytes k n) = n := by
  induction k generalizing n with
  | zero =>
    obtain rfl : n = 0 := by simpa using h
    rfl
  | succ k ih =>
    have hdiv : n / 256 < 256 ^ k := by
      rw [Nat.pow_succ] at h
      exact Nat.div_lt_of_lt_mul (by omega)
    rw [beBytes, beValue_append_singleton, ih _ hdiv]
    have : (UInt8.ofNat n).toNat = n % 256 := by simp [UInt8.toNat_ofNat']
    omega

/-! ## Heads -/

/-- The shortest head of major type `major` with argument `n < 2 ^ 64`. -/
def writeHead (major n : ℕ) : List UInt8 :=
  if n < 24 then [UInt8.ofNat (32 * major + n)]
  else if n < 256 then UInt8.ofNat (32 * major + 24) :: beBytes 1 n
  else if n < 65536 then UInt8.ofNat (32 * major + 25) :: beBytes 2 n
  else if n < 4294967296 then UInt8.ofNat (32 * major + 26) :: beBytes 4 n
  else UInt8.ofNat (32 * major + 27) :: beBytes 8 n

/-- Read an argument of `k` bytes. -/
def readArgument (major k : ℕ) (rest : List UInt8) : Option (Head × List UInt8) :=
  if rest.length < k then none
  else some (⟨major, some (beValue (rest.take k))⟩, rest.drop k)

/-- Read a head, and what follows it. -/
def readHead : List UInt8 → Option (Head × List UInt8)
  | [] => none
  | b :: rest =>
    let major := b.toNat / 32
    let info := b.toNat % 32
    if info < 24 then some (⟨major, some info⟩, rest)
    else if info = 24 then readArgument major 1 rest
    else if info = 25 then readArgument major 2 rest
    else if info = 26 then readArgument major 4 rest
    else if info = 27 then readArgument major 8 rest
    else if info = 31 then some (⟨major, none⟩, rest)
    else none

theorem readArgument_beBytes (major k n : ℕ) (h : n < 256 ^ k) (rest : List UInt8) :
    readArgument major k (beBytes k n ++ rest) = some (⟨major, some n⟩, rest) := by
  have hlen : ¬ (beBytes k n ++ rest).length < k := by simp
  rw [readArgument, if_neg hlen, List.take_left' (length_beBytes k n),
    List.drop_left' (length_beBytes k n), beValue_beBytes k n h]

/-- The first byte of a head splits into the major type and the additional information. -/
theorem toNat_firstByte {major info : ℕ} (hm : major < 8) (hi : info < 32) :
    (UInt8.ofNat (32 * major + info)).toNat / 32 = major ∧
      (UInt8.ofNat (32 * major + info)).toNat % 32 = info := by
  have h : (UInt8.ofNat (32 * major + info)).toNat = 32 * major + info := by
    rw [UInt8.toNat_ofNat']
    omega
  rw [h]
  omega

theorem readHead_cons {major info : ℕ} (hm : major < 8) (hi : info < 32) (rest : List UInt8) :
    readHead (UInt8.ofNat (32 * major + info) :: rest) =
      if info < 24 then some (⟨major, some info⟩, rest)
      else if info = 24 then readArgument major 1 rest
      else if info = 25 then readArgument major 2 rest
      else if info = 26 then readArgument major 4 rest
      else if info = 27 then readArgument major 8 rest
      else if info = 31 then some (⟨major, none⟩, rest)
      else none := by
  obtain ⟨hmajor, hinfo⟩ := toNat_firstByte hm hi
  simp only [readHead, hmajor, hinfo]

/-- **Round trip of heads.** -/
theorem readHead_writeHead {major n : ℕ} (hm : major < 8) (hn : n < 2 ^ 64)
    (rest : List UInt8) :
    readHead (writeHead major n ++ rest) = some (⟨major, some n⟩, rest) := by
  unfold writeHead
  split_ifs with h₁ h₂ h₃ h₄
  · rw [List.singleton_append, readHead_cons hm (by omega), if_pos h₁]
  · rw [List.cons_append, readHead_cons hm (by omega)]
    exact readArgument_beBytes major 1 n (by omega) rest
  · rw [List.cons_append, readHead_cons hm (by omega)]
    exact readArgument_beBytes major 2 n (by omega) rest
  · rw [List.cons_append, readHead_cons hm (by omega)]
    exact readArgument_beBytes major 4 n (by omega) rest
  · rw [List.cons_append, readHead_cons hm (by omega)]
    exact readArgument_beBytes major 8 n (by omega) rest

/-- What follows a head is the end of the bytes behind the first. -/
theorem suffix_of_readHead_cons {b : UInt8} {l rest : List UInt8} {h : Head} (hl : readHead (b :: l) = some (h, rest)) :
    rest <:+ l := by
  have hargument : ∀ major k, readArgument major k l = some (h, rest) → rest <:+ l := by
    intro major k hk
    unfold readArgument at hk
    split at hk
    · cases hk
    · obtain ⟨-, rfl⟩ := Prod.mk.inj (Option.some.inj hk)
      exact List.drop_suffix k l
  unfold readHead at hl
  dsimp only at hl
  split_ifs at hl
  · obtain ⟨-, rfl⟩ := Prod.mk.inj (Option.some.inj hl)
    exact List.suffix_rfl
  · exact hargument _ _ hl
  · exact hargument _ _ hl
  · exact hargument _ _ hl
  · exact hargument _ _ hl
  · obtain ⟨-, rfl⟩ := Prod.mk.inj (Option.some.inj hl)
    exact List.suffix_rfl

theorem readHead_suffix {l rest : List UInt8} {h : Head} (hl : readHead l = some (h, rest)) : rest <:+ l := by
  cases l with
  | nil => cases hl
  | cons b l => exact (suffix_of_readHead_cons hl).trans (List.suffix_cons b l)

theorem length_lt_of_readHead {l rest : List UInt8} {h : Head} (hl : readHead l = some (h, rest)) :
    rest.length < l.length := by
  cases l with
  | nil => cases hl
  | cons b l => exact Nat.lt_succ_of_le (suffix_of_readHead_cons hl).length_le

theorem length_writeHead_le {n : ℕ} (major : ℕ) (hn : n < 65536) :
    (writeHead major n).length ≤ 3 := by
  unfold writeHead
  split_ifs <;> simp

theorem writeHead_ne_nil (major n : ℕ) : writeHead major n ≠ [] := by
  unfold writeHead
  split_ifs <;> simp

/-! ## Integers -/

/-- An integer in its shortest form: major type 0 for the natural numbers, 1 for the others. -/
def writeInt : ℤ → List UInt8
  | .ofNat n => writeHead 0 n
  | .negSucc n => writeHead 1 n

/-- The head of an integer. -/
def intHead : ℤ → Head
  | .ofNat n => ⟨0, some n⟩
  | .negSucc n => ⟨1, some n⟩

/-- The integers that CBOR represents. -/
def IsWireInt (n : ℤ) : Prop := -2 ^ 64 ≤ n ∧ n < 2 ^ 64

instance (n : ℤ) : Decidable (IsWireInt n) := inferInstanceAs (Decidable (_ ∧ _))

theorem readHead_writeInt {n : ℤ} (hn : IsWireInt n) (rest : List UInt8) :
    readHead (writeInt n ++ rest) = some (intHead n, rest) := by
  obtain ⟨hlo, hhi⟩ := hn
  cases n with
  | ofNat n => exact readHead_writeHead (by omega) (by grind) rest
  | negSucc n => exact readHead_writeHead (by omega) (by grind) rest

end Cbor
