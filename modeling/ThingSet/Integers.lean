import ThingSet.BinaryDecoder
import ThingSet.BinaryEncoder

/-!
# Integers on the wire

CBOR does not tell the integer types apart, so `decode` of a narrow type decodes a 32-bit integer and
compares it with the bound of the type. The comparison is strict, and there is none with the lower bound.

* `Misread`: the largest value of a narrow type is refused, and an integer below a narrow signed type that
  fits into 32 bits is accepted and wrapped.
* `decode_narrow_iff`: every other integer is decoded right.
* `decode_encode_iff`: a value of any integer type is decoded from its own encoding, unless it is the largest
  one of a narrow type.
-/

namespace ThingSet

open Interaction Prog

/-- The integer types. -/
inductive IntegerType
  | unsigned (w : IntWidth)
  | signed (w : IntWidth)
  deriving DecidableEq, Repr

namespace IntegerType

/-- The smallest value. -/
def min : IntegerType → ℤ
  | unsigned _ => 0
  | signed w => -2 ^ (w.bits - 1)

/-- The largest value. -/
def max : IntegerType → ℤ
  | unsigned w => 2 ^ w.bits - 1
  | signed w => 2 ^ (w.bits - 1) - 1

/-- The values of a type. -/
def InRange (t : IntegerType) (n : ℤ) : Prop := t.min ≤ n ∧ n ≤ t.max

instance (t : IntegerType) (n : ℤ) : Decidable (t.InRange n) := inferInstanceAs (Decidable (_ ∧ _))

/-- The types that zcbor has no decoding function for. -/
def IsNarrow : IntegerType → Prop
  | unsigned w | signed w => w = .w8 ∨ w = .w16

/-- `ThingSetBinaryEncoder::encode` of a value. -/
def encode (E : ZcborEncode) : IntegerType → ℤ → ZcborEncodeState → Bool × ZcborEncodeState
  | unsigned w, v => binaryEncoder E (.uint w v.toNat)
  | signed w, v => binaryEncoder E (.int w v)

/-- What `ThingSetBinaryDecoder::decode` stores, when it returns true. -/
def decode (o : BinaryDecoderOptions) : IntegerType → ZcborState → Option ℤ
  | unsigned w, s => (binaryDecoder o (.uint w) s).1.map Int.ofNat
  | signed w, s => (binaryDecoder o (.int w) s).1

/-- The integers that `decode` of a narrow type gets wrong. -/
def Misread : IntegerType → ℤ → Prop
  | unsigned w, n => n = (unsigned w).max
  | signed w, n => n = (signed w).max ∨ -2 ^ 31 ≤ n ∧ n < (signed w).min

theorem zero_le_max (t : IntegerType) : 0 ≤ t.max := by
  cases t <;> rename_i w <;> cases w <;> decide

/-- A narrow signed type is within the 32-bit integers. -/
theorem signed_bounds {w : IntWidth} (hw : (signed w).IsNarrow) :
    -2 ^ 31 ≤ (signed w).min ∧ (signed w).min ≤ (signed w).max := by
  rcases hw with rfl | rfl <;> decide

/-- Nothing is lost of a value of a signed type when it is narrowed to the type. -/
theorem bmod_of_inRange {w : IntWidth} {n : ℤ} (hn : (signed w).InRange n) :
    n.bmod (2 ^ w.bits) = n := by
  obtain ⟨hlo, hhi⟩ := hn
  apply Int.bmod_eq_of_le <;> cases w <;>
    simp only [min, max, IntWidth.bits] at hlo hhi ⊢ <;> omega

section Narrow

variable {o : BinaryDecoderOptions} (ho : o.zcbor.IntegerLaws) {s : ZcborState} {n : ℤ}
  (hs : s.EncodesInt n)

include ho hs

/-- `decode(uint8_t *)` and `decode(uint16_t *)`, where an integer is encoded. -/
theorem narrowUInt_encodesInt (bound : ℕ) (hbound : bound < 2 ^ 32) :
    (BinaryDecoder.narrowUInt o bound s).1 = if 0 ≤ n ∧ n < bound then some n.toNat else none := by
  have hdecode := ho.uint32 s n hs
  unfold BinaryDecoder.narrowUInt
  rcases hr : o.zcbor.uint32Decode s with ⟨_ | i, s'⟩ <;> rw [hr] at hdecode
  · split at hdecode
    · cases hdecode
    · rw [if_neg (by omega)]
  · split at hdecode
    · cases hdecode
      dsimp only
      split_ifs <;> first | rfl | omega
    · cases hdecode

/-- `decode(int8_t *)` and `decode(int16_t *)`, where an integer is encoded. -/
theorem narrowInt_encodesInt (bits : ℕ) (bound : ℤ) (hbound : bound ≤ 2 ^ 31) :
    (BinaryDecoder.narrowInt o bits bound s).1 =
      if -2 ^ 31 ≤ n ∧ n < bound then some (n.bmod (2 ^ bits)) else none := by
  have hdecode := ho.int32 s n hs
  unfold BinaryDecoder.narrowInt
  rcases hr : o.zcbor.int32Decode s with ⟨_ | i, s'⟩ <;> rw [hr] at hdecode
  · split at hdecode
    · cases hdecode
    · rw [if_neg (by omega)]
  · split at hdecode
    · cases hdecode
      dsimp only
      split_ifs <;> first | rfl | omega
    · cases hdecode

/-- What `decode` of a narrow type does where an integer is encoded. -/
theorem decode_narrow {t : IntegerType} (ht : t.IsNarrow) :
    t.decode o s = match t with
      | unsigned w => if 0 ≤ n ∧ n < (unsigned w).max then some n else none
      | signed w =>
        if -2 ^ 31 ≤ n ∧ n < (signed w).max then some (n.bmod (2 ^ w.bits)) else none := by
  have huint : ∀ bound : ℕ, bound < 2 ^ 32 →
      (BinaryDecoder.narrowUInt o bound s).1.map Int.ofNat =
        if 0 ≤ n ∧ n < bound then some n else none := by
    intro bound hbound
    rw [narrowUInt_encodesInt ho hs bound hbound]
    split_ifs with h
    · exact congrArg some (Int.toNat_of_nonneg h.1)
    · rfl
  cases t with
  | unsigned w =>
    rcases ht with rfl | rfl
    · exact huint 255 (by omega)
    · exact huint 65535 (by omega)
  | signed w =>
    rcases ht with rfl | rfl
    · exact narrowInt_encodesInt ho hs 8 127 (by omega)
    · exact narrowInt_encodesInt ho hs 16 32767 (by omega)

/-- `decode` of a type that zcbor has a decoding function for. -/
theorem decode_wide {t : IntegerType} (ht : ¬ t.IsNarrow) :
    t.decode o s = if t.min ≤ n ∧ n < t.max + 1 then some n else none := by
  have huint : ∀ bound : ℤ, (if 0 ≤ n ∧ n < bound then some n.toNat else none).map Int.ofNat =
      if 0 ≤ n ∧ n < bound then some n else none := by
    intro bound
    split_ifs with h
    · exact congrArg some (Int.toNat_of_nonneg h.1)
    · rfl
  cases t with
  | unsigned w =>
    cases w with
    | w8 => exact absurd (.inl rfl) ht
    | w16 => exact absurd (.inr rfl) ht
    | w32 => exact (congrArg (Option.map Int.ofNat) (ho.uint32 s n hs)).trans (huint (2 ^ 32))
    | w64 => exact (congrArg (Option.map Int.ofNat) (ho.uint64 s n hs)).trans (huint (2 ^ 64))
  | signed w =>
    cases w with
    | w8 => exact absurd (.inl rfl) ht
    | w16 => exact absurd (.inr rfl) ht
    | w32 => exact ho.int32 s n hs
    | w64 => exact ho.int64 s n hs

omit ho hs

/-- A test accepts exactly the integers of a type. -/
theorem accepts_iff {t : IntegerType} {c : Prop} [Decidable c] :
    (∀ m, (if c then some n else none) = some m ↔ t.InRange n ∧ m = n) ↔ (c ↔ t.InRange n) := by
  constructor
  · intro h
    have hn := h n
    split_ifs at hn with hc <;> simp_all
  · intro h m
    split_ifs with hc
    · simp [h.1 hc, eq_comm]
    · simp [mt h.2 hc]

include ho hs

/-- **A narrow type accepts exactly its own integers, but for those that it misreads.** -/
theorem accepts_narrow_iff {t : IntegerType} (ht : t.IsNarrow) :
    (∀ m, t.decode o s = some m ↔ t.InRange n ∧ m = n) ↔ ¬ t.Misread n := by
  rw [decode_narrow ho hs ht]
  cases t with
  | unsigned w =>
    have hmax := zero_le_max (unsigned w)
    rw [accepts_iff]
    dsimp only [InRange, Misread, min]
    omega
  | signed w =>
    obtain ⟨hlo, hhi⟩ := signed_bounds ht
    by_cases hlow : -2 ^ 31 ≤ n ∧ n < (signed w).min
    · -- an integer below the type is accepted
      constructor
      · intro h
        have hrange := ((h _).1 (if_pos ⟨hlow.1, by omega⟩)).1
        exact absurd hrange.1 (not_le.2 hlow.2)
      · intro h
        exact absurd (.inr hlow) h
    · have hval : (if -2 ^ 31 ≤ n ∧ n < (signed w).max then some (n.bmod (2 ^ w.bits)) else none) =
          if -2 ^ 31 ≤ n ∧ n < (signed w).max then some n else none := by
        split_ifs with h
        · rw [bmod_of_inRange (w := w) ⟨by omega, by omega⟩]
        · rfl
      dsimp only
      rw [hval, accepts_iff]
      dsimp only [InRange, Misread]
      omega

end Narrow

/-! ## Round trips -/

/-- A value is encoded as itself. -/
theorem encode_inRange {E : ZcborEncode} (hE : E.IntegerLaws) {t : IntegerType} {v : ℤ}
    (hv : t.InRange v) {e : ZcborEncodeState} (hroom : (Cbor.writeInt v).length ≤ e.room) :
    t.encode E v e = (true, e.append (Cbor.writeInt v)) := by
  obtain ⟨hlo, hhi⟩ := hv
  cases t with
  | unsigned w =>
    have hnat : ((v.toNat : ℕ) : ℤ) = v := Int.toNat_of_nonneg hlo
    rw [← hnat] at hroom ⊢
    cases w <;> simp only [max, IntWidth.bits] at hhi
    case w64 => exact hE.uint64 v.toNat e (by omega) hroom
    all_goals exact hE.uint32 v.toNat e (by omega) hroom
  | signed w =>
    cases w <;> simp only [min, max, IntWidth.bits] at hlo hhi
    case w64 => exact hE.int64 v e (by omega) hroom
    all_goals exact hE.int32 v e (by omega) hroom

theorem isWireInt_of_inRange {t : IntegerType} {v : ℤ} (hv : t.InRange v) : Cbor.IsWireInt v := by
  obtain ⟨hlo, hhi⟩ := hv
  unfold Cbor.IsWireInt
  cases t <;> rename_i w <;> cases w <;> simp only [min, max, IntWidth.bits] at hlo hhi <;> omega

/-- A value of a narrow type is misread only if it is the largest one. -/
theorem misread_iff_of_inRange {t : IntegerType} {v : ℤ} (hv : t.InRange v) :
    t.Misread v ↔ v = t.max := by
  cases t with
  | unsigned w => exact Iff.rfl
  | signed w =>
    constructor
    · rintro (h | ⟨-, hlt⟩)
      · exact h
      · exact absurd hv.1 (not_le.2 hlt)
    · exact .inl

/-- **Integers between a binary encoder and a binary decoder.** A narrow type accepts exactly its own
integers unless the integer is misread, and a value of any type is decoded from its encoding unless it is the
largest one of a narrow type. -/
theorem decode_integers_iff {o : BinaryDecoderOptions} (ho : o.zcbor.IntegerLaws) {E : ZcborEncode}
    (hE : E.IntegerLaws) :
    (∀ t : IntegerType, t.IsNarrow → ∀ (s : ZcborState) (n : ℤ), s.EncodesInt n →
      ((∀ m, t.decode o s = some m ↔ t.InRange n ∧ m = n) ↔ ¬ t.Misread n)) ∧
    ∀ (t : IntegerType) (v : ℤ), t.InRange v →
      ∀ e : ZcborEncodeState, (Cbor.writeInt v).length ≤ e.room →
        ∃ bs, t.encode E v e = (true, e.append bs) ∧
          ∀ (s : ZcborState) (rest : Bytes), s.elemCount ≠ 0 → s.remaining = bs ++ rest →
            (t.decode o s = some v ↔ ¬ (t.IsNarrow ∧ v = t.max)) := by
  refine ⟨fun t ht s n hs => accepts_narrow_iff ho hs ht, fun t v hv e hroom => ?_⟩
  refine ⟨Cbor.writeInt v, encode_inRange hE hv hroom, fun s rest hcount hrest => ?_⟩
  have hs : s.EncodesInt v := ⟨hcount, isWireInt_of_inRange hv, rest, hrest⟩
  by_cases ht : t.IsNarrow
  · simp only [ht, true_and]
    by_cases hmax : v = t.max
    · -- the comparison with the largest value is strict
      have hnone : t.decode o s = none := by
        rw [decode_narrow ho hs ht]
        cases t with
        | unsigned w => exact if_neg (by omega)
        | signed w => exact if_neg (by omega)
      simp [hnone, hmax]
    · have haccepts := (accepts_narrow_iff ho hs ht).2 (mt (misread_iff_of_inRange hv).1 hmax)
      exact iff_of_true ((haccepts v).2 ⟨hv, rfl⟩) hmax
  · have hrange : t.min ≤ v ∧ v < t.max + 1 := ⟨hv.1, Int.lt_add_one_of_le hv.2⟩
    rw [decode_wide ho hs ht, if_pos hrange]
    exact iff_of_true rfl fun h => ht h.1

/-- The number 254 as a `uint8_t`. -/
theorem decode_integers_254 :
    (∀ m, (unsigned .w8).decode ⟨zcborReference, false, false⟩ (.new 8 [0x18, 0xFE] 0 2 1) = some m ↔
      (unsigned .w8).InRange 254 ∧ m = 254) ∧
    ∃ bs, (signed .w8).encode zcborEncodeReference (-128) (.new 8 16) =
      (true, (ZcborEncodeState.new 8 16).append bs) := by
  have hall := decode_integers_iff (o := ⟨zcborReference, false, false⟩) zcborReference_integerLaws
    zcborEncodeReference_integerLaws
  constructor
  · refine (hall.1 (unsigned .w8) (.inl rfl) _ 254 ⟨by decide, by decide, [], by decide⟩).2 ?_
    unfold Misread
    decide
  · obtain ⟨bs, hbs, -⟩ := hall.2 (signed .w8) (-128) (by decide) (.new 8 16) (by decide)
    exact ⟨bs, hbs⟩

/-- A `uint8_t` of 255 is encoded and then refused, and -129 is no `int8_t` and is decoded as one. -/
theorem misread_narrow_integers :
    (unsigned .w8).InRange 255 ∧
      (unsigned .w8).encode zcborEncodeReference 255 (.new 8 16) =
        (true, (ZcborEncodeState.new 8 16).append [0x18, 0xFF]) ∧
      (ZcborState.new 8 [0x18, 0xFF] 0 2 1).EncodesInt 255 ∧
      (unsigned .w8).decode ⟨zcborReference, false, false⟩ (.new 8 [0x18, 0xFF] 0 2 1) = none ∧
      ¬ (signed .w8).InRange (-129) ∧
      (ZcborState.new 8 [0x38, 0x80] 0 2 1).EncodesInt (-129) ∧
      (signed .w8).decode ⟨zcborReference, false, false⟩ (.new 8 [0x38, 0x80] 0 2 1) = some 127 := by
  refine ⟨by decide, by decide, ⟨by decide, by decide, [], by decide⟩, by decide, by decide,
    ⟨by decide, by decide, [], by decide⟩, by decide⟩

end IntegerType

end ThingSet
