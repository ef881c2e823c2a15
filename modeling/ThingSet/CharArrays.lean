import Mathlib.Data.List.GetD
import ThingSet.BinaryDecoder
import ThingSet.Text.Integers

/-!
# Arrays of characters

`decode(char *value, size_t size)` stores a string into an array of `size` characters, which a property of a
type `char[Size]` encodes up to its NUL. Both decoders accept a string of `size` characters: the binary decoder
puts a NUL behind the array, and the text decoder, which puts none, leaves what the memory held.

* `StoresString`: nothing is written past the array, and what it holds is the decoded string with a NUL behind it.
* `storesString_iff`: when that is so, for both decoders.
-/

namespace ThingSet

open Interaction Prog

/-- The memory at `value` with some bytes written there. -/
def afterCopy (memory : ℕ → UInt8) (bs : Bytes) (i : ℕ) : UInt8 := bs.getD i (memory i)

/-- An array of `size` characters holds the text with a NUL behind it. -/
def HoldsText (memory : ℕ → UInt8) (size : ℕ) (text : Bytes) : Prop :=
  text.length < size ∧ ∀ i ≤ text.length, memory i = text.getD i 0

/-- A decode into an array of `size` characters, where `memory` is: when it returns true, it has written within the
array, which holds the string that `decode(std::string *)` returns. -/
def StoresString {σ : Type} (h : Decoder σ) (size : ℕ) (memory : ℕ → UInt8) (s : σ) : Prop :=
  ∀ bs, (h (.chars size) s).1 = some bs →
    bs.length ≤ size ∧ ∃ text, (h .string s).1 = some text ∧ HoldsText (afterCopy memory bs) size text

/-- From the first NUL on there are only NULs. -/
def EndsAtNul (text : Bytes) : Prop := ∀ c ∈ text.dropWhile (· ≠ 0), c = 0

instance (text : Bytes) : Decidable (EndsAtNul text) := inferInstanceAs (Decidable (∀ c ∈ _, c = 0))

/-- The number of characters of the token that the next call takes. -/
def TextDecoderState.tokenLength (s : TextDecoderState) : ℕ := toSize (s.currentToken.stop - s.currentToken.start)

/-! ## What is written -/

section Written

variable {memory : ℕ → UInt8} {src text bs : Bytes} {size n i : ℕ} {c d : UInt8}

theorem afterCopy_of_lt (hi : i < bs.length) : afterCopy memory bs i = bs.getD i 0 := by
  unfold afterCopy
  rw [List.getD_eq_getElem _ _ hi, List.getD_eq_getElem _ _ hi]

@[simp] theorem length_strncpy : (strncpy src n).length = n := by
  have hle : ((src.take n).takeWhile (· ≠ 0)).length ≤ n :=
    (List.takeWhile_sublist _).length_le.trans (List.length_take_le _ _)
  unfold strncpy
  rw [List.length_append, List.length_replicate]
  omega

/-- The text in front of the NUL is copied, and behind it are NULs. -/
theorem getD_strncpy : (strncpy src n).getD i 0 = ((src.take n).takeWhile (· ≠ 0)).getD i 0 := by
  unfold strncpy
  by_cases hi : i < ((src.take n).takeWhile (· ≠ 0)).length
  · exact List.getD_append _ _ _ _ hi
  · rw [Nat.not_lt] at hi
    rw [List.getD_append_right _ _ _ _ hi, List.getD_eq_default _ _ hi]
    unfold List.getD
    rw [List.getElem?_getD_replicate_default_eq]

/-- A text is what is in front of its first NUL and NULs behind it, unless something else comes behind. -/
theorem getD_takeWhile_iff :
    (∀ i < text.length, (text.takeWhile (· ≠ 0)).getD i 0 = text.getD i 0) ↔ EndsAtNul text := by
  unfold EndsAtNul
  induction text with
  | nil => simp
  | cons c cs ih =>
    by_cases hc : c = 0
    · rw [List.takeWhile_cons_of_neg (by simp [hc]), List.dropWhile_cons_of_neg (by simp [hc])]
      rw [List.forall_mem_iff_forall_getElem]
      refine forall_congr' fun i => forall_congr' fun hi => ?_
      rw [List.getD_eq_getElem _ _ hi]
      exact eq_comm
    · rw [List.takeWhile_cons_of_pos (by simp [hc]), List.dropWhile_cons_of_pos (by simp [hc]), ← ih]
      constructor
      · intro h i hi
        exact h (i + 1) (Nat.succ_lt_succ hi)
      · intro h i hi
        cases i with
        | zero => rfl
        | succ i => exact h i (Nat.lt_of_succ_lt_succ hi)

/-- Some text is copied to an array, and `tail` behind it. -/
theorem holdsText_strncpy_iff {tail : Bytes} :
    HoldsText (afterCopy memory (strncpy src n ++ tail)) size (src.take n) ↔
      (src.take n).length < size ∧ EndsAtNul (src.take n) ∧
        ((src.take n).length = n → tail.getD 0 (memory n) = 0) := by
  have hle : (src.take n).length ≤ n := List.length_take_le _ _
  have hcopied : ∀ i < n, afterCopy memory (strncpy src n ++ tail) i =
      ((src.take n).takeWhile (· ≠ 0)).getD i 0 := by
    intro i hi
    rw [afterCopy_of_lt (by rw [List.length_append, length_strncpy]; omega),
      List.getD_append _ _ _ _ (by rwa [length_strncpy]), getD_strncpy]
  have hbehind : afterCopy memory (strncpy src n ++ tail) n = tail.getD 0 (memory n) := by
    unfold afterCopy
    rw [List.getD_append_right _ _ _ _ length_strncpy.le, length_strncpy, Nat.sub_self]
  refine and_congr_right fun _ => ?_
  rw [← getD_takeWhile_iff]
  constructor
  · intro h
    refine ⟨fun i hi => ?_, fun heq => ?_⟩
    · rw [← hcopied i (by omega), h i hi.le]
    · rw [← hbehind, h n heq.ge, List.getD_eq_default _ _ heq.le]
  · rintro ⟨hcopy, hnul⟩ i hi
    rcases Nat.lt_or_eq_of_le hi with hlt | rfl
    · rw [hcopied i (by omega), hcopy i hlt]
    · rw [List.getD_eq_default _ _ le_rfl]
      rcases Nat.lt_or_eq_of_le hle with hlt | heq
      · -- the memory ends in front of the end of the text
        rw [hcopied _ hlt]
        exact List.getD_eq_default _ _ (List.takeWhile_sublist _).length_le
      · rw [heq, hbehind, hnul heq]

end Written

/-! ## The decoders -/

section Decoders

variable {b : BinaryDecoderOptions} {o : TextDecoderOptions} {size : ℕ} {memory : ℕ → UInt8}

/-- No string, and nothing written. -/
theorem storesString_of_none {σ : Type} {h : Decoder σ} {s : σ} (hchars : (h (.chars size) s).1 = none) :
    StoresString h size memory s := by
  intro bs hbs
  rw [hchars] at hbs
  cases hbs

/-- A string, which is copied if its length is accepted. -/
theorem storesString_of_some {σ : Type} {h : Decoder σ} {s : σ} {n : ℕ} {bs text : Bytes}
    (hchars : (h (.chars size) s).1 = if n ≤ size then some bs else none) (hstring : (h .string s).1 = some text) :
    StoresString h size memory s ↔ (n ≤ size → bs.length ≤ size ∧ HoldsText (afterCopy memory bs) size text) := by
  unfold StoresString
  rw [hchars, hstring]
  constructor
  · intro hstores hn
    rw [if_pos hn] at hstores
    obtain ⟨hlength, _, htext, hholds⟩ := hstores bs rfl
    cases htext
    exact ⟨hlength, hholds⟩
  · intro hstores bs' hbs'
    split_ifs at hbs' with hn
    cases hbs'
    obtain ⟨hlength, hholds⟩ := hstores hn
    exact ⟨hlength, text, rfl, hholds⟩

/-- **The binary decoder stores a string right that is shorter than the array.** -/
theorem storesString_binary_iff (s : ZcborState) :
    StoresString (binaryDecoder b) size memory s ↔
      ∀ text, (b.zcbor.tstrDecode s).1 = some text → text.length ≤ size →
        text.length < size ∧ EndsAtNul text := by
  have hchars : (binaryDecoder b (.chars size) s).1 = (b.zcbor.tstrDecode s).1.bind fun z =>
      if z.length ≤ size then some (strncpy z z.length ++ [0]) else none := by
    change (BinaryDecoder.chars b size s).1 = _
    unfold BinaryDecoder.chars
    rcases b.zcbor.tstrDecode s with ⟨_ | z, s'⟩ <;> rfl
  cases hdecode : (b.zcbor.tstrDecode s).1 with
  | none =>
    rw [hdecode] at hchars
    exact iff_of_true (storesString_of_none hchars) fun text htext => by cases htext
  | some z =>
    rw [hdecode] at hchars
    have hholds := @holdsText_strncpy_iff memory z size z.length [0]
    rw [List.take_length] at hholds
    rw [storesString_of_some hchars hdecode, hholds, List.length_append, length_strncpy, List.length_singleton]
    constructor
    · intro h text htext hsize
      cases htext
      obtain ⟨-, hlength, hends, -⟩ := h hsize
      exact ⟨hlength, hends⟩
    · intro h hsize
      obtain ⟨hlength, hends⟩ := h z rfl hsize
      exact ⟨hlength, hlength, hends, fun _ => rfl⟩

/-- **The text decoder stores a string right that is shorter than the array, if the array has a NUL there.** -/
theorem storesString_text_iff (s : TextDecoderState) :
    StoresString (textDecoder o) size memory s ↔
      (s.currentToken.type = .string → s.tokenLength ≤ size →
        s.tokenText.length < size ∧ EndsAtNul s.tokenText ∧
          (s.tokenText.length = s.tokenLength → memory s.tokenLength = 0)) := by
  by_cases htype : s.currentToken.type = .string
  · have hexpect : TextDecoder.expectType .string s = (some s.currentToken, s.getTokens.accept s.currentToken) :=
      if_neg (not_not.2 htype)
    have hplace : (s.getTokens.accept s.currentToken).textAt (s.getTokens.accept s.currentToken).bufferElemPtr =
        s.textFromToken := by
      rw [TextDecoderState.textAt_accept, TextDecoderState.textAt_getTokens,
        TextDecoderState.accept_bufferElemPtr (by rw [htype]; decide) (by rw [htype]; decide)]
      rfl
    have hchars : (textDecoder o (.chars size) s).1 =
        if s.tokenLength ≤ size then some (strncpy s.textFromToken s.tokenLength) else none := by
      change (TextDecoder.chars size s).1 = _
      unfold TextDecoder.chars
      rw [hexpect]
      dsimp only
      rw [hplace]
      rfl
    have hstring : (textDecoder o .string s).1 = some s.tokenText := by
      change (TextDecoder.string s).1 = _
      unfold TextDecoder.string
      rw [hexpect]
      dsimp only
      rw [hplace]
      rfl
    have hholds := @holdsText_strncpy_iff memory s.textFromToken size s.tokenLength []
    rw [List.append_nil] at hholds
    rw [storesString_of_some hchars hstring, length_strncpy]
    constructor
    · intro h _ hsize
      exact hholds.1 (h hsize).2
    · intro h hsize
      exact ⟨hsize, hholds.2 (h htype hsize)⟩
  · have hexpect : TextDecoder.expectType .string s = (none, s.getTokens) := if_pos htype
    have hchars : (textDecoder o (.chars size) s).1 = none := by
      change (TextDecoder.chars size s).1 = _
      unfold TextDecoder.chars
      rw [hexpect]
    exact iff_of_true (storesString_of_none hchars) fun h => absurd h htype

end Decoders

/-- **Strings in arrays of characters.** The binary decoder stores a string right, within the array and with a NUL
behind it, exactly if it is shorter than the array or is refused, and has nothing but NULs behind a NUL; the text
decoder needs a NUL behind the place of the string besides. -/
theorem storesString_iff (size : ℕ) (memory : ℕ → UInt8) :
    (∀ (b : BinaryDecoderOptions) (s : ZcborState), StoresString (binaryDecoder b) size memory s ↔
      ∀ text, (b.zcbor.tstrDecode s).1 = some text → text.length ≤ size →
        text.length < size ∧ EndsAtNul text) ∧
    ∀ (o : TextDecoderOptions) (s : TextDecoderState), StoresString (textDecoder o) size memory s ↔
      (s.currentToken.type = .string → s.tokenLength ≤ size →
        s.tokenText.length < size ∧ EndsAtNul s.tokenText ∧
          (s.tokenText.length = s.tokenLength → memory s.tokenLength = 0)) :=
  ⟨fun _ => storesString_binary_iff, fun _ => storesString_text_iff⟩

/-- A string of three characters and an array of three: the binary decoder writes a fourth byte. The text decoder
leaves it without a NUL in an array of four that was full. -/
theorem not_storesString :
    (binaryDecoder ⟨zcborReference, false, false⟩ (.chars 3) (.alone [0x63, 0x61, 0x62, 0x63])).1 =
        some [0x61, 0x62, 0x63, 0] ∧
      ¬ StoresString (binaryDecoder ⟨zcborReference, false, false⟩) 3 (fun _ => 0)
        (.alone [0x63, 0x61, 0x62, 0x63]) ∧
      (textDecoder integerOptions (.chars 4) (onText [0x22, 0x61, 0x62, 0x63, 0x22])).1 = some [0x61, 0x62, 0x63] ∧
      ¬ StoresString (textDecoder integerOptions) 4 (fun _ => 0x78) (onText [0x22, 0x61, 0x62, 0x63, 0x22]) := by
  refine ⟨by decide +kernel, fun h => ?_, by decide +kernel, fun h => ?_⟩
  · have hlt := ((storesString_binary_iff _).1 h [0x61, 0x62, 0x63] (by decide +kernel) (by decide)).1
    exact absurd hlt (by decide)
  · have hnul := ((storesString_text_iff _).1 h (by decide +kernel) (by decide +kernel)).2.2 (by decide +kernel)
    exact absurd hnul (by decide)

end ThingSet
