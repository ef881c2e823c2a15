import Mathlib.Data.List.TakeWhile
import ThingSet.Foundations.Memory
import ThingSet.Foundations.Transition
import ThingSet.TextEncoder

/-!
# The text encoder in memory

The buffer of a `ThingSetTextEncoder` is a part of the memory, and `append` and `appendFormat` write to addresses.
`placedTextEncoder` is the encoder with the memory; it does what `textEncoder` does on the buffer (`simulates`),
and it writes nothing else.

`right_iff_fits`: whenever a call returns true, the text of its value is behind what was there before, if and only
if no number, boolean or null ends exactly where the buffer does, where its last character is overwritten by a NUL,
and no string that is encoded has a NUL within it.
-/

namespace ThingSet

open Transition

/-- The members of a `ThingSetTextEncoder`, and the memory that its buffer lies in, at the address
`responseBuffer`. -/
structure PlacedTextEncoder where
  memory : Memory UInt8
  responseBuffer : ℕ
  responseSize : ℕ
  responsePosition : ℕ := 0
  depth : UInt8 := 0
  abbreviateArrays : Bool := false
  outlineGroups : Bool := false

namespace PlacedTextEncoder

/-- `append`. -/
def append (c : UInt8) (t : PlacedTextEncoder) : Bool × PlacedTextEncoder :=
  if t.responseSize ≤ t.responsePosition then (false, t)
  else (true, { t with
    memory := t.memory.write (t.responseBuffer + t.responsePosition) [c]
    responsePosition := t.responsePosition + 1 })

/-- `snprintf(&memory[a], n, ..)` of a text. -/
def snprintf (memory : Memory UInt8) (a n : ℕ) (text : Bytes) : Memory UInt8 :=
  if n = 0 then memory else memory.write a (text.take (n - 1) ++ [0])

/-- `appendFormat` of a value with this text. -/
def appendFormat (text : Bytes) (t : PlacedTextEncoder) : Bool × PlacedTextEncoder :=
  if t.responseSize < t.responsePosition + text.length then (false, t)
  else (true, { t with
    memory := snprintf t.memory (t.responseBuffer + t.responsePosition) (t.responseSize - t.responsePosition) text
    responsePosition := t.responsePosition + text.length })

/-- `a && b`. -/
def andThen (a b : PlacedTextEncoder → Bool × PlacedTextEncoder) (t : PlacedTextEncoder) :
    Bool × PlacedTextEncoder :=
  let (ok, t) := a t
  if ok then b t else (false, t)

/-- `encode(const char *)`. -/
def string (value : Bytes) : PlacedTextEncoder → Bool × PlacedTextEncoder :=
  andThen (append 0x22) (andThen (appendFormat (value.takeWhile (· ≠ 0))) (append 0x22))

/-- `encodeMapStart`, `encodeListStart`. -/
def start (c : UInt8) (t : PlacedTextEncoder) : Bool × PlacedTextEncoder :=
  append c { t with depth := t.depth + 1 }

/-- `encodeMapEnd`, `encodeListEnd`. -/
def stop (c : UInt8) (t : PlacedTextEncoder) : Bool × PlacedTextEncoder :=
  let t := { t with depth := t.depth - 1 }
  let t :=
    if 0 < t.responsePosition ∧ t.memory (t.responseBuffer + (t.responsePosition - 1)) = 0x2C then
      { t with responsePosition := t.responsePosition - 1 }
    else t
  append c t

/-- `renderedListLength`. -/
def renderedListLength (E : TextEncoderConfig) (size : ℕ) (t : PlacedTextEncoder) : ℕ :=
  if 0 < E.arrayMax ∧ t.abbreviateArrays ∧ 0 < t.depth ∧ E.arrayMax < size then E.arrayMax else size

end PlacedTextEncoder

open PlacedTextEncoder in
/-- `ThingSetTextEncoder` in memory. -/
def placedTextEncoder (E : TextEncoderConfig) : Encoder PlacedTextEncoder
  | .string value, t => string value t
  | .float value, t => appendFormat (E.double (E.ofFloat value)) t
  | .double value, t => appendFormat (E.double value) t
  | .bool value, t => appendFormat (if value then [0x31] else [0x30]) t
  | .uint _ value, t => appendFormat (decimal value) t
  | .int _ value, t => appendFormat (signedDecimal value) t
  | .null, t => appendFormat [0x6E, 0x75, 0x6C, 0x6C] t
  | .preamble, t => (true, t)
  | .listStart _, t => start 0x5B t
  | .listEnd _, t => stop 0x5D t
  | .mapStart _, t => start 0x7B t
  | .mapEnd _, t => stop 0x7D t
  | .bytes _, t => (false, t)
  | .listSeparator, t => append 0x2C t
  | .keyValuePairSeparator, t => append 0x3A t
  | .encodeKeysAsIds, t => (false, t)
  | .renderGroupAsOutline, t => (t.outlineGroups && 0 < t.depth, t)
  | .renderedListLength size, t => (renderedListLength E size t, t)
  | .truncationMarker, t => andThen (append 0x2E) (andThen (append 0x2E) (append 0x2E)) t

namespace PlacedTextEncoder

/-! ## The buffer and the rest of the memory -/

/-- The buffer, and what else the encoder has. -/
def view (t : PlacedTextEncoder) : TextEncoderState where
  responseBuffer := t.memory.read t.responseBuffer t.responseSize
  responsePosition := t.responsePosition
  depth := t.depth
  abbreviateArrays := t.abbreviateArrays
  outlineGroups := t.outlineGroups

/-- An address outside the buffer. -/
def Outside (t : PlacedTextEncoder) (a : ℕ) : Prop :=
  a < t.responseBuffer ∨ t.responseBuffer + t.responseSize ≤ a

/-- The buffer stays where it is, and the memory outside of it is left alone. -/
structure Keeps (t t' : PlacedTextEncoder) : Prop where
  responseBuffer : t'.responseBuffer = t.responseBuffer
  responseSize : t'.responseSize = t.responseSize
  position_le : t'.responsePosition ≤ t'.responseSize
  outside : ∀ a, t.Outside a → t'.memory a = t.memory a

variable {β : Type} {t t' t'' : PlacedTextEncoder}

theorem Keeps.refl (h : t.responsePosition ≤ t.responseSize) : t.Keeps t := ⟨rfl, rfl, h, fun _ _ => rfl⟩

theorem Keeps.trans (h : t.Keeps t') (h' : t'.Keeps t'') : t.Keeps t'' where
  responseBuffer := h'.responseBuffer.trans h.responseBuffer
  responseSize := h'.responseSize.trans h.responseSize
  position_le := h'.position_le
  outside a ha := by
    have ha' : t'.Outside a := by rwa [Outside, h.responseBuffer, h.responseSize]
    rw [h'.outside a ha', h.outside a ha]

/-- `f` does with the memory what `g` does with the buffer. -/
def Simulates (f : PlacedTextEncoder → β × PlacedTextEncoder) (g : TextEncoderState → β × TextEncoderState) : Prop :=
  ∀ t, t.responsePosition ≤ t.responseSize → g t.view = ((f t).1, (f t).2.view) ∧ t.Keeps (f t).2

theorem length_view (t : PlacedTextEncoder) : t.view.responseBuffer.length = t.responseSize := Memory.length_read ..

theorem view_responsePosition (t : PlacedTextEncoder) : t.view.responsePosition = t.responsePosition := rfl

theorem simulates_append (c : UInt8) : Simulates (append c) (TextEncoder.append c) := by
  intro t ht
  unfold append TextEncoder.append
  rw [length_view, view_responsePosition]
  by_cases hfull : t.responseSize ≤ t.responsePosition
  · rw [if_pos hfull, if_pos hfull]
    exact ⟨rfl, .refl ht⟩
  · rw [if_neg hfull, if_neg hfull]
    have hread : (t.memory.write (t.responseBuffer + t.responsePosition) [c]).read t.responseBuffer t.responseSize =
        t.view.responseBuffer.set t.responsePosition c := by
      rw [Memory.read_write (by simp; omega), List.set_eq_take_append_cons_drop, if_pos (by rw [length_view]; omega)]
      simp [view]
    refine ⟨?_, rfl, rfl, Nat.not_le.1 hfull, fun a ha => Memory.write_of_outside ?_⟩
    · simp only [view]
      rw [hread]
      rfl
    · rw [Outside] at ha
      rw [List.length_singleton]
      omega

theorem simulates_appendFormat (text : Bytes) : Simulates (appendFormat text) (TextEncoder.appendFormat text) := by
  intro t ht
  unfold appendFormat TextEncoder.appendFormat TextEncoder.ensureBufferCapacity
  rw [length_view, view_responsePosition]
  by_cases hlong : t.responseSize < t.responsePosition + text.length
  · rw [if_pos hlong, if_neg (by rw [decide_eq_true_eq]; omega)]
    exact ⟨rfl, .refl ht⟩
  rw [if_neg hlong, if_pos (by rw [decide_eq_true_eq]; omega)]
  have hlen : (text.take (t.responseSize - t.responsePosition - 1) ++ [0]).length ≤
      t.responseSize - t.responsePosition - 1 + 1 := by
    rw [List.length_append, List.length_take, List.length_singleton]
    omega
  have hread : (snprintf t.memory (t.responseBuffer + t.responsePosition) (t.responseSize - t.responsePosition)
      text).read t.responseBuffer t.responseSize =
        ThingSet.snprintf t.view.responseBuffer t.responsePosition text := by
    unfold snprintf ThingSet.snprintf memcpy
    dsimp only
    rw [length_view]
    split
    · rfl
    · rw [Memory.read_write (by omega), List.take_length]
      rfl
  refine ⟨?_, rfl, rfl, Nat.not_lt.1 hlong, fun a ha => ?_⟩
  · simp only [view]
    rw [hread]
    rfl
  · change snprintf _ _ _ _ a = _
    unfold snprintf
    split
    · rfl
    · rw [Outside] at ha
      exact Memory.write_of_outside (by omega)

theorem Simulates.andThen {f f' : PlacedTextEncoder → Bool × PlacedTextEncoder}
    {g g' : TextEncoderState → Bool × TextEncoderState} (h : Simulates f g) (h' : Simulates f' g') :
    Simulates (andThen f f') (TextEncoder.andThen g g') := by
  intro t ht
  obtain ⟨hview, hkeeps⟩ := h t ht
  unfold PlacedTextEncoder.andThen TextEncoder.andThen
  rw [hview]
  dsimp only
  split
  · obtain ⟨hview', hkeeps'⟩ := h' (f t).2 hkeeps.position_le
    exact ⟨hview', hkeeps.trans hkeeps'⟩
  · exact ⟨rfl, hkeeps⟩

theorem simulates_stop (c : UInt8) : Simulates (stop c) (TextEncoder.stop c) := by
  intro t ht
  have hlast : 0 < t.responsePosition →
      t.view.responseBuffer.getD (t.responsePosition - 1) 0 = t.memory (t.responseBuffer + (t.responsePosition - 1)) :=
    fun hpos => Memory.getD_read (by omega) 0
  by_cases hsep : 0 < t.responsePosition ∧ t.memory (t.responseBuffer + (t.responsePosition - 1)) = 0x2C
  · have hview : 0 < t.responsePosition ∧ t.view.responseBuffer.getD (t.responsePosition - 1) 0 = 0x2C :=
      ⟨hsep.1, (hlast hsep.1).trans hsep.2⟩
    obtain ⟨hsim, hkeeps⟩ := simulates_append c
      { t with depth := t.depth - 1, responsePosition := t.responsePosition - 1 } (Nat.le_trans (Nat.sub_le _ _) ht)
    unfold stop TextEncoder.stop
    dsimp only
    rw [view_responsePosition, if_pos hsep, if_pos hview]
    exact ⟨hsim, hkeeps.responseBuffer, hkeeps.responseSize, hkeeps.position_le, hkeeps.outside⟩
  · have hview : ¬ (0 < t.responsePosition ∧ t.view.responseBuffer.getD (t.responsePosition - 1) 0 = 0x2C) :=
      fun h => hsep ⟨h.1, (hlast h.1).symm.trans h.2⟩
    obtain ⟨hsim, hkeeps⟩ := simulates_append c { t with depth := t.depth - 1 } ht
    unfold stop TextEncoder.stop
    dsimp only
    rw [view_responsePosition, if_neg hsep, if_neg hview]
    exact ⟨hsim, hkeeps.responseBuffer, hkeeps.responseSize, hkeeps.position_le, hkeeps.outside⟩

/-- **The encoder in memory does what it does on its buffer, and leaves the rest of the memory alone.** -/
theorem simulates (E : TextEncoderConfig) (op : EncodeOp) : Simulates (placedTextEncoder E op) (textEncoder E op) := by
  have hstart (c : UInt8) : Simulates (start c) (TextEncoder.start c) := by
    intro t ht
    obtain ⟨hsim, hkeeps⟩ := simulates_append c { t with depth := t.depth + 1 } ht
    exact ⟨hsim, hkeeps.responseBuffer, hkeeps.responseSize, hkeeps.position_le, hkeeps.outside⟩
  cases op with
  | string value =>
    exact (simulates_append _).andThen ((simulates_appendFormat _).andThen (simulates_append _))
  | float | double | bool | uint | int | null => exact simulates_appendFormat _
  | listStart | mapStart => exact hstart _
  | listEnd | mapEnd => exact simulates_stop _
  | listSeparator | keyValuePairSeparator => exact simulates_append _
  | truncationMarker => exact (simulates_append _).andThen ((simulates_append _).andThen (simulates_append _))
  | preamble | bytes | encodeKeysAsIds | renderGroupAsOutline | renderedListLength =>
    exact fun t ht => ⟨rfl, .refl ht⟩

/-! ## What a call writes -/

/-- The text of a number, a boolean or null. -/
def printed (E : TextEncoderConfig) : EncodeOp → Option Bytes
  | .float value => some (E.double (E.ofFloat value))
  | .double value => some (E.double value)
  | .bool value => some (if value then [0x31] else [0x30])
  | .uint _ value => some (decimal value)
  | .int _ value => some (signedDecimal value)
  | .null => some [0x6E, 0x75, 0x6C, 0x6C]
  | _ => none

/-- The string that a call encodes. -/
def stringValue : EncodeOp → Option Bytes
  | .string value => some value
  | _ => none

/-- The text of what a call encodes: a value, or the character of the structure. -/
def rendering (E : TextEncoderConfig) : EncodeOp → Bytes
  | .string value => 0x22 :: (value ++ [0x22])
  | .listStart _ => [0x5B]
  | .listEnd _ => [0x5D]
  | .mapStart _ => [0x7B]
  | .mapEnd _ => [0x7D]
  | .listSeparator => [0x2C]
  | .keyValuePairSeparator => [0x3A]
  | .truncationMarker => [0x2E, 0x2E, 0x2E]
  | op => (printed E op).getD []

/-- The text without a separator at its end. -/
def withoutSeparator (text : Bytes) : Bytes := if text.getLast? = some 0x2C then text.dropLast else text

/-- The text after a call: what was there before, at the end of a list or a map without its last separator, and
what the call encodes. -/
def expected (E : TextEncoderConfig) (before : Bytes) : EncodeOp → Bytes
  | .listEnd count => withoutSeparator before ++ rendering E (.listEnd count)
  | .mapEnd count => withoutSeparator before ++ rendering E (.mapEnd count)
  | op => before ++ rendering E op

/-- A call that encodes returns true. -/
def succeeded : (op : EncodeOp) → op.Result → Bool
  | .string _, ok | .float _, ok | .double _, ok | .bool _, ok | .uint _ _, ok | .int _ _, ok | .null, ok
  | .preamble, ok | .listStart _, ok | .listEnd _, ok | .mapStart _, ok | .mapEnd _, ok | .bytes _, ok
  | .listSeparator, ok | .keyValuePairSeparator, ok | .truncationMarker, ok => ok
  | .encodeKeysAsIds, _ | .renderGroupAsOutline, _ | .renderedListLength _, _ => false

/-- `[0, getEncodedLength())`. -/
def content (t : PlacedTextEncoder) : Bytes := t.memory.read t.responseBuffer t.responsePosition

/-- The encoder after a call. -/
def step (E : TextEncoderConfig) (t : PlacedTextEncoder) (op : EncodeOp) : Option PlacedTextEncoder :=
  some (placedTextEncoder E op t).2

/-- A call writes nothing outside the buffer, and if it returns true, the text is as expected. -/
structure Right (E : TextEncoderConfig) (t : PlacedTextEncoder) (op : EncodeOp) : Prop where
  outside : ∀ a, t.Outside a → (placedTextEncoder E op t).2.memory a = t.memory a
  content : succeeded op (placedTextEncoder E op t).1 = true →
    (placedTextEncoder E op t).2.content = expected E t.content op

/-- No number, boolean or null ends where the buffer does, and no string that is encoded has a NUL in it. -/
def Fits (E : TextEncoderConfig) (t : PlacedTextEncoder) (op : EncodeOp) : Prop :=
  (∀ text ∈ printed E op, t.responsePosition + text.length ≠ t.responseSize) ∧
    ∀ value ∈ stringValue op, 0 ∈ value →
      t.responseSize < t.responsePosition + (value.takeWhile (· ≠ 0)).length + 2

end PlacedTextEncoder

/-- What `printf` makes of floating-point numbers. -/
def TextEncoderConfig.Prints (E : TextEncoderConfig) : Prop := ∀ value, E.double value ≠ [] ∧ 0 ∉ E.double value

/-! ## The calls on the buffer -/

namespace TextEncoder

open TextEncoderState PlacedTextEncoder

variable {E : TextEncoderConfig} {s : TextEncoderState} {text : Bytes}

theorem append_full (c : UInt8) (h : s.responseBuffer.length ≤ s.responsePosition) : append c s = (false, s) := if_pos h

theorem appendFormat_long (h : s.responseBuffer.length < s.responsePosition + text.length) :
    appendFormat text s = (false, s) := by
  unfold appendFormat ensureBufferCapacity
  rw [if_neg (by rw [decide_eq_true_eq]; omega)]

/-- A text that ends where the buffer does loses its last character. -/
theorem appendFormat_exact (hne : text ≠ []) (h : s.responsePosition + text.length = s.responseBuffer.length) :
    appendFormat text s = (true, { s with
      responseBuffer := s.written ++ (text.dropLast ++ [0])
      responsePosition := s.responseBuffer.length }) := by
  have hpos : 0 < text.length := List.length_pos_iff.2 hne
  have htake : text.take (s.responseBuffer.length - s.responsePosition - 1) = text.dropLast := by
    rw [List.dropLast_eq_take]
    congr 1
    omega
  have hlen : (text.dropLast ++ [0]).length = text.length := by
    rw [List.length_append, List.length_dropLast, List.length_singleton]
    omega
  have hcopy : snprintf s.responseBuffer s.responsePosition text = s.written ++ (text.dropLast ++ [0]) := by
    rw [snprintf, if_neg (by omega), memcpy, htake, List.take_length, hlen, List.drop_of_length_le (by omega),
      List.append_nil]
    rfl
  unfold appendFormat ensureBufferCapacity
  rw [if_pos (by rw [decide_eq_true_eq]; omega), hcopy, h]

/-- A character that is appended is behind the text. -/
theorem append_right (c : UInt8) (s : TextEncoderState) (hok : (append c s).1 = true) :
    (append c s).2.written = s.written ++ [c] := by
  rcases Nat.lt_or_ge s.responsePosition s.responseBuffer.length with hroom | hfull
  · obtain ⟨s', happend, h⟩ := append_spec c hroom
    rw [happend]
    exact h.written
  · rw [append_full c hfull] at hok
    cases hok

/-- Two calls that both return true. -/
theorem andThen_right {a b : TextEncoderState → Bool × TextEncoderState} {x y : Bytes}
    (ha : ∀ s, (a s).1 = true → (a s).2.written = s.written ++ x)
    (hb : ∀ s, (b s).1 = true → (b s).2.written = s.written ++ y) (s : TextEncoderState)
    (hok : (andThen a b s).1 = true) : (andThen a b s).2.written = s.written ++ (x ++ y) := by
  unfold andThen at hok ⊢
  dsimp only at hok ⊢
  split at hok
  · rename_i hfirst
    rw [if_pos hfirst, hb _ hok, ha s hfirst, List.append_assoc]
  · cases hok

/-- A text that is printed is behind the one before, unless it ends where the buffer does. -/
theorem appendFormat_right (hne : text ≠ []) (hzero : 0 ∉ text) :
    ((appendFormat text s).1 = true → (appendFormat text s).2.written = s.written ++ text) ↔
      s.responsePosition + text.length ≠ s.responseBuffer.length := by
  rcases Nat.lt_trichotomy (s.responsePosition + text.length) s.responseBuffer.length with hroom | heq | hlong
  · obtain ⟨s', happend, h, -⟩ := appendFormat_spec hroom
    rw [happend]
    exact iff_of_true (fun _ => h.written) (Nat.ne_of_lt hroom)
  · rw [appendFormat_exact hne heq]
    refine iff_of_false (fun h => ?_) (not_not.2 heq)
    have hall : s.written ++ (text.dropLast ++ [0]) = s.written ++ text := by
      refine Eq.trans ?_ (h rfl)
      refine (List.take_of_length_le ?_).symm
      change _ ≤ s.responseBuffer.length
      rw [List.length_append, List.length_append, List.length_dropLast, List.length_singleton, written,
        List.length_take]
      have := List.length_pos_iff.2 hne
      omega
    refine hzero ?_
    rw [← List.append_cancel_left hall]
    exact List.mem_append_right _ (List.mem_singleton_self 0)
  · rw [appendFormat_long hlong]
    exact iff_of_true (fun h => by cases h) (Nat.ne_of_gt hlong)

/-- A string is written up to its first NUL, or the call returns false. -/
theorem string_cases (value : Bytes) (s : TextEncoderState) :
    (s.responsePosition + (value.takeWhile (· ≠ 0)).length + 2 ≤ s.responseBuffer.length ∧
      ∃ s', string value s = (true, s') ∧ s.Extends (0x22 :: (value.takeWhile (· ≠ 0) ++ [0x22])) s') ∨
    (s.responseBuffer.length < s.responsePosition + (value.takeWhile (· ≠ 0)).length + 2 ∧
      (string value s).1 = false) := by
  generalize htext : value.takeWhile (· ≠ 0) = text
  rcases Nat.lt_or_ge s.responsePosition s.responseBuffer.length with hfirst | hfull
  · obtain ⟨s₁, hopen, h₁⟩ := append_spec 0x22 hfirst
    have hpos₁ : s₁.responsePosition = s.responsePosition + 1 := h₁.position
    have hlen₁ := h₁.length
    rcases Nat.lt_trichotomy (s₁.responsePosition + text.length) s₁.responseBuffer.length with hroom | heq | hlong
    · obtain ⟨s₂, hmiddle, h₂, -⟩ := appendFormat_spec hroom
      have hpos₂ := h₂.position
      have hlen₂ := h₂.length
      obtain ⟨s₃, hclose, h₃⟩ := append_spec (s := s₂) 0x22 (by omega)
      refine .inl ⟨by omega, s₃, ?_, h₁.trans (h₂.trans h₃)⟩
      simp only [string, andThen, hopen, htext, hmiddle, hclose, if_true]
    · -- there is no room for the quote
      refine .inr ⟨by omega, ?_⟩
      have hclose : (andThen (appendFormat text) (append 0x22) s₁).1 = false := by
        by_cases hempty : text = []
        · subst hempty
          simp only [List.length_nil, Nat.add_zero] at heq
          have happend : appendFormat [] s₁ = (true, s₁) := by
            unfold appendFormat ensureBufferCapacity snprintf
            simp only [List.length_nil, Nat.add_zero, heq, Nat.le_refl, decide_true, Nat.sub_self, if_true]
            rw [← heq]
          unfold andThen
          rw [happend]
          simp only [if_true, append_full 0x22 (Nat.le_of_eq heq.symm)]
        · unfold andThen
          rw [appendFormat_exact hempty heq]
          dsimp only
          rw [if_pos rfl, append_full]
          dsimp only
          rw [List.length_append, List.length_append, List.length_dropLast, List.length_singleton, written,
            List.length_take]
          have := List.length_pos_iff.2 hempty
          omega
      unfold string
      rw [htext, andThen, hopen]
      exact hclose
    · refine .inr ⟨by omega, ?_⟩
      unfold string
      rw [htext, andThen, hopen]
      simp only [if_true, andThen, appendFormat_long hlong, Bool.false_eq_true, if_false]
  · refine .inr ⟨by omega, ?_⟩
    unfold string
    rw [andThen, append_full 0x22 hfull]
    rfl

/-- A string is behind the text, unless it has a NUL within and is encoded. -/
theorem string_right (value : Bytes) (s : TextEncoderState) :
    ((string value s).1 = true → (string value s).2.written = s.written ++ (0x22 :: (value ++ [0x22]))) ↔
      (0 ∈ value → s.responseBuffer.length < s.responsePosition + (value.takeWhile (· ≠ 0)).length + 2) := by
  rcases string_cases value s with ⟨hroom, s', hstring, h⟩ | ⟨hlong, hfalse⟩
  · rw [hstring]
    refine ⟨fun hright hmem => ?_, fun hno _ => ?_⟩
    · have hsame := List.append_cancel_left (h.written.symm.trans (hright rfl))
      have htake : value.takeWhile (· ≠ 0) = value := List.append_cancel_right (List.cons.inj hsame).2
      have := List.takeWhile_eq_self_iff.1 htake 0 hmem
      exact absurd this (by decide)
    · rw [h.written, List.takeWhile_eq_self_iff.2]
      intro c hc
      rw [decide_eq_true_eq]
      rintro rfl
      have := hno hc
      omega
  · rw [hfalse]
    exact iff_of_true (fun h => by cases h) fun _ => hlong

/-- The bracket at the end is in the place of a separator. -/
theorem stop_right (c : UInt8) (hpos : s.responsePosition ≤ s.responseBuffer.length) (hok : (stop c s).1 = true) :
    (stop c s).2.written = withoutSeparator s.written ++ [c] := by
  have hlast : 0 < s.responsePosition →
      s.written.getLast? = some (s.responseBuffer.getD (s.responsePosition - 1) 0) := by
    intro hlt
    rw [List.getLast?_eq_getElem?, written, List.length_take, min_eq_left hpos,
      List.getElem?_take_of_lt (by omega), List.getD_eq_getElem _ _ (by omega), List.getElem?_eq_getElem (by omega)]
  have hnone : ¬ 0 < s.responsePosition → s.written.getLast? = none := by
    intro hzero
    rw [written, Nat.eq_zero_of_not_pos hzero, List.take_zero, List.getLast?_nil]
  unfold stop at hok ⊢
  dsimp only at hok ⊢
  by_cases hsep : 0 < s.responsePosition ∧ s.responseBuffer.getD (s.responsePosition - 1) 0 = 0x2C
  · rw [if_pos hsep] at hok ⊢
    rw [append_right c _ hok, withoutSeparator, if_pos (by rw [hlast hsep.1, hsep.2])]
    congr 1
    rw [written, written, List.dropLast_eq_take, List.length_take, Nat.min_eq_left hpos, List.take_take,
      Nat.min_eq_left (Nat.sub_le _ _)]
  · rw [if_neg hsep] at hok ⊢
    rw [append_right c _ hok, withoutSeparator, if_neg]
    · rfl
    · intro hcomma
      by_cases hlt : 0 < s.responsePosition
      · rw [hlast hlt] at hcomma
        exact hsep ⟨hlt, Option.some.inj hcomma⟩
      · rw [hnone hlt] at hcomma
        cases hcomma

/-- A call is right on the buffer, unless its text ends where the buffer does or it is cut at a NUL. -/
theorem call_right (hE : E.Prints) (op : EncodeOp) (hpos : s.responsePosition ≤ s.responseBuffer.length) :
    (succeeded op (textEncoder E op s).1 = true →
        (textEncoder E op s).2.written = expected E s.written op) ↔
      (∀ text ∈ printed E op, s.responsePosition + text.length ≠ s.responseBuffer.length) ∧
        ∀ value ∈ stringValue op, 0 ∈ value →
          s.responseBuffer.length < s.responsePosition + (value.takeWhile (· ≠ 0)).length + 2 := by
  have hprinted {text : Bytes} (hne : text ≠ []) (hzero : 0 ∉ text) (hop : printed E op = some text)
      (hstring : stringValue op = none) :
      ((appendFormat text s).1 = true → (appendFormat text s).2.written = s.written ++ text) ↔
        (∀ text ∈ printed E op, s.responsePosition + text.length ≠ s.responseBuffer.length) ∧
        ∀ value ∈ stringValue op, 0 ∈ value →
          s.responseBuffer.length < s.responsePosition + (value.takeWhile (· ≠ 0)).length + 2 := by
    rw [appendFormat_right hne hzero, hop, hstring]
    simp only [Option.mem_some_iff, forall_eq', Option.not_mem_none, false_implies, implies_true, and_true]
  have hdecimal (n : ℕ) : 0 ∉ decimal n := fun h => absurd (isDigit_of_mem_decimal h) (by decide)
  have hstructure {ok : Bool} {s' : TextEncoderState} (hop : printed E op = none)
      (hstring : stringValue op = none) (h : ok = true → s'.written = expected E s.written op) :
      (ok = true → s'.written = expected E s.written op) ↔
        (∀ text ∈ printed E op, s.responsePosition + text.length ≠ s.responseBuffer.length) ∧
        ∀ value ∈ stringValue op, 0 ∈ value →
          s.responseBuffer.length < s.responsePosition + (value.takeWhile (· ≠ 0)).length + 2 := by
    rw [hop, hstring]
    exact iff_of_true h ⟨by rintro _ ⟨⟩, by rintro _ ⟨⟩⟩
  cases op with
  | string value =>
    refine (string_right value s).trans ⟨fun h => ⟨by rintro _ ⟨⟩, ?_⟩, fun h => h.2 value rfl⟩
    rintro _ ⟨⟩
    exact h
  | float value => exact hprinted (hE _).1 (hE _).2 rfl rfl
  | double value => exact hprinted (hE _).1 (hE _).2 rfl rfl
  | bool value => exact hprinted (by cases value <;> decide) (by cases value <;> decide) rfl rfl
  | uint w value => exact hprinted (decimal_ne_nil value) (hdecimal value) rfl rfl
  | int w value =>
    refine hprinted ?_ ?_ rfl rfl
    · unfold signedDecimal
      split
      · exact List.cons_ne_nil _ _
      · exact decimal_ne_nil _
    · unfold signedDecimal
      split
      · exact List.not_mem_cons_of_ne_of_not_mem (by decide) (hdecimal _)
      · exact hdecimal _
  | null => exact hprinted (by decide) (by decide) rfl rfl
  | listStart | mapStart =>
    exact hstructure rfl rfl fun hok => append_right _ { s with depth := s.depth + 1 } hok
  | listEnd | mapEnd => exact hstructure rfl rfl (stop_right _ hpos)
  | listSeparator | keyValuePairSeparator => exact hstructure rfl rfl (append_right _ s)
  | truncationMarker =>
    have hdot := append_right 0x2E
    exact hstructure rfl rfl (andThen_right hdot (andThen_right hdot hdot) s)
  | preamble =>
    refine hstructure rfl rfl fun _ => ?_
    exact (List.append_nil _).symm
  | bytes | encodeKeysAsIds | renderGroupAsOutline | renderedListLength =>
    exact hstructure rfl rfl fun hok => by cases hok

end TextEncoder

namespace PlacedTextEncoder

variable {E : TextEncoderConfig} {t : PlacedTextEncoder}

theorem content_eq (h : t.responsePosition ≤ t.responseSize) : t.content = t.view.written :=
  (Memory.take_read h).symm

/-- **A call is right if and only if it fits.** -/
theorem right_iff (hE : E.Prints) (op : EncodeOp) (h : t.responsePosition ≤ t.responseSize) :
    t.Right E op ↔ t.Fits E op := by
  obtain ⟨hsim, hkeeps⟩ := simulates E op t h
  have hcall := TextEncoder.call_right (s := t.view) hE op (by rwa [length_view])
  rw [hsim, length_view, view_responsePosition, ← content_eq h] at hcall
  dsimp only at hcall
  rw [← content_eq hkeeps.position_le] at hcall
  exact ⟨fun hright => hcall.1 hright.content, fun hfits => ⟨hkeeps.outside, hcall.2 hfits⟩⟩

instance (op : EncodeOp) : Decidable (t.Fits E op) :=
  decidable_of_iff
    ((∀ text ∈ (printed E op).toList, t.responsePosition + text.length ≠ t.responseSize) ∧
      ∀ value ∈ (stringValue op).toList, 0 ∈ value →
        t.responseSize < t.responsePosition + (value.takeWhile (· ≠ 0)).length + 2)
    (by simp only [Option.mem_toList, Option.mem_def, Fits])

/-- A new encoder. -/
def construct (memory : Memory UInt8) (buffer size : ℕ) (abbreviateArrays outlineGroups : Bool) :
    PlacedTextEncoder where
  memory := memory
  responseBuffer := buffer
  responseSize := size
  abbreviateArrays := abbreviateArrays
  outlineGroups := outlineGroups

/-- No sequence of calls writes outside the buffer. -/
theorem keeps_run {t' : PlacedTextEncoder} (h : t.responsePosition ≤ t.responseSize) {ops : List EncodeOp}
    (hrun : runFrom (step E) t ops = some t') : t.Keeps t' := by
  refine runFrom_invariant (P := fun t' => t.Keeps t') (fun t₁ op t₂ h₁ hstep => ?_) (.refl h) hrun
  obtain rfl := Option.some.inj hstep
  exact h₁.trans (simulates E op t₁ h₁.position_le).2

/-- The calls of a sequence are all right if and only if they all fit. -/
theorem meets_right_iff (hE : E.Prints) (ops : List EncodeOp) (h : t.responsePosition ≤ t.responseSize) :
    Meets (step E) (Right E) t ops ↔ Meets (step E) (Fits E) t ops := by
  induction ops generalizing t with
  | nil => exact Iff.rfl
  | cons op ops ih =>
    refine and_congr (right_iff hE op h) (forall_congr' fun t₁ => imp_congr_right fun hstep => ih ?_)
    obtain rfl := Option.some.inj hstep
    exact (simulates E op t h).2.position_le

/-- **A new encoder never writes outside its buffer, in any sequence of calls. Each call that returns true leaves
what was there before and the text of what it encodes, if and only if no number, boolean or null ends where the
buffer does, and no string that is encoded has a NUL in it.** -/
theorem right_iff_fits (hE : E.Prints) (memory : Memory UInt8) (buffer size : ℕ)
    (abbreviateArrays outlineGroups : Bool) (ops : List EncodeOp) :
    (∀ t, runFrom (step E) (construct memory buffer size abbreviateArrays outlineGroups) ops = some t →
      ∀ a, a < buffer ∨ buffer + size ≤ a → t.memory a = memory a) ∧
    (Meets (step E) (Right E) (construct memory buffer size abbreviateArrays outlineGroups) ops ↔
      Meets (step E) (Fits E) (construct memory buffer size abbreviateArrays outlineGroups) ops) :=
  ⟨fun _ hrun a ha => (keeps_run (Nat.zero_le size) hrun).outside a ha, meets_right_iff hE ops (Nat.zero_le size)⟩

/-- Floating-point numbers, of which there is only 0. -/
def zeroOnly : TextEncoderConfig := ⟨fun _ => [0x30, 0x2E, 0x30, 0x30, 0x30, 0x30, 0x30, 0x30], fun _ => 0, 0⟩

theorem zeroOnly_prints : zeroOnly.Prints := by
  intro value
  exact ⟨by simp [zeroOnly], by simp [zeroOnly]⟩

/-- `[-5,0.000000,1]` in a buffer of 15 characters, which it fills. -/
theorem numberList_right :
    Meets (step zeroOnly) (Right zeroOnly) (construct (fun _ => 0xFF) 0x2000 15 false false)
      [.listStart (some 3), .int .w8 (-5), .listSeparator, .double 0, .listSeparator, .bool true, .listSeparator,
        .listEnd (some 3)] :=
  (right_iff_fits (E := zeroOnly) zeroOnly_prints (fun _ => 0xFF) 0x2000 15 false false
    [.listStart (some 3), .int .w8 (-5), .listSeparator, .double 0, .listSeparator, .bool true, .listSeparator,
      .listEnd (some 3)]).2.2 (by decide +kernel)

/-- The number 10 in a buffer of two characters: the call returns true, and the text is `1` with a NUL. -/
theorem ten_cut :
    (placedTextEncoder zeroOnly (.uint .w8 10) (construct (fun _ => 0xFF) 0x2000 2 false false)).1 = true ∧
      (placedTextEncoder zeroOnly (.uint .w8 10) (construct (fun _ => 0xFF) 0x2000 2 false false)).2.content =
        [0x31, 0] ∧
      ¬ Right zeroOnly (construct (fun _ => 0xFF) 0x2000 2 false false) (.uint .w8 10) := by
  have hcontent : (placedTextEncoder zeroOnly (.uint .w8 10)
      (construct (fun _ => 0xFF) 0x2000 2 false false)).2.content = [0x31, 0] := by decide +kernel
  refine ⟨by decide +kernel, hcontent, fun h => ?_⟩
  have hright := h.content (by decide +kernel)
  rw [hcontent] at hright
  exact absurd hright (by decide +kernel)

end PlacedTextEncoder

end ThingSet
