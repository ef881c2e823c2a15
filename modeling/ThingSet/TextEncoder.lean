import ThingSet.Encoder

/-!
# The text encoder

`ThingSetTextEncoder` implements the encoder interface on a buffer of characters. Every element of a list and
every pair of a map has a separator behind it; the end of the list or map is put in the place of the last one.

`Extends`: what a call writes, behind the text that the buffer has.
-/

namespace ThingSet

open Interaction Prog

/-- The texts of floating-point numbers, `TS_FLOAT_FORMAT`, with the conversion of a float to a double, and
`CONFIG_THINGSET_PLUS_PLUS_TEXT_ARRAY_MAX`, or 0. -/
structure TextEncoderConfig where
  double : UInt64 → Bytes
  ofFloat : UInt32 → UInt64
  arrayMax : ℕ := 0

/-- The members of a `ThingSetTextEncoder`. The buffer has `_responseSize` bytes; the options are those of
`TextEncoderOptions`. -/
structure TextEncoderState where
  responseBuffer : Bytes
  responsePosition : ℕ := 0
  depth : UInt8 := 0
  abbreviateArrays : Bool := false
  outlineGroups : Bool := false

namespace TextEncoder

/-- `append`. -/
def append (c : UInt8) (s : TextEncoderState) : Bool × TextEncoderState :=
  if s.responseBuffer.length ≤ s.responsePosition then (false, s)
  else (true, { s with
    responseBuffer := s.responseBuffer.set s.responsePosition c
    responsePosition := s.responsePosition + 1 })

/-- `ensureBufferCapacity` for a text. -/
def ensureBufferCapacity (text : Bytes) (s : TextEncoderState) : Bool :=
  s.responsePosition + text.length ≤ s.responseBuffer.length

/-- `appendFormat` of a value with this text. -/
def appendFormat (text : Bytes) (s : TextEncoderState) : Bool × TextEncoderState :=
  if ensureBufferCapacity text s then
    (true, { s with
      responseBuffer := snprintf s.responseBuffer s.responsePosition text
      responsePosition := s.responsePosition + text.length })
  else (false, s)

/-- `a && b`. -/
def andThen (a b : TextEncoderState → Bool × TextEncoderState) (s : TextEncoderState) :
    Bool × TextEncoderState :=
  let (ok, s) := a s
  if ok then b s else (false, s)

/-- `encode(const char *)`. -/
def string (value : Bytes) : TextEncoderState → Bool × TextEncoderState :=
  andThen (append 0x22) (andThen (appendFormat (value.takeWhile (· ≠ 0))) (append 0x22))

/-- `encodeMapStart`, `encodeListStart`. -/
def start (c : UInt8) (s : TextEncoderState) : Bool × TextEncoderState :=
  append c { s with depth := s.depth + 1 }

/-- `encodeMapEnd`, `encodeListEnd`. -/
def stop (c : UInt8) (s : TextEncoderState) : Bool × TextEncoderState :=
  let s := { s with depth := s.depth - 1 }
  let s :=
    if 0 < s.responsePosition ∧ s.responseBuffer.getD (s.responsePosition - 1) 0 = 0x2C then
      { s with responsePosition := s.responsePosition - 1 }
    else s
  append c s

/-- `renderedListLength`. -/
def renderedListLength (E : TextEncoderConfig) (size : ℕ) (s : TextEncoderState) : ℕ :=
  if 0 < E.arrayMax ∧ s.abbreviateArrays ∧ 0 < s.depth ∧ E.arrayMax < size then E.arrayMax else size

end TextEncoder

open TextEncoder in
/-- `ThingSetTextEncoder`. -/
def textEncoder (E : TextEncoderConfig) : Encoder TextEncoderState
  | .string value, s => string value s
  | .float value, s => appendFormat (E.double (E.ofFloat value)) s
  | .double value, s => appendFormat (E.double value) s
  | .bool value, s => appendFormat (if value then [0x31] else [0x30]) s
  | .uint _ value, s => appendFormat (decimal value) s
  | .int _ value, s => appendFormat (signedDecimal value) s
  | .null, s => appendFormat [0x6E, 0x75, 0x6C, 0x6C] s
  | .preamble, s => (true, s)
  | .listStart _, s => start 0x5B s
  | .listEnd _, s => stop 0x5D s
  | .mapStart _, s => start 0x7B s
  | .mapEnd _, s => stop 0x7D s
  | .bytes _, s => (false, s)
  | .listSeparator, s => append 0x2C s
  | .keyValuePairSeparator, s => append 0x3A s
  | .encodeKeysAsIds, s => (false, s)
  | .renderGroupAsOutline, s => (s.outlineGroups && 0 < s.depth, s)
  | .renderedListLength size, s => (renderedListLength E size s, s)
  | .truncationMarker, s => andThen (append 0x2E) (andThen (append 0x2E) (append 0x2E)) s

/-! ## What is written -/

namespace TextEncoderState

/-- The text that has been written. -/
def written (s : TextEncoderState) : Bytes := s.responseBuffer.take s.responsePosition

/-- The buffer has `text` behind what it had. -/
structure Extends (s : TextEncoderState) (text : Bytes) (s' : TextEncoderState) : Prop where
  written : s'.written = s.written ++ text
  position : s'.responsePosition = s.responsePosition + text.length
  length : s'.responseBuffer.length = s.responseBuffer.length
  abbreviateArrays : s'.abbreviateArrays = s.abbreviateArrays

/-- There is room for a text, and for a NUL behind it. -/
def Room (s : TextEncoderState) (text : Bytes) : Prop :=
  s.responsePosition + text.length < s.responseBuffer.length

instance (s : TextEncoderState) (text : Bytes) : Decidable (s.Room text) := Nat.decLt _ _

/-- There is room for a text, which may fill the buffer. -/
def Takes (s : TextEncoderState) (text : Bytes) : Prop :=
  s.responsePosition + text.length ≤ s.responseBuffer.length

variable {s s₁ s₂ : TextEncoderState} {text₁ text₂ : Bytes}

theorem Extends.refl : s.Extends [] s := ⟨(List.append_nil _).symm, rfl, rfl, rfl⟩

theorem Extends.trans (h₁ : s.Extends text₁ s₁) (h₂ : s₁.Extends text₂ s₂) :
    s.Extends (text₁ ++ text₂) s₂ where
  written := by rw [h₂.written, h₁.written, List.append_assoc]
  position := by rw [h₂.position, h₁.position, List.length_append, Nat.add_assoc]
  length := h₂.length.trans h₁.length
  abbreviateArrays := h₂.abbreviateArrays.trans h₁.abbreviateArrays

theorem Room.left (h : s.Room (text₁ ++ text₂)) : s.Room text₁ := by
  rw [Room, List.length_append] at h
  rw [Room]
  omega

theorem Room.right (h : s.Room (text₁ ++ text₂)) (hs : s.Extends text₁ s₁) : s₁.Room text₂ := by
  rw [Room, List.length_append] at h
  rw [Room, hs.position, hs.length]
  omega

theorem Room.takes (h : s.Room text₁) : s.Takes text₁ := Nat.le_of_lt h

theorem Takes.of_length_le (h : s.Takes text₁) (hle : text₂.length ≤ text₁.length) : s.Takes text₂ :=
  (Nat.add_le_add_left hle _).trans h

theorem Takes.left (h : s.Takes (text₁ ++ text₂)) : s.Takes text₁ :=
  h.of_length_le (by rw [List.length_append]; omega)

/-- A text with another one behind it does not fill the buffer. -/
theorem Takes.room (h : s.Takes (text₁ ++ text₂)) (hne : text₂ ≠ []) : s.Room text₁ := by
  have hpos := List.length_pos_iff.2 hne
  rw [Takes, List.length_append] at h
  rw [Room]
  omega

theorem Takes.right (h : s.Takes (text₁ ++ text₂)) (hs : s.Extends text₁ s₁) : s₁.Takes text₂ := by
  rw [Takes, List.length_append] at h
  rw [Takes, hs.position, hs.length]
  omega

end TextEncoderState

namespace TextEncoder

open TextEncoderState

variable {s s₀ : TextEncoderState} {text : Bytes}

/-- `append` writes the character. -/
theorem append_spec (c : UInt8) (h : s.responsePosition < s.responseBuffer.length) :
    ∃ s', append c s = (true, s') ∧ s.Extends [c] s' := by
  refine ⟨_, if_neg (by omega), ?_, rfl, List.length_set .., rfl⟩
  rw [written, written]
  dsimp only
  rw [List.take_succ_eq_append_getElem (by rwa [List.length_set]), List.take_set_of_le (Nat.le_refl _),
    List.getElem_set_self]

/-- `appendFormat` writes the text, and a NUL behind it. -/
theorem appendFormat_spec (h : s.Room text) :
    ∃ s', appendFormat text s = (true, s') ∧ s.Extends text s' ∧
      (s'.responseBuffer.drop s'.responsePosition).headD 0 = 0 := by
  rw [Room] at h
  have hfits : text.take (s.responseBuffer.length - s.responsePosition - 1) = text :=
    List.take_of_length_le (by omega)
  have hlen : (s.responseBuffer.take s.responsePosition ++ text).length = s.responsePosition + text.length := by
    rw [List.length_append, List.length_take]
    omega
  have hcopy : snprintf s.responseBuffer s.responsePosition text =
      (s.responseBuffer.take s.responsePosition ++ text) ++
        (0 :: s.responseBuffer.drop (s.responsePosition + (text.length + 1))) := by
    rw [snprintf, if_neg (by omega), memcpy, hfits, List.take_length]
    simp
  refine ⟨_, if_pos (by rw [ensureBufferCapacity, decide_eq_true_eq]; omega), ⟨?_, rfl, ?_, rfl⟩, ?_⟩
  · rw [written, hcopy, List.take_left' hlen]
    rfl
  · rw [hcopy]
    simp only [List.length_append, List.length_take, List.length_cons, List.length_drop]
    omega
  · rw [hcopy, List.drop_left' hlen]
    rfl

/-- `encodeMapStart` and `encodeListStart` write the bracket. -/
theorem start_spec (c : UInt8) (h : s.responsePosition < s.responseBuffer.length) :
    ∃ s', start c s = (true, s') ∧ s.Extends [c] s' := by
  obtain ⟨s', happend, hs'⟩ := append_spec (s := { s with depth := s.depth + 1 }) c h
  exact ⟨s', happend, hs'.written, hs'.position, hs'.length, hs'.abbreviateArrays⟩

/-- The last character that is written. -/
theorem getD_last {c : UInt8} (hs : s₀.Extends (text ++ [c]) s)
    (h : s.responsePosition ≤ s.responseBuffer.length) :
    s.responseBuffer.getD (s.responsePosition - 1) 0 = c := by
  have hpos := hs.position
  have hlen := congrArg List.length hs.written
  have hget := congrArg (fun l : Bytes => l[s.responsePosition - 1]?) hs.written
  rw [List.length_append, List.length_singleton] at hpos
  rw [written, List.length_take, ← List.append_assoc, List.length_append, List.length_singleton] at hlen
  rw [written, List.getElem?_take_of_lt (by omega), ← List.append_assoc,
    List.getElem?_append_right (by omega), show s.responsePosition - 1 - (s₀.written ++ text).length = 0 by omega]
    at hget
  rw [List.getD_eq_getElem?_getD, hget]
  rfl

/-- `encodeMapEnd` and `encodeListEnd` put the bracket in the place of a separator. -/
theorem stop_spec_separator (c : UInt8) (hs : s₀.Extends (text ++ [0x2C]) s) (h : s₀.Takes (text ++ [c])) :
    ∃ s', stop c s = (true, s') ∧ s₀.Extends (text ++ [c]) s' := by
  have hpos := hs.position
  have hlen := hs.length
  rw [Takes] at h
  rw [List.length_append, List.length_singleton] at hpos h
  have hlast := getD_last hs (by omega)
  have hbefore : s₀.Extends text { s with depth := s.depth - 1, responsePosition := s.responsePosition - 1 } := by
    refine ⟨?_, ?_, hs.length, hs.abbreviateArrays⟩
    · have hwritten := congrArg List.dropLast hs.written
      rw [← List.append_assoc, List.dropLast_concat, written, List.dropLast_eq_take, List.length_take,
        Nat.min_eq_left (by omega), List.take_take, Nat.min_eq_left (Nat.sub_le _ _)] at hwritten
      exact hwritten
    · dsimp only
      omega
  obtain ⟨s', happend, hs'⟩ := append_spec c
    (s := { s with depth := s.depth - 1, responsePosition := s.responsePosition - 1 }) (by dsimp only; omega)
  refine ⟨s', ?_, hbefore.trans hs'⟩
  rw [stop]
  dsimp only
  rw [if_pos ⟨by omega, hlast⟩, happend]

/-- Behind another character they write the bracket. -/
theorem stop_spec_other (text : Bytes) (c : UInt8) {d : UInt8} (hs : s₀.Extends (text ++ [d]) s) (hd : d ≠ 0x2C)
    (h : s₀.Takes (text ++ [d] ++ [c])) :
    ∃ s', stop c s = (true, s') ∧ s₀.Extends (text ++ [d] ++ [c]) s' := by
  have hpos := hs.position
  have hlen := hs.length
  rw [Takes] at h
  rw [List.length_append, List.length_singleton] at hpos
  rw [List.length_append, List.length_append, List.length_singleton, List.length_singleton] at h
  have hlast := getD_last hs (by omega)
  obtain ⟨s', happend, hs'⟩ := append_spec c (s := { s with depth := s.depth - 1 }) (by dsimp only; omega)
  refine ⟨s', ?_, hs.trans ⟨hs'.written, hs'.position, hs'.length, hs'.abbreviateArrays⟩⟩
  rw [stop]
  dsimp only
  rw [if_neg (by rw [hlast]; exact fun h => hd h.2), happend]

end TextEncoder

end ThingSet
