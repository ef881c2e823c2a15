import ThingSet.BinaryDecoder
import ThingSet.BinaryEncoder
import ThingSet.Server.Basic

/-!
# What follows a request in its buffer

The receive buffer is used again for the next request, and the text decoder's tokens are never
cleared. A response should depend on neither.

* `request_irrelevant`: it depends on neither when the request makes no stale read (`staleReads`):
  every token that is read is filled from the request, whatever byte follows it, every character
  and every type byte that is read lies within the request, and a text request without a space
  reads no payload.
-/

namespace ThingSet

open Interaction Prog TextDecoder

/-! ## Text requests -/

/-- Two tokens that a decoder takes for the same: it asks for the end of strings only. -/
def JsmnTok.agrees (t t' : JsmnTok) : Bool :=
  t.type = t'.type ∧ t.start = t'.start ∧ (t.type = .string → t.stop = t'.stop)

/-- The token that the tokenizer fills at an index whatever byte follows the payload. -/
def settledToken (payload : Bytes) (i : ℕ) : Option JsmnTok :=
  (Jsmn.parse payload maxTokens {}).tokens[i]?.filter fun t =>
    ∀ b < 256, (Jsmn.parse (payload ++ [UInt8.ofNat b]) maxTokens {}).tokens[i]?.any t.agrees

namespace TextDecoderState

variable (o : TextDecoderOptions) (s : TextDecoderState)

/-- The position behind the last character that a call looks at which finds the token `t`. -/
def readsUpTo (t : JsmnTok) : DecodeOp → ℕ
  | .string | .chars _ =>
    if t.type = .string then s.inputBuffer + toSize t.start + toSize (t.stop - t.start) else 0
  | .float | .double =>
    if t.type = .primitive then
      s.inputBuffer + toSize t.start + o.strtod.examined (s.textAt (toSize t.start))
    else 0
  | .uint _ | .int _ =>
    if t.type = .primitive then
      s.inputBuffer + toSize t.start + (numeral (s.textAt (toSize t.start))).examined
    else 0
  | .bool =>
    if t.type = .primitive then
      s.inputBuffer + toSize t.start +
        max (literalExamined TextDecoder.trueLiteral (s.textAt (toSize t.start)))
          (literalExamined TextDecoder.falseLiteral (s.textAt (toSize t.start)))
    else 0
  | .null =>
    if t.type = .primitive then
      s.inputBuffer + toSize t.start +
        literalExamined TextDecoder.nullLiteral (s.textAt (toSize t.start))
    else 0
  | _ => 0

/-- A call that reads a token which the request does not settle, or a character behind the
request, where the memory holds the request and nothing else. -/
def staleRead (op : DecodeOp) : Bool :=
  match op with
  | .bytes _ | .ensureListSize _ => false
  | .listEnd | .mapEnd => s.memory.length ≤ s.inputBuffer + s.bufferElemPtr
  | .isInList | .isInMap =>
    s.bufferElemPtr < s.bufferSize && s.memory.length ≤ s.inputBuffer + s.bufferElemPtr
  | op =>
    match settledToken s.js (if op = .skip then s.tokenIndex + 1 else s.tokenIndex) with
    | none => true
    | some t => s.memory.length < s.readsUpTo o t op

/-- The decoder of a request with nothing behind it in the memory, and the decoder of the same
request with something behind it and other tokens in the array. -/
structure SameRequest (s s' : TextDecoderState) : Prop where
  memory : s.memory <+: s'.memory
  inputBuffer : s'.inputBuffer = s.inputBuffer
  bufferSize : s'.bufferSize = s.bufferSize
  bufferElemPtr : s'.bufferElemPtr = s.bufferElemPtr
  tokenIndex : s'.tokenIndex = s.tokenIndex
  inputBuffer_le : s.inputBuffer ≤ s.memory.length
  bufferEnd : s.inputBuffer + s.bufferSize = s.memory.length + 1
  parsed : s.parser = {} ∨ s.parser = Jsmn.parse s.js maxTokens {}
  parsed' : s'.parser = {} ∨ s'.parser = Jsmn.parse s'.js maxTokens {}

/-! ### Tokens -/

variable {o s} {s' : TextDecoderState} {t : JsmnTok} {i : ℕ}

theorem getTokens_of_parsed (h : s.parser = {} ∨ s.parser = Jsmn.parse s.js maxTokens {}) :
    s.getTokens = { s with parser := Jsmn.parse s.js maxTokens {} } := by
  rw [getTokens]
  rcases h with h | h
  · simp [h]
  · split
    · rw [h, Jsmn.parse_parse]
    · rw [← h]

namespace SameRequest

variable (h : SameRequest s s')
include h

/-- The tokenizer is given one byte behind the payload at most. -/
theorem js_eq : s'.js = s.js ∨ ∃ b, s'.js = s.js ++ [b] := by
  obtain ⟨tail, htail⟩ := h.memory
  have hlen : s.bufferSize = (s.memory.drop s.inputBuffer).length + 1 := by
    have := h.bufferEnd
    have := h.inputBuffer_le
    rw [List.length_drop]
    omega
  have hjs : s.js = s.memory.drop s.inputBuffer := by
    rw [js, hlen, List.take_of_length_le (by omega)]
  have hjs' : s'.js = s.js ++ tail.take 1 := by
    rw [js, h.inputBuffer, h.bufferSize, ← htail, List.drop_append_of_le_length h.inputBuffer_le, hlen,
      List.take_append, hjs, List.take_of_length_le (by omega), Nat.add_sub_cancel_left]
  rcases tail with _ | ⟨b, tail⟩
  · exact .inl (by simpa using hjs')
  · exact .inr ⟨b, by simpa using hjs'⟩

/-- A settled token is filled alike in both decoders. -/
theorem token_of_settled (ht : settledToken s.js i = some t) :
    s.getTokens.token i = t ∧ t.agrees (s'.getTokens.token i) = true := by
  obtain ⟨hget, hall⟩ := Option.filter_eq_some_iff.1 ht
  have hany : (Jsmn.parse s'.js maxTokens {}).tokens[i]?.any t.agrees := by
    rcases h.js_eq with hjs | ⟨b, hjs⟩
    · rw [hjs, hget]
      simp [JsmnTok.agrees]
    · have hb := of_decide_eq_true hall b.toNat b.toNat_lt_size
      rwa [UInt8.ofNat_toNat, ← hjs] at hb
  obtain ⟨t', ht', hagrees⟩ := (Option.any_eq_true _ _).1 hany
  rw [getTokens_of_parsed h.parsed, getTokens_of_parsed h.parsed']
  simp only [token, List.getD_eq_getElem?_getD, hget, ht', Option.getD_some, true_and]
  exact hagrees

/-- Both decoders after the tokenizer has run. -/
theorem getTokens : SameRequest s.getTokens s'.getTokens := by
  rw [getTokens_of_parsed h.parsed, getTokens_of_parsed h.parsed']
  exact ⟨h.memory, h.inputBuffer, h.bufferSize, h.bufferElemPtr, h.tokenIndex, h.inputBuffer_le,
    h.bufferEnd, .inr rfl, .inr rfl⟩

/-- Both decoders at another position and token. -/
theorem move (ptr index : ℕ) :
    SameRequest { s with bufferElemPtr := ptr, tokenIndex := index }
      { s' with bufferElemPtr := ptr, tokenIndex := index } :=
  ⟨h.memory, h.inputBuffer, h.bufferSize, rfl, rfl, h.inputBuffer_le, h.bufferEnd, h.parsed,
    h.parsed'⟩

/-- Characters within the request are the same. -/
theorem textAt_take (offset : ℕ) {n : ℕ} (hn : s.inputBuffer + offset + n ≤ s.memory.length) :
    (s.textAt offset).take n = (s'.textAt offset).take n := by
  obtain ⟨tail, htail⟩ := h.memory
  rw [textAt, textAt, h.inputBuffer, ← htail, List.drop_append_of_le_length (by omega),
    List.take_append_of_le_length (by rw [List.length_drop]; omega)]

/-- What `expectType` does in both decoders when it finds a settled token. -/
theorem expectType_of_settled (ht : settledToken s.js s.tokenIndex = some t) (type : JsmnType) :
    (t.type ≠ type ∧ expectType type s = (none, s.getTokens) ∧
        expectType type s' = (none, s'.getTokens)) ∨
      t.type = type ∧ ∃ t', t.agrees t' = true ∧
        expectType type s = (some t, s.getTokens.accept t) ∧
        expectType type s' = (some t', s'.getTokens.accept t) := by
  obtain ⟨htoken, hagrees⟩ := h.token_of_settled ht
  have hagrees' := hagrees
  simp only [JsmnTok.agrees, decide_eq_true_eq] at hagrees'
  obtain ⟨htype, hstart, -⟩ := hagrees'
  have hindex : s.getTokens.tokenIndex = s.tokenIndex := by rw [getTokens_of_parsed h.parsed]
  have hindex' : s'.getTokens.tokenIndex = s.tokenIndex := by
    rw [← hindex, h.getTokens.tokenIndex]
  simp only [expectType, hindex, hindex', htoken]
  set t' := s'.getTokens.token s.tokenIndex
  by_cases hc : t.type = type
  · refine .inr ⟨hc, t', hagrees, by simp [hc], ?_⟩
    simp only [accept, ← htype, ← hstart, hc, ne_eq, not_true_eq_false, if_false]
  · exact .inl ⟨hc, by simp [hc], by simp [← htype, hc]⟩

theorem accept (t : JsmnTok) : SameRequest (s.accept t) (s'.accept t) := by
  have hmove := h.move (s.accept t).bufferElemPtr (s.tokenIndex + 1)
  simp only [TextDecoderState.accept, h.tokenIndex]
  exact hmove

end SameRequest

/-! ### Calls -/

/-- A call has equal results on both decoders and leaves decoders of the same request. -/
def SameResult {α : Type} (f : TextDecoderState → α × TextDecoderState)
    (s s' : TextDecoderState) : Prop :=
  (f s).1 = (f s').1 ∧ SameRequest (f s).2 (f s').2

namespace SameRequest

variable (h : SameRequest s s')
include h

/-- A call that asks for a token first: it is enough that what it does with a settled token is the
same. -/
theorem of_expectType {α : Type} (type : JsmnType) {d : α}
    {k : JsmnTok → TextDecoderState → α × TextDecoderState}
    (ht : settledToken s.js s.tokenIndex = some t)
    (hk : t.type = type → ∀ t', t.agrees t' = true →
      (k t (s.getTokens.accept t)).1 = (k t' (s'.getTokens.accept t)).1 ∧
        SameRequest (k t (s.getTokens.accept t)).2 (k t' (s'.getTokens.accept t)).2) :
    SameResult (fun s => match expectType type s with
      | (some token, s) => k token s
      | (none, s) => (d, s)) s s' := by
  rcases h.expectType_of_settled ht type with ⟨-, he, he'⟩ | ⟨htype, t', hagrees, he, he'⟩
  · simp only [SameResult, he, he', true_and]
    exact h.getTokens
  · simp only [SameResult, he, he']
    exact hk htype t' hagrees

/-- The characters of a settled scalar, as far as they lie within the request. -/
theorem text_of_accept {type : JsmnType} {n : ℕ} (htype : t.type = type) (harray : type ≠ .array)
    (hobject : type ≠ .object) (hn : s.inputBuffer + toSize t.start + n ≤ s.memory.length) :
    ((s.getTokens.accept t).textAt (s.getTokens.accept t).bufferElemPtr).take n =
      ((s'.getTokens.accept t).textAt (s'.getTokens.accept t).bufferElemPtr).take n := by
  subst htype
  rw [accept_bufferElemPtr harray hobject, accept_bufferElemPtr harray hobject]
  simp only [textAt_accept, textAt_getTokens]
  exact h.textAt_take _ hn

theorem string_same (ht : settledToken s.js s.tokenIndex = some t)
    (hread : s.readsUpTo o t .string ≤ s.memory.length) : SameResult string s s' :=
  h.of_expectType _ ht fun htype t' hagrees => by
    simp only [JsmnTok.agrees, decide_eq_true_eq] at hagrees
    simp only [readsUpTo, htype, if_true] at hread
    refine ⟨?_, h.getTokens.accept t⟩
    rw [← hagrees.2.1, ← hagrees.2.2 htype]
    simp only [h.text_of_accept htype (by decide) (by decide) hread]

theorem chars_same {size : ℕ} (ht : settledToken s.js s.tokenIndex = some t)
    (hread : s.readsUpTo o t (.chars size) ≤ s.memory.length) : SameResult (chars size) s s' :=
  h.of_expectType _ ht fun htype t' hagrees => by
    simp only [JsmnTok.agrees, decide_eq_true_eq] at hagrees
    simp only [readsUpTo, htype, if_true] at hread
    refine ⟨?_, h.getTokens.accept t⟩
    have hcopy := strncpy_congr (h.text_of_accept htype (by decide) (by decide) hread)
    simp only [← hagrees.2.1, ← hagrees.2.2 htype, hcopy]

/-- A conversion that looks at characters of the request only. -/
theorem decodePrimitive_same {α : Type} {parseFunc : Bytes → α × ℕ} (examined : Bytes → ℕ)
    (hparse : ∀ text text' : Bytes, text.take (examined text) = text'.take (examined text) →
      parseFunc text' = parseFunc text)
    (ht : settledToken s.js s.tokenIndex = some t)
    (hread : t.type = .primitive →
      s.inputBuffer + toSize t.start + examined (s.textAt (toSize t.start)) ≤ s.memory.length) :
    SameResult (decodePrimitive parseFunc) s s' :=
  h.of_expectType _ ht fun htype t' hagrees => by
    simp only [JsmnTok.agrees, decide_eq_true_eq] at hagrees
    have hparsed := hparse _ _ (h.textAt_take _ (hread htype))
    have haccept := h.getTokens.accept t
    simp only [textAt_accept, textAt_getTokens, ← hagrees.2.1, hparsed, haccept.bufferElemPtr,
      true_and]
    simpa only [haccept.tokenIndex] using haccept.move _ (s.getTokens.accept t).tokenIndex

theorem bool_same (ht : settledToken s.js s.tokenIndex = some t)
    (hread : s.readsUpTo o t .bool ≤ s.memory.length) : SameResult bool s s' :=
  h.of_expectType _ ht fun htype t' _ => by
    simp only [readsUpTo, htype, if_true] at hread
    refine ⟨?_, h.getTokens.accept t⟩
    have hptr : (s.getTokens.accept t).bufferElemPtr = toSize t.start :=
      accept_bufferElemPtr (by simp [htype]) (by simp [htype])
    have htrue := isLiteral_congr trueLiteral
      (h.text_of_accept htype (by decide) (by decide) (by
        simp only [hptr, textAt_accept, textAt_getTokens]; omega))
    have hfalse := isLiteral_congr falseLiteral
      (h.text_of_accept htype (by decide) (by decide) (by
        simp only [hptr, textAt_accept, textAt_getTokens]; omega))
    simp only [htrue, hfalse]

theorem null_same (ht : settledToken s.js s.tokenIndex = some t)
    (hread : s.readsUpTo o t .null ≤ s.memory.length) : SameResult null s s' :=
  h.of_expectType _ ht fun htype t' _ => by
    simp only [readsUpTo, htype, if_true] at hread
    refine ⟨?_, h.getTokens.accept t⟩
    have hptr : (s.getTokens.accept t).bufferElemPtr = toSize t.start :=
      accept_bufferElemPtr (by simp [htype]) (by simp [htype])
    have hnull := isLiteral_congr nullLiteral
      (h.text_of_accept htype (by decide) (by decide) (by
        simp only [hptr, textAt_accept, textAt_getTokens]; exact hread))
    simp only [hnull]

theorem start_same {type : JsmnType} (ht : settledToken s.js s.tokenIndex = some t) :
    SameResult (start type) s s' := by
  have hsame := h.of_expectType type (d := false) (k := fun _ s => (true, s)) ht
    fun _ _ _ => ⟨rfl, h.getTokens.accept t⟩
  have hstart : ∀ s, start type s = match expectType type s with
      | (some _, s) => (true, s)
      | (none, s) => (false, s) := fun s => by
    rcases he : expectType type s with ⟨_ | _, s₁⟩ <;> simp [start, he]
  simpa only [SameResult, hstart] using hsame

theorem stop_same {c : UInt8} (hread : s.inputBuffer + s.bufferElemPtr < s.memory.length) :
    SameResult (stop c) s s' := by
  have hchar := headD_of_take (h.textAt_take s.bufferElemPtr (n := 1) hread)
  simp only [SameResult, stop, h.bufferElemPtr, hchar]
  split
  · exact ⟨rfl, by simpa only [h.tokenIndex] using h.move (s.bufferElemPtr + 1) s.tokenIndex⟩
  · exact ⟨rfl, h⟩

theorem isIn_same {c : UInt8} (hread : s.bufferElemPtr < s.bufferSize →
    s.inputBuffer + s.bufferElemPtr < s.memory.length) : isIn c s = isIn c s' := by
  simp only [isIn, h.bufferElemPtr, h.bufferSize]
  by_cases hlt : s.bufferElemPtr < s.bufferSize
  · rw [headD_of_take (h.textAt_take s.bufferElemPtr (n := 1) (hread hlt))]
  · simp [hlt]

theorem peekType_same (ht : settledToken s.js s.tokenIndex = some t) :
    SameResult peekType s s' := by
  obtain ⟨htoken, hagrees⟩ := h.token_of_settled ht
  simp only [JsmnTok.agrees, decide_eq_true_eq] at hagrees
  have hindex : s.getTokens.tokenIndex = s.tokenIndex := by rw [getTokens_of_parsed h.parsed]
  have hindex' := h.getTokens.tokenIndex.trans hindex
  simp only [SameResult, peekType, hindex, hindex', htoken, ← hagrees.1]
  cases t.type <;> exact ⟨rfl, h.getTokens⟩

theorem skip_same (ht : settledToken s.js (s.tokenIndex + 1) = some t) :
    SameResult skip s s' := by
  obtain ⟨u, hu⟩ : ∃ u : TextDecoderState, { s with tokenIndex := s.tokenIndex + 1 } = u := ⟨_, rfl⟩
  obtain ⟨u', hu'⟩ : ∃ u' : TextDecoderState, { s' with tokenIndex := s'.tokenIndex + 1 } = u' :=
    ⟨_, rfl⟩
  have hnext : SameRequest u u' := by
    rw [← hu, ← hu']
    simpa only [h.bufferElemPtr, h.tokenIndex] using h.move s.bufferElemPtr (s.tokenIndex + 1)
  have hindex : u.getTokens.tokenIndex = s.tokenIndex + 1 := by
    rw [getTokens_of_parsed hnext.parsed, ← hu]
  obtain ⟨htoken, hagrees⟩ := hnext.token_of_settled (i := s.tokenIndex + 1) (t := t) (by
    rw [← ht, ← hu]; rfl)
  simp only [JsmnTok.agrees, decide_eq_true_eq] at hagrees
  simp only [SameResult, skip, hu, hu', true_and, hnext.getTokens.tokenIndex, hindex, htoken,
    ← hagrees.2.1]
  exact hnext.getTokens.move (toSize t.start) (s.tokenIndex + 1)

/-- **A call that is not stale has equal results on both decoders.** -/
theorem textDecoder_same {op : DecodeOp} (hop : s.staleRead o op = false) :
    (textDecoder o op s).1 = (textDecoder o op s').1 ∧
      SameRequest (textDecoder o op s).2 (textDecoder o op s').2 := by
  have hsettled : ∀ i, (match settledToken s.js i with
      | none => true
      | some t => decide (s.memory.length < s.readsUpTo o t op)) = false →
      ∃ t, settledToken s.js i = some t ∧ s.readsUpTo o t op ≤ s.memory.length := by
    intro i hi
    rcases ht : settledToken s.js i with _ | t <;> simp_all
  cases op with
  | bytes capacity => exact ⟨rfl, h⟩
  | ensureListSize size => exact ⟨rfl, h⟩
  | listEnd => exact h.stop_same (by simpa [staleRead] using hop)
  | mapEnd => exact h.stop_same (by simpa [staleRead] using hop)
  | isInList => exact ⟨h.isIn_same (by simpa [staleRead] using hop), h⟩
  | isInMap => exact ⟨h.isIn_same (by simpa [staleRead] using hop), h⟩
  | skip =>
    obtain ⟨t, ht, -⟩ := hsettled _ hop
    exact h.skip_same ht
  | peekType =>
    obtain ⟨t, ht, -⟩ := hsettled _ hop
    exact h.peekType_same ht
  | listStart =>
    obtain ⟨t, ht, -⟩ := hsettled _ hop
    exact h.start_same ht
  | mapStart =>
    obtain ⟨t, ht, -⟩ := hsettled _ hop
    exact h.start_same ht
  | string =>
    obtain ⟨t, ht, hread⟩ := hsettled _ hop
    exact h.string_same ht hread
  | chars size =>
    obtain ⟨t, ht, hread⟩ := hsettled _ hop
    exact h.chars_same ht hread
  | bool =>
    obtain ⟨t, ht, hread⟩ := hsettled _ hop
    exact h.bool_same ht hread
  | null =>
    obtain ⟨t, ht, hread⟩ := hsettled _ hop
    exact h.null_same ht hread
  | float =>
    obtain ⟨t, ht, hread⟩ := hsettled _ hop
    refine h.decodePrimitive_same o.strtod.examined (fun text text' htake => ?_) ht
      fun htype => by simpa [readsUpTo, htype] using hread
    rw [float, float, o.strtod.convert_congr text text' htake]
  | double =>
    obtain ⟨t, ht, hread⟩ := hsettled _ hop
    exact h.decodePrimitive_same _ o.strtod.convert_congr ht
      fun htype => by simpa [readsUpTo, htype] using hread
  | uint w =>
    obtain ⟨t, ht, hread⟩ := hsettled _ hop
    refine h.decodePrimitive_same (fun text => (numeral text).examined)
      (fun text text' htake => ?_) ht fun htype => by simpa [readsUpTo, htype] using hread
    rw [unsigned, unsigned, strtoul, strtoul, numeral_congr htake]
  | int w =>
    obtain ⟨t, ht, hread⟩ := hsettled _ hop
    refine h.decodePrimitive_same (fun text => (numeral text).examined)
      (fun text text' htake => ?_) ht fun htype => by simpa [readsUpTo, htype] using hread
    rw [signed, signed, strtol, strtol, numeral_congr htake]

end SameRequest

end TextDecoderState

/-! ## Requests -/

/-- How requests are written. -/
inductive RequestMode
  | binary
  | text
  deriving DecidableEq, Repr

variable {ι V A τ : Type} [DecidableEq ι]

namespace Server

variable (S : Server ι V A τ) (b : BinaryDecoderOptions) (o : TextDecoderOptions)

/-- The binary decoder reads the type of a data item where the request has ended. -/
def staleTypeRead (op : DecodeOp) (s : ZcborState) : Bool :=
  op = .peekType ∧ s.payloadEnd ≤ s.payload

/-- The calls of the decoder that are stale in a text request: all of them if there is no space in
the request, because a space right behind it changes where the payload is. -/
def staleTextRead (request : Bytes) (op : DecodeOp) (s : TextDecoderState) : Bool :=
  (memchr (request.drop 1) 0x20 request.length).isNone || s.staleRead o op

/-- `handleBinaryRequest`, `handleTextRequest`: what the server returns for the `requestLen` bytes
at the start of the memory, and the session that it leaves. -/
def handle (mode : RequestMode) (memory : Bytes) (requestLen : ℕ) (tokens : ℕ → JsmnTok)
    (s : Session ι V A τ) : Returned × Session ι V A τ :=
  match mode with
  | .binary =>
    (run (binaryDecoder b) (S.handleBinaryRequest (memory.headD 0) s)
      (.new 8 memory 1 (requestLen - 1) 2)).1
  | .text =>
    (run (textDecoder o) (S.handleRequest (textRequestContext memory requestLen tokens).1 s)
      (textRequestContext memory requestLen tokens).2).1

/-- An array of tokens none of which has been filled. -/
def noTokens (_ : ℕ) : JsmnTok := ⟨.undefined, -1, -1⟩

/-- The request is empty, or handling it makes a stale read. -/
def staleReads (mode : RequestMode) (request : Bytes) (s : Session ι V A τ) : Bool :=
  request.isEmpty ||
  match mode with
  | .binary =>
    (run (watch (binaryDecoder b) staleTypeRead) (S.handleBinaryRequest (request.headD 0) s)
      (.new 8 request 1 (request.length - 1) 2, false)).2.2
  | .text =>
    (run (watch (textDecoder o) (staleTextRead o request))
      (S.handleRequest (textRequestContext request request.length noTokens).1 s)
      ((textRequestContext request request.length noTokens).2, false)).2.2

/-! ### Binary requests -/

variable {S b o} {request : Bytes} {tokens : ℕ → JsmnTok} {s : Session ι V A τ}

/-- A call that asks zcbor for a value and looks at nothing but the value. -/
theorem respects_of_decode {α β : Type} {f : ZcborState → Option α × ZcborState}
    {g : ZcborState → Option β × ZcborState} (hf : ZcborDecode.Respects f) (check : α → Option β)
    (hg : ∀ s, g s = ((f s).1.bind check, (f s).2)) : ZcborDecode.Respects g := by
  intro u v huv
  rw [hg, hg, (hf u v huv).1]
  exact ⟨rfl, (hf u v huv).2⟩

theorem chars_respects (hZ : b.zcbor.ReadsBelowEnd) (size : ℕ) :
    ZcborDecode.Respects (BinaryDecoder.chars b size) := by
  refine respects_of_decode hZ.tstrDecode
    (fun z => if z.length ≤ size then some (strncpy z z.length ++ [0]) else none) fun s => ?_
  rcases hs : b.zcbor.tstrDecode s with ⟨_ | z, s'⟩ <;> simp only [BinaryDecoder.chars, hs] <;> rfl

theorem narrowUInt_respects (hZ : b.zcbor.ReadsBelowEnd) (max : ℕ) :
    ZcborDecode.Respects (BinaryDecoder.narrowUInt b max) := by
  refine respects_of_decode hZ.uint32Decode (fun i => if i < max then some i else none) fun s => ?_
  rcases hs : b.zcbor.uint32Decode s with ⟨_ | z, s'⟩ <;>
    simp only [BinaryDecoder.narrowUInt, hs] <;> rfl

theorem narrowInt_respects (hZ : b.zcbor.ReadsBelowEnd) (bits : ℕ) (max : ℤ) :
    ZcborDecode.Respects (BinaryDecoder.narrowInt b bits max) := by
  refine respects_of_decode hZ.int32Decode
    (fun i => if i < max then some (i.bmod (2 ^ bits)) else none) fun s => ?_
  rcases hs : b.zcbor.int32Decode s with ⟨_ | z, s'⟩ <;>
    simp only [BinaryDecoder.narrowInt, hs] <;> rfl

theorem bytes_respects (hZ : b.zcbor.ReadsBelowEnd) (capacity : ℕ) :
    ZcborDecode.Respects (BinaryDecoder.bytes b capacity) := by
  refine respects_of_decode hZ.bstrDecode
    (fun z => if z.length ≤ capacity then some z else none) fun s => ?_
  rcases hs : b.zcbor.bstrDecode s with ⟨_ | z, s'⟩ <;> simp only [BinaryDecoder.bytes, hs] <;> rfl

theorem ensureListSize_respects (hZ : b.zcbor.ReadsBelowEnd) (size : ℕ) :
    ZcborDecode.Respects (BinaryDecoder.ensureListSize b size) := by
  intro u v huv
  have hrestored := (hZ.restoreBackup u v huv).2
  simp only [BinaryDecoder.ensureListSize, ← huv.elemCount]
  split
  · split
    · exact ⟨rfl, hrestored.memory, hrestored.payloadBak, hrestored.payloadEnd, hrestored.payloadBak,
        congrArg (· + 1) hrestored.elemCount, hrestored.indefinite, hrestored.backups,
        hrestored.depth⟩
    · exact ⟨rfl, huv⟩
  · exact ⟨rfl, huv⟩

/-- A call that does not read a type where the request has ended has equal results in front of
equal requests. -/
theorem binaryDecoder_agree (hZ : b.zcbor.ReadsBelowEnd) {op : DecodeOp} {u v : ZcborState}
    (huv : u.Agree v) (hop : staleTypeRead op u = false) :
    (binaryDecoder b op u).1 = (binaryDecoder b op v).1 ∧
      (binaryDecoder b op u).2.Agree (binaryDecoder b op v).2 := by
  cases op with
  | string => exact hZ.tstrDecode u v huv
  | chars size => exact chars_respects hZ size u v huv
  | float => exact hZ.float16_32Decode u v huv
  | double => exact hZ.float64Decode u v huv
  | bool => exact hZ.boolDecode u v huv
  | uint w =>
    cases w with
    | w8 => exact narrowUInt_respects hZ _ u v huv
    | w16 => exact narrowUInt_respects hZ _ u v huv
    | w32 => exact hZ.uint32Decode u v huv
    | w64 => exact hZ.uint64Decode u v huv
  | int w =>
    cases w with
    | w8 => exact narrowInt_respects hZ _ _ u v huv
    | w16 => exact narrowInt_respects hZ _ _ u v huv
    | w32 => exact hZ.int32Decode u v huv
    | w64 => exact hZ.int64Decode u v huv
  | null => exact hZ.nilExpect u v huv
  | listStart => exact hZ.listStartDecode u v huv
  | listEnd => exact hZ.listEndDecode u v huv
  | bytes capacity => exact bytes_respects hZ capacity u v huv
  | peekType =>
    have hlt : u.payload < u.payloadEnd := by simpa [staleTypeRead] using hop
    have hbyte : u.memory.getD u.payload 0 = v.memory.getD u.payload 0 := by
      have htake := congrArg (fun l : Bytes => l.getD u.payload 0) huv.memory
      simpa [List.getD_eq_getElem?_getD, List.getElem?_take, hlt, ← huv.payloadEnd] using htake
    refine ⟨?_, huv⟩
    simp only [binaryDecoder, BinaryDecoder.peekType, hbyte, ← huv.payload]
  | skip => exact hZ.anySkip u v huv
  | mapStart => exact hZ.mapStartDecode u v huv
  | mapEnd => exact hZ.mapEndDecode u v huv
  | isInMap => exact ⟨by simp only [binaryDecoder, huv.elemCount], huv⟩
  | isInList => exact ⟨by simp only [binaryDecoder, huv.elemCount], huv⟩
  | ensureListSize size => exact ensureListSize_respects hZ size u v huv

/-- The decoder of a binary request, whatever follows it. -/
theorem agree_append (hne : request ≠ []) (tail : Bytes) :
    (ZcborState.new 8 request 1 (request.length - 1) 2).Agree
      (.new 8 (request ++ tail) 1 (request.length - 1) 2) := by
  have hpos := List.length_pos_iff.2 hne
  refine ⟨?_, rfl, rfl, rfl, rfl, rfl, rfl, rfl⟩
  simp only [ZcborState.new, show 1 + (request.length - 1) = request.length by omega]
  simp

/-! ### Text requests -/

/-- The space that the constructor finds: the one in the request, else one right behind it. -/
theorem memchr_append (c : UInt8) (rest tail : Bytes) :
    memchr ((c :: rest ++ tail).drop 1) 0x20 (c :: rest).length =
      (memchr ((c :: rest).drop 1) 0x20 (c :: rest).length).or
        (((tail.take 1).findIdx? (· = 0x20)).map (· + rest.length)) := by
  have htake : (rest ++ tail).take (rest.length + 1) = rest ++ tail.take 1 := by
    rw [List.take_append, List.take_of_length_le (Nat.le_succ _), Nat.add_sub_cancel_left]
  simp only [memchr, List.cons_append, List.drop_succ_cons, List.drop_zero, List.length_cons, htake,
    List.findIdx?_append, List.take_of_length_le (Nat.le_succ rest.length)]

/-- The endpoint of a text request, whatever follows it. -/
theorem textRequestContext_append (hne : request ≠ []) (tail : Bytes) :
    (textRequestContext (request ++ tail) request.length tokens).1 =
      (textRequestContext request request.length noTokens).1 := by
  obtain ⟨c, rest, rfl⟩ := List.exists_cons_of_ne_nil hne
  have hmemchr := memchr_append c rest tail
  rcases hspace : memchr ((c :: rest).drop 1) 0x20 (c :: rest).length with _ | n
  · -- the path is the rest of the request, also up to a space right behind it
    rw [hspace, Option.none_or] at hmemchr
    rw [textRequestContext_of_not_space hspace]
    rcases htail : (tail.take 1).findIdx? (· = 0x20) with _ | m
    · rw [htail] at hmemchr
      rw [textRequestContext_of_not_space hmemchr]
      simp
    · have hm : m = 0 := by
        obtain ⟨hm, -⟩ := List.findIdx?_eq_some_iff_getElem.1 htail
        rw [List.length_take] at hm
        omega
      rw [htail, hm, Option.map_some, Nat.zero_add] at hmemchr
      rw [textRequestContext_of_space hmemchr]
      simp
  · obtain ⟨hn, -⟩ := List.findIdx?_eq_some_iff_getElem.1 hspace
    rw [List.length_take, List.drop_one, List.tail_cons] at hn
    rw [hspace, Option.some_or] at hmemchr
    rw [textRequestContext_of_space hspace, textRequestContext_of_space hmemchr]
    simp [List.take_append_of_le_length (by omega : n ≤ rest.length)]

/-- The decoder of a text request with a space. -/
theorem sameRequest_textRequestContext (hne : request ≠ [])
    (hspace : (memchr (request.drop 1) 0x20 request.length).isSome) (tail : Bytes) :
    (textRequestContext request request.length noTokens).2.SameRequest
      (textRequestContext (request ++ tail) request.length tokens).2 := by
  obtain ⟨c, rest, rfl⟩ := List.exists_cons_of_ne_nil hne
  obtain ⟨n, hn⟩ := Option.isSome_iff_exists.1 hspace
  have hmemchr := memchr_append c rest tail
  rw [hn, Option.some_or] at hmemchr
  obtain ⟨hlt, -⟩ := List.findIdx?_eq_some_iff_getElem.1 hn
  rw [List.length_take, List.drop_one, List.tail_cons] at hlt
  rw [textRequestContext_of_space hn, textRequestContext_of_space hmemchr]
  have hlen : (c :: rest).length = rest.length + 1 := rfl
  exact ⟨⟨tail, rfl⟩, rfl, rfl, rfl, rfl, by simp only; omega, by simp only; omega, .inl rfl, .inl rfl⟩

/-- **A response depends neither on what follows the request nor on the tokens when the request
makes no stale read.** -/
theorem request_irrelevant (S : Server ι V A τ) (b : BinaryDecoderOptions) (o : TextDecoderOptions)
    (hZ : b.zcbor.ReadsBelowEnd) (mode : RequestMode) (request : Bytes) (s : Session ι V A τ)
    (hstale : S.staleReads b o mode request s = false) (tail tail' : Bytes)
    (tokens tokens' : ℕ → JsmnTok) :
    S.handle b o mode (request ++ tail) request.length tokens s =
      S.handle b o mode (request ++ tail') request.length tokens' s := by
  have hne : request ≠ [] := by
    rintro rfl
    simp [staleReads] at hstale
  -- both are what the server returns with nothing behind the request
  suffices halone : ∀ (tail : Bytes) (tokens : ℕ → JsmnTok),
      S.handle b o mode (request ++ tail) request.length tokens s =
        S.handle b o mode request request.length noTokens s by
    rw [halone tail tokens, halone tail' tokens']
  intro tail tokens
  cases mode with
  | binary =>
    simp only [staleReads, List.isEmpty_eq_false_iff.2 hne, Bool.false_or] at hstale
    have hhead : (request ++ tail).headD 0 = request.headD 0 := by
      cases request with
      | nil => exact absurd rfl hne
      | cons c rest => rfl
    simp only [handle, hhead]
    exact (run_eq_of_unwatched (fun _ _ _ huv hop => binaryDecoder_agree hZ huv hop) _
      (agree_append hne tail) hstale).1.symm
  | text =>
    simp only [staleReads, List.isEmpty_eq_false_iff.2 hne, Bool.false_or] at hstale
    simp only [handle, textRequestContext_append hne]
    rcases hspace : memchr (request.drop 1) 0x20 request.length with _ | n
    · -- no call is made, so the decoders need not agree on anything
      have hwatched : ∀ op u, staleTextRead o request op u = true := fun op u => by
        rw [staleTextRead, hspace, Option.isNone_none, Bool.true_or]
      exact (run_eq_of_unwatched (R := fun _ _ => True)
        (fun op u _ _ hop => absurd (hwatched op u) (by simp [hop])) _ trivial hstale).1.symm
    · have hsome : (memchr (request.drop 1) 0x20 request.length).isSome = true := by rw [hspace]; rfl
      have hread : ∀ op u, staleTextRead o request op u = u.staleRead o op := fun op u => by
        rw [staleTextRead, hspace, Option.isNone_some, Bool.false_or]
      exact (run_eq_of_unwatched (fun op u _ huv hop => huv.textDecoder_same (hread op u ▸ hop)) _
        (sameRequest_textRequestContext hne hsome tail) hstale).1.symm

end Server

/-! ## A server with one property -/

/-- The codec of a `uint8_t`. -/
def codecUInt8 : Codec ℕ where
  encode v := encode (.uint .w8 v)
  decode := decodeUInt8

/-- The nodes of a server with one property, `a` with the id 34, which may be read and written. -/
def onePropertyNode : SmallNode → Node SmallNode ℕ Unit
  | .a => .ofIds [0x61] 34 0 0x77 (.property codecUInt8)
  | .metadata => .ofIds [0x5F] 25 0 0x01 .overlay
  | _ => .ofIds [] 0 0 0x01 .overlay

/-- The server. -/
def oneProperty {τ : Type} (E : Encoder τ) : Server SmallNode ℕ Unit τ where
  registry := {
    node := onePropertyNode
    nodeMap := bucketsOf onePropertyNode [.root, .metadata, .a]
    childrenOf := fun n => if n = .root then [.a] else []
    rootNode := .root
    metadataNode := .metadata }
  access := 0x77
  encoder := E

/-- A session in which every value is 0. -/
def zeroSession {τ : Type} (e : τ) : Session SmallNode ℕ Unit τ where
  world := ⟨fun _ => 0, fun _ _ => 0, fun _ => [], ()⟩
  encoder := e

/-- An encoder with room for everything, without what it writes. -/
def acceptAll : Encoder Unit
  | .renderedListLength size, e => (size, e)
  | .string _, e | .float _, e | .double _, e | .bool _, e | .uint _ _, e | .int _ _, e | .null, e
  | .preamble, e | .listStart _, e | .listEnd _, e | .mapStart _, e | .mapEnd _, e | .bytes _, e
  | .listSeparator, e | .keyValuePairSeparator, e | .encodeKeysAsIds, e | .renderGroupAsOutline, e
  | .truncationMarker, e => (true, e)

/-- The text request `= {"n":1}`, an update of the property `n` of the root. -/
def updateText (n : UInt8) : Bytes := [0x3D, 0x20, 0x7B, 0x22, n, 0x22, 0x3A, 0x31, 0x7D]

/-- What a server with the property `a` returns for an update, with the byte that follows the
request and the token in the array. -/
def updateResponse (n following : UInt8) (token : JsmnTok) :
    Returned × Session SmallNode ℕ Unit Unit :=
  (oneProperty acceptAll).handle ⟨zcborReference, false, false⟩ ⟨strtodNone, fun _ => 0⟩ .text
    (updateText n ++ [following]) (updateText n).length (fun _ => token) (zeroSession ())

/-- An update of a property that the server does not have is answered in the same way whatever
follows it. -/
theorem updateResponse_unknown :
    zcborReference.ReadsBelowEnd ∧
      (oneProperty acceptAll).staleReads ⟨zcborReference, false, false⟩ ⟨strtodNone, fun _ => 0⟩
        .text (updateText 0x62) (zeroSession ()) = false ∧
      updateResponse 0x62 0x00 ⟨.undefined, -1, -1⟩ = updateResponse 0x62 0x78 ⟨.primitive, 5, 6⟩ := by
  have hstale : (oneProperty acceptAll).staleReads ⟨zcborReference, false, false⟩
      ⟨strtodNone, fun _ => 0⟩ .text (updateText 0x62) (zeroSession ()) = false := by
    decide +kernel
  exact ⟨zcborReference_readsBelowEnd, hstale,
    Server.request_irrelevant (oneProperty acceptAll) _ _ zcborReference_readsBelowEnd .text _ _
      hstale _ _ _ _⟩

/-- The status of an update that succeeds depends on the byte behind the request and on the token
behind the request's own. That of the fetch `05 18 19` of the metadata node without a payload
depends on the byte behind it. -/
theorem updateResponse_stale :
    updateResponse 0x61 0x00 ⟨.undefined, -1, -1⟩ ≠ updateResponse 0x61 0x78 ⟨.undefined, -1, -1⟩ ∧
      updateResponse 0x61 0x00 ⟨.undefined, -1, -1⟩ ≠ updateResponse 0x61 0x00 ⟨.primitive, 5, 6⟩ ∧
      (oneProperty (binaryEncoder zcborEncodeReference)).handle ⟨zcborReference, false, false⟩
          ⟨strtodNone, fun _ => 0⟩ .binary ([0x05, 0x18, 0x19] ++ [0x80]) 3 Server.noTokens
          (zeroSession (.new 8 64)) ≠
        (oneProperty (binaryEncoder zcborEncodeReference)).handle ⟨zcborReference, false, false⟩
          ⟨strtodNone, fun _ => 0⟩ .binary ([0x05, 0x18, 0x19] ++ [0x00]) 3 Server.noTokens
          (zeroSession (.new 8 64)) := by
  refine ⟨fun h => ?_, fun h => ?_, fun h => ?_⟩
  · exact absurd (congrArg (fun r => r.2.status) h) (by decide +kernel)
  · exact absurd (congrArg (fun r => r.2.status) h) (by decide +kernel)
  · exact absurd (congrArg (fun r => r.2.status) h) (by decide +kernel)

end ThingSet
