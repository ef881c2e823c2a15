import ThingSet.Jsmn

/-!
# The text decoder

`ThingSetTextDecoder` implements the decoder interface on the tokens of the JSON tokenizer
(`textDecoder`). It tokenizes on the first call that asks for a token and again as long as there
are none, and it takes the token at its index whether the tokenizer has filled it or not: at and
past `toknext` it finds what the array held before. The ends of lists and maps are recognized by
the character at its position, wherever the buffer ends.
-/

namespace ThingSet

open Interaction Prog

/-- A `ThingSetTextDecoder`: the conversion of floating-point numbers, and that of a double to a
float. -/
structure TextDecoderOptions where
  strtod : Strtod
  toFloat : UInt64 → UInt32

/-- `TEXT_DECODER_DEFAULT_MAX_TOKENS`. -/
def maxTokens : ℕ := 64

/-- The members of a `FixedSizeThingSetTextDecoder`. `_inputBuffer` is an offset into the memory
that holds the request. The array `_tokens` holds the tokens of the parser, and from `toknext` on
what was there before. -/
structure TextDecoderState where
  memory : Bytes
  inputBuffer : ℕ
  bufferSize : ℕ
  tokens : ℕ → JsmnTok
  bufferElemPtr : ℕ := 0
  tokenIndex : ℕ := 0
  parser : JsmnParser := {}

namespace TextDecoderState

variable (s : TextDecoderState)

/-- The characters that the tokenizer is given. -/
def js : Bytes := (s.memory.drop s.inputBuffer).take s.bufferSize

/-- The memory from `&_inputBuffer[offset]` on. -/
def textAt (offset : ℕ) : Bytes := s.memory.drop (s.inputBuffer + offset)

/-- `getTokens`. -/
def getTokens : TextDecoderState :=
  if s.parser.tokens.length = 0 then { s with parser := Jsmn.parse s.js maxTokens s.parser } else s

/-- `_tokens[i]`. -/
def token (i : ℕ) : JsmnTok := s.parser.tokens.getD i (s.tokens i)

/-- What `expectType` does with a token of the type: the position moves to its start, behind the
opening bracket of a list or map. -/
def accept (token : JsmnTok) : TextDecoderState :=
  let offset := if token.type = .array ∨ token.type = .object then 1 else 0
  { s with bufferElemPtr := toSize (token.start + offset), tokenIndex := s.tokenIndex + 1 }

variable {s}

@[simp] theorem textAt_getTokens (offset : ℕ) : s.getTokens.textAt offset = s.textAt offset := by
  rw [getTokens]
  split <;> rfl

@[simp] theorem textAt_accept (t : JsmnTok) (offset : ℕ) :
    (s.accept t).textAt offset = s.textAt offset := rfl

theorem accept_bufferElemPtr {t : JsmnTok} (harray : t.type ≠ .array) (hobject : t.type ≠ .object) :
    (s.accept t).bufferElemPtr = toSize t.start := by
  simp [accept, harray, hobject]

end TextDecoderState

namespace TextDecoder

/-- `expectType`: the token when it is of the type. -/
def expectType (type : JsmnType) (s : TextDecoderState) : Option JsmnTok × TextDecoderState :=
  let s := s.getTokens
  let token := s.token s.tokenIndex
  if token.type ≠ type then (none, s) else (some token, s.accept token)

/-- `decode(std::string *)`. -/
def string (s : TextDecoderState) : Option Bytes × TextDecoderState :=
  match expectType .string s with
  | (some token, s) =>
    (some ((s.textAt s.bufferElemPtr).take (toSize (token.stop - token.start))), s)
  | (none, s) => (none, s)

/-- `decode(char *value, size_t size)`. -/
def chars (size : ℕ) (s : TextDecoderState) : Option Bytes × TextDecoderState :=
  match expectType .string s with
  | (some token, s) =>
    let length := toSize (token.stop - token.start)
    (if length ≤ size then some (strncpy (s.textAt s.bufferElemPtr) length) else none, s)
  | (none, s) => (none, s)

/-- `decodePrimitive`. -/
def decodePrimitive {α : Type} (parseFunc : Bytes → α × ℕ) (s : TextDecoderState) :
    Option α × TextDecoderState :=
  match expectType .primitive s with
  | (some token, s) =>
    let parsed := parseFunc (s.textAt (toSize token.start))
    (some parsed.1, { s with bufferElemPtr := s.bufferElemPtr + parsed.2 })
  | (none, s) => (none, s)

/-- `true`, `false` and `null`. -/
def trueLiteral : Bytes := [0x74, 0x72, 0x75, 0x65]
@[inherit_doc trueLiteral] def falseLiteral : Bytes := [0x66, 0x61, 0x6C, 0x73, 0x65]
@[inherit_doc trueLiteral] def nullLiteral : Bytes := [0x6E, 0x75, 0x6C, 0x6C]

/-- `decode(bool *)`. -/
def bool (s : TextDecoderState) : Option Bool × TextDecoderState :=
  match expectType .primitive s with
  | (some _, s) =>
    let text := s.textAt s.bufferElemPtr
    (if isLiteral trueLiteral text then some true
      else if isLiteral falseLiteral text then some false else none, s)
  | (none, s) => (none, s)

/-- `decodeNull`. -/
def null (s : TextDecoderState) : Bool × TextDecoderState :=
  match expectType .primitive s with
  | (some _, s) => (isLiteral nullLiteral (s.textAt s.bufferElemPtr), s)
  | (none, s) => (false, s)

/-- The conversions of the numeric types, and the casts to a narrower type. -/
def unsigned (w : IntWidth) (text : Bytes) : ℕ × ℕ :=
  ((strtoul text).1 % 2 ^ w.bits, (strtoul text).2)

@[inherit_doc unsigned] def signed (w : IntWidth) (text : Bytes) : ℤ × ℕ :=
  ((strtol text).1.bmod (2 ^ w.bits), (strtol text).2)

@[inherit_doc unsigned] def float (o : TextDecoderOptions) (text : Bytes) : UInt32 × ℕ :=
  (o.toFloat (o.strtod.convert text).1, (o.strtod.convert text).2)

/-- `decodeListStart`, `decodeMapStart`. -/
def start (type : JsmnType) (s : TextDecoderState) : Bool × TextDecoderState :=
  ((expectType type s).1.isSome, (expectType type s).2)

/-- `decodeListEnd`, `decodeMapEnd`. -/
def stop (c : UInt8) (s : TextDecoderState) : Bool × TextDecoderState :=
  if (s.textAt s.bufferElemPtr).headD 0 = c then
    (true, { s with bufferElemPtr := s.bufferElemPtr + 1 })
  else (false, s)

/-- `isInList`, `isInMap`. -/
def isIn (c : UInt8) (s : TextDecoderState) : Bool :=
  s.bufferElemPtr < s.bufferSize && (s.textAt s.bufferElemPtr).headD 0 != c

/-- `peekType`. -/
def peekType (s : TextDecoderState) : EncodedNodeType × TextDecoderState :=
  let s := s.getTokens
  match (s.token s.tokenIndex).type with
  | .primitive => (.primitive, s)
  | .string => (.string, s)
  | .array => (.list, s)
  | .object => (.map, s)
  | .undefined => (.unknown, s)

/-- `skip`. -/
def skip (s : TextDecoderState) : Bool × TextDecoderState :=
  let s := { s with tokenIndex := s.tokenIndex + 1 }.getTokens
  (true, { s with bufferElemPtr := toSize (s.token s.tokenIndex).start })

end TextDecoder

open TextDecoder in
/-- `ThingSetTextDecoder`. -/
def textDecoder (o : TextDecoderOptions) : Decoder TextDecoderState
  | .string, s => string s
  | .chars size, s => chars size s
  | .float, s => decodePrimitive (float o) s
  | .double, s => decodePrimitive o.strtod.convert s
  | .bool, s => bool s
  | .uint w, s => decodePrimitive (unsigned w) s
  | .int w, s => decodePrimitive (signed w) s
  | .null, s => null s
  | .listStart, s => start .array s
  | .listEnd, s => stop 0x5D s
  | .bytes _, s => (none, s)
  | .peekType, s => peekType s
  | .skip, s => skip s
  | .mapStart, s => start .object s
  | .mapEnd, s => stop 0x7D s
  | .isInMap, s => (isIn 0x7D s, s)
  | .isInList, s => (isIn 0x5D s, s)
  | .ensureListSize size, s => (some size, s)

end ThingSet
