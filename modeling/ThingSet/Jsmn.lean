import ThingSet.Decoder

/-!
# The JSON tokenizer

`jsmn_parse` of the vendored jsmn library, in its non-strict mode and without parent links, as far
as the text decoder uses it: the tokens' types and positions. The fields `size` and `toksuper`,
which nothing reads, and the kinds of errors are left out; at an error the parser returns with what
it has.

`parse_parse`: parsing again changes nothing, which is what the text decoder does as long as there
is no token.
-/

namespace ThingSet

/-- `jsmntype_t`. -/
inductive JsmnType
  | undefined
  | object
  | array
  | string
  | primitive
  deriving DecidableEq, Repr

/-- `jsmntok_t`: `stop` is the member `end`. -/
structure JsmnTok where
  type : JsmnType
  start : ℤ
  stop : ℤ
  deriving DecidableEq, Repr

/-- `jsmn_parser`, with the tokens that it has filled: `toknext` is their number. -/
structure JsmnParser where
  pos : ℕ := 0
  tokens : List JsmnTok := []
  deriving DecidableEq, Repr

namespace Jsmn

/-- The characters that end a primitive: `:`, tab, carriage return, newline, space, `,`, `]` and
`}`. -/
def endsPrimitive (c : UInt8) : Bool :=
  c ∈ [0x3A, 0x09, 0x0D, 0x0A, 0x20, 0x2C, 0x5D, 0x7D]

/-- The loop of `jsmn_parse_primitive`: the number of characters of a primitive, unless one of
them is not printable. -/
def scanPrimitive : Bytes → Option ℕ
  | [] => some 0
  | c :: cs =>
    if c = 0 ∨ endsPrimitive c then some 0
    else if c < 32 ∨ 127 ≤ c then none
    else (scanPrimitive cs).map (· + 1)

/-- A hexadecimal digit. -/
def isHex (c : UInt8) : Bool :=
  (0x30 ≤ c ∧ c ≤ 0x39) ∨ (0x41 ≤ c ∧ c ≤ 0x46) ∨ (0x61 ≤ c ∧ c ≤ 0x66)

/-- The characters that may follow a backslash, `u` apart. -/
def isEscape (c : UInt8) : Bool :=
  c ∈ [0x22, 0x2F, 0x5C, 0x62, 0x66, 0x72, 0x6E, 0x74]

/-- Where the loop of `jsmn_parse_string` stands: between characters, behind a backslash, or with
some digits of `\\u` to come. -/
inductive StringState
  | char
  | escape
  | hex (left : ℕ)
  deriving DecidableEq, Repr

/-- The loop of `jsmn_parse_string`: the number of characters before the closing quote, if there is
one and what is escaped may be. -/
def scanString : StringState → Bytes → Option ℕ
  | _, [] => none
  | .escape, c :: cs =>
    if isEscape c then (scanString .char cs).map (· + 1)
    else if c = 0x75 then (scanString (.hex 4) cs).map (· + 1)
    else none
  | .hex (left + 1), c :: cs =>
    if isHex c then (scanString (.hex left) cs).map (· + 1) else none
  | .hex 0, c :: cs | .char, c :: cs =>
    if c = 0 then none
    else if c = 0x22 then some 0
    else if c = 0x5C then (scanString .escape cs).map (· + 1)
    else (scanString .char cs).map (· + 1)

/-- The token that a closing bracket closes: the last one that is open, which must be of its
type. The tokens are given from the last one on. -/
def closeToken (type : JsmnType) (stop : ℤ) : List JsmnTok → Option (List JsmnTok)
  | [] => none
  | t :: ts =>
    if t.start ≠ -1 ∧ t.stop = -1 then
      if t.type = type then some ({ t with stop } :: ts) else none
    else (closeToken type stop ts).map (t :: ·)

/-- `jsmn_alloc_token` and `jsmn_fill_token`, and the position behind the token. -/
def addToken (numTokens : ℕ) (p : JsmnParser) (t : JsmnTok) (pos : ℕ) : Option JsmnParser :=
  if p.tokens.length < numTokens then some ⟨pos, p.tokens ++ [t]⟩ else none

/-- One round of the loop of `jsmn_parse`, unless it ends: at the end of the input, at a NUL or at
an error, where the parser stays as it is. -/
def step (js : Bytes) (numTokens : ℕ) (p : JsmnParser) : Option JsmnParser :=
  match js.drop p.pos with
  | [] => none
  | c :: cs =>
    if c = 0 then none
    else if c = 0x7B then addToken numTokens p ⟨.object, p.pos, -1⟩ (p.pos + 1)
    else if c = 0x5B then addToken numTokens p ⟨.array, p.pos, -1⟩ (p.pos + 1)
    else if c = 0x7D ∨ c = 0x5D then
      (closeToken (if c = 0x7D then .object else .array) (p.pos + 1) p.tokens.reverse).map
        fun ts => ⟨p.pos + 1, ts.reverse⟩
    else if c = 0x22 then
      (scanString .char cs).bind fun n =>
        addToken numTokens p ⟨.string, p.pos + 1, p.pos + 1 + n⟩ (p.pos + n + 2)
    else if c ∈ [0x09, 0x0D, 0x0A, 0x20, 0x3A, 0x2C] then some { p with pos := p.pos + 1 }
    else
      (scanPrimitive (c :: cs)).bind fun n =>
        addToken numTokens p ⟨.primitive, p.pos, p.pos + n⟩ (p.pos + n)

/-- The loop of `jsmn_parse`, for at most `rounds` rounds. -/
def loop (js : Bytes) (numTokens : ℕ) : ℕ → JsmnParser → JsmnParser
  | 0, p => p
  | rounds + 1, p =>
    match step js numTokens p with
    | none => p
    | some p => loop js numTokens rounds p

/-- `jsmn_parse`. Every round moves on. -/
def parse (js : Bytes) (numTokens : ℕ) (p : JsmnParser) : JsmnParser :=
  loop js numTokens (js.length + 1) p

/-! ## The parser stops -/

section

variable {js : Bytes} {numTokens : ℕ} {p q : JsmnParser}

theorem pos_of_addToken {t : JsmnTok} {pos : ℕ} (h : addToken numTokens p t pos = some q) :
    q.pos = pos := by
  rw [addToken] at h
  split at h
  · exact (congrArg JsmnParser.pos (Option.some.inj h)).symm
  · simp at h

theorem scanPrimitive_pos {c : UInt8} {cs : Bytes} {n : ℕ} (hzero : c ≠ 0)
    (hends : endsPrimitive c = false) (h : scanPrimitive (c :: cs) = some n) : 0 < n := by
  rw [scanPrimitive, if_neg (by simp [hzero, hends])] at h
  split at h
  · simp at h
  · obtain ⟨m, -, rfl⟩ := Option.map_eq_some_iff.1 h
    omega

/-- A round moves on. -/
theorem pos_lt_of_step (h : step js numTokens p = some q) : p.pos < q.pos := by
  rw [step] at h
  split at h
  · simp at h
  · rename_i c cs _
    split at h
    · simp at h
    rename_i hzero
    split at h
    · rw [pos_of_addToken h]; omega
    split at h
    · rw [pos_of_addToken h]; omega
    split at h
    · obtain ⟨ts, -, rfl⟩ := Option.map_eq_some_iff.1 h
      exact Nat.lt_succ_self _
    rename_i hclose
    split at h
    · obtain ⟨n, -, hn⟩ := Option.bind_eq_some_iff.1 h
      rw [pos_of_addToken hn]; omega
    split at h
    · exact Option.some.inj h ▸ Nat.lt_succ_self _
    rename_i hblank
    obtain ⟨n, hscan, hn⟩ := Option.bind_eq_some_iff.1 h
    have hends : endsPrimitive c = false := by
      simp only [List.mem_cons, List.not_mem_nil, or_false, not_or] at hclose hblank
      simp [endsPrimitive, hclose, hblank]
    have := scanPrimitive_pos hzero hends hscan
    rw [pos_of_addToken hn]; omega

theorem step_of_length_le (h : js.length ≤ p.pos) : step js numTokens p = none := by
  rw [step, List.drop_eq_nil_of_le h]

theorem loop_of_step_none (h : step js numTokens p = none) (rounds : ℕ) :
    loop js numTokens rounds p = p := by
  cases rounds with
  | zero => rfl
  | succ rounds => simp only [loop, h]

/-- After as many rounds as there are characters, the loop has ended. -/
theorem step_loop (rounds : ℕ) (h : js.length ≤ p.pos + rounds) :
    step js numTokens (loop js numTokens rounds p) = none := by
  induction rounds generalizing p with
  | zero => exact step_of_length_le (p := p) h
  | succ rounds ih =>
    rcases hstep : step js numTokens p with _ | q
    · rw [loop_of_step_none hstep, hstep]
    · have hlt := pos_lt_of_step hstep
      simp only [loop, hstep]
      exact ih (by omega)

/-- **Parsing again changes nothing.** -/
theorem parse_parse :
    parse js numTokens (parse js numTokens p) = parse js numTokens p :=
  loop_of_step_none (step_loop _ (by omega)) _

end

end Jsmn

end ThingSet
