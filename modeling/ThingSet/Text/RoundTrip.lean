import ThingSet.Text.Rendering
import ThingSet.TextDecoder

/-!
# From values to text and back

What `ThingSetTextEncoder` writes, `ThingSetTextDecoder` reads with two cursors: the index of a token, and a
position in the text at which it expects the end of a list or a map. A number moves the position behind its
text, but a string leaves it at its first character, and a map goes on as long as a key can be decoded. The result of
the decode of a member of a record is not tested, so the list in it need not be closed.

* `Readable`: the values that are read back.
* `run_decode`: the decoder reads a value that is readable, whatever is behind it.
* `roundTrips_of_readable`: a readable value is read back from what the encoder writes.
-/

namespace ThingSet

open Interaction Prog

/-! ## The cursors -/

namespace TextDecoderState

variable (s : TextDecoderState)

/-- The decoder with its cursors at a token and a position. -/
def seek (i q : ℕ) : TextDecoderState := { s with tokenIndex := i, bufferElemPtr := q }

/-- The tokens from an index on. -/
def HasTokens (i : ℕ) (ts : List JsmnTok) : Prop := ∀ k t, ts[k]? = some t → s.token (i + k) = t

/-- A token that a map takes for a key. -/
def KeyAt (i : ℕ) : Prop := (s.token i).type = .string ∨ (s.token i).type = .primitive

variable {s} {i q p : ℕ} {t : JsmnTok} {ts ts' : List JsmnTok} {text rest : Bytes}

@[simp] theorem textAt_seek (p : ℕ) : (s.seek i q).textAt p = s.textAt p := rfl

@[simp] theorem token_seek (k : ℕ) : (s.seek i q).token k = s.token k := rfl

theorem HasTokens.head (h : s.HasTokens i (t :: ts)) : s.token i = t := h 0 t rfl

theorem HasTokens.tail (h : s.HasTokens i (t :: ts)) : s.HasTokens (i + 1) ts := fun k t' hk => by
  rw [Nat.add_assoc, Nat.add_comm 1]
  exact h (k + 1) t' hk

theorem HasTokens.left (h : s.HasTokens i (ts ++ ts')) : s.HasTokens i ts := fun k t hk =>
  h k t (by rw [List.getElem?_append_left (List.getElem?_eq_some_iff.1 hk).1, hk])

theorem HasTokens.right (h : s.HasTokens i (ts ++ ts')) : s.HasTokens (i + ts.length) ts' := fun k t hk => by
  rw [Nat.add_assoc]
  exact h (ts.length + k) t (by
    rw [List.getElem?_append_right (by omega), Nat.add_sub_cancel_left, hk])

theorem textAt_add (text : Bytes) (h : s.textAt p = text ++ rest) : s.textAt (p + text.length) = rest := by
  have hdrop := congrArg (List.drop text.length) h
  rwa [List.drop_left, textAt, List.drop_drop, Nat.add_assoc] at hdrop

theorem textAt_succ {c : UInt8} (h : s.textAt p = c :: rest) : s.textAt (p + 1) = rest :=
  textAt_add [c] h

/-- Once there are tokens, no more are asked for. -/
theorem getTokens_of_tokens (h : s.parser.tokens ≠ []) : s.getTokens = s :=
  if_neg fun hlen => h (List.length_eq_zero_iff.1 hlen)

end TextDecoderState

open TextDecoderState TextDecoder

section Cursors

variable {s : TextDecoderState} {i q : ℕ} (hs : s.parser.tokens ≠ [])
include hs

/-- A token of the type that is expected. -/
theorem expectType_seek {type : JsmnType} (htype : (s.token i).type = type) :
    expectType type (s.seek i q) = (some (s.token i),
      s.seek (i + 1) (toSize ((s.token i).start + if type = .array ∨ type = .object then 1 else 0))) := by
  have hget : (s.seek i q).getTokens = s.seek i q := getTokens_of_tokens hs
  rw [expectType, hget]
  subst htype
  exact if_neg (not_not_intro rfl)

/-- A token of another type. -/
theorem expectType_seek_ne {type : JsmnType} (htype : (s.token i).type ≠ type) :
    expectType type (s.seek i q) = (none, s.seek i q) := by
  have hget : (s.seek i q).getTokens = s.seek i q := getTokens_of_tokens hs
  rw [expectType, hget]
  exact if_pos htype

/-- A token that is skipped. -/
theorem skip_seek : skip (s.seek i q) = (true, s.seek (i + 1) (toSize (s.token (i + 1)).start)) := by
  have hget : (s.seek (i + 1) q).getTokens = s.seek (i + 1) q := getTokens_of_tokens hs
  unfold skip
  rw [show ({ s.seek i q with tokenIndex := (s.seek i q).tokenIndex + 1 } : TextDecoderState) = s.seek (i + 1) q
    from rfl, hget]
  rfl

end Cursors

/-! ## The values that are read back -/

namespace ValueType

/-- The types whose values end with a record. -/
def EndsInRecord : ValueType → Prop
  | array element size => 0 < size ∧ element.EndsInRecord
  | record .. => True
  | _ => False

/-- The types of lists and records. -/
def Bracketed : ValueType → Prop
  | array .. | record .. => True
  | _ => False

theorem EndsInRecord.bracketed : ∀ {t : ValueType}, t.EndsInRecord → t.Bracketed
  | array .., _ | record .., _ => trivial

/-- The values that are read back, with the position at the brackets `closing`, from a text that goes on with the
brackets `follows`. A string at the end of lists and maps must start with their brackets, and behind a record there must
be no member of another one. Where the result of the decode is not tested, which is so of the members of a record, a
list may be left open. -/
def Readable : (t : ValueType) → (tested : Bool) → (closing follows : Bytes) → t.Value → Prop
  | uint _, _, closing, follows, _ => closing <+: follows
  | int _, _, closing, follows, _ => closing <+: follows
  | bool, _, _, _, _ => False
  | string, _, closing, _, s => closing <+: s
  | array element size, tested, closing, follows, f =>
    (size = 0 → closing <+: follows) ∧ ∀ i < size,
      if i + 1 = size then
        element.Readable true (0x5D :: closing) (0x5D :: follows) (f i) ∨
          tested = false ∧ element.Readable false closing (0x5D :: follows) (f i)
      else element.Readable true [] [] (f i)
  | record size _ name member, _, closing, follows, r =>
    (size = 0 → closing <+: follows) ∧ Function.Injective name ∧ ∀ i : Fin size,
      if i + 1 = size then (member i).Readable false (0x7D :: closing) (0x7D :: follows) (r i)
      else (member i).Readable false [] [] (r i) ∧ ¬ (member i).EndsInRecord

end ValueType

/-! ## Scalars -/

variable {o : TextDecoderOptions}

/-- The decoder reads the readable values of a type, whatever is behind them: `closing` is what a list or map
around the value expects, and `follows` what there is. -/
def ValueType.Decodes (o : TextDecoderOptions) (t : ValueType) : Prop :=
  ∀ (v old : t.Value) (q : ℕ) {tested : Bool} {closing follows rest : Bytes} {s : TextDecoderState} {i p : ℕ},
    t.Valid v → t.Readable tested closing follows v → (tested = false → closing.head? ≠ some 0x5D) →
    s.parser.tokens ≠ [] → s.HasTokens i ((t.piece v).tokens p) →
    s.textAt p = (t.piece v).text ++ rest → p + (t.piece v).text.length ≤ sizeMax → follows <+: rest →
    (t.IsInteger → isDigit (rest.headD 0) = false) →
    (t.EndsInRecord → ¬ s.KeyAt (i + ((t.piece v).tokens p).length)) →
    ∃ ok v' q', run (textDecoder o) (t.decode old) (s.seek i q) =
        (⟨ok, some v'⟩, s.seek (i + ((t.piece v).tokens p).length) q') ∧
      (tested = true → ok = true) ∧ t.Same v v' ∧ closing <+: s.textAt q'

theorem toSize_position {n : ℕ} (hn : n ≤ sizeMax) : toSize (n : ℤ) = n :=
  toSize_natCast (by rw [sizeMax] at hn; omega)

/-- A number is read, and the position moves behind it. -/
theorem decodePrimitive_seek {α : Type} (parseFunc : Bytes → α × ℕ) {s : TextDecoderState} {i p q n : ℕ} {value : α}
    (hs : s.parser.tokens ≠ []) {stop : ℤ} (htoken : s.token i = ⟨.primitive, p, stop⟩) (hp : p ≤ sizeMax)
    (hparse : parseFunc (s.textAt p) = (value, n)) :
    decodePrimitive parseFunc (s.seek i q) = (some value, s.seek (i + 1) (p + n)) := by
  have htype : (s.token i).type = .primitive := by rw [htoken]
  rw [decodePrimitive, expectType_seek hs htype, htoken]
  simp only [reduceCtorEq, or_self, if_false, Int.add_zero, toSize_position hp, textAt_seek, hparse]
  rfl

theorem IntWidth.bits_le (w : IntWidth) : w.bits ≤ 64 := by cases w <;> decide

theorem unsigned_decimal {w : IntWidth} {n : ℕ} (hn : n < 2 ^ w.bits) {rest : Bytes}
    (hrest : isDigit (rest.headD 0) = false) :
    unsigned w (decimal n ++ rest) = (n, (decimal n).length) := by
  have hn' : n < 2 ^ 64 := Nat.lt_of_lt_of_le hn (Nat.pow_le_pow_right (by omega) w.bits_le)
  rw [unsigned, strtoul_decimal hn' hrest, Nat.mod_eq_of_lt hn]

theorem signed_signedDecimal {w : IntWidth} {i : ℤ} (hi : -2 ^ (w.bits - 1) ≤ i ∧ i < 2 ^ (w.bits - 1))
    {rest : Bytes} (hrest : isDigit (rest.headD 0) = false) :
    signed w (signedDecimal i ++ rest) = (i, (signedDecimal i).length) := by
  have hbits : (2 : ℤ) ^ (w.bits - 1) ≤ 2 ^ 63 ∧ ((2 ^ w.bits : ℕ) : ℤ) = 2 * 2 ^ (w.bits - 1) := by
    cases w <;> decide
  rw [signed, strtol_signedDecimal (by omega) hrest, Int.bmod_eq_of_le_mul_two (by omega) (by omega)]

/-- An unsigned integer is read. -/
theorem uint_seek (w : IntWidth) {n old : ℕ} {rest : Bytes} {s : TextDecoderState} {i p q : ℕ}
    (hvalid : (ValueType.uint w).Valid n) (hs : s.parser.tokens ≠ [])
    (htokens : s.HasTokens i (((ValueType.uint w).piece n).tokens p)) (htext : s.textAt p = decimal n ++ rest)
    (hpos : p + (decimal n).length ≤ sizeMax) (hdigit : isDigit (rest.headD 0) = false) :
    run (textDecoder o) ((ValueType.uint w).decode old) (s.seek i q) =
      (⟨true, some n⟩, s.seek (i + 1) (p + (decimal n).length)) := by
  have hparse : unsigned w (s.textAt p) = (n, (decimal n).length) := by
    rw [htext, unsigned_decimal hvalid hdigit]
  have hrun : run (textDecoder o) (decode (.uint w)) (s.seek i q) = (some n, _) :=
    decodePrimitive_seek (unsigned w) hs htokens.head (Nat.le_trans (Nat.le_add_right _ _) hpos) hparse
  rw [ValueType.decode, decodeScalar, run_bind, hrun]
  rfl

theorem decodes_uint (w : IntWidth) : (ValueType.uint w).Decodes o := by
  intro n old q tested closing follows rest s i p hvalid hread _ hs htokens htext hpos hfollows hdigit _
  refine ⟨true, n, p + (decimal n).length, ?_, fun _ => rfl, rfl, ?_⟩
  · exact uint_seek w hvalid hs htokens htext hpos (hdigit trivial)
  · rw [textAt_add (decimal n) htext]
    exact List.IsPrefix.trans hread hfollows

/-- A signed integer is read. -/
theorem int_seek (w : IntWidth) {n old : ℤ} {rest : Bytes} {s : TextDecoderState} {i p q : ℕ}
    (hvalid : (ValueType.int w).Valid n) (hs : s.parser.tokens ≠ [])
    (htokens : s.HasTokens i (((ValueType.int w).piece n).tokens p)) (htext : s.textAt p = signedDecimal n ++ rest)
    (hpos : p + (signedDecimal n).length ≤ sizeMax) (hdigit : isDigit (rest.headD 0) = false) :
    run (textDecoder o) ((ValueType.int w).decode old) (s.seek i q) =
      (⟨true, some n⟩, s.seek (i + 1) (p + (signedDecimal n).length)) := by
  have hparse : signed w (s.textAt p) = (n, (signedDecimal n).length) := by
    rw [htext, signed_signedDecimal hvalid hdigit]
  have hrun : run (textDecoder o) (decode (.int w)) (s.seek i q) = (some n, _) :=
    decodePrimitive_seek (signed w) hs htokens.head (Nat.le_trans (Nat.le_add_right _ _) hpos) hparse
  rw [ValueType.decode, decodeScalar, run_bind, hrun]
  rfl

theorem decodes_int (w : IntWidth) : (ValueType.int w).Decodes o := by
  intro n old q tested closing follows rest s i p hvalid hread _ hs htokens htext hpos hfollows hdigit _
  refine ⟨true, n, p + (signedDecimal n).length, ?_, fun _ => rfl, rfl, ?_⟩
  · exact int_seek w hvalid hs htokens htext hpos (hdigit trivial)
  · rw [textAt_add (signedDecimal n) htext]
    exact List.IsPrefix.trans hread hfollows

/-- A string is read, and the position is at its first character. -/
theorem string_seek {value rest : Bytes} {s : TextDecoderState} {i p q : ℕ} (hs : s.parser.tokens ≠ [])
    (htokens : s.HasTokens i ((Piece.string value).tokens p)) (htext : s.textAt p = (Piece.string value).text ++ rest)
    (hpos : p + (Piece.string value).text.length ≤ sizeMax) :
    run (textDecoder o) (decode .string) (s.seek i q) = (some value, s.seek (i + 1) (p + 1)) ∧
      s.textAt (p + 1) = value ++ 0x22 :: rest := by
  have htoken : s.token i = ⟨.string, (p + 1 : ℕ), (p + 1 + value.length : ℕ)⟩ := htokens.head
  have hlen : p + (value.length + 2) ≤ sizeMax := by simpa [Piece.string] using hpos
  have hbehind : s.textAt (p + 1) = value ++ 0x22 :: rest := textAt_succ (by simpa [Piece.string] using htext)
  have hstart : toSize ((p + 1 : ℕ) : ℤ) = p + 1 := toSize_position (by omega)
  have hsub : toSize (((p + 1 + value.length : ℕ) : ℤ) - ((p + 1 : ℕ) : ℤ)) = value.length := by
    rw [show ((p + 1 + value.length : ℕ) : ℤ) - ((p + 1 : ℕ) : ℤ) = (value.length : ℕ) by omega]
    exact toSize_position (by omega)
  refine ⟨?_, hbehind⟩
  change TextDecoder.string (s.seek i q) = _
  rw [TextDecoder.string, expectType_seek hs (by rw [htoken]), htoken]
  simp only [reduceCtorEq, or_self, if_false, Int.add_zero, hstart, hsub, textAt_seek]
  change (some ((s.textAt (p + 1)).take value.length), _) = _
  rw [hbehind, List.take_left]

theorem decodes_string : ValueType.string.Decodes o := by
  intro value old q tested closing follows rest s i p _ hread _ hs htokens htext hpos _ _ _
  obtain ⟨hrun, hbehind⟩ := string_seek (o := o) (q := q) hs htokens htext hpos
  refine ⟨true, value, p + 1, ?_, fun _ => rfl, rfl, ?_⟩
  · rw [ValueType.decode, decodeScalar, run_bind, hrun]
    rfl
  · rw [hbehind]
    exact List.IsPrefix.trans hread (List.prefix_append _ _)

/-! ## Lists -/

/-- The first token of a list or a record is no key. -/
theorem first_token : ∀ (t : ValueType) (v : t.Value) (p : ℕ), t.Bracketed →
    ∃ tok toks, (t.piece v).tokens p = tok :: toks ∧ tok.type ≠ .string ∧ tok.type ≠ .primitive
  | .array _ _, _, _, _ => ⟨_, _, rfl, by simp, by simp⟩
  | .record .., _, _, _ => ⟨_, _, rfl, by simp, by simp⟩

theorem not_keyAt_first {t : ValueType} {v : t.Value} {s : TextDecoderState} {i p : ℕ} (ht : t.Bracketed)
    (htokens : s.HasTokens i ((t.piece v).tokens p)) : ¬ s.KeyAt i := by
  obtain ⟨tok, toks, htok, hstring, hprimitive⟩ := first_token t v p ht
  rw [htok] at htokens
  rw [KeyAt, htokens.head]
  exact fun h => h.elim hstring hprimitive

/-- The start of a list or map. -/
theorem start_seek {type : JsmnType} (htype : type = .array ∨ type = .object) {s : TextDecoderState} {i p q : ℕ}
    {stop : ℤ} (hs : s.parser.tokens ≠ []) (htoken : s.token i = ⟨type, p, stop⟩) (hp : p + 1 ≤ sizeMax) :
    start type (s.seek i q) = (true, s.seek (i + 1) (p + 1)) := by
  rw [start, expectType_seek hs (by rw [htoken]), htoken, if_pos htype]
  dsimp only
  rw [show ((p : ℤ) + 1) = ((p + 1 : ℕ) : ℤ) by omega, toSize_position hp]
  rfl

/-- The end of a list or map is found, or the decoder stays where it is. -/
theorem stop_seek_cases {c : UInt8} (hc : c ≠ 0) (s : TextDecoderState) (i q : ℕ) :
    (stop c (s.seek i q) = (true, s.seek i (q + 1)) ∧ s.textAt q = c :: s.textAt (q + 1)) ∨
      (stop c (s.seek i q) = (false, s.seek i q) ∧ ∀ closing, ¬ c :: closing <+: s.textAt q) := by
  have hstop : stop c (s.seek i q) =
    if (s.textAt q).headD 0 = c then (true, s.seek i (q + 1)) else (false, s.seek i q) := rfl
  rw [hstop]
  split
  · rename_i hhead
    refine .inl ⟨rfl, ?_⟩
    cases htext : s.textAt q with
    | nil =>
      rw [htext] at hhead
      exact absurd hhead.symm hc
    | cons d rest =>
      rw [htext] at hhead
      rw [textAt_succ htext]
      exact congrArg (· :: rest) hhead
  · rename_i hhead
    refine .inr ⟨rfl, fun closing h => ?_⟩
    obtain ⟨rest, hrest⟩ := h
    rw [← hrest] at hhead
    exact hhead rfl

theorem stop_seek {c : UInt8} (hc : c ≠ 0) {closing : Bytes} {s : TextDecoderState} {i q : ℕ}
    (h : c :: closing <+: s.textAt q) :
    stop c (s.seek i q) = (true, s.seek i (q + 1)) ∧ closing <+: s.textAt (q + 1) := by
  rcases stop_seek_cases hc s i q with ⟨hstop, htext⟩ | ⟨-, hne⟩
  · rw [htext] at h
    exact ⟨hstop, (List.cons_prefix_cons.1 h).2⟩
  · exact absurd h (hne closing)

section Elements

variable {element : ValueType} (f : ℕ → element.Value)

/-- Some elements of an array, with commas between them. -/
def elements (j m : ℕ) : Piece := .items ((List.range' j m).map fun k => element.piece (f k))

theorem piece_array (size : ℕ) : (ValueType.array element size).piece f =
    ⟨0x5B :: (elements f 0 size).text ++ [0x5D], fun p =>
      ⟨.array, p, (p + (elements f 0 size).text.length + 2 : ℕ)⟩ :: (elements f 0 size).tokens (p + 1)⟩ := by
  rw [ValueType.piece, List.range_eq_range']
  rfl

theorem elements_succ_succ (j m : ℕ) : elements f j (m + 2) =
    ⟨(element.piece (f j)).text ++ 0x2C :: (elements f (j + 1) (m + 1)).text, fun p =>
      (element.piece (f j)).tokens p ++
        (elements f (j + 1) (m + 1)).tokens (p + (element.piece (f j)).text.length + 1)⟩ := rfl

/-- The tokens of some elements start with those of the first one. -/
theorem elements_tokens (j m p : ℕ) :
    ∃ toks, (elements f j (m + 1)).tokens p = (element.piece (f j)).tokens p ++ toks := by
  cases m with
  | zero => exact ⟨[], (List.append_nil _).symm⟩
  | succ m => exact ⟨_, rfl⟩

variable {f}

/-- The elements of a list are read one after the other. When the last one is not closed, it does not show. -/
theorem run_decodeElements (helement : element.Decodes o) {tested : Bool} {closing follows : Bytes}
    (hhead : tested = false → closing.head? ≠ some 0x5D) {s : TextDecoderState} (hs : s.parser.tokens ≠ []) (m : ℕ) :
    ∀ {j i p q : ℕ} {rest : Bytes} (a : ArrayMemory element.Value),
    (∀ k, j ≤ k → k < j + m → element.Valid (f k)) →
    (∀ k, j ≤ k → k < j + m → if k + 1 = j + m then
        element.Readable true (0x5D :: closing) (0x5D :: follows) (f k) ∨
          tested = false ∧ element.Readable false closing (0x5D :: follows) (f k)
      else element.Readable true [] [] (f k)) →
    s.HasTokens i ((elements f j m).tokens p) → s.textAt p = (elements f j m).text ++ rest →
    p + (elements f j m).text.length ≤ sizeMax → 0x5D :: follows <+: rest →
    (m = 0 → 0x5D :: closing <+: s.textAt q) →
    (0 < m → element.EndsInRecord → ¬ s.KeyAt (i + ((elements f j m).tokens p).length)) →
    ∃ ok a' q', run (textDecoder o) (decodeElements element.decode m j a) (s.seek i q) =
        ((ok, a'), s.seek (i + ((elements f j m).tokens p).length) q') ∧
      (∀ k, j ≤ k → k < j + m → element.Same (f k) (a'.value k)) ∧ (∀ k < j, a'.value k = a.value k) ∧
      (ok = true ∧ 0x5D :: closing <+: s.textAt q' ∨ tested = false ∧ closing <+: s.textAt q') := by
  induction m with
  | zero =>
    intro j i p q rest a _ _ _ _ _ _ hq _
    exact ⟨true, a, q, rfl, fun k hj hk => absurd hk (by omega), fun _ _ => rfl, .inl ⟨rfl, hq rfl⟩⟩
  | succ m ih =>
    intro j i p q rest a hvalid hread htokens htext hpos hrest _ hend
    have hreadj := hread j (Nat.le_refl _) (by omega)
    cases m with
    | zero =>
      rw [if_pos (by omega)] at hreadj
      have hdigit : element.IsInteger → isDigit (rest.headD 0) = false := fun _ => by
        obtain ⟨rest', rfl⟩ := hrest
        rfl
      have hvalidj := hvalid j (Nat.le_refl _) (by omega)
      have hlast : ∃ ok v' q', run (textDecoder o) (element.decode (a.value j)) (s.seek i q) =
            (⟨ok, some v'⟩, s.seek (i + ((element.piece (f j)).tokens p).length) q') ∧ element.Same (f j) v' ∧
          (ok = true ∧ 0x5D :: closing <+: s.textAt q' ∨ tested = false ∧ closing <+: s.textAt q') := by
        rcases hreadj with hreadj | ⟨htested, hreadj⟩
        · obtain ⟨ok, v', q', hrun, hok, hsame, hclosing⟩ := helement (f j) (a.value j) q hvalidj hreadj
            (fun h => absurd h (by decide)) hs htokens htext hpos hrest hdigit (hend (by omega))
          exact ⟨ok, v', q', hrun, hsame, .inl ⟨hok rfl, hclosing⟩⟩
        · obtain ⟨ok, v', q', hrun, -, hsame, hclosing⟩ := helement (f j) (a.value j) q hvalidj hreadj
            (fun _ => hhead htested) hs htokens htext hpos hrest hdigit (hend (by omega))
          exact ⟨ok, v', q', hrun, hsame, .inr ⟨htested, hclosing⟩⟩
      obtain ⟨ok, v', q', hrun, hsame, hclosing⟩ := hlast
      refine ⟨ok, a.store j (some v'), q', ?_, fun k hj hk => ?_, fun k hk => ?_, hclosing⟩
      · rw [decodeElements, run_bind, hrun]
        cases ok <;> rfl
      · obtain rfl : k = j := by omega
        simpa [ArrayMemory.store] using hsame
      · simp [ArrayMemory.store, Nat.ne_of_lt hk]
    | succ m =>
      rw [elements_succ_succ] at htokens htext hpos hend ⊢
      simp only [List.append_assoc, List.cons_append, List.length_append, List.length_cons] at htext hpos hend ⊢
      rw [if_neg (by omega)] at hreadj
      have hafter : element.EndsInRecord → ¬ s.KeyAt (i + ((element.piece (f j)).tokens p).length) := by
        intro hends
        obtain ⟨toks, htoks⟩ := elements_tokens f (j + 1) m (p + (element.piece (f j)).text.length + 1)
        have hnext := htokens.right
        rw [htoks] at hnext
        exact not_keyAt_first hends.bracketed hnext.left
      obtain ⟨ok, v', q', hrun, hok, hsame, -⟩ := helement (f j) (a.value j) q (hvalid j (Nat.le_refl _) (by omega))
        hreadj (fun h => absurd h (by decide)) hs htokens.left htext (by omega) List.nil_prefix (fun _ => rfl) hafter
      obtain rfl := hok rfl
      obtain ⟨ok, a', q'', hrun', hsame', hbefore, hclosing⟩ := ih (j := j + 1) (q := q') (a.store j (some v'))
        (fun k hj hk => hvalid k (by omega) (by omega))
        (fun k hj hk => by
          have hreadk := hread k (by omega) (by omega)
          rwa [show j + (m + 1 + 1) = j + 1 + (m + 1) by omega] at hreadk)
        htokens.right (textAt_succ (textAt_add _ htext)) (by omega) hrest (by omega) (fun _ hends => by
          rw [Nat.add_assoc]
          exact hend (by omega) hends)
      refine ⟨ok, a', q'', ?_, fun k hj hk => ?_, fun k hk => ?_, hclosing⟩
      · rw [decodeElements, run_bind, hrun, ← Nat.add_assoc]
        exact hrun'
      · rcases Nat.eq_or_lt_of_le hj with rfl | hj
        · rw [hbefore _ (by omega)]
          simpa [ArrayMemory.store] using hsame
        · exact hsame' k hj (by omega)
      · rw [hbefore k (by omega)]
        simp [ArrayMemory.store, Nat.ne_of_lt hk]

/-- The end of a list that may be left open. -/
theorem stop_seek_of_open {closing : Bytes} {s : TextDecoderState} {i q : ℕ} (h : closing <+: s.textAt q)
    (hhead : closing.head? ≠ some 0x5D) :
    ∃ ok q', stop 0x5D (s.seek i q) = (ok, s.seek i q') ∧ closing <+: s.textAt q' := by
  rcases stop_seek_cases (c := 0x5D) (by decide) s i q with ⟨hstop, htext⟩ | ⟨hstop, -⟩
  · refine ⟨true, q + 1, hstop, ?_⟩
    cases closing with
    | nil => exact List.nil_prefix
    | cons c closing =>
      rw [htext] at h
      exact absurd (congrArg some (List.cons_prefix_cons.1 h).1) hhead
  · exact ⟨false, q, hstop, h⟩

/-- The decode of an array, at the start of a list. -/
theorem run_array {size : ℕ} {old : ℕ → element.Value} {s s' s'' : TextDecoderState} {ok : Bool}
    {a : ArrayMemory element.Value} (hstart : start .array s = (true, s'))
    (helements : run (textDecoder o) (decodeElements element.decode size 0 ⟨old, []⟩) s' = ((ok, a), s'')) :
    run (textDecoder o) ((ValueType.array element size).decode old) s =
      if ok then (⟨(stop 0x5D s'').1, some a.value⟩, (stop 0x5D s'').2) else (⟨false, some a.value⟩, s'') := by
  have hstart' : run (textDecoder o) (decode .listStart) s = (true, s') := hstart
  have hsize : run (textDecoder o) (decode (.ensureListSize size)) s' = (some size, s') := rfl
  rw [ValueType.decode, run_bind, decodeArray, run_bind, hstart']
  simp only [Bool.not_true, Bool.false_eq_true, if_false, run_bind, hsize, helements]
  cases ok <;> rfl

theorem decodes_array (helement : element.Decodes o) (size : ℕ) : (ValueType.array element size).Decodes o := by
  intro f old q tested closing follows rest s i p hvalid hread hhead hs htokens htext hpos hfollows _ hend
  obtain ⟨hempty, hread⟩ := hread
  rw [piece_array] at htokens htext hpos hend ⊢
  simp only [List.append_assoc, List.cons_append, List.nil_append, List.length_append, List.length_cons,
    List.length_nil, Nat.zero_add] at htext hpos hend ⊢
  have hinner := textAt_succ htext
  have hrest : 0x5D :: follows <+: 0x5D :: rest := (List.prefix_cons_inj _).2 hfollows
  obtain ⟨ok, a, q', helements, hsame, -, hend'⟩ := run_decodeElements helement hhead hs size (j := 0) (q := p + 1)
    ⟨old, []⟩ (fun k _ hk => hvalid k (by omega)) (fun k _ hk => by
      rw [Nat.zero_add]
      exact hread k (by omega)) htokens.tail hinner (by omega) hrest (fun hsize => by
      have hclosing := hempty hsize
      subst hsize
      rw [hinner]
      exact (List.prefix_cons_inj _).2 (hclosing.trans hfollows)) (fun hsize hends => by
      rw [Nat.add_assoc, Nat.add_comm 1]
      exact hend ⟨hsize, hends⟩)
  have hlen : i + (((elements f 0 size).tokens (p + 1)).length + 1) =
      i + 1 + ((elements f 0 size).tokens (p + 1)).length := by omega
  rw [hlen, run_array (start_seek (.inl rfl) hs htokens.head (by omega)) helements]
  have hall : (ValueType.array element size).Same f a.value := fun k hk => hsame k (Nat.zero_le _) (by omega)
  rcases hend' with ⟨rfl, hclosing⟩ | ⟨htested, hclosing⟩
  · obtain ⟨hstop, hbehind⟩ := stop_seek (c := 0x5D) (by decide)
      (i := i + 1 + ((elements f 0 size).tokens (p + 1)).length) hclosing
    refine ⟨true, a.value, q' + 1, ?_, fun _ => rfl, hall, hbehind⟩
    rw [if_pos rfl, hstop]
  · cases ok with
    | false =>
      exact ⟨false, a.value, q', if_neg Bool.false_ne_true, fun h => absurd (h.symm.trans htested) (by decide), hall,
        hclosing⟩
    | true =>
      obtain ⟨ok, q'', hstop, hbehind⟩ := stop_seek_of_open
        (i := i + 1 + ((elements f 0 size).tokens (p + 1)).length) hclosing (hhead htested)
      refine ⟨ok, a.value, q'', ?_, fun h => absurd (h.symm.trans htested) (by decide), hall, hbehind⟩
      rw [if_pos rfl, hstop]

end Elements

/-! ## Maps -/

/-- A key that is a string. -/
theorem decodeKey_seek {value rest : Bytes} {s : TextDecoderState} {i p q : ℕ} (key : Key)
    (hs : s.parser.tokens ≠ []) (htokens : s.HasTokens i ((Piece.string value).tokens p))
    (htext : s.textAt p = (Piece.string value).text ++ rest)
    (hpos : p + (Piece.string value).text.length ≤ sizeMax) :
    run (textDecoder o) (decodeKey key) (s.seek i q) =
      ((true, { key with name := some value }), s.seek (i + 1) (p + 1)) := by
  have htype : (s.token i).type ≠ .primitive := by
    rw [htokens.head]
    exact nofun
  have hid : run (textDecoder o) (decode (.uint .w32)) (s.seek i q) = (none, s.seek i q) := by
    change decodePrimitive (unsigned .w32) (s.seek i q) = _
    rw [decodePrimitive, expectType_seek_ne hs htype]
  rw [decodeKey, run_bind, hid]
  dsimp only
  rw [run_bind, (string_seek (o := o) hs htokens htext hpos).1]
  rfl

/-- A token that is no key. -/
theorem decodeKey_seek_none {s : TextDecoderState} {i q : ℕ} (key : Key) (hs : s.parser.tokens ≠ [])
    (hkey : ¬ s.KeyAt i) :
    run (textDecoder o) (decodeKey key) (s.seek i q) = ((false, key), s.seek i q) := by
  rw [KeyAt, not_or] at hkey
  have hid : run (textDecoder o) (decode (.uint .w32)) (s.seek i q) = (none, s.seek i q) := by
    change decodePrimitive (unsigned .w32) (s.seek i q) = _
    rw [decodePrimitive, expectType_seek_ne hs hkey.2]
  have hname : run (textDecoder o) (decode .string) (s.seek i q) = (none, s.seek i q) := by
    change TextDecoder.string (s.seek i q) = _
    rw [TextDecoder.string, expectType_seek_ne hs hkey.1]
  rw [decodeKey, run_bind, hid]
  dsimp only
  rw [run_bind, hname]
  rfl

/-- The loop goes on after a round. -/
theorem run_decodeMapLoop_of_round {γ σ : Type} {h : Decoder σ} {callback : γ → Key → Decoding (Bool × γ)} {n : ℕ}
    {key key' : Key} {c c' : γ} {d d' : σ}
    (hround : run h (decodeMapRound callback (key, c)) d = (.inl (key', c'), d')) :
    run h (decodeMapLoop callback (n + 1) key c) d = run h (decodeMapLoop callback n key' c') d' := by
  rw [decodeMapLoop, run_repeatUntil_succ, hround]
  rfl

/-- The loop at a token that is no key. -/
theorem run_decodeMapLoop_end {γ : Type} (callback : γ → Key → Decoding (Bool × γ)) (n : ℕ) {s : TextDecoderState}
    {i q : ℕ} (key : Key) (c : γ) (hs : s.parser.tokens ≠ []) (hkey : ¬ s.KeyAt i) :
    run (textDecoder o) (decodeMapLoop callback (n + 1) key c) (s.seek i q) =
      (((stop 0x7D (s.seek i q)).1, c), (stop 0x7D (s.seek i q)).2) := by
  have hnokey : run (textDecoder o) (decodeKey key) (s.seek i q) = ((false, key), s.seek i q) :=
    decodeKey_seek_none key hs hkey
  have hround : run (textDecoder o) (decodeMapRound callback (key, c)) (s.seek i q) =
      (.inr ((stop 0x7D (s.seek i q)).1, c), (stop 0x7D (s.seek i q)).2) := by
    rw [decodeMapRound, run_bind, hnokey]
    rfl
  rw [decodeMapLoop, run_repeatUntil_succ, hround]

/-- The callback on a name whose first member is found. -/
theorem decodeMember_found {σ : Type} (h : Decoder σ) {size : ℕ} {V : Fin size → Type} {id : Fin size → ℕ}
    {name : Fin size → Bytes} {member : (i : Fin size) → V i → Decoding (Decoded (V i))} (r : (i : Fin size) → V i)
    (key : Key) {n : Bytes} {j : Fin size} (hid : key.id = none) (hkey : key.name = some n)
    (hfind : (List.finRange size).find? (fun i => decide (name i = n)) = some j) (s : σ) :
    run h (decodeMember id name member r key) s =
      ((true, Function.update r j ((run h (member j (r j)) s).1.value (r j))), (run h (member j (r j)) s).2) := by
  rw [decodeMember, decodeByKey, hid, hkey]
  simp only [switchDecode, hfind, run_bind, run_pure, if_true]

section Members

variable {size : ℕ} {id : Fin size → ℕ} {name : Fin size → Bytes} {member : Fin size → ValueType}
  (r : (i : Fin size) → (member i).Value)

/-- The callback on the name of a member. -/
theorem decodeMember_name {σ : Type} (h : Decoder σ) (hname : Function.Injective name)
    (old : (i : Fin size) → (member i).Value) (key : Key) (hid : key.id = none) (k : Fin size)
    (hkey : key.name = some (name k)) (s : σ) :
    run h (decodeMember id name (fun i => (member i).decode) old key) s =
      ((true, Function.update old k ((run h ((member k).decode (old k)) s).1.value (old k))),
        (run h ((member k).decode (old k)) s).2) := by
  have hfind : (List.finRange size).find? (fun i => decide (name i = name k)) = some k := by
    cases hfound : (List.finRange size).find? (fun i => decide (name i = name k)) with
    | none => exact absurd (List.find?_eq_none.1 hfound k (List.mem_finRange k)) (by simp)
    | some j =>
      have hj : name j = name k := by simpa using List.find?_some hfound
      rw [hname hj]
  exact decodeMember_found h old key hid hkey hfind s

/-- Some members of a record, with commas between them. -/
def members (name : Fin size → Bytes) (is : List (Fin size)) : Piece :=
  .items (is.map fun i => .pair (name i) ((member i).piece (r i)))

theorem members_cons_cons (k k' : Fin size) (is : List (Fin size)) : members r name (k :: k' :: is) =
    ⟨(Piece.pair (name k) ((member k).piece (r k))).text ++ 0x2C :: (members r name (k' :: is)).text, fun p =>
      (Piece.pair (name k) ((member k).piece (r k))).tokens p ++
        (members r name (k' :: is)).tokens
          (p + (Piece.pair (name k) ((member k).piece (r k))).text.length + 1)⟩ := rfl

variable {r}

/-- One round of the loop, at the name of a member. -/
theorem decodeMapRound_seek (id : Fin size → ℕ) (q : ℕ) (hname : Function.Injective name) (k : Fin size)
    (old : (i : Fin size) → (member i).Value) (key : Key) (hid : key.id = none) {rest : Bytes}
    {s : TextDecoderState} {i p : ℕ} (hs : s.parser.tokens ≠ [])
    (htokens : s.HasTokens i ((Piece.pair (name k) ((member k).piece (r k))).tokens p))
    (htext : s.textAt p = (Piece.pair (name k) ((member k).piece (r k))).text ++ rest)
    (hpos : p + (Piece.pair (name k) ((member k).piece (r k))).text.length ≤ sizeMax) :
    run (textDecoder o) (decodeMapRound (decodeMember id name fun i => (member i).decode) (key, old)) (s.seek i q) =
        (.inl ({ key with name := some (name k) }, Function.update old k
            ((run (textDecoder o) ((member k).decode (old k)) (s.seek (i + 1) (p + 1))).1.value (old k))),
          (run (textDecoder o) ((member k).decode (old k)) (s.seek (i + 1) (p + 1))).2) ∧
      ∃ p', s.HasTokens (i + 1) (((member k).piece (r k)).tokens p') ∧
        s.textAt p' = ((member k).piece (r k)).text ++ rest ∧ p' + ((member k).piece (r k)).text.length ≤ sizeMax ∧
        i + ((Piece.pair (name k) ((member k).piece (r k))).tokens p).length =
          i + 1 + (((member k).piece (r k)).tokens p').length := by
  have hlen : (Piece.string (name k)).text.length = (name k).length + 2 := by simp [Piece.string]
  have htext' : s.textAt p = (Piece.string (name k)).text ++ (0x3A :: ((member k).piece (r k)).text ++ rest) := by
    rw [htext, Piece.pair, List.append_assoc]
  simp only [Piece.pair, List.length_append, List.length_cons, hlen] at hpos
  have hkey : run (textDecoder o) (decodeKey key) (s.seek i q) = _ :=
    decodeKey_seek (o := o) key hs htokens.left htext' (by rw [hlen]; omega)
  have hvalue : s.textAt (p + (name k).length + 3) = ((member k).piece (r k)).text ++ rest := by
    have hcolon := textAt_succ (textAt_add _ htext')
    rwa [hlen, show p + ((name k).length + 2) + 1 = p + (name k).length + 3 by omega] at hcolon
  refine ⟨?_, p + (name k).length + 3, htokens.right, hvalue, by omega, ?_⟩
  · rw [decodeMapRound, run_bind, hkey]
    simp only [if_true, run_bind]
    rw [decodeMember_name (textDecoder o) hname old { key with name := some (name k) } hid k rfl]
    rfl
  · rw [Piece.pair, List.length_append, ← Nat.add_assoc i]
    rfl

/-- One round of the loop, with a member that is read. -/
theorem run_decodeMapRound (id : Fin size → ℕ) (q : ℕ) (hname : Function.Injective name) {k : Fin size}
    (hmember : (member k).Decodes o) (old : (i : Fin size) → (member i).Value) (key : Key) (hid : key.id = none)
    {closing follows rest : Bytes} {s : TextDecoderState} {i p : ℕ} (hvalid : (member k).Valid (r k))
    (hread : (member k).Readable false closing follows (r k)) (hhead : closing.head? ≠ some 0x5D)
    (hs : s.parser.tokens ≠ [])
    (htokens : s.HasTokens i ((Piece.pair (name k) ((member k).piece (r k))).tokens p))
    (htext : s.textAt p = (Piece.pair (name k) ((member k).piece (r k))).text ++ rest)
    (hpos : p + (Piece.pair (name k) ((member k).piece (r k))).text.length ≤ sizeMax) (hfollows : follows <+: rest)
    (hdigit : isDigit (rest.headD 0) = false)
    (hend : (member k).EndsInRecord →
      ¬ s.KeyAt (i + ((Piece.pair (name k) ((member k).piece (r k))).tokens p).length)) :
    ∃ v' q', run (textDecoder o) (decodeMapRound (decodeMember id name fun i => (member i).decode) (key, old))
        (s.seek i q) = (.inl ({ key with name := some (name k) }, Function.update old k v'),
          s.seek (i + ((Piece.pair (name k) ((member k).piece (r k))).tokens p).length) q') ∧
      (member k).Same (r k) v' ∧ closing <+: s.textAt q' := by
  obtain ⟨hround, p', htokens', hvalue, hpos', hcount⟩ :=
    decodeMapRound_seek (o := o) id q hname k old key hid hs htokens htext hpos
  rw [hcount] at hend ⊢
  obtain ⟨ok, v', q', hrun, -, hsame, hclosing⟩ := hmember (r k) (old k) (p + 1) hvalid hread (fun _ => hhead) hs
    htokens' hvalue hpos' hfollows (fun _ => hdigit) hend
  refine ⟨v', q', ?_, hsame, hclosing⟩
  rw [hround, hrun]
  rfl

/-- The members of a record are read one after the other. -/
theorem run_decodeMapLoop (id : Fin size → ℕ) (hmember : ∀ i, (member i).Decodes o) (hname : Function.Injective name)
    (hvalid : ∀ i, Piece.Plain (name i) ∧ (member i).Valid (r i)) {closing follows : Bytes} {s : TextDecoderState}
    (hs : s.parser.tokens ≠ []) (is : List (Fin size)) : ∀ {i p q n : ℕ} {rest : Bytes} (key : Key)
    (old : (i : Fin size) → (member i).Value), key.id = none → is.Nodup → is.length < n →
    (∀ k ∈ is, if is.getLast? = some k then (member k).Readable false (0x7D :: closing) (0x7D :: follows) (r k)
      else (member k).Readable false [] [] (r k) ∧ ¬ (member k).EndsInRecord) →
    s.HasTokens i ((members r name is).tokens p) → s.textAt p = (members r name is).text ++ rest →
    p + (members r name is).text.length ≤ sizeMax → 0x7D :: follows <+: rest →
    (is = [] → 0x7D :: closing <+: s.textAt q) → ¬ s.KeyAt (i + ((members r name is).tokens p).length) →
    ∃ w q', run (textDecoder o) (decodeMapLoop (decodeMember id name fun i => (member i).decode) n key old)
        (s.seek i q) = ((true, w), s.seek (i + ((members r name is).tokens p).length) q') ∧
      (∀ k ∈ is, (member k).Same (r k) (w k)) ∧ (∀ k ∉ is, w k = old k) ∧ closing <+: s.textAt q' := by
  induction is with
  | nil =>
    intro i p q n rest key old _ _ hbound _ _ _ _ _ hq hend
    obtain ⟨n, rfl⟩ : ∃ m, n = m + 1 := ⟨n - 1, by omega⟩
    obtain ⟨hstop, hbehind⟩ := stop_seek (c := 0x7D) (by decide) (i := i) (hq rfl)
    refine ⟨old, q + 1, ?_, fun k hk => absurd hk List.not_mem_nil, fun _ _ => rfl, hbehind⟩
    have hend' : ¬ s.KeyAt i := hend
    have hloop := run_decodeMapLoop_end (o := o) (decodeMember id name fun i => (member i).decode) n (q := q) key old
      hs hend'
    rw [hstop] at hloop
    exact hloop
  | cons k is ih =>
    intro i p q n rest key old hid hnodup hbound hread htokens htext hpos hrest _ hend
    obtain ⟨n, rfl⟩ : ∃ m, n = m + 1 := ⟨n - 1, by omega⟩
    obtain ⟨hk, hnodup'⟩ := List.nodup_cons.1 hnodup
    have hreadk := hread k List.mem_cons_self
    cases is with
    | nil =>
      rw [List.getLast?_singleton, if_pos rfl] at hreadk
      have hpiece : members r name [k] = Piece.pair (name k) ((member k).piece (r k)) := rfl
      rw [hpiece] at htokens htext hpos hend ⊢
      obtain ⟨v', q', hround, hsame, hclosing⟩ := run_decodeMapRound id q hname (hmember k) old key hid
        (hvalid k).2 hreadk (fun h => absurd (Option.some.inj h) (by decide)) hs htokens htext hpos hrest (by
          obtain ⟨rest', rfl⟩ := hrest
          rfl) fun _ => hend
      obtain ⟨w, q'', hrun, -, hbefore, hbehind⟩ := ih (q := q')
        { key with name := some (name k) } (Function.update old k v') hid hnodup' (Nat.lt_of_succ_lt_succ hbound)
        (fun k hk => absurd hk List.not_mem_nil) (fun k t hk => by simp [members, Piece.items] at hk)
        (textAt_add _ htext) hpos hrest (fun _ => hclosing) hend
      refine ⟨w, q'', ?_, fun j hj => ?_, fun j hj => ?_, hbehind⟩
      · rw [run_decodeMapLoop_of_round hround]
        exact hrun
      · obtain rfl := List.mem_singleton.1 hj
        rw [hbefore _ List.not_mem_nil, Function.update_self]
        exact hsame
      · rw [hbefore j List.not_mem_nil, Function.update_of_ne (by rintro rfl; exact hj List.mem_cons_self)]
    | cons k' is =>
      have hlast : (k :: k' :: is).getLast? = (k' :: is).getLast? := List.getLast?_cons_cons
      have hne : (k' :: is).getLast? ≠ some k := fun h => hk (List.mem_of_getLast? h)
      rw [hlast, if_neg hne] at hreadk
      rw [members_cons_cons] at htokens htext hpos hend ⊢
      simp only [List.append_assoc, List.cons_append, List.length_append, List.length_cons] at htext hpos hend ⊢
      obtain ⟨v', q', hround, hsame, -⟩ := run_decodeMapRound id q hname (hmember k) old key hid
        (hvalid k).2 hreadk.1 (by decide) hs htokens.left htext (by omega) List.nil_prefix rfl
        fun h => absurd h hreadk.2
      rw [← Nat.add_assoc] at hend ⊢
      obtain ⟨w, q'', hrun, hsame', hbefore, hbehind⟩ := ih (q := q')
        { key with name := some (name k) } (Function.update old k v') hid hnodup' (Nat.lt_of_succ_lt_succ hbound)
        (fun j hj => by
          have hreadj := hread j (List.mem_cons_of_mem _ hj)
          rwa [hlast] at hreadj)
        htokens.right (textAt_succ (textAt_add _ htext)) (by omega) hrest (by simp) hend
      refine ⟨w, q'', ?_, fun j hj => ?_, fun j hj => ?_, hbehind⟩
      · rw [run_decodeMapLoop_of_round hround]
        exact hrun
      · rcases List.mem_cons.1 hj with rfl | hj
        · rw [hbefore _ hk, Function.update_self]
          exact hsame
        · exact hsame' j hj
      · rw [hbefore j fun h => hj (List.mem_cons_of_mem _ h),
          Function.update_of_ne (by rintro rfl; exact hj List.mem_cons_self)]

theorem getLast?_finRange (k : Fin size) : (List.finRange size).getLast? = some k ↔ (k : ℕ) + 1 = size := by
  have hk := k.isLt
  rw [List.getLast?_eq_getElem?, List.getElem?_eq_some_iff]
  simp only [List.length_finRange, List.getElem_finRange, Fin.ext_iff, Fin.val_cast]
  constructor
  · rintro ⟨-, h⟩
    omega
  · intro h
    exact ⟨by omega, by omega⟩

/-- There are no more members than characters in their text. -/
theorem length_le_members (r : (i : Fin size) → (member i).Value) (name : Fin size → Bytes) (is : List (Fin size)) :
    is.length ≤ (members r name is).text.length := by
  induction is with
  | nil => exact Nat.zero_le _
  | cons k is ih =>
    cases is with
    | nil =>
      rw [members, List.map_singleton, Piece.items, Piece.pair, Piece.string]
      simp only [List.length_append, List.length_cons, List.length_nil]
      omega
    | cons k' is =>
      rw [members_cons_cons]
      simp only [List.length_append, List.length_cons] at ih ⊢
      omega

/-- The decode of a record, at the start of a map. -/
theorem run_record {old w : (i : Fin size) → (member i).Value} {s s' s'' : TextDecoderState} {ok : Bool}
    (hstart : start .object s = (true, s'))
    (hloop : run (textDecoder o) (decodeMapLoop (decodeMember id name fun i => (member i).decode) sizeMax {} old) s' =
      ((ok, w), s'')) :
    run (textDecoder o) ((ValueType.record size id name member).decode old) s = (⟨ok, some w⟩, s'') := by
  have hstart' : run (textDecoder o) (decode .mapStart) s = (true, s') := hstart
  rw [ValueType.decode, run_bind, decodeRecord, decodeMap, run_bind, hstart']
  simp only [if_true, hloop, run_pure]

theorem decodes_record (hmember : ∀ i, (member i).Decodes o) :
    (ValueType.record size id name member).Decodes o := by
  intro r old q tested closing follows rest s i p hvalid hread _ hs htokens htext hpos hfollows _ hend
  obtain ⟨hempty, hname, hread⟩ := hread
  have hpiece : (ValueType.record size id name member).piece r =
      ⟨0x7B :: (members r name (List.finRange size)).text ++ [0x7D], fun p =>
        ⟨.object, p, (p + (members r name (List.finRange size)).text.length + 2 : ℕ)⟩ ::
          (members r name (List.finRange size)).tokens (p + 1)⟩ := rfl
  rw [hpiece] at htokens htext hpos hend ⊢
  simp only [List.append_assoc, List.cons_append, List.nil_append, List.length_append, List.length_cons,
    List.length_nil, Nat.zero_add] at htext hpos hend ⊢
  have hinner := textAt_succ htext
  have hrest : 0x7D :: follows <+: 0x7D :: rest := (List.prefix_cons_inj _).2 hfollows
  have hcount : i + 1 + ((members r name (List.finRange size)).tokens (p + 1)).length =
      i + (((members r name (List.finRange size)).tokens (p + 1)).length + 1) := by omega
  obtain ⟨w, q', hloop, hsame, -, hbehind⟩ := run_decodeMapLoop id hmember hname hvalid hs
    (List.finRange size) (q := p + 1) (n := sizeMax) {} old rfl (List.nodup_finRange size)
    (by
      have := length_le_members r name (List.finRange size)
      omega)
    (fun k _ => by
      simp only [getLast?_finRange]
      exact hread k)
    htokens.tail hinner (by omega) hrest (fun hsize => by
      rw [hinner, hsize]
      exact (List.prefix_cons_inj _).2 ((hempty (List.length_finRange.symm.trans (congrArg List.length hsize))).trans
        hfollows)) (by
      rw [hcount]
      exact hend trivial)
  refine ⟨true, w, q', ?_, fun _ => rfl, fun k => hsame k (List.mem_finRange k), hbehind⟩
  rw [run_record (start_seek (.inr rfl) hs htokens.head (by omega)) hloop, hcount]

end Members

/-- **The decoder reads the readable values.** -/
theorem decodes : ∀ t : ValueType, t.Decodes o
  | .uint w => decodes_uint w
  | .int w => decodes_int w
  | .bool => fun _ _ _ _ _ _ _ _ _ _ _ hread => absurd hread id
  | .string => decodes_string
  | .array element size => decodes_array (decodes element) size
  | .record _ _ _ member => decodes_record fun i => decodes (member i)

/-! ## From the encoder to the decoder -/

/-- `FixedSizeThingSetTextDecoder decoder(buffer, encoder.getEncodedLength())`, with what the array of its tokens
holds. -/
def TextEncoderState.toDecoder (s : TextEncoderState) (tokens : ℕ → JsmnTok) : TextDecoderState where
  memory := s.responseBuffer
  inputBuffer := 0
  bufferSize := s.responsePosition
  tokens := tokens

/-- An encoder and a decoder, for values without floating-point numbers. -/
def noFloats : TextEncoderConfig := ⟨fun _ => [], fun _ => 0, 0⟩

@[inherit_doc noFloats] def noFloatOptions : TextDecoderOptions := ⟨strtodNone, fun _ => 0⟩

/-- A value is encoded into a buffer, and it is what is decoded from the text into any value of the type. -/
def RoundTrips (E : TextEncoderConfig) (o : TextDecoderOptions) (t : ValueType) (v : t.Value) (buffer : Bytes)
    (tokens : ℕ → JsmnTok) : Prop :=
  let (ok, s) := run (textEncoder E) (t.encode v) { responseBuffer := buffer }
  ok = true ∧ ∀ old : t.Value,
    let d := (run (textDecoder o) (t.decode old) (s.toDecoder tokens)).1
    d.ok = true ∧ t.Same v (d.value old)

theorem RoundTrips.ok {E : TextEncoderConfig} {o : TextDecoderOptions} {t : ValueType} {v : t.Value} {buffer : Bytes}
    {tokens : ℕ → JsmnTok} (h : RoundTrips E o t v buffer tokens) (old : t.Value) :
    (run (textDecoder o) (t.decode old)
      ((run (textEncoder E) (t.encode v) { responseBuffer := buffer }).2.toDecoder tokens)).1.ok = true :=
  (h.2 old).1

/-- The buffer has room for the text and a NUL, and the array of tokens for its tokens. -/
structure Fits (t : ValueType) (v : t.Value) (buffer : Bytes) : Prop where
  room : (t.piece v).text.length < buffer.length
  buffer_le : buffer.length ≤ sizeMax
  tokens : ((t.piece v).tokens 0).length ≤ maxTokens

theorem expectType_getTokens {type : JsmnType} {s : TextDecoderState} (hs : s.getTokens.parser.tokens ≠ []) :
    expectType type s = expectType type s.getTokens := by
  rw [expectType, expectType, getTokens_of_tokens hs]

/-- The first call of the decoder asks for the tokens. -/
theorem run_decode_getTokens {s : TextDecoderState} (hs : s.getTokens.parser.tokens ≠ []) :
    ∀ (t : ValueType) (old : t.Value),
      run (textDecoder o) (t.decode old) s = run (textDecoder o) (t.decode old) s.getTokens
  | .uint w, old => by
    have hop : run (textDecoder o) (decode (.uint w)) s = run (textDecoder o) (decode (.uint w)) s.getTokens := by
      change decodePrimitive (unsigned w) s = decodePrimitive (unsigned w) s.getTokens
      rw [decodePrimitive, decodePrimitive, expectType_getTokens hs]
    rw [ValueType.decode, decodeScalar, run_bind, run_bind, hop]
  | .int w, old => by
    have hop : run (textDecoder o) (decode (.int w)) s = run (textDecoder o) (decode (.int w)) s.getTokens := by
      change decodePrimitive (signed w) s = decodePrimitive (signed w) s.getTokens
      rw [decodePrimitive, decodePrimitive, expectType_getTokens hs]
    rw [ValueType.decode, decodeScalar, run_bind, run_bind, hop]
  | .bool, old => by
    have hop : run (textDecoder o) (decode .bool) s = run (textDecoder o) (decode .bool) s.getTokens := by
      change TextDecoder.bool s = TextDecoder.bool s.getTokens
      rw [TextDecoder.bool, TextDecoder.bool, expectType_getTokens hs]
    rw [ValueType.decode, decodeScalar, run_bind, run_bind, hop]
  | .string, old => by
    have hop : run (textDecoder o) (decode .string) s = run (textDecoder o) (decode .string) s.getTokens := by
      change TextDecoder.string s = TextDecoder.string s.getTokens
      rw [TextDecoder.string, TextDecoder.string, expectType_getTokens hs]
    rw [ValueType.decode, decodeScalar, run_bind, run_bind, hop]
  | .array element size, old => by
    have hop : run (textDecoder o) (decode .listStart) s = run (textDecoder o) (decode .listStart) s.getTokens := by
      change start .array s = start .array s.getTokens
      rw [start, start, expectType_getTokens hs]
    rw [ValueType.decode, run_bind, run_bind, decodeArray, run_bind, run_bind, hop]
  | .record size id name member, old => by
    have hop : run (textDecoder o) (decode .mapStart) s = run (textDecoder o) (decode .mapStart) s.getTokens := by
      change start .object s = start .object s.getTokens
      rw [start, start, expectType_getTokens hs]
    rw [ValueType.decode, run_bind, run_bind, decodeRecord, decodeMap, run_bind, run_bind, hop]

/-- The tokens of a value. -/
theorem tokens_ne_nil : ∀ (t : ValueType) (v : t.Value) (p : ℕ), (t.piece v).tokens p ≠ []
  | .uint _, _, _ | .int _, _, _ | .bool, _, _ | .string, _, _ | .array _ _, _, _ | .record .., _, _ =>
    List.cons_ne_nil _ _

section

variable {E : TextEncoderConfig} {t : ValueType} {v : t.Value} {buffer : Bytes} {tokens : ℕ → JsmnTok}

/-- The text that the encoder leaves, with its tokens. -/
structure Encoded (E : TextEncoderConfig) (t : ValueType) (v : t.Value) (buffer : Bytes)
    (tokens : ℕ → JsmnTok) (s : TextEncoderState) : Prop where
  encode : run (textEncoder E) (t.encode v) { responseBuffer := buffer } = (true, s)
  parsed : (s.toDecoder tokens).getTokens.parser.tokens = (t.piece v).tokens 0
  memory : (s.toDecoder tokens).getTokens.tokens = tokens
  seek : (s.toDecoder tokens).getTokens.seek 0 0 = (s.toDecoder tokens).getTokens
  text : (s.toDecoder tokens).getTokens.textAt 0 = (t.piece v).text ++ s.responseBuffer.drop s.responsePosition
  integer : t.IsInteger → isDigit ((s.responseBuffer.drop s.responsePosition).headD 0) = false

theorem exists_encoded (hvalid : t.Valid v) (hfits : Fits t v buffer) :
    ∃ s, Encoded E t v buffer tokens s := by
  have hroom : TextEncoderState.Room { responseBuffer := buffer } (t.piece v).text := by
    rw [TextEncoderState.Room, Nat.zero_add]
    exact hfits.room
  obtain ⟨s, hencode, hs⟩ := encode_spec (E := E) t v { responseBuffer := buffer } hvalid rfl hroom
  have hwritten : s.responseBuffer.take s.responsePosition = (t.piece v).text := hs.written
  have hjs : (s.toDecoder tokens).js = (t.piece v).text := hwritten
  have hparse := (ValueType.tokenizes_piece t v hvalid).parse hfits.tokens
  have hget : (s.toDecoder tokens).getTokens =
      { s.toDecoder tokens with parser := ⟨(t.piece v).text.length, (t.piece v).tokens 0⟩ } := by
    rw [getTokens, if_pos (show (s.toDecoder tokens).parser.tokens.length = 0 from rfl), hjs]
    exact congrArg (fun parser => { s.toDecoder tokens with parser }) hparse
  refine ⟨s, hencode, by rw [hget], by rw [hget]; rfl, by rw [hget]; rfl, ?_, fun ht => ?_⟩
  · rw [textAt_getTokens, ← hwritten, List.take_append_drop]
    rfl
  · have hzero := encode_integer (E := E) ht hroom
    rw [hencode] at hzero
    rw [hzero]
    rfl

theorem Fits.position_le (hfits : Fits t v buffer) : 0 + (t.piece v).text.length ≤ sizeMax := by
  have hroom := hfits.room
  have hbuffer := hfits.buffer_le
  omega

theorem Encoded.tokens_ne_nil {s : TextEncoderState} (hs : Encoded E t v buffer tokens s) :
    (s.toDecoder tokens).getTokens.parser.tokens ≠ [] := by
  rw [hs.parsed]
  exact ThingSet.tokens_ne_nil t v 0

theorem Encoded.hasTokens {s : TextEncoderState} (hs : Encoded E t v buffer tokens s) :
    (s.toDecoder tokens).getTokens.HasTokens 0 ((t.piece v).tokens 0) := fun k tok hk => by
  rw [token, hs.parsed, Nat.zero_add, List.getD_eq_getElem?_getD, hk]
  rfl

/-- **A readable value is what is decoded from its text.** -/
theorem roundTrips_of_readable (hvalid : t.Valid v) (hfits : Fits t v buffer) (hread : t.Readable true [] [] v)
    (hmemory : t.EndsInRecord → (tokens ((t.piece v).tokens 0).length).type ≠ .string ∧
      (tokens ((t.piece v).tokens 0).length).type ≠ .primitive) :
    RoundTrips E o t v buffer tokens := by
  obtain ⟨s, hs⟩ : ∃ s, Encoded E t v buffer tokens s := exists_encoded hvalid hfits
  rw [RoundTrips, hs.encode]
  refine ⟨rfl, fun old => ?_⟩
  have hnext : t.EndsInRecord →
      ¬ (s.toDecoder tokens).getTokens.KeyAt (0 + ((t.piece v).tokens 0).length) := by
    intro hends
    obtain ⟨hstring, hprimitive⟩ := hmemory hends
    have htoken : (s.toDecoder tokens).getTokens.token (0 + ((t.piece v).tokens 0).length) =
        tokens ((t.piece v).tokens 0).length := by
      rw [token, hs.parsed, hs.memory, Nat.zero_add, List.getD_eq_getElem?_getD,
        List.getElem?_eq_none (Nat.le_refl _)]
      rfl
    rw [KeyAt, htoken]
    exact fun h => h.elim hstring hprimitive
  obtain ⟨ok, v', q', hrun, hok, hsame, -⟩ := decodes (o := o) t v old 0 hvalid hread (fun _ => by decide)
    hs.tokens_ne_nil hs.hasTokens hs.text hfits.position_le List.nil_prefix hs.integer hnext
  rw [hs.seek] at hrun
  rw [run_decode_getTokens hs.tokens_ne_nil, hrun]
  exact ⟨hok rfl, hsame⟩

end

end ThingSet
