import ThingSet.Foundations.Json
import ThingSet.Text.RoundTrip

/-!
# Strings as JSON literals

`ThingSetTextEncoder::encode` of a string puts its characters between quotes as they are, and a string view
goes through `data()`, so the characters go on up to the next NUL in memory.
`ThingSetTextDecoder::decode(std::string *)` copies what is between the quotes.

* `scanString_body`: the tokenizer finds the end of every literal.
* `rendersString_iff`: what is written is a literal of the value that is decoded as the value, exactly when the
  value has no character that must be escaped and a NUL is behind it.
-/

namespace ThingSet

open Interaction Prog TextEncoderState TextDecoderState

/-! ## The literals that the tokenizer accepts -/

section Tokenizer

variable {c d : UInt8} {n : ℕ} {rest : Bytes}

theorem isEscape_of_escapeValue (h : Json.escapeValue c = some d) : Jsmn.isEscape c = true := by
  unfold Json.escapeValue at h
  unfold Jsmn.isEscape
  simp only [List.mem_cons, List.not_mem_nil, or_false, decide_eq_true_eq]
  split_ifs at h <;> tauto

theorem isHex_of_hexValue (h : Json.hexValue c = some n) : Jsmn.isHex c = true := by
  unfold Json.hexValue at h
  unfold Jsmn.isHex
  rw [decide_eq_true_eq]
  split_ifs at h <;> tauto

/-- Behind four digits the scan goes on between characters. -/
theorem scanString_codeUnit {a b c d : UInt8} (h : Json.CodeUnit a b c d n) (text : Bytes) :
    Jsmn.scanString .char (0x5C :: 0x75 :: a :: b :: c :: d :: text) =
      (Jsmn.scanString .char text).map (· + 6) := by
  obtain ⟨w, x, y, z, ha, hb, hc, hd, -⟩ := h
  have hend : Jsmn.scanString (.hex 0) text = Jsmn.scanString .char text := by cases text <;> rfl
  have hu : Jsmn.isEscape 0x75 = false := by decide
  rw [Jsmn.scanString, if_neg (by decide), if_neg (by decide), if_pos rfl, Jsmn.scanString, hu,
    if_neg Bool.false_ne_true, if_pos rfl]
  simp only [Jsmn.scanString, isHex_of_hexValue ha, isHex_of_hexValue hb, isHex_of_hexValue hc,
    isHex_of_hexValue hd, if_true, hend, Option.map_map]
  rfl

/-- **The tokenizer finds the end of a literal.** -/
theorem scanString_body {text value : Bytes} (h : Json.Body text value) :
    Jsmn.scanString .char (text ++ 0x22 :: rest) = some text.length := by
  induction h with
  | nil => rfl
  | @plain c _ _ hc _ ih =>
    obtain ⟨hlow, hquote, hback⟩ := hc
    have hzero : c ≠ 0 := by
      rintro rfl
      exact absurd hlow (by decide)
    rw [List.cons_append, Jsmn.scanString, if_neg hzero, if_neg hquote, if_neg hback, ih]
    rfl
  | escape he _ ih =>
    rw [List.cons_append, List.cons_append, Jsmn.scanString, if_neg (by decide), if_neg (by decide), if_pos rfl,
      Jsmn.scanString, if_pos (isEscape_of_escapeValue he), ih]
    rfl
  | unicode hn _ _ ih =>
    simp only [List.cons_append]
    rw [scanString_codeUnit hn, ih]
    rfl
  | surrogates hm hn _ _ _ ih =>
    simp only [List.cons_append]
    rw [scanString_codeUnit hm, scanString_codeUnit hn, ih]
    rfl

end Tokenizer

/-! ## What is written and what is read -/

/-- A decoder that has been constructed on a text, with any memory around it. -/
structure TextDecoderState.OnText (d : TextDecoderState) (text : Bytes) : Prop where
  parser : d.parser = {}
  tokenIndex : d.tokenIndex = 0
  js : d.js = text

/-- What is between the quotes of a literal is decoded, with its escapes. -/
theorem string_onText {d : TextDecoderState} {body value : Bytes} (hbody : Json.Body body value)
    (hd : d.OnText (Piece.string body).text) (hlen : body.length ≤ sizeMax) :
    (TextDecoder.string d).1 = some body := by
  have htokenizes : (Piece.string body).Tokenizes :=
    Piece.tokenizes_string_of_scan fun _ => scanString_body hbody
  have hparse := htokenizes.parse (show 1 ≤ maxTokens from Nat.succ_le_of_lt (Nat.succ_pos 63))
  have hget : d.getTokens =
      { d with parser := ⟨(Piece.string body).text.length, (Piece.string body).tokens 0⟩ } := by
    rw [getTokens, if_pos (by rw [hd.parser]; rfl), hd.js, hd.parser, hparse]
  have htoken : d.getTokens.token d.getTokens.tokenIndex = ⟨.string, (1 : ℕ), (1 : ℕ) + body.length⟩ := by
    rw [hget, token, hd.tokenIndex]
    rfl
  obtain ⟨rest, hmemory⟩ : ∃ rest, d.memory.drop d.inputBuffer = 0x22 :: (body ++ 0x22 :: rest) := by
    have hjs : (d.memory.drop d.inputBuffer).take d.bufferSize = 0x22 :: (body ++ [0x22]) := hd.js
    refine ⟨(d.memory.drop d.inputBuffer).drop d.bufferSize, ?_⟩
    have hall := List.take_append_drop d.bufferSize (d.memory.drop d.inputBuffer)
    rw [hjs] at hall
    simpa using hall.symm
  have htext : d.textAt 1 = body ++ 0x22 :: rest := by
    rw [textAt, ← List.drop_drop, hmemory]
    rfl
  have hexpect : TextDecoder.expectType .string d =
      (some (d.getTokens.token d.getTokens.tokenIndex),
        d.getTokens.accept (d.getTokens.token d.getTokens.tokenIndex)) :=
    if_neg (by rw [htoken]; exact not_not_intro rfl)
  have hlength : toSize ((1 : ℕ) + body.length - (1 : ℕ)) = body.length := by
    rw [show ((1 : ℕ) : ℤ) + body.length - (1 : ℕ) = body.length by omega]
    exact toSize_position hlen
  rw [TextDecoder.string, hexpect, htoken]
  simp only [textAt_accept, textAt_getTokens, hlength,
    accept_bufferElemPtr (t := ⟨.string, (1 : ℕ), (1 : ℕ) + body.length⟩) (by rintro ⟨⟩) (by rintro ⟨⟩),
    toSize_position (n := 1) (by decide), htext, List.take_left]

variable {E : TextEncoderConfig} {o : TextDecoderOptions}

theorem takeWhile_eq_nil_iff {l : Bytes} : l.takeWhile (· ≠ 0) = [] ↔ l.headD 0 = 0 := by
  cases l with
  | nil => exact iff_of_true rfl rfl
  | cons c l => by_cases hc : c = 0 <;> simp [hc]

theorem takeWhile_plain_append {value : Bytes} (hvalue : Piece.Plain value) (l : Bytes) :
    (value ++ l).takeWhile (· ≠ 0) = value ++ l.takeWhile (· ≠ 0) := by
  refine List.takeWhile_append_of_pos fun c hc => ?_
  rw [← takeWhile_plain hvalue] at hc
  exact List.mem_takeWhile_imp (p := fun c => decide (c ≠ 0)) hc

/-- A string is encoded as one string literal that denotes it, and decoded from the literal. The string is a
`std::string_view` with the memory `behind` it; behind a `std::string` there is a NUL. -/
def RendersString (E : TextEncoderConfig) (o : TextDecoderOptions) (value behind : Bytes)
    (s : TextEncoderState) : Prop :=
  ∃ text s', textEncoder E (.string (value ++ behind)) s = (true, s') ∧ s.Extends text s' ∧
    Json.Literal text value ∧
      ∀ d : TextDecoderState, d.OnText text → (textDecoder o .string d).1 = some value

section

variable {value behind : Bytes} {s : TextEncoderState}
  (hroom : s.Room (Piece.string ((value ++ behind).takeWhile (· ≠ 0))).text)
  (hlen : s.responseBuffer.length ≤ sizeMax)

include hroom hlen

theorem length_string_le : ((value ++ behind).takeWhile (· ≠ 0)).length ≤ sizeMax := by
  rw [Room, Piece.string] at hroom
  simp only [List.length_append, List.length_cons] at hroom
  omega

/-- What is decoded are the characters that were written, so they are the value, and the value denotes itself. -/
theorem plain_of_rendersString (h : RendersString E o value behind s) :
    Piece.Plain value ∧ behind.headD 0 = 0 := by
  obtain ⟨text, s', hencode, hs', ⟨body, rfl, hdenotes⟩, hdecode⟩ := h
  have hbodyLen := length_string_le hroom hlen
  obtain ⟨s'', hencode', hs''⟩ := string_written hroom
  obtain rfl : s' = s'' := congrArg Prod.snd (hencode.symm.trans hencode')
  have htext : (Piece.string ((value ++ behind).takeWhile (· ≠ 0))).text = 0x22 :: (body ++ [0x22]) :=
    List.append_cancel_left (hs''.written.symm.trans hs'.written)
  have hbody : (value ++ behind).takeWhile (· ≠ 0) = body :=
    List.append_cancel_right (List.cons.inj htext).2
  rw [hbody] at hbodyLen
  have hvalue : body = value := by
    have honText : TextDecoderState.OnText ⟨(Piece.string body).text, 0, (Piece.string body).text.length,
      fun _ => ⟨.undefined, 0, 0⟩, 0, 0, {}⟩ (Piece.string body).text := ⟨rfl, rfl, List.take_length⟩
    exact Option.some.inj ((string_onText hdenotes honText hbodyLen).symm.trans (hdecode _ honText))
  subst hvalue
  have hplain : Piece.Plain body := hdenotes.plain_of_self
  rw [takeWhile_plain_append hplain] at hbody
  exact ⟨hplain, takeWhile_eq_nil_iff.1 (List.append_cancel_left (hbody.trans (List.append_nil _).symm))⟩

/-- A plain value is the text between the quotes. -/
theorem rendersString_of_plain (hplain : Piece.Plain value) (hbehind : behind.headD 0 = 0) :
    RendersString E o value behind s := by
  have hbodyLen := length_string_le hroom hlen
  have hvalue : (value ++ behind).takeWhile (· ≠ 0) = value := by
    rw [takeWhile_plain_append hplain, takeWhile_eq_nil_iff.2 hbehind, List.append_nil]
  obtain ⟨s', hencode, hs'⟩ := string_written hroom
  rw [hvalue] at hs' hbodyLen
  have hdenotes : Json.Body value value := Json.body_of_plain hplain
  refine ⟨(Piece.string value).text, s', hencode, hs', ⟨value, rfl, hdenotes⟩, fun d hd => ?_⟩
  exact string_onText hdenotes hd hbodyLen

end

/-- **A string is written as a literal that denotes it exactly when nothing in it must be escaped and a NUL is
behind it.** -/
theorem rendersString_iff (value behind : Bytes) {s : TextEncoderState}
    (hroom : s.Room (Piece.string ((value ++ behind).takeWhile (· ≠ 0))).text)
    (hlen : s.responseBuffer.length ≤ sizeMax) :
    RendersString E o value behind s ↔ Piece.Plain value ∧ behind.headD 0 = 0 :=
  ⟨plain_of_rendersString hroom hlen, fun h => rendersString_of_plain hroom hlen h.1 h.2⟩

/-- The string `abc`. -/
theorem rendersString_abc :
    RendersString noFloats noFloatOptions [0x61, 0x62, 0x63] [] { responseBuffer := List.replicate 8 0 } := by
  refine (rendersString_iff _ _ (by decide) (by decide)).2 ⟨?_, rfl⟩
  unfold Piece.Plain
  decide +kernel

/-- The string `a"b`, and the string view `ab` of `abc`. -/
theorem not_rendersString :
    ¬ RendersString noFloats noFloatOptions [0x61, 0x22, 0x62] [] { responseBuffer := List.replicate 8 0 } ∧
      ¬ RendersString noFloats noFloatOptions [0x61, 0x62] [0x63]
        { responseBuffer := List.replicate 8 0 } := by
  constructor
  · intro h
    have hplain := (plain_of_rendersString (by decide) (by decide) h).1 0x22
    exact (hplain (by decide)).2.1 rfl
  · intro h
    have hbehind := (plain_of_rendersString (by decide) (by decide) h).2
    exact absurd hbehind (by decide)

end ThingSet
