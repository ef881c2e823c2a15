import Mathlib.Logic.Relation
import ThingSet.Jsmn

/-!
# JSON texts and their tokens

A piece of JSON text is a text with the tokens that it has at a position: a string, a primitive, a list of
pieces with commas between them, a list or a map.

* `Piece.Tokenizes`: the tokenizer finds the tokens of the piece, whatever is before it and behind it.
* `parse_piece`: the tokenizer on a text that is a piece.
-/

namespace ThingSet

/-- A text with its tokens at a position. -/
structure Piece where
  text : Bytes
  tokens : ℕ → List JsmnTok

namespace Piece

/-- A string, of characters that need no escape. -/
def string (s : Bytes) : Piece where
  text := 0x22 :: s ++ [0x22]
  tokens p := [⟨.string, (p + 1 : ℕ), (p + 1 + s.length : ℕ)⟩]

/-- A number. -/
def primitive (text : Bytes) : Piece where
  text := text
  tokens p := [⟨.primitive, p, (p + text.length : ℕ)⟩]

/-- A string with a value. -/
def pair (key : Bytes) (x : Piece) : Piece where
  text := (string key).text ++ 0x3A :: x.text
  tokens p := (string key).tokens p ++ x.tokens (p + key.length + 3)

/-- Pieces with commas between them. -/
def items : List Piece → Piece
  | [] => ⟨[], fun _ => []⟩
  | [x] => x
  | x :: y :: xs =>
    ⟨x.text ++ 0x2C :: (items (y :: xs)).text,
      fun p => x.tokens p ++ (items (y :: xs)).tokens (p + x.text.length + 1)⟩

/-- A list or a map, with its brackets. -/
def container (type : JsmnType) (opening closing : UInt8) (xs : List Piece) : Piece where
  text := opening :: (items xs).text ++ [closing]
  tokens p := ⟨type, p, (p + (items xs).text.length + 2 : ℕ)⟩ :: (items xs).tokens (p + 1)

/-- A list. -/
def list (xs : List Piece) : Piece := container .array 0x5B 0x5D xs

/-- A map. -/
def map (xs : List Piece) : Piece := container .object 0x7B 0x7D xs

/-! ## The tokenizer -/

/-- A character that ends a primitive, or the end of the text. -/
def Ends (rest : Bytes) : Prop := rest = [] ∨ ∃ c cs, rest = c :: cs ∧ Jsmn.endsPrimitive c = true

/-- Rounds of the loop of `jsmn_parse`. -/
def Reaches (js : Bytes) (numTokens : ℕ) : JsmnParser → JsmnParser → Prop :=
  Relation.ReflTransGen fun p q => Jsmn.step js numTokens p = some q

/-- The tokenizer finds the tokens of the piece, and they are closed. -/
structure Tokenizes (x : Piece) : Prop where
  reaches : ∀ {js : Bytes} {numTokens p : ℕ} {toks : List JsmnTok} {rest : Bytes},
    js.drop p = x.text ++ rest → Ends rest → toks.length + (x.tokens p).length ≤ numTokens →
    Reaches js numTokens ⟨p, toks⟩ ⟨p + x.text.length, toks ++ x.tokens p⟩
  closed : ∀ p, ∀ t ∈ x.tokens p, t.stop ≠ -1

/-! ## Strings and numbers -/

/-- A text without quotes, backslashes and control characters. -/
def Plain (s : Bytes) : Prop := ∀ c ∈ s, 0x20 ≤ c ∧ c ≠ 0x22 ∧ c ≠ 0x5C

/-- A text of digits and signs. -/
def IsNumber (text : Bytes) : Prop := text ≠ [] ∧ ∀ c ∈ text, c = 0x2D ∨ isDigit c = true

variable {js : Bytes} {numTokens p : ℕ} {toks : List JsmnTok} {rest : Bytes}

theorem scanString_plain {s : Bytes} (hs : Plain s) :
    Jsmn.scanString .char (s ++ 0x22 :: rest) = some s.length := by
  induction s with
  | nil => rfl
  | cons c s ih =>
    obtain ⟨hlow, hquote, hback⟩ := hs c List.mem_cons_self
    have hzero : c ≠ 0 := by
      rintro rfl
      exact absurd hlow (by decide)
    rw [List.cons_append, Jsmn.scanString, if_neg hzero, if_neg hquote, if_neg hback,
      ih fun c hc => hs c (List.mem_cons_of_mem _ hc)]
    rfl

/-- The tokenizer finds a string up to its closing quote. -/
theorem tokenizes_string_of_scan {s : Bytes}
    (hscan : ∀ rest, Jsmn.scanString .char (s ++ 0x22 :: rest) = some s.length) : (string s).Tokenizes where
  reaches {js numTokens p toks rest} hdrop hends htoks := by
    refine .single ?_
    have hjs : js.drop p = 0x22 :: (s ++ 0x22 :: rest) := by rw [hdrop]; simp [string]
    have hlt : toks.length < numTokens := by
      simp only [string, List.length_singleton] at htoks
      omega
    rw [Jsmn.step, hjs]
    dsimp only
    rw [if_neg (by decide), if_neg (by decide), if_neg (by decide), if_neg (by decide), if_pos rfl,
      hscan, Option.bind_some, Jsmn.addToken, if_pos hlt]
    simp only [string, List.length_append, List.length_cons, List.length_nil, Option.some.injEq,
      JsmnParser.mk.injEq, List.append_cancel_left_eq, List.cons.injEq, JsmnTok.mk.injEq]
    refine ⟨by omega, ⟨trivial, ?_, ?_⟩, trivial⟩ <;> omega
  closed p t ht := by
    rw [List.mem_singleton.1 ht]
    dsimp only
    omega

theorem tokenizes_string {s : Bytes} (hs : Plain s) : (string s).Tokenizes :=
  tokenizes_string_of_scan fun _ => scanString_plain hs

/-- The characters of a number. -/
theorem number_char {c : UInt8} (hc : c = 0x2D ∨ isDigit c = true) :
    c ≠ 0 ∧ Jsmn.endsPrimitive c = false ∧ ¬ (c < 32 ∨ 127 ≤ c) ∧
      c ≠ 0x7B ∧ c ≠ 0x5B ∧ ¬ (c = 0x7D ∨ c = 0x5D) ∧ c ≠ 0x22 ∧
        c ∉ ([0x09, 0x0D, 0x0A, 0x20, 0x3A, 0x2C] : Bytes) := by
  simp only [isDigit, Jsmn.endsPrimitive, List.mem_cons, List.not_mem_nil, or_false, UInt8.le_iff_toNat_le,
    UInt8.lt_iff_toNat_lt, ← UInt8.toNat_inj, decide_eq_true_eq, decide_eq_false_iff_not, ne_eq,
    UInt8.reduceToNat] at hc ⊢
  omega

theorem scanPrimitive_number {text : Bytes} (htext : ∀ c ∈ text, c = 0x2D ∨ isDigit c = true)
    (hrest : Ends rest) : Jsmn.scanPrimitive (text ++ rest) = some text.length := by
  induction text with
  | nil =>
    rcases hrest with rfl | ⟨c, cs, rfl, hc⟩
    · rfl
    · rw [List.nil_append, Jsmn.scanPrimitive, if_pos (.inr hc)]
      rfl
  | cons c text ih =>
    obtain ⟨hzero, hends, hprint, -⟩ := number_char (htext c List.mem_cons_self)
    rw [List.cons_append, Jsmn.scanPrimitive, if_neg (by simp [hzero, hends]), if_neg hprint,
      ih fun c hc => htext c (List.mem_cons_of_mem _ hc)]
    rfl

theorem tokenizes_primitive {text : Bytes} (htext : IsNumber text) : (primitive text).Tokenizes where
  reaches {js numTokens p toks rest} hdrop hends htoks := by
    refine .single ?_
    obtain ⟨c, cs, rfl⟩ := List.exists_cons_of_ne_nil htext.1
    obtain ⟨hzero, -, -, hmap, hlist, hclose, hquote, hblank⟩ := number_char (htext.2 c List.mem_cons_self)
    have hlt : toks.length < numTokens := by
      simp only [primitive, List.length_singleton] at htoks
      omega
    have hscan := scanPrimitive_number htext.2 hends
    rw [List.cons_append] at hscan
    rw [Jsmn.step, hdrop]
    simp only [primitive, List.cons_append, if_neg hzero, if_neg hmap, if_neg hlist, if_neg hclose,
      if_neg hquote, if_neg hblank, hscan, Option.bind_some, Jsmn.addToken, if_pos hlt, Nat.cast_add]
  closed p t ht := by
    rw [List.mem_singleton.1 ht]
    dsimp only
    omega

/-! ## Pairs and lists -/

theorem drop_add {text : Bytes} (h : js.drop p = text ++ rest) : js.drop (p + text.length) = rest := by
  rw [← List.drop_drop, h, List.drop_left]

theorem drop_succ {c : UInt8} (h : js.drop p = c :: rest) : js.drop (p + 1) = rest := by
  rw [← List.drop_drop, h, List.drop_one, List.tail_cons]

/-- The tokenizer passes commas and colons. -/
theorem reaches_separator {c : UInt8} (hc : c = 0x3A ∨ c = 0x2C) (h : js.drop p = c :: rest) :
    Reaches js numTokens ⟨p, toks⟩ ⟨p + 1, toks⟩ := by
  refine .single ?_
  rw [Jsmn.step, h]
  rcases hc with rfl | rfl <;> rfl

theorem ends_cons {c : UInt8} (hc : Jsmn.endsPrimitive c = true) (cs : Bytes) : Ends (c :: cs) :=
  .inr ⟨c, cs, rfl, hc⟩

theorem tokenizes_pair {key : Bytes} (hkey : Plain key) {x : Piece} (hx : x.Tokenizes) :
    (pair key x).Tokenizes where
  reaches {js numTokens p toks rest} hdrop hends htoks := by
    have hstring := tokenizes_string hkey
    have hlen : (string key).text.length = key.length + 2 := by simp [string]
    simp only [pair, List.append_assoc, List.cons_append, List.length_append, List.length_cons] at hdrop htoks ⊢
    have hpos : p + (string key).text.length + 1 = p + key.length + 3 := by omega
    have hcolon := drop_add hdrop
    have hvalue := drop_succ hcolon
    have hkey : Reaches js numTokens ⟨p, toks⟩ ⟨p + (string key).text.length, toks ++ (string key).tokens p⟩ :=
      hstring.reaches hdrop (ends_cons (by decide) _) (by omega)
    have hsep : Reaches js numTokens ⟨p + (string key).text.length, toks ++ (string key).tokens p⟩
        ⟨p + (string key).text.length + 1, toks ++ (string key).tokens p⟩ :=
      reaches_separator (.inl rfl) hcolon
    rw [hpos] at hvalue hsep
    have hval : Reaches js numTokens ⟨p + key.length + 3, toks ++ (string key).tokens p⟩
        ⟨p + key.length + 3 + x.text.length,
          toks ++ ((string key).tokens p ++ x.tokens (p + key.length + 3))⟩ := by
      rw [← List.append_assoc]
      exact hx.reaches hvalue hends (by rw [List.length_append]; omega)
    rw [show p + ((string key).text.length + (x.text.length + 1)) = p + key.length + 3 + x.text.length by omega]
    exact (hkey.trans hsep).trans hval
  closed p t ht := by
    rcases List.mem_append.1 ht with ht | ht
    · exact (tokenizes_string hkey).closed p t ht
    · exact hx.closed _ t ht

theorem tokenizes_items {xs : List Piece} (hxs : ∀ x ∈ xs, x.Tokenizes) : (items xs).Tokenizes := by
  induction xs with
  | nil =>
    refine ⟨fun {js numTokens p toks rest} _ _ _ => ?_, fun p t ht => absurd ht List.not_mem_nil⟩
    rw [show (items []).tokens p = [] from rfl, List.append_nil]
    exact .refl
  | cons x xs ih =>
    cases xs with
    | nil => exact hxs x List.mem_cons_self
    | cons y xs =>
      have hx := hxs x List.mem_cons_self
      have hrest := ih fun z hz => hxs z (List.mem_cons_of_mem _ hz)
      refine ⟨fun {js numTokens p toks rest} hdrop hends htoks => ?_, fun p t ht => ?_⟩
      · simp only [items, List.append_assoc, List.cons_append, List.length_append, List.length_cons]
          at hdrop htoks ⊢
        have hcomma := drop_add hdrop
        have hnext := drop_succ hcomma
        have hfirst : Reaches js numTokens ⟨p, toks⟩ ⟨p + x.text.length, toks ++ x.tokens p⟩ :=
          hx.reaches hdrop (ends_cons (by decide) _) (by omega)
        have hsep : Reaches js numTokens ⟨p + x.text.length, toks ++ x.tokens p⟩
            ⟨p + x.text.length + 1, toks ++ x.tokens p⟩ := reaches_separator (.inr rfl) hcomma
        have hothers : Reaches js numTokens ⟨p + x.text.length + 1, toks ++ x.tokens p⟩
            ⟨p + x.text.length + 1 + (items (y :: xs)).text.length,
              toks ++ (x.tokens p ++ (items (y :: xs)).tokens (p + x.text.length + 1))⟩ := by
          rw [← List.append_assoc]
          exact hrest.reaches hnext hends (by rw [List.length_append]; omega)
        rw [show p + (x.text.length + ((items (y :: xs)).text.length + 1)) =
          p + x.text.length + 1 + (items (y :: xs)).text.length by omega]
        exact (hfirst.trans hsep).trans hothers
      · rcases List.mem_append.1 ht with ht | ht
        · exact hx.closed p t ht
        · exact hrest.closed _ t ht

/-! ## Brackets -/

/-- The bracket that closes closes the last token that is open. -/
theorem closeToken_open (type : JsmnType) (start : ℕ) (stop : ℤ) (before : List JsmnTok)
    (inner : List JsmnTok) (hinner : ∀ t ∈ inner, t.stop ≠ -1) :
    Jsmn.closeToken type stop (inner ++ ⟨type, start, -1⟩ :: before) =
      some (inner ++ ⟨type, start, stop⟩ :: before) := by
  induction inner with
  | nil =>
    rw [List.nil_append, Jsmn.closeToken, if_pos ⟨by dsimp only; omega, rfl⟩, if_pos rfl]
    rfl
  | cons t inner ih =>
    rw [List.cons_append, Jsmn.closeToken, if_neg fun h => hinner t List.mem_cons_self h.2,
      ih fun t ht => hinner t (List.mem_cons_of_mem _ ht)]
    rfl

/-- The brackets of a list, or those of a map. -/
def IsBrackets (type : JsmnType) (opening closing : UInt8) : Prop :=
  type = .array ∧ opening = 0x5B ∧ closing = 0x5D ∨ type = .object ∧ opening = 0x7B ∧ closing = 0x7D

theorem step_opening {type : JsmnType} {opening closing : UInt8} (hb : IsBrackets type opening closing)
    (h : js.drop p = opening :: rest) (htoks : toks.length < numTokens) :
    Jsmn.step js numTokens ⟨p, toks⟩ = some ⟨p + 1, toks ++ [⟨type, p, -1⟩]⟩ := by
  rw [Jsmn.step, h]
  rcases hb with ⟨rfl, rfl, rfl⟩ | ⟨rfl, rfl, rfl⟩ <;> exact if_pos htoks

theorem step_closing {type : JsmnType} {opening closing : UInt8} (hb : IsBrackets type opening closing)
    (h : js.drop p = closing :: rest) {start : ℕ} {inner : List JsmnTok}
    (hinner : ∀ t ∈ inner, t.stop ≠ -1) :
    Jsmn.step js numTokens ⟨p, toks ++ ⟨type, start, -1⟩ :: inner⟩ =
      some ⟨p + 1, toks ++ ⟨type, start, (p + 1 : ℕ)⟩ :: inner⟩ := by
  have hclose := closeToken_open type start ((p : ℤ) + 1) toks.reverse
    inner.reverse fun t ht => hinner t (List.mem_reverse.1 ht)
  rw [Jsmn.step, h]
  rcases hb with ⟨rfl, rfl, rfl⟩ | ⟨rfl, rfl, rfl⟩ <;>
    simp [hclose]

theorem tokenizes_container {type : JsmnType} {opening closing : UInt8}
    (hb : IsBrackets type opening closing) {xs : List Piece} (hxs : ∀ x ∈ xs, x.Tokenizes) :
    (container type opening closing xs).Tokenizes where
  reaches {js numTokens p toks rest} hdrop hends htoks := by
    simp only [container, List.append_assoc, List.cons_append, List.nil_append, List.length_append,
      List.length_cons, List.length_nil, Nat.zero_add] at hdrop htoks ⊢
    have hinner := drop_succ hdrop
    have hclosing := drop_add hinner
    have hopen : Reaches js numTokens ⟨p, toks⟩ ⟨p + 1, toks ++ [⟨type, p, -1⟩]⟩ :=
      .single (step_opening hb hdrop (by omega))
    have hitems : Reaches js numTokens ⟨p + 1, toks ++ [⟨type, p, -1⟩]⟩
        ⟨p + 1 + (items xs).text.length, toks ++ ⟨type, p, -1⟩ :: (items xs).tokens (p + 1)⟩ := by
      rw [List.append_cons toks _ ((items xs).tokens (p + 1))]
      refine (tokenizes_items hxs).reaches hinner (ends_cons ?_ _) ?_
      · rcases hb with ⟨-, -, rfl⟩ | ⟨-, -, rfl⟩ <;> decide
      · rw [List.length_append, List.length_singleton]
        omega
    have hclose : Reaches js numTokens
        ⟨p + 1 + (items xs).text.length, toks ++ ⟨type, p, -1⟩ :: (items xs).tokens (p + 1)⟩ _ :=
      .single (step_closing hb hclosing ((tokenizes_items hxs).closed (p + 1)))
    rw [show p + 1 + (items xs).text.length + 1 = p + (items xs).text.length + 2 by omega] at hclose
    exact (hopen.trans hitems).trans hclose
  closed p t ht := by
    rcases List.mem_cons.1 ht with rfl | ht
    · dsimp only
      omega
    · exact (tokenizes_items hxs).closed _ t ht

theorem tokenizes_list {xs : List Piece} (hxs : ∀ x ∈ xs, x.Tokenizes) : (list xs).Tokenizes :=
  tokenizes_container (.inl ⟨rfl, rfl, rfl⟩) hxs

theorem tokenizes_map {xs : List Piece} (hxs : ∀ x ∈ xs, x.Tokenizes) : (map xs).Tokenizes :=
  tokenizes_container (.inr ⟨rfl, rfl, rfl⟩) hxs

/-! ## A text that is a piece -/

theorem reaches_loop (js : Bytes) (numTokens rounds : ℕ) (p : JsmnParser) :
    Reaches js numTokens p (Jsmn.loop js numTokens rounds p) := by
  induction rounds generalizing p with
  | zero => exact .refl
  | succ rounds ih =>
    rw [Jsmn.loop]
    cases hstep : Jsmn.step js numTokens p with
    | none => exact .refl
    | some q => exact (ih q).head hstep

/-- A parser that has stopped is reached by itself only. -/
theorem Reaches.eq_of_none {p q : JsmnParser} (h : Reaches js numTokens p q)
    (hp : Jsmn.step js numTokens p = none) : q = p := by
  rcases h.cases_head with rfl | ⟨r, hr, -⟩
  · rfl
  · exact absurd (hp.symm.trans hr) (by simp)

/-- The parser stops at one state. -/
theorem Reaches.unique {p q r : JsmnParser} (hq : Reaches js numTokens p q)
    (hqstop : Jsmn.step js numTokens q = none) (hr : Reaches js numTokens p r)
    (hrstop : Jsmn.step js numTokens r = none) : q = r := by
  induction hq using Relation.ReflTransGen.head_induction_on with
  | refl => exact (hr.eq_of_none hqstop).symm
  | head hstep _ ih =>
    rcases hr.cases_head with rfl | ⟨p', hstep', hr⟩
    · exact absurd (hrstop.symm.trans hstep) (by simp)
    · obtain rfl := Option.some.inj (hstep.symm.trans hstep')
      exact ih hr

/-- **The tokens of a text that is a piece are those of the piece.** -/
theorem Tokenizes.parse {x : Piece} (hx : x.Tokenizes) {numTokens : ℕ}
    (htoks : (x.tokens 0).length ≤ numTokens) :
    Jsmn.parse x.text numTokens {} = ⟨x.text.length, x.tokens 0⟩ := by
  have hreaches : Reaches x.text numTokens ⟨0, []⟩ ⟨0 + x.text.length, [] ++ x.tokens 0⟩ :=
    hx.reaches (by simp) (.inl rfl) (by simpa using htoks)
  rw [Nat.zero_add, List.nil_append] at hreaches
  exact (reaches_loop _ _ _ _).unique (Jsmn.step_loop _ (by dsimp only; omega)) hreaches
    (Jsmn.step_of_length_le (Nat.le_refl _))

end Piece

end ThingSet
