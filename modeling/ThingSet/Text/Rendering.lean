import Mathlib.Data.List.TakeWhile
import ThingSet.Text.Piece
import ThingSet.TextEncoder
import ThingSet.Values

/-!
# Values as JSON texts

* `ValueType.piece`: the text of a value, with its tokens.
* `encode_spec`: the text encoder writes the text of a value.
-/

namespace ThingSet

open Interaction Prog

namespace ValueType

/-- A value as a piece of JSON text. -/
def piece : (t : ValueType) → t.Value → Piece
  | uint _, n => .primitive (decimal n)
  | int _, i => .primitive (signedDecimal i)
  | bool, b => .primitive (if b then [0x31] else [0x30])
  | string, s => .string s
  | array element size, f => .list ((List.range size).map fun i => element.piece (f i))
  | record size _ name member, r =>
    .map ((List.finRange size).map fun i => .pair (name i) ((member i).piece (r i)))

/-- The integers are in the range of their type, and the strings and names need no escape. -/
def Valid : (t : ValueType) → t.Value → Prop
  | uint w, n => n < 2 ^ w.bits
  | int w, i => -2 ^ (w.bits - 1) ≤ i ∧ i < 2 ^ (w.bits - 1)
  | bool, _ => True
  | string, s => Piece.Plain s
  | array element size, f => ∀ i < size, element.Valid (f i)
  | record _ _ name member, r => ∀ i, Piece.Plain (name i) ∧ (member i).Valid (r i)

theorem isNumber_decimal (n : ℕ) : Piece.IsNumber (decimal n) :=
  ⟨decimal_ne_nil n, fun _ hc => .inr (isDigit_of_mem_decimal hc)⟩

theorem isNumber_signedDecimal (i : ℤ) : Piece.IsNumber (signedDecimal i) := by
  rw [signedDecimal]
  split
  · refine ⟨List.cons_ne_nil _ _, fun c hc => ?_⟩
    rcases List.mem_cons.1 hc with rfl | hc
    · exact .inl rfl
    · exact .inr (isDigit_of_mem_decimal hc)
  · exact isNumber_decimal _

theorem isNumber_bool (b : Bool) : Piece.IsNumber (if b then [0x31] else [0x30]) := by
  cases b <;> exact ⟨List.cons_ne_nil _ _, by decide +kernel⟩

/-- The tokenizer finds the tokens of a value. -/
theorem tokenizes_piece : ∀ (t : ValueType) (v : t.Value), t.Valid v → (t.piece v).Tokenizes
  | uint _, n, _ => Piece.tokenizes_primitive (isNumber_decimal n)
  | int _, i, _ => Piece.tokenizes_primitive (isNumber_signedDecimal i)
  | bool, b, _ => Piece.tokenizes_primitive (isNumber_bool b)
  | string, _, h => Piece.tokenizes_string h
  | array element _, f, h => Piece.tokenizes_list fun x hx => by
    obtain ⟨i, hi, rfl⟩ := List.mem_map.1 hx
    exact tokenizes_piece element (f i) (h i (List.mem_range.1 hi))
  | record _ _ _ member, r, h => Piece.tokenizes_map fun x hx => by
    obtain ⟨i, -, rfl⟩ := List.mem_map.1 hx
    exact Piece.tokenizes_pair (h i).1 (tokenizes_piece (member i) (r i) (h i).2)

end ValueType

/-! ## Lists and maps -/

open TextEncoderState TextEncoder

variable {E : TextEncoderConfig} {s s₁ s₂ : TextEncoderState}

/-- The elements of a list or the pairs of a map with a separator behind each. -/
def separated (xs : List Piece) : Bytes := xs.flatMap fun x => x.text ++ [0x2C]

theorem separated_cons (x : Piece) (xs : List Piece) :
    separated (x :: xs) = x.text ++ [0x2C] ++ separated xs := rfl

theorem separated_eq {xs : List Piece} (hxs : xs ≠ []) : separated xs = (Piece.items xs).text ++ [0x2C] := by
  induction xs with
  | nil => exact absurd rfl hxs
  | cons x xs ih =>
    cases xs with
    | nil => simp [separated, Piece.items]
    | cons y xs =>
      rw [separated_cons, ih (List.cons_ne_nil _ _)]
      simp [Piece.items]

/-- The end of a list or map, behind its elements. -/
theorem stop_container {type : JsmnType} {opening closing : UInt8} {xs : List Piece}
    (hroom : s.Room (Piece.container type opening closing xs).text) (hopening : opening ≠ 0x2C)
    (h₁ : s.Extends [opening] s₁) (h₂ : s₁.Extends (separated xs) s₂) :
    ∃ s', stop closing s₂ = (true, s') ∧ s.Extends (Piece.container type opening closing xs).text s' := by
  have h := h₁.trans h₂
  rcases eq_or_ne xs [] with rfl | hxs
  · exact stop_spec_other [] closing h hopening hroom.takes
  · rw [separated_eq hxs, ← List.append_assoc] at h
    exact stop_spec_separator closing h hroom.takes

/-- There is room for the elements of a list or map, with a separator behind each. -/
theorem room_separated {type : JsmnType} {opening closing : UInt8} {xs : List Piece}
    (hroom : s.Room (Piece.container type opening closing xs).text) (h₁ : s.Extends [opening] s₁) :
    s₁.Room (separated xs) := by
  have hrest : s₁.Room ((Piece.items xs).text ++ [closing]) := Room.right hroom h₁
  rcases eq_or_ne xs [] with rfl | hxs
  · exact hrest.left
  · rw [separated_eq hxs]
    simpa only [Room, List.length_append, List.length_singleton] using hrest

/-- A list of texts that are written with a separator behind each. -/
theorem encodeElements_spec (xs : List (Encoding Bool × Piece)) (hroom : s.Room (separated (xs.map Prod.snd)))
    (habbreviate : s.abbreviateArrays = false)
    (hxs : ∀ x ∈ xs, ∀ s : TextEncoderState, s.abbreviateArrays = false → s.Room x.2.text →
      ∃ s', run (textEncoder E) x.1 s = (true, s') ∧ s.Extends x.2.text s') :
    ∃ s', run (textEncoder E) (encodeElements (xs.map Prod.fst) true) s = (true, s') ∧
      s.Extends (separated (xs.map Prod.snd)) s' := by
  induction xs generalizing s with
  | nil => exact ⟨s, rfl, .refl⟩
  | cons x xs ih =>
    simp only [List.map_cons, separated_cons] at hroom ⊢
    obtain ⟨s₁, hrun₁, h₁⟩ := hxs x List.mem_cons_self s habbreviate hroom.left.left
    have hroom₁ : s₁.Room [0x2C] := hroom.left.right h₁
    obtain ⟨s₂, hrun₂, h₂⟩ := append_spec 0x2C (Nat.lt_of_succ_lt hroom₁)
    have h₁₂ := h₁.trans h₂
    obtain ⟨s', hrun, h⟩ := ih (hroom.right h₁₂) (by rw [h₁₂.abbreviateArrays, habbreviate])
      fun y hy => hxs y (List.mem_cons_of_mem _ hy)
    refine ⟨s', ?_, h₁₂.trans h⟩
    have hsep : run (textEncoder E) (encode .listSeparator) s₁ = (true, s₂) := hrun₂
    rw [encodeElements, run_bind, encodeAll, run_bind, hrun₁]
    simp only [if_true, encodeAll, run_bind, hsep, run_pure, Bool.and_self]
    exact hrun

/-! ## Strings and records -/

theorem takeWhile_plain {value : Bytes} (hvalue : Piece.Plain value) : value.takeWhile (· ≠ 0) = value := by
  refine List.takeWhile_eq_self_iff.2 fun c hc => ?_
  have hlow := (hvalue c hc).1
  rw [decide_eq_true_eq]
  rintro rfl
  exact absurd hlow (by decide)

/-- A string is written up to its first NUL. -/
theorem string_written {value : Bytes} (hroom : s.Room (Piece.string (value.takeWhile (· ≠ 0))).text) :
    ∃ s', TextEncoder.string value s = (true, s') ∧
      s.Extends (Piece.string (value.takeWhile (· ≠ 0))).text s' := by
  have hroom' : s.Room ([0x22] ++ (value.takeWhile (· ≠ 0) ++ [0x22])) := hroom
  obtain ⟨s₁, hopen, h₁⟩ := append_spec 0x22 (Nat.lt_of_succ_lt hroom'.left)
  obtain ⟨s₂, htext, h₂, -⟩ := appendFormat_spec (hroom'.right h₁).left
  obtain ⟨s₃, hclose, h₃⟩ := append_spec 0x22 (Nat.lt_of_succ_lt ((hroom'.right h₁).right h₂))
  refine ⟨s₃, ?_, h₁.trans (h₂.trans h₃)⟩
  simp only [TextEncoder.string, andThen, hopen, htext, hclose, if_true]

/-- A string without a NUL is written as it is. -/
theorem string_spec {value : Bytes} (hvalue : Piece.Plain value) (hroom : s.Room (Piece.string value).text) :
    ∃ s', TextEncoder.string value s = (true, s') ∧ s.Extends (Piece.string value).text s' := by
  have hzero := takeWhile_plain hvalue
  rw [← hzero] at hroom
  simpa only [hzero] using string_written hroom

section Record

variable {size : ℕ} (id : Fin size → ℕ) {name : Fin size → Bytes}

/-- A member is written as a pair, with a separator behind it. -/
theorem encodeMember_spec {i : Fin size} {value : Encoding Bool} {x : Piece} (hname : Piece.Plain (name i))
    (hroom : s.Room ((Piece.pair (name i) x).text ++ [0x2C])) (habbreviate : s.abbreviateArrays = false)
    (hvalue : ∀ s : TextEncoderState, s.abbreviateArrays = false → s.Room x.text →
      ∃ s', run (textEncoder E) value s = (true, s') ∧ s.Extends x.text s') :
    ∃ s', run (textEncoder E) (encodeMember id name i value) s = ((), s') ∧
      s.Extends ((Piece.pair (name i) x).text ++ [0x2C]) s' := by
  have hroom' : s.Room ((Piece.string (name i)).text ++ ([0x3A] ++ (x.text ++ [0x2C]))) := by
    simpa [Piece.pair] using hroom
  obtain ⟨s₁, hkey, h₁⟩ := string_spec hname hroom'.left
  have hroom₁ := hroom'.right h₁
  obtain ⟨s₂, hcolon, h₂⟩ := append_spec 0x3A (Nat.lt_of_succ_lt hroom₁.left)
  have hroom₂ := hroom₁.right h₂
  obtain ⟨s₃, hrun, h₃⟩ := hvalue s₂ (by rw [h₂.abbreviateArrays, h₁.abbreviateArrays, habbreviate]) hroom₂.left
  obtain ⟨s₄, hcomma, h₄⟩ := append_spec 0x2C (Nat.lt_of_succ_lt (hroom₂.right h₃))
  have hkeys : run (textEncoder E) (encode .encodeKeysAsIds) s = (false, s) := rfl
  have hkey' : run (textEncoder E) (encode (.string (name i))) s = (true, s₁) := hkey
  have hcolon' : run (textEncoder E) (encode .keyValuePairSeparator) s₁ = (true, s₂) := hcolon
  have hcomma' : run (textEncoder E) (encode .listSeparator) s₃ = (true, s₄) := hcomma
  refine ⟨s₄, ?_, ?_⟩
  · simp only [encodeMember, run_bind, hkeys, Bool.false_eq_true, if_false, hkey', hcolon', hrun, hcomma']
    rfl
  · simpa [Piece.pair] using h₁.trans (h₂.trans (h₃.trans h₄))

theorem encodeMembers_spec {value : Fin size → Encoding Bool} {x : Fin size → Piece}
    (hname : ∀ i, Piece.Plain (name i))
    (hvalue : ∀ i, ∀ s : TextEncoderState, s.abbreviateArrays = false → s.Room (x i).text →
      ∃ s', run (textEncoder E) (value i) s = (true, s') ∧ s.Extends (x i).text s')
    (is : List (Fin size)) (hroom : s.Room (separated (is.map fun i => Piece.pair (name i) (x i))))
    (habbreviate : s.abbreviateArrays = false) :
    ∃ s', run (textEncoder E) (encodeMembers id name value is) s = ((), s') ∧
      s.Extends (separated (is.map fun i => Piece.pair (name i) (x i))) s' := by
  induction is generalizing s with
  | nil => exact ⟨s, rfl, .refl⟩
  | cons i is ih =>
    simp only [List.map_cons, separated_cons] at hroom ⊢
    obtain ⟨s₁, hrun₁, h₁⟩ := encodeMember_spec id (hname i) hroom.left habbreviate (hvalue i)
    obtain ⟨s', hrun, h⟩ := ih (hroom.right h₁) (by rw [h₁.abbreviateArrays, habbreviate])
    refine ⟨s', ?_, h₁.trans h⟩
    rw [encodeMembers, run_bind, hrun₁, hrun]

end Record

/-! ## Values -/

/-- **The text encoder writes the text of a value.** -/
theorem encode_spec : ∀ (t : ValueType) (v : t.Value) (s : TextEncoderState), t.Valid v →
    s.abbreviateArrays = false → s.Room (t.piece v).text →
    ∃ s', run (textEncoder E) (t.encode v) s = (true, s') ∧ s.Extends (t.piece v).text s'
  | .uint _, n, s, _, _, hroom => by
    obtain ⟨s', hrun, h, -⟩ := appendFormat_spec hroom
    exact ⟨s', hrun, h⟩
  | .int _, n, s, _, _, hroom => by
    obtain ⟨s', hrun, h, -⟩ := appendFormat_spec hroom
    exact ⟨s', hrun, h⟩
  | .bool, n, s, _, _, hroom => by
    obtain ⟨s', hrun, h, -⟩ := appendFormat_spec hroom
    exact ⟨s', hrun, h⟩
  | .string, value, s, hvalid, _, hroom => string_spec hvalid hroom
  | .array element size, f, s, hvalid, habbreviate, hroom => by
    obtain ⟨s₁, hstart, h₁⟩ := start_spec (s := s) 0x5B (by rw [Room] at hroom; omega)
    have hsnd : ((List.range size).map fun i => (element.encode (f i), element.piece (f i))).map Prod.snd =
        (List.range size).map fun i => element.piece (f i) := by simp
    have hfst : ((List.range size).map fun i => (element.encode (f i), element.piece (f i))).map Prod.fst =
        (List.range size).map fun i => element.encode (f i) := by simp
    obtain ⟨s₂, helements, h₂⟩ := encodeElements_spec (E := E)
      ((List.range size).map fun i => (element.encode (f i), element.piece (f i)))
      (by rw [hsnd]; exact room_separated hroom h₁) (by rw [h₁.abbreviateArrays, habbreviate])
      (fun x hx s hs => by
        obtain ⟨i, hi, rfl⟩ := List.mem_map.1 hx
        exact encode_spec element (f i) s (hvalid i (List.mem_range.1 hi)) hs)
    rw [hsnd] at h₂
    rw [hfst] at helements
    obtain ⟨s', hstop, h⟩ := stop_container hroom (by decide) h₁ h₂
    have hrendered : run (textEncoder E) (encode (.renderedListLength size)) s = (size, s) := by
      change (renderedListLength E size s, s) = _
      rw [renderedListLength, habbreviate, if_neg (by simp)]
    have hstart' : run (textEncoder E) (encode (.listStart (some size))) s = (true, s₁) := hstart
    refine ⟨s', ?_, h⟩
    rw [ValueType.encode, encodeArray, run_bind, hrendered]
    simp only [run_bind, hstart', helements, Nat.lt_irrefl, if_false, run_pure, if_true]
    exact hstop
  | .record size id name member, r, s, hvalid, habbreviate, hroom => by
    obtain ⟨s₁, hstart, h₁⟩ := start_spec (s := s) 0x7B (by rw [Room] at hroom; omega)
    obtain ⟨s₂, hmembers, h₂⟩ := encodeMembers_spec id (fun i => (hvalid i).1)
      (fun i s hs => encode_spec (member i) (r i) s (hvalid i).2 hs) (List.finRange size)
      (room_separated hroom h₁) (by rw [h₁.abbreviateArrays, habbreviate])
    obtain ⟨s', hstop, h⟩ := stop_container hroom (by decide) h₁ h₂
    have hstart' : run (textEncoder E) (encode (.mapStart (some size))) s = (true, s₁) := hstart
    refine ⟨s', ?_, h⟩
    rw [ValueType.encode, encodeRecord_eq, run_bind, hstart']
    simp only [Bool.not_true, Bool.false_eq_true, if_false, run_bind, hmembers]
    exact hstop

/-- The integers. -/
def ValueType.IsInteger : ValueType → Prop
  | .uint _ => True
  | .int _ => True
  | _ => False

/-- Behind an integer that has been written there is a NUL. -/
theorem encode_integer : ∀ {t : ValueType} {v : t.Value}, t.IsInteger → s.Room (t.piece v).text →
    ((run (textEncoder E) (t.encode v) s).2.responseBuffer.drop
      (run (textEncoder E) (t.encode v) s).2.responsePosition).headD 0 = 0
  | .uint _, n, _, hroom => by
    obtain ⟨s', hrun, -, hzero⟩ := appendFormat_spec hroom
    have hrun' : run (textEncoder E) (ValueType.encode (.uint _) n) s = (true, s') := hrun
    rw [hrun', hzero]
  | .int _, i, _, hroom => by
    obtain ⟨s', hrun, -, hzero⟩ := appendFormat_spec hroom
    have hrun' : run (textEncoder E) (ValueType.encode (.int _) i) s = (true, s') := hrun
    rw [hrun', hzero]

end ThingSet
