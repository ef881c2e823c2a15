import Mathlib.Data.Fin.VecNotation
import Mathlib.Data.Nat.Digits.Lemmas
import Mathlib.Tactic.FinCases
import ThingSet.Foundations.JsonText
import ThingSet.Text.Rendering

/-!
# Containers as JSON texts

The templates of `ThingSetEncoder` encode lists, maps, arrays, argument lists and records of values of any kind.
Each of them puts its own separators, apart from the one for a `std::list`, which puts none.

* `EncoderValue.text`: what the text encoder writes.
* `rendersJson_iff`: this is JSON for the value if and only if no `std::list` has two items, the keys of maps are
  strings, no string has a control character, and floating-point numbers are printed as JSON has them.
-/

namespace ThingSet

open Interaction Prog TextEncoderState TextEncoder

/-! ## Values -/

/-- A value that `ThingSetEncoder` encodes: a scalar, a string, a `std::list`, a `std::map`, an array, the arguments
of `encodeList`, or a structure with the ids and names of its record members. -/
inductive EncoderValue
  | uint (w : IntWidth) (value : ℕ)
  | int (w : IntWidth) (value : ℤ)
  | bool (value : Bool)
  | float (value : UInt32)
  | double (value : UInt64)
  | string (value : Bytes)
  | list (size : ℕ) (item : Fin size → EncoderValue)
  | map (size : ℕ) (key value : Fin size → EncoderValue)
  | array (size : ℕ) (element : Fin size → EncoderValue)
  | arguments (size : ℕ) (arg : Fin size → EncoderValue)
  | record (size : ℕ) (id : Fin size → ℕ) (name : Fin size → Bytes) (member : Fin size → EncoderValue)

/-- `ThingSetEncoder::encode(std::map<K, V>)`. -/
def encodeStdMap (pairs : List (Encoding Bool)) : Encoding Bool :=
  encodeAll (encode (.mapStart (some pairs.length)) :: (pairs ++ [encode (.mapEnd (some pairs.length))]))

/-- `value[i]` of an array. -/
def elementAt {size : ℕ} (element : Fin size → Encoding Bool) (i : ℕ) : Encoding Bool :=
  if h : i < size then element ⟨i, h⟩ else pure false

namespace EncoderValue

/-- `ThingSetEncoder::encode`, and `encodeList`. -/
def encode : EncoderValue → Encoding Bool
  | uint w n => ThingSet.encode (.uint w n)
  | int w i => ThingSet.encode (.int w i)
  | bool b => ThingSet.encode (.bool b)
  | float v => ThingSet.encode (.float v)
  | double v => ThingSet.encode (.double v)
  | string s => ThingSet.encode (.string s)
  | list size item => encodeStdList ((List.finRange size).map fun i => (item i).encode)
  | map size key value => encodeStdMap ((List.finRange size).map fun i => encodePair (key i).encode (value i).encode)
  | array size element => encodeArray (elementAt fun i => (element i).encode) size
  | arguments size arg => encodeList ((List.finRange size).map fun i => (arg i).encode)
  | record _ id name member => encodeRecord id name fun i => (member i).encode

variable (E : TextEncoderConfig)

/-- What the text encoder writes. -/
def text : EncoderValue → Bytes
  | uint _ n => decimal n
  | int _ i => signedDecimal i
  | bool b => if b then [0x31] else [0x30]
  | float v => E.double (E.ofFloat v)
  | double v => E.double v
  | string s => (Piece.string (s.takeWhile (· ≠ 0))).text
  | list size item => 0x5B :: ((List.ofFn fun i : Fin size => (item i).text).flatten ++ [0x5D])
  | map size key value =>
    Json.enclosed 0x7B 0x7D (List.ofFn fun i : Fin size => (key i).text ++ 0x3A :: (value i).text)
  | array size element => Json.enclosed 0x5B 0x5D (List.ofFn fun i : Fin size => (element i).text)
  | arguments size arg => Json.enclosed 0x5B 0x5D (List.ofFn fun i : Fin size => (arg i).text)
  | record size _ name member =>
    Json.enclosed 0x7B 0x7D
      (List.ofFn fun i : Fin size => (Piece.string ((name i).takeWhile (· ≠ 0))).text ++ 0x3A :: (member i).text)

/-- The JSON value stands for the value. A number stands as it is printed, and so does a boolean, which is 1 or 0. -/
def Denotes : EncoderValue → Json.Value → Prop
  | uint _ n, j => j = .number (decimal n)
  | int _ i, j => j = .number (signedDecimal i)
  | bool b, j => j = .number (if b then [0x31] else [0x30])
  | float v, j => j = .number (E.double (E.ofFloat v))
  | double v, j => j = .number (E.double v)
  | string s, j => j = .string s
  | list size item, j => ∃ x, j = .array size x ∧ ∀ i, (item i).Denotes (x i)
  | map size key value, j => ∃ k x, j = .object size k x ∧ ∀ i, key i = .string (k i) ∧ (value i).Denotes (x i)
  | array size element, j => ∃ x, j = .array size x ∧ ∀ i, (element i).Denotes (x i)
  | arguments size arg, j => ∃ x, j = .array size x ∧ ∀ i, (arg i).Denotes (x i)
  | record size _ name member, j => ∃ x, j = .object size name x ∧ ∀ i, (member i).Denotes (x i)

/-- The condition. -/
def Renderable : EncoderValue → Prop
  | uint .. => True
  | int .. => True
  | bool _ => True
  | float v => Json.IsNumber (E.double (E.ofFloat v))
  | double v => Json.IsNumber (E.double v)
  | string s => ∀ c ∈ s, Json.IsPlain c
  | list size item => size ≤ 1 ∧ ∀ i, (item i).Renderable
  | map _ key value => ∀ i, (∃ k, key i = .string k ∧ ∀ c ∈ k, Json.IsPlain c) ∧ (value i).Renderable
  | array _ element => ∀ i, (element i).Renderable
  | arguments _ arg => ∀ i, (arg i).Renderable
  | record _ _ name member => ∀ i, (∀ c ∈ name i, Json.IsPlain c) ∧ (member i).Renderable

end EncoderValue

/-! ## The length of a JSON text -/

namespace EncoderValue

variable {E : TextEncoderConfig} {size : ℕ}

open Finset

/-- The text is no longer than any JSON text of the value, and as long only if the value meets the condition. -/
def Shortest (E : TextEncoderConfig) (v : EncoderValue) (j : Json.Value) : Prop :=
  ∀ t, j.IsText t → (v.text E).length ≤ t.length ∧ ((v.text E).length = t.length → v.Renderable E)

theorem eq_of_sum_eq {a b : Fin size → ℕ} (hle : ∀ i, a i ≤ b i) (h : ∑ i, b i ≤ ∑ i, a i) (i : Fin size) :
    a i = b i :=
  (sum_eq_sum_iff_of_le fun i _ => hle i).1 (Nat.le_antisymm (sum_le_sum fun i _ => hle i) h) i (mem_univ i)

/-- An element with white space around it. -/
theorem Shortest.padded {v : EncoderValue} {j : Json.Value} (h : v.Shortest E j) {t : Bytes}
    (ht : Json.Padded j.IsText t) : (v.text E).length ≤ t.length ∧ ((v.text E).length = t.length → v.Renderable E) := by
  obtain ⟨u, hu, hle⟩ := ht.length_le
  obtain ⟨hvu, hrenderable⟩ := h u hu
  exact ⟨hvu.trans hle, fun heq => hrenderable (by omega)⟩

/-- A key with a value. -/
theorem Shortest.member {v : EncoderValue} {j : Json.Value} (h : v.Shortest E j) {key t : Bytes}
    (ht : Json.IsMember key j.IsText t) :
    let pair := (Piece.string (key.takeWhile (· ≠ 0))).text ++ 0x3A :: v.text E
    pair.length ≤ t.length ∧ (pair.length = t.length → (∀ c ∈ key, Json.IsPlain c) ∧ v.Renderable E) := by
  obtain ⟨k, u, hk, hu, hle⟩ := ht.length_le
  obtain ⟨hvu, hrenderable⟩ := h u hu
  have hkey := hk.length_le
  have htake := (List.takeWhile_sublist (· ≠ 0) (l := key)).length_le
  have hpair : ((Piece.string (key.takeWhile (· ≠ 0))).text ++ 0x3A :: v.text E).length =
      (key.takeWhile (· ≠ 0)).length + 2 + ((v.text E).length + 1) := by
    simp only [Piece.string, List.length_append, List.length_cons, List.length_nil]
  dsimp only
  rw [hpair]
  refine ⟨by omega, fun heq => ⟨hk.plain_of_length ?_, hrenderable ?_⟩⟩ <;> omega

/-- Elements in brackets. -/
theorem shortest_array {element : Fin size → EncoderValue} {x : Fin size → Json.Value}
    (h : ∀ i, (element i).Shortest E (x i)) (t : Bytes) (ht : (Json.Value.array size x).IsText t) :
    let text := Json.enclosed 0x5B 0x5D (List.ofFn fun i => (element i).text E)
    text.length ≤ t.length ∧ (text.length = t.length → ∀ i, (element i).Renderable E) := by
  obtain ⟨piece, hpiece, hbracketed⟩ := ht
  have hle := hbracketed.length_le
  have hsum := sum_le_sum fun i (_ : i ∈ univ) => ((h i).padded (hpiece i)).1
  dsimp only
  rw [Json.length_enclosed]
  refine ⟨by omega, fun heq i => ((h i).padded (hpiece i)).2 ?_⟩
  exact eq_of_sum_eq (fun i => ((h i).padded (hpiece i)).1) (by omega) i

/-- Keys with values in braces. -/
theorem shortest_object {key : Fin size → Bytes} {member : Fin size → EncoderValue} {x : Fin size → Json.Value}
    (h : ∀ i, (member i).Shortest E (x i)) (t : Bytes) (ht : (Json.Value.object size key x).IsText t) :
    let text := Json.enclosed 0x7B 0x7D
      (List.ofFn fun i => (Piece.string ((key i).takeWhile (· ≠ 0))).text ++ 0x3A :: (member i).text E)
    text.length ≤ t.length ∧
      (text.length = t.length → ∀ i, (∀ c ∈ key i, Json.IsPlain c) ∧ (member i).Renderable E) := by
  obtain ⟨piece, hpiece, hbracketed⟩ := ht
  have hle := hbracketed.length_le
  have hsum := sum_le_sum fun i (_ : i ∈ univ) => ((h i).member (hpiece i)).1
  dsimp only
  rw [Json.length_enclosed]
  refine ⟨by omega, fun heq i => ((h i).member (hpiece i)).2 ?_⟩
  exact eq_of_sum_eq (fun i => ((h i).member (hpiece i)).1) (by omega) i

theorem shortest_of_denotes (v : EncoderValue) (j : Json.Value) (h : v.Denotes E j) : v.Shortest E j := by
  induction v generalizing j with
  | uint w n =>
    obtain rfl := h
    rintro t ⟨-, rfl⟩
    exact ⟨Nat.le_refl _, fun _ => trivial⟩
  | int w i =>
    obtain rfl := h
    rintro t ⟨-, rfl⟩
    exact ⟨Nat.le_refl _, fun _ => trivial⟩
  | bool b =>
    obtain rfl := h
    rintro t ⟨-, rfl⟩
    exact ⟨Nat.le_refl _, fun _ => trivial⟩
  | float v =>
    obtain rfl := h
    rintro t ⟨hnumber, rfl⟩
    exact ⟨Nat.le_refl _, fun _ => hnumber⟩
  | double v =>
    obtain rfl := h
    rintro t ⟨hnumber, rfl⟩
    exact ⟨Nat.le_refl _, fun _ => hnumber⟩
  | string s =>
    obtain rfl := h
    intro t ht
    have hle := Json.Literal.length_le ht
    have htake := (List.takeWhile_sublist (· ≠ 0) (l := s)).length_le
    have hlen : ((string s).text E).length = (s.takeWhile (· ≠ 0)).length + 2 := by simp [text, Piece.string]
    rw [hlen]
    exact ⟨by omega, fun heq => Json.Literal.plain_of_length ht (by omega)⟩
  | list size item ih =>
    obtain ⟨x, rfl, hx⟩ := h
    rintro t ⟨piece, hpiece, hbracketed⟩
    have hle := hbracketed.length_le
    have hshortest := fun i => (ih i (x i) (hx i)).padded (hpiece i)
    have hsum := sum_le_sum fun i (_ : i ∈ univ) => (hshortest i).1
    have hlen : ((list size item).text E).length = ∑ i, ((item i).text E).length + 2 := by
      simp [text, List.length_flatten, List.map_ofFn, List.sum_ofFn]
    rw [hlen]
    refine ⟨by omega, fun heq => ⟨by omega, fun i => (hshortest i).2 ?_⟩⟩
    exact eq_of_sum_eq (fun i => (hshortest i).1) (by omega) i
  | map size key value _ ih =>
    obtain ⟨k, x, rfl, hx⟩ := h
    intro t ht
    have hobject := shortest_object (fun i => ih i (x i) (hx i).2) t ht
    have htext : (map size key value).text E = Json.enclosed 0x7B 0x7D
        (List.ofFn fun i => (Piece.string ((k i).takeWhile (· ≠ 0))).text ++ 0x3A :: (value i).text E) := by
      rw [text]
      congr 2
      funext i
      rw [(hx i).1, text]
    rw [htext]
    refine ⟨hobject.1, fun heq i => ?_⟩
    obtain ⟨hplain, hrenderable⟩ := hobject.2 heq i
    exact ⟨⟨k i, (hx i).1, hplain⟩, hrenderable⟩
  | array size element ih =>
    obtain ⟨x, rfl, hx⟩ := h
    exact shortest_array fun i => ih i (x i) (hx i)
  | arguments size arg ih =>
    obtain ⟨x, rfl, hx⟩ := h
    exact shortest_array fun i => ih i (x i) (hx i)
  | record size id name member ih =>
    obtain ⟨x, rfl, hx⟩ := h
    exact shortest_object fun i => ih i (x i) (hx i)

end EncoderValue

/-! ## A JSON text of a value -/

theorem isIntegerPart_decimal (n : ℕ) : Json.IsIntegerPart (decimal n) := by
  unfold decimal
  split
  · exact .inl rfl
  · rename_i hn
    have hfirst : ∀ d < 10, d ≠ 0 → (0x31 : UInt8) ≤ .ofNat (0x30 + d) ∧ UInt8.ofNat (0x30 + d) ≤ 0x39 := by decide
    have hdigit : ∀ d < 10, (0x30 : UInt8) ≤ .ofNat (0x30 + d) ∧ UInt8.ofNat (0x30 + d) ≤ 0x39 := by decide
    have hne := Nat.digits_ne_nil_iff_ne_zero (b := 10).2 hn
    have hlt (d : ℕ) (hd : d ∈ Nat.digits 10 n) : d < 10 := Nat.digits_lt_base (by decide) hd
    have hlast := hfirst _ (hlt _ (List.getLast_mem hne)) (Nat.getLast_digit_ne_zero 10 hn)
    rw [← List.dropLast_append_getLast hne, List.reverse_append, List.reverse_singleton, List.singleton_append,
      List.map_cons]
    refine .inr ⟨_, _, rfl, hlast.1, hlast.2, fun c hc => ?_⟩
    obtain ⟨d, hd, rfl⟩ := List.mem_map.1 hc
    exact hdigit d (hlt d (List.mem_of_mem_dropLast (List.mem_reverse.1 hd)))

namespace EncoderValue

variable {E : TextEncoderConfig}

/-- A string without escapes. -/
theorem literal_of_plain {s : Bytes} (h : ∀ c ∈ s, Json.IsPlain c) :
    Json.Literal (Piece.string (s.takeWhile (· ≠ 0))).text s := by
  rw [takeWhile_plain h]
  exact ⟨s, rfl, Json.body_of_plain h⟩

theorem isMember_of_plain {key : Bytes} {v : EncoderValue} {j : Json.Value} (hkey : ∀ c ∈ key, Json.IsPlain c)
    (hv : j.IsText (v.text E)) :
    Json.IsMember key j.IsText ((Piece.string (key.takeWhile (· ≠ 0))).text ++ 0x3A :: v.text E) :=
  ⟨_, _, .of (literal_of_plain hkey), .of hv, rfl⟩

/-- At most one item needs no separator. -/
theorem flatten_of_le_one {size : ℕ} (hsize : size ≤ 1) (item : Fin size → Bytes) :
    0x5B :: ((List.ofFn item).flatten ++ [0x5D]) = Json.enclosed 0x5B 0x5D (List.ofFn item) := by
  match size, hsize with
  | 0, _ => rfl
  | 1, _ => simp [Json.enclosed]

theorem isText_of_renderable (v : EncoderValue) (h : v.Renderable E) :
    ∃ j, v.Denotes E j ∧ j.IsText (v.text E) := by
  induction v with
  | uint w n => exact ⟨_, rfl, (isIntegerPart_decimal n).isNumber, rfl⟩
  | int w i =>
    refine ⟨_, rfl, ?_, rfl⟩
    unfold signedDecimal
    split
    · exact (isIntegerPart_decimal _).isNumber_minus
    · exact (isIntegerPart_decimal _).isNumber
  | bool b =>
    refine ⟨_, rfl, ?_, rfl⟩
    cases b with
    | true => exact (isIntegerPart_decimal 1).isNumber
    | false => exact (isIntegerPart_decimal 0).isNumber
  | float v => exact ⟨_, rfl, h, rfl⟩
  | double v => exact ⟨_, rfl, h, rfl⟩
  | string s => exact ⟨_, rfl, literal_of_plain h⟩
  | list size item ih =>
    obtain ⟨hsize, h⟩ := h
    choose x hx htext using fun i => ih i (h i)
    refine ⟨.array size x, ⟨x, rfl, hx⟩, fun i => (item i).text E, fun i => .of (htext i), .inl ?_⟩
    exact flatten_of_le_one hsize _
  | map size key value _ ih =>
    choose k hk using fun i => (h i).1
    choose x hx htext using fun i => ih i (h i).2
    refine ⟨.object size k x, ⟨k, x, rfl, fun i => ⟨(hk i).1, hx i⟩⟩, fun i => (key i).text E ++ 0x3A :: (value i).text E,
      fun i => ?_, .inl rfl⟩
    dsimp only
    rw [(hk i).1]
    exact isMember_of_plain (hk i).2 (htext i)
  | array size element ih =>
    choose x hx htext using fun i => ih i (h i)
    exact ⟨.array size x, ⟨x, rfl, hx⟩, fun i => (element i).text E, fun i => .of (htext i), .inl rfl⟩
  | arguments size arg ih =>
    choose x hx htext using fun i => ih i (h i)
    exact ⟨.array size x, ⟨x, rfl, hx⟩, fun i => (arg i).text E, fun i => .of (htext i), .inl rfl⟩
  | record size id name member ih =>
    choose x hx htext using fun i => ih i (h i).2
    exact ⟨.object size name x, ⟨x, rfl, hx⟩, _, fun i => isMember_of_plain (h i).1 (htext i), .inl rfl⟩

end EncoderValue

/-! ## What the encoder does -/

section Encoder

variable {E : TextEncoderConfig} {s₀ s s' : TextEncoderState} {t t' t'' : Bytes} {β γ : Type}

/-- Arrays are written in full. -/
def NoAbbreviation (E : TextEncoderConfig) (s : TextEncoderState) : Prop := E.arrayMax = 0 ∨ s.abbreviateArrays = false

theorem NoAbbreviation.extends (h : NoAbbreviation E s) (hs : s.Extends t s') : NoAbbreviation E s' :=
  h.imp_right hs.abbreviateArrays.trans

/-- Where the buffer has `t` behind what it had in `s₀`, `p` returns `b` and the buffer has `t'` there. -/
def Leads (E : TextEncoderConfig) (s₀ : TextEncoderState) (t : Bytes) (p : Encoding β) (b : β) (t' : Bytes) : Prop :=
  ∀ s, s₀.Extends t s → ∃ s', run (textEncoder E) p s = (b, s') ∧ s₀.Extends t' s'

/-- In a buffer with room, `p` returns true and writes `t`. -/
def Renders (E : TextEncoderConfig) (p : Encoding Bool) (t : Bytes) : Prop :=
  ∀ s₀, NoAbbreviation E s₀ → s₀.Room t → Leads E s₀ [] p true t

theorem Leads.pure (b : β) : Leads E s₀ t (pure b) b t := fun s hs => ⟨s, rfl, hs⟩

theorem Leads.bind {p : Encoding β} {b : β} {q : β → Encoding γ} {c : γ} (hp : Leads E s₀ t p b t')
    (hq : Leads E s₀ t' (q b) c t'') : Leads E s₀ t (p >>= q) c t'' := by
  intro s hs
  obtain ⟨s₁, hrun, h₁⟩ := hp s hs
  obtain ⟨s₂, hrun₂, h₂⟩ := hq s₁ h₁
  refine ⟨s₂, ?_, h₂⟩
  rw [run_bind, hrun]
  exact hrun₂

/-- A value behind another text. -/
theorem Renders.leads {p : Encoding Bool} {x : Bytes} (hp : Renders E p x) (hs₀ : NoAbbreviation E s₀)
    (hroom : s₀.Room (t ++ x)) : Leads E s₀ t p true (t ++ x) := by
  intro s hs
  obtain ⟨s', hrun, hs'⟩ := hp s (hs₀.extends hs) (hroom.right hs) s .refl
  exact ⟨s', hrun, hs.trans hs'⟩

/-- A separator. -/
theorem Leads.append {o : EncodeOp} {b : o.Result} (c : UInt8)
    (ho : ∀ s s', append c s = (true, s') → textEncoder E o s = (b, s')) (h : s₀.Takes (t ++ [c])) :
    Leads E s₀ t (encode o) b (t ++ [c]) := by
  intro s hs
  obtain ⟨s', happend, hs'⟩ := append_spec c (h.right hs)
  exact ⟨s', ho s s' happend, hs.trans hs'⟩

theorem Leads.listSeparator (h : s₀.Takes (t ++ [0x2C])) :
    Leads E s₀ t (encode .listSeparator) true (t ++ [0x2C]) :=
  .append 0x2C (fun _ _ h => h) h

theorem Leads.keyValuePairSeparator (h : s₀.Takes (t ++ [0x3A])) :
    Leads E s₀ t (encode .keyValuePairSeparator) true (t ++ [0x3A]) :=
  .append 0x3A (fun _ _ h => h) h

/-- One call behind another, as long as they return true. -/
theorem Leads.cons {p : Encoding Bool} {ps : List (Encoding Bool)} {b : Bool} (hp : Leads E s₀ t p true t')
    (hps : Leads E s₀ t' (encodeAll ps) b t'') : Leads E s₀ t (encodeAll (p :: ps)) b t'' := by
  unfold encodeAll
  exact hp.bind hps

theorem Leads.last {p : Encoding Bool} (hp : Leads E s₀ t p true t') : Leads E s₀ t (encodeAll [p]) true t' :=
  hp.cons (.pure true)

/-! ### Brackets -/

/-- The start of a list or map. -/
theorem Leads.start {o : EncodeOp} {b : o.Result} (c : UInt8)
    (ho : ∀ s s', TextEncoder.start c s = (true, s') → textEncoder E o s = (b, s')) (h : s₀.Takes [c]) :
    Leads E s₀ [] (ThingSet.encode o) b [c] := by
  intro s hs
  have htakes : s₀.Takes ([] ++ [c]) := h
  obtain ⟨s', hstart, hs'⟩ := start_spec c (htakes.right hs)
  exact ⟨s', ho s s' hstart, hs.trans hs'⟩

/-- The end behind a character that is no separator. -/
theorem Leads.stop {o : EncodeOp} {b : o.Result} (c : UInt8)
    (ho : ∀ s s', TextEncoder.stop c s = (true, s') → textEncoder E o s = (b, s')) (h : s₀.Takes (t ++ [c]))
    (hne : t ≠ []) (hlast : t.getLast? ≠ some 0x2C) : Leads E s₀ t (ThingSet.encode o) b (t ++ [c]) := by
  intro s hs
  rw [← List.dropLast_append_getLast hne] at hs h ⊢
  rw [List.getLast?_eq_some_getLast hne] at hlast
  obtain ⟨s', hstop, hs'⟩ := stop_spec_other _ c hs (fun h => hlast (congrArg some h)) h
  exact ⟨s', ho s s' hstop, hs'⟩

/-- The end in the place of the last separator. -/
theorem Leads.stop_enclosed {o : EncodeOp} {b : o.Result} {opening : UInt8} (c : UInt8) {pieces : List Bytes}
    (ho : ∀ s s', TextEncoder.stop c s = (true, s') → textEncoder E o s = (b, s'))
    (h : s₀.Takes (Json.enclosed opening c pieces)) (hopening : opening ≠ 0x2C) :
    Leads E s₀ (opening :: pieces.flatMap (· ++ [0x2C])) (ThingSet.encode o) b (Json.enclosed opening c pieces) := by
  rcases eq_or_ne pieces [] with rfl | hne
  · exact .stop c ho h (List.cons_ne_nil _ _) fun h => hopening (Option.some.inj h)
  · intro s hs
    rw [Json.flatMap_comma hne, ← List.cons_append] at hs
    obtain ⟨s', hstop, hs'⟩ := stop_spec_separator c hs h
    exact ⟨s', ho s s' hstop, hs'⟩

section Containers

variable {pieces : List Bytes} (count : Option ℕ)

theorem Leads.listStart (h : s₀.Takes [0x5B]) : Leads E s₀ [] (ThingSet.encode (.listStart count)) true [0x5B] :=
  .start 0x5B (fun _ _ h => h) h

theorem Leads.mapStart (h : s₀.Takes [0x7B]) : Leads E s₀ [] (ThingSet.encode (.mapStart count)) true [0x7B] :=
  .start 0x7B (fun _ _ h => h) h

theorem Leads.listEnd (h : s₀.Takes (Json.enclosed 0x5B 0x5D pieces)) :
    Leads E s₀ (0x5B :: pieces.flatMap (· ++ [0x2C])) (ThingSet.encode (.listEnd count)) true
      (Json.enclosed 0x5B 0x5D pieces) :=
  .stop_enclosed 0x5D (fun _ _ h => h) h (by decide)

theorem Leads.mapEnd (h : s₀.Takes (Json.enclosed 0x7B 0x7D pieces)) :
    Leads E s₀ (0x7B :: pieces.flatMap (· ++ [0x2C])) (ThingSet.encode (.mapEnd count)) true
      (Json.enclosed 0x7B 0x7D pieces) :=
  .stop_enclosed 0x7D (fun _ _ h => h) h (by decide)

end Containers

/-- A separator behind each piece takes no more room than the brackets do. -/
theorem length_flatMap_comma (opening closing : UInt8) (pieces : List Bytes) :
    (opening :: pieces.flatMap (· ++ [0x2C])).length ≤ (Json.enclosed opening closing pieces).length := by
  rcases eq_or_ne pieces [] with rfl | hne
  · exact Nat.le_succ 1
  · rw [Json.flatMap_comma hne]
    simp [Json.enclosed]

theorem flatMap_ofFn {size : ℕ} (piece : Fin size → Bytes) :
    (List.ofFn piece).flatMap (· ++ [0x2C]) = (List.finRange size).flatMap fun i => piece i ++ [0x2C] := by
  rw [List.ofFn_eq_map, List.flatMap_map]

theorem takes_pieces {size : ℕ} {piece : Fin size → Bytes} {opening closing : UInt8}
    (h : s₀.Takes (Json.enclosed opening closing (List.ofFn piece))) :
    s₀.Takes ([opening] ++ (List.finRange size).flatMap fun i => piece i ++ [0x2C]) := by
  rw [← flatMap_ofFn]
  exact h.of_length_le (length_flatMap_comma ..)

/-! ### Elements -/

variable {ι : Type} {piece : ι → Bytes}

/-- A value with a separator behind it. -/
theorem Renders.separated {p : Encoding Bool} {x : Bytes} (hp : Renders E p x) (hs₀ : NoAbbreviation E s₀)
    (h : s₀.Takes (t ++ (x ++ [0x2C]))) :
    Leads E s₀ t (encodeAll [p, ThingSet.encode .listSeparator]) true (t ++ (x ++ [0x2C])) := by
  rw [← List.append_assoc] at h ⊢
  exact (hp.leads hs₀ (h.room (List.cons_ne_nil _ _))).cons (Leads.listSeparator h).last

/-- A pair with a separator behind it. -/
theorem Renders.pair {p q : Encoding Bool} {x y : Bytes} (hp : Renders E p x) (hq : Renders E q y)
    (hs₀ : NoAbbreviation E s₀) (h : s₀.Takes (t ++ (x ++ 0x3A :: y ++ [0x2C]))) :
    Leads E s₀ t (encodePair p q) true (t ++ (x ++ 0x3A :: y ++ [0x2C])) := by
  rw [List.append_cons x, ← List.append_assoc, ← List.append_assoc, ← List.append_assoc] at h ⊢
  have hvalue := h.room (List.cons_ne_nil _ _)
  have hcolon := hvalue.left
  refine (hp.leads hs₀ hcolon.left).cons ((Leads.keyValuePairSeparator hcolon.takes).cons ?_)
  exact (hq.leads hs₀ hvalue).cons (Leads.listSeparator h).last

/-- Some values, and what comes behind them. -/
theorem Leads.all {program : ι → Encoding Bool} {ps : List (Encoding Bool)} {b : Bool} {P : Bytes → Prop}
    (hP : ∀ x y, P (x ++ y) → P x) (is : List ι)
    (h : ∀ i t, P (t ++ piece i) → Leads E s₀ t (program i) true (t ++ piece i)) (hall : P (t ++ is.flatMap piece))
    (hps : Leads E s₀ (t ++ is.flatMap piece) (encodeAll ps) b t'') :
    Leads E s₀ t (encodeAll (is.map program ++ ps)) b t'' := by
  induction is generalizing t with
  | nil =>
    rw [List.flatMap_nil, List.append_nil] at hps
    exact hps
  | cons i is ih =>
    rw [List.flatMap_cons, ← List.append_assoc] at hall hps
    exact (h i t (hP _ _ hall)).cons (ih hall hps)

/-- The elements of an array. -/
theorem Leads.elements {program : ι → Encoding Bool} (is : List ι) (h : ∀ i, Renders E (program i) (piece i))
    (hs₀ : NoAbbreviation E s₀) (hall : s₀.Takes (t ++ is.flatMap fun i => piece i ++ [0x2C])) :
    Leads E s₀ t (encodeElements (is.map program) true) true (t ++ is.flatMap fun i => piece i ++ [0x2C]) := by
  induction is generalizing t with
  | nil =>
    rw [List.flatMap_nil, List.append_nil]
    exact .pure true
  | cons i is ih =>
    rw [List.flatMap_cons, ← List.append_assoc] at hall ⊢
    exact ((h i).separated hs₀ hall.left).bind (ih hall)

/-- A string is written up to its first NUL. -/
theorem renders_string (value : Bytes) :
    Renders E (ThingSet.encode (.string value)) (Piece.string (value.takeWhile (· ≠ 0))).text := by
  intro s₀ hs₀ hroom s hs
  have hroom' : s₀.Room ([] ++ (Piece.string (value.takeWhile (· ≠ 0))).text) := hroom
  obtain ⟨s', hrun, hs'⟩ := string_written (hroom'.right hs)
  exact ⟨s', hrun, hs.trans hs'⟩

/-- A number or a boolean. -/
theorem renders_format {x : Bytes} {p : Encoding Bool}
    (hp : ∀ s, run (textEncoder E) p s = appendFormat x s) : Renders E p x := by
  intro s₀ hs₀ hroom s hs
  have hroom' : s₀.Room ([] ++ x) := hroom
  obtain ⟨s', hformat, hs', -⟩ := appendFormat_spec (hroom'.right hs)
  exact ⟨s', (hp s).trans hformat, hs.trans hs'⟩

/-- The members of a structure. -/
theorem Leads.members {size : ℕ} {id : Fin size → ℕ} {name : Fin size → Bytes} {value : Fin size → Encoding Bool}
    {x : Fin size → Bytes} (is : List (Fin size)) (h : ∀ i, Renders E (value i) (x i)) (hs₀ : NoAbbreviation E s₀)
    (hall : s₀.Takes (t ++ is.flatMap fun i =>
      (Piece.string ((name i).takeWhile (· ≠ 0))).text ++ 0x3A :: x i ++ [0x2C])) :
    Leads E s₀ t (encodeMembers id name value is) () (t ++ is.flatMap fun i =>
      (Piece.string ((name i).takeWhile (· ≠ 0))).text ++ 0x3A :: x i ++ [0x2C]) := by
  induction is generalizing t with
  | nil =>
    rw [List.flatMap_nil, List.append_nil]
    exact .pure ()
  | cons i is ih =>
    rw [List.flatMap_cons, ← List.append_assoc] at hall ⊢
    refine .bind (b := ()) ?_ (ih hall)
    have hmember := hall.left
    rw [List.append_cons (Piece.string _).text, ← List.append_assoc, ← List.append_assoc, ← List.append_assoc]
      at hmember ⊢
    have hvalue := hmember.room (List.cons_ne_nil _ _)
    have hkeys : Leads E s₀ t (ThingSet.encode .encodeKeysAsIds) false t := fun s hs => ⟨s, rfl, hs⟩
    refine hkeys.bind (((renders_string (name i)).leads hs₀ hvalue.left.left).bind ?_)
    refine (Leads.keyValuePairSeparator hvalue.left.takes).bind ?_
    exact ((h i).leads hs₀ hvalue).bind ((Leads.listSeparator hmember).bind (.pure ()))

/-- A structure, which may fill the buffer. -/
theorem Leads.record {size : ℕ} {id : Fin size → ℕ} {name : Fin size → Bytes} {value : Fin size → Encoding Bool}
    {x : Fin size → Bytes} (h : ∀ i, Renders E (value i) (x i)) (hs₀ : NoAbbreviation E s₀)
    (hall : s₀.Takes (Json.enclosed 0x7B 0x7D
      (List.ofFn fun i => (Piece.string ((name i).takeWhile (· ≠ 0))).text ++ 0x3A :: x i))) :
    Leads E s₀ [] (encodeRecord id name value) true (Json.enclosed 0x7B 0x7D
      (List.ofFn fun i => (Piece.string ((name i).takeWhile (· ≠ 0))).text ++ 0x3A :: x i)) := by
  have hpieces := takes_pieces hall
  refine (Leads.mapStart _ hpieces.left).bind ((Leads.members _ h hs₀ hpieces).bind ?_)
  rw [← flatMap_ofFn fun i => (Piece.string ((name i).takeWhile (· ≠ 0))).text ++ 0x3A :: x i]
  exact Leads.mapEnd _ hall

end Encoder

/-! ## What is written -/

/-- What `printf` prints of a number does not end in a comma. -/
def TextEncoderConfig.EndsInNoComma (E : TextEncoderConfig) : Prop := ∀ v, (E.double v).getLast? ≠ some 0x2C

section Last

theorem getLast?_append_ne {a b : Bytes} {c : UInt8} (ha : a.getLast? ≠ some c) (hb : b.getLast? ≠ some c) :
    (a ++ b).getLast? ≠ some c := by
  rw [List.getLast?_append]
  cases hlast : b.getLast? with
  | none => exact ha
  | some d =>
    rw [hlast] at hb
    exact hb

theorem getLast?_flatten_ne {a : Bytes} {pieces : List Bytes} {c : UInt8} (ha : a.getLast? ≠ some c)
    (hpieces : ∀ x ∈ pieces, x.getLast? ≠ some c) : (a ++ pieces.flatten).getLast? ≠ some c := by
  induction pieces generalizing a with
  | nil =>
    rw [List.flatten_nil, List.append_nil]
    exact ha
  | cons x pieces ih =>
    rw [List.flatten_cons, ← List.append_assoc]
    exact ih (getLast?_append_ne ha (hpieces x List.mem_cons_self)) fun y hy => hpieces y (List.mem_cons_of_mem x hy)

theorem getLast?_digits {l : Bytes} (h : ∀ c ∈ l, isDigit c = true) : l.getLast? ≠ some 0x2C := by
  intro hlast
  exact absurd (h 0x2C (List.mem_of_getLast? hlast)) (by decide)

theorem getLast?_concat_ne {a : Bytes} {d : UInt8} (hd : d ≠ 0x2C) : (a ++ [d]).getLast? ≠ some 0x2C := by
  rw [List.getLast?_concat]
  exact fun h => hd (Option.some.inj h)

end Last

theorem renderedListLength_eq {E : TextEncoderConfig} {s : TextEncoderState} {size : ℕ} (hs : NoAbbreviation E s) :
    renderedListLength E size s = size := by
  unfold renderedListLength
  apply if_neg
  rintro ⟨hmax, habbreviate, -⟩
  rcases hs with hs | hs
  · omega
  · rw [hs] at habbreviate
    cases habbreviate

theorem map_elementAt {size : ℕ} (element : Fin size → Encoding Bool) :
    (List.range size).map (elementAt element) = (List.finRange size).map element := by
  rw [← List.ofFn_eq_map]
  apply List.ext_getElem
  · rw [List.length_map, List.length_range, List.length_ofFn]
  · intro i hi _
    rw [List.getElem_map, List.getElem_range, List.getElem_ofFn, elementAt, dif_pos]

namespace EncoderValue

variable {E : TextEncoderConfig}

/-- No text ends in a comma. -/
theorem getLast?_text (hE : E.EndsInNoComma) (v : EncoderValue) : (v.text E).getLast? ≠ some 0x2C := by
  cases v with
  | uint w n => exact getLast?_digits fun _ => isDigit_of_mem_decimal
  | int w i =>
    unfold text signedDecimal
    split
    · exact getLast?_append_ne (a := [0x2D]) (by decide) (getLast?_digits fun _ => isDigit_of_mem_decimal)
    · exact getLast?_digits fun _ => isDigit_of_mem_decimal
  | bool b =>
    unfold text
    cases b <;> decide
  | float v => exact hE _
  | double v => exact hE _
  | string s => exact getLast?_concat_ne (a := 0x22 :: _) (by decide)
  | list size item => exact getLast?_concat_ne (a := 0x5B :: _) (by decide)
  | map size key value => exact getLast?_concat_ne (a := 0x7B :: _) (by decide)
  | array size element => exact getLast?_concat_ne (a := 0x5B :: _) (by decide)
  | arguments size arg => exact getLast?_concat_ne (a := 0x5B :: _) (by decide)
  | record size id name member => exact getLast?_concat_ne (a := 0x7B :: _) (by decide)

/-- **The text encoder writes the text of a value.** -/
theorem renders_encode (hE : E.EndsInNoComma) (v : EncoderValue) : Renders E v.encode (v.text E) := by
  induction v with
  | uint w n => exact renders_format fun _ => rfl
  | int w i => exact renders_format fun _ => rfl
  | bool b => exact renders_format fun _ => rfl
  | float v => exact renders_format fun _ => rfl
  | double v => exact renders_format fun _ => rfl
  | string s => exact renders_string s
  | list size item ih =>
    intro s₀ hs₀ hroom
    have hflat : (List.ofFn fun i => (item i).text E).flatten = (List.finRange size).flatMap fun i => (item i).text E := by
      rw [List.ofFn_eq_map, List.flatMap_def]
    have htext : (list size item).text E =
        0x5B :: (List.finRange size).flatMap (fun i => (item i).text E) ++ [0x5D] := by
      rw [text, hflat, List.cons_append]
    rw [htext] at hroom ⊢
    refine (Leads.listStart _ (hroom.takes.of_length_le (Nat.le_add_left ..))).cons ?_
    have hend (o : Option ℕ) : Leads E s₀ (0x5B :: (List.finRange size).flatMap fun i => (item i).text E)
        (ThingSet.encode (.listEnd o)) true _ := .stop 0x5D (fun _ _ h => h) hroom.takes (List.cons_ne_nil _ _) ?_
    refine Leads.all (fun _ _ => Room.left) _ (fun i _ => (ih i).leads hs₀) hroom.left (hend _).last
    rw [← hflat, ← List.singleton_append]
    refine getLast?_flatten_ne (by decide) fun x hx => ?_
    obtain ⟨i, rfl⟩ := List.mem_ofFn.1 hx
    exact (item i).getLast?_text hE
  | map size key value ihk ihv =>
    intro s₀ hs₀ hroom
    have hpieces := takes_pieces hroom.takes
    refine (Leads.mapStart _ hpieces.left).cons ?_
    refine Leads.all (fun _ _ => Takes.left) _ (fun i _ => (ihk i).pair (ihv i) hs₀) hpieces ?_
    rw [← flatMap_ofFn fun i => (key i).text E ++ 0x3A :: (value i).text E]
    exact (Leads.mapEnd _ hroom.takes).last
  | array size element ih =>
    intro s₀ hs₀ hroom
    have hpieces := takes_pieces hroom.takes
    have hrendered : Leads E s₀ [] (ThingSet.encode (.renderedListLength size)) size [] := fun s hs =>
      ⟨s, Prod.ext (renderedListLength_eq (hs₀.extends hs)) rfl, hs⟩
    refine hrendered.bind ((Leads.listStart _ hpieces.left).bind ?_)
    have helements : (List.range size).map (elementAt fun i => (element i).encode) =
        (List.finRange size).map fun i => (element i).encode := map_elementAt ..
    rw [helements]
    refine (Leads.elements _ ih hs₀ hpieces).bind ?_
    rw [if_neg (Nat.lt_irrefl size)]
    refine (Leads.pure true).bind ?_
    rw [← flatMap_ofFn fun i => (element i).text E]
    exact Leads.listEnd _ hroom.takes
  | arguments size arg ih =>
    intro s₀ hs₀ hroom
    have hpieces := takes_pieces hroom.takes
    refine (Leads.listStart _ hpieces.left).cons (.cons ?_ (Leads.listEnd _ hroom.takes).last)
    rw [List.map_map, ← List.append_nil (List.map ..), flatMap_ofFn fun i => (arg i).text E]
    exact Leads.all (fun _ _ => Takes.left) _ (fun i _ => (ih i).separated hs₀) hpieces (.pure true)
  | record size id name member ih =>
    intro s₀ hs₀ hroom
    exact Leads.record ih hs₀ hroom.takes

end EncoderValue

/-! ## JSON -/

/-- The text encoder writes a JSON text of the value. -/
def RendersJson (E : TextEncoderConfig) (v : EncoderValue) (s : TextEncoderState) : Prop :=
  ∃ s' t j, run (textEncoder E) v.encode s = (true, s') ∧ s.Extends t s' ∧ v.Denotes E j ∧ j.IsText t

variable {E : TextEncoderConfig} {s : TextEncoderState}

theorem renderable_of_rendersJson (hE : E.EndsInNoComma) (v : EncoderValue) (hs : NoAbbreviation E s)
    (hroom : s.Room (v.text E)) (h : RendersJson E v s) : v.Renderable E := by
  obtain ⟨s', t, j, hrun, ht, hj, htext⟩ := h
  obtain ⟨s'', hrun', ht'⟩ := v.renders_encode hE s hs hroom s .refl
  obtain rfl : s' = s'' := congrArg Prod.snd (hrun.symm.trans hrun')
  obtain rfl : v.text E = t := List.append_cancel_left (ht'.written.symm.trans ht.written)
  exact ((v.shortest_of_denotes j hj) _ htext).2 rfl

/-- **The text of a value is JSON for the value if and only if the value meets the condition.** -/
theorem rendersJson_iff (hE : E.EndsInNoComma) (v : EncoderValue) (hs : NoAbbreviation E s)
    (hroom : s.Room (v.text E)) : RendersJson E v s ↔ v.Renderable E := by
  constructor
  · exact renderable_of_rendersJson hE v hs hroom
  · intro h
    obtain ⟨s', hrun, ht⟩ := v.renders_encode hE s hs hroom s .refl
    obtain ⟨j, hj, htext⟩ := v.isText_of_renderable h
    exact ⟨s', _, j, hrun, ht, hj, htext⟩

/-! ### A structure, and a list of two numbers -/

/-- `printf` that knows zero only. -/
def zeroPrinter : TextEncoderConfig := ⟨fun _ => [0x30, 0x2E, 0x30], fun _ => 0, 0⟩

def emptyBuffer : TextEncoderState where
  responseBuffer := List.replicate 64 0

/-- A structure with an array that has an empty list in it, and a map of arguments. -/
def mixedValue : EncoderValue :=
  .record 2 ![1, 2] ![[0x61], [0x62]] ![
    .array 2 ![.list 0 Fin.elim0, .list 1 ![.uint .w8 7]],
    .map 1 ![.string [0x6B]] ![.arguments 2 ![.bool true, .double 0]]]

theorem zeroPrinter_endsInNoComma : zeroPrinter.EndsInNoComma :=
  fun _ => (by decide : ([0x30, 0x2E, 0x30] : Bytes).getLast? ≠ some 0x2C)

theorem mixedValue_renderable : mixedValue.Renderable zeroPrinter := by
  have hzero : Json.IsNumber [0x30, 0x2E, 0x30] :=
    ⟨[], [0x30], [0x2E, 0x30], [], rfl, .inl rfl, .inl rfl, .inr ⟨[0x30], rfl, by decide, by simp [Json.IsDigit]⟩,
      .inl rfl⟩
  refine Fin.forall_fin_two.2 ⟨⟨by simp [Json.IsPlain], ?_⟩, by simp [Json.IsPlain], ?_⟩
  · exact Fin.forall_fin_two.2 ⟨⟨Nat.zero_le 1, Fin.rec0⟩, Nat.le_refl 1, fun i => by fin_cases i; trivial⟩
  · intro i
    fin_cases i
    exact ⟨⟨[0x6B], rfl, by simp [Json.IsPlain]⟩, Fin.forall_fin_two.2 ⟨trivial, hzero⟩⟩

theorem mixedValue_rendersJson :
    mixedValue.text zeroPrinter = "\x7b\"a\":[[],[7]],\"b\":\x7b\"k\":[1,0.0]\x7d\x7d".toUTF8.toList ∧
      RendersJson zeroPrinter mixedValue emptyBuffer := by
  refine ⟨by decide +kernel, ?_⟩
  exact (rendersJson_iff zeroPrinter_endsInNoComma mixedValue (.inl rfl) (by decide +kernel)).2 mixedValue_renderable

/-- A `std::list` of two numbers. -/
def twoNumbers : EncoderValue := .list 2 ![.uint .w8 1, .uint .w8 2]

/-- There is no separator between them. -/
theorem twoNumbers_not_json :
    twoNumbers.text zeroPrinter = "[12]".toUTF8.toList ∧ ¬ RendersJson zeroPrinter twoNumbers emptyBuffer := by
  refine ⟨by decide +kernel, fun h => ?_⟩
  have hsize := renderable_of_rendersJson zeroPrinter_endsInNoComma twoNumbers (.inl rfl) (by decide +kernel) h
  exact absurd hsize.1 (by decide)

end ThingSet
