import ThingSet.MapKeys
import ThingSet.Values
import ThingSet.Zcbor.Places

/-!
# Values that cannot be decoded

An entry with an unknown key is skipped by `ThingSetDecoder::decode` of a structure. One whose value is not decoded
into its member is not: `switchDecode` returns true for every key of a member, and the next key is looked for where the
failed decode has left the decoder.

* `TargetType`: the types that a value is decoded into.
* `TargetType.Exact`: every map that a decode comes to is decoded entry by entry, each value into the member of its
  own key, and behind each value the decoder is at the next key.
* `TargetType.Recovers`: the value is decoded, or it is a number or a string that is read and then refused.
* `run_scalar`: how the decode of a number or a string ends.
-/

namespace ThingSet

open Interaction Prog

/-! ## Types -/

/-- The types of a single data item: `chars` is an array of characters. -/
inductive ScalarType
  | string
  | chars (size : ℕ)
  | float
  | double
  | bool
  | uint (w : IntWidth)
  | int (w : IntWidth)

namespace ScalarType

@[reducible] def Value : ScalarType → Type
  | string => Bytes
  | chars _ => Bytes
  | float => UInt32
  | double => UInt64
  | bool => Bool
  | uint _ => ℕ
  | int _ => ℤ

theorem result_string : DecodeOp.string.Result = Option Bytes := rfl

theorem result_bool : DecodeOp.bool.Result = Option Bool := rfl

theorem result_uint (w : IntWidth) : (DecodeOp.uint w).Result = Option ℕ := rfl

theorem result_int (w : IntWidth) : (DecodeOp.int w).Result = Option ℤ := rfl

/-- `ThingSetDecoder::decode`. -/
def decode : (t : ScalarType) → t.Value → Decoding (Decoded t.Value)
  | string => decodeScalar .string result_string
  | chars size => decodeScalar (.chars size) rfl
  | float => decodeScalar .float rfl
  | double => decodeScalar .double rfl
  | bool => decodeScalar .bool result_bool
  | uint w => decodeScalar (.uint w) (result_uint w)
  | int w => decodeScalar (.int w) (result_int w)

def fresh : (t : ScalarType) → t.Value
  | string => []
  | chars _ => []
  | float => 0
  | double => 0
  | bool => false
  | uint _ => 0
  | int _ => 0

/-- zcbor decodes an item for the type: the narrow integers go through those of 32 bits. -/
def Reads (Z : ZcborDecode) : ScalarType → ZcborState → Prop
  | string, s => (Z.tstrDecode s).1.isSome
  | chars _, s => (Z.tstrDecode s).1.isSome
  | float, s => (Z.float16_32Decode s).1.isSome
  | double, s => (Z.float64Decode s).1.isSome
  | bool, s => (Z.boolDecode s).1.isSome
  | uint .w64, s => (Z.uint64Decode s).1.isSome
  | uint _, s => (Z.uint32Decode s).1.isSome
  | int .w64, s => (Z.int64Decode s).1.isSome
  | int _, s => (Z.int32Decode s).1.isSome

/-- What is decoded is too long or too large for the type. -/
def Refuses (Z : ZcborDecode) : ScalarType → ZcborState → Prop
  | chars size, s => ∃ z ∈ (Z.tstrDecode s).1, size < z.length
  | uint .w8, s => ∃ i ∈ (Z.uint32Decode s).1, 255 ≤ i
  | uint .w16, s => ∃ i ∈ (Z.uint32Decode s).1, 65535 ≤ i
  | int .w8, s => ∃ i ∈ (Z.int32Decode s).1, 127 ≤ i
  | int .w16, s => ∃ i ∈ (Z.int32Decode s).1, 32767 ≤ i
  | _, _ => False

end ScalarType

/-- The types that a value is decoded into: `array` is `std::array`, `vector` is `std::vector`, and `record` a
structure of record members. -/
inductive TargetType
  | scalar (t : ScalarType)
  | array (element : TargetType) (size : ℕ)
  | vector (element : TargetType)
  | record (size : ℕ) (id : Fin size → ℕ) (name : Fin size → Bytes) (member : Fin size → TargetType)

namespace TargetType

@[reducible] def Value : TargetType → Type
  | scalar t => t.Value
  | array element _ => ℕ → element.Value
  | vector element => List element.Value
  | record size _ _ member => (i : Fin size) → (member i).Value

/-- A new object. -/
def fresh : (t : TargetType) → t.Value
  | scalar t => t.fresh
  | array element _ => fun _ => element.fresh
  | vector _ => []
  | record _ _ _ member => fun i => (member i).fresh

/-- `ThingSetDecoder::decode`. -/
def decode : (t : TargetType) → t.Value → Decoding (Decoded t.Value)
  | scalar t => t.decode
  | array element size => fun f => do
    let (ok, a) ← decodeArray element.decode size ⟨f, []⟩
    pure ⟨ok, some a.value⟩
  | vector element => fun list => do
    let (ok, list) ← decodeVector element.decode element.fresh list
    pure ⟨ok, some list⟩
  | record _ id name member => fun r => do
    let (ok, r) ← decodeRecord id name (fun i => (member i).decode) r
    pure ⟨ok, some r⟩

end TargetType

/-! ## The elements of a list -/

section Elements

variable (o : BinaryDecoderOptions) {T : Type} (elem : T → Decoding (Decoded T)) (exact : T → ZcborState → Prop)
  (accepts : ZcborState → Prop)

/-- Every element of an array that the loop comes to is decoded exactly. -/
def ElementsExact : ℕ → ℕ → ArrayMemory T → ZcborState → Prop
  | 0, _, _, _ => True
  | n + 1, i, a, s =>
    let d := run (binaryDecoder o) (elem (a.value i)) s
    exact (a.value i) s ∧ (d.1.ok = true → ElementsExact n (i + 1) (a.store i d.1.stored) d.2)

/-- Every element of a vector that the loop comes to, with `fresh` in front of it. -/
def FreshExact (fresh : T) : ℕ → ZcborState → Prop
  | 0, _ => True
  | n + 1, s =>
    let d := run (binaryDecoder o) (elem fresh) s
    exact fresh s ∧ (d.1.ok = true → FreshExact fresh n d.2)

/-- `n` elements are all decoded, and the list ends behind them. -/
def ElementsAccepted : ℕ → ZcborState → Prop
  | 0, s => (o.zcbor.listEndDecode s).1 = true
  | n + 1, s => accepts s ∧ ElementsAccepted n (o.zcbor.anySkip s).2

end Elements

/-! ## The entries of a map -/

section Entries

variable (o : BinaryDecoderOptions) {size : ℕ} (id : Fin size → ℕ) (name : Fin size → Bytes) {V : Fin size → Type}
  (member : (i : Fin size) → V i → Decoding (Decoded (V i)))

/-- The member with a key. -/
def selected (key : Key) : Option (Fin size) :=
  match key.id, key.name with
  | some k, _ => (List.finRange size).find? fun i => id i = k
  | none, some n => (List.finRange size).find? fun i => name i = n
  | none, none => none

/-- The decode of a value into the member of its key: the record, and where the decoder is then. -/
def attempt (r : (i : Fin size) → V i) (i : Option (Fin size)) (s : ZcborState) : ((i : Fin size) → V i) × ZcborState :=
  match i with
  | none => (r, s)
  | some i =>
    let d := run (binaryDecoder o) (member i (r i)) s
    (Function.update r i (d.1.value (r i)), d.2)

/-- `n` rounds of the loop of `decodeMap` from a key: in each of them the key selects the member that it is the key
of, the value is decoded into that member and into no other, and the next round starts behind the value. At the end of
them is the end of the map. -/
def EntriesExact (exact : (i : Fin size) → V i → ZcborState → Prop) :
    ℕ → Key × ((i : Fin size) → V i) → ZcborState → Prop
  | 0, _, s => (o.zcbor.mapEndDecode s).1 = true
  | n + 1, c, s => ∃ k v, KeyAt (binaryDecoder o) s k v ∧
    selected id name (c.1.merge k.key) = selected id name k.key ∧
      (∀ i, selected id name k.key = some i → exact i (c.2 i) v) ∧
        ∃ c' s', run (binaryDecoder o) (decodeMapRound (decodeMember id name member) c) s = (.inl c', s') ∧
          c'.2 = (attempt o member c.2 (selected id name k.key) v).1 ∧ o.zcbor.Behind v s' ∧
            EntriesExact exact n c' s'

/-- `n` entries whose keys select the members that they are the keys of, and the values of members recover. -/
def EntriesRecover (recovers : Fin size → ZcborState → Prop) : ℕ → Key → ZcborState → Prop
  | 0, _, s => (o.zcbor.mapEndDecode s).1 = true
  | n + 1, key, s => ∃ k v, KeyAt (binaryDecoder o) s k v ∧
    selected id name (key.merge k.key) = selected id name k.key ∧
      (∀ i, selected id name k.key = some i → recovers i v) ∧
        (o.zcbor.anySkip v).1 = true ∧ EntriesRecover recovers n (key.merge k.key) (o.zcbor.anySkip v).2

end Entries

namespace TargetType

variable (o : BinaryDecoderOptions)

/-- The list at `s` has too few elements. -/
def TooShort (size : ℕ) (s : ZcborState) : Prop :=
  (o.zcbor.listStartDecode s).2.elemCount < size ∧ o.allowUndersizedArrays = false

/-- The maps that the decode of a value comes to are decoded exactly. -/
def Exact : (t : TargetType) → t.Value → ZcborState → Prop
  | scalar _, _, _ => True
  | array element size, f, s => (o.zcbor.listStartDecode s).1 = true → ¬ TooShort o size s →
    ElementsExact o element.decode element.Exact (o.zcbor.listStartDecode s).2.elemCount 0 ⟨f, []⟩
      (o.zcbor.listStartDecode s).2
  | vector element, _, s => (o.zcbor.listStartDecode s).1 = true →
    FreshExact o element.decode element.Exact element.fresh (o.zcbor.listStartDecode s).2.elemCount
      (o.zcbor.listStartDecode s).2
  | record _ id name member, r, s => (o.zcbor.mapStartDecode s).1 = true →
    ∃ n < sizeMax, EntriesExact o id name (fun i => (member i).decode) (fun i => (member i).Exact) n ({}, r)
      (o.zcbor.mapStartDecode s).2

/-- The value is read, and too long or too large for the type. -/
def Refuses : TargetType → ZcborState → Prop
  | scalar t, s => t.Refuses o.zcbor s
  | _, _ => False

/-- The value is decoded. -/
def Accepts : (t : TargetType) → ZcborState → Prop
  | scalar t, s => t.Reads o.zcbor s ∧ ¬ t.Refuses o.zcbor s
  | array element size, s => (o.zcbor.listStartDecode s).1 = true ∧ ¬ TooShort o size s ∧
    ElementsAccepted o element.Accepts (o.zcbor.listStartDecode s).2.elemCount (o.zcbor.listStartDecode s).2
  | vector element, s => (o.zcbor.listStartDecode s).1 = true ∧
    ElementsAccepted o element.Accepts (o.zcbor.listStartDecode s).2.elemCount (o.zcbor.listStartDecode s).2
  | record _ id name member, s => (o.zcbor.mapStartDecode s).1 = true ∧
    ∃ n < sizeMax, EntriesRecover o id name (fun i s => (member i).Accepts s ∨ (member i).Refuses o s) n {}
      (o.zcbor.mapStartDecode s).2

/-- The value is read, whether it is stored or refused. -/
def Recovers (t : TargetType) (s : ZcborState) : Prop := t.Accepts o s ∨ t.Refuses o s

end TargetType

/-! ## Scalars -/

section Scalar

variable {o : BinaryDecoderOptions} {Z : ZcborDecode} {s s' : ZcborState}

/-- How the decode of a scalar ends. -/
structure ScalarEnds (Z : ZcborDecode) (reads refuses : Prop) (ok : Bool) (s s' : ZcborState) : Prop where
  ok_iff : ok = true ↔ reads ∧ ¬ refuses
  reads_of_refuses : refuses → reads
  behind : reads → Z.Behind s s'
  stays : ¬ reads → s'.place = s.place

/-- A number or a string that zcbor decodes, and that may be refused. -/
theorem scalarEnds_of_scalar {α β : Type} {f : ZcborState → Option α × ZcborState} (hf : Z.Scalar f)
    (g : α → Option β) {refuses : Prop} (hrefuses : refuses ↔ ∃ i ∈ (f s).1, g i = none) {ok : Bool}
    (hok : ok = ((f s).1.bind g).isSome) (hs : s' = (f s).2) :
    ScalarEnds Z ((f s).1.isSome) refuses ok s s' := by
  subst hok hs
  have hstays := hf.none s
  have hbehind := hf.some s
  cases hi : (f s).1 with
  | none =>
    rw [hi] at hrefuses hstays
    have hnot : ¬ refuses := fun h => by
      obtain ⟨i, hi, -⟩ := hrefuses.1 h
      cases hi
    exact ⟨iff_of_false Bool.false_ne_true fun h => absurd h.1 Bool.false_ne_true, fun h => absurd h hnot,
      fun h => absurd h Bool.false_ne_true, fun _ => hstays rfl⟩
  | some i =>
    rw [hi] at hrefuses hbehind
    have hiff : refuses ↔ g i = none :=
      hrefuses.trans ⟨fun ⟨j, hj, h⟩ => Option.some.inj hj ▸ h, fun h => ⟨i, rfl, h⟩⟩
    refine ⟨?_, fun _ => rfl, fun _ => hbehind rfl, fun h => absurd rfl h⟩
    rw [hiff, Option.bind_some, Option.isSome_iff_ne_none]
    exact ⟨fun h => ⟨rfl, h⟩, fun h => h.2⟩

/-- One that is never refused. -/
theorem scalarEnds_of_plain {α : Type} {f : ZcborState → Option α × ZcborState} (hf : Z.Scalar f) :
    ScalarEnds Z ((f s).1.isSome) False (f s).1.isSome s (f s).2 := by
  refine scalarEnds_of_scalar hf some ?_ ?_ rfl
  · exact ⟨False.elim, fun ⟨i, _, h⟩ => absurd h (Option.some_ne_none i)⟩
  · rw [Option.bind_fun_some]

theorem narrowUInt_eq (max : ℕ) (s : ZcborState) :
    BinaryDecoder.narrowUInt o max s =
      ((o.zcbor.uint32Decode s).1.bind fun i => if i < max then some i else none, (o.zcbor.uint32Decode s).2) := by
  unfold BinaryDecoder.narrowUInt
  rcases o.zcbor.uint32Decode s with ⟨_ | i, s'⟩ <;> rfl

theorem narrowInt_eq (bits : ℕ) (max : ℤ) (s : ZcborState) :
    BinaryDecoder.narrowInt o bits max s =
      ((o.zcbor.int32Decode s).1.bind fun i => if i < max then some (i.bmod (2 ^ bits)) else none,
        (o.zcbor.int32Decode s).2) := by
  unfold BinaryDecoder.narrowInt
  rcases o.zcbor.int32Decode s with ⟨_ | i, s'⟩ <;> rfl

theorem chars_eq (size : ℕ) (s : ZcborState) :
    BinaryDecoder.chars o size s =
      ((o.zcbor.tstrDecode s).1.bind fun z => if z.length ≤ size then some (strncpy z z.length ++ [0]) else none,
        (o.zcbor.tstrDecode s).2) := by
  unfold BinaryDecoder.chars
  rcases o.zcbor.tstrDecode s with ⟨_ | z, s'⟩ <;> rfl

/-- What is refused does not satisfy the condition of its type. -/
theorem exists_refused_iff {α β : Type} {x : Option α} {P Q : α → Prop} [DecidablePred P] {g : α → β}
    (hQ : ∀ i, Q i ↔ ¬ P i) : (∃ i ∈ x, Q i) ↔ ∃ i ∈ x, (if P i then some (g i) else none) = none := by
  refine exists_congr fun i => and_congr_right fun _ => (hQ i).trans ?_
  split
  · rename_i h
    exact iff_of_false (not_not_intro h) (Option.some_ne_none _)
  · rename_i h
    exact iff_of_true h rfl

theorem run_scalar (hZ : o.zcbor.PlaceLaws) (t : ScalarType) (v : t.Value) (s : ZcborState) :
    ScalarEnds o.zcbor (t.Reads o.zcbor s) (t.Refuses o.zcbor s) (run (binaryDecoder o) (t.decode v) s).1.ok s
      (run (binaryDecoder o) (t.decode v) s).2 := by
  cases t with
  | string => exact scalarEnds_of_plain hZ.tstr
  | chars size =>
    have hchars := chars_eq (o := o) size s
    exact scalarEnds_of_scalar hZ.tstr _ (exists_refused_iff fun z => Nat.not_le.symm)
      (congrArg (fun r => Option.isSome (Prod.fst r)) hchars) (congrArg Prod.snd hchars)
  | float => exact scalarEnds_of_plain hZ.float16_32
  | double => exact scalarEnds_of_plain hZ.float64
  | bool => exact scalarEnds_of_plain hZ.bool
  | uint w =>
    cases w with
    | w8 =>
      have hnarrow := narrowUInt_eq (o := o) 255 s
      exact scalarEnds_of_scalar hZ.uint32 _ (exists_refused_iff fun i => Nat.not_lt.symm)
        (congrArg (fun r => Option.isSome (Prod.fst r)) hnarrow) (congrArg Prod.snd hnarrow)
    | w16 =>
      have hnarrow := narrowUInt_eq (o := o) 65535 s
      exact scalarEnds_of_scalar hZ.uint32 _ (exists_refused_iff fun i => Nat.not_lt.symm)
        (congrArg (fun r => Option.isSome (Prod.fst r)) hnarrow) (congrArg Prod.snd hnarrow)
    | w32 => exact scalarEnds_of_plain hZ.uint32
    | w64 => exact scalarEnds_of_plain hZ.uint64
  | int w =>
    cases w with
    | w8 =>
      have hnarrow := narrowInt_eq (o := o) 8 127 s
      exact scalarEnds_of_scalar hZ.int32 _ (exists_refused_iff fun i => Int.not_lt.symm)
        (congrArg (fun r => Option.isSome (Prod.fst r)) hnarrow) (congrArg Prod.snd hnarrow)
    | w16 =>
      have hnarrow := narrowInt_eq (o := o) 16 32767 s
      exact scalarEnds_of_scalar hZ.int32 _ (exists_refused_iff fun i => Int.not_lt.symm)
        (congrArg (fun r => Option.isSome (Prod.fst r)) hnarrow) (congrArg Prod.snd hnarrow)
    | w32 => exact scalarEnds_of_plain hZ.int32
    | w64 => exact scalarEnds_of_plain hZ.int64

/-- An item is read, and refused, at a place. -/
theorem scalar_place (hZ : o.zcbor.PlaceLaws) (t : ScalarType) (hs : s.place = s'.place) :
    (t.Reads o.zcbor s ↔ t.Reads o.zcbor s') ∧ (t.Refuses o.zcbor s ↔ t.Refuses o.zcbor s') := by
  have htstr := (hZ.tstr.same s s' hs).1
  have huint32 := (hZ.uint32.same s s' hs).1
  have hint32 := (hZ.int32.same s s' hs).1
  cases t with
  | string => exact ⟨by simp only [ScalarType.Reads, htstr], Iff.rfl⟩
  | chars size => exact ⟨by simp only [ScalarType.Reads, htstr], by simp only [ScalarType.Refuses, htstr]⟩
  | float => exact ⟨by simp only [ScalarType.Reads, (hZ.float16_32.same s s' hs).1], Iff.rfl⟩
  | double => exact ⟨by simp only [ScalarType.Reads, (hZ.float64.same s s' hs).1], Iff.rfl⟩
  | bool => exact ⟨by simp only [ScalarType.Reads, (hZ.bool.same s s' hs).1], Iff.rfl⟩
  | uint w =>
    cases w with
    | w8 => exact ⟨by simp only [ScalarType.Reads, huint32], by simp only [ScalarType.Refuses, huint32]⟩
    | w16 => exact ⟨by simp only [ScalarType.Reads, huint32], by simp only [ScalarType.Refuses, huint32]⟩
    | w32 => exact ⟨by simp only [ScalarType.Reads, huint32], Iff.rfl⟩
    | w64 => exact ⟨by simp only [ScalarType.Reads, (hZ.uint64.same s s' hs).1], Iff.rfl⟩
  | int w =>
    cases w with
    | w8 => exact ⟨by simp only [ScalarType.Reads, hint32], by simp only [ScalarType.Refuses, hint32]⟩
    | w16 => exact ⟨by simp only [ScalarType.Reads, hint32], by simp only [ScalarType.Refuses, hint32]⟩
    | w32 => exact ⟨by simp only [ScalarType.Reads, hint32], Iff.rfl⟩
    | w64 => exact ⟨by simp only [ScalarType.Reads, (hZ.int64.same s s' hs).1], Iff.rfl⟩

end Scalar

end ThingSet
