import Mathlib.Data.List.FinRange
import ThingSet.Encoder

/-!
# Types of values

The overloads of `encode` and `decode` for the types that values are built from: integers, booleans, strings,
arrays and records. A record is a structure whose members are record members; a field of it that is none is
not encoded or decoded, so it is not modelled.

* `ValueType.encode`, `ValueType.decode`: the overload of a type.
* `ValueType.Same`: two values in memory are equal, the elements of an array within its size.
-/

namespace ThingSet

open Interaction Prog

/-! ## Records -/

section Record

variable {size : ℕ} (id : Fin size → ℕ) (name : Fin size → Bytes)

/-- What `ThingSetEncoder::encode` of a structure does for a member. Its results are not tested. -/
def encodeMember (i : Fin size) (value : Encoding Bool) : Encoding Unit := do
  let keysAsIds ← encode .encodeKeysAsIds
  let _ ← if keysAsIds then encode (.uint .w32 (id i)) else encode (.string (name i))
  let _ ← encode .keyValuePairSeparator
  let _ ← value
  let _ ← encode .listSeparator

/-- `for_each_element`. -/
def encodeMembers (value : Fin size → Encoding Bool) : List (Fin size) → Encoding Unit
  | [] => pure ()
  | i :: is => do
    encodeMember id name i (value i)
    encodeMembers value is

/-- `ThingSetEncoder::encode` of a structure with these record members. -/
def encodeFields (value : Fin size → Encoding Bool) (members : List (Fin size)) : Encoding Bool := do
  let started ← encode (.mapStart (some members.length))
  if !started then return false
  encodeMembers id name value members
  encode (.mapEnd (some members.length))

/-- `ThingSetEncoder::encode` of a structure, where all fields are record members. -/
def encodeRecord (value : Fin size → Encoding Bool) : Encoding Bool :=
  encodeFields id name value (List.finRange size)

theorem encodeRecord_eq (value : Fin size → Encoding Bool) : encodeRecord id name value = (do
    let started ← encode (.mapStart (some size))
    if !started then return false
    encodeMembers id name value (List.finRange size)
    encode (.mapEnd (some size))) := by
  rw [encodeRecord, encodeFields, List.length_finRange]

variable {V : Fin size → Type} (member : (i : Fin size) → V i → Decoding (Decoded (V i)))

/-- `switchDecode`: the first member with the key is decoded. It returns whether there is one: what the decode of the
member returns goes to `ret`, which is not read. -/
def switchDecode (isKey : Fin size → Bool) (r : (i : Fin size) → V i) :
    Decoding (Bool × ((i : Fin size) → V i)) :=
  match (List.finRange size).find? isKey with
  | none => pure (false, r)
  | some i => do
    let d ← member i (r i)
    pure (true, Function.update r i (d.value (r i)))

/-- The callback of `ThingSetDecoder::decode` of a structure, where `hasId k i` and `hasName n i` say that the field
`i` is a record member with this key. -/
def decodeByKey (hasId : ℕ → Fin size → Bool) (hasName : Bytes → Fin size → Bool) (r : (i : Fin size) → V i)
    (key : Key) : Decoding (Bool × ((i : Fin size) → V i)) := do
  match key.id, key.name with
  | some k, _ =>
    let (found, r) ← switchDecode member (hasId k) r
    if found then pure (true, r)
    else
      let skipped ← decode .skip
      pure (skipped, r)
  | none, some n =>
    let (found, r) ← switchDecode member (hasName n) r
    if found then pure (true, r)
    else
      let skipped ← decode .skip
      pure (skipped, r)
  | none, none => pure (false, r)

/-- The callback, where all fields are record members. -/
def decodeMember (r : (i : Fin size) → V i) (key : Key) : Decoding (Bool × ((i : Fin size) → V i)) :=
  decodeByKey member (fun k i => id i = k) (fun n i => name i = n) r key

/-- `ThingSetDecoder::decode` of a structure, where all fields are record members. -/
def decodeRecord (r : (i : Fin size) → V i) : Decoding (Bool × ((i : Fin size) → V i)) :=
  decodeMap (decodeMember id name member) r

end Record

/-! ## Types -/

/-- The types: `array` is `std::array`, `record` a structure of record members with their ids, names and
types. -/
inductive ValueType
  | uint (w : IntWidth)
  | int (w : IntWidth)
  | bool
  | string
  | array (element : ValueType) (size : ℕ)
  | record (size : ℕ) (id : Fin size → ℕ) (name : Fin size → Bytes) (member : Fin size → ValueType)

namespace ValueType

/-- The values of a type: those of an array are memory from `value[0]` on. -/
@[reducible] def Value : ValueType → Type
  | uint _ => ℕ
  | int _ => ℤ
  | bool => Bool
  | string => Bytes
  | array element _ => ℕ → element.Value
  | record size _ _ member => (i : Fin size) → (member i).Value

/-- `ThingSetEncoder::encode`. -/
def encode : (t : ValueType) → t.Value → Encoding Bool
  | uint w, n => ThingSet.encode (.uint w n)
  | int w, i => ThingSet.encode (.int w i)
  | bool, b => ThingSet.encode (.bool b)
  | string, s => ThingSet.encode (.string s)
  | array element size, f => encodeArray (fun i => element.encode (f i)) size
  | record _ id name member, r => encodeRecord id name fun i => (member i).encode (r i)

/-- `ThingSetDecoder::decode`. -/
def decode : (t : ValueType) → t.Value → Decoding (Decoded t.Value)
  | uint w => decodeScalar (.uint w) rfl
  | int w => decodeScalar (.int w) rfl
  | bool => decodeScalar .bool rfl
  | string => decodeScalar .string rfl
  | array element size => fun f => do
    let (ok, a) ← decodeArray element.decode size ⟨f, []⟩
    pure ⟨ok, some a.value⟩
  | record _ id name member => fun r => do
    let (ok, r) ← decodeRecord id name (fun i => (member i).decode) r
    pure ⟨ok, some r⟩

/-- Two values are equal. -/
def Same : (t : ValueType) → t.Value → t.Value → Prop
  | uint _, m, n => m = n
  | int _, i, j => i = j
  | bool, b, c => b = c
  | string, s, s' => s = s'
  | array element size, f, g => ∀ i < size, element.Same (f i) (g i)
  | record _ _ _ member, r, r' => ∀ i, (member i).Same (r i) (r' i)

theorem Same.refl : ∀ (t : ValueType) (v : t.Value), t.Same v v
  | uint _, _ => rfl
  | int _, _ => rfl
  | bool, _ => rfl
  | string, _ => rfl
  | array element _, f => fun i _ => Same.refl element (f i)
  | record _ _ _ member, r => fun i => Same.refl (member i) (r i)

end ValueType

end ThingSet
