import ThingSet.Values

/-!
# Record types of two versions

A structure that one side encodes and the other decodes into a structure of its own. The fields of a structure are
record members, which have an id and a name, or plain fields, which the encoder and the decoder pass over. What is
neither an array nor a structure has a codec of its own.

* `SchemaType.encode`, `SchemaType.decode`: the overloads of a type.
* `Related`: what members of the two sides with the same id have in common.
* `Merged`: what the receiver has after it has decoded what the sender encoded.
-/

namespace ThingSet

open Interaction Prog

/-- The id and the name of a record member. -/
structure MemberKey where
  id : UInt16
  name : Bytes
  deriving DecidableEq, Repr

/-- Two fields are record members with the same id. -/
def SameId (p q : Option MemberKey) : Prop := ∃ a ∈ p, ∃ b ∈ q, a.id = b.id

instance (p q : Option MemberKey) : Decidable (SameId p q) :=
  inferInstanceAs (Decidable (∃ a ∈ p, ∃ b ∈ q, a.id = b.id))

/-- Which fields of a structure are record members. The id of a record member is unique. -/
structure MemberKeys (size : ℕ) where
  key : Fin size → Option MemberKey
  unique : ∀ i j, SameId (key i) (key j) → i = j

/-- The overloads of `encode` and `decode` for a type that is neither an array nor a structure. -/
structure LeafCodec where
  Value : Type
  encode : Value → Encoding Bool
  decode : Value → Decoding (Decoded Value)

/-! ## Structures -/

section Structure

variable {size : ℕ} (keys : MemberKeys size)

namespace MemberKeys

/-- The fields that are record members, in the order of their declaration. -/
def members : List (Fin size) := (List.finRange size).filter fun i => (keys.key i).isSome

/-- `propertyType::id`. -/
def id (i : Fin size) : ℕ := (keys.key i).elim 0 fun p => p.id.toNat

/-- `propertyType::name`. -/
def name (i : Fin size) : Bytes := (keys.key i).elim [] fun p => p.name

end MemberKeys

/-- `ThingSetEncoder::encode` of a structure. -/
def encodeStructure (value : Fin size → Encoding Bool) : Encoding Bool :=
  encodeFields keys.id keys.name value keys.members

variable {V : Fin size → Type} (member : (i : Fin size) → V i → Decoding (Decoded (V i)))

/-- The callback of `ThingSetDecoder::decode` of a structure. -/
def decodeField (r : (i : Fin size) → V i) (key : Key) : Decoding (Bool × ((i : Fin size) → V i)) :=
  decodeByKey member (fun k i => (keys.key i).any fun p => p.id.toNat = k)
    (fun n i => (keys.key i).any fun p => p.name = n) r key

/-- `ThingSetDecoder::decode` of a structure. -/
def decodeStructure (r : (i : Fin size) → V i) : Decoding (Bool × ((i : Fin size) → V i)) :=
  decodeMap (decodeField keys member) r

end Structure

/-! ## Types -/

/-- The types of values. The interface counts the elements of an array in 32 bits. -/
inductive SchemaType : Type 1
  | leaf (c : LeafCodec)
  | array (element : SchemaType) (size : ℕ) (fits : size < 2 ^ 32)
  | record (size : ℕ) (keys : MemberKeys size) (field : Fin size → SchemaType)

namespace SchemaType

/-- The values of a type: those of an array are memory from `value[0]` on. -/
@[reducible] def Value : SchemaType → Type
  | leaf c => c.Value
  | array element _ _ => ℕ → element.Value
  | record size _ field => (i : Fin size) → (field i).Value

/-- `ThingSetEncoder::encode`. -/
def encode : (t : SchemaType) → t.Value → Encoding Bool
  | leaf c, v => c.encode v
  | array element size _, f => encodeArray (fun i => element.encode (f i)) size
  | record _ keys field, r => encodeStructure keys fun i => (field i).encode (r i)

/-- `ThingSetDecoder::decode`. -/
def decode : (t : SchemaType) → t.Value → Decoding (Decoded t.Value)
  | leaf c => c.decode
  | array element size _ => fun f => do
    let (ok, a) ← decodeArray element.decode size ⟨f, []⟩
    pure ⟨ok, some a.value⟩
  | record _ keys field => fun r => do
    let (ok, r) ← decodeStructure keys (fun i => (field i).decode) r
    pure ⟨ok, some r⟩

end SchemaType

open SchemaType

/-- A sender's type and a receiver's: members with the same id have the same leaf type, arrays of the same size, or
structures that are related in turn. -/
inductive Related : SchemaType → SchemaType → Prop
  | leaf (c : LeafCodec) : Related (leaf c) (leaf c)
  | array {a b : SchemaType} {size : ℕ} (fits : size < 2 ^ 32) : Related a b →
    Related (array a size fits) (array b size fits)
  | record {m n : ℕ} {keys : MemberKeys m} {keys' : MemberKeys n} {field : Fin m → SchemaType}
    {field' : Fin n → SchemaType} : (∀ i j, SameId (keys.key i) (keys'.key j) → Related (field i) (field' j)) →
    Related (record m keys field) (record n keys' field')

/-- `Merged a b v old new`: a receiver of type `b` has `new` in place of `old`, having got `v` of type `a`. A member
whose id the sender has is taken over, and every other field is as it was. -/
inductive Merged : (a b : SchemaType) → a.Value → b.Value → b.Value → Prop
  | leaf (c : LeafCodec) (v old : c.Value) : Merged (leaf c) (leaf c) v old v
  | array {a b : SchemaType} {size : ℕ} (fits : size < 2 ^ 32) {v : ℕ → a.Value} {old new : ℕ → b.Value} :
    (∀ i < size, Merged a b (v i) (old i) (new i)) → (∀ i, size ≤ i → new i = old i) →
    Merged (array a size fits) (array b size fits) v old new
  | record {m n : ℕ} {keys : MemberKeys m} {keys' : MemberKeys n} {field : Fin m → SchemaType}
    {field' : Fin n → SchemaType} {v : (i : Fin m) → (field i).Value} {old new : (j : Fin n) → (field' j).Value} :
    (∀ i j, SameId (keys.key i) (keys'.key j) → Merged (field i) (field' j) (v i) (old j) (new j)) →
    (∀ j, (∀ i, ¬ SameId (keys.key i) (keys'.key j)) → new j = old j) →
    Merged (record m keys field) (record n keys' field') v old new

end ThingSet
