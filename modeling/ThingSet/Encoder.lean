import ThingSet.Decoder

/-!
# The encoder interface

`ThingSetEncoder` is an abstract class like the decoder: the binary and the text encoder implement
its virtual functions (`EncodeOp`), and what it defines itself are programs over them. A function
that is overloaded for a value and a pointer to it is one operation; the start and the end of a
container come with a count or without.
-/

namespace ThingSet

open Interaction Prog

/-- The virtual functions of `ThingSetEncoder`. -/
inductive EncodeOp
  | string (value : Bytes)
  | float (value : UInt32)
  | double (value : UInt64)
  | bool (value : Bool)
  | uint (w : IntWidth) (value : ℕ)
  | int (w : IntWidth) (value : ℤ)
  | null
  | preamble
  | listStart (count : Option ℕ)
  | listEnd (count : Option ℕ)
  | mapStart (count : Option ℕ)
  | mapEnd (count : Option ℕ)
  | bytes (buffer : Bytes)
  | listSeparator
  | keyValuePairSeparator
  | encodeKeysAsIds
  | renderGroupAsOutline
  | renderedListLength (size : ℕ)
  | truncationMarker
  deriving DecidableEq, Repr

/-- What a virtual function returns. -/
@[reducible] def EncodeOp.Result : EncodeOp → Type
  | .renderedListLength _ => ℕ
  | _ => Bool

/-- The interface of `ThingSetEncoder`. -/
@[reducible] def encoder : Interface := ⟨EncodeOp, EncodeOp.Result⟩

/-- Code written against `ThingSetEncoder`. -/
abbrev Encoding := Prog encoder

/-- A call of a virtual function. -/
def encode (o : EncodeOp) : Encoding o.Result := @Prog.op encoder o

/-- A derived class of `ThingSetEncoder` with the state `τ`. -/
abbrev Encoder (τ : Type) := Handler encoder τ

/-- `a && b && ...`. -/
def encodeAll : List (Encoding Bool) → Encoding Bool
  | [] => pure true
  | p :: ps => do
    let ok ← p
    if ok then encodeAll ps else pure false

/-- Each of them, whatever it returns. -/
def encodeEach : List (Encoding Bool) → Encoding Unit
  | [] => pure ()
  | p :: ps => do
    let _ ← p
    encodeEach ps

/-- `ThingSetEncoder::encode(std::pair<K, V>)`. -/
def encodePair (first second : Encoding Bool) : Encoding Bool :=
  encodeAll [first, encode .keyValuePairSeparator, second, encode .listSeparator]

/-- `ThingSetEncoder::encode(std::list<T>)`. -/
def encodeStdList (items : List (Encoding Bool)) : Encoding Bool :=
  encodeAll (encode (.listStart (some items.length)) ::
    (items ++ [encode (.listEnd (some items.length))]))

/-- `ThingSetEncoder::encodeList(TArgs... args)`. -/
def encodeList (args : List (Encoding Bool)) : Encoding Bool :=
  encodeAll [encode (.listStart (some args.length)),
    encodeAll (args.map fun arg => encodeAll [arg, encode .listSeparator]),
    encode (.listEnd (some args.length))]

/-- The loop of `ThingSetEncoder::encode(const T *value, size_t size)`: `result &= a && b`, and
every element is encoded, also after one has failed. -/
def encodeElements : List (Encoding Bool) → Bool → Encoding Bool
  | [], result => pure result
  | p :: ps, result => do
    let ok ← encodeAll [p, encode .listSeparator]
    encodeElements ps (result && ok)

/-- `ThingSetEncoder::encode(const T *value, size_t size)`. -/
def encodeArray (element : ℕ → Encoding Bool) (size : ℕ) : Encoding Bool := do
  let rendered ← encode (.renderedListLength size)
  let result ← encode (.listStart (some size))
  let result ← encodeElements ((List.range rendered).map element) result
  let result ←
    if rendered < size then do
      let ok ← encodeAll [encode .truncationMarker, encode .listSeparator]
      pure (result && ok)
    else pure result
  if result then encode (.listEnd (some size)) else pure false

end ThingSet
