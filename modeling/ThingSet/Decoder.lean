import ThingSet.CLibrary
import ThingSet.Foundations.Interaction

/-!
# The decoder interface

`ThingSetDecoder` is an abstract class: the binary and the text decoder implement its virtual
functions (`DecodeOp`), and the functions it defines itself are programs over them. Every value
decoder of the library, the record and array templates included, is such a program, and a
derived decoder is a handler for the interface.

* `decodeKey`, `decodeMap`: the keys of a map and the loop that hands them to a callback. The id
  and the name live outside the loop, as in the source, so a key that was decoded earlier is
  still there when the callback runs.
* `decodeList`: the loop that hands the elements of a list to a callback.
* `decodeArray`: a list into an array in memory, with the indices it stores to.
* `decodeArguments`: a list into a tuple.
-/

namespace ThingSet

open Interaction Prog

/-- `ThingSetEncodedNodeType`. -/
inductive EncodedNodeType
  | unknown
  | primitive
  | string
  | list
  | map
  deriving DecidableEq, Repr

/-- The widths of the integer types that a decoder reads. -/
inductive IntWidth
  | w8
  | w16
  | w32
  | w64
  deriving DecidableEq, Repr

/-- The number of bits of an integer type. -/
def IntWidth.bits : IntWidth → ℕ
  | .w8 => 8
  | .w16 => 16
  | .w32 => 32
  | .w64 => 64

/-- The virtual functions of `ThingSetDecoder`. `decode(char *value, size_t size)` is `chars
size`, `decode(uint8_t *)` is `uint .w8`, and so on. -/
inductive DecodeOp
  | string
  | chars (size : ℕ)
  | float
  | double
  | bool
  | uint (w : IntWidth)
  | int (w : IntWidth)
  | null
  | listStart
  | listEnd
  | bytes (capacity : ℕ)
  | peekType
  | skip
  | mapStart
  | mapEnd
  | isInMap
  | isInList
  | ensureListSize (size : ℕ)
  deriving DecidableEq, Repr

/-- What a virtual function returns: the value behind the output parameter when the call returns
true, or the plain boolean. Floats are bit patterns, `chars` the bytes that were stored from
`value[0]` on. -/
@[reducible] def DecodeOp.Result : DecodeOp → Type
  | .string => Option Bytes
  | .chars _ => Option Bytes
  | .float => Option UInt32
  | .double => Option UInt64
  | .bool => Option Bool
  | .uint _ => Option ℕ
  | .int _ => Option ℤ
  | .null => Bool
  | .listStart => Bool
  | .listEnd => Bool
  | .bytes _ => Option Bytes
  | .peekType => EncodedNodeType
  | .skip => Bool
  | .mapStart => Bool
  | .mapEnd => Bool
  | .isInMap => Bool
  | .isInList => Bool
  | .ensureListSize _ => Option ℕ

/-- The interface of `ThingSetDecoder`. -/
@[reducible] def decoder : Interface := ⟨DecodeOp, DecodeOp.Result⟩

/-- Code written against `ThingSetDecoder`. -/
abbrev Decoding := Prog decoder

/-- A call of a virtual function. -/
def decode (o : DecodeOp) : Decoding o.Result := @Prog.op decoder o

/-- A derived class of `ThingSetDecoder` with the state `σ`. -/
abbrev Decoder (σ : Type) := Handler decoder σ

/-! ## Maps -/

/-- The variables `id` and `name` of `decodeMap`. -/
structure Key where
  id : Option ℕ := none
  name : Option Bytes := none
  deriving DecidableEq, Repr

/-- `ThingSetDecoder::decodeKey`: it sets the id or the name and leaves the other as it was. -/
def decodeKey (key : Key) : Decoding (Bool × Key) := do
  match ← decode (.uint .w32) with
  | some i => pure (true, { key with id := some i })
  | none =>
    match ← decode .string with
    | some n => pure (true, { key with name := some n })
    | none => pure (false, key)

section Map

variable {γ : Type} (callback : γ → Key → Decoding (Bool × γ))

/-- One round of the loop of `decodeMap`, on the key variables and what the callback captures. -/
def decodeMapRound (c : Key × γ) : Decoding ((Key × γ) ⊕ (Bool × γ)) := do
  let (found, key) ← decodeKey c.1
  if found then
    let (ok, env) ← callback c.2 key
    if ok then pure (.inl (key, env)) else pure (.inr (false, env))
  else
    let ended ← decode .mapEnd
    pure (.inr (ended, c.2))

/-- The loop of `decodeMap`. Every round that goes on consumes input, so it has fewer rounds than
there are addresses. -/
def decodeMapLoop (bound : ℕ) (key : Key) (c : γ) : Decoding (Bool × γ) :=
  repeatUntil (fun c : Key × γ => (false, c.2)) (decodeMapRound callback) bound (key, c)

/-- `ThingSetDecoder::decodeMap` with a callback on the id or name of each key. -/
def decodeMap (c : γ) : Decoding (Bool × γ) := do
  let started ← decode .mapStart
  if started then decodeMapLoop callback sizeMax {} c else pure (false, c)

/-- What the callback preserves, `decodeMap` preserves. -/
theorem always_decodeMap {P : γ → Prop} (hP : ∀ c key, P c → Always (fun r => P r.2) (callback c key))
    {c : γ} (hc : P c) : Always (fun r => P r.2) (decodeMap callback c) := by
  refine always_bind_of_forall fun started => ?_
  cases started with
  | false => exact hc
  | true =>
    refine always_repeatUntil (P := fun c : Key × γ => P c.2)
      (Q := fun r : Bool × γ => P r.2) (fun _ h => h) (fun c hc => ?_) sizeMax ({}, c) hc
    refine always_bind_of_forall fun ⟨found, key⟩ => ?_
    cases found with
    | false => exact always_bind_of_forall fun _ => hc
    | true =>
      refine (hP c.2 key hc).bind fun ⟨ok, env⟩ henv => ?_
      cases ok <;> exact henv

end Map

/-! ## Rounds of the loop -/

section Rounds

variable {σ : Type} {h : Decoder σ} {key : Key} {d d₁ : σ} {m : ℕ}

/-- The key variables after a round that decoded `k`. -/
def Key.merge (key k : Key) : Key := ⟨k.id.or key.id, k.name.or key.name⟩

/-- A key is decoded in the same way whatever the key variables hold. -/
theorem run_decodeKey (h : Decoder σ) (key : Key) (d : σ) :
    run h (decodeKey key) d =
      (((run h (decodeKey {}) d).1.1, key.merge (run h (decodeKey {}) d).1.2),
        (run h (decodeKey {}) d).2) := by
  simp only [decodeKey, run_bind]
  rcases (run h (decode (.uint .w32)) d).1 with _ | i
  · simp only [run_bind]
    rcases (run h (decode .string) (run h (decode (.uint .w32)) d).2).1 with _ | n <;>
      simp [Key.merge]
  · simp [Key.merge]

/-- A key that is decoded has an id or a name. -/
theorem always_decodeKey :
    Always (fun r : Bool × Key => r.1 = true → r.2.id.isSome ∨ r.2.name.isSome)
      (decodeKey {}) := by
  refine always_bind_of_forall fun id => ?_
  cases id with
  | some i => exact fun _ => .inl rfl
  | none =>
    refine always_bind_of_forall fun name => ?_
    cases name with
    | some n => exact fun _ => .inr rfl
    | none => simp

theorem isSome_merge {k : Key}
    (hk : run h (decodeKey {}) d = ((true, k), d₁)) :
    (key.merge k).id.isSome ∨ (key.merge k).name.isSome := by
  have hsome := always_decodeKey.run h d
  rw [hk] at hsome
  rcases hsome rfl with hid | hname
  · exact .inl (by simp [Key.merge, hid])
  · exact .inr (by simp [Key.merge, hname])

/-- The loop at a key that decodes. -/
theorem run_decodeMapLoop_of_key {γ : Type} (callback : γ → Key → Decoding (Bool × γ)) {k : Key}
    (hk : run h (decodeKey {}) d = ((true, k), d₁)) (c : γ) :
    run h (decodeMapLoop callback (m + 1) key c) d =
      if (run h (callback c (key.merge k)) d₁).1.1 then
        run h (decodeMapLoop callback m (key.merge k) (run h (callback c (key.merge k)) d₁).1.2)
          (run h (callback c (key.merge k)) d₁).2
      else ((false, (run h (callback c (key.merge k)) d₁).1.2),
        (run h (callback c (key.merge k)) d₁).2) := by
  rw [decodeMapLoop, run_repeatUntil_succ]
  simp only [decodeMapRound, run_bind, run_decodeKey h key, hk, if_true]
  rcases run h (callback c (key.merge k)) d₁ with ⟨⟨ok, c'⟩, d₂⟩
  cases ok <;> rfl

/-- The loop at the end of the keys. -/
theorem run_decodeMapLoop_of_end {γ : Type} (callback : γ → Key → Decoding (Bool × γ))
    (hk : (run h (decodeKey {}) d).1.1 = false) (c : γ) :
    (run h (decodeMapLoop callback (m + 1) key c) d).1 =
      ((h .mapEnd (run h (decodeKey {}) d).2).1, c) := by
  rw [decodeMapLoop, run_repeatUntil_succ]
  simp only [decodeMapRound, run_bind, run_decodeKey h key, hk, Bool.false_eq_true, if_false]
  rfl

end Rounds

/-! ## Lists -/

section List

variable {γ : Type} (callback : ℕ → γ → Decoding (Bool × γ))

/-- One round of the loop of `decodeList`. -/
def decodeListRound (c : ℕ × γ) : Decoding ((ℕ × γ) ⊕ (Bool × γ)) := do
  let more ← decode .isInList
  if more then
    let (ok, env) ← callback c.1 c.2
    if ok then pure (.inl (c.1 + 1, env)) else pure (.inr (false, env))
  else
    let ended ← decode .listEnd
    pure (.inr (ended, c.2))

/-- `ThingSetDecoder::decodeList` with a callback on the index of each element. The number of its
rounds is bounded like that of `decodeMap`. -/
def decodeList (c : γ) : Decoding (Bool × γ) := do
  let started ← decode .listStart
  if started then
    repeatUntil (fun c : ℕ × γ => (false, c.2)) (decodeListRound callback) sizeMax (0, c)
  else pure (false, c)

/-- What the callback preserves, `decodeList` preserves. -/
theorem always_decodeList {P : γ → Prop} (hP : ∀ i c, P c → Always (fun r => P r.2) (callback i c))
    {c : γ} (hc : P c) : Always (fun r => P r.2) (decodeList callback c) := by
  refine always_bind_of_forall fun started => ?_
  cases started with
  | false => exact hc
  | true =>
    refine always_repeatUntil (P := fun c : ℕ × γ => P c.2)
      (Q := fun r : Bool × γ => P r.2) (fun _ h => h) (fun c hc => ?_) sizeMax (0, c) hc
    refine always_bind_of_forall fun more => ?_
    cases more with
    | false => exact always_bind_of_forall fun _ => hc
    | true =>
      refine (hP c.1 c.2 hc).bind fun ⟨ok, env⟩ henv => ?_
      cases ok <;> exact henv

end List

/-! ## Arrays -/

/-- What `decode(T *)` does: whether it returns true, and what it stores through the pointer, if
it stores anything. -/
structure Decoded (T : Type) where
  ok : Bool
  stored : Option T := none

/-- What is behind the pointer after a decode. -/
def Decoded.value {T : Type} (d : Decoded T) (old : T) : T := d.stored.getD old

section Array

variable {T : Type}

/-- Decode a scalar: it is stored when the call succeeds. -/
def decodeScalar (op : DecodeOp) (h : op.Result = Option T) : T → Decoding (Decoded T) :=
  fun _ => do
    let r ← decode op
    let v : Option T := h ▸ r
    pure ⟨v.isSome, v⟩

/-- The memory from `value[0]` on, and the indices that were stored to. -/
structure ArrayMemory (T : Type) where
  value : ℕ → T
  written : List ℕ := []

/-- Store what a decode into `value[i]` stored. -/
def ArrayMemory.store (a : ArrayMemory T) (i : ℕ) : Option T → ArrayMemory T
  | none => a
  | some t => ⟨fun j => if j = i then t else a.value j, i :: a.written⟩

theorem store_value (a : ArrayMemory T) (i : ℕ) (d : Decoded T) (j : ℕ) :
    (a.store i d.stored).value j = if j = i then d.value (a.value i) else a.value j := by
  unfold ArrayMemory.store Decoded.value
  cases d.stored with
  | none =>
    dsimp only
    split_ifs with h
    · rw [h]
      rfl
    · rfl
  | some t => rfl

/-- `n` rounds of the loop `for (size_t i = 0; i < elementCount; i++)` from round `i`, and whether
they all decoded. -/
def decodeElements (elem : T → Decoding (Decoded T)) :
    ℕ → ℕ → ArrayMemory T → Decoding (Bool × ArrayMemory T)
  | 0, _, a => pure (true, a)
  | n + 1, i, a => do
    let d ← elem (a.value i)
    if d.ok then decodeElements elem n (i + 1) (a.store i d.stored)
    else pure (false, a.store i d.stored)

/-- `ThingSetDecoder::decode(T *value, size_t size)`. -/
def decodeArray (elem : T → Decoding (Decoded T)) (size : ℕ) (a : ArrayMemory T) :
    Decoding (Bool × ArrayMemory T) := do
  let started ← decode .listStart
  if !started then return (false, a)
  match ← decode (.ensureListSize size) with
  | none => pure (false, a)
  | some elementCount => do
    let (decoded, a) ← decodeElements elem elementCount 0 a
    if !decoded then return (false, a)
    let ended ← decode .listEnd
    pure (ended, a)

end Array

/-! ## Vectors -/

/-- `ThingSetDecoder::decode(std::vector<T> *)`: every element is decoded into a new value, which is put behind
what the vector has. -/
def decodeVector {T : Type} (elem : T → Decoding (Decoded T)) (fresh : T) (list : List T) :
    Decoding (Bool × List T) :=
  decodeList (fun _ list => do
    let d ← elem fresh
    pure (d.ok, if d.ok then list ++ [d.value fresh] else list)) list

/-! ## Tuples -/

/-- The fold of `decodeList(std::tuple<Args...> &)`: every argument is decoded, also after one has
failed. -/
def decodeTuple {V : Type} : List (V → Decoding (Decoded V)) → List V → Decoding (Bool × List V)
  | param :: params, v :: vs => do
    let d ← param v
    let (ok, rest) ← decodeTuple params vs
    pure (d.ok && ok, d.value v :: rest)
  | _, vs => pure (true, vs)

/-- `ThingSetDecoder::decodeList(std::tuple<Args...> &)`. -/
def decodeArguments {V : Type} (params : List (V → Decoding (Decoded V))) (arguments : List V) :
    Decoding (Bool × List V) := do
  let started ← decode .listStart
  let (ok, arguments) ← if started then decodeTuple params arguments else pure (false, arguments)
  let ended ← decode .listEnd
  pure (ok && ended, arguments)

end ThingSet
