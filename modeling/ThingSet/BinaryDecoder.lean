import ThingSet.Zcbor.Reference

/-!
# The binary decoder

`ThingSetBinaryDecoder` implements the decoder interface with zcbor calls (`binaryDecoder`). The
narrow integers go through the 32-bit ones, and `ensureListSize` compares the count of the list
that was just entered with the size of the destination.

The comparison is in one direction only. `arrayWrites_lt_iff` says when a decode into an array of
`size` elements stores within the array: unless an element of the list at or past index `size`
stores something, all before it having decoded (`Overflows`).
-/

namespace ThingSet

open Interaction Prog

/-- A `ThingSetBinaryDecoder`: the zcbor library, the option `allowUndersizedArrays` and
`getIsForwardOnly()`. -/
structure BinaryDecoderOptions where
  zcbor : ZcborDecode
  allowUndersizedArrays : Bool := false
  isForwardOnly : Bool := false

namespace BinaryDecoder

variable (o : BinaryDecoderOptions)

/-- `decode(char *value, size_t size)`. -/
def chars (size : ℕ) (s : ZcborState) : Option Bytes × ZcborState :=
  match o.zcbor.tstrDecode s with
  | (some z, s) => (if z.length ≤ size then some (strncpy z z.length ++ [0]) else none, s)
  | (none, s) => (none, s)

/-- `decode(uint8_t *)` and `decode(uint16_t *)`: `i < UINT8_MAX`, `i < UINT16_MAX`. -/
def narrowUInt (max : ℕ) (s : ZcborState) : Option ℕ × ZcborState :=
  match o.zcbor.uint32Decode s with
  | (some i, s) => (if i < max then some i else none, s)
  | (none, s) => (none, s)

/-- `decode(int8_t *)` and `decode(int16_t *)`: `i < INT8_MAX`, `i < INT16_MAX`, and the
assignment narrows. -/
def narrowInt (bits : ℕ) (max : ℤ) (s : ZcborState) : Option ℤ × ZcborState :=
  match o.zcbor.int32Decode s with
  | (some i, s) => (if i < max then some (i.bmod (2 ^ bits)) else none, s)
  | (none, s) => (none, s)

/-- `decode(uintN_t *)`. -/
def uint : IntWidth → ZcborState → Option ℕ × ZcborState
  | .w8 => narrowUInt o 255
  | .w16 => narrowUInt o 65535
  | .w32 => o.zcbor.uint32Decode
  | .w64 => o.zcbor.uint64Decode

/-- `decode(intN_t *)`. -/
def int : IntWidth → ZcborState → Option ℤ × ZcborState
  | .w8 => narrowInt o 8 127
  | .w16 => narrowInt o 16 32767
  | .w32 => o.zcbor.int32Decode
  | .w64 => o.zcbor.int64Decode

/-- `decodeBytes`. -/
def bytes (capacity : ℕ) (s : ZcborState) : Option Bytes × ZcborState :=
  match o.zcbor.bstrDecode s with
  | (some z, s) => (if z.length ≤ capacity then some z else none, s)
  | (none, s) => (none, s)

/-- `peekType`: the major type of the byte at the payload, wherever the payload ends. -/
def peekType (s : ZcborState) : EncodedNodeType :=
  match (s.memory.getD s.payload 0).toNat / 32 with
  | 4 => .list
  | 5 => .map
  | 0 | 1 | 7 => .primitive
  | 2 | 3 => .string
  | _ => .unknown

/-- `ensureListSize`. On failure the state is wound back to before the list, by hand. -/
def ensureListSize (size : ℕ) (s : ZcborState) : Option ℕ × ZcborState :=
  let elementCount := s.elemCount
  if elementCount < size ∧ !o.allowUndersizedArrays then
    if !o.isForwardOnly then
      let s := o.zcbor.restoreBackup s
      (none, { s with payload := s.payloadBak, elemCount := s.elemCount + 1 })
    else (none, s)
  else (some elementCount, s)

end BinaryDecoder

open BinaryDecoder in
/-- `ThingSetBinaryDecoder`. -/
def binaryDecoder (o : BinaryDecoderOptions) : Decoder ZcborState
  | .string, s => o.zcbor.tstrDecode s
  | .chars size, s => chars o size s
  | .float, s => o.zcbor.float16_32Decode s
  | .double, s => o.zcbor.float64Decode s
  | .bool, s => o.zcbor.boolDecode s
  | .uint w, s => uint o w s
  | .int w, s => int o w s
  | .null, s => o.zcbor.nilExpect s
  | .listStart, s => o.zcbor.listStartDecode s
  | .listEnd, s => o.zcbor.listEndDecode s
  | .bytes capacity, s => bytes o capacity s
  | .peekType, s => (peekType s, s)
  | .skip, s => o.zcbor.anySkip s
  | .mapStart, s => o.zcbor.mapStartDecode s
  | .mapEnd, s => o.zcbor.mapEndDecode s
  | .isInMap, s => (decide (s.elemCount ≠ 0), s)
  | .isInList, s => (decide (s.elemCount ≠ 0), s)
  | .ensureListSize size, s => ensureListSize o size s

/-! ## Stores of an array decode -/

section Array

variable {T σ : Type} (elem : T → Decoding (Decoded T))

theorem mem_written_store (a : ArrayMemory T) (i j : ℕ) (t : Option T) :
    j ∈ (a.store i t).written ↔ j ∈ a.written ∨ j = i ∧ t.isSome := by
  cases t with
  | none => simp [ArrayMemory.store]
  | some t => simp [ArrayMemory.store, or_comm]

theorem run_decodeElements_succ (h : Decoder σ) (n i : ℕ) (a : ArrayMemory T) (s : σ) :
    run h (decodeElements elem (n + 1) i a) s =
      let d := run h (elem (a.value i)) s
      if d.1.ok then run h (decodeElements elem n (i + 1) (a.store i d.1.stored)) d.2
      else ((false, a.store i d.1.stored), d.2) := by
  rw [decodeElements, run_bind]
  dsimp only
  split <;> rfl

/-- Element `k` of the loop from `i` on stores something: the `k` before it decode and its own
decode stores. -/
def StoresAt (h : Decoder σ) (i : ℕ) (a : ArrayMemory T) (s : σ) (k : ℕ) : Prop :=
  let r := run h (decodeElements elem k i a) s
  r.1.1 = true ∧ (run h (elem (r.1.2.value (i + k))) r.2).1.stored.isSome

theorem storesAt_succ (h : Decoder σ) (i : ℕ) (a : ArrayMemory T) (s : σ) (k : ℕ) :
    StoresAt elem h i a s (k + 1) ↔
      (run h (elem (a.value i)) s).1.ok ∧
        StoresAt elem h (i + 1) (a.store i (run h (elem (a.value i)) s).1.stored)
          (run h (elem (a.value i)) s).2 k := by
  simp only [StoresAt, run_decodeElements_succ, show i + (k + 1) = i + 1 + k by omega]
  by_cases hok : (run h (elem (a.value i)) s).1.ok <;> simp [hok]

/-- The indices that the loop stores to. -/
theorem mem_written_decodeElements (h : Decoder σ) (n i : ℕ) (a : ArrayMemory T) (s : σ) (j : ℕ) :
    j ∈ (run h (decodeElements elem n i a) s).1.2.written ↔
      j ∈ a.written ∨ ∃ k < n, j = i + k ∧ StoresAt elem h i a s k := by
  induction n generalizing i a s with
  | zero => simp [decodeElements]
  | succ n ih =>
    have hzero : StoresAt elem h i a s 0 ↔ (run h (elem (a.value i)) s).1.stored.isSome := by
      simp [StoresAt, decodeElements]
    -- element 0 is the one decoded here, element `k + 1` is element `k` of the rest
    have hsplit : (∃ k < n + 1, j = i + k ∧ StoresAt elem h i a s k) ↔
        (j = i ∧ StoresAt elem h i a s 0) ∨
          ∃ k < n, j = i + 1 + k ∧ StoresAt elem h i a s (k + 1) := by
      constructor
      · rintro ⟨_ | k, hk, rfl, hst⟩
        · exact .inl ⟨rfl, hst⟩
        · exact .inr ⟨k, by omega, by omega, hst⟩
      · rintro (⟨rfl, hst⟩ | ⟨k, hk, rfl, hst⟩)
        · exact ⟨0, by omega, rfl, hst⟩
        · exact ⟨k + 1, by omega, by omega, hst⟩
    rw [hsplit, hzero, run_decodeElements_succ]
    simp only [storesAt_succ]
    by_cases hok : (run h (elem (a.value i)) s).1.ok
    · simp only [hok, if_true, true_and, ih, mem_written_store]
      exact or_assoc
    · simp [hok, mem_written_store]

/-- The indices that `decode(T *value, size_t size)` stores to. -/
def arrayWrites (o : BinaryDecoderOptions) (size : ℕ) (value : ℕ → T) (s : ZcborState) : List ℕ :=
  (run (binaryDecoder o) (decodeArray elem size ⟨value, []⟩) s).1.2.written

/-- The list at the payload is entered, it declares more than `size` elements, and one of those
at or past index `size` is reached, all before it having decoded, and stores something. -/
def Overflows (o : BinaryDecoderOptions) (size : ℕ) (value : ℕ → T) (s : ZcborState) : Prop :=
  (o.zcbor.listStartDecode s).1 = true ∧ ∃ count ∈ o.zcbor.listCount s, ∃ k < count, size ≤ k ∧
    StoresAt elem (binaryDecoder o) 0 ⟨value, []⟩ (o.zcbor.listStartDecode s).2 k

/-- What the loop of a successful start stores to. -/
theorem arrayWrites_of_start (o : BinaryDecoderOptions) (size : ℕ) (value : ℕ → T)
    {s s₁ : ZcborState} (hs : o.zcbor.listStartDecode s = (true, s₁)) (j : ℕ) :
    j ∈ arrayWrites elem o size value s ↔
      ¬ (s₁.elemCount < size ∧ o.allowUndersizedArrays = false) ∧
        j < s₁.elemCount ∧ StoresAt elem (binaryDecoder o) 0 ⟨value, []⟩ s₁ j := by
  have hstart : run (binaryDecoder o) (decode .listStart) s = (true, s₁) := hs
  have hsize : run (binaryDecoder o) (decode (.ensureListSize size)) s₁ =
    BinaryDecoder.ensureListSize o size s₁ := rfl
  rw [arrayWrites, decodeArray, run_bind, hstart]
  simp only [Bool.not_true, Bool.false_eq_true, if_false, run_bind, hsize]
  by_cases hlt : s₁.elemCount < size ∧ o.allowUndersizedArrays = false
  · have hnone : (BinaryDecoder.ensureListSize o size s₁).1 = none := by
      simp only [BinaryDecoder.ensureListSize, hlt, Bool.not_false, and_self, if_true]
      split <;> rfl
    simp [hnone, hlt]
  · have hsome : BinaryDecoder.ensureListSize o size s₁ = (some s₁.elemCount, s₁) := by
      simp only [BinaryDecoder.ensureListSize, Bool.not_eq_true', hlt, if_false]
    have hmem := mem_written_decodeElements elem (binaryDecoder o) s₁.elemCount 0 ⟨value, []⟩ s₁ j
    simp only [List.not_mem_nil, false_or, Nat.zero_add] at hmem
    rw [hsome]
    simp only [run_bind]
    trans j ∈ (run (binaryDecoder o) (decodeElements elem s₁.elemCount 0 ⟨value, []⟩) s₁).1.2.written
    · rcases run (binaryDecoder o) (decodeElements elem s₁.elemCount 0 ⟨value, []⟩) s₁
        with ⟨⟨_ | _, a⟩, s₂⟩ <;> simp
    · rw [hmem]
      constructor
      · rintro ⟨k, hk, rfl, hst⟩
        exact ⟨hlt, hk, hst⟩
      · rintro ⟨-, hk, hst⟩
        exact ⟨j, hk, rfl, hst⟩

theorem arrayWrites_of_not_start (o : BinaryDecoderOptions) (size : ℕ) (value : ℕ → T)
    {s : ZcborState} (hs : (o.zcbor.listStartDecode s).1 = false) :
    arrayWrites elem o size value s = [] := by
  have hstart : (run (binaryDecoder o) (decode .listStart) s).1 = false := hs
  simp [arrayWrites, decodeArray, hstart]

/-- **A decode into an array stores within the array exactly when the list does not overflow
it.** -/
theorem arrayWrites_lt_iff (o : BinaryDecoderOptions) (ho : o.zcbor.ListStartSetsCount) (size : ℕ)
    (value : ℕ → T) (s : ZcborState) :
    (∀ i ∈ arrayWrites elem o size value s, i < size) ↔ ¬ Overflows elem o size value s := by
  rcases hs : o.zcbor.listStartDecode s with ⟨_ | _, s₁⟩
  · simp [Overflows, arrayWrites_of_not_start, hs]
  · have hcount := ho s s₁ hs
    simp only [arrayWrites_of_start elem o size value hs, Overflows, hs, hcount,
      Option.mem_some_iff, true_and, exists_eq_left']
    constructor
    · rintro h ⟨k, hk, hsize, hst⟩
      have := h k ⟨by omega, hk, hst⟩
      omega
    · rintro h i ⟨-, hi, hst⟩
      by_contra hsize
      exact h ⟨i, hi, by omega, hst⟩

end Array

/-- `decode(uint8_t *)` as an element of an array. -/
def decodeUInt8 : ℕ → Decoding (Decoded ℕ) := decodeScalar (.uint .w8) rfl

/-- A list of three numbers, `83 01 02 03`. -/
def listOfThree : ZcborState := .new 8 [0x83, 0x01, 0x02, 0x03] 0 4 1

/-- A list of two numbers stays within an array of two. -/
theorem arrayWrites_listOfTwo :
    zcborReference.ListStartSetsCount ∧
      ∀ i ∈ arrayWrites decodeUInt8 ⟨zcborReference, false, false⟩ 2 (fun _ => 0)
        (.new 8 [0x82, 0x01, 0x02] 0 3 1), i < 2 :=
  ⟨zcborReference_listStartSetsCount,
    (arrayWrites_lt_iff decodeUInt8 _ zcborReference_listStartSetsCount 2 _ _).2 (by
      rintro ⟨-, count, hcount, k, hk, hsize, -⟩
      have htwo : zcborReference.listCount (.new 8 [0x82, 0x01, 0x02] 0 3 1) = some 2 := by decide
      obtain rfl : 2 = count := Option.some.inj (htwo.symm.trans hcount)
      omega)⟩

/-- A list of three numbers is stored past the end of an array of two, whether undersized arrays
are allowed or not. -/
theorem arrayWrites_listOfThree :
    (¬ ∀ i ∈ arrayWrites decodeUInt8 ⟨zcborReference, false, false⟩ 2 (fun _ => 0) listOfThree,
        i < 2) ∧
      ¬ ∀ i ∈ arrayWrites decodeUInt8 ⟨zcborReference, true, false⟩ 2 (fun _ => 0) listOfThree,
        i < 2 := by
  constructor <;> decide

end ThingSet
