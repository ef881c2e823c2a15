import ThingSet.Decoder
import ThingSet.Foundations.Cbor

/-!
# The zcbor decoder

The binary decoder is a thin layer over the zcbor library, whose state it also reads and patches
by hand. The state is zcbor's own structure (`ZcborState`); the library's functions are a
parameter of the model (`ZcborDecode`), with what the code relies on as named properties of it:

* `ListStartSetsCount`: entering a list sets `elem_count` to the count in its header;
* `ReadsBelowEnd`: no function looks at a byte at or past `payload_end`.
-/

namespace ThingSet

/-- What `zcbor_new_backup` saves when a list or map is entered. -/
structure ZcborBackup where
  payload : ℕ
  payloadBak : ℕ
  elemCount : ℕ
  indefinite : Bool
  deriving DecidableEq, Repr

/-- `zcbor_state_t`. Pointers are offsets into the memory that holds the message. -/
structure ZcborState where
  memory : Bytes
  payload : ℕ
  payloadEnd : ℕ
  payloadBak : ℕ
  elemCount : ℕ
  indefinite : Bool
  backups : List ZcborBackup
  depth : ℕ
  deriving DecidableEq, Repr

namespace ZcborState

/-- `zcbor_new_decode_state` on the `size` bytes from `start` on. -/
def new (depth : ℕ) (memory : Bytes) (start size elementCount : ℕ) : ZcborState :=
  ⟨memory, start, start + size, start, elementCount, false, [], depth⟩

/-- The bytes from `payload` to `payload_end`. -/
def remaining (s : ZcborState) : Bytes := (s.memory.take s.payloadEnd).drop s.payload

/-- Two states that differ at most in the memory at and past `payload_end`. -/
structure Agree (s t : ZcborState) : Prop where
  memory : s.memory.take s.payloadEnd = t.memory.take t.payloadEnd
  payload : s.payload = t.payload
  payloadEnd : s.payloadEnd = t.payloadEnd
  payloadBak : s.payloadBak = t.payloadBak
  elemCount : s.elemCount = t.elemCount
  indefinite : s.indefinite = t.indefinite
  backups : s.backups = t.backups
  depth : s.depth = t.depth

/-- A data item by itself. -/
def alone (bytes : Bytes) : ZcborState := new 8 bytes 0 bytes.length 1

/-- What an encoded message leaves to a decoder: these bytes, this number of elements in the
innermost container, which has a count, and this number of open containers. -/
structure Left (s : ZcborState) (rest : Bytes) (elements opened : ℕ) : Prop where
  remaining : s.remaining = rest
  elemCount : s.elemCount = elements
  indefinite : s.indefinite = false
  backups : s.backups.length = opened
  depth : s.depth = 8

/-- The item at the payload is an integer in its shortest form. -/
structure EncodesInt (s : ZcborState) (n : ℤ) : Prop where
  elemCount : s.elemCount ≠ 0
  wire : Cbor.IsWireInt n
  remaining : ∃ rest, s.remaining = Cbor.writeInt n ++ rest

theorem Agree.remaining {s t : ZcborState} (h : Agree s t) : s.remaining = t.remaining := by
  rw [ZcborState.remaining, ZcborState.remaining, h.memory, h.payload]

theorem left_new (pre bs tail : Bytes) (elements : ℕ) :
    (new 8 (pre ++ bs ++ tail) pre.length bs.length elements).Left bs elements 0 := by
  refine ⟨?_, rfl, rfl, rfl, rfl⟩
  simp only [ZcborState.remaining, ZcborState.new]
  rw [← List.length_append, List.take_left, List.drop_left]

end ZcborState

/-- The decoding functions of zcbor that the binary decoder calls. `indefiniteCount` is the
`elem_count` of a container whose header has no count. -/
structure ZcborDecode where
  indefiniteCount : ℕ
  tstrDecode : ZcborState → Option Bytes × ZcborState
  bstrDecode : ZcborState → Option Bytes × ZcborState
  float16_32Decode : ZcborState → Option UInt32 × ZcborState
  float64Decode : ZcborState → Option UInt64 × ZcborState
  boolDecode : ZcborState → Option Bool × ZcborState
  uint32Decode : ZcborState → Option ℕ × ZcborState
  uint64Decode : ZcborState → Option ℕ × ZcborState
  int32Decode : ZcborState → Option ℤ × ZcborState
  int64Decode : ZcborState → Option ℤ × ZcborState
  nilExpect : ZcborState → Bool × ZcborState
  listStartDecode : ZcborState → Bool × ZcborState
  listEndDecode : ZcborState → Bool × ZcborState
  mapStartDecode : ZcborState → Bool × ZcborState
  mapEndDecode : ZcborState → Bool × ZcborState
  anySkip : ZcborState → Bool × ZcborState
  /-- `zcbor_process_backup` with the flags `RESTORE` and `CONSUME`. -/
  restoreBackup : ZcborState → ZcborState

namespace ZcborDecode

/-- The count in the list header at the payload, if there is a list header. -/
def listCount (Z : ZcborDecode) (s : ZcborState) : Option ℕ :=
  match Cbor.readHead s.remaining with
  | some (⟨4, argument⟩, _) => some (argument.getD Z.indefiniteCount)
  | _ => none

/-- `zcbor_list_start_decode` sets `elem_count` to the count in the list header. -/
def ListStartSetsCount (Z : ZcborDecode) : Prop :=
  ∀ s s', Z.listStartDecode s = (true, s') → Z.listCount s = some s'.elemCount

/-- A call that gives equal results and states that agree, on states that agree. -/
def Respects {α : Type} (f : ZcborState → α × ZcborState) : Prop :=
  ∀ s t, ZcborState.Agree s t → (f s).1 = (f t).1 ∧ ZcborState.Agree (f s).2 (f t).2

/-- No function of zcbor looks at a byte at or past `payload_end`. -/
structure ReadsBelowEnd (Z : ZcborDecode) : Prop where
  tstrDecode : Respects Z.tstrDecode
  bstrDecode : Respects Z.bstrDecode
  float16_32Decode : Respects Z.float16_32Decode
  float64Decode : Respects Z.float64Decode
  boolDecode : Respects Z.boolDecode
  uint32Decode : Respects Z.uint32Decode
  uint64Decode : Respects Z.uint64Decode
  int32Decode : Respects Z.int32Decode
  int64Decode : Respects Z.int64Decode
  nilExpect : Respects Z.nilExpect
  listStartDecode : Respects Z.listStartDecode
  listEndDecode : Respects Z.listEndDecode
  mapStartDecode : Respects Z.mapStartDecode
  mapEndDecode : Respects Z.mapEndDecode
  anySkip : Respects Z.anySkip
  restoreBackup : Respects (fun s => ((), Z.restoreBackup s))

/-- What the decoding functions make of numbers and maps that are encoded canonically. -/
structure Lawful (Z : ZcborDecode) : Prop where
  uint32 : ∀ s n rest elements opened, n < 2 ^ 32 →
    s.Left (Cbor.writeHead 0 n ++ rest) (elements + 1) opened →
      ∃ s', Z.uint32Decode s = (some n, s') ∧ s'.Left rest elements opened
  /-- Where a container has ended there is no number to decode. -/
  uint32_end : ∀ s rest opened, s.Left rest 0 opened →
    ∃ s', Z.uint32Decode s = (none, s') ∧ s'.Left rest 0 opened
  /-- A number is no string. -/
  tstr : ∀ s n rest elements opened, n < 2 ^ 32 →
    s.Left (Cbor.writeHead 0 n ++ rest) (elements + 1) opened →
      ∃ s', Z.tstrDecode s = (none, s') ∧
        s'.Left (Cbor.writeHead 0 n ++ rest) (elements + 1) opened
  tstr_end : ∀ s rest opened, s.Left rest 0 opened →
    ∃ s', Z.tstrDecode s = (none, s') ∧ s'.Left rest 0 opened
  map : ∀ s n rest elements opened, n < 2 ^ 31 → opened < 6 →
    s.Left (Cbor.writeHead 5 n ++ rest) (elements + 1) opened →
      ∃ s', Z.mapStartDecode s = (true, s') ∧ s'.Left rest (2 * n) (opened + 1)
  map_end : ∀ s rest opened, s.Left rest 0 (opened + 1) → (Z.mapEndDecode s).1 = true

/-- Where an integer is encoded, the decoding functions for integers accept exactly the integers of their
type. -/
structure IntegerLaws (Z : ZcborDecode) : Prop where
  uint32 : ∀ s n, s.EncodesInt n →
    (Z.uint32Decode s).1 = if 0 ≤ n ∧ n < 2 ^ 32 then some n.toNat else none
  uint64 : ∀ s n, s.EncodesInt n →
    (Z.uint64Decode s).1 = if 0 ≤ n ∧ n < 2 ^ 64 then some n.toNat else none
  int32 : ∀ s n, s.EncodesInt n →
    (Z.int32Decode s).1 = if -2 ^ 31 ≤ n ∧ n < 2 ^ 31 then some n else none
  int64 : ∀ s n, s.EncodesInt n →
    (Z.int64Decode s).1 = if -2 ^ 63 ≤ n ∧ n < 2 ^ 63 then some n else none

/-- What the decoding functions make of strings that are encoded canonically, of short strings that are
cut off, and of nothing. -/
structure StringLaws (Z : ZcborDecode) : Prop where
  tstr : ∀ s bs rest elements opened, bs.length < 2 ^ 64 →
    s.Left (Cbor.writeHead 3 bs.length ++ (bs ++ rest)) (elements + 1) opened →
      ∃ s', Z.tstrDecode s = (some bs, s') ∧ s'.Left rest elements opened
  tstr_nothing : ∀ s, s.remaining = [] → Z.tstrDecode s = (none, s)
  tstr_short : ∀ s (header : UInt8) rest, s.remaining = header :: rest → header.toNat / 32 = 3 →
    header.toNat % 32 ≤ 23 → rest.length < header.toNat % 32 → Z.tstrDecode s = (none, s)
  uint32_tstr : ∀ s (header : UInt8) rest, s.remaining = header :: rest → header.toNat / 32 = 3 →
    header.toNat % 32 ≤ 23 → Z.uint32Decode s = (none, s)
  uint32_nothing : ∀ s, s.remaining = [] → Z.uint32Decode s = (none, s)

/-- A function that decodes the item at the payload: with no item to come it fails, and what it does with an item
it does with the item by itself. -/
structure DecodesItem {α : Type} (f : ZcborState → Option α × ZcborState) : Prop where
  end_none : ∀ s, s.elemCount = 0 → (f s).1 = none
  result : ∀ s, s.elemCount ≠ 0 → (f s).1 = (f (.alone s.remaining)).1
  next : ∀ s v, (f s).1 = some v → (f s).2.remaining = (f (.alone s.remaining)).2.remaining ∧
    (f s).2.elemCount + 1 = s.elemCount ∧ (f s).2.indefinite = s.indefinite ∧ (f s).2.backups = s.backups

/-- What the decoding functions make of scalars and of the list around them. -/
structure ListLaws (Z : ZcborDecode) : Prop where
  tstr : DecodesItem Z.tstrDecode
  float16_32 : DecodesItem Z.float16_32Decode
  float64 : DecodesItem Z.float64Decode
  bool : DecodesItem Z.boolDecode
  uint32 : DecodesItem Z.uint32Decode
  uint64 : DecodesItem Z.uint64Decode
  int32 : DecodesItem Z.int32Decode
  int64 : DecodesItem Z.int64Decode
  /-- A list is entered at its header, with the number of its elements to come. -/
  start : ∀ s argument rest, s.elemCount ≠ 0 → s.backups.length + 2 < s.depth →
    Cbor.readHead s.remaining = some (⟨4, argument⟩, rest) →
      (Z.listStartDecode s).1 = true ∧ (Z.listStartDecode s).2.remaining = rest ∧
        (Z.listStartDecode s).2.elemCount = argument.getD Z.indefiniteCount ∧
        (Z.listStartDecode s).2.indefinite = argument.isNone ∧ (Z.listStartDecode s).2.backups ≠ []
  start_other : ∀ s, (∀ argument rest, Cbor.readHead s.remaining ≠ some (⟨4, argument⟩, rest)) →
    (Z.listStartDecode s).1 = false
  /-- It is left where no element is to come, or at its break. -/
  stop : ∀ s, s.backups ≠ [] → s.indefinite = false → ((Z.listEndDecode s).1 = true ↔ s.elemCount = 0)
  stop_indefinite : ∀ s, s.backups ≠ [] → s.indefinite = true →
    ((Z.listEndDecode s).1 = true ↔ s.remaining.head? = some 0xFF)

end ZcborDecode

end ThingSet
