import ThingSet.Encoder
import ThingSet.Foundations.Cbor

/-!
# The zcbor encoder

The binary encoder is a thin layer over the encoding functions of zcbor, which are a parameter of
the model like the decoding functions (`ZcborEncode`). `ZcborEncode.Lawful` is what a client and a
server rely on to understand each other: in a buffer with room, a number or null is appended in
its shortest form, and a map that is closed consists of a header with the number of its entries
and what was encoded since it was started (`ZCBOR_CANONICAL`).

`zcborEncodeReference` is an executable instance.
-/

namespace ThingSet

/-- `zcbor_state_t` of an encoder: the bytes from the start of the buffer to `payload`, the size of
the buffer, and where each open container starts with the `elem_count` around it. -/
structure ZcborEncodeState where
  output : Bytes
  capacity : ℕ
  elemCount : ℕ := 0
  backups : List (ℕ × ℕ) := []
  depth : ℕ
  deriving DecidableEq, Repr

namespace ZcborEncodeState

/-- `zcbor_new_encode_state` on a buffer. -/
def new (depth capacity : ℕ) : ZcborEncodeState := { output := [], capacity, depth }

/-- The bytes that are left in the buffer. -/
def room (s : ZcborEncodeState) : ℕ := s.capacity - s.output.length

/-- The state after `n` elements have been encoded as `bs`. -/
def append (s : ZcborEncodeState) (bs : Bytes) (n : ℕ := 1) : ZcborEncodeState :=
  { s with output := s.output ++ bs, elemCount := s.elemCount + n }

variable (s : ZcborEncodeState) (bs bs' : Bytes) (m n : ℕ)

@[simp] theorem room_new (depth capacity : ℕ) : (new depth capacity).room = capacity := rfl

@[simp] theorem room_append : (s.append bs n).room = s.room - bs.length := by
  simp only [room, append, List.length_append]
  omega

@[simp] theorem depth_append : (s.append bs n).depth = s.depth := rfl

@[simp] theorem backups_append : (s.append bs n).backups = s.backups := rfl

theorem append_append : (s.append bs m).append bs' n = s.append (bs ++ bs') (m + n) := by
  simp [append, Nat.add_assoc]

end ZcborEncodeState

/-- The encoding functions of zcbor that the binary encoder calls. -/
structure ZcborEncode where
  tstrPutTerm : Bytes → ZcborEncodeState → Bool × ZcborEncodeState
  bstrEncode : Bytes → ZcborEncodeState → Bool × ZcborEncodeState
  float32Encode : UInt32 → ZcborEncodeState → Bool × ZcborEncodeState
  float64Encode : UInt64 → ZcborEncodeState → Bool × ZcborEncodeState
  boolPut : Bool → ZcborEncodeState → Bool × ZcborEncodeState
  uint32Encode : ℕ → ZcborEncodeState → Bool × ZcborEncodeState
  uint64Encode : ℕ → ZcborEncodeState → Bool × ZcborEncodeState
  int32Encode : ℤ → ZcborEncodeState → Bool × ZcborEncodeState
  int64Encode : ℤ → ZcborEncodeState → Bool × ZcborEncodeState
  nilPut : ZcborEncodeState → Bool × ZcborEncodeState
  listStartEncode : ℕ → ZcborEncodeState → Bool × ZcborEncodeState
  listEndEncode : ℕ → ZcborEncodeState → Bool × ZcborEncodeState
  mapStartEncode : ℕ → ZcborEncodeState → Bool × ZcborEncodeState
  mapEndEncode : ℕ → ZcborEncodeState → Bool × ZcborEncodeState

/-- What the code relies on of the encoding functions. -/
structure ZcborEncode.Lawful (E : ZcborEncode) : Prop where
  uint32 : ∀ n s, n < 2 ^ 32 → (Cbor.writeHead 0 n).length ≤ s.room →
    E.uint32Encode n s = (true, s.append (Cbor.writeHead 0 n))
  int32 : ∀ (n : ℕ) s, n < 2 ^ 31 → (Cbor.writeHead 0 n).length ≤ s.room →
    E.int32Encode n s = (true, s.append (Cbor.writeHead 0 n))
  nil : ∀ s, 1 ≤ s.room → E.nilPut s = (true, s.append [0xF6])
  /-- A map is open: `body` and its entries come next, and closing it gives the whole map. Two of
  the states that an encoder has are no backups. -/
  map : ∀ max s, max < 256 → s.backups.length + 2 < s.depth →
    (Cbor.writeHead 5 max).length ≤ s.room →
    ∃ s₁, E.mapStartEncode max s = (true, s₁) ∧
      s₁.room = s.room - (Cbor.writeHead 5 max).length ∧ s₁.depth = s.depth ∧
        s₁.backups.length = s.backups.length + 1 ∧
          ∀ body n, n ≤ max → body.length ≤ s₁.room →
            E.mapEndEncode max (s₁.append body (2 * n)) =
              (true, s.append (Cbor.writeHead 5 n ++ body))

/-- In a buffer with room, an integer is appended in its shortest form. -/
structure ZcborEncode.IntegerLaws (E : ZcborEncode) : Prop where
  uint32 : ∀ (n : ℕ) s, n < 2 ^ 32 → (Cbor.writeInt n).length ≤ s.room →
    E.uint32Encode n s = (true, s.append (Cbor.writeInt n))
  uint64 : ∀ (n : ℕ) s, n < 2 ^ 64 → (Cbor.writeInt n).length ≤ s.room →
    E.uint64Encode n s = (true, s.append (Cbor.writeInt n))
  int32 : ∀ n s, -2 ^ 31 ≤ n ∧ n < 2 ^ 31 → (Cbor.writeInt n).length ≤ s.room →
    E.int32Encode n s = (true, s.append (Cbor.writeInt n))
  int64 : ∀ n s, -2 ^ 63 ≤ n ∧ n < 2 ^ 63 → (Cbor.writeInt n).length ≤ s.room →
    E.int64Encode n s = (true, s.append (Cbor.writeInt n))

/-! ## The reference functions -/

namespace ZcborEncodeReference

open ZcborEncodeState

/-- An element is appended where there is room for it. -/
def put (bs : Bytes) (s : ZcborEncodeState) : Bool × ZcborEncodeState :=
  if bs.length ≤ s.room then (true, s.append bs) else (false, s)

/-- The head of a signed integer. -/
def intHead : ℤ → Bytes
  | .ofNat n => Cbor.writeHead 0 n
  | .negSucc n => Cbor.writeHead 1 n

/-- Start a container: its header is encoded with the largest count there may be. -/
def start (major max : ℕ) (s : ZcborEncodeState) : Bool × ZcborEncodeState :=
  if s.backups.length < s.depth ∧ (Cbor.writeHead major max).length ≤ s.room then
    (true, { s with
      output := s.output ++ Cbor.writeHead major max
      elemCount := 0
      backups := (s.output.length, s.elemCount) :: s.backups })
  else (false, s)

/-- End a container: its header is encoded again, and what follows it is moved. -/
def stop (major perEntry max : ℕ) (s : ZcborEncodeState) : Bool × ZcborEncodeState :=
  match s.backups with
  | [] => (false, s)
  | (position, elemCount) :: backups =>
    let body := s.output.drop (position + (Cbor.writeHead major max).length)
    (true, { s with
      output := s.output.take position ++ (Cbor.writeHead major (s.elemCount / perEntry) ++ body)
      elemCount := elemCount + 1
      backups })

end ZcborEncodeReference

open ZcborEncodeReference in
/-- The reference functions. -/
def zcborEncodeReference : ZcborEncode where
  tstrPutTerm s := put (Cbor.writeHead 3 s.length ++ s)
  bstrEncode s := put (Cbor.writeHead 2 s.length ++ s)
  float32Encode v := put (0xFA :: Cbor.beBytes 4 v.toNat)
  float64Encode v := put (0xFB :: Cbor.beBytes 8 v.toNat)
  boolPut b := put [if b then 0xF5 else 0xF4]
  uint32Encode n := put (Cbor.writeHead 0 n)
  uint64Encode n := put (Cbor.writeHead 0 n)
  int32Encode n := put (intHead n)
  int64Encode n := put (intHead n)
  nilPut := put [0xF6]
  listStartEncode := start 4
  listEndEncode := stop 4 1
  mapStartEncode := start 5
  mapEndEncode := stop 5 2

theorem zcborEncodeReference_lawful : zcborEncodeReference.Lawful where
  uint32 n s _ hroom := if_pos hroom
  int32 n s _ hroom := if_pos hroom
  nil s hroom := if_pos hroom
  map max s _ hdepth hroom := by
    refine ⟨_, if_pos ⟨by omega, hroom⟩, ?_, rfl, rfl, fun body n _ _ => ?_⟩
    · simp only [ZcborEncodeState.room, List.length_append]
      omega
    · simp [zcborEncodeReference, ZcborEncodeReference.stop, ZcborEncodeState.append]

theorem zcborEncodeReference_integerLaws : zcborEncodeReference.IntegerLaws where
  uint32 _ _ _ hroom := if_pos hroom
  uint64 _ _ _ hroom := if_pos hroom
  int32 n _ _ hroom := by cases n <;> exact if_pos hroom
  int64 n _ _ hroom := by cases n <;> exact if_pos hroom

end ThingSet
