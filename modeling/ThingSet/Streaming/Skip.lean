import Mathlib.Data.List.Infix
import ThingSet.BinaryDecoder
import ThingSet.Zcbor.Skip

/-!
# Skipping in a stream

`StreamingThingSetBinaryDecoder` decodes through a window of twice the size of a chunk. When a call finds the payload
past the first chunk, the second one is moved to the start, and `read`, which belongs to the derived class, puts the
next bytes behind it. Its own `skip` takes lists and maps apart.

* `StreamReader.At`: the decoder is at a position of a stream.
* `skip_iff`: an item is skipped when it is no map and each element of a list is within the window where it starts.
-/

namespace ThingSet

open Interaction Prog Cbor

/-- A class derived from `StreamingThingSetBinaryDecoder<Size>`: `read` is given the buffer and what it reads from, and
returns the number of bytes that it put behind the first chunk. -/
structure StreamReader (ρ : Type) where
  size : ℕ
  headerSize : ℕ
  header_lt : headerSize < size
  size_lt : 2 * size < 2 ^ 63
  read : Bytes → ρ → ℕ × Bytes × ρ

/-- The members. Pointers of `zcbor` count from the start of `_buffer`, which is its memory. -/
structure StreamReadState (ρ : Type) where
  zcbor : ZcborState
  decodedLength : ℕ := 0
  source : ρ

namespace StreamReader

variable {ρ : Type} (R : StreamReader ρ)

/-- `Size - headerSize()`. -/
def dataSize : ℕ := R.size - R.headerSize

/-- `ensureLength`. -/
def ensureLength (s : StreamReadState ρ) : StreamReadState ρ :=
  let currentPos := s.zcbor.payload
  if currentPos > R.dataSize then
    let buffer := memcpy s.zcbor.memory 0 (s.zcbor.memory.drop R.dataSize) R.dataSize
    let (readSize, buffer, source) := R.read buffer s.source
    let newPos := currentPos - R.dataSize
    { zcbor := { s.zcbor with
        memory := buffer
        payload := newPos
        payloadEnd := newPos + toSize (R.dataSize + readSize - newPos : ℤ) }
      decodedLength := s.decodedLength + R.dataSize
      source := source }
  else s

/-- The options of the decoder that the window is decoded with. -/
def options (Z : ZcborDecode) : BinaryDecoderOptions where
  zcbor := Z
  isForwardOnly := true

/-- The functions of `ThingSetBinaryDecoder` on the window. All but those that are `const` obtain the state through
`ensureLength`. -/
def windowDecoder (Z : ZcborDecode) : Decoder (StreamReadState ρ) := fun o s =>
  let s := if o = .isInMap ∨ o = .isInList then s else R.ensureLength s
  let r := binaryDecoder (options Z) o s.zcbor
  (r.1, { s with zcbor := r.2 })

/-- The loop of `skip` on the entries of a map. -/
def skipEntries (Z : ZcborDecode) : ℕ → StreamReadState ρ → Bool × StreamReadState ρ
  | 0, s => run (R.windowDecoder Z) (decode .listEnd) s
  | n + 1, s =>
    let (key, s) := run (R.windowDecoder Z) (decode .skip) s
    if !key then (false, s)
    else
      let (value, s) := run (R.windowDecoder Z) (decode .skip) s
      if !value then (false, s) else skipEntries Z n s

/-- The loop of `skip` on the elements of a list. -/
def skipElement (_ : ℕ) (_ : Unit) : Decoding (Bool × Unit) := do
  let ok ← decode .skip
  pure (ok, ())

/-- `skip`. -/
def skip (Z : ZcborDecode) (s : StreamReadState ρ) : Bool × StreamReadState ρ :=
  match run (R.windowDecoder Z) (decode .peekType) s with
  | (.list, s) =>
    let (r, s) := run (R.windowDecoder Z) (decodeList skipElement ()) s
    (r.1, s)
  | (.map, s) =>
    let (started, s) := run (R.windowDecoder Z) (decode .listStart) s
    if !started then (false, s)
    else
      let s := R.ensureLength s
      R.skipEntries Z (s.zcbor.elemCount / 2) s
  | (_, s) => run (R.windowDecoder Z) (decode .skip) s

/-! ## The position in a stream -/

/-- `read` puts as many of the bytes that are left of the stream behind the first chunk as a chunk carries, and returns
how many. -/
def ReadsNext (unread : ρ → Bytes) : Prop :=
  ∀ buffer source, 2 * R.dataSize ≤ buffer.length →
    let next := (unread source).take R.dataSize
    let r := R.read buffer source
    r.1 = next.length ∧ r.2.1 = memcpy buffer R.dataSize next next.length ∧
      unread r.2.2 = (unread source).drop R.dataSize

/-- The window has the two chunks of the stream `T` from chunk `k` on. Where the stream ends there may be more below
`payload_end`. -/
structure InWindow (unread : ρ → Bytes) (T : Bytes) (k : ℕ) (s : StreamReadState ρ) : Prop where
  length : 2 * R.dataSize ≤ s.zcbor.memory.length
  holds : (T.drop (k * R.dataSize)).take (2 * R.dataSize) <+: s.zcbor.memory
  unread : unread s.source = T.drop ((k + 2) * R.dataSize)
  payload_le : s.zcbor.payload ≤ 2 * R.dataSize
  start : k = 0 ∨ 0 < s.zcbor.payload
  payloadEnd_ge : min (2 * R.dataSize) (T.length - k * R.dataSize) ≤ s.zcbor.payloadEnd
  payloadEnd_eq : (k + 2) * R.dataSize < T.length → s.zcbor.payloadEnd = 2 * R.dataSize

/-- The decoder is at the position `a` of the stream `T`. -/
def At (unread : ρ → Bytes) (T : Bytes) (a : ℕ) (s : StreamReadState ρ) : Prop :=
  ∃ k, R.InWindow unread T k s ∧ k * R.dataSize + s.zcbor.payload = a

/-- The end of the window from which a call at the position `a` decodes. -/
def windowEnd (a : ℕ) : ℕ := ((a - 1) / R.dataSize + 2) * R.dataSize

/-- Each item is within the window where it starts. -/
def FitsEach : ℕ → List Item → Prop
  | _, [] => True
  | a, x :: xs => a + x.bytes.length ≤ R.windowEnd a ∧ FitsEach (a + x.bytes.length) xs

/-- The item at the position `a` is no map, and if it is a list each element is within the window where it starts. -/
def Skippable (a : ℕ) : Item → Prop
  | .primitive _ => True
  | .list head size element => R.FitsEach (a + head.length) ((List.finRange size).map element)
  | .map .. => False

/-! ## The window -/

variable {R} {unread : ρ → Bytes} {T ys rest : Bytes} {a k n : ℕ} {s : StreamReadState ρ} {Z : ZcborDecode} {x : Item}

theorem dataSize_pos : 0 < R.dataSize := Nat.sub_pos_of_lt R.header_lt

theorem dataSize_lt : 2 * R.dataSize < 2 ^ 63 := by
  have h := R.size_lt
  unfold dataSize
  omega

/-- The payload moves on within the window. -/
theorem InWindow.advance (h : R.InWindow unread T k s) {z : ZcborState} (hz : s.zcbor.Advances n z)
    (hn : s.zcbor.payload + n ≤ 2 * R.dataSize) : R.InWindow unread T k { s with zcbor := z } where
  length := by rw [hz.memory]; exact h.length
  holds := by rw [hz.memory]; exact h.holds
  unread := h.unread
  payload_le := by rw [hz.payload]; exact hn
  start := h.start.imp_right fun hpos => by rw [hz.payload]; omega
  payloadEnd_ge := by rw [hz.payloadEnd]; exact h.payloadEnd_ge
  payloadEnd_eq := by rw [hz.payloadEnd]; exact h.payloadEnd_eq

/-- The window from a call on ends two chunks behind the start of the one that it is in. -/
theorem windowEnd_eq (hstart : k = 0 ∨ 0 < n) (hn : n ≤ R.dataSize) :
    R.windowEnd (k * R.dataSize + n) = (k + 2) * R.dataSize := by
  have hpos := dataSize_pos (R := R)
  have hdiv : (k * R.dataSize + n - 1) / R.dataSize = k := by
    rcases hstart with rfl | hn'
    · rw [Nat.zero_mul, Nat.zero_add]
      exact Nat.div_eq_of_lt (by omega)
    · refine Nat.div_eq_of_lt_le (by omega) ?_
      rw [Nat.add_mul, Nat.one_mul]
      omega
  rw [windowEnd, hdiv]

/-- The bytes of the stream that are in the window. -/
theorem window_split (h : R.InWindow unread T k s) :
    ∃ z, s.zcbor.memory = (T.drop (k * R.dataSize)).take (2 * R.dataSize) ++ z ∧
      ((T.drop (k * R.dataSize)).take (2 * R.dataSize)).length = min (2 * R.dataSize) (T.length - k * R.dataSize) := by
  obtain ⟨z, hz⟩ := h.holds
  exact ⟨z, hz.symm, by rw [List.length_take, List.length_drop]⟩

theorem drop_window (k n : ℕ) : ((T.drop (k * R.dataSize)).take (2 * R.dataSize)).drop n =
    (T.drop (k * R.dataSize + n)).take (2 * R.dataSize - n) := by
  rw [List.drop_take, List.drop_drop]

/-- What is within the window is there. -/
theorem remaining_of_le (h : R.InWindow unread T k s) (hT : T.drop (k * R.dataSize + s.zcbor.payload) = ys ++ rest)
    (hys : s.zcbor.payload + ys.length ≤ 2 * R.dataSize) : ∃ rest', s.zcbor.remaining = ys ++ rest' := by
  obtain ⟨z, hmemory, hlen⟩ := window_split h
  have hend := h.payloadEnd_ge
  have hT' := congrArg List.length hT
  rw [List.length_drop, List.length_append] at hT'
  have htake : s.zcbor.memory.take s.zcbor.payloadEnd = (T.drop (k * R.dataSize)).take (2 * R.dataSize) ++
      z.take (s.zcbor.payloadEnd - ((T.drop (k * R.dataSize)).take (2 * R.dataSize)).length) := by
    rw [hmemory, List.take_append, List.take_of_length_le (by omega)]
  rcases Nat.eq_zero_or_pos ys.length with hzero | hpos
  · obtain rfl := List.eq_nil_of_length_eq_zero hzero
    exact ⟨_, rfl⟩
  · refine ⟨rest.take (2 * R.dataSize - s.zcbor.payload - ys.length) ++
      z.take (s.zcbor.payloadEnd - ((T.drop (k * R.dataSize)).take (2 * R.dataSize)).length), ?_⟩
    rw [ZcborState.remaining, htake, List.drop_append_of_le_length (by omega), drop_window, hT, List.take_append,
      List.take_of_length_le (by omega), List.append_assoc]

/-- What is not within the window is cut off. -/
theorem remaining_of_lt (h : R.InWindow unread T k s) (hT : T.drop (k * R.dataSize + s.zcbor.payload) = ys ++ rest)
    (hys : 2 * R.dataSize < s.zcbor.payload + ys.length) : s.zcbor.remaining <+: ys ∧ s.zcbor.remaining ≠ ys := by
  obtain ⟨z, hmemory, hlen⟩ := window_split h
  have hle := h.payload_le
  have hT' := congrArg List.length hT
  rw [List.length_drop, List.length_append] at hT'
  have hend := h.payloadEnd_eq (by rw [Nat.add_mul]; omega)
  have hremaining : s.zcbor.remaining = ys.take (2 * R.dataSize - s.zcbor.payload) := by
    rw [ZcborState.remaining, hend, hmemory, List.take_left' (by omega), drop_window, hT,
      List.take_append_of_le_length (by omega)]
  rw [hremaining]
  refine ⟨List.take_prefix _ _, fun heq => ?_⟩
  have := congrArg List.length heq
  rw [List.length_take] at this
  omega

/-! ## The next chunk -/

/-- What `read` leaves in a window whose second chunk has been moved to the start. -/
theorem holds_next {memory : Bytes} (hlen : 2 * R.dataSize ≤ memory.length)
    (hholds : (T.drop (k * R.dataSize)).take (2 * R.dataSize) <+: memory) :
    let next := (T.drop ((k + 2) * R.dataSize)).take R.dataSize
    (T.drop ((k + 1) * R.dataSize)).take (2 * R.dataSize) <+:
      memcpy (memcpy memory 0 (memory.drop R.dataSize) R.dataSize) R.dataSize next next.length := by
  intro next
  have hsecond : (T.drop ((k + 1) * R.dataSize)).take R.dataSize <+: (memory.drop R.dataSize).take R.dataSize := by
    have hdrop : ((T.drop (k * R.dataSize)).take (2 * R.dataSize)).drop R.dataSize <+:
        (memory.drop R.dataSize).take R.dataSize := by
      refine List.prefix_take_iff.2 ⟨hholds.drop R.dataSize, ?_⟩
      rw [List.length_drop, List.length_take]
      omega
    rwa [drop_window, show k * R.dataSize + R.dataSize = (k + 1) * R.dataSize by rw [Nat.succ_mul],
      show 2 * R.dataSize - R.dataSize = R.dataSize by omega] at hdrop
  have hboth : (T.drop ((k + 1) * R.dataSize)).take (2 * R.dataSize) =
      (T.drop ((k + 1) * R.dataSize)).take R.dataSize ++ next := by
    rw [show 2 * R.dataSize = R.dataSize + R.dataSize by omega, List.take_add, List.drop_drop]
    congr 3
    rw [Nat.add_mul, Nat.add_mul]
    omega
  have hmove : (memcpy memory 0 (memory.drop R.dataSize) R.dataSize).take R.dataSize =
      (memory.drop R.dataSize).take R.dataSize := by
    rw [memcpy, List.take_zero, List.nil_append, List.take_left']
    rw [List.length_take, List.length_drop]
    omega
  rw [memcpy, hmove, List.take_length, hboth, List.append_assoc]
  obtain ⟨z, hz⟩ := hsecond
  rw [← hz, List.append_assoc]
  refine (List.prefix_append_right_inj _).2 ?_
  rcases eq_or_ne next [] with hnil | hne
  · rw [hnil]
    exact List.nil_prefix
  · -- the stream goes on behind the second chunk, so this one is full
    have hlt : (k + 2) * R.dataSize < T.length := by
      by_contra hle
      exact hne (by rw [show next = (T.drop ((k + 2) * R.dataSize)).take R.dataSize from rfl,
        List.drop_eq_nil_of_le (Nat.not_lt.1 hle), List.take_nil])
    have hfull := congrArg List.length hz
    rw [List.length_append, List.length_take, List.length_take, List.length_drop, List.length_drop] at hfull
    rw [Nat.add_mul] at hlt hfull
    obtain rfl : z = [] := List.eq_nil_of_length_eq_zero (by omega)
    exact List.prefix_append _ _

/-- `ensureLength` leaves the position, and brings it to the first chunk of the window. -/
theorem ensureLength_inWindow (hread : R.ReadsNext unread) (h : R.InWindow unread T k s) :
    ∃ k', R.InWindow unread T k' (R.ensureLength s) ∧
      k' * R.dataSize + (R.ensureLength s).zcbor.payload = k * R.dataSize + s.zcbor.payload ∧
      (R.ensureLength s).zcbor.payload ≤ R.dataSize ∧
      (R.ensureLength s).zcbor.elemCount = s.zcbor.elemCount ∧
      (R.ensureLength s).zcbor.indefinite = s.zcbor.indefinite ∧
      (R.ensureLength s).zcbor.backups = s.zcbor.backups ∧ (R.ensureLength s).zcbor.depth = s.zcbor.depth := by
  unfold ensureLength
  dsimp only
  split
  · rename_i hlt
    have hlen := h.length
    have hsize := dataSize_lt (R := R)
    have hle := h.payload_le
    have hmoved : 2 * R.dataSize ≤ (memcpy s.zcbor.memory 0 (s.zcbor.memory.drop R.dataSize) R.dataSize).length := by
      rw [memcpy, List.length_append, List.length_append, List.length_take, List.length_take, List.length_drop,
        List.length_drop]
      omega
    obtain ⟨hcount, hbuffer, hunread⟩ := hread _ s.source hmoved
    rw [h.unread] at hcount hbuffer hunread
    rw [hcount, hbuffer]
    have hnext : ((T.drop ((k + 2) * R.dataSize)).take R.dataSize).length =
        min R.dataSize (T.length - (k + 2) * R.dataSize) := by rw [List.length_take, List.length_drop]
    have hend : s.zcbor.payload - R.dataSize + toSize ((R.dataSize : ℤ) +
        (((T.drop ((k + 2) * R.dataSize)).take R.dataSize).length : ℕ) - (s.zcbor.payload - R.dataSize : ℕ)) =
          R.dataSize + ((T.drop ((k + 2) * R.dataSize)).take R.dataSize).length := by
      rw [← Int.natCast_add, ← Int.ofNat_sub (by omega), toSize_natCast (by omega)]
      omega
    refine ⟨k + 1, ⟨?_, holds_next hlen h.holds, ?_, ?_, ?_, ?_, ?_⟩, ?_, ?_, rfl, rfl, rfl, rfl⟩
    · rw [memcpy, List.length_append, List.length_append, List.length_take, List.length_take, List.length_drop]
      omega
    · rw [hunread, List.drop_drop]
      congr 1
      rw [Nat.add_mul, Nat.add_mul, Nat.add_mul]
      omega
    · dsimp only
      omega
    · right
      dsimp only
      omega
    · dsimp only
      rw [hend, hnext]
      rw [Nat.add_mul, Nat.add_mul]
      omega
    · dsimp only
      intro hlt'
      rw [hend, hnext]
      rw [Nat.add_mul, Nat.add_mul] at hlt'
      rw [Nat.add_mul]
      omega
    · dsimp only
      rw [Nat.add_mul]
      omega
    · dsimp only
      omega
  · rename_i hle
    exact ⟨k, h, rfl, by omega, rfl, rfl, rfl, rfl⟩

/-! ## Items -/

/-- The decoder is at the position `a`, with these elements to come. -/
structure Elements (R : StreamReader ρ) (unread : ρ → Bytes) (T : Bytes) (a elements : ℕ)
    (backups : List ZcborBackup) (depth : ℕ) (s : StreamReadState ρ) : Prop where
  position : R.At unread T a s
  elemCount : s.zcbor.elemCount = elements
  backups : s.zcbor.backups = backups
  depth : s.zcbor.depth = depth

variable {elements depth : ℕ} {backups : List ZcborBackup}

/-- The state that a call obtains. -/
theorem getState_spec (hread : R.ReadsNext unread) (h : R.Elements unread T a elements backups depth s) :
    ∃ k, R.InWindow unread T k (R.ensureLength s) ∧ k * R.dataSize + (R.ensureLength s).zcbor.payload = a ∧
      (R.ensureLength s).zcbor.payload ≤ R.dataSize ∧ R.windowEnd a = (k + 2) * R.dataSize ∧
      R.Elements unread T a elements backups depth (R.ensureLength s) ∧
      (R.ensureLength s).zcbor.indefinite = s.zcbor.indefinite := by
  obtain ⟨⟨k, hk, hposition⟩, helem, hbackups, hdepth⟩ := h
  obtain ⟨k', hk', hsame, hle, helem', hindefinite, hbackups', hdepth'⟩ := ensureLength_inWindow hread hk
  have ha := hsame.trans hposition
  refine ⟨k', hk', ha, hle, ?_, ⟨⟨k', hk', ha⟩, ?_, ?_, ?_⟩, hindefinite⟩
  · rw [← ha, windowEnd_eq hk'.start hle]
  · rw [helem', helem]
  · rw [hbackups', hbackups]
  · rw [hdepth', hdepth]

/-- **An item is skipped when it is within the window where it starts, and not otherwise.** -/
theorem skip_item (hZ : Z.SkipLaws) (hread : R.ReadsNext unread) {max : ℕ} (hx : x.WellFormed max)
    (h : R.Elements unread T a (elements + 1) backups depth s) (hT : T.drop a = x.bytes ++ rest) :
    let r := run (R.windowDecoder Z) (decode .skip) s
    (r.1 = true ↔ a + x.bytes.length ≤ R.windowEnd a) ∧
      (r.1 = true → R.Elements unread T (a + x.bytes.length) elements backups depth r.2 ∧
        r.2.zcbor.indefinite = s.zcbor.indefinite) := by
  obtain ⟨k, hk, ha, hle, hend, ⟨-, helem, hbackups, hdepth⟩, hindefinite⟩ := getState_spec hread h
  have hrun : run (R.windowDecoder Z) (decode .skip) s = ((Z.anySkip (R.ensureLength s).zcbor).1,
      { R.ensureLength s with zcbor := (Z.anySkip (R.ensureLength s).zcbor).2 }) := rfl
  rw [← ha] at hT
  dsimp only
  rw [hrun, hend]
  by_cases hfits : a + x.bytes.length ≤ (k + 2) * R.dataSize
  · have hpayload : (R.ensureLength s).zcbor.payload + x.bytes.length ≤ 2 * R.dataSize := by
      rw [Nat.add_mul] at hfits
      omega
    obtain ⟨rest', hremaining⟩ := remaining_of_le hk hT hpayload
    obtain ⟨hok, hadvances, hcount, hindefinite', hbackups'⟩ := hZ.anySkip _ x max rest' hx
      (by rw [helem]; exact Nat.succ_ne_zero _) hremaining
    refine ⟨iff_of_true hok hfits, fun _ => ⟨⟨⟨k, hk.advance hadvances hpayload, ?_⟩, ?_, ?_, ?_⟩, ?_⟩⟩
    · dsimp only
      rw [hadvances.payload]
      omega
    · dsimp only
      omega
    · exact hbackups'.trans hbackups
    · exact hadvances.depth.trans hdepth
    · exact hindefinite'.trans hindefinite
  · have hpayload : 2 * R.dataSize < (R.ensureLength s).zcbor.payload + x.bytes.length := by
      rw [Nat.add_mul] at hfits
      omega
    obtain ⟨hcut, hne⟩ := remaining_of_lt hk hT hpayload
    have hfail := hZ.anySkip_short _ x max hx hcut hne
    refine ⟨iff_of_false (by rw [hfail]; exact Bool.false_ne_true) hfits, fun hok => ?_⟩
    rw [hfail] at hok
    exact absurd hok Bool.false_ne_true

/-! ## Lists -/

/-- A round of the loop where no element is to come. -/
theorem run_round_of_zero (i : ℕ) (h : s.zcbor.elemCount = 0) :
    run (R.windowDecoder Z) (decodeListRound skipElement (i, ())) s =
      (.inr ((run (R.windowDecoder Z) (decode .listEnd) s).1, ()), (run (R.windowDecoder Z) (decode .listEnd) s).2) := by
  have hmore : run (R.windowDecoder Z) (decode .isInList) s = (decide (s.zcbor.elemCount ≠ 0), s) := rfl
  rw [decodeListRound, run_bind, hmore, h]
  rfl

/-- A round where there is one. -/
theorem run_round_of_ne (i : ℕ) (h : s.zcbor.elemCount ≠ 0) :
    run (R.windowDecoder Z) (decodeListRound skipElement (i, ())) s =
      (if (run (R.windowDecoder Z) (decode .skip) s).1 then .inl (i + 1, ()) else .inr (false, ()),
        (run (R.windowDecoder Z) (decode .skip) s).2) := by
  have hmore : run (R.windowDecoder Z) (decode .isInList) s = (decide (s.zcbor.elemCount ≠ 0), s) := rfl
  rw [decodeListRound, run_bind, hmore, decide_eq_true h]
  dsimp only
  rw [if_pos rfl, run_bind, skipElement, run_bind, run_pure]
  dsimp only
  cases (run (R.windowDecoder Z) (decode .skip) s).1 <;> rfl

/-- The loop on the elements of a list. -/
theorem skip_elements (hZ : Z.SkipLaws) (hread : R.ReadsNext unread) {max : ℕ} {xs : List Item}
    (hxs : ∀ x ∈ xs, x.WellFormed max) {b : ZcborBackup} (bound i : ℕ) (hbound : xs.length < bound)
    (h : R.Elements unread T a xs.length (b :: backups) depth s) (hindefinite : s.zcbor.indefinite = false)
    (hT : T.drop a = xs.flatMap Item.bytes ++ rest) :
    let r := run (R.windowDecoder Z)
      (repeatUntil (fun c : ℕ × Unit => (false, c.2)) (decodeListRound skipElement) bound (i, ())) s
    (r.1.1 = true ↔ R.FitsEach a xs) ∧
      (r.1.1 = true →
        R.Elements unread T (a + (xs.flatMap Item.bytes).length) b.elemCount backups depth r.2) := by
  induction xs generalizing bound i a s with
  | nil =>
    obtain ⟨bound, rfl⟩ : ∃ m, bound = m + 1 := ⟨bound - 1, by omega⟩
    obtain ⟨k, hk, ha, hle, -, ⟨-, helem, hbackups, hdepth⟩, hindefinite'⟩ := getState_spec hread h
    have hrun : run (R.windowDecoder Z) (decode .listEnd) s = ((Z.listEndDecode (R.ensureLength s).zcbor).1,
        { R.ensureLength s with zcbor := (Z.listEndDecode (R.ensureLength s).zcbor).2 }) := rfl
    obtain ⟨hok, hadvances, hcount, hbackups'⟩ := hZ.listEnd _ b backups hbackups (hindefinite'.trans hindefinite) helem
    rw [run_repeatUntil_succ, run_round_of_zero i h.elemCount, hrun, hok]
    dsimp only
    refine ⟨iff_of_true rfl trivial, fun _ => ⟨⟨k, hk.advance hadvances (by omega), ?_⟩, hcount, hbackups', ?_⟩⟩
    · dsimp only
      rw [hadvances.payload]
      exact ha
    · exact hadvances.depth.trans hdepth
  | cons x xs ih =>
    obtain ⟨bound, rfl⟩ : ∃ m, bound = m + 1 := ⟨bound - 1, by omega⟩
    rw [List.flatMap_cons, List.append_assoc] at hT
    rw [List.length_cons] at h hbound
    obtain ⟨hiff, hnext⟩ := skip_item hZ hread (hxs x List.mem_cons_self) h hT
    have hne : s.zcbor.elemCount ≠ 0 := by
      rw [h.elemCount]
      exact Nat.succ_ne_zero _
    rw [run_repeatUntil_succ, run_round_of_ne i hne]
    generalize run (R.windowDecoder Z) (decode .skip) s = r at hiff hnext ⊢
    obtain ⟨ok, s'⟩ := r
    cases ok with
    | false =>
      refine ⟨iff_of_false Bool.false_ne_true fun hfits => ?_, fun hok => absurd hok Bool.false_ne_true⟩
      exact Bool.false_ne_true (hiff.2 hfits.1)
    | true =>
      obtain ⟨helements, hindefinite'⟩ := hnext rfl
      have hT' : T.drop (a + x.bytes.length) = xs.flatMap Item.bytes ++ rest := by
        rw [← List.drop_drop, hT, List.drop_left]
      obtain ⟨hiff', hend⟩ := ih (fun y hy => hxs y (List.mem_cons_of_mem x hy)) bound (i + 1) (by omega) helements
        (hindefinite'.trans hindefinite) hT'
      refine ⟨?_, fun hok => ?_⟩
      · exact hiff'.trans ⟨fun hfits => ⟨hiff.1 rfl, hfits⟩, fun hfits => hfits.2⟩
      · rw [List.flatMap_cons, List.length_append, ← Nat.add_assoc]
        exact hend hok

/-! ## The kinds of items -/

/-- The type of what is at the position: its head is within the window of a call. -/
theorem peekType_spec (hread : R.ReadsNext unread) {head : Bytes} {major : ℕ} (hhead : IsHead head major n)
    (hlen : head.length ≤ R.dataSize) (h : R.Elements unread T a elements backups depth s)
    (hT : T.drop a = head ++ rest) :
    ∃ type, run (R.windowDecoder Z) (decode .peekType) s = (type, R.ensureLength s) ∧
      (type = .list ↔ major = 4) ∧ (type = .map ↔ major = 5) := by
  obtain ⟨k, hk, ha, hle, -, -, -⟩ := getState_spec hread h
  rw [← ha] at hT
  obtain ⟨rest', hremaining⟩ := remaining_of_le hk hT (by omega)
  refine ⟨BinaryDecoder.peekType (R.ensureLength s).zcbor, rfl, ?_⟩
  have hmajor := hhead.major_eq rest'
  have hbyte : (R.ensureLength s).zcbor.memory.getD (R.ensureLength s).zcbor.payload 0 = (head ++ rest').getD 0 0 := by
    cases hl : head ++ rest' with
    | nil =>
      have hpos := hhead.length_pos
      rw [(List.append_eq_nil_iff.1 hl).1] at hpos
      exact absurd hpos (Nat.lt_irrefl 0)
    | cons byte l => exact ZcborState.getD_payload (hremaining.trans hl)
  rw [BinaryDecoder.peekType, hbyte, hmajor]
  constructor <;> split <;> simp_all

/-- A list is entered, where zcbor has a state for it. -/
theorem listStart_spec (hZ : Z.SkipLaws) (hread : R.ReadsNext unread) {head : Bytes} (hhead : IsHead head 4 n)
    (hlen : head.length ≤ R.dataSize) (hdepth : backups.length + 2 < depth)
    (h : R.Elements unread T a (elements + 1) backups depth s) (hT : T.drop a = head ++ rest) :
    ∃ s₁ b, run (R.windowDecoder Z) (decode .listStart) s = (true, s₁) ∧ b.elemCount = elements ∧
      R.Elements unread T (a + head.length) n (b :: backups) depth s₁ ∧ s₁.zcbor.indefinite = false := by
  obtain ⟨k, hk, ha, hle, -, ⟨-, helem, hbackups, hdepth'⟩, -⟩ := getState_spec hread h
  rw [← ha] at hT
  obtain ⟨rest', hremaining⟩ := remaining_of_le hk hT (by omega)
  obtain ⟨hok, hadvances, hcount, hindefinite, b, hb, hbcount⟩ := hZ.listStart _ head n rest' hhead
    (by rw [helem]; exact Nat.succ_ne_zero _) (by rw [hbackups, hdepth']; exact hdepth) hremaining
  refine ⟨{ R.ensureLength s with zcbor := (Z.listStartDecode (R.ensureLength s).zcbor).2 }, b, Prod.ext hok rfl, ?_,
    ⟨⟨k, hk.advance hadvances (by omega), ?_⟩, hcount, ?_, ?_⟩, hindefinite⟩
  · rw [helem] at hbcount
    exact Nat.succ.inj hbcount
  · dsimp only
    rw [hadvances.payload]
    omega
  · rw [← hbackups]
    exact hb
  · exact hadvances.depth.trans hdepth'

/-- Another item is not entered as a list. -/
theorem listStart_other (hZ : Z.SkipLaws) (hread : R.ReadsNext unread) {head : Bytes} {major : ℕ}
    (hhead : IsHead head major n) (hmajor : major ≠ 4) (hlen : head.length ≤ R.dataSize)
    (h : R.Elements unread T a elements backups depth s) (hT : T.drop a = head ++ rest) :
    (run (R.windowDecoder Z) (decode .listStart) s).1 = false := by
  obtain ⟨k, hk, ha, hle, -, -, -⟩ := getState_spec hread h
  rw [← ha] at hT
  obtain ⟨rest', hremaining⟩ := remaining_of_le hk hT (by omega)
  exact hZ.listStart_other _ head major n rest' hhead hmajor hremaining

/-- A primitive item is within the window of a call. -/
theorem le_windowEnd (hread : R.ReadsNext unread) (h : R.Elements unread T a elements backups depth s)
    (hn : n ≤ R.dataSize) : a + n ≤ R.windowEnd a := by
  obtain ⟨k, -, ha, hle, hend, -, -⟩ := getState_spec hread h
  rw [hend, Nat.add_mul]
  omega

theorem length_le_flatMap {xs : List Item} {max : ℕ} (hxs : ∀ x ∈ xs, x.WellFormed max) :
    xs.length ≤ (xs.flatMap Item.bytes).length := by
  induction xs with
  | nil => exact Nat.le_refl 0
  | cons x xs ih =>
    have hpos := Item.bytes_pos (hxs x List.mem_cons_self)
    have hlen := ih fun y hy => hxs y (List.mem_cons_of_mem x hy)
    rw [List.flatMap_cons, List.length_append, List.length_cons]
    omega

/-- A list is skipped, in a stream whose positions are of type `size_t`. -/
theorem skip_list (hZ : Z.SkipLaws) (hread : R.ReadsNext unread) {head : Bytes} {size : ℕ} {element : Fin size → Item}
    (hx : (Item.list head size element).WellFormed R.dataSize) (hdepth : backups.length + 2 < depth)
    (hsize : T.length < sizeMax) (h : R.Elements unread T a (elements + 1) backups depth s)
    (hT : T.drop a = (Item.list head size element).bytes ++ rest) :
    let r := run (R.windowDecoder Z) (decodeList skipElement ()) s
    (r.1.1 = true ↔ R.FitsEach (a + head.length) ((List.finRange size).map element)) ∧
      (r.1.1 = true →
        R.Elements unread T (a + (Item.list head size element).bytes.length) elements backups depth r.2) := by
  obtain ⟨hlen, hhead, helement⟩ := hx
  rw [Item.bytes_list, List.append_assoc] at hT
  rw [Item.bytes_list, List.length_append, ← Nat.add_assoc]
  obtain ⟨s₁, b, hstart, hb, h₁, hindefinite⟩ := listStart_spec hZ hread hhead hlen hdepth h hT
  have hxs : ∀ x ∈ (List.finRange size).map element, x.WellFormed R.dataSize := by
    intro x hx
    obtain ⟨i, -, rfl⟩ := List.mem_map.1 hx
    exact helement i
  have hsizes : ((List.finRange size).map element).length = size := by rw [List.length_map, List.length_finRange]
  have hbound : ((List.finRange size).map element).length < sizeMax := by
    have hflat := length_le_flatMap hxs
    have hTlen := congrArg List.length hT
    rw [List.length_drop, List.length_append, List.length_append] at hTlen
    omega
  have hT' : T.drop (a + head.length) = ((List.finRange size).map element).flatMap Item.bytes ++ rest := by
    rw [← List.drop_drop, hT, List.drop_left]
  rw [← hsizes] at h₁
  have hloop := skip_elements hZ hread hxs sizeMax 0 hbound h₁ hindefinite hT'
  rw [hb] at hloop
  rw [decodeList, run_bind, hstart]
  exact hloop

/-- **The streaming decoder skips an item as the plain one does when it is no map and each element of a list is within
the window where it starts, and not otherwise.** -/
theorem skip_iff (hZ : Z.SkipLaws) (hread : R.ReadsNext unread) (hx : x.WellFormed R.dataSize)
    (hdepth : backups.length + 2 < depth) (hsize : T.length < sizeMax)
    (h : R.Elements unread T a (elements + 1) backups depth s) (hT : T.drop a = x.bytes ++ rest) :
    (∀ z : ZcborState, z.elemCount ≠ 0 → z.remaining = x.bytes ++ rest →
      let r := run (binaryDecoder { zcbor := Z }) (decode .skip) z
      r.1 = true ∧ z.Advances x.bytes.length r.2) ∧
    ((R.skip Z s).1 = true ∧ R.Elements unread T (a + x.bytes.length) elements backups depth (R.skip Z s).2 ↔
      R.Skippable a x) := by
  refine ⟨fun z hcount hz => ?_, ?_⟩
  · obtain ⟨hok, hadvances, -⟩ := hZ.anySkip z x _ rest hx hcount hz
    exact ⟨hok, hadvances⟩
  obtain ⟨-, -, -, -, -, h₁, -⟩ := getState_spec hread h
  cases x with
  | primitive bs =>
    obtain ⟨hlen, head, content, major, n, hbs, hhead, hcontent⟩ := id hx
    have hT' : T.drop a = head ++ (content ++ rest) := by
      rw [hT, Item.bytes, hbs, List.append_assoc]
    have hheadlen : head.length ≤ R.dataSize := by
      rw [hbs, List.length_append] at hlen
      omega
    obtain ⟨type, hpeek, hlist, hmap⟩ := peekType_spec (Z := Z) hread hhead hheadlen h hT'
    obtain ⟨hiff, hnext⟩ := skip_item hZ hread hx h₁ hT
    have hskip : R.skip Z s = run (R.windowDecoder Z) (decode .skip) (R.ensureLength s) := by
      rw [skip, hpeek]
      cases type with
      | list =>
        rw [hlist.1 rfl] at hcontent
        simp at hcontent
      | map =>
        rw [hmap.1 rfl] at hcontent
        simp at hcontent
      | _ => rfl
    rw [hskip]
    have hok := hiff.2 (le_windowEnd hread h hlen)
    exact iff_of_true ⟨hok, (hnext hok).1⟩ trivial
  | list head size element =>
    obtain ⟨hlen, hhead, -⟩ := id hx
    have hT' := hT
    rw [Item.bytes_list, List.append_assoc] at hT'
    obtain ⟨type, hpeek, hlist, -⟩ := peekType_spec (Z := Z) hread hhead hlen h hT'
    obtain rfl := hlist.2 rfl
    obtain ⟨hiff, hnext⟩ := skip_list hZ hread hx hdepth hsize h₁ hT
    have hskip : R.skip Z s = ((run (R.windowDecoder Z) (decodeList skipElement ()) (R.ensureLength s)).1.1,
        (run (R.windowDecoder Z) (decodeList skipElement ()) (R.ensureLength s)).2) := by
      rw [skip, hpeek]
    rw [hskip]
    exact ⟨fun hr => hiff.1 hr.1, fun hfits => ⟨hiff.2 hfits, hnext (hiff.2 hfits)⟩⟩
  | map head size key value =>
    obtain ⟨hlen, hhead, -⟩ := id hx
    have hT' := hT
    rw [Item.bytes_map, List.append_assoc] at hT'
    obtain ⟨type, hpeek, -, hmap⟩ := peekType_spec (Z := Z) hread hhead hlen h hT'
    obtain rfl := hmap.2 rfl
    have hfalse := listStart_other hZ hread hhead (by decide) hlen h₁ hT'
    refine iff_of_false (fun hr => ?_) id
    have hskip : (R.skip Z s).1 = false := by
      rw [skip, hpeek]
      dsimp only
      rw [hfalse]
      rfl
    rw [hskip] at hr
    exact Bool.false_ne_true hr.1

end StreamReader

/-! ## Chunks of eight bytes -/

/-- A stream is read eight bytes at a time. -/
def chunkReader : StreamReader Bytes where
  size := 8
  headerSize := 0
  header_lt := by decide
  size_lt := by decide
  read buffer source :=
    let next := source.take 8
    (next.length, memcpy buffer 8 next next.length, source.drop 8)

theorem chunkReader_readsNext : chunkReader.ReadsNext id := fun _ _ _ => ⟨rfl, rfl, rfl⟩

/-- The decoder at the start of a stream. -/
def chunkState (T : Bytes) : StreamReadState Bytes where
  zcbor := .new 8 (T.take 16 ++ List.replicate (16 - T.length) 0) 0 16 1
  source := T.drop 16

theorem chunkState_elements (T : Bytes) : chunkReader.Elements id T 0 1 [] 8 (chunkState T) := by
  have hsize : chunkReader.dataSize = 8 := rfl
  refine ⟨⟨0, ?_, rfl⟩, rfl, rfl, rfl⟩
  constructor
  · rw [hsize]
    simp only [chunkState, ZcborState.new, List.length_append, List.length_take, List.length_replicate]
    omega
  · rw [hsize]
    exact List.prefix_append _ _
  · rfl
  · exact Nat.zero_le _
  · exact Or.inl rfl
  · exact Nat.min_le_left _ _
  · intro _
    rfl

/-- The numbers from 1 on. -/
def countFrom (size : ℕ) (i : Fin size) : Item := .primitive [UInt8.ofNat (i + 1)]

theorem isHead_small {b : UInt8} (hb : b.toNat % 32 < 24) : IsHead [b] (b.toNat / 32) (b.toNat % 32) := by
  intro rest
  rw [List.singleton_append, readHead]
  exact if_pos hb

/-- The list `82 01 02`. -/
def pairOfNumbers : Item := .list [0x82] 2 (countFrom 2)

theorem pairOfNumbers_wellFormed (max : ℕ) (hmax : 0 < max) : pairOfNumbers.WellFormed max := by
  refine ⟨hmax, isHead_small (b := 0x82) (by decide), fun i => ⟨hmax, ?_⟩⟩
  refine ⟨_, [], _, _, (List.append_nil _).symm, isHead_small (b := UInt8.ofNat (i + 1)) ?_, Or.inl ⟨Or.inl ?_, rfl⟩⟩
  · revert i
    decide
  · revert i
    decide

/-- The list is skipped. -/
theorem pairOfNumbers_skipped :
    (chunkReader.skip zcborReference (chunkState [0x82, 1, 2, 3])).1 = true ∧
      chunkReader.Elements id [0x82, 1, 2, 3] 3 0 [] 8
        (chunkReader.skip zcborReference (chunkState [0x82, 1, 2, 3])).2 :=
  (StreamReader.skip_iff zcborReference_skipLaws chunkReader_readsNext
    (pairOfNumbers_wellFormed _ (by decide)) (by decide) (by decide) (chunkState_elements _)
    (show [0x82, 1, 2, 3].drop 0 = pairOfNumbers.bytes ++ [3] from rfl)).2.2 ⟨by decide, by decide, trivial⟩

/-- The map `A1 01 02` is skipped by the plain decoder and not by the streaming one. Neither is the list of one list
of sixteen numbers, which is longer than the window. -/
theorem map_not_skipped :
    (run (binaryDecoder { zcbor := zcborReference }) (decode .skip) (.new 8 [0xa1, 1, 2] 0 3 1)).1 = true ∧
      (chunkReader.skip zcborReference (chunkState [0xa1, 1, 2])).1 = false ∧
      (run (binaryDecoder { zcbor := zcborReference }) (decode .skip)
        (.new 8 ([0x81, 0x90] ++ List.replicate 16 1) 0 18 1)).1 = true ∧
      (chunkReader.skip zcborReference (chunkState ([0x81, 0x90] ++ List.replicate 16 1))).1 = false := by
  decide +kernel

end ThingSet
