import ThingSet.Foundations.Transition
import ThingSet.Streaming.Encoder

/-!
# The streaming decoder

`StreamingQueuingThingSetBinaryDecoder` queues the messages of a report until the last one has come.
Its window is a buffer of twice the size of a message. When a decode call finds the payload past
the first `Size - headerSize` bytes, what follows these is moved to the start, and messages from
the queue are copied behind it while they fit. `SubscriptionListener::handle` has a decoder for
each sender.

Lengths are of type `size_t`, and the length of a failed `recvfrom` is -1.
-/

namespace ThingSet

open Transition

/-- The parameters of a `StreamingQueuingThingSetBinaryDecoder`: the size of a message and of its
header, as they are for CAN (any size and no header) and for UDP (512 and 2). The window is an
array, so its size is at most `PTRDIFF_MAX`. -/
structure StreamingDecoder where
  size : ℕ
  headerSize : ℕ
  header_lt : 2 * headerSize < size - headerSize
  size_lt : 2 * size < 2 ^ 63

/-- A message as it was received: its type, the bytes of its buffer, and its length. -/
structure Message where
  type : Option MessageType
  data : Bytes
  length : ℕ

/-- A `memcpy` to the window: where to, how many bytes, and how many bytes the message has behind
its header. -/
structure Copy where
  position : ℕ
  length : ℕ
  received : ℕ
  deriving DecidableEq

/-- The members. Pointers count from the start of `_buffer`; `ready` is set when a report is
complete, `received` is the end of the bytes received so far in `_buffer`, and `copies` are the
copies made to it. -/
structure StreamingDecodeState where
  buffer : Bytes
  payload : ℕ
  payloadEnd : ℕ
  decodedLength : ℕ := 0
  queue : List Message := []
  ready : Bool := false
  received : ℕ := 0
  copies : List Copy := []

/-- A datagram. -/
def udpMessage (buffer : Bytes) (length : ℕ) : Message :=
  ⟨messageTypeOf (buffer.headD 0), buffer, length⟩

/-- `StreamingUdpThingSetBinaryDecoder`. -/
def udpDecoder : StreamingDecoder where
  size := 512
  headerSize := 2
  header_lt := by decide
  size_lt := by decide

/-- `StreamingCanThingSetBinaryDecoder` for frames of `size` bytes. -/
def canDecoder (size : ℕ) (size_pos : 0 < size) (size_lt : 2 * size < 2 ^ 63) :
    StreamingDecoder where
  size := size
  headerSize := 0
  header_lt := size_pos
  size_lt := size_lt

namespace StreamingDecoder

variable (C : StreamingDecoder)

/-- `Size - headerSize()`. -/
def dataSize : ℕ := C.size - C.headerSize

/-- `getBuffer`. -/
def getBuffer (m : Message) : Bytes × ℕ :=
  (m.data.drop C.headerSize, toSize ((m.length : ℤ) - C.headerSize))

/-- The bytes that a message has behind its header. A buffer has `size` bytes. -/
def received (m : Message) : ℕ := if m.length ≤ C.size then m.length - C.headerSize else 0

/-- A decoder as it is constructed, on a buffer that is not initialised. -/
def new (buffer : Bytes) : StreamingDecodeState where
  buffer := buffer
  payload := 0
  payloadEnd := 2 * C.size

/-- The loop of `read(pos, maxSize)`: the position, and the messages that stay in the queue. -/
def pull : List Message → ℕ → StreamingDecodeState → ℕ × StreamingDecodeState
  | [], pos, s => (pos, { s with queue := [] })
  | m :: queue, pos, s =>
    if pos ≤ 2 * C.size then
      let (src, length) := C.getBuffer m
      let next := toSize (pos + length)
      if next ≤ 2 * C.size then
        pull queue next { s with
          buffer := memcpy s.buffer pos src length
          received := max s.received next
          copies := s.copies ++ [⟨pos, length, C.received m⟩] }
      else (pos, { s with queue := m :: queue })
    else (pos, { s with queue := m :: queue })

/-- `read(pos, maxSize)`. -/
def read (pos : ℕ) (s : StreamingDecodeState) : ℕ × StreamingDecodeState :=
  if s.queue = [] then (0, s) else C.pull s.queue pos s

/-- `enqueue`. -/
def enqueue (m : Message) (s : StreamingDecodeState) : Bool × StreamingDecodeState :=
  let s := { s with queue := s.queue ++ [m] }
  if m.type = some .single ∨ m.type = some .last then
    let s := (C.read 0 s).2
    (true, { s with payload := 1, payloadEnd := 1 + (2 * C.size - 1), ready := true })
  else (false, s)

/-- `ensureLength`. -/
def ensureLength (s : StreamingDecodeState) : StreamingDecodeState :=
  let currentPos := s.payload
  if currentPos > C.dataSize then
    let s := { s with
      buffer := memcpy s.buffer 0 (s.buffer.drop C.dataSize) C.dataSize
      decodedLength := s.decodedLength + C.dataSize }
    let (readSize, s) := C.read C.dataSize s
    { s with payload := currentPos - C.dataSize, payloadEnd := C.dataSize + readSize }
  else s

/-- A decode call whose item has `n` bytes: what it consumes, if there are as many. -/
def decode (n : ℕ) (s : StreamingDecodeState) : Option Bytes × StreamingDecodeState :=
  let s := C.ensureLength s
  if s.payload + n ≤ s.payloadEnd then
    (some ((s.buffer.drop s.payload).take n), { s with payload := s.payload + n })
  else (none, s)

end StreamingDecoder

/-! ## The listener -/

/-- A message from a sender, with what is in the buffer of a decoder that is constructed for it,
or a decode call by the callback. -/
inductive StreamEvent (K : Type)
  | receive (key : K) (m : Message) (stale : Bytes)
  | decode (key : K) (n : ℕ)

section Listener

variable {K : Type} [DecidableEq K] (C : StreamingDecoder)

/-- The decoder that takes a message: a new one for a new report. -/
def StreamingDecoder.decoderFor (key : K) (m : Message) (stale : Bytes)
    (decoders : K → Option StreamingDecodeState) : Option StreamingDecodeState :=
  if m.type = some .first ∨ m.type = some .single then some (C.new stale) else decoders key

/-- `SubscriptionListener::handle`, up to the callback. -/
def StreamingDecoder.handle (key : K) (m : Message) (stale : Bytes)
    (decoders : K → Option StreamingDecodeState) : K → Option StreamingDecodeState :=
  match C.decoderFor key m stale decoders with
  | none => decoders
  | some s => Function.update decoders key (some (C.enqueue m s).2)

/-- The decoders after an event. Decode calls are made on decoders of complete reports. -/
def StreamingDecoder.step (decoders : K → Option StreamingDecodeState) :
    StreamEvent K → Option (K → Option StreamingDecodeState)
  | .receive key m stale => some (C.handle key m stale decoders)
  | .decode key n =>
    match decoders key with
    | none => none
    | some s =>
      if s.ready then some (Function.update decoders key (some (C.decode n s).2)) else none

end Listener

/-! ## Messages that fit -/

namespace StreamingDecoder

variable {C : StreamingDecoder} {m : Message} {queue pre post : List Message} {pos : ℕ}
  {s s' : StreamingDecodeState}

/-- The message has been received with its header. -/
structure Complete (C : StreamingDecoder) (m : Message) : Prop where
  header_le : C.headerSize ≤ m.length
  length_le : m.length ≤ C.size

/-- What messages carry behind their headers. -/
def carried (C : StreamingDecoder) (queue : List Message) : ℕ := (queue.map C.received).sum

/-- From `pos` on, the window takes the messages `pre` of a queue and leaves `post`; all that are
looked at are complete. -/
structure Takes (C : StreamingDecoder) (pos : ℕ) (queue pre post : List Message) : Prop where
  append : pre ++ post = queue
  complete : ∀ m ∈ pre, C.Complete m
  fits : pos + C.carried pre ≤ 2 * C.size
  next : ∀ m ∈ post.head?, C.Complete m ∧ 2 * C.size < pos + C.carried pre + C.received m

/-- A copy stays within the message and within the window. -/
structure CopyInBounds (C : StreamingDecoder) (c : Copy) : Prop where
  source : c.length ≤ c.received
  window : c.position + c.length ≤ 2 * C.size

@[simp] theorem carried_nil : C.carried [] = 0 := rfl

@[simp] theorem carried_cons : C.carried (m :: queue) = C.received m + C.carried queue := by
  simp [carried]

theorem Complete.received_eq (h : C.Complete m) : C.received m = m.length - C.headerSize :=
  if_pos h.length_le

theorem Complete.getBuffer (h : C.Complete m) :
    C.getBuffer m = (m.data.drop C.headerSize, C.received m) := by
  have hsize := C.size_lt
  have hheader := h.header_le
  have hlength := h.length_le
  rw [StreamingDecoder.getBuffer, h.received_eq, ← Int.ofNat_sub hheader,
    toSize_natCast (by omega)]

theorem Complete.toSize_next (h : C.Complete m) (hpos : pos ≤ 2 * C.size) :
    toSize (pos + (C.received m : ℕ)) = pos + C.received m := by
  have hsize := C.size_lt
  have hlength := h.length_le
  have hreceived := h.received_eq
  rw [← Int.natCast_add, toSize_natCast (by omega)]

/-- The window after messages have been copied from `pos` on. -/
def copyAll (C : StreamingDecoder) : ℕ → List Message → Bytes → Bytes
  | _, [], buffer => buffer
  | pos, m :: ms, buffer =>
    copyAll C (pos + C.received m) ms (memcpy buffer pos (m.data.drop C.headerSize) (C.received m))

/-- What the loop does when all messages that it looks at are complete. -/
theorem pull_of_takes (h : C.Takes pos queue pre post) (s : StreamingDecodeState) :
    ∃ copies, C.pull queue pos s =
        (pos + C.carried pre, { s with
          buffer := C.copyAll pos pre s.buffer
          queue := post
          received := if pre = [] then s.received else max s.received (pos + C.carried pre)
          copies := s.copies ++ copies }) ∧
      ∀ c ∈ copies, C.CopyInBounds c := by
  induction pre generalizing pos queue s with
  | nil =>
    obtain ⟨rfl, -, hfits, hnext⟩ := h
    cases post with
    | nil => exact ⟨[], by simp [pull, copyAll], by simp⟩
    | cons m post =>
      obtain ⟨hm, hlt⟩ := hnext m rfl
      have hpos : pos ≤ 2 * C.size := by simpa using hfits
      refine ⟨[], ?_, by simp⟩
      simp only [carried_nil, Nat.add_zero] at hlt
      simp only [List.nil_append, pull, if_pos hpos, hm.getBuffer, hm.toSize_next hpos,
        if_neg (Nat.not_le.2 hlt), carried_nil, Nat.add_zero, if_true, List.append_nil, copyAll]
  | cons m pre ih =>
    obtain ⟨rfl, hcomplete, hfits, hnext⟩ := h
    have hm := hcomplete m List.mem_cons_self
    rw [carried_cons] at hfits
    have hpos : pos ≤ 2 * C.size := by omega
    have hle : pos + C.received m ≤ 2 * C.size := by omega
    have htail : C.Takes (pos + C.received m) (pre ++ post) pre post :=
      ⟨rfl, fun x hx => hcomplete x (List.mem_cons_of_mem m hx), by omega,
        fun x hx => by
          have := hnext x hx
          rw [carried_cons] at this
          exact ⟨this.1, by omega⟩⟩
    obtain ⟨copies, hpull, hcopies⟩ := ih htail { s with
      buffer := memcpy s.buffer pos (m.data.drop C.headerSize) (C.received m)
      received := max s.received (pos + C.received m)
      copies := s.copies ++ [⟨pos, C.received m, C.received m⟩] }
    refine ⟨⟨pos, C.received m, C.received m⟩ :: copies, ?_, ?_⟩
    · simp only [List.cons_append, pull, if_pos hpos, hm.getBuffer, hm.toSize_next hpos, if_pos hle,
        hpull, carried_cons, Nat.add_assoc, List.append_assoc, reduceCtorEq, if_false, copyAll]
      congr 2
      split
      · rename_i hpre
        rw [hpre, carried_nil, Nat.add_zero]
      · omega
    · intro c hc
      rcases List.mem_cons.1 hc with rfl | hc
      · exact ⟨le_rfl, hle⟩
      · exact hcopies c hc

/-- What `read` does when all messages that it looks at are complete. -/
theorem read_of_takes (h : C.Takes pos s.queue pre post) :
    ∃ copies, C.read pos s =
        (if s.queue = [] then 0 else pos + C.carried pre, { s with
          buffer := C.copyAll pos pre s.buffer
          queue := post
          received := if pre = [] then s.received else max s.received (pos + C.carried pre)
          copies := s.copies ++ copies }) ∧
      ∀ c ∈ copies, C.CopyInBounds c := by
  rw [read]
  split
  · rename_i hqueue
    obtain ⟨hpre, hpost⟩ : pre = [] ∧ post = [] := by
      rw [← List.append_eq_nil_iff, h.append, hqueue]
    subst hpre hpost
    refine ⟨[], ?_, by simp⟩
    simp only [if_true, copyAll, List.append_nil, ← hqueue]
  · obtain ⟨copies, hpull, hcopies⟩ := pull_of_takes h s
    exact ⟨copies, hpull, hcopies⟩

end StreamingDecoder

end ThingSet
