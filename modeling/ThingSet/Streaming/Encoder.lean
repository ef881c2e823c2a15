import ThingSet.BinaryEncoder
import ThingSet.Foundations.Chunks
import ThingSet.Foundations.Transition

/-!
# The streaming encoder

`StreamingThingSetBinaryEncoder` encodes into a buffer of twice the size of a chunk. Before every
item it writes a chunk when there is more in the buffer than one chunk carries, and moves the rest
to the start; `flush` writes what remains. A chunk has a header, which belongs to the derived
class.

`chunks_of_encode`: while no item is larger than a chunk carries, the chunks carry what a single
buffer would receive, and every chunk but the last is full.
-/

namespace ThingSet

open Transition

/-- The functions of zcbor that a streaming encoder calls. `processBackup` is
`zcbor_process_backup` with the flags of `encodeListMapEnd`. -/
structure ZcborStreamEncode extends ZcborEncode where
  processBackup : ZcborEncodeState → Bool × ZcborEncodeState

/-- A class derived from `StreamingThingSetBinaryEncoder<Size>`: the size of a chunk and of its
header, the byte that the constructor places in front of the payload, and `write`, which is given
the payload, whether it is the last one, and `_exportedLength`. Its state has the header. -/
structure StreamingEncoder (ω : Type) where
  size : ℕ
  headerSize : ℕ
  headerSize_lt : headerSize < size
  reportType : Option UInt8
  write : Bytes → Bool → ℕ → ω → Bool × ω

/-- The members. Pointers and the bytes in front of them count from `&_buffer[headerSize]` on;
`chunks` are the payloads that have been passed to `write`. -/
structure StreamingEncodeState (ω : Type) where
  zcbor : ZcborEncodeState
  exportedLength : ℕ := 0
  out : ω
  chunks : List Bytes := []

/-- The function of zcbor that an encode call makes, if it makes one: the end of a list or a map
goes through `encodeListMapEnd`. -/
def ZcborStreamEncode.call (Z : ZcborStreamEncode) :
    EncodeOp → Option (ZcborEncodeState → Bool × ZcborEncodeState)
  | .string value => some (binaryEncoder Z.toZcborEncode (.string value))
  | .float value => some (binaryEncoder Z.toZcborEncode (.float value))
  | .double value => some (binaryEncoder Z.toZcborEncode (.double value))
  | .bool value => some (binaryEncoder Z.toZcborEncode (.bool value))
  | .uint w value => some (binaryEncoder Z.toZcborEncode (.uint w value))
  | .int w value => some (binaryEncoder Z.toZcborEncode (.int w value))
  | .null => some (binaryEncoder Z.toZcborEncode .null)
  | .preamble => some (binaryEncoder Z.toZcborEncode .preamble)
  | .listStart count => some (binaryEncoder Z.toZcborEncode (.listStart count))
  | .mapStart count => some (binaryEncoder Z.toZcborEncode (.mapStart count))
  | .bytes buffer => some (binaryEncoder Z.toZcborEncode (.bytes buffer))
  | .listEnd _ | .mapEnd _ => some Z.processBackup
  | .listSeparator | .keyValuePairSeparator | .encodeKeysAsIds | .renderGroupAsOutline
  | .renderedListLength _ | .truncationMarker => none

/-- `zcbor_update_state`. -/
def ZcborEncodeState.updateState (z : ZcborEncodeState) (payload : Bytes) (payloadLen : ℕ) :
    ZcborEncodeState :=
  { z with output := payload, capacity := payload.length + payloadLen }

namespace StreamingEncoder

variable {ω : Type} (C : StreamingEncoder ω) (Z : ZcborStreamEncode)

/-- What a chunk carries. -/
def dataSize : ℕ := C.size - C.headerSize

/-- The constructor of a derived class. -/
def new (elementCount : ℕ) (out : ω) : StreamingEncodeState ω where
  zcbor := {
    output := C.reportType.toList
    capacity := 2 * C.size - C.headerSize
    elemCount := elementCount
    depth := 8 }
  out := out

/-- `writeIfNecessary`. All that lies in the buffer behind the chunk is moved. -/
def writeIfNecessary (s : StreamingEncodeState ω) : Bool × StreamingEncodeState ω :=
  let currentPos := s.zcbor.output.length
  if currentPos > C.dataSize then
    let payload := s.zcbor.output.take C.dataSize
    let (written, out) := C.write payload false s.exportedLength s.out
    let s := { s with out := out, chunks := s.chunks ++ [payload] }
    if !written then (false, s)
    else
      let newPos := currentPos - C.dataSize
      (true, { s with
        exportedLength := s.exportedLength + C.dataSize
        zcbor := s.zcbor.updateState (s.zcbor.output.drop C.dataSize) (2 * C.size - newPos) })
  else (true, s)

/-- An encode call. -/
def encode (o : EncodeOp) (s : StreamingEncodeState ω) : Bool × StreamingEncodeState ω :=
  match Z.call o with
  | none => (true, s)
  | some f =>
    let (ok, s) := C.writeIfNecessary s
    if ok then
      let (ok, z) := f s.zcbor
      (ok, { s with zcbor := z })
    else (false, s)

/-- The last chunk. -/
def writeLast (s : StreamingEncodeState ω) : Bool × StreamingEncodeState ω :=
  let payload := s.zcbor.output
  let (written, out) := C.write payload true s.exportedLength s.out
  (written, { s with
    exportedLength := s.exportedLength + payload.length
    out := out
    chunks := s.chunks ++ [payload] })

/-- `flush`. -/
def flush (s : StreamingEncodeState ω) : Bool × StreamingEncodeState ω :=
  if s.zcbor.output.length > C.dataSize then
    let (ok, s) := C.writeIfNecessary s
    if !ok then (false, s) else C.writeLast s
  else C.writeLast s

end StreamingEncoder

/-! ## Derived classes -/

/-- The type of a message of a report: `Ip::MessageType` and `Can::MultiFrameMessageType`. -/
inductive MessageType
  | first
  | consecutive
  | last
  | single
  deriving DecidableEq, Repr

/-- The type of the message that is written. -/
def MessageType.ofWrite (flushing : Bool) (exportedLength : ℕ) : MessageType :=
  if exportedLength = 0 then if flushing then .single else .first
  else if flushing then .last else .consecutive

/-- `Ip::MessageType` as a byte. -/
def MessageType.code : MessageType → UInt8
  | .first => 0x00
  | .consecutive => 0x10
  | .last => 0x20
  | .single => 0x30

/-- The byte in front of a report. -/
def reportType (enhanced : Bool) : UInt8 := if enhanced then 0x1E else 0x1F

/-- What a `StreamingUdpThingSetBinaryEncoder` and its transport change. -/
structure UdpOut (τ : Type) where
  sequenceNumber : UInt8 := 0
  messageNumber : UInt8
  socket : τ

/-- `getMessageType` of a datagram. -/
def messageTypeOf (header : UInt8) : Option MessageType :=
  [MessageType.first, .consecutive, .last, .single].find? fun t => t.code = header &&& 0xF0

/-- `publish` of the socket transports, which are given the buffer of the encoder. -/
def socketPublish {τ : Type} (send : Bytes → τ → Bool × τ) (buffer : Bytes) (o : UdpOut τ) :
    Bool × UdpOut τ :=
  let buffer := buffer.set 1 o.messageNumber
  let messageType := messageTypeOf (buffer.headD 0)
  let messageNumber :=
    if messageType = some .single ∨ messageType = some .last then o.messageNumber + 1
    else o.messageNumber
  let (sent, socket) := send buffer o.socket
  (sent, { o with messageNumber := messageNumber, socket := socket })

/-- `StreamingUdpThingSetBinaryEncoder`, with `send` for the socket. -/
def streamingUdpEncoder {τ : Type} (enhanced : Bool) (send : Bytes → τ → Bool × τ) :
    StreamingEncoder (UdpOut τ) where
  size := 512
  headerSize := 2
  headerSize_lt := by decide
  reportType := some (reportType enhanced)
  write payload flushing exportedLength o :=
    let type := MessageType.ofWrite flushing exportedLength
    -- the transport sets the second byte
    let buffer := (type.code ||| (o.sequenceNumber &&& 0x0F)) :: 0 :: payload
    socketPublish send buffer { o with sequenceNumber := o.sequenceNumber + 1 }

/-- `StreamingCanThingSetBinaryEncoder` for frames of `size` bytes, with `publish` of the
transport, which is given the type and the sequence number in the id. -/
def streamingCanEncoder {τ : Type} (size : ℕ) (size_pos : 0 < size) (enhanced : Bool)
    (publish : MessageType → UInt8 → Bytes → τ → Bool × τ) : StreamingEncoder (UInt8 × τ) where
  size := size
  headerSize := 0
  headerSize_lt := size_pos
  reportType := some (reportType enhanced)
  write payload flushing exportedLength o :=
    let type := MessageType.ofWrite flushing exportedLength
    let (published, transport) := publish type o.1 payload o.2
    (published, (o.1 + 1, transport))

/-- A streaming encoder to memory, without a byte in front: a chunk of more than `size` bytes is
refused. -/
def inMemoryStreamingEncoder (size : ℕ) (size_pos : 0 < size) : StreamingEncoder Bytes where
  size := size
  headerSize := 0
  headerSize_lt := size_pos
  reportType := none
  write payload _ _ output :=
    if payload.length > size then (false, output) else (true, output ++ payload)

/-! ## The reference functions -/

/-- The reference functions, with the end of a container that keeps the payload. -/
def zcborStreamReference : ZcborStreamEncode where
  toZcborEncode := zcborEncodeReference
  processBackup s :=
    match s.backups with
    | [] => (false, s)
    | (_, elemCount) :: backups => (true, { s with elemCount := elemCount, backups := backups })

open ZcborEncodeReference in
/-- What the reference functions make of an item. -/
def itemReference : EncodeOp → Bytes
  | .string value =>
    let text := value.takeWhile (· ≠ 0)
    Cbor.writeHead 3 text.length ++ text
  | .float value => 0xFA :: Cbor.beBytes 4 value.toNat
  | .double value => 0xFB :: Cbor.beBytes 8 value.toNat
  | .bool value => [if value then 0xF5 else 0xF4]
  | .uint _ value => Cbor.writeHead 0 value
  | .int _ value => intHead value
  | .null | .preamble => [0xF6]
  | .listStart count => Cbor.writeHead 4 (count.getD uint8Max)
  | .mapStart count => Cbor.writeHead 5 (count.getD uint8Max)
  | .bytes buffer => Cbor.writeHead 2 buffer.length ++ buffer
  | _ => []

/-! ## The chunks -/

/-- Every item is appended at the payload, and the end of a list or a map writes nothing. -/
structure ZcborStreamEncode.AppendsItems (Z : ZcborStreamEncode) (item : EncodeOp → Bytes) :
    Prop where
  append : ∀ o f z z', Z.call o = some f → f z = (true, z') → z'.output = z.output ++ item o
  none : ∀ o, Z.call o = none → item o = []
  listEnd : ∀ count, item (.listEnd count) = []
  mapEnd : ∀ count, item (.mapEnd count) = []

namespace StreamingEncoder

variable {ω : Type} {C : StreamingEncoder ω} {Z : ZcborStreamEncode} {item : EncodeOp → Bytes}
  {s s' : StreamingEncodeState ω} {bs : Bytes}

/-- The bytes `bs` have been encoded: some are in full chunks, the rest fits into two. -/
structure Encoded (C : StreamingEncoder ω) (bs : Bytes) (s : StreamingEncodeState ω) : Prop where
  full : ∀ c ∈ s.chunks, c.length = C.dataSize
  flatten : s.chunks.flatten ++ s.zcbor.output = bs
  length_le : s.zcbor.output.length ≤ 2 * C.dataSize

theorem dataSize_pos : 0 < C.dataSize := Nat.sub_pos_of_lt C.headerSize_lt

theorem encoded_new (elementCount : ℕ) (out : ω) :
    C.Encoded C.reportType.toList (C.new elementCount out) := by
  refine ⟨by simp [new], by simp [new], ?_⟩
  have hlen : C.reportType.toList.length ≤ 1 := by cases C.reportType <;> simp
  have hpos := dataSize_pos (C := C)
  simp only [new]
  omega

/-- After `writeIfNecessary` what remains fits into one chunk. -/
theorem encoded_writeIfNecessary (h : C.Encoded bs s) (hs : C.writeIfNecessary s = (true, s')) :
    C.Encoded bs s' ∧ s'.zcbor.output.length ≤ C.dataSize := by
  obtain ⟨hfull, hflatten, hlen⟩ := h
  simp only [writeIfNecessary] at hs
  split at hs
  · rename_i hlt
    split at hs
    · cases hs
    · obtain ⟨-, rfl⟩ := Prod.mk.inj hs
      refine ⟨⟨fun c hc => ?_, ?_, ?_⟩, ?_⟩
      · rcases List.mem_append.1 hc with hc | hc
        · exact hfull c hc
        · rw [List.mem_singleton.1 hc, List.length_take]
          omega
      · simp only [ZcborEncodeState.updateState, List.flatten_append, List.flatten_singleton,
          List.append_assoc, List.take_append_drop]
        exact hflatten
      · simp only [ZcborEncodeState.updateState, List.length_drop]
        omega
      · simp only [ZcborEncodeState.updateState, List.length_drop]
        omega
  · obtain ⟨-, rfl⟩ := Prod.mk.inj hs
    exact ⟨⟨hfull, hflatten, hlen⟩, by omega⟩

/-- A call that succeeds appends its item. -/
theorem encoded_encode (hZ : Z.AppendsItems item) (h : C.Encoded bs s) {o : EncodeOp}
    (ho : (item o).length ≤ C.dataSize) (hs : C.encode Z o s = (true, s')) :
    C.Encoded (bs ++ item o) s' := by
  rw [encode] at hs
  split at hs
  · rename_i hcall
    obtain ⟨-, rfl⟩ := Prod.mk.inj hs
    rwa [hZ.none o hcall, List.append_nil]
  · rename_i f hcall
    rcases hwrite : C.writeIfNecessary s with ⟨ok, s₁⟩
    rw [hwrite] at hs
    cases ok with
    | false => simp at hs
    | true =>
      obtain ⟨⟨hfull, hflatten, -⟩, hlen⟩ := encoded_writeIfNecessary h hwrite
      rcases hf : f s₁.zcbor with ⟨ok, z⟩
      simp only [hf, if_true] at hs
      obtain ⟨rfl, rfl⟩ := Prod.mk.inj hs
      have happend := hZ.append o f _ _ hcall hf
      refine ⟨hfull, ?_, ?_⟩
      · simp only [happend, ← List.append_assoc, hflatten]
      · simp only [happend, List.length_append]
        omega

/-- Calls that succeed append their items. -/
theorem encoded_runCalls (hZ : Z.AppendsItems item) (h : C.Encoded bs s) {calls : List EncodeOp}
    (hcalls : ∀ o ∈ calls, (item o).length ≤ C.dataSize)
    (hok : ∀ r ∈ (runCalls (C.encode Z) calls s).1, r = true) :
    C.Encoded (bs ++ calls.flatMap item) (runCalls (C.encode Z) calls s).2 := by
  induction calls generalizing s bs with
  | nil => simpa [runCalls] using h
  | cons o calls ih =>
    rcases hcall : C.encode Z o s with ⟨ok, s'⟩
    simp only [runCalls, hcall, List.mem_cons, forall_eq_or_imp] at hok ⊢
    obtain ⟨rfl, hok⟩ := hok
    rw [List.flatMap_cons, ← List.append_assoc]
    exact ih (encoded_encode hZ h (hcalls o List.mem_cons_self) hcall)
      (fun o' ho' => hcalls o' (List.mem_cons_of_mem o ho')) hok

/-- The chunks after the last one. -/
theorem chunks_writeLast (h : C.Encoded bs s) (hlen : s.zcbor.output.length ≤ C.dataSize) :
    (C.writeLast s).2.chunks.flatten = bs ∧ Chunked C.dataSize (C.writeLast s).2.chunks :=
  ⟨by simp only [writeLast, List.flatten_append, List.flatten_singleton, h.flatten],
    Chunked.append_last h.full hlen⟩

/-- The chunks after a flush. -/
theorem chunks_flush (h : C.Encoded bs s) (hs : C.flush s = (true, s')) :
    s'.chunks.flatten = bs ∧ Chunked C.dataSize s'.chunks := by
  rw [flush] at hs
  split at hs
  · rcases hwrite : C.writeIfNecessary s with ⟨ok, s₁⟩
    rw [hwrite] at hs
    cases ok with
    | false => simp at hs
    | true =>
      simp only [Bool.not_true, Bool.false_eq_true, if_false] at hs
      obtain ⟨h₁, hlen⟩ := encoded_writeIfNecessary h hwrite
      rw [show s' = (C.writeLast s₁).2 by rw [hs]]
      exact chunks_writeLast h₁ hlen
  · rw [show s' = (C.writeLast s).2 by rw [hs]]
    exact chunks_writeLast h (by omega)

/-- **The chunks carry what a single buffer would receive, and all but the last are full.** -/
theorem chunks_of_encode (hZ : Z.AppendsItems item) (elementCount : ℕ) (out : ω)
    (calls : List EncodeOp) (hcalls : ∀ o ∈ calls, (item o).length ≤ C.dataSize)
    (hok : ∀ r ∈ (runCalls (C.encode Z) calls (C.new elementCount out)).1, r = true)
    (hflush : C.flush (runCalls (C.encode Z) calls (C.new elementCount out)).2 = (true, s')) :
    s'.chunks.flatten = C.reportType.toList ++ calls.flatMap item ∧ Chunked C.dataSize s'.chunks :=
  chunks_flush (encoded_runCalls hZ (encoded_new elementCount out) hcalls hok) hflush

/-! ## The last chunk is not empty -/

theorem output_pos_writeIfNecessary (h : 0 < s.zcbor.output.length)
    (hs : C.writeIfNecessary s = (true, s')) : 0 < s'.zcbor.output.length := by
  simp only [writeIfNecessary] at hs
  split at hs
  · split at hs
    · cases hs
    · obtain ⟨-, rfl⟩ := Prod.mk.inj hs
      simp only [ZcborEncodeState.updateState, List.length_drop]
      omega
  · obtain ⟨-, rfl⟩ := Prod.mk.inj hs
    exact h

theorem output_pos_encode (hZ : Z.AppendsItems item) (h : 0 < s.zcbor.output.length) {o : EncodeOp}
    (hs : C.encode Z o s = (true, s')) : 0 < s'.zcbor.output.length := by
  rw [encode] at hs
  split at hs
  · obtain ⟨-, rfl⟩ := Prod.mk.inj hs
    exact h
  · rename_i f hcall
    rcases hwrite : C.writeIfNecessary s with ⟨ok, s₁⟩
    rw [hwrite] at hs
    cases ok with
    | false => simp at hs
    | true =>
      have hpos := output_pos_writeIfNecessary h hwrite
      rcases hf : f s₁.zcbor with ⟨ok, z⟩
      simp only [hf, if_true] at hs
      obtain ⟨rfl, rfl⟩ := Prod.mk.inj hs
      simp only [hZ.append o f _ _ hcall hf, List.length_append]
      omega

theorem output_pos_runCalls (hZ : Z.AppendsItems item) (h : 0 < s.zcbor.output.length)
    {calls : List EncodeOp} (hok : ∀ r ∈ (runCalls (C.encode Z) calls s).1, r = true) :
    0 < (runCalls (C.encode Z) calls s).2.zcbor.output.length := by
  induction calls generalizing s with
  | nil => exact h
  | cons o calls ih =>
    rcases hcall : C.encode Z o s with ⟨ok, s'⟩
    simp only [runCalls, hcall, List.mem_cons, forall_eq_or_imp] at hok ⊢
    obtain ⟨rfl, hok⟩ := hok
    exact ih (output_pos_encode hZ h hcall) hok

/-- What is flushed last is what is in the buffer. -/
theorem getLast_flush (h : 0 < s.zcbor.output.length) (hs : C.flush s = (true, s')) :
    ∃ c, s'.chunks.getLast? = some c ∧ 0 < c.length := by
  rw [flush] at hs
  split at hs
  · rcases hwrite : C.writeIfNecessary s with ⟨ok, s₁⟩
    rw [hwrite] at hs
    cases ok with
    | false => simp at hs
    | true =>
      simp only [Bool.not_true, Bool.false_eq_true, if_false] at hs
      rw [show s' = (C.writeLast s₁).2 by rw [hs]]
      exact ⟨_, List.getLast?_concat, output_pos_writeIfNecessary h hwrite⟩
  · rw [show s' = (C.writeLast s).2 by rw [hs]]
    exact ⟨_, List.getLast?_concat, h⟩

/-- An encoder of reports never ends one with an empty chunk. -/
theorem getLast_of_encode (hZ : Z.AppendsItems item) (htype : C.reportType.isSome)
    (elementCount : ℕ) (out : ω) (calls : List EncodeOp)
    (hok : ∀ r ∈ (runCalls (C.encode Z) calls (C.new elementCount out)).1, r = true)
    (hflush : C.flush (runCalls (C.encode Z) calls (C.new elementCount out)).2 = (true, s')) :
    ∃ c, s'.chunks.getLast? = some c ∧ 0 < c.length := by
  obtain ⟨type, htype⟩ := Option.isSome_iff_exists.1 htype
  refine getLast_flush (output_pos_runCalls hZ ?_ hok) hflush
  simp only [new, htype, Option.toList_some, List.length_singleton, Nat.one_pos]

end StreamingEncoder

/-! ## The reference functions append -/

namespace ZcborEncodeReference

variable {bs : Bytes} {major max : ℕ} {z z' : ZcborEncodeState}

theorem output_of_put (h : put bs z = (true, z')) : z'.output = z.output ++ bs := by
  rw [put] at h
  split at h
  · obtain ⟨-, rfl⟩ := Prod.mk.inj h
    rfl
  · cases h

theorem output_of_start (h : start major max z = (true, z')) :
    z'.output = z.output ++ Cbor.writeHead major max := by
  rw [start] at h
  split at h
  · obtain ⟨-, rfl⟩ := Prod.mk.inj h
    rfl
  · cases h

end ZcborEncodeReference

open ZcborEncodeReference in
/-- A call of a reference function appends an item, starts a container or ends one. -/
theorem zcborStreamReference_call {o : EncodeOp}
    {f : ZcborEncodeState → Bool × ZcborEncodeState} (h : zcborStreamReference.call o = some f) :
    f = put (itemReference o) ∨
      (∃ major max, f = start major max ∧ itemReference o = Cbor.writeHead major max) ∨
        f = zcborStreamReference.processBackup ∧ itemReference o = [] := by
  cases o with
  | string | float | double | bool | null | preamble | bytes =>
    obtain rfl := Option.some.inj h
    exact .inl rfl
  | uint w | int w =>
    obtain rfl := Option.some.inj h
    cases w <;> exact .inl rfl
  | listStart | mapStart =>
    obtain rfl := Option.some.inj h
    exact .inr (.inl ⟨_, _, rfl, rfl⟩)
  | listEnd | mapEnd =>
    obtain rfl := Option.some.inj h
    exact .inr (.inr ⟨rfl, rfl⟩)
  | _ => cases h

/-- Ending a container keeps the payload. -/
theorem zcborStreamReference_processBackup (z : ZcborEncodeState) :
    (zcborStreamReference.processBackup z).2.output = z.output ∧
      (zcborStreamReference.processBackup z).2.capacity = z.capacity := by
  simp only [zcborStreamReference]
  split <;> exact ⟨rfl, rfl⟩

open ZcborEncodeReference in
theorem zcborStreamReference_appendsItems : zcborStreamReference.AppendsItems itemReference where
  append o f z z' hf hz := by
    rcases zcborStreamReference_call hf with rfl | ⟨major, max, rfl, hitem⟩ | ⟨rfl, hitem⟩
    · exact output_of_put hz
    · rw [hitem]
      exact output_of_start hz
    · have hkeep := (zcborStreamReference_processBackup z).1
      rw [hz] at hkeep
      rw [hitem, List.append_nil]
      exact hkeep
  none o ho := by cases o <;> first | rfl | cases ho
  listEnd _ := rfl
  mapEnd _ := rfl

/-- `"Hello!"` and the number 32768. -/
def encodeOverflowCalls : List EncodeOp :=
  [.string [0x48, 0x65, 0x6C, 0x6C, 0x6F, 0x21], .int .w32 32768]

/-- The encoder after they have been encoded for chunks of eight bytes. -/
def encodeOverflow : StreamingEncodeState Bytes :=
  let C := inMemoryStreamingEncoder 8 (Nat.succ_pos 7)
  (C.flush (runCalls (C.encode zcborStreamReference) encodeOverflowCalls (C.new 2 [])).2).2

/-- The string and the number straddle the end of the first chunk. -/
theorem encodeOverflow_chunks :
    encodeOverflow.chunks.flatten = [] ++ encodeOverflowCalls.flatMap itemReference ∧
      Chunked 8 encodeOverflow.chunks :=
  StreamingEncoder.chunks_of_encode (C := inMemoryStreamingEncoder 8 (Nat.succ_pos 7))
    zcborStreamReference_appendsItems 2 [] encodeOverflowCalls (by decide) (by decide)
    (Prod.ext (by decide) rfl)

end ThingSet
