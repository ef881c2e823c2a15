import ThingSet.Can.CanID
import ThingSet.Streaming.Decoder

/-!
# The frames of reports

A report is published through a streaming encoder of its own and a transport that all reports share. The
encoder puts the type and the sequence number in the header of a frame, the transport its message number,
which it advances after the last frame of a report.

* `Labelled`: the fields that an encoder and its transport put into the headers.
* `Labelled.publishAll`: what the receivers read from the headers of reports that are all published.
-/

namespace ThingSet

open Transition

/-! ## Publishing -/

/-- The items of a report: those that `zcbor_new_encode_state` counts, and the encode calls. -/
structure ReportItems where
  elementCount : ℕ
  calls : List EncodeOp

namespace StreamingEncoder

variable {ω : Type} (C : StreamingEncoder ω) (Z : ZcborStreamEncode)

/-- Encode calls, up to the first that fails. -/
def encodeAll : List EncodeOp → StreamingEncodeState ω → Bool × StreamingEncodeState ω
  | [], s => (true, s)
  | o :: calls, s =>
    let (ok, s) := C.encode Z o s
    if ok then encodeAll calls s else (false, s)

/-- `publish` of the server, with a new encoder. -/
def publish (report : ReportItems) (out : ω) : Bool × ω :=
  let (ok, s) := C.encodeAll Z report.calls (C.new report.elementCount out)
  if ok then
    let (ok, s) := C.flush s
    (ok, s.out)
  else (false, s.out)

variable {C Z} {Q : ℕ → ω → Prop} {s s' : StreamingEncodeState ω} {k : ℕ}

/-- `Q k` holds when `k` chunks of a report have been written. -/
def Advances (C : StreamingEncoder ω) (Q : ℕ → ω → Prop) : Prop :=
  ∀ k payload e o o', Q k o → (e = 0 ↔ k = 0) → C.write payload false e o = (true, o') → Q (k + 1) o'

/-- The number of chunks that have been written. -/
structure Written (Q : ℕ → ω → Prop) (k : ℕ) (s : StreamingEncodeState ω) : Prop where
  out : Q k s.out
  exported : s.exportedLength = 0 ↔ k = 0

theorem written_writeIfNecessary (hQ : C.Advances Q) (h : Written Q k s)
    (hs : C.writeIfNecessary s = (true, s')) : ∃ k, Written Q k s' := by
  simp only [writeIfNecessary] at hs
  split at hs
  · split at hs
    · cases hs
    · rename_i hok
      obtain ⟨-, rfl⟩ := Prod.mk.inj hs
      have hpos := dataSize_pos (C := C)
      have hwrite : (C.write (s.zcbor.output.take C.dataSize) false s.exportedLength s.out).1 = true := by
        simpa using hok
      exact ⟨k + 1, hQ k _ _ _ _ h.out h.exported (Prod.ext hwrite rfl), by dsimp only; omega⟩
  · obtain ⟨-, rfl⟩ := Prod.mk.inj hs
    exact ⟨k, h⟩

theorem written_encode (hQ : C.Advances Q) (h : Written Q k s) {o : EncodeOp}
    (hs : C.encode Z o s = (true, s')) : ∃ k, Written Q k s' := by
  rw [encode] at hs
  split at hs
  · obtain ⟨-, rfl⟩ := Prod.mk.inj hs
    exact ⟨k, h⟩
  · rename_i f _
    rcases hwrite : C.writeIfNecessary s with ⟨ok, s₁⟩
    rw [hwrite] at hs
    cases ok with
    | false => simp at hs
    | true =>
      obtain ⟨k, hout, hexported⟩ := written_writeIfNecessary hQ h hwrite
      simp only [if_true] at hs
      obtain ⟨-, rfl⟩ := Prod.mk.inj hs
      exact ⟨k, hout, hexported⟩

theorem written_encodeAll (hQ : C.Advances Q) {calls : List EncodeOp} (h : Written Q k s)
    (hs : C.encodeAll Z calls s = (true, s')) : ∃ k, Written Q k s' := by
  induction calls generalizing s k with
  | nil =>
    obtain ⟨-, rfl⟩ := Prod.mk.inj hs
    exact ⟨k, h⟩
  | cons o calls ih =>
    rw [encodeAll] at hs
    rcases hcall : C.encode Z o s with ⟨ok, s₁⟩
    rw [hcall] at hs
    cases ok with
    | false => simp at hs
    | true =>
      obtain ⟨k, h⟩ := written_encode hQ h hcall
      exact ih h hs

/-- A report that is published ends with one call of `write` that flushes. -/
theorem publish_of_advances (hQ : C.Advances Q) {report : ReportItems} {out out' : ω} (h : Q 0 out)
    (hs : C.publish Z report out = (true, out')) :
    ∃ k payload e o, Q k o ∧ (e = 0 ↔ k = 0) ∧ C.write payload true e o = (true, out') := by
  rw [publish] at hs
  rcases hall : C.encodeAll Z report.calls (C.new report.elementCount out) with ⟨ok, s⟩
  rw [hall] at hs
  cases ok with
  | false => simp at hs
  | true =>
    obtain ⟨k, hwritten⟩ := written_encodeAll (k := 0) hQ ⟨h, by simp [new]⟩ hall
    simp only [if_true] at hs
    obtain ⟨hok, hout⟩ := Prod.mk.inj hs
    have hlast : ∀ {k s}, Written Q k s → (C.writeLast s).1 = true → (C.writeLast s).2.out = out' →
        ∃ k payload e o, Q k o ∧ (e = 0 ↔ k = 0) ∧ C.write payload true e o = (true, out') :=
      fun {k s} hw hok hout => ⟨k, s.zcbor.output, s.exportedLength, s.out, hw.out, hw.exported,
        Prod.ext hok hout⟩
    rw [flush] at hok hout
    split at hok
    · rename_i hlt
      rw [if_pos hlt] at hout
      rcases hwrite : C.writeIfNecessary s with ⟨ok, s₁⟩
      rw [hwrite] at hok hout
      cases ok with
      | false => simp at hok
      | true =>
        obtain ⟨k, hwritten⟩ := written_writeIfNecessary hQ hwritten hwrite
        exact hlast hwritten hok hout
    · rename_i hlt
      rw [if_neg hlt] at hout
      exact hlast hwritten hok hout

end StreamingEncoder

/-! ## Headers -/

/-- What a receiver reads from the header of a frame. -/
structure Header where
  type : Option MessageType
  sequenceNumber : ℕ
  messageNumber : ℕ
  deriving DecidableEq, Repr

/-- The type of frame `j` of `n`. -/
def MessageType.ofIndex (n j : ℕ) : MessageType :=
  if j + 1 = n then if j = 0 then .single else .last
  else if j = 0 then .first else .consecutive

/-- The headers of a report of `n` frames. -/
def reportHeaders (n messageNumber : ℕ) : List Header :=
  (List.range n).map fun j => ⟨some (.ofIndex n j), j % 16, messageNumber⟩

/-- The headers of successive reports, given the number of frames of each and the message number of the
first. -/
def headersOf (modulus : ℕ) : ℕ → List ℕ → List Header
  | _, [] => []
  | m, n :: ns => reportHeaders n (m % modulus) ++ headersOf modulus (m + 1) ns

/-- The headers of the first `k` frames of a longer report. -/
def openHeaders (k messageNumber : ℕ) : List Header :=
  (List.range k).map fun j => ⟨some (if j = 0 then .first else .consecutive), j % 16, messageNumber⟩

theorem openHeaders_succ (k m : ℕ) : openHeaders (k + 1) m =
    openHeaders k m ++ [⟨some (if k = 0 then .first else .consecutive), k % 16, m⟩] := by
  rw [openHeaders, List.range_succ, List.map_append]
  rfl

theorem reportHeaders_succ (k m : ℕ) : reportHeaders (k + 1) m =
    openHeaders k m ++ [⟨some (if k = 0 then .single else .last), k % 16, m⟩] := by
  rw [reportHeaders, List.range_succ, List.map_append, openHeaders]
  congr 1
  · refine List.map_congr_left fun j hj => ?_
    have hlt := List.mem_range.1 hj
    rw [MessageType.ofIndex, if_neg (by omega)]
  · simp [MessageType.ofIndex]

namespace StreamingEncoder

variable {ω : Type} {C : StreamingEncoder ω} {Z : ZcborStreamEncode} {modulus : ℕ} {renew : ω → ω}
  {log : ω → List Header} {seq number : ω → UInt8} {out out' : ω}

/-- Each frame has the type of its call of `write`, a sequence number that counts from the construction
of the encoder, and a message number that counts the calls that flush. -/
structure Labelled (C : StreamingEncoder ω) (modulus : ℕ) (renew : ω → ω) (log : ω → List Header)
    (seq number : ω → UInt8) : Prop where
  renew : ∀ o, log (renew o) = log o ∧ seq (renew o) = 0 ∧ number (renew o) = number o
  write : ∀ payload flushing e o o', C.write payload flushing e o = (true, o') →
    log o' = log o ++
        [⟨some (MessageType.ofWrite flushing e), (seq o).toNat % 16, (number o).toNat % modulus⟩] ∧
      seq o' = seq o + 1 ∧ number o' = if flushing then number o + 1 else number o

theorem toNat_ofNat_mod (k : ℕ) : (UInt8.ofNat k).toNat % 16 = k % 16 := by
  rw [UInt8.toNat_ofNat']
  exact Nat.mod_mod_of_dvd k ⟨16, rfl⟩

/-- The headers of a report. -/
theorem Labelled.publish (hC : C.Labelled modulus renew log seq number) {report : ReportItems}
    (h : C.publish Z report (renew out) = (true, out')) :
    ∃ n, 0 < n ∧ log out' = log out ++ reportHeaders n ((number out).toNat % modulus) ∧
      number out' = number out + 1 := by
  obtain ⟨hlog, hseq, hnumber⟩ := hC.renew out
  have hQ : C.Advances fun k o => seq o = UInt8.ofNat k ∧ number o = number out ∧
      log o = log out ++ openHeaders k ((number out).toNat % modulus) := by
    rintro k payload e o o' ⟨hk, hn, hl⟩ he hwrite
    obtain ⟨hl', hk', hn'⟩ := hC.write _ _ _ _ _ hwrite
    refine ⟨?_, hn'.trans hn, ?_⟩
    · rw [hk', hk, UInt8.ofNat_add]
      rfl
    · rw [hl', hl, hk, hn, openHeaders_succ, List.append_assoc, toNat_ofNat_mod]
      simp only [MessageType.ofWrite, he, Bool.false_eq_true, if_false]
  obtain ⟨k, payload, e, o, ⟨hk, hn, hl⟩, he, hwrite⟩ :=
    publish_of_advances hQ ⟨hseq, hnumber, by simp [hlog, openHeaders]⟩ h
  obtain ⟨hl', -, hn'⟩ := hC.write _ _ _ _ _ hwrite
  refine ⟨k + 1, k.succ_pos, ?_, by rw [hn', if_pos rfl, hn]⟩
  rw [hl', hl, hk, hn, reportHeaders_succ, List.append_assoc, toNat_ofNat_mod]
  simp only [MessageType.ofWrite, he, if_true]

/-- The headers of successive reports. -/
theorem Labelled.publishAll (hC : C.Labelled modulus renew log seq number) (hmodulus : modulus ∣ 256)
    {reports : List ReportItems}
    (h : ∀ r ∈ (runCalls (fun report o => C.publish Z report (renew o)) reports out).1, r = true) {m : ℕ}
    (hm : (number out).toNat = m % 256) :
    ∃ ns : List ℕ, ns.length = reports.length ∧ (∀ n ∈ ns, 0 < n) ∧
      log (runCalls (fun report o => C.publish Z report (renew o)) reports out).2 =
        log out ++ headersOf modulus m ns := by
  induction reports generalizing out m with
  | nil => exact ⟨[], rfl, nofun, (List.append_nil _).symm⟩
  | cons report reports ih =>
    rcases hpublish : C.publish Z report (renew out) with ⟨ok, out₁⟩
    simp only [runCalls, hpublish, List.mem_cons, forall_eq_or_imp] at h ⊢
    obtain ⟨rfl, h⟩ := h
    obtain ⟨n, hpos, hlog, hnumber⟩ := hC.publish hpublish
    have hm' : (number out₁).toNat = (m + 1) % 256 := by
      rw [hnumber, UInt8.toNat_add, hm]
      simp
    obtain ⟨ns, hlength, hns, hlogs⟩ := ih h hm'
    refine ⟨n :: ns, by simp [hlength], by simpa using ⟨hpos, hns⟩, ?_⟩
    rw [hlogs, hlog, headersOf, List.append_assoc, hm, Nat.mod_mod_of_dvd m hmodulus]

end StreamingEncoder

/-- What a transport hands to its socket or its bus is recorded. -/
def logged {α τ : Type} (send : α → τ → Bool × τ) (x : α) (o : List α × τ) : Bool × (List α × τ) :=
  let (sent, t) := send x o.2
  (sent, (o.1 ++ [x], t))

/-! ## UDP -/

/-- The header of a datagram. -/
def udpHeader (datagram : Bytes) : Header :=
  ⟨messageTypeOf (datagram.headD 0), (datagram.headD 0 &&& 0x0F).toNat, (datagram.getD 1 0).toNat⟩

theorem header_byte (type : MessageType) (n : UInt8) :
    messageTypeOf (type.code ||| (n &&& 0x0F)) = some type ∧
      ((type.code ||| (n &&& 0x0F)) &&& 0x0F).toNat = n.toNat % 16 := by
  have h : ∀ b : BitVec 8, messageTypeOf (type.code ||| (UInt8.ofBitVec b &&& 0x0F)) = some type ∧
      ((type.code ||| (UInt8.ofBitVec b &&& 0x0F)) &&& 0x0F).toNat = b.toNat % 16 := by
    cases type <;> decide +kernel
  exact h n.toBitVec

/-- The transport reads the type that the encoder has set. -/
theorem udp_write {τ : Type} (enhanced : Bool) (send : Bytes → τ → Bool × τ) (payload : Bytes) (flushing : Bool)
    (e : ℕ) (o : UdpOut τ) :
    (streamingUdpEncoder enhanced send).write payload flushing e o =
      let type := MessageType.ofWrite flushing e
      let sent := send ((type.code ||| (o.sequenceNumber &&& 0x0F)) :: o.messageNumber :: payload) o.socket
      (sent.1, {
        sequenceNumber := o.sequenceNumber + 1
        messageNumber := if type = .single ∨ type = .last then o.messageNumber + 1 else o.messageNumber
        socket := sent.2 }) := by
  simp only [streamingUdpEncoder, socketPublish, List.set_cons_succ, List.set_cons_zero, List.headD_cons, header_byte,
    Option.some.injEq]

theorem udp_labelled {τ : Type} (enhanced : Bool) (send : Bytes → τ → Bool × τ) :
    (streamingUdpEncoder enhanced (logged send)).Labelled 256 (fun o => { o with sequenceNumber := 0 })
      (fun o => o.socket.1.map udpHeader) (·.sequenceNumber) (·.messageNumber) where
  renew _ := ⟨rfl, rfl, rfl⟩
  write payload flushing e o o' h := by
    obtain ⟨-, rfl⟩ := Prod.mk.inj ((udp_write enhanced (logged send) payload flushing e o).symm.trans h)
    refine ⟨?_, rfl, ?_⟩
    · have hlt : o.messageNumber.toNat % 256 = o.messageNumber.toNat :=
        Nat.mod_eq_of_lt o.messageNumber.toNat_lt
      simp only [logged, List.map_append, List.map_singleton, udpHeader, List.headD_cons, header_byte]
      simp [hlt]
    · cases flushing <;> by_cases he : e = 0 <;> simp [MessageType.ofWrite, he]

/-! ## CAN -/

/-- `ThingSetCanServerTransport`, with the state of its bus. -/
structure CanTransport (τ : Type) where
  messageNumber : UInt8
  bus : τ

/-- The id that `StreamingCanThingSetBinaryEncoder::send` sets. -/
def reportId (frameType : MessageType) (sequenceNumber : UInt8) : CanID :=
  (((CanID.new.setMessagePriority .reportLow).setMessageType .multiFrameReport).setMultiFrameMessageType
    frameType).setSequenceNumber sequenceNumber

/-- `publish`, for a node address and `doPublish`. -/
def CanTransport.publish {τ : Type} (nodeAddress : τ → UInt8) (doPublish : CanID × Bytes → τ → Bool × τ)
    (frameType : MessageType) (sequenceNumber : UInt8) (payload : Bytes) (t : CanTransport τ) :
    Bool × CanTransport τ :=
  let id := ((reportId frameType sequenceNumber).setSource (nodeAddress t.bus)).setMessageNumber
    t.messageNumber
  let (result, bus) := doPublish (id, payload) t.bus
  let type := id.getMultiFrameMessageType
  (result, {
    messageNumber := if type = some .last ∨ type = some .single then t.messageNumber + 1 else t.messageNumber
    bus := bus })

/-- `doPublish`: what is sent is the native frame. -/
def doPublish {τ : Type} (size : ℕ) (flagInId : Bool) (send : BitVec 32 × Bytes → τ → Bool × τ)
    (frame : CanID × Bytes) (t : τ) : Bool × τ :=
  if frame.2.length > size then (false, t) else send (frame.1.wire flagInId, frame.2) t

/-- The header of a frame, from its id. -/
def canHeader (id : BitVec 32) : Header :=
  let c := CanID.create id
  ⟨c.getMultiFrameMessageType, c.getSequenceNumber.toNat, c.getMessageNumber.toNat⟩

open CanID in
/-- The fields of the id of a frame of a report. -/
theorem reportId_fields (frameType : MessageType) (sequenceNumber address messageNumber : UInt8) :
    let c := ((reportId frameType sequenceNumber).setSource address).setMessageNumber messageNumber
    BitField.get multiFrameTypeMask c.id = frameType.canCode ∧
      BitField.get sequenceNumberMask c.id = shifted sequenceNumber 8 &&& sequenceNumberMask ∧
      BitField.get messageNumberMask c.id = shifted messageNumber 14 &&& messageNumberMask ∧
      BitField.get messagePriorityMask c.id = MessagePriority.reportLow.code := by
  simp only [setMessageNumber, setSource, reportId, setSequenceNumber, setMultiFrameMessageType,
    setMessageType, setMessagePriority]
  refine ⟨?_, ?_, ?_, ?_⟩ <;>
    simp (disch := first | exact BitField.fits_and _ _ | exact fits_canCode _ | decide) only
      [get_setField_of_disjoint, get_setField]

open CanID in
/-- The id is extended, so its fields are read back. -/
theorem canHeader_wire (flagInId : Bool) (frameType : MessageType)
    (sequenceNumber address messageNumber : UInt8) :
    canHeader ((((reportId frameType sequenceNumber).setSource address).setMessageNumber
      messageNumber).wire flagInId) =
        ⟨some frameType, sequenceNumber.toNat % 16, messageNumber.toNat % 4⟩ := by
  obtain ⟨htype, hseq, hnumber, hpriority⟩ :=
    reportId_fields frameType sequenceNumber address messageNumber
  generalize ((reportId frameType sequenceNumber).setSource address).setMessageNumber messageNumber = c at *
  have hid : sffMask < c.id := by
    have hle := get_le messagePriorityMask c
    rw [hpriority] at hle
    have hlt : sffMask < MessagePriority.reportLow.code := by decide
    rw [BitVec.lt_def, BitVec.le_def] at *
    omega
  have hnibble : ∀ b : BitVec 8,
      (((b.setWidth 32 <<< 8 &&& sequenceNumberMask) >>> 8).setWidth 8).toNat = b.toNat % 16 ∧
        (((b.setWidth 32 <<< 14 &&& messageNumberMask) >>> 14).setWidth 8).toNat = b.toNat % 4 := by
    decide +kernel
  rw [canHeader]
  simp only [getMultiFrameMessageType, getSequenceNumber, getMessageNumber, getField,
    get_create multiFrameTypeMask hid (by decide) (by decide),
    get_create sequenceNumberMask hid (by decide) (by decide),
    get_create messageNumberMask hid (by decide) (by decide), htype, hseq, hnumber]
  congr 1
  · cases frameType <;> decide
  · exact (hnibble sequenceNumber.toBitVec).1
  · exact (hnibble messageNumber.toBitVec).2

theorem can_labelled {τ : Type} (size : ℕ) (size_pos : 0 < size) (enhanced flagInId : Bool)
    (nodeAddress : List (BitVec 32 × Bytes) × τ → UInt8) (send : BitVec 32 × Bytes → τ → Bool × τ) :
    (streamingCanEncoder size size_pos enhanced
      (CanTransport.publish nodeAddress (doPublish size flagInId (logged send)))).Labelled 4
        (fun o => (0, o.2)) (fun o => o.2.bus.1.map (canHeader ·.1)) (·.1) (·.2.messageNumber) where
  renew _ := ⟨rfl, rfl, rfl⟩
  write payload flushing e o o' h := by
    simp only [streamingCanEncoder, CanTransport.publish, doPublish] at h
    split at h
    · cases (Prod.mk.inj h).1
    · obtain ⟨-, rfl⟩ := Prod.mk.inj h
      have htype : ∀ (n a m : UInt8), ((((reportId (MessageType.ofWrite flushing e) n).setSource
          a).setMessageNumber m).getMultiFrameMessageType) = some (MessageType.ofWrite flushing e) := by
        intro n a m
        rw [CanID.getMultiFrameMessageType, (reportId_fields _ n a m).1]
        cases MessageType.ofWrite flushing e <;> decide
      refine ⟨?_, rfl, ?_⟩
      · simp only [logged, List.map_append, List.map_singleton, canHeader_wire]
      · simp only [htype]
        cases flushing <;> by_cases he : e = 0 <;> simp [MessageType.ofWrite, he]

end ThingSet
