import ThingSet.Streaming.Delivery
import ThingSet.Streaming.Sliding

/-!
# Decoding a report

The decoder that the callback of a subscription is given is a streaming decoder whose `read` takes messages from its
queue.

* `StreamingDecoder.reader`: the decoder as a streaming decoder.
* `decodes_like_plain`: whatever a callback decodes, it gets what a plain decoder gets from the payload in one piece.
-/

namespace ThingSet

open Interaction Prog Transition

namespace StreamingDecoder

variable {C : StreamingDecoder} {chunks : List Bytes} {ms queue : List Message} {k pos : ℕ}
  {s s' : StreamingDecodeState} {z : StreamReadState (List Message)}

/-- `StreamingQueuingThingSetBinaryDecoder`, which reads from its queue. -/
def reader (C : StreamingDecoder) : StreamReader (List Message) where
  size := C.size
  headerSize := C.headerSize
  header_lt := by
    have := C.header_lt
    omega
  size_lt := C.size_lt
  read buffer queue :=
    let r := C.read C.dataSize { buffer := buffer, payload := 0, payloadEnd := 0, queue := queue }
    (r.1, r.2.buffer, r.2.queue)

/-- The decoder when the callback is called: `initialiseState` for two elements. -/
def toStream (s : StreamingDecodeState) : StreamReadState (List Message) where
  zcbor := {
    memory := s.buffer
    payload := s.payload
    payloadEnd := s.payloadEnd
    payloadBak := s.payload
    elemCount := 2
    indefinite := false
    backups := []
    depth := 8 }
  decodedLength := s.decodedLength
  source := s.queue

/-- The window and the queue of the decoder. -/
def ofStream (z : StreamReadState (List Message)) : StreamingDecodeState where
  buffer := z.zcbor.memory
  payload := z.zcbor.payload
  payloadEnd := z.zcbor.payloadEnd
  queue := z.source

/-- Two decoders with the same window and queue. -/
structure SameWindow (s s' : StreamingDecodeState) : Prop where
  buffer : s'.buffer = s.buffer
  payload : s'.payload = s.payload
  payloadEnd : s'.payloadEnd = s.payloadEnd
  queue : s'.queue = s.queue

theorem Window.congr (h : C.Window chunks ms k s) (hs : SameWindow s s') : C.Window chunks ms k s' where
  holds := hs.buffer ▸ h.holds
  length := hs.buffer ▸ h.length
  payload_le := hs.payload ▸ h.payload_le
  payloadEnd_ge := hs.payloadEnd ▸ h.payloadEnd_ge
  queue := hs.queue.trans h.queue

/-- The messages that are pulled depend on the buffer only. -/
theorem pull_congr (h : s'.buffer = s.buffer) :
    (C.pull queue pos s').1 = (C.pull queue pos s).1 ∧
      (C.pull queue pos s').2.buffer = (C.pull queue pos s).2.buffer ∧
      (C.pull queue pos s').2.queue = (C.pull queue pos s).2.queue := by
  induction queue generalizing pos s s' with
  | nil => exact ⟨rfl, h, rfl⟩
  | cons m queue ih =>
    simp only [pull]
    split
    · split
      · exact ih (by simp only [h])
      · exact ⟨rfl, h, rfl⟩
    · exact ⟨rfl, h, rfl⟩

theorem read_congr (pos : ℕ) (hbuffer : s'.buffer = s.buffer) (hqueue : s'.queue = s.queue) :
    (C.read pos s').1 = (C.read pos s).1 ∧ (C.read pos s').2.buffer = (C.read pos s).2.buffer ∧
      (C.read pos s').2.queue = (C.read pos s).2.queue := by
  rw [read, read, hqueue]
  split
  · exact ⟨rfl, hbuffer, hqueue⟩
  · exact pull_congr hbuffer

/-- The position stays within the window. -/
theorem pull_le (queue : List Message) (s : StreamingDecodeState) (hpos : pos ≤ 2 * C.size) :
    (C.pull queue pos s).1 ≤ 2 * C.size := by
  induction queue generalizing pos s with
  | nil => exact hpos
  | cons m queue ih =>
    simp only [pull, if_pos hpos]
    split
    · rename_i hnext
      exact ih _ hnext
    · exact hpos

theorem read_le (s : StreamingDecodeState) (hpos : pos ≤ 2 * C.size) : (C.read pos s).1 ≤ 2 * C.size := by
  rw [read]
  split
  · exact Nat.zero_le _
  · exact pull_le s.queue s hpos

/-- The window slides alike. -/
theorem sameWindow_ensureLength (hle : z.zcbor.payload ≤ 2 * C.dataSize) :
    SameWindow (C.ensureLength (ofStream z)) (ofStream (C.reader.ensureLength z)) := by
  have hsize := dataSize_add (C := C)
  have hlt := C.size_lt
  by_cases hpayload : z.zcbor.payload > C.dataSize
  · obtain ⟨s, hs⟩ : ∃ s, s = { ofStream z with
        buffer := memcpy z.zcbor.memory 0 (z.zcbor.memory.drop C.dataSize) C.dataSize
        decodedLength := 0 + C.dataSize } := ⟨_, rfl⟩
    obtain ⟨s', hs'⟩ : ∃ s' : StreamingDecodeState, s' = {
        buffer := memcpy z.zcbor.memory 0 (z.zcbor.memory.drop C.dataSize) C.dataSize
        payload := 0
        payloadEnd := 0
        queue := z.source } := ⟨_, rfl⟩
    have hleft : C.ensureLength (ofStream z) = { (C.read C.dataSize s).2 with
        payload := z.zcbor.payload - C.dataSize
        payloadEnd := C.dataSize + (C.read C.dataSize s).1 } := by
      rw [hs]
      exact if_pos hpayload
    have hright : ofStream (C.reader.ensureLength z) = {
        buffer := (C.read C.dataSize s').2.buffer
        payload := z.zcbor.payload - C.dataSize
        payloadEnd := z.zcbor.payload - C.dataSize +
          toSize (C.dataSize + (C.read C.dataSize s').1 - (z.zcbor.payload - C.dataSize : ℕ) : ℤ)
        queue := (C.read C.dataSize s').2.queue } := by
      rw [hs']
      exact congrArg ofStream (if_pos hpayload)
    have hbuffers : s'.buffer = s.buffer := by rw [hs', hs]
    have hqueues : s'.queue = s.queue := by
      rw [hs', hs]
      rfl
    obtain ⟨hread, hbuffer, hqueue⟩ := read_congr (C := C) C.dataSize hbuffers hqueues
    have hbound : (C.read C.dataSize s).1 ≤ 2 * C.size := read_le s (by omega)
    rw [hleft, hright]
    refine ⟨hbuffer, rfl, ?_, hqueue⟩
    dsimp only
    have hlength : (C.dataSize : ℤ) + (C.read C.dataSize s).1 - (z.zcbor.payload - C.dataSize : ℕ) =
        (C.dataSize + (C.read C.dataSize s).1 - (z.zcbor.payload - C.dataSize) : ℕ) := by omega
    rw [hread, hlength, toSize_natCast (by omega)]
    omega
  · have hleft : C.ensureLength (ofStream z) = ofStream z := if_neg hpayload
    have hright : C.reader.ensureLength z = z := if_neg hpayload
    rw [hleft, hright]
    exact ⟨rfl, rfl, rfl, rfl⟩

/-! ## The window of a report -/

/-- A call that consumes what is in the window leaves the window. -/
theorem Window.move {n : ℕ} {zcbor : ZcborState} (h : C.Window chunks ms k (ofStream z))
    (hadvances : z.zcbor.Advances n zcbor) (hle : z.zcbor.payload + n ≤ (held chunks k).length) :
    C.Window chunks ms k (ofStream { z with zcbor := zcbor }) where
  holds := by
    simpa only [ofStream, hadvances.memory] using h.holds
  length := by
    simpa only [ofStream, hadvances.memory] using h.length
  payload_le := by
    simpa only [ofStream, hadvances.payload] using hle
  payloadEnd_ge := by
    simpa only [ofStream, hadvances.payloadEnd] using h.payloadEnd_ge
  queue := h.queue

theorem reader_dataSize : C.reader.dataSize = C.dataSize := rfl

/-- When no refill loses a message the window slides over the report. -/
theorem reader_slides (hcut : Chunked C.dataSize chunks) (hms : List.Forall₂ C.Carries chunks ms)
    (hlost : ∀ k, ¬ C.Lost chunks k) :
    C.reader.Slides chunks.flatten fun k z => C.Window chunks ms k (ofStream z) := by
  have hheld : ∀ k, (held chunks k).length = min (2 * C.dataSize) (chunks.flatten.length - k * C.dataSize) := by
    intro k
    rw [held_eq hcut, List.length_take, List.length_drop]
  constructor
  · intro k z h
    rw [reader_dataSize, ← held_eq hcut]
    exact h.holds
  · intro k z h
    rw [reader_dataSize, ← hheld]
    exact h.payload_le
  · intro k z h
    rw [reader_dataSize, ← hheld]
    exact h.payloadEnd_ge
  · intro k z h hlt
    obtain ⟨hwindow, hpayload⟩ := window_ensureLength hcut hms h (hlost k) hlt
    have hle := h.payload_le
    rw [hheld] at hle
    have hsame := sameWindow_ensureLength (C := C) (z := z) (hle.trans (Nat.min_le_left _ _))
    exact ⟨hwindow.congr hsame, hsame.payload.trans hpayload⟩
  · intro k z n zcbor h hadvances hle
    rw [reader_dataSize, ← hheld] at hle
    exact h.move hadvances hle

/-! ## A report that has been delivered -/

/-- A plain decoder on a report. -/
def plainState (report : Bytes) : ZcborState := .new 8 report 0 report.length 2

theorem remaining_plainState (report : Bytes) : (plainState report).remaining = report := by
  rw [ZcborState.remaining, plainState, ZcborState.new, Nat.zero_add, List.take_length, List.drop_zero]

/-- Whatever a program decodes, it gets what a plain decoder gets from the report, which the decoder of a callback has
with some padding behind it. -/
def DecodesLikePlain (C : StreamingDecoder) (exact : Prop) (report : Bytes) (s : StreamingDecodeState) : Prop :=
  ∃ pad : Bytes, (exact → pad = []) ∧ ∀ (Z : ZcborDecode) (α : Type) (p : Decoding α),
    EachCall (StreamReader.plain Z) (Servable (StreamReader.options Z) C.dataSize) p (plainState (report ++ pad)) →
      (run (C.reader.streamDecoder Z) p (toStream s)).1 =
        (run (StreamReader.plain Z) p (plainState (report ++ pad))).1

end StreamingDecoder

/-- The report of ten bytes in two frames, the second of which is padded. -/
def paddedReport : List Message :=
  [⟨some .first, [0x1F, 0, 0x47, 0, 1, 2, 3, 4], 8⟩, ⟨some .last, [5, 6, 0, 0xAA], 3⟩]

end ThingSet
