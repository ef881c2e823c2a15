import ThingSet.Streaming.Encoder
import Mathlib.Data.List.Induction

/-!
# The bounds of the streaming encoder

After the first chunk, `writeIfNecessary` computes the length of what is left of the buffer without
the header, and no call writes more than one chunk.

`inBounds_iff`: for items of any size, the pointers of zcbor stay within the buffer, and no chunk is
too long, exactly when the chunks have no header or nothing is written before the flush.
-/

namespace ThingSet

open Transition

/-- Nothing is written at or past `payload_end`, and `payload_end` stays. -/
def ZcborStreamEncode.WritesBelowEnd (Z : ZcborStreamEncode) : Prop :=
  ∀ o f z, Z.call o = some f →
    (f z).2.capacity = z.capacity ∧
      (z.output.length ≤ z.capacity → (f z).2.output.length ≤ z.capacity)

namespace StreamingEncoder

variable {ω : Type} {C : StreamingEncoder ω} {Z : ZcborStreamEncode}
  {s s' : StreamingEncodeState ω} {calls : List EncodeOp}

/-- The pointers of zcbor are within `_buffer`, and `write` has had no more than a chunk carries. -/
structure InBounds (C : StreamingEncoder ω) (s : StreamingEncodeState ω) : Prop where
  payload : C.headerSize + s.zcbor.output.length ≤ 2 * C.size
  payloadEnd : C.headerSize + s.zcbor.capacity ≤ 2 * C.size
  chunks : ∀ c ∈ s.chunks, c.length ≤ C.dataSize

/-- There is more in the buffer than a chunk carries, and a chunk will be written. -/
def Spills (C : StreamingEncoder ω) (s : StreamingEncodeState ω) : Prop :=
  C.dataSize < s.zcbor.output.length ∧
    (C.write (s.zcbor.output.take C.dataSize) false s.exportedLength s.out).1 = true

/-- `payload_end` is the end of the buffer. -/
structure Fits (C : StreamingEncoder ω) (s : StreamingEncodeState ω) : Prop where
  capacity : s.zcbor.capacity = 2 * C.size - C.headerSize
  length_le : s.zcbor.output.length ≤ s.zcbor.capacity
  chunks : ∀ c ∈ s.chunks, c.length ≤ C.dataSize

theorem Fits.inBounds (h : C.Fits s) : C.InBounds s := by
  have hlt := C.headerSize_lt
  have hcapacity := h.capacity
  have hlen := h.length_le
  exact ⟨by omega, by omega, h.chunks⟩

theorem fits_new (elementCount : ℕ) (out : ω) : C.Fits (C.new elementCount out) := by
  have hlen : C.reportType.toList.length ≤ 1 := by cases C.reportType <;> simp
  have hlt := C.headerSize_lt
  refine ⟨rfl, ?_, by simp [new]⟩
  simp only [new]
  omega

/-- Writing a chunk without a header leaves `payload_end` where it is. -/
theorem fits_writeIfNecessary (h : C.Fits s) (hs : C.headerSize = 0 ∨ ¬ C.Spills s) :
    C.Fits (C.writeIfNecessary s).2 := by
  obtain ⟨hcapacity, hlen, hchunks⟩ := h
  have hchunks' : ∀ c ∈ s.chunks ++ [s.zcbor.output.take C.dataSize], c.length ≤ C.dataSize := by
    intro c hc
    rcases List.mem_append.1 hc with hc | hc
    · exact hchunks c hc
    · rw [List.mem_singleton.1 hc]
      exact List.length_take_le _ _
  simp only [writeIfNecessary]
  split
  · rename_i hlt
    split
    · exact ⟨hcapacity, hlen, hchunks'⟩
    · rename_i hwritten
      have hzero : C.headerSize = 0 := hs.resolve_right (not_not_intro ⟨hlt, by simpa using hwritten⟩)
      refine ⟨?_, ?_, hchunks'⟩
      · simp only [ZcborEncodeState.updateState, List.length_drop]
        omega
      · simp only [ZcborEncodeState.updateState, List.length_drop]
        omega
  · exact ⟨hcapacity, hlen, hchunks⟩

theorem fits_encode (hZ : Z.WritesBelowEnd) (h : C.Fits s) (hs : C.headerSize = 0 ∨ ¬ C.Spills s)
    (o : EncodeOp) : C.Fits (C.encode Z o s).2 := by
  rw [encode]
  split
  · exact h
  · rename_i f hcall
    have hwrite := fits_writeIfNecessary h hs
    rcases hw : C.writeIfNecessary s with ⟨ok, s₁⟩
    rw [hw] at hwrite
    cases ok with
    | false => exact hwrite
    | true =>
      obtain ⟨hcapacity, hlen⟩ := hZ o f s₁.zcbor hcall
      exact ⟨hcapacity.trans hwrite.capacity, (hlen hwrite.length_le).trans hcapacity.ge,
        hwrite.chunks⟩

theorem fits_writeLast (h : C.Fits s) (hlen : s.zcbor.output.length ≤ C.dataSize) :
    C.Fits (C.writeLast s).2 := by
  refine ⟨h.capacity, h.length_le, fun c hc => ?_⟩
  rcases List.mem_append.1 hc with hc | hc
  · exact h.chunks c hc
  · rwa [List.mem_singleton.1 hc]

theorem fits_flush (h : C.Fits s) (hs : C.headerSize = 0 ∨ ¬ C.Spills s) : C.Fits (C.flush s).2 := by
  rw [flush]
  split
  · rename_i hlt
    have hwrite := fits_writeIfNecessary h hs
    rcases hw : C.writeIfNecessary s with ⟨ok, s₁⟩
    rw [hw] at hwrite
    cases ok with
    | false => exact hwrite
    | true =>
      -- a chunk has been written, so it has no header and two of them fill the buffer
      have hspills : C.Spills s := by
        refine ⟨hlt, ?_⟩
        simp only [writeIfNecessary, if_pos hlt] at hw
        split at hw
        · cases hw
        · rename_i hwritten
          simpa using hwritten
      have hzero := hs.resolve_right (not_not_intro hspills)
      have hlen : s₁.zcbor.output.length ≤ C.dataSize := by
        have hbuffer := h.length_le
        have hcapacity := h.capacity
        simp only [writeIfNecessary, if_pos hlt, hspills.2, Bool.not_true, Bool.false_eq_true,
          if_false] at hw
        obtain ⟨-, rfl⟩ := Prod.mk.inj hw
        simp only [ZcborEncodeState.updateState, List.length_drop, dataSize]
        omega
      exact fits_writeLast hwrite hlen
  · exact fits_writeLast h (by omega)

/-- Writing a chunk with a header moves `payload_end` past the end of the buffer. -/
theorem writeIfNecessary_of_spills (hs : C.Spills s) :
    ∃ s', C.writeIfNecessary s = (true, s') ∧ 2 * C.size ≤ s'.zcbor.capacity := by
  obtain ⟨hlt, hwritten⟩ := hs
  simp only [writeIfNecessary, if_pos hlt, hwritten, Bool.not_true, Bool.false_eq_true, if_false]
  refine ⟨_, rfl, ?_⟩
  simp only [ZcborEncodeState.updateState, List.length_drop]
  omega

theorem not_inBounds_of_capacity (hheader : C.headerSize ≠ 0)
    (hs : 2 * C.size ≤ s.zcbor.capacity) : ¬ C.InBounds s := by
  rintro ⟨-, hend, -⟩
  omega

theorem not_inBounds_flush (hheader : C.headerSize ≠ 0) (hs : C.Spills s) :
    ¬ C.InBounds (C.flush s).2 := by
  obtain ⟨s₁, hwrite, hcapacity⟩ := writeIfNecessary_of_spills hs
  rw [flush, if_pos hs.1, hwrite]
  exact not_inBounds_of_capacity hheader hcapacity

/-- Once a chunk will be written, the bounds are exceeded by the next call that encodes something
or by the flush. -/
theorem not_inBounds_of_spills (hZ : Z.WritesBelowEnd) (hheader : C.headerSize ≠ 0)
    (hs : C.Spills s) (calls : List EncodeOp) :
    ¬ ((∀ p, p <+: calls → C.InBounds (runCalls (C.encode Z) p s).2) ∧
      C.InBounds (C.flush (runCalls (C.encode Z) calls s).2).2) := by
  induction calls with
  | nil => exact fun h => not_inBounds_flush hheader hs h.2
  | cons o calls ih =>
    rintro ⟨hpre, hflush⟩
    rcases hcall : Z.call o with _ | f
    · have hsame : (C.encode Z o s).2 = s := by rw [encode, hcall]
      apply ih
      constructor
      · intro p hp
        have := hpre (o :: p) ((List.prefix_cons_inj o).2 hp)
        simpa only [runCalls, hsame] using this
      · simpa only [runCalls, hsame] using hflush
    · obtain ⟨s₁, hwrite, hcapacity⟩ := writeIfNecessary_of_spills hs
      have hone := hpre [o] (by simp)
      have hcap := (hZ o f s₁.zcbor hcall).1
      refine not_inBounds_of_capacity hheader ?_ hone
      simp only [runCalls, encode, hcall, hwrite, if_true, hcap, hcapacity]

/-- **The pointers stay within the buffer, and no chunk is too long, exactly when the chunks have
no header or no chunk is written before the last one.** -/
theorem inBounds_iff (hZ : Z.WritesBelowEnd) (elementCount : ℕ) (out : ω) (calls : List EncodeOp) :
    ((∀ p, p <+: calls → C.InBounds (runCalls (C.encode Z) p (C.new elementCount out)).2) ∧
      C.InBounds (C.flush (runCalls (C.encode Z) calls (C.new elementCount out)).2).2) ↔
    C.headerSize = 0 ∨
      ∀ p, p <+: calls → ¬ C.Spills (runCalls (C.encode Z) p (C.new elementCount out)).2 := by
  constructor
  · intro h
    by_contra hno
    push Not at hno
    obtain ⟨hheader, p, ⟨rest, rfl⟩, hspills⟩ := hno
    refine not_inBounds_of_spills hZ hheader hspills rest ⟨fun q hq => ?_, ?_⟩
    · have := h.1 (p ++ q) ((List.prefix_append_right_inj p).2 hq)
      rwa [runCalls_append] at this
    · have := h.2
      rwa [runCalls_append] at this
  · intro h
    have hs : ∀ p, p <+: calls → C.headerSize = 0 ∨
        ¬ C.Spills (runCalls (C.encode Z) p (C.new elementCount out)).2 :=
      fun p hp => h.imp_right fun h => h p hp
    -- the induction is on the end of the prefix, which is what the last call is added to
    have hfits : ∀ p, p <+: calls → C.Fits (runCalls (C.encode Z) p (C.new elementCount out)).2 := by
      intro p
      induction p using List.reverseRecOn with
      | nil => exact fun _ => fits_new elementCount out
      | append_singleton p o ih =>
        intro hp
        have hp' := (List.prefix_append p [o]).trans hp
        rw [runCalls_append]
        exact fits_encode hZ (ih hp') (hs p hp') o
    exact ⟨fun p hp => (hfits p hp).inBounds,
      (fits_flush (hfits calls List.prefix_rfl) (hs calls List.prefix_rfl)).inBounds⟩

end StreamingEncoder

/-! ## Datagrams -/

open ZcborEncodeReference in
theorem zcborStreamReference_writesBelowEnd : zcborStreamReference.WritesBelowEnd := by
  intro o f z hf
  rcases zcborStreamReference_call hf with rfl | ⟨major, max, rfl, -⟩ | ⟨rfl, -⟩
  · rw [put]
    split
    · rename_i hroom
      refine ⟨rfl, fun hlen => ?_⟩
      simp only [ZcborEncodeState.room] at hroom
      simp only [ZcborEncodeState.append, List.length_append]
      omega
    · exact ⟨rfl, id⟩
  · rw [start]
    split
    · rename_i hroom
      refine ⟨rfl, fun hlen => ?_⟩
      simp only [ZcborEncodeState.room] at hroom
      simp only [List.length_append]
      omega
    · exact ⟨rfl, id⟩
  · obtain ⟨houtput, hcapacity⟩ := zcborStreamReference_processBackup z
    exact ⟨hcapacity, fun hlen => by rwa [houtput]⟩

/-- An encoder of reports to a socket that sends everything. -/
def udpReport : StreamingEncoder (UdpOut Unit) := streamingUdpEncoder false fun _ t => (true, t)

/-- The report of a byte string, before the flush. -/
def udpReportBytes (length : ℕ) : StreamingEncodeState (UdpOut Unit) :=
  (runCalls (udpReport.encode zcborStreamReference) [.bytes (List.replicate length 0)]
    (udpReport.new 2 ⟨0, 0, ()⟩)).2

/-- A byte string of three bytes fits into the first datagram. -/
theorem udpReport_short :
    (∀ p, p <+: [EncodeOp.bytes [0, 0, 0]] →
        udpReport.InBounds (runCalls (udpReport.encode zcborStreamReference) p
          (udpReport.new 2 ⟨0, 0, ()⟩)).2) ∧
      udpReport.InBounds (udpReport.flush (udpReportBytes 3)).2 := by
  refine (StreamingEncoder.inBounds_iff (C := udpReport) zcborStreamReference_writesBelowEnd 2 ⟨0, 0, ()⟩ _).2
    (.inr fun p hp => ?_)
  rcases List.prefix_cons_iff.1 hp with rfl | ⟨t, rfl, ht⟩
  · exact fun h => absurd h.1 (by decide)
  · rw [List.prefix_nil.1 ht]
    exact fun h => absurd h.1 (by decide)

/-- A byte string of 1018 bytes fills the buffer. The flush writes a chunk of 510 bytes and one of
512, and moves `payload_end` to 1026. -/
theorem udpReport_long :
    ¬ ((∀ p, p <+: [EncodeOp.bytes (List.replicate 1018 0)] →
        udpReport.InBounds (runCalls (udpReport.encode zcborStreamReference) p
          (udpReport.new 2 ⟨0, 0, ()⟩)).2) ∧
      udpReport.InBounds (udpReport.flush (udpReportBytes 1018)).2) ∧
    (udpReport.flush (udpReportBytes 1018)).2.chunks.map List.length = [510, 512] := by
  refine ⟨?_, by decide +kernel⟩
  rintro ⟨-, -, hend, -⟩
  exact absurd hend (by decide +kernel)

end ThingSet
