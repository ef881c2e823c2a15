import ThingSet.Streaming.Decoder

/-!
# The bounds of the streaming decoder

Whatever a report fills of the window, the state of zcbor is initialised with all of it; after a
refill `payload_end` is computed from the position that `read` returns as if it was a number of
bytes; and a message that is shorter than its header has a length close to `SIZE_MAX`.

`inBounds_of_good`: in a run in which every window is filled to its end, a refill brings at most
twice the size of a header, and no message that is copied is too short, everything that is copied
was received and fits, and `payload_end` does not go past what was received.
-/

namespace ThingSet

open Transition

namespace StreamingDecoder

variable {K : Type} [DecidableEq K] {C : StreamingDecoder} {m : Message} {key : K}
  {s s' : StreamingDecodeState} {decoders decoders' : K → Option StreamingDecodeState}

/-- Copies stay within the message and the window, and `payload_end` within what was received. -/
structure InBounds (C : StreamingDecoder) (s : StreamingDecodeState) : Prop where
  copies : ∀ c ∈ s.copies, C.CopyInBounds c
  payloadEnd : s.ready = true → s.payloadEnd ≤ s.received

/-- The condition on an event. When a report is complete, its first messages fill the window to
the end, unless an earlier report has; when a decode call refills the window, there are at most
`2 * headerSize` bytes in the queue. -/
def Good (C : StreamingDecoder) (decoders : K → Option StreamingDecodeState) :
    StreamEvent K → Prop
  | .receive key m stale =>
    ∀ s, C.decoderFor key m stale decoders = some s → m.type = some .single ∨ m.type = some .last →
      ∃ pre post, C.Takes 0 (s.queue ++ [m]) pre post ∧
        (s.ready = true ∨ C.carried pre = 2 * C.size)
  | .decode key _ =>
    ∀ s, decoders key = some s → C.dataSize < s.payload →
      ∃ pre post, C.Takes C.dataSize s.queue pre post ∧ C.carried pre ≤ 2 * C.headerSize

/-- Once a report is complete, the whole window has been received. -/
structure Filled (C : StreamingDecoder) (s : StreamingDecodeState) : Prop where
  copies : ∀ c ∈ s.copies, C.CopyInBounds c
  received : s.ready = true → 2 * C.size ≤ s.received
  payloadEnd : s.ready = true → s.payloadEnd ≤ 2 * C.size

theorem Filled.inBounds (h : C.Filled s) : C.InBounds s :=
  ⟨h.copies, fun hready => (h.payloadEnd hready).trans (h.received hready)⟩

theorem filled_new (stale : Bytes) : C.Filled (C.new stale) :=
  ⟨fun _ hc => absurd hc List.not_mem_nil, fun h => (Bool.false_ne_true h).elim,
    fun h => (Bool.false_ne_true h).elim⟩

theorem forall_mem_append {P : Copy → Prop} {l l' : List Copy} (hl : ∀ c ∈ l, P c)
    (hl' : ∀ c ∈ l', P c) : ∀ c ∈ l ++ l', P c := fun c hc =>
  (List.mem_append.1 hc).elim (hl c) (hl' c)

/-- A message is queued, and fills the window if it is the last one. -/
theorem filled_enqueue (h : C.Filled s)
    (hgood : m.type = some .single ∨ m.type = some .last → ∃ pre post,
      C.Takes 0 (s.queue ++ [m]) pre post ∧ (s.ready = true ∨ C.carried pre = 2 * C.size)) :
    C.Filled (C.enqueue m s).2 := by
  rw [enqueue]
  split
  · rename_i hlast
    obtain ⟨pre, post, htakes, hfull⟩ := hgood hlast
    obtain ⟨copies, hread, hcopies⟩ :=
      read_of_takes (s := { s with queue := s.queue ++ [m] }) htakes
    have hpos : 0 < C.size := by
      have := C.header_lt
      omega
    simp only [hread]
    refine ⟨forall_mem_append h.copies hcopies, fun _ => ?_, fun _ => ?_⟩
    · rcases hfull with hready | hfull
      · have hreceived := h.received hready
        dsimp only
        split <;> omega
      · have hpre : pre ≠ [] := by
          rintro rfl
          rw [carried_nil] at hfull
          omega
        simp only [if_neg hpre]
        omega
    · dsimp only
      omega
  · exact ⟨h.copies, h.received, h.payloadEnd⟩

/-- A refill brings no more than fits behind what was moved. -/
theorem filled_ensureLength (h : C.Filled s) (hready : s.ready = true)
    (hgood : C.dataSize < s.payload → ∃ pre post, C.Takes C.dataSize s.queue pre post ∧
      C.carried pre ≤ 2 * C.headerSize) :
    C.Filled (C.ensureLength s) := by
  rw [ensureLength]
  split
  · rename_i hlt
    obtain ⟨pre, post, htakes, hle⟩ := hgood hlt
    obtain ⟨copies, hread, hcopies⟩ := read_of_takes
      (s := { s with
        buffer := memcpy s.buffer 0 (s.buffer.drop C.dataSize) C.dataSize
        decodedLength := s.decodedLength + C.dataSize }) htakes
    have hreceived := h.received hready
    simp only [hread]
    refine ⟨forall_mem_append h.copies hcopies, fun _ => ?_, fun _ => ?_⟩
    · dsimp only
      split <;> omega
    · have hdata : C.dataSize + C.headerSize = C.size := by
        have := C.header_lt
        simp only [dataSize]
        omega
      dsimp only
      split <;> omega
  · exact h

theorem filled_decode (h : C.Filled s) (hready : s.ready = true)
    (hgood : C.dataSize < s.payload → ∃ pre post, C.Takes C.dataSize s.queue pre post ∧
      C.carried pre ≤ 2 * C.headerSize) (n : ℕ) :
    C.Filled (C.decode n s).2 := by
  have hensure := filled_ensureLength h hready hgood
  rw [decode]
  split
  · exact ⟨hensure.copies, hensure.received, hensure.payloadEnd⟩
  · exact hensure

/-- What a good event preserves. -/
theorem filled_step {e : StreamEvent K} (h : ∀ key s, decoders key = some s → C.Filled s)
    (hgood : C.Good decoders e) (hstep : C.step decoders e = some decoders') :
    ∀ key s, decoders' key = some s → C.Filled s := by
  -- an event changes one decoder
  have hupdate : ∀ key s, C.Filled s → ∀ key' s', Function.update decoders key (some s) key' = some s' →
      C.Filled s' := by
    intro key s hs key' s' hs'
    by_cases hkey : key' = key
    · subst hkey
      rw [Function.update_self] at hs'
      exact Option.some.inj hs' ▸ hs
    · rw [Function.update_of_ne hkey] at hs'
      exact h key' s' hs'
  cases e with
  | receive key m stale =>
    obtain rfl := Option.some.inj hstep
    rw [handle]
    rcases hfor : C.decoderFor key m stale decoders with _ | s
    · exact h
    · have hs : C.Filled s := by
        rw [decoderFor] at hfor
        split at hfor
        · exact Option.some.inj hfor ▸ filled_new stale
        · exact h key s hfor
      exact hupdate key _ (filled_enqueue hs (hgood s hfor))
  | decode key n =>
    simp only [step] at hstep
    rcases hkey : decoders key with _ | s
    · simp [hkey] at hstep
    · simp only [hkey] at hstep
      split at hstep
      · rename_i hready
        obtain rfl := Option.some.inj hstep
        exact hupdate key _ (filled_decode (h key s hkey) hready (hgood s hkey) n)
      · cases hstep

/-- **In a run of good events everything that is copied was received and fits into the window, and
`payload_end` does not go past what was received.** -/
theorem inBounds_of_good {es : List (StreamEvent K)}
    (hgood : Meets C.step C.Good (fun _ => none) es)
    (hrun : runFrom C.step (fun _ => none) es = some decoders) (hs : decoders key = some s) :
    C.InBounds s :=
  (runFrom_invariant_of_meets (P := fun decoders => ∀ key s, decoders key = some s → C.Filled s)
    (fun _ _ _ h hgood hstep => filled_step h hgood hstep) (fun _ _ h => by cases h) hgood hrun key s
    hs).inBounds

end StreamingDecoder

/-! ## Reports -/

theorem eight_pos : 0 < 8 := by decide

theorem twice_eight_lt : 2 * 8 < 2 ^ 63 := by decide

/-- A decoder of CAN frames of eight bytes. -/
def canDecoderEight : StreamingDecoder := canDecoder 8 eight_pos twice_eight_lt

/-- The first and the last frame of a report. -/
def firstFrame : Message := ⟨some .first, [0x1F, 0, 1, 2, 3, 4, 5, 6], 8⟩
def lastFrame : Message := ⟨some .last, [7, 8, 9, 10, 11, 12, 13, 14], 8⟩

/-- Both frames are received, and decode calls consume all but the first byte. -/
def twoFrames : List (StreamEvent Unit) :=
  [.receive () firstFrame [], .receive () lastFrame [], .decode () 7, .decode () 8, .decode () 1]

/-- The frames fill the window, and there is nothing left when it is refilled. -/
theorem twoFrames_inBounds :
    ∃ s, (runFrom canDecoderEight.step (fun _ => none) twoFrames).bind (fun ds => ds ()) = some s ∧
      canDecoderEight.InBounds s := by
  have htakes : canDecoderEight.Takes 0 [firstFrame, lastFrame] [firstFrame, lastFrame] [] := by
    refine ⟨rfl, fun m hm => ?_, by decide, fun m hm => by cases hm⟩
    rcases List.mem_pair.1 hm with rfl | rfl
    · exact ⟨Nat.zero_le _, le_rfl⟩
    · exact ⟨Nat.zero_le _, le_rfl⟩
  have hempty : canDecoderEight.Takes 8 [] [] [] :=
    ⟨rfl, fun m hm => absurd hm List.not_mem_nil, by decide, fun m hm => by cases hm⟩
  suffices hgood : Meets canDecoderEight.step canDecoderEight.Good (fun _ => none) twoFrames from
    ⟨_, rfl, StreamingDecoder.inBounds_of_good hgood rfl (Function.update_self () _ _)⟩
  refine ⟨fun s hs hlast => ?_, fun _ h => ?_⟩
  · rcases hlast with h | h <;> cases h
  obtain rfl := Option.some.inj h
  refine ⟨fun s hs _ => ?_, fun _ h => ?_⟩
  · obtain rfl := Option.some.inj hs
    exact ⟨_, _, htakes, .inr (by decide)⟩
  obtain rfl := Option.some.inj h
  refine ⟨fun s hs hlt => ?_, fun _ h => ?_⟩
  · obtain rfl := Option.some.inj hs
    exact absurd hlt (by decide)
  obtain rfl := Option.some.inj h
  refine ⟨fun s hs hlt => ?_, fun _ h => ?_⟩
  · obtain rfl := Option.some.inj hs
    exact absurd hlt (by decide)
  obtain rfl := Option.some.inj h
  refine ⟨fun s hs hlt => ?_, fun _ h => trivial⟩
  obtain rfl := Option.some.inj hs
  exact ⟨_, _, hempty, Nat.zero_le _⟩

/-- A datagram that is a report of its own, `1F`. -/
def shortReport : List (StreamEvent Unit) := [.receive () (udpMessage [0x30, 0x00, 0x1F] 3) []]

/-- A report of two datagrams, the second of which is shorter than its header. -/
def shortDatagram : List (StreamEvent Unit) :=
  [.receive () (udpMessage [0x00, 0x00, 0x1F] 3) [], .receive () (udpMessage [0x20] 1) []]

/-- After a short report `payload_end` is the end of the window, and for a short datagram nearly
`SIZE_MAX` bytes are copied. -/
theorem shortReport_not_inBounds :
    (∃ s, (runFrom udpDecoder.step (fun _ => none) shortReport).bind (fun decoders => decoders ()) =
        some s ∧ ¬ udpDecoder.InBounds s) ∧
      ∃ s, (runFrom udpDecoder.step (fun _ => none) shortDatagram).bind
        (fun decoders => decoders ()) = some s ∧ ¬ udpDecoder.InBounds s := by
  constructor
  · exact ⟨_, rfl, fun h => absurd (h.payloadEnd rfl) (by decide +kernel)⟩
  · refine ⟨_, rfl, fun h => ?_⟩
    have hcopy := (h.copies ⟨1, 18446744073709551615, 0⟩ (by decide +kernel)).window
    exact absurd hcopy (by decide)

end ThingSet
