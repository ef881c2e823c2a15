import ThingSet.Eeprom.Decoder
import ThingSet.Streaming.Sliding

/-!
# The window of the EEPROM decoder

The decoder reads two chunks ahead and one more with each refill, up to the length in the header. It computes the
checksum of what it reads.

* `EepromDriver.Stores`: a device that stores what is written to it.
* `Eeprom.Holds`: what the window, the offset and the checksum have to do with the content.
* `run_streamingDecoder`: the decoder gives what a plain decoder gives that has the content in one piece.
-/

namespace ThingSet

open Interaction Prog StreamReader

/-- A device that stores what is written and returns what it stores, where `mem` is its memory. -/
structure EepromDriver.Stores {δ : Type} (D : EepromDriver δ) (mem : δ → Bytes) : Prop where
  write_eq : ∀ offset payload d, offset + payload.length ≤ (mem d).length →
    (D.write offset payload d).1 = 0 ∧ mem (D.write offset payload d).2 = memcpy (mem d) offset payload payload.length
  read_eq : ∀ offset n d, offset + n ≤ (mem d).length →
    (D.read offset n d).1 = (0, ((mem d).drop offset).take n) ∧ mem (D.read offset n d).2 = mem d

/-- A checksum of what is concatenated. -/
structure Composes (crc32 : UInt32 → Bytes → UInt32) : Prop where
  nil : ∀ crc, crc32 crc [] = crc
  append : ∀ crc a b, crc32 crc (a ++ b) = crc32 (crc32 crc a) b

theorem crc32IeeeUpdate_composes : Composes crc32IeeeUpdate where
  nil crc := UInt32.not_not
  append crc a b := by
    rw [crc32IeeeUpdate, crc32IeeeUpdate, crc32IeeeUpdate, List.foldl_append, UInt32.not_not]

/-! ## The reader -/

/-- What the decoder reads from. -/
structure EepromSource (δ : Type) where
  header : EepromHeader
  offset : ℕ
  localOffset : ℕ
  crc : UInt32
  device : δ

variable {δ : Type}

/-- The decoder as one that streams from its device. -/
def EepromIn.toStream (s : EepromIn δ) : StreamReadState (EepromSource δ) where
  zcbor := s.zcbor
  decodedLength := s.decodedLength
  source := ⟨s.header, s.offset, s.localOffset, s.crc, s.device⟩

namespace Eeprom

variable {E : Eeprom δ} {Z : ZcborDecode} {mem : δ → Bytes} {H : EepromHeader} {T : Bytes} {k : ℕ}

/-- A decoder with this memory and source. -/
def sourceState (buffer : Bytes) (source : EepromSource δ) : EepromIn δ where
  zcbor := .new 8 buffer 0 0 0
  header := source.header
  offset := source.offset
  localOffset := source.localOffset
  crc := source.crc
  device := source.device

/-- `StreamingZephyrEepromThingSetBinaryDecoder`, which reads from its device. -/
def reader (E : Eeprom δ) (chunk_lt : 2 * E.chunk < 2 ^ 63) : StreamReader (EepromSource δ) where
  size := E.chunk
  headerSize := 0
  header_lt := E.chunk_pos
  size_lt := chunk_lt
  read buffer source :=
    let r := E.read E.chunk E.chunk (sourceState buffer source)
    (r.1, r.2.zcbor.memory, r.2.toStream.source)

variable (chunk_lt : 2 * E.chunk < 2 ^ 63)

theorem toStream_ensureLength (s : EepromIn δ) :
    (E.ensureLength s).toStream = (E.reader chunk_lt).ensureLength s.toStream := by
  unfold Eeprom.ensureLength StreamReader.ensureLength
  dsimp only
  have hcond : (s.zcbor.payload > E.chunk) = (s.toStream.zcbor.payload > (E.reader chunk_lt).dataSize) := rfl
  by_cases hpayload : s.zcbor.payload > E.chunk
  · rw [if_pos hpayload, if_pos (hcond ▸ hpayload)]
    rfl
  · rw [if_neg hpayload, if_neg (hcond ▸ hpayload)]

/-- A call on the window. -/
theorem toStream_windowDecoder (op : DecodeOp) (s : EepromIn δ) :
    (E.windowDecoder Z op s).1 = ((E.reader chunk_lt).windowDecoder Z op s.toStream).1 ∧
      (E.windowDecoder Z op s).2.toStream = ((E.reader chunk_lt).windowDecoder Z op s.toStream).2 := by
  unfold Eeprom.windowDecoder StreamReader.windowDecoder
  dsimp only
  split
  · exact ⟨rfl, rfl⟩
  · rw [← toStream_ensureLength chunk_lt]
    exact ⟨rfl, rfl⟩

/-! ## What has been read -/

/-- The content `T` is behind the header `H`, and `n` bytes of it have been read. -/
structure Reading (E : Eeprom δ) (mem : δ → Bytes) (H : EepromHeader) (T : Bytes) (n : ℕ) (source : EepromSource δ) :
    Prop where
  header : source.header = H
  dataLen : H.dataLen.toNat = T.length
  fits : source.localOffset + T.length ≤ (mem source.device).length
  content : ((mem source.device).drop source.localOffset).take T.length = T
  le : n ≤ T.length
  offset : source.offset = source.localOffset + n
  crc : source.crc = E.crc32 0 (T.take n)

theorem drop_memcpy {buffer src : Bytes} {pos n : ℕ} (hpos : pos ≤ buffer.length) (hsrc : src.length = n) :
    ((memcpy buffer pos src n).drop pos).take n = src := by
  have htake : (buffer.take pos).length = pos := List.length_take_of_le hpos
  rw [memcpy, List.append_assoc, List.drop_left' htake, List.take_of_length_le (Nat.le_of_eq hsrc), List.take_left' hsrc]

/-- `read`: the next bytes of the content, as many as there are and fit. -/
theorem read_spec (hE : E.driver.Stores mem) (hcrc : Composes E.crc32) {n pos maxSize size : ℕ} {s : EepromIn δ}
    (h : Reading E mem H T n s.toStream.source) (hpos : pos ≤ s.zcbor.memory.length)
    (hsize : size = min (T.length - n) maxSize) :
    (E.read pos maxSize s).1 = size ∧
      (E.read pos maxSize s).2.zcbor =
        { s.zcbor with memory := memcpy s.zcbor.memory pos ((T.drop n).take size) size } ∧
      Reading E mem H T (n + size) (E.read pos maxSize s).2.toStream.source := by
  obtain ⟨rfl, hlen, hfits, hcontent, hle, hoffset, hsum⟩ := h
  change s.header.dataLen.toNat = T.length at hlen
  change s.localOffset + T.length ≤ (mem s.device).length at hfits
  change ((mem s.device).drop s.localOffset).take T.length = T at hcontent
  change s.offset = s.localOffset + n at hoffset
  change s.crc = E.crc32 0 (T.take n) at hsum
  have hT : T.length < 65536 := hlen ▸ s.header.dataLen.toNat_lt
  have hremaining : toSize (s.header.dataLen.toNat - (s.offset - s.localOffset : ℤ)) = T.length - n := by
    have hsub : (s.header.dataLen.toNat : ℤ) - (s.offset - s.localOffset) = (T.length - n : ℕ) := by
      rw [hlen, hoffset]
      omega
    rw [hsub, toSize_natCast (by omega)]
  obtain ⟨hread, hmem⟩ := hE.read_eq s.offset size s.device (by omega)
  have hlength : ((T.drop n).take size).length = size := by
    rw [List.length_take, List.length_drop]
    omega
  have hbytes : ((mem s.device).drop s.offset).take size = (T.drop n).take size := by
    have hdrop := congrArg (fun l => (l.drop n).take size) hcontent
    simp only [List.drop_take, List.drop_drop, List.take_take] at hdrop
    rw [min_eq_left (by omega), ← hoffset] at hdrop
    exact hdrop
  have hresult : E.read pos maxSize s = (size, { s with
      zcbor := { s.zcbor with memory := memcpy s.zcbor.memory pos ((T.drop n).take size) size }
      offset := s.offset + size
      crc := E.crc32 s.crc ((T.drop n).take size)
      device := (E.driver.read s.offset size s.device).2 }) := by
    rcases hr : E.driver.read s.offset size s.device with ⟨⟨err, bytes⟩, device⟩
    rw [hr, hbytes] at hread
    obtain ⟨-, rfl⟩ := Prod.mk.inj hread
    have htake : ((T.drop n).take size).take size = (T.drop n).take size :=
      List.take_of_length_le (Nat.le_of_eq hlength)
    simp only [Eeprom.read, hremaining, ← hsize, hr, htake, hlength, drop_memcpy hpos hlength]
  rw [hresult]
  refine ⟨rfl, rfl, rfl, hlen, ?_, ?_, by omega, ?_, ?_⟩
  · exact hmem ▸ hfits
  · exact hmem ▸ hcontent
  · exact (congrArg (· + size) hoffset).trans (Nat.add_assoc _ _ _)
  · change E.crc32 s.crc ((T.drop n).take size) = E.crc32 0 (T.take (n + size))
    rw [hsum, ← hcrc.append, List.take_add]

/-! ## The window -/

/-- Behind the chunk that is moved comes the next one, as far as there is one. -/
theorem prefix_refill {U memory slice : Bytes} {c : ℕ} (hheld : U.take (2 * c) <+: memory)
    (hlength : memory.length = 2 * c) (hslice : slice = (U.drop (2 * c)).take c) (rest : Bytes) :
    (U.drop c).take (2 * c) <+: (memory.drop c).take c ++ slice ++ rest := by
  subst hslice
  by_cases hU : 2 * c ≤ U.length
  · have hmemory : memory = U.take (2 * c) :=
      (hheld.eq_of_length (by rw [List.length_take_of_le hU, hlength])).symm
    have hdrop : (memory.drop c).take c = (U.drop c).take c := by
      rw [hmemory, List.drop_take, List.take_take]
      congr 1
      omega
    rw [hdrop, Nat.two_mul c, List.take_add, List.drop_drop]
    exact List.prefix_append _ _
  · rw [List.take_of_length_le (by omega)] at hheld
    rw [List.take_of_length_le (by rw [List.length_drop]; omega), List.append_assoc]
    have hmoved : U.drop c <+: (memory.drop c).take c :=
      List.prefix_take_iff.2 ⟨hheld.drop c, by rw [List.length_drop]; omega⟩
    exact hmoved.trans (List.prefix_append _ _)

/-- The window has the chunks `k` and `k + 1` of the content. -/
structure Holds (E : Eeprom δ) (mem : δ → Bytes) (H : EepromHeader) (T : Bytes) (k : ℕ)
    (z : StreamReadState (EepromSource δ)) : Prop where
  holds : (T.drop (k * E.chunk)).take (2 * E.chunk) <+: z.zcbor.memory
  length : z.zcbor.memory.length = 2 * E.chunk
  payload_le : z.zcbor.payload ≤ min (2 * E.chunk) (T.length - k * E.chunk)
  payloadEnd_ge : min (2 * E.chunk) (T.length - k * E.chunk) ≤ z.zcbor.payloadEnd
  reading : Reading E mem H T (min T.length ((k + 2) * E.chunk)) z.source

/-- A refill. -/
theorem holds_ensureLength (hE : E.driver.Stores mem) (hcrc : Composes E.crc32) {z : StreamReadState (EepromSource δ)}
    (h : E.Holds mem H T k z) (hlt : E.chunk < z.zcbor.payload) :
    E.Holds mem H T (k + 1) ((E.reader chunk_lt).ensureLength z) ∧
      ((E.reader chunk_lt).ensureLength z).zcbor.payload = z.zcbor.payload - E.chunk := by
  obtain ⟨hholds, hlength, hpayload, -, hreading⟩ := h
  obtain ⟨buffer, hbuffer⟩ : ∃ buffer, buffer = memcpy z.zcbor.memory 0 (z.zcbor.memory.drop E.chunk) E.chunk := ⟨_, rfl⟩
  obtain ⟨n, hn⟩ : ∃ n, n = min T.length ((k + 2) * E.chunk) := ⟨_, rfl⟩
  obtain ⟨size, hsize⟩ : ∃ size, size = min (T.length - n) E.chunk := ⟨_, rfl⟩
  have hone : (k + 1) * E.chunk = k * E.chunk + E.chunk := Nat.succ_mul k _
  have htwo : (k + 2) * E.chunk = k * E.chunk + E.chunk + E.chunk := by rw [Nat.succ_mul (k + 1), hone]
  have hthree : (k + 1 + 2) * E.chunk = (k + 2) * E.chunk + E.chunk := Nat.succ_mul (k + 2) _
  have hmoved : buffer = (z.zcbor.memory.drop E.chunk).take E.chunk ++ z.zcbor.memory.drop E.chunk := by
    rw [hbuffer, memcpy, List.take_zero, List.nil_append, Nat.zero_add]
  have hmovedLength : ((z.zcbor.memory.drop E.chunk).take E.chunk).length = E.chunk := by
    rw [List.length_take, List.length_drop]
    omega
  have hbufferLength : buffer.length = 2 * E.chunk := by
    rw [hmoved, List.length_append, hmovedLength, List.length_drop]
    omega
  have hread := read_spec (s := sourceState buffer z.source) hE hcrc (hn ▸ hreading)
    (by change E.chunk ≤ buffer.length; omega) hsize
  obtain ⟨hfst, hzcbor, hnext⟩ := hread
  have hensure : (E.reader chunk_lt).ensureLength z = {
      zcbor := { z.zcbor with
        memory := memcpy buffer E.chunk ((T.drop n).take size) size
        payload := z.zcbor.payload - E.chunk
        payloadEnd := z.zcbor.payload - E.chunk +
          toSize (E.chunk + size - (z.zcbor.payload - E.chunk : ℕ) : ℤ) }
      decodedLength := z.decodedLength + E.chunk
      source := (E.read E.chunk E.chunk (sourceState buffer z.source)).2.toStream.source } := by
    have hmemory := congrArg ZcborState.memory hzcbor
    change _ = memcpy buffer E.chunk ((T.drop n).take size) size at hmemory
    have hif : (E.reader chunk_lt).ensureLength z = _ := if_pos hlt
    rw [hif, ← hmemory, ← hfst, hbuffer]
    rfl
  rw [hensure]
  have hslice : (T.drop n).take size = ((T.drop (k * E.chunk)).drop (2 * E.chunk)).take E.chunk := by
    rw [List.drop_drop, Nat.two_mul, ← Nat.add_assoc, ← htwo]
    by_cases hT : (k + 2) * E.chunk ≤ T.length
    · rw [hsize, hn, min_eq_right hT, ← List.length_drop, Nat.min_comm, ← List.take_eq_take_min]
    · rw [hn, min_eq_left (by omega), List.drop_length, List.drop_eq_nil_of_le (by omega), List.take_nil, List.take_nil]
  have hsliceLength : ((T.drop n).take size).length = size := by
    rw [List.length_take, List.length_drop]
    omega
  have hmemory : memcpy buffer E.chunk ((T.drop n).take size) size =
      (z.zcbor.memory.drop E.chunk).take E.chunk ++ (T.drop n).take size ++ buffer.drop (E.chunk + size) := by
    rw [memcpy, List.take_of_length_le (Nat.le_of_eq hsliceLength), hmoved, List.take_left' hmovedLength]
  refine ⟨⟨?_, ?_, ?_, ?_, ?_⟩, rfl⟩
  · have hprefix := prefix_refill hholds hlength hslice (buffer.drop (E.chunk + size))
    rw [List.drop_drop, ← hone] at hprefix
    dsimp only
    rw [hmemory]
    exact hprefix
  · dsimp only
    rw [hmemory, List.length_append, List.length_append, hmovedLength, hsliceLength, List.length_drop]
    omega
  · dsimp only
    omega
  · have hend : (E.chunk : ℤ) + size - (z.zcbor.payload - E.chunk : ℕ) =
        (E.chunk + size - (z.zcbor.payload - E.chunk) : ℕ) := by omega
    dsimp only
    rw [hend, toSize_natCast (by omega)]
    omega
  · have hcount : n + size = min T.length ((k + 1 + 2) * E.chunk) := by omega
    rw [← hcount]
    exact hnext

/-- The window slides over the content. -/
theorem reader_slides (hE : E.driver.Stores mem) (hcrc : Composes E.crc32) :
    (E.reader chunk_lt).Slides T (E.Holds mem H T) where
  holds _ _ h := h.holds
  payload_le _ _ h := h.payload_le
  payloadEnd_ge _ _ h := h.payloadEnd_ge
  slide _ _ h hlt := holds_ensureLength chunk_lt hE hcrc h hlt
  move k z n zcbor h hadvances hle := {
    holds := by simpa only [hadvances.memory] using h.holds
    length := by simpa only [hadvances.memory] using h.length
    payload_le := (Nat.le_of_eq hadvances.payload).trans hle
    payloadEnd_ge := by simpa only [hadvances.payloadEnd] using h.payloadEnd_ge
    reading := h.reading }

/-- **A program whose calls look at no more than a chunk gets from the decoder what it gets from a plain decoder that
has the content in one piece.** -/
theorem run_streamingDecoder {α : Type} (hE : E.driver.Stores mem) (hcrc : Composes E.crc32) {p : Decoding α}
    {t : ZcborState} {s : EepromIn δ} (h : (E.reader chunk_lt).Simulates T (E.Holds mem H T) t s.toStream)
    (hp : EachCall (plain Z) (Servable (options Z) E.chunk) p t) :
    (run (plain Z) p t).1 = (run (E.streamingDecoder Z) p s).1 ∧
      (E.reader chunk_lt).Simulates T (E.Holds mem H T) (run (plain Z) p t).2
        (run (E.streamingDecoder Z) p s).2.toStream := by
  refine run_sim_of_eachCall (R := fun (t : ZcborState) (s : EepromIn δ) => (E.reader chunk_lt).Simulates T (E.Holds mem H T) t s.toStream)
    (fun op t s h hop => ?_) hp h
  obtain ⟨hresult, hnext⟩ := simulates_step (reader_slides chunk_lt hE hcrc) h hop
  obtain ⟨hskip, -⟩ := hop
  have hstream : E.streamingDecoder Z op s = E.windowDecoder Z op s ∧
      (E.reader chunk_lt).streamDecoder Z op s.toStream = (E.reader chunk_lt).windowDecoder Z op s.toStream := by
    cases op <;> first | exact ⟨rfl, rfl⟩ | exact absurd rfl hskip
  obtain ⟨hwindow, hstate⟩ := toStream_windowDecoder (Z := Z) chunk_lt op s
  rw [hstream.1, hwindow, hstate, ← hstream.2]
  exact ⟨hresult, hnext⟩

end Eeprom

end ThingSet
