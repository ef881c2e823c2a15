import ThingSet.Eeprom.Window
import ThingSet.Streaming.Items

/-!
# What an EEPROM holds

On a device that stores what is written, the encoder leaves a header and the content behind it, and the decoder finds
both.

* `Saved`: what is on the device then.
* `saved_of_carried`: what a program encodes is saved.
* `simulates_newDecoder`: a decoder of what has been saved reads the content.
* `verify_of_simulates`: when all of it has been decoded the checksum is that of the header.
-/

namespace ThingSet

open Interaction Prog StreamReader Retry

theorem EepromHeader.ofBytes_bytes (h : EepromHeader) : EepromHeader.ofBytes h.bytes = h := by
  obtain ⟨version, dataLen, crc⟩ := h
  have hversion := version.toNat_lt
  have hlen := dataLen.toNat_lt
  have hcrc := crc.toNat_lt
  simp only [EepromHeader.ofBytes, EepromHeader.bytes, List.getD_cons_zero, List.getD_cons_succ, UInt8.toNat_ofNat',
    EepromHeader.mk.injEq]
  refine ⟨UInt16.toNat_inj.1 ?_, UInt16.toNat_inj.1 ?_, UInt32.toNat_inj.1 ?_⟩
  · rw [UInt16.toNat_ofNat']
    omega
  · rw [UInt16.toNat_ofNat']
    omega
  · rw [UInt32.toNat_ofNat']
    omega

theorem length_memcpy {buffer src : Bytes} {pos n : ℕ} (hsrc : src.length = n) (hfits : pos + n ≤ buffer.length) :
    (memcpy buffer pos src n).length = buffer.length := by
  rw [memcpy, List.length_append, List.length_append, List.length_take, List.length_take, List.length_drop]
  omega

/-- What is copied behind something continues it. -/
theorem drop_memcpy_behind {buffer src : Bytes} {start n m : ℕ} (hsrc : src.length = n)
    (hfits : start + m + n ≤ buffer.length) :
    ((memcpy buffer (start + m) src n).drop start).take (m + n) = (buffer.drop start).take m ++ src := by
  have hbefore : ((buffer.take (start + m)).drop start) = (buffer.drop start).take m := by
    rw [List.drop_take, Nat.add_sub_cancel_left]
  have hlength : ((buffer.drop start).take m).length = m := by
    rw [List.length_take, List.length_drop]
    omega
  have hdrop : start ≤ (buffer.take (start + m)).length := by
    rw [List.length_take]
    omega
  rw [memcpy, List.append_assoc, List.drop_append_of_le_length hdrop, hbefore,
    List.take_of_length_le (Nat.le_of_eq hsrc), ← List.append_assoc]
  exact List.take_left' (by rw [List.length_append, hlength, hsrc])

/-- What is copied in front of something leaves it. -/
theorem drop_memcpy_of_le {buffer src : Bytes} {pos n start : ℕ} (hsrc : src.length = n) (hle : pos + n ≤ start)
    (hfits : start ≤ buffer.length) : (memcpy buffer pos src n).drop start = buffer.drop start := by
  have hlength : (buffer.take pos ++ src.take n).length = pos + n := by
    rw [List.length_append, List.length_take, List.length_take]
    omega
  rw [memcpy, List.drop_append, hlength, List.drop_of_length_le (by omega), List.nil_append, List.drop_drop]
  congr 1
  omega

namespace Eeprom

variable {δ : Type} {E : Eeprom δ} {mem : δ → Bytes} {start size : ℕ} {T bs payload : Bytes} {d : δ} {o : EepromOut δ}

/-! ## Saving -/

/-- An attempt stores the chunk. -/
theorem attempt_of_stores (hE : E.driver.Stores mem) {offset : ℕ} (hfits : offset + payload.length ≤ (mem d).length) :
    (E.attempt offset payload d).1 = true ∧
      mem (E.attempt offset payload d).2 = memcpy (mem d) offset payload payload.length := by
  obtain ⟨hwrite, hmem⟩ := hE.write_eq offset payload d hfits
  rcases hw : E.driver.write offset payload d with ⟨err, d₁⟩
  rw [hw] at hwrite hmem
  dsimp only at hwrite hmem
  subst hwrite
  have hlength : (mem d₁).length = (mem d).length := by rw [hmem, length_memcpy rfl hfits]
  obtain ⟨hread, hkept⟩ := hE.read_eq offset payload.length d₁ (by rw [hlength]; exact hfits)
  rcases hr : E.driver.read offset payload.length d₁ with ⟨⟨err, chunk⟩, d₂⟩
  rw [hr, hmem, drop_memcpy (by omega) rfl] at hread
  rw [hr] at hkept
  obtain ⟨rfl, rfl⟩ := Prod.mk.inj hread
  have hresult : E.attempt offset chunk d = (true, d₂) := by
    simp only [attempt, hw, hr, ne_eq, not_true_eq_false, if_false, List.take_length, decide_true]
  rw [hresult]
  exact ⟨rfl, hkept.trans hmem⟩

/-- The bytes `bs` of the content have been written. -/
structure Saving (E : Eeprom δ) (mem : δ → Bytes) (start size : ℕ) (bs : Bytes) (o : EepromOut δ) : Prop where
  initialOffset : o.initialOffset = start
  offset : o.offset = start + EepromHeader.size + bs.length
  crc : o.crc = E.crc32 0 bs
  content : ((mem o.device).drop (start + EepromHeader.size)).take bs.length = bs
  length : (mem o.device).length = size

/-- The header of the content `T`. -/
def headerOf (E : Eeprom δ) (T : Bytes) : EepromHeader := ⟨E.version, .ofNat T.length, E.crc32 0 T⟩

/-- The content `T` is on the device, with its header in front. -/
structure Saved (E : Eeprom δ) (mem : δ → Bytes) (start : ℕ) (T : Bytes) (d : δ) : Prop where
  header : ((mem d).drop start).take EepromHeader.size = (E.headerOf T).bytes
  content : ((mem d).drop (start + EepromHeader.size)).take T.length = T
  fits : start + EepromHeader.size + T.length ≤ (mem d).length

theorem saving_new (hcrc : Composes E.crc32) (d : δ) (start : ℕ) :
    E.Saving mem start (mem d).length [] (.new d start) where
  initialOffset := rfl
  offset := rfl
  crc := (hcrc.nil 0).symm
  content := rfl
  length := rfl

section Write

variable (hE : E.driver.Stores mem) (hcrc : Composes E.crc32) (hattempts : 0 < E.attempts)
  (h : E.Saving mem start size bs o) (hfits : start + EepromHeader.size + bs.length + payload.length ≤ size)

include hE hcrc hattempts h hfits

/-- A chunk is written behind the ones before it. -/
theorem saving_write : E.Saving mem start size (bs ++ payload) (E.write payload false o).2 := by
  have hroom : o.offset + payload.length ≤ (mem o.device).length := by
    rw [h.offset, h.length]
    exact hfits
  obtain ⟨hok, hmem⟩ := attempt_of_stores hE hroom
  have hdevice : (E.write payload false o).2.device = (E.attempt o.offset payload o.device).2 :=
    congrArg Prod.snd (retry_of_first hattempts hok)
  refine ⟨h.initialOffset, ?_, ?_, ?_, ?_⟩
  · change o.offset + payload.length = _
    rw [h.offset, List.length_append, Nat.add_assoc]
  · change E.crc32 o.crc payload = _
    rw [h.crc, hcrc.append]
  · rw [hdevice, hmem, h.offset, List.length_append, drop_memcpy_behind rfl (by rw [h.length]; exact hfits), h.content]
  · rw [hdevice, hmem, length_memcpy rfl hroom]
    exact h.length

/-- With the last chunk comes the header. -/
theorem saved_write : E.Saved mem start (bs ++ payload) (E.write payload true o).2.device := by
  obtain ⟨o', ho'⟩ : ∃ o', o' = (E.write payload false o).2 := ⟨_, rfl⟩
  have hsaving : E.Saving mem start size (bs ++ payload) o' := ho' ▸ saving_write hE hcrc hattempts h hfits
  have hdevice : (E.write payload true o).2.device =
      (E.driver.write o'.initialOffset (E.header o').bytes o'.device).2 := by
    rw [ho']
    rfl
  have hheader : E.header o' = E.headerOf (bs ++ payload) := by
    have hlen : o'.offset - o'.initialOffset - EepromHeader.size = (bs ++ payload).length := by
      rw [hsaving.offset, hsaving.initialOffset]
      omega
    rw [header, headerOf, hlen, hsaving.crc]
  have hroom : start + EepromHeader.size + (bs ++ payload).length ≤ (mem o'.device).length := by
    rw [hsaving.length, List.length_append, ← Nat.add_assoc]
    exact hfits
  have hsize : (E.header o').bytes.length = EepromHeader.size := rfl
  obtain ⟨-, hmem⟩ := hE.write_eq start (E.header o').bytes o'.device (by omega)
  rw [hsaving.initialOffset] at hdevice
  rw [hsize] at hmem
  refine ⟨?_, ?_, ?_⟩
  · rw [hdevice, hmem, drop_memcpy (by omega) hsize, hheader]
  · rw [hdevice, hmem, drop_memcpy_of_le hsize (Nat.le_refl _) (by omega), hsaving.content]
  · rw [hdevice, hmem, length_memcpy hsize (by omega)]
    exact hroom

end Write

section Program

variable (hE : E.driver.Stores mem) (hcrc : Composes E.crc32) (hattempts : 0 < E.attempts)
  {s : StreamingEncodeState (EepromOut δ)} (h : E.Saving mem start size s.chunks.flatten s.out)

include hE hcrc hattempts h

theorem saving_writeIfNecessary
    (hfits : start + EepromHeader.size + s.chunks.flatten.length + s.zcbor.output.length ≤ size) :
    (E.streamingEncoder.writeIfNecessary s).1 = true ∧
      E.Saving mem start size (E.streamingEncoder.writeIfNecessary s).2.chunks.flatten
        (E.streamingEncoder.writeIfNecessary s).2.out := by
  have hlength := List.length_take_le' E.streamingEncoder.dataSize s.zcbor.output
  have hsaving : E.Saving mem start size (s.chunks.flatten ++ s.zcbor.output.take E.streamingEncoder.dataSize)
      (E.write (s.zcbor.output.take E.streamingEncoder.dataSize) false s.out).2 :=
    saving_write hE hcrc hattempts h (by omega)
  unfold StreamingEncoder.writeIfNecessary
  dsimp only
  by_cases hlt : s.zcbor.output.length > E.streamingEncoder.dataSize
  · have hwrite : (E.streamingEncoder.write (s.zcbor.output.take E.streamingEncoder.dataSize) false s.exportedLength
        s.out).1 = true := write_fst
    rw [if_pos hlt, hwrite, Bool.not_true, if_neg Bool.false_ne_true]
    dsimp only
    rw [List.flatten_append, List.flatten_singleton]
    exact ⟨rfl, hsaving⟩
  · rw [if_neg hlt]
    exact ⟨rfl, h⟩

theorem saving_encode {Z : ZcborStreamEncode}
    (hfits : start + EepromHeader.size + s.chunks.flatten.length + s.zcbor.output.length ≤ size) (o : EncodeOp) :
    E.Saving mem start size (E.streamingEncoder.encode Z o s).2.chunks.flatten
      (E.streamingEncoder.encode Z o s).2.out := by
  obtain ⟨-, hsaving⟩ := saving_writeIfNecessary hE hcrc hattempts h hfits
  unfold StreamingEncoder.encode
  cases Z.call o with
  | none => exact h
  | some f =>
    dsimp only
    split <;> exact hsaving

theorem saved_writeLast
    (hfits : start + EepromHeader.size + s.chunks.flatten.length + s.zcbor.output.length ≤ size) :
    E.Saved mem start (E.streamingEncoder.writeLast s).2.chunks.flatten
      (E.streamingEncoder.writeLast s).2.out.device := by
  have hsaved := saved_write hE hcrc hattempts h hfits
  unfold StreamingEncoder.writeLast
  dsimp only
  rw [List.flatten_append, List.flatten_singleton]
  exact hsaved

/-- A flush writes what is left, and the header. -/
theorem saved_flush {total : Bytes} (hencoded : E.streamingEncoder.Encoded total s)
    (hfits : start + EepromHeader.size + total.length ≤ size) :
    E.Saved mem start (E.streamingEncoder.flush s).2.chunks.flatten
      (E.streamingEncoder.flush s).2.out.device := by
  have hroom : ∀ s', E.streamingEncoder.Encoded total s' →
      start + EepromHeader.size + s'.chunks.flatten.length + s'.zcbor.output.length ≤ size := by
    intro s' hencoded
    have hlength := congrArg List.length hencoded.flatten
    rw [List.length_append] at hlength
    omega
  obtain ⟨hok, hsaving⟩ := saving_writeIfNecessary hE hcrc hattempts h (hroom s hencoded)
  unfold StreamingEncoder.flush
  split
  · rcases hwrite : E.streamingEncoder.writeIfNecessary s with ⟨ok, s₁⟩
    rw [hwrite] at hok hsaving
    obtain rfl : ok = true := hok
    exact saved_writeLast hE hcrc hattempts hsaving
      (hroom s₁ (StreamingEncoder.encoded_writeIfNecessary hencoded hwrite).1)
  · exact saved_writeLast hE hcrc hattempts h (hroom s hencoded)

end Program

/-- **What a program encodes is saved, where the device stores what is written and has room for it.** -/
theorem saved_of_carried {Z : ZcborStreamEncode} (hE : E.driver.Stores mem) (hcrc : Composes E.crc32)
    (hattempts : 0 < E.attempts) (hZ : Z.AppendsItems itemReference) (hitems : Z.AcceptsItems) {depth : ℕ}
    {p : Encoding Bool} (hp : Carried E.chunk 0 depth p)
    (hfits : start + EepromHeader.size + (bytesOf p).length ≤ (mem d).length) (elementCount : ℕ) :
    let r := run (E.streamingEncoder.toEncoder Z) p (E.streamingEncoder.new elementCount (.new d start))
    r.1 = true ∧ (E.streamingEncoder.flush r.2).1 = true ∧
      E.Saved mem start (bytesOf p) (E.streamingEncoder.flush r.2).2.out.device := by
  have haccepts : E.streamingEncoder.AcceptsChunks := fun _ _ _ _ _ => write_fst
  let Q : List EncodeOp → StreamingEncodeState (EepromOut δ) → Prop := fun os s =>
    E.streamingEncoder.Upcoming (bytesOf p) os s ∧ E.Saving mem start (mem d).length s.chunks.flatten s.out
  have hwithin : ∀ os s, Q os s → start + EepromHeader.size + s.chunks.flatten.length + s.zcbor.output.length ≤
      (mem d).length := by
    rintro os s ⟨⟨⟨bs, hencoded, htotal⟩, -⟩, -⟩
    have hlength := congrArg List.length htotal
    rw [← hencoded.flatten, List.length_append, List.length_append] at hlength
    omega
  have hnew : Q ((trace binaryAnswer p).2 ++ []) (E.streamingEncoder.new elementCount (.new d start)) := by
    rw [List.append_nil]
    exact ⟨⟨⟨_, StreamingEncoder.encoded_new elementCount _, rfl⟩, le_rfl, rfl, hp.items, depth, hp.nests⟩,
      saving_new hcrc d start⟩
  have hstep : ∀ o os s, Q (o :: os) s → (E.streamingEncoder.toEncoder Z o s).1 = binaryAnswer o ∧
      Q os (E.streamingEncoder.toEncoder Z o s).2 := by
    intro o os s hQ
    obtain ⟨hanswer, hnext⟩ := StreamingEncoder.toEncoder_of_upcoming haccepts hZ hitems o os s hQ.1
    refine ⟨hanswer, hnext, ?_⟩
    rw [StreamingEncoder.toEncoder_snd]
    exact saving_encode hE hcrc hattempts hQ.2 (hwithin _ s hQ) o
  obtain ⟨hok, hupcoming, hsaving⟩ := run_of_trace hstep p [] hnew
  obtain ⟨hflush, hflatten⟩ := StreamingEncoder.flush_of_upcoming haccepts hupcoming
  obtain ⟨bs, hencoded, htotal⟩ := hupcoming.encoded
  rw [List.flatMap_nil, List.append_nil] at htotal
  subst htotal
  have hsaved := saved_flush hE hcrc hattempts hsaving hencoded hfits
  rw [hflatten] at hsaved
  exact ⟨hok.trans hp.ok, hflush, hsaved⟩

/-! ## Loading -/

/-- A plain decoder that has the content in one piece. -/
def contentState (T : Bytes) : ZcborState := .new 8 T 0 T.length 1

theorem remaining_contentState (T : Bytes) : (contentState T).remaining = T := by
  rw [ZcborState.remaining, contentState, ZcborState.new, Nat.zero_add, List.take_length, List.drop_zero]

section Load

variable (chunk_lt : 2 * E.chunk < 2 ^ 63)

/-- A decoder of what has been saved reads the content from its first byte on. -/
theorem simulates_newDecoder (hE : E.driver.Stores mem) (hcrc : Composes E.crc32) (h : E.Saved mem start T d)
    (hlength : T.length < 65536) {buffer : Bytes} (hbuffer : buffer.length = 2 * E.chunk) :
    (E.reader chunk_lt).Simulates T (E.Holds mem (E.headerOf T) T) (contentState T)
      (E.newDecoder d start buffer).toStream := by
  obtain ⟨hheader, hcontent, hfits⟩ := h
  obtain ⟨hread, hmem⟩ := hE.read_eq start EepromHeader.size d (by omega)
  rcases hr : E.driver.read start EepromHeader.size d with ⟨⟨err, bytes⟩, d'⟩
  rw [hr, hheader] at hread
  rw [hr] at hmem
  obtain ⟨rfl, rfl⟩ := Prod.mk.inj hread
  rw [← hmem] at hfits hcontent
  obtain ⟨s, hs⟩ : ∃ s : EepromIn δ, s = {
      zcbor := .new 8 buffer 0 (2 * E.chunk) 1
      header := E.headerOf T
      offset := start + EepromHeader.size
      localOffset := start + EepromHeader.size
      device := d' } := ⟨_, rfl⟩
  have hnew : E.newDecoder d start buffer = (E.read 0 (E.chunk * 2) s).2 := by
    simp only [newDecoder, hr, EepromHeader.ofBytes_bytes, hs, if_true]
  have hreading : Reading E mem (E.headerOf T) T 0 s.toStream.source := by
    rw [hs]
    exact ⟨rfl, UInt16.toNat_ofNat_of_lt' hlength, hfits, hcontent, Nat.zero_le _, rfl, (hcrc.nil 0).symm⟩
  obtain ⟨size, hsize⟩ : ∃ size, size = min (T.length - 0) (E.chunk * 2) := ⟨_, rfl⟩
  obtain ⟨-, hzcbor, hnext⟩ := read_spec (s := s) hE hcrc hreading (Nat.zero_le _) hsize
  have hslice : ((T.drop 0).take size).length = size := by
    rw [List.length_take, List.length_drop]
    omega
  have hwindow : (E.newDecoder d start buffer).zcbor =
      { ZcborState.new 8 buffer 0 (2 * E.chunk) 1 with memory := memcpy buffer 0 ((T.drop 0).take size) size } := by
    rw [hnew, hzcbor, hs]
    rfl
  refine ⟨?_, 0, ⟨?_, ?_, ?_, ?_, ?_⟩, ?_⟩
  · change ZcborState.Similar _ (E.newDecoder d start buffer).zcbor
    rw [hwindow]
    exact ⟨rfl, rfl, rfl, rfl⟩
  · change _ <+: (E.newDecoder d start buffer).zcbor.memory
    rw [hwindow, Nat.zero_mul]
    dsimp only
    rw [memcpy, List.take_zero, List.nil_append, List.take_of_length_le (Nat.le_of_eq hslice), hsize, Nat.sub_zero,
      List.drop_zero, Nat.mul_comm E.chunk, Nat.min_comm, ← List.take_eq_take_min]
    exact List.prefix_append _ _
  · change (E.newDecoder d start buffer).zcbor.memory.length = _
    rw [hwindow]
    dsimp only
    rw [length_memcpy hslice (by omega), hbuffer]
  · change (E.newDecoder d start buffer).zcbor.payload ≤ _
    rw [hwindow]
    exact Nat.zero_le _
  · change _ ≤ (E.newDecoder d start buffer).zcbor.payloadEnd
    rw [hwindow]
    change _ ≤ 0 + 2 * E.chunk
    omega
  · have hcount : 0 + size = min T.length ((0 + 2) * E.chunk) := by omega
    rw [← hcount, hnew]
    exact hnext
  · change _ = T.drop (0 * E.chunk + (E.newDecoder d start buffer).zcbor.payload)
    rw [hwindow, remaining_contentState, Nat.zero_mul]
    rfl

variable {chunk_lt} {t : ZcborState} {s : EepromIn δ}

/-- The header stays what it is. -/
theorem header_of_simulates {H : EepromHeader} (h : (E.reader chunk_lt).Simulates T (E.Holds mem H T) t s.toStream) :
    s.header = H := by
  obtain ⟨-, k, hk, -⟩ := h
  exact hk.reading.header

/-- When all of the content has been decoded the checksum is that of the header. -/
theorem verify_of_simulates (h : (E.reader chunk_lt).Simulates T (E.Holds mem (E.headerOf T) T) t s.toStream)
    (hremaining : t.remaining = []) : s.verify = true := by
  have hheader := header_of_simulates h
  obtain ⟨-, k, hk, hdrop⟩ := h
  have hle : T.length ≤ k * E.chunk + s.toStream.zcbor.payload := List.drop_eq_nil_iff.1 (hdrop.symm.trans hremaining)
  have hpayload := hk.payload_le
  have hall : min T.length ((k + 2) * E.chunk) = T.length := by
    have htwo : (k + 2) * E.chunk = k * E.chunk + 2 * E.chunk := Nat.add_mul k 2 _
    omega
  have hcrc : s.crc = E.crc32 0 (T.take (min T.length ((k + 2) * E.chunk))) := hk.reading.crc
  rw [hall, List.take_length] at hcrc
  rw [EepromIn.verify, hheader, hcrc]
  exact decide_eq_true rfl

end Load

end Eeprom

end ThingSet
