import ThingSet.BinaryDecoder
import ThingSet.Eeprom.Encoder

/-!
# The EEPROM decoder

`StreamingZephyrEepromThingSetBinaryDecoder` reads the header and then the content, which it decodes through a
window of twice the size of a chunk (`StreamingThingSetBinaryDecoder`). When a decode call finds the payload
past the first chunk of the window, the second chunk is moved to the start, and the next one is read behind it.
The checksum is that of all bytes that have been read.
-/

namespace ThingSet

open Interaction Prog

/-- The members. Pointers of `zcbor` count from the start of `_buffer`, which is its memory. -/
structure EepromIn (δ : Type) where
  zcbor : ZcborState
  decodedLength : ℕ := 0
  header : EepromHeader
  offset : ℕ
  localOffset : ℕ
  crc : UInt32 := 0
  device : δ

namespace EepromIn

variable {δ : Type} (s : EepromIn δ)

/-- `verify`. -/
def verify : Bool := s.header.crc = s.crc

/-- `isEmpty`. -/
def isEmpty : Bool := s.header = ⟨0xFFFF, 0xFFFF, 0xFFFFFFFF⟩ ∨ s.header = ⟨0, 0, 0⟩

end EepromIn

namespace Eeprom

variable {δ : Type} (E : Eeprom δ)

/-- `read(pos, maxSize)`: `eeprom_read` fills the window, whatever it returns. -/
def read (pos maxSize : ℕ) (s : EepromIn δ) : ℕ × EepromIn δ :=
  let remaining := toSize (s.header.dataLen.toNat - (s.offset - s.localOffset : ℤ))
  let chunk := min remaining maxSize
  let ((_, bytes), device) := E.driver.read s.offset chunk s.device
  let src := bytes.take chunk
  let buffer := memcpy s.zcbor.memory pos src src.length
  (chunk, { s with
    zcbor := { s.zcbor with memory := buffer }
    offset := s.offset + chunk
    crc := E.crc32 s.crc ((buffer.drop pos).take chunk)
    device := device })

/-- The constructor, for a device and an offset, on a window that is not initialised. -/
def newDecoder (device : δ) (offset : ℕ) (buffer : Bytes) : EepromIn δ :=
  let ((result, bytes), device) := E.driver.read offset EepromHeader.size device
  let s : EepromIn δ := {
    zcbor := .new 8 buffer 0 (2 * E.chunk) 1
    header := .ofBytes bytes
    offset := offset + EepromHeader.size
    localOffset := offset + EepromHeader.size
    device := device }
  if result = 0 then (E.read 0 (E.chunk * 2) s).2 else s

/-- `ensureLength`. -/
def ensureLength (s : EepromIn δ) : EepromIn δ :=
  let currentPos := s.zcbor.payload
  let dataSize := E.chunk
  if currentPos > dataSize then
    let buffer := memcpy s.zcbor.memory 0 (s.zcbor.memory.drop dataSize) dataSize
    let s := { s with
      zcbor := { s.zcbor with memory := buffer }
      decodedLength := s.decodedLength + dataSize }
    let (readSize, s) := E.read E.chunk E.chunk s
    let newPos := currentPos - dataSize
    { s with zcbor := { s.zcbor with
      payload := newPos
      payloadEnd := newPos + toSize (dataSize + readSize - newPos : ℤ) } }
  else s

/-- The options of the decoder that the window is decoded with. -/
def decoderOptions (Z : ZcborDecode) : BinaryDecoderOptions where
  zcbor := Z
  isForwardOnly := true

/-- The functions of `ThingSetBinaryDecoder` on the window. Most of them obtain the state through
`ensureLength`. -/
def windowDecoder (Z : ZcborDecode) : Decoder (EepromIn δ) := fun o s =>
  let s := if o = .isInMap ∨ o = .isInList then s else E.ensureLength s
  let r := binaryDecoder (decoderOptions Z) o s.zcbor
  (r.1, { s with zcbor := r.2 })

/-- The loop of `skip` on the entries of a map. -/
def skipEntries (Z : ZcborDecode) : ℕ → EepromIn δ → Bool × EepromIn δ
  | 0, s => run (E.windowDecoder Z) (decode .listEnd) s
  | n + 1, s =>
    let (key, s) := run (E.windowDecoder Z) (decode .skip) s
    if !key then (false, s)
    else
      let (value, s) := run (E.windowDecoder Z) (decode .skip) s
      if !value then (false, s) else skipEntries Z n s

/-- `skip`: the elements of a list, or the entries of a map, which is entered as a list. -/
def skip (Z : ZcborDecode) (s : EepromIn δ) : Bool × EepromIn δ :=
  match run (E.windowDecoder Z) (decode .peekType) s with
  | (.list, s) =>
    let (r, s) := run (E.windowDecoder Z)
      (decodeList (fun _ _ => do
        let ok ← decode .skip
        pure (ok, ())) ()) s
    (r.1, s)
  | (.map, s) =>
    let (started, s) := run (E.windowDecoder Z) (decode .listStart) s
    if !started then (false, s)
    else
      let s := E.ensureLength s
      E.skipEntries Z (s.zcbor.elemCount / 2) s
  | (_, s) => run (E.windowDecoder Z) (decode .skip) s

/-- `StreamingZephyrEepromThingSetBinaryDecoder`. -/
def streamingDecoder (Z : ZcborDecode) : Decoder (EepromIn δ)
  | .skip, s => E.skip Z s
  | o, s => E.windowDecoder Z o s

end Eeprom

end ThingSet
