import ThingSet.Foundations.Retry
import ThingSet.Streaming.Encoder

/-!
# The EEPROM encoder

`StreamingZephyrEepromThingSetBinaryEncoder` writes chunks behind a header, and with the last one the
header, which has the length and the checksum of the chunks. A chunk is read back, and it is written
again when that fails.

`reports_iff`: `write` returns true even when no attempt has stored the chunk.
-/

namespace ThingSet

open Retry

/-- The driver of a device: the error of `eeprom_write`, and the error of `eeprom_read` with what is then
in the memory that it was given. -/
structure EepromDriver (δ : Type) where
  write : ℕ → Bytes → δ → ℤ × δ
  read : ℕ → ℕ → δ → (ℤ × Bytes) × δ

/-- An EEPROM, `crc32_ieee_update` and the configuration: `CONFIG_THINGSET_PLUS_PLUS_EEPROM_CHUNK_SIZE`,
`_ACCESS_ATTEMPTS` and `_DATA_VERSION`. -/
structure Eeprom (δ : Type) where
  driver : EepromDriver δ
  crc32 : UInt32 → Bytes → UInt32
  chunk : ℕ
  chunk_pos : 0 < chunk
  attempts : ℕ
  version : UInt16

/-- One bit of `crc32_ieee_update`. -/
def crc32Bit (crc : UInt32) : UInt32 := (crc >>> 1) ^^^ (if crc &&& 1 = 0 then 0 else 0xEDB88320)

/-- `crc32_ieee_update`. -/
def crc32IeeeUpdate (crc : UInt32) (data : Bytes) : UInt32 :=
  ~~~ data.foldl (fun crc byte => crc32Bit^[8] (crc ^^^ byte.toUInt32)) (~~~ crc)

/-- `EepromHeader`. -/
structure EepromHeader where
  version : UInt16
  dataLen : UInt16
  crc : UInt32
  deriving DecidableEq

namespace EepromHeader

/-- `sizeof(EepromHeader)`, which is packed. -/
def size : ℕ := 8

/-- The header in memory. -/
def bytes (h : EepromHeader) : Bytes :=
  [.ofNat h.version.toNat, .ofNat (h.version.toNat / 0x100),
    .ofNat h.dataLen.toNat, .ofNat (h.dataLen.toNat / 0x100),
    .ofNat h.crc.toNat, .ofNat (h.crc.toNat / 0x100), .ofNat (h.crc.toNat / 0x10000),
    .ofNat (h.crc.toNat / 0x1000000)]

/-- The memory as a header. -/
def ofBytes (bs : Bytes) : EepromHeader :=
  let byte (i : ℕ) : ℕ := (bs.getD i 0).toNat
  { version := .ofNat (byte 0 + 0x100 * byte 1)
    dataLen := .ofNat (byte 2 + 0x100 * byte 3)
    crc := .ofNat (byte 4 + 0x100 * byte 5 + 0x10000 * byte 6 + 0x1000000 * byte 7) }

end EepromHeader

/-- A call of `write`: where, what, and the device before it. -/
structure EepromWrite (δ : Type) where
  offset : ℕ
  payload : Bytes
  device : δ
  deriving DecidableEq

/-- The members of the encoder with its device, and the calls of `write`. -/
structure EepromOut (δ : Type) where
  device : δ
  initialOffset : ℕ
  offset : ℕ
  crc : UInt32 := 0
  writes : List (EepromWrite δ) := []

/-- The constructor, for a device and an offset. -/
def EepromOut.new {δ : Type} (device : δ) (offset : ℕ) : EepromOut δ where
  device := device
  initialOffset := offset
  offset := offset + EepromHeader.size

namespace Eeprom

variable {δ : Type} (E : Eeprom δ)

/-- An attempt to store a chunk: whether it was written and read back as it is. -/
def attempt (offset : ℕ) (payload : Bytes) (d : δ) : Bool × δ :=
  let (err, d) := E.driver.write offset payload d
  if err ≠ 0 then (false, d)
  else
    let ((err, chunk), d) := E.driver.read offset payload.length d
    if err ≠ 0 then (false, d)
    else (chunk.take payload.length = payload, d)

/-- The header, once all chunks are written. -/
def header (o : EepromOut δ) : EepromHeader where
  version := E.version
  dataLen := .ofNat (o.offset - o.initialOffset - EepromHeader.size)
  crc := o.crc

/-- `write`. The loop has a variable `err` of its own, and the one that is tested behind it stays 0. -/
def write (payload : Bytes) (flushing : Bool) (o : EepromOut δ) : Bool × EepromOut δ :=
  let err : ℤ := 0
  let o := { o with
    device := (retry (E.attempt o.offset payload) E.attempts o.device).2
    writes := o.writes ++ [⟨o.offset, payload, o.device⟩] }
  if err ≠ 0 then (false, o)
  else
    let o := { o with
      crc := E.crc32 o.crc payload
      offset := o.offset + payload.length }
    if flushing then
      (true, { o with
        device := (E.driver.write o.initialOffset (E.header o).bytes o.device).2 })
    else (true, o)

/-- `StreamingZephyrEepromThingSetBinaryEncoder`. -/
def streamingEncoder : StreamingEncoder (EepromOut δ) where
  size := E.chunk
  headerSize := 0
  headerSize_lt := E.chunk_pos
  reportType := none
  write payload flushing _ o := E.write payload flushing o

/-- The last attempt of a call of `write` has stored the chunk. -/
def Stored (c : EepromWrite δ) : Prop := (retry (E.attempt c.offset c.payload) E.attempts c.device).1 = true

instance decidableStored (c : EepromWrite δ) : Decidable (E.Stored c) :=
  inferInstanceAs (Decidable (_ = _))

/-- One of the attempts that the call may make stores the chunk. -/
def Storable (c : EepromWrite δ) : Prop := Succeeds (E.attempt c.offset c.payload) E.attempts c.device

variable {E} {payload : Bytes} {flushing : Bool} {o : EepromOut δ}

theorem stored_iff {c : EepromWrite δ} : E.Stored c ↔ E.Storable c := retry_iff

/-- Whatever the device does, `write` returns true. -/
theorem write_fst : (E.write payload flushing o).1 = true := by
  cases flushing <;> rfl

variable (E payload flushing o)

/-- Unless the last attempt stores the chunk, `write` returns false and leaves the checksum and the
offset. -/
def Reports : Prop :=
  ¬ E.Stored ⟨o.offset, payload, o.device⟩ →
    (E.write payload flushing o).1 = false ∧ (E.write payload flushing o).2.crc = o.crc ∧
      (E.write payload flushing o).2.offset = o.offset

variable {E payload flushing o}

theorem reports_iff : E.Reports payload flushing o ↔ E.Storable ⟨o.offset, payload, o.device⟩ := by
  rw [← stored_iff]
  constructor
  · intro h
    by_contra hstored
    exact absurd (h hstored).1 (by rw [write_fst]; exact Bool.noConfusion)
  · exact fun h hnot => absurd h hnot

end Eeprom

end ThingSet
