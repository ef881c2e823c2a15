import ThingSet.Zcbor.Encode

/-!
# The binary encoder

`ThingSetBinaryEncoder` implements the encoder interface with zcbor calls. Separators are empty,
the preamble is null, keys are ids, and a container without a count is started for up to
`UINT8_MAX` elements.
-/

namespace ThingSet

open Interaction Prog

/-- `UINT8_MAX`. -/
def uint8Max : ℕ := 255

namespace BinaryEncoder

variable (E : ZcborEncode)

/-- `encode(uintN_t)`. -/
def uint : IntWidth → ℕ → ZcborEncodeState → Bool × ZcborEncodeState
  | .w64 => E.uint64Encode
  | _ => E.uint32Encode

/-- `encode(intN_t)`. -/
def int : IntWidth → ℤ → ZcborEncodeState → Bool × ZcborEncodeState
  | .w64 => E.int64Encode
  | _ => E.int32Encode

end BinaryEncoder

/-- `ThingSetBinaryEncoder`. A `std::string` goes through `c_str()`, so it ends at its first
NUL. -/
def binaryEncoder (E : ZcborEncode) : Encoder ZcborEncodeState
  | .string value, s => E.tstrPutTerm (value.takeWhile (· ≠ 0)) s
  | .float value, s => E.float32Encode value s
  | .double value, s => E.float64Encode value s
  | .bool value, s => E.boolPut value s
  | .uint w value, s => BinaryEncoder.uint E w value s
  | .int w value, s => BinaryEncoder.int E w value s
  | .null, s => E.nilPut s
  | .preamble, s => E.nilPut s
  | .listStart count, s => E.listStartEncode (count.getD uint8Max) s
  | .listEnd count, s => E.listEndEncode (count.getD uint8Max) s
  | .mapStart count, s => E.mapStartEncode (count.getD uint8Max) s
  | .mapEnd count, s => E.mapEndEncode (count.getD uint8Max) s
  | .bytes buffer, s => E.bstrEncode buffer s
  | .listSeparator, s => (true, s)
  | .keyValuePairSeparator, s => (true, s)
  | .encodeKeysAsIds, s => (true, s)
  | .renderGroupAsOutline, s => (false, s)
  | .renderedListLength size, s => (size, s)
  | .truncationMarker, s => (true, s)

end ThingSet
