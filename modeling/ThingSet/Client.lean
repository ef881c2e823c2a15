import ThingSet.BinaryDecoder
import ThingSet.BinaryEncoder
import ThingSet.Node
import ThingSet.RequestContext

/-!
# The client

`ThingSetClient` writes a request to its transport and reads the response. Its transport is a
parameter (`ClientTransport`), with a state of its own. The client keeps nothing from one call to
the next but what is left in its receive buffer, which the transport's `read` returns.
-/

namespace ThingSet

open Interaction Prog

/-- `ThingSetClientTransport`. `read` returns the number of bytes that it read, negative for an
error, and the buffer. -/
structure ClientTransport (ω : Type) where
  write : Bytes → ω → Bool × ω
  read : ℕ → ω → (ℤ × Bytes) × ω

/-- `ThingSetResult::success` of the status with this code. -/
def resultSuccess (code : UInt8) : Bool :=
  code ∈ [StatusCode.content.code, StatusCode.changed.code, StatusCode.created.code,
    StatusCode.deleted.code]

/-- `ThingSetClient`: the library it encodes and decodes with, and the sizes of its buffers. -/
structure Client where
  encoder : ZcborEncode
  decoder : BinaryDecoderOptions
  rxBufferSize : ℕ
  txBufferSize : ℕ

/-- What `read` gives: the result, and where there is a response its buffer and the size of what
follows its header. -/
structure ClientResponse where
  result : UInt8
  rxBuffer : Bytes := []
  responseSize : ℕ := 0

namespace Client

variable {ω V : Type} (c : Client) (T : ClientTransport ω)

/-- `cborNull`. -/
def cborNull : UInt8 := 0xF6

/-- `responseHeaderSize`: the status code and a null. -/
def responseHeaderSize : ℕ := 2

/-- `read`. -/
def read (t : ω) : ClientResponse × ω :=
  let ((received, rxBuffer), t) := T.read c.rxBufferSize t
  if received ≤ 0 then (⟨StatusCode.gatewayTimeout.code, [], 0⟩, t)
  else if !resultSuccess (rxBuffer.headD 0) then (⟨rxBuffer.headD 0, [], 0⟩, t)
  else if received < responseHeaderSize ∨ rxBuffer.getD 1 0 ≠ cborNull then
    (⟨StatusCode.internalServerError.code, [], 0⟩, t)
  else (⟨rxBuffer.headD 0, rxBuffer, received.toNat - responseHeaderSize⟩, t)

/-- `doRequestCore`, given how the id and the rest of the request are encoded. -/
def doRequestCore (type : UInt8) (id payload : Encoding Bool) (t : ω) : ClientResponse × ω :=
  let (ok, s) := run (binaryEncoder c.encoder) (encodeAll [id, payload]) (.new 8 (c.txBufferSize - 1))
  if !ok then (⟨StatusCode.requestIncomplete.code, [], 0⟩, t)
  else
    let (written, t) := T.write (type :: s.output) t
    if !written then (⟨StatusCode.requestIncomplete.code, [], 0⟩, t) else c.read T t

/-- `doRequest` with a result to decode: the code, and the value behind the pointer. -/
def doRequest (type : UInt8) (id payload : Encoding Bool) (codec : Codec V) (value : V) (t : ω) :
    (UInt8 × V) × ω :=
  let (r, t) := c.doRequestCore T type id payload t
  if resultSuccess r.result then
    let d := (run (binaryDecoder c.decoder) (codec.decode value)
      (.new 8 r.rxBuffer responseHeaderSize r.responseSize 1)).1
    ((if d.ok then r.result else StatusCode.internalServerError.code, d.value value), t)
  else ((r.result, value), t)

/-- `get` by id. -/
def get (id : ℕ) (codec : Codec V) (result : V) (t : ω) : (UInt8 × V) × ω :=
  c.doRequest T binaryRequestTypes.get (encode (.uint .w16 id)) (pure true) codec result t

/-- `update` by id: the root is the parent of all ids. -/
def update (id : ℕ) (codec : Codec V) (value : V) (t : ω) : UInt8 × ω :=
  let (r, t) := c.doRequestCore T binaryRequestTypes.update (encode (.int .w32 0))
    (encodeAll [encode (.mapStart none), encode (.uint .w16 id), codec.encode value,
      encode (.mapEnd none)]) t
  (r.result, t)

end Client

end ThingSet
