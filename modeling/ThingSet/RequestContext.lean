import ThingSet.TextDecoder

/-!
# Requests

A request is one byte for its type, an endpoint and a payload. The context of a request keeps the
type and the endpoint, and the decoder that is left in front of the payload (`RequestContext`).
The binary context reads the endpoint through its decoder (`binaryEndpoint`); the text context
searches the request for a space and makes a decoder behind it (`textRequestContext`).
-/

namespace ThingSet

open Interaction Prog

/-- `ThingSetStatusCode`, as far as the server and the client use it. -/
inductive StatusCode
  | created
  | deleted
  | changed
  | content
  | badRequest
  | forbidden
  | notFound
  | requestIncomplete
  | unsupportedFormat
  | internalServerError
  | notImplemented
  | gatewayTimeout
  | notAGateway
  deriving DecidableEq, Repr

/-- The byte of a status code. -/
def StatusCode.code : StatusCode → UInt8
  | .created => 0x81
  | .deleted => 0x82
  | .changed => 0x84
  | .content => 0x85
  | .badRequest => 0xA0
  | .forbidden => 0xA3
  | .notFound => 0xA4
  | .requestIncomplete => 0xA8
  | .unsupportedFormat => 0xAF
  | .internalServerError => 0xC0
  | .notImplemented => 0xC1
  | .gatewayTimeout => 0xC4
  | .notAGateway => 0xC5

/-- The constants of `ThingSetBinaryRequestType` or `ThingSetTextRequestType`. -/
structure RequestTypes where
  get : UInt8
  exec : UInt8
  remove : UInt8
  fetch : UInt8
  create : UInt8
  update : UInt8
  forward : UInt8
  deriving DecidableEq, Repr

/-- `ThingSetBinaryRequestType`. -/
def binaryRequestTypes : RequestTypes where
  get := 0x01
  exec := 0x02
  remove := 0x04
  fetch := 0x05
  create := 0x06
  update := 0x07
  forward := 0x1C

/-- `ThingSetTextRequestType`: `fetch` is `get`. -/
def textRequestTypes : RequestTypes where
  get := 0x3F
  exec := 0x21
  remove := 0x2D
  fetch := 0x3F
  create := 0x2B
  update := 0x3D
  forward := 0x3E

/-- `ThingSetRequestContext`: the request's type and its endpoint. -/
structure RequestContext where
  types : RequestTypes
  requestType : UInt8
  id : Option ℕ := none
  path : Option Bytes := none
  deriving DecidableEq, Repr

namespace RequestContext

variable (c : RequestContext)

/-- `isGet`. -/
def isGet : Bool := c.requestType = c.types.get

/-- `isFetch`. -/
def isFetch : Bool := c.requestType = c.types.fetch

/-- `isUpdate`. -/
def isUpdate : Bool := c.requestType = c.types.update

/-- `isExec`. -/
def isExec : Bool := c.requestType = c.types.exec

/-- `isForward`. -/
def isForward : Bool := c.requestType = c.types.forward

/-- `hasValidEndpoint`. -/
def hasValidEndpoint : Bool := c.id.isSome || c.path.isSome

/-- `isToBeForwarded`. -/
def isToBeForwarded : Bool :=
  c.isForward || c.path.any fun path => 1 < path.length && path.headD 0 == 0x2F

/-- `useIds`. -/
def useIds : Bool := c.id.isSome

end RequestContext

/-- The constructor of `ThingSetBinaryRequestContext`: a string is a path, else a number below
`UINT16_MAX` is an id. -/
def binaryEndpoint (requestType : UInt8) : Decoding RequestContext := do
  match ← decode .string with
  | some path =>
    pure { types := binaryRequestTypes, requestType := requestType, path := some path }
  | none => do
    let id ← decode (.uint .w16)
    pure { types := binaryRequestTypes, requestType := requestType, id := id }

/-- The constructor of `ThingSetTextRequestContext`, on the memory that holds the request and the
array of tokens as it is. The search covers `requestLen` bytes behind the request's type, and the
decoder takes one byte more than there is payload. -/
def textRequestContext (memory : Bytes) (requestLen : ℕ) (tokens : ℕ → JsmnTok) :
    RequestContext × TextDecoderState :=
  let pathStart := memory.drop 1
  let context (path : Bytes) : RequestContext :=
    { types := textRequestTypes, requestType := memory.headD 0, path := some path }
  let decoder (inputBuffer bufferSize : ℕ) : TextDecoderState :=
    { memory := memory, inputBuffer := inputBuffer, bufferSize := bufferSize, tokens := tokens }
  match memchr pathStart 0x20 requestLen with
  | some n => (context (pathStart.take n), decoder (n + 2) (requestLen - 1 - n))
  | none => (context (pathStart.take (requestLen - 1)), decoder 1 (requestLen - 1))

section

variable {memory : Bytes} {requestLen : ℕ} {tokens : ℕ → JsmnTok}

theorem textRequestContext_of_space {n : ℕ} (h : memchr (memory.drop 1) 0x20 requestLen = some n) :
    textRequestContext memory requestLen tokens =
      ({ types := textRequestTypes, requestType := memory.headD 0,
         path := some ((memory.drop 1).take n) },
       { memory := memory, inputBuffer := n + 2, bufferSize := requestLen - 1 - n,
         tokens := tokens }) := by
  simp only [textRequestContext, h]

theorem textRequestContext_of_not_space (h : memchr (memory.drop 1) 0x20 requestLen = none) :
    textRequestContext memory requestLen tokens =
      ({ types := textRequestTypes, requestType := memory.headD 0,
         path := some ((memory.drop 1).take (requestLen - 1)) },
       { memory := memory, inputBuffer := 1, bufferSize := requestLen - 1, tokens := tokens }) := by
  simp only [textRequestContext, h]

end

end ThingSet
