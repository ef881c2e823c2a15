import ThingSet.Node
import ThingSet.RequestContext

/-!
# The server

`handleRequest` of `_ThingSetServer` and the handlers it calls, as programs over the request's
decoder. What they change besides the decoder is the session: the stored values, the response's
encoder and its status. Two lists record what a request touches: `accessed` the elements of
record arrays that a request handler of an array accesses through the context's index, `updated`
the nodes that an update decodes a value into.
-/

namespace ThingSet

open Interaction Prog

/-- A server: its registry, the mask `_access`, the response's encoder and whether there is a
forwarder. -/
structure Server (ι V A τ : Type) where
  registry : Registry ι V A
  access : UInt8
  encoder : Encoder τ
  hasForwarder : Bool := false

/-- What handling a request changes. -/
structure Session (ι V A τ : Type) where
  world : World ι V A
  encoder : τ
  status : Option StatusCode := none
  accessed : List (ι × ℕ) := []
  updated : List ι := []

/-- What the length that a handler returns covers: the header of the response, or the header and
what has been encoded. A forwarded request is answered by the forwarder. -/
inductive Returned
  | header
  | body
  | forwarded
  deriving DecidableEq, Repr

variable {ι V A τ : Type} [DecidableEq ι]

/-! ## Values -/

namespace World

variable (w : World ι V A)

/-- The world with another value of a property. -/
def setValue (n : ι) (v : V) : World ι V A := { w with values := Function.update w.values n v }

/-- The world with other elements of a record array. -/
def setElements (n : ι) (e : ℕ → V) : World ι V A :=
  { w with elements := Function.update w.elements n e }

/-- The world with another element of a record array. -/
def setElement (n : ι) (i : ℕ) (v : V) : World ι V A :=
  w.setElements n (Function.update (w.elements n) i v)

/-- The world with other arguments of a function. -/
def setArguments (n : ι) (vs : List V) : World ι V A :=
  { w with arguments := Function.update w.arguments n vs }

end World

namespace Session

variable (s : Session ι V A τ)

/-- `setStatus`. -/
def setStatus (status : StatusCode) : Session ι V A τ := { s with status := some status }

/-- The session with another state of the application. -/
def setApp (a : A) : Session ι V A τ := { s with world := { s.world with app := a } }

/-- Run a program on the response's encoder. -/
def encode {α : Type} (e : Encoder τ) (p : Encoding α) : α × Session ι V A τ :=
  ((run e p s.encoder).1, { s with encoder := (run e p s.encoder).2 })

end Session

namespace Registry

variable (R : Registry ι V A)

/-- `ThingSetGroup::encode`, given the `encode` of its children. -/
def encodeGroup (encodeNode : ι → Encoding Bool) (n : ι) : Encoding Bool := do
  let outline ← encode .renderGroupAsOutline
  let included := (R.children n).filter fun child =>
    (R.node child).kind.tryCastTo .encodable &&
      (!outline || (R.node child).kind.tryCastTo .group)
  encodeAll ([encode (.mapStart (some included.length))] ++
    included.map (fun child => do
      let keysAsIds ← encode .encodeKeysAsIds
      encodePair
        (if keysAsIds then encode (.uint .w16 (R.node child).id)
          else encode (.string (R.node child).name)) (encodeNode child)) ++
    [encode (.mapEnd (some included.length))])

/-- `ThingSetEncodable::encode` of a node. Groups may contain each other; the encoder's buffer
ends before the bound does. -/
def encodeNode (w : World ι V A) : ℕ → ι → Encoding Bool
  | 0, _ => pure false
  | fuel + 1, n =>
    match (R.node n).kind with
    | .property codec => codec.encode (w.values n)
    | .recordArray element size _ => encodeArray (fun i => element.encode (w.elements n i)) size
    | .group _ => R.encodeGroup (encodeNode w fuel) n
    | _ => pure false

/-- `ThingSetDecodable::decode` of a node. -/
def decodeNode (w : World ι V A) (n : ι) : Decoding (Bool × World ι V A) :=
  match (R.node n).kind with
  | .property codec => do
    let d ← codec.decode (w.values n)
    pure (d.ok, w.setValue n (d.value (w.values n)))
  | .recordArray element size _ => do
    let (ok, a) ← decodeArray element.decode size ⟨w.elements n, []⟩
    pure (ok, w.setElements n a.value)
  | _ => pure (false, w)

end Registry

namespace Server

variable (S : Server ι V A τ) (c : RequestContext)

/-! ## Record arrays -/

/-- `ThingSetRecordPropertyHelpers::handleRequest` on the array of the node `n`. It returns
nothing where the source returns 0. -/
def handleRecordRequest (n : ι) (element : Codec V) (size index : ℕ) (s : Session ι V A τ) :
    Decoding (Option Returned × Session ι V A τ) :=
  if c.isGet then
    let s := ((s.setStatus .content).encode S.encoder (encode .preamble)).2
    if index = sizeMax then
      pure (some .body, (s.encode S.encoder (encode (.uint .w64 size))).2)
    else
      let s := { s with accessed := s.accessed ++ [(n, index)] }
      pure (some .body, (s.encode S.encoder (element.encode (s.world.elements n index))).2)
  else if c.isUpdate then do
    let s := ((s.setStatus .changed).encode S.encoder (encode .preamble)).2
    let s := if index = sizeMax then s.setStatus .badRequest else s
    let d ← element.decode (s.world.elements n index)
    pure (some .header, { s with
      accessed := s.accessed ++ [(n, index)]
      world := s.world.setElement n index (d.value (s.world.elements n index)) })
  else pure (none, s)

/-! ## Get -/

/-- `handleGet`. -/
def handleGet (n : ι) (s : Session ι V A τ) : Returned × Session ι V A τ :=
  let R := S.registry
  let s := ((s.setStatus .content).encode S.encoder (encode .preamble)).2
  let kind := (R.node n).kind
  if kind.tryCastTo .encodable then
    let (ok, s) := s.encode S.encoder (R.encodeNode s.world sizeMax n)
    if ok then (.body, s) else (.header, s.setStatus .unsupportedFormat)
  else if kind.tryCastTo .hasChildren then
    let children := (R.children n).filter fun child => (R.node child).kind.tryCastTo .encodable
    let (_, s) := s.encode S.encoder (encodeEach
      ([encode (.mapStart (some children.length))] ++
        children.map (fun child => encodePair
          (if c.useIds then encode (.uint .w16 (R.node child).id)
            else encode (.string (R.node child).name))
          (R.encodeNode s.world sizeMax child)) ++
        [encode (.mapEnd (some children.length))]))
    (.body, s)
  else (.header, s.setStatus .unsupportedFormat)

/-! ## Fetch -/

/-- What `handleFetch` encodes about a node for the metadata node. -/
def encodeMetadata (n : Node ι V A) : Encoding Bool :=
  encodeAll
    [encode (.mapStart none),
      encode (.uint .w16 0x1A), encode (.string n.name),
      encode (.uint .w16 0x1B), encode (.string n.type),
      encode (.uint .w16 0x1C), encode (.uint .w8 n.access.toNat),
      encode (.mapEnd none)]

/-- The callback of `handleFetch` on each id of the list. -/
def fetchMetadata (s : Session ι V A τ) : Decoding (Bool × Session ι V A τ) := do
  match ← decode (.uint .w32) with
  | none => pure (false, s)
  | some id =>
    match S.registry.findById id with
    | none => pure (false, s)
    | some n => pure (s.encode S.encoder (encodeMetadata (S.registry.node n)))

/-- `handleFetch` of the metadata node, once the list has been seen. -/
def handleFetchMetadata (s : Session ι V A τ) :
    Decoding (Returned × Session ι V A τ) := do
  let (ok, s) ← decodeList (fun _ s => S.fetchMetadata s) s
  let (ok, s) := if ok then s.encode S.encoder (encode (.listEnd none)) else (false, s)
  pure (if ok then (.body, s) else (.header, s.setStatus .notFound))

/-- `handleFetch`. -/
def handleFetch (n : ι) (s : Session ι V A τ) : Decoding (Returned × Session ι V A τ) := do
  let R := S.registry
  let s := ((s.setStatus .content).encode S.encoder (encode .preamble)).2
  let null ← decode .null
  if null then
    if (R.node n).kind.tryCastTo .hasChildren then
      let items := (R.children n).map fun child =>
        if c.useIds then encode (.uint .w32 (R.node child).id)
        else encode (.string (R.node child).name)
      pure (.body, (s.encode S.encoder (encodeStdList items)).2)
    else pure (.header, s.setStatus .badRequest)
  else if n = R.metadataNode then do
    let type ← decode .peekType
    if type = .list then
      let (started, s) := s.encode S.encoder (encode (.listStart none))
      if started then S.handleFetchMetadata s else pure (.header, s.setStatus .badRequest)
    else pure (.header, s.setStatus .badRequest)
  else pure (.header, s.setStatus .badRequest)

/-! ## Update -/

/-- `handleNodeUpdate`, the function that `handleUpdate` calls on the node of each key. -/
def handleNodeUpdate (parent child : ι) (s : Session ι V A τ) :
    Decoding (Bool × Session ι V A τ) :=
  let R := S.registry
  if (R.node child).access &&& S.access &&& anyWrite = 0 then pure (false, s.setStatus .forbidden)
  else if !(R.node child).kind.tryCastTo .decodable then pure (false, s.setStatus .badRequest)
  else
    let (allowed, app) := (R.node parent).kind.invokeCallback child .willWrite s.world.app
    let s := s.setApp app
    if !allowed then pure (false, s.setStatus .forbidden)
    else do
      let (ok, w) ← R.decodeNode s.world child
      let s := { s with world := w }
      if !ok then pure (false, s.setStatus .badRequest)
      else
        let (_, app) := (R.node parent).kind.invokeCallback child .didWrite s.world.app
        pure (true, { s.setApp app with updated := s.updated ++ [child] })

/-- The node that `handleUpdate` takes a key for: the id is looked up in the registry, whatever
the parent; without an id, the name is looked up from the parent on. -/
def updatedNode (parent : ι) (key : Key) : Option ι :=
  match key.id, key.name with
  | some id, _ => S.registry.findById id
  | none, some name => (S.registry.findByNameIn parent name).map Prod.fst
  | none, none => none

/-- The callback of `handleUpdate`. A key without id and name, which `decodeKey` never returns,
leaves the status as it is. -/
def updateEntry (parent : ι) (s : Session ι V A τ) (key : Key) :
    Decoding (Bool × Session ι V A τ) :=
  match S.updatedNode parent key with
  | some child => S.handleNodeUpdate parent child s
  | none =>
    if key.id.isSome ∨ key.name.isSome then pure (false, s.setStatus .notFound)
    else pure (false, s)

/-- `handleUpdate`. -/
def handleUpdate (n : ι) (s : Session ι V A τ) : Decoding (Returned × Session ι V A τ) :=
  if !(S.registry.node n).kind.tryCastTo .hasChildren then pure (.header, s.setStatus .badRequest)
  else do
    let s := ((s.setStatus .changed).encode S.encoder (encode .preamble)).2
    let (ok, s) ← decodeMap (S.updateEntry n) s
    if ok then pure (.body, (s.encode S.encoder (encode .preamble)).2)
    -- just the error code
    else pure (.header, s)

/-! ## Exec -/

/-- `handleExec`. -/
def handleExec (n : ι) (s : Session ι V A τ) : Decoding (Returned × Session ι V A τ) :=
  let R := S.registry
  if (R.node n).access &&& S.access = 0 then pure (.header, s.setStatus .forbidden)
  else
    match (R.node n).kind with
    | .function parameters f => do
      let s := (s.encode S.encoder (encode .preamble)).2
      let (ok, arguments) ← decodeArguments (parameters.map Codec.decode) (s.world.arguments n)
      let s := { s with world := s.world.setArguments n arguments }
      if ok then
        let (app, result) := f arguments s.world.app
        let (ok, s) := (s.setApp app).encode S.encoder result
        if ok then pure (.body, s.setStatus .changed) else pure (.header, s.setStatus .badRequest)
      else pure (.header, s.setStatus .badRequest)
    | _ => pure (.header, s.setStatus .badRequest)

/-! ## Requests -/

/-- The node and the index of a request's endpoint. -/
def endpoint : Option (ι × ℕ) :=
  match c.id, c.path with
  | some id, _ => (S.registry.findById id).map fun n => (n, sizeMax)
  | none, some path => S.registry.findByName path
  | none, none => none

/-- The handlers behind a node's own request handler. -/
def handleNode (n : ι) (s : Session ι V A τ) : Decoding (Returned × Session ι V A τ) :=
  if c.isGet then pure (S.handleGet c n s)
  else if c.isFetch then S.handleFetch c n s
  else if c.isUpdate then S.handleUpdate n s
  else if c.isExec then S.handleExec n s
  else pure (.header, s.setStatus .notImplemented)

/-- `handleRequest`. -/
def handleRequest (s : Session ι V A τ) : Decoding (Returned × Session ι V A τ) :=
  if !c.hasValidEndpoint then pure (.header, s.setStatus .badRequest)
  else if c.isToBeForwarded then
    if S.hasForwarder then pure (.forwarded, s) else pure (.header, s.setStatus .notAGateway)
  else
    match S.endpoint c with
    | none => pure (.header, s.setStatus .notFound)
    | some (n, index) =>
      match (S.registry.node n).kind with
      | .recordArray element size _ => do
        let (result, s) ← S.handleRecordRequest c n element size index s
        match result with
        | some returned => pure (returned, s)
        | none => S.handleNode c n s
      | _ => S.handleNode c n s

/-- `handleBinaryRequest`, from the decoder behind the request's type on. -/
def handleBinaryRequest (requestType : UInt8) (s : Session ι V A τ) :
    Decoding (Returned × Session ι V A τ) := do
  let c ← binaryEndpoint requestType
  S.handleRequest c s

end Server

end ThingSet
