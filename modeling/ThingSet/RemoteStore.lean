import ThingSet.Client
import ThingSet.Foundations.Transition
import ThingSet.Server.RequestBuffer
import ThingSet.Server.Update

/-!
# A remote registry is a plain store

A client and a server's binary request handler, joined by a transport that loses nothing
(`RemoteRegistry.transport`). For properties that may be read and written and whose codec is a round
trip, any sequence of `get` and `update` calls by id gives what a map from properties to values
gives.

* `call_get`, `call_update`: one call.
* `remote_is_store`: any sequence of calls.
-/

namespace ThingSet

open Interaction Prog Transition

variable {ι V A : Type} [DecidableEq ι]

/-! ## The server behind the transport -/

/-- The bytes of a response. -/
def Returned.response (r : Returned) (s : Session ι V A ZcborEncodeState) : Bytes :=
  let header := (s.status.map StatusCode.code).getD 0
  match r with
  | .body => header :: s.encoder.output
  | .header | .forwarded => [header]

/-- A server without a forwarder and a client, with the library that both use, the sizes of their
buffers, and what is left behind a request in the receive buffer of the server and behind a
response in that of the client. -/
structure RemoteRegistry (ι V A : Type) where
  registry : Registry ι V A
  access : UInt8
  encoder : ZcborEncode
  decoder : BinaryDecoderOptions
  rxBufferSize : ℕ
  txBufferSize : ℕ
  responseSize : ℕ
  requestTail : Bytes
  rxTail : Bytes

namespace RemoteRegistry

variable (R : RemoteRegistry ι V A)

/-- The server. -/
def server : Server ι V A ZcborEncodeState where
  registry := R.registry
  access := R.access
  encoder := binaryEncoder R.encoder

/-- The client. -/
def client : Client := ⟨R.encoder, R.decoder, R.rxBufferSize, R.txBufferSize⟩

/-- The response to a request, and the world afterwards. -/
def respond (request : Bytes) (w : World ι V A) : Bytes × World ι V A :=
  let r := (run (binaryDecoder R.decoder)
    (R.server.handleBinaryRequest (request.headD 0)
      { world := w, encoder := .new 8 (R.responseSize - 1) })
    (.new 8 (request ++ R.requestTail) 1 (request.length - 1) 2)).1
  (r.1.response r.2, r.2.world)

/-- A transport that delivers every request and every response. -/
def transport : ClientTransport (World ι V A × Bytes) where
  write request t := (true, ((R.respond request t.1).2, (R.respond request t.1).1))
  read size t := (((t.2.take size).length, t.2.take size ++ R.rxTail), (t.1, []))

end RemoteRegistry

/-! ## Calls -/

/-- A call of the client on a property, with the variable that `get` stores to or the value of an
update. -/
inductive StoreCall (ι V : Type)
  | get (n : ι) (result : V)
  | update (n : ι) (value : V)

/-- The property that is called. -/
def StoreCall.node {ι V : Type} : StoreCall ι V → ι
  | .get n _ => n
  | .update n _ => n

/-- The value that is sent. -/
def StoreCall.value {ι V : Type} : StoreCall ι V → Option V
  | .get _ _ => none
  | .update _ v => some v

/-- What a call returns, and what a `get` stores. -/
abbrev CallResult (V : Type) := UInt8 × Option V

/-- The call, with `codec` for the types of the client's values. -/
def RemoteRegistry.call (R : RemoteRegistry ι V A) (codec : ι → Codec V) :
    StoreCall ι V → World ι V A → CallResult V × World ι V A
  | .get n result, w =>
    let (r, t) := R.client.get R.transport (R.registry.node n).id (codec n) result (w, [])
    ((r.1, some r.2), t.1)
  | .update n value, w =>
    let (r, t) := R.client.update R.transport (R.registry.node n).id (codec n) value (w, [])
    ((r, none), t.1)

/-- A plain store. -/
def storeCall : StoreCall ι V → (ι → V) → CallResult V × (ι → V)
  | .get n _, store => ((StatusCode.content.code, some (store n)), store)
  | .update n value, store => ((StatusCode.changed.code, none), Function.update store n value)

/-! ## Values -/

/-- The value `v` is encoded as `bs`, given `need` bytes of room, and decoded from these bytes. -/
structure Codec.RoundTrips (codec : Codec V) (E : ZcborEncode) (b : BinaryDecoderOptions) (v : V)
    (bs : Bytes) (need : ℕ) : Prop where
  length_le : bs.length ≤ need
  encode : ∀ s : ZcborEncodeState, need ≤ s.room → s.depth = 8 → s.backups.length ≤ 1 →
    run (binaryEncoder E) (codec.encode v) s = (true, s.append bs)
  decode : ∀ old s rest elements opened, opened ≤ 1 → s.Left (bs ++ rest) (elements + 1) opened →
    ∃ d s', run (binaryDecoder b) (codec.decode old) s = (d, s') ∧ d.ok = true ∧ d.value old = v ∧
      s'.Left rest elements opened

/-- A value that makes the round trip in the buffers of a client and a server. -/
def RemoteRegistry.Storable (R : RemoteRegistry ι V A) (codec : Codec V) (v : V) : Prop :=
  ∃ bs need, codec.RoundTrips R.encoder R.decoder v bs need ∧ need + 7 ≤ R.txBufferSize ∧
    need + 3 ≤ R.responseSize ∧ need + 3 ≤ R.rxBufferSize

/-- A registry whose node map holds `nodes`, none of them a record member, with different ids; the
root is the registry's own. -/
structure Registry.HoldsNodes (R : Registry ι V A) (nodes : List ι) : Prop where
  nodeMap : ∀ b, R.nodeMap b = bucketsOf R.node nodes b
  ids_nodup : (nodes.map fun n => (R.node n).id).Nodup
  ordinary : ∀ n ∈ nodes, (R.node n).kind.tryCastTo .recordMember = false
  root_mem : R.rootNode ∈ nodes
  root_id : (R.node R.rootNode).id = 0
  root_kind : (R.node R.rootNode).kind = .overlay

/-- An ordinary property that may be read and written. -/
structure Server.ReadWriteProperty {τ : Type} (S : Server ι V A τ) (nodes : List ι)
    (codec : Codec V) (n : ι) : Prop where
  mem : n ∈ nodes
  kind : (S.registry.node n).kind = .property codec
  writable : (S.registry.node n).access &&& S.access &&& anyWrite ≠ 0
  id_ne : (S.registry.node n).id ≠ 0xFFFF

/-! ## Lookup -/

omit [DecidableEq ι] in
/-- The node map finds each of its nodes. -/
theorem Registry.HoldsNodes.findById {R : Registry ι V A} {nodes : List ι} (h : R.HoldsNodes nodes)
    {n : ι} (hn : n ∈ nodes) : R.findById (R.node n).id = some n := by
  have heffective : ∀ m ∈ nodes, (R.node m).info.effectiveId = (R.node m).id := fun m hm =>
    NodeInfo.effectiveId_of_ordinary (h.ordinary m hm)
  rw [Registry.findById, h.nodeMap, bucketsOf, List.find?_filter]
  have hfound : (nodes.find? fun m => decide (decide (bucketOf (R.node m).info.effectiveId =
      bucketOf (R.node n).id) = true ∧ ((R.node m).id == (R.node n).id) = true)).isSome := by
    rw [List.find?_isSome]
    exact ⟨n, hn, by simp [heffective n hn]⟩
  obtain ⟨m, hm⟩ := Option.isSome_iff_exists.1 hfound
  have hid : (R.node m).id = (R.node n).id := by
    have := List.find?_some hm
    simp only [decide_eq_true_eq, beq_iff_eq] at this
    exact this.2
  rw [hm, List.inj_on_of_nodup_map h.ids_nodup (List.mem_of_find?_eq_some hm) hn hid]

/-! ## Encoding a request -/

section Encode

variable {E : ZcborEncode} {s s' : ZcborEncodeState} {p : Encoding Bool} {ps : List (Encoding Bool)}

theorem run_encodeAll_cons (h : run (binaryEncoder E) p s = (true, s')) :
    run (binaryEncoder E) (encodeAll (p :: ps)) s = run (binaryEncoder E) (encodeAll ps) s' := by
  rw [encodeAll, run_bind, h]
  rfl

/-- The request of a `get`. -/
theorem run_getRequest (hE : E.Lawful) {id capacity : ℕ} (hid : id < 65536) (hroom : 3 ≤ capacity) :
    run (binaryEncoder E) (encodeAll [encode (.uint .w16 id), pure true]) (.new 8 capacity) =
      (true, (ZcborEncodeState.new 8 capacity).append (Cbor.writeHead 0 id)) := by
  have hlen := Cbor.length_writeHead_le 0 hid
  have huint : run (binaryEncoder E) (encode (.uint .w16 id)) (.new 8 capacity) =
      (true, (ZcborEncodeState.new 8 capacity).append (Cbor.writeHead 0 id)) :=
    hE.uint32 id _ (by omega) (by rw [ZcborEncodeState.room_new]; omega)
  rw [run_encodeAll_cons huint]
  rfl

/-- The request of an `update`: the id of the root, and a map with one entry. -/
theorem run_updateRequest (hE : E.Lawful) {b : BinaryDecoderOptions} {codec : Codec V} {v : V}
    {bs : Bytes} {id need capacity : ℕ} (hv : codec.RoundTrips E b v bs need) (hid : id < 65536)
    (hroom : need + 6 ≤ capacity) :
    run (binaryEncoder E) (encodeAll [encode (.int .w32 0),
        encodeAll [encode (.mapStart none), encode (.uint .w16 id), codec.encode v,
          encode (.mapEnd none)]]) (.new 8 capacity) =
      (true, (ZcborEncodeState.new 8 capacity).append
        (Cbor.writeHead 0 0 ++ (Cbor.writeHead 5 1 ++ (Cbor.writeHead 0 id ++ bs))) 2) := by
  have hlen := Cbor.length_writeHead_le 0 hid
  have hle := hv.length_le
  have hzero : (Cbor.writeHead 0 0).length = 1 := rfl
  have hmax : (Cbor.writeHead 5 255).length = 2 := rfl
  set s₀ := ZcborEncodeState.new 8 capacity with hs₀
  have hroom₀ : s₀.room = capacity := rfl
  have hroot : run (binaryEncoder E) (encode (.int .w32 0)) s₀ =
      (true, s₀.append (Cbor.writeHead 0 0)) :=
    hE.int32 0 s₀ (by decide) (by omega)
  set s₁ := s₀.append (Cbor.writeHead 0 0) with hs₁
  have hroom₁ : s₁.room = capacity - 1 := by rw [hs₁, ZcborEncodeState.room_append, hroom₀, hzero]
  obtain ⟨s₂, hstart, hroom₂, hdepth, hbackups, hend⟩ := hE.map 255 s₁ (by decide)
    (show 0 + 2 < 8 by decide) (by omega)
  have hkey : run (binaryEncoder E) (encode (.uint .w16 id)) s₂ =
      (true, s₂.append (Cbor.writeHead 0 id)) :=
    hE.uint32 id s₂ (by omega) (by omega)
  have hvalue := hv.encode (s₂.append (Cbor.writeHead 0 id))
    (by rw [ZcborEncodeState.room_append]; omega) hdepth (le_of_eq hbackups)
  rw [ZcborEncodeState.append_append] at hvalue
  have hclose := hend (Cbor.writeHead 0 id ++ bs) 1 (by decide) (by rw [List.length_append]; omega)
  have hmap : run (binaryEncoder E) (encodeAll [encode (.mapStart none), encode (.uint .w16 id),
      codec.encode v, encode (.mapEnd none)]) s₁ =
        (true, s₁.append (Cbor.writeHead 5 1 ++ (Cbor.writeHead 0 id ++ bs))) := by
    rw [run_encodeAll_cons (show run (binaryEncoder E) (encode (.mapStart none)) s₁ = _ from hstart),
      run_encodeAll_cons hkey, run_encodeAll_cons hvalue,
      run_encodeAll_cons (show run (binaryEncoder E) (encode (.mapEnd none)) _ = _ from hclose)]
    rfl
  rw [run_encodeAll_cons hroot, run_encodeAll_cons hmap, hs₁, ZcborEncodeState.append_append]
  rfl

end Encode

/-! ## The client -/

section Request

variable {ω : Type} {c : Client} {T : ClientTransport ω} {type : UInt8} {id payload : Encoding Bool}
  {t t' : ω} {r : ClientResponse}

/-- A response of success with a result that decodes. -/
theorem Client.doRequest_of_success {codec : Codec V} {value : V} {d : Decoded V} {s : ZcborState}
    (hcore : c.doRequestCore T type id payload t = (r, t')) (hr : resultSuccess r.result = true)
    (hdecode : run (binaryDecoder c.decoder) (codec.decode value)
      (.new 8 r.rxBuffer responseHeaderSize r.responseSize 1) = (d, s)) (hok : d.ok = true) :
    c.doRequest T type id payload codec value t = ((r.result, d.value value), t') := by
  simp only [Client.doRequest, hcore, hr, if_true, hdecode, hok]

end Request

/-! ## The server -/

section Serve

variable {S : Server ι V A ZcborEncodeState} {b : BinaryDecoderOptions} {nodes : List ι}
  {codec : Codec V} {n : ι} {d : ZcborState} {id elements opened : ℕ} {rest : Bytes}

/-- The endpoint of a request by id. -/
theorem run_binaryEndpoint (hZ : b.zcbor.Lawful) (requestType : UInt8) (hid : id < 65535)
    (hd : d.Left (Cbor.writeHead 0 id ++ rest) (elements + 1) opened) :
    ∃ d', run (binaryDecoder b) (binaryEndpoint requestType) d =
        ({ types := binaryRequestTypes, requestType := requestType, id := some id }, d') ∧
      d'.Left rest elements opened := by
  obtain ⟨d₁, htstr, h₁⟩ := hZ.tstr d id rest elements opened (by omega) hd
  obtain ⟨d₂, huint, h₂⟩ := hZ.uint32 d₁ id rest elements opened (by omega) h₁
  have hstring : run (binaryDecoder b) (decode .string) d = (none, d₁) := htstr
  have hnarrow : run (binaryDecoder b) (decode (.uint .w16)) d₁ = (some id, d₂) := by
    change BinaryDecoder.narrowUInt b 65535 d₁ = _
    simp only [BinaryDecoder.narrowUInt, huint, if_pos hid]
  refine ⟨d₂, ?_, h₂⟩
  rw [binaryEndpoint, run_bind, hstring]
  simp only [run_bind, hnarrow, run_pure]

/-- A request by id to a node that handles no requests itself. -/
theorem handleRequest_of_findById {requestType : UInt8} (hforward : requestType ≠ 0x1C)
    (hn : S.registry.findById id = some n)
    (hkind : (S.registry.node n).kind.tryCastTo .requestHandler = false)
    (s : Session ι V A ZcborEncodeState) :
    S.handleRequest { types := binaryRequestTypes, requestType := requestType, id := some id } s =
      S.handleNode { types := binaryRequestTypes, requestType := requestType, id := some id } n s := by
  have hnot : RequestContext.isToBeForwarded
      { types := binaryRequestTypes, requestType := requestType, id := some id } = false := by
    simp [RequestContext.isToBeForwarded, RequestContext.isForward, binaryRequestTypes, hforward]
  rw [Server.handleRequest, hnot]
  simp only [RequestContext.hasValidEndpoint, Server.endpoint, hn]
  rcases hk : (S.registry.node n).kind <;> simp_all [NodeKind.tryCastTo]

/-- A request by id to a node that handles no requests itself reaches the handler with the decoder
behind the endpoint. -/
theorem run_handleBinaryRequest (hZ : b.zcbor.Lawful) (requestType : UInt8) (rest : Bytes)
    (hforward : requestType ≠ 0x1C) (hid : id < 65535)
    (hd : d.Left (Cbor.writeHead 0 id ++ rest) (elements + 1) opened)
    (hn : S.registry.findById id = some n)
    (hkind : (S.registry.node n).kind.tryCastTo .requestHandler = false)
    (s : Session ι V A ZcborEncodeState) :
    ∃ d', d'.Left rest elements opened ∧
      run (binaryDecoder b) (S.handleBinaryRequest requestType s) d =
        run (binaryDecoder b) (S.handleNode
          { types := binaryRequestTypes, requestType := requestType, id := some id } n s) d' := by
  obtain ⟨d', hendpoint, hd'⟩ := run_binaryEndpoint hZ requestType hid hd
  refine ⟨d', hd', ?_⟩
  rw [Server.handleBinaryRequest, run_bind, hendpoint]
  simp only [handleRequest_of_findById hforward hn hkind]

omit [DecidableEq ι] in
theorem encodeNode_of_property (hkind : (S.registry.node n).kind = .property codec)
    (w : World ι V A) : S.registry.encodeNode w sizeMax n = codec.encode (w.values n) := by
  rw [show sizeMax = 18446744073709551614 + 1 from rfl, Registry.encodeNode, hkind]

/-- The null in front of a response. -/
theorem run_preamble {E : ZcborEncode} (hE : E.Lawful) {s : ZcborEncodeState} (hroom : 1 ≤ s.room) :
    run (binaryEncoder E) (encode .preamble) s = (true, s.append [0xF6]) :=
  hE.nil s hroom

/-- A key that is an id. -/
theorem run_decodeKey_uint (hZ : b.zcbor.Lawful) (hid : id < 2 ^ 32)
    (hd : d.Left (Cbor.writeHead 0 id ++ rest) (elements + 1) opened) :
    ∃ d', run (binaryDecoder b) (decodeKey {}) d = ((true, { id := some id }), d') ∧
      d'.Left rest elements opened := by
  obtain ⟨d', huint, hd'⟩ := hZ.uint32 d id rest elements opened hid hd
  refine ⟨d', ?_, hd'⟩
  rw [decodeKey, run_bind, show run (binaryDecoder b) (decode (.uint .w32)) d = (some id, d') from huint]
  rfl

/-- Behind the last entry of a map there is no key. -/
theorem run_decodeKey_end (hZ : b.zcbor.Lawful) (hd : d.Left rest 0 opened) :
    ∃ d', run (binaryDecoder b) (decodeKey {}) d = ((false, {}), d') ∧ d'.Left rest 0 opened := by
  obtain ⟨d₁, huint, hd₁⟩ := hZ.uint32_end d rest opened hd
  obtain ⟨d₂, htstr, hd₂⟩ := hZ.tstr_end d₁ rest opened hd₁
  refine ⟨d₂, ?_, hd₂⟩
  rw [decodeKey, run_bind, show run (binaryDecoder b) (decode (.uint .w32)) d = (none, d₁) from huint]
  simp only [run_bind, show run (binaryDecoder b) (decode .string) d₁ = (none, d₂) from htstr]
  rfl

/-- A map with the id of a property and a value for it stores the value. -/
theorem entries_of_property (hZ : b.zcbor.Lawful) {E : ZcborEncode} {v : V} {bs : Bytes} {need : ℕ}
    (hnodes : S.registry.HoldsNodes nodes) (hn : S.ReadWriteProperty nodes codec n)
    (hv : codec.RoundTrips E b v bs need) (w : World ι V A)
    (hd : d.Left (Cbor.writeHead 0 (S.registry.node n).id ++ bs) 2 1) :
    S.Entries (binaryDecoder b) (fun _ => True) S.registry.rootNode True [n] {} w d
      (w.setValue n v) := by
  have hlt := (S.registry.node n).id_lt
  obtain ⟨d₁, hkey, hd₁⟩ := run_decodeKey_uint hZ (by omega) hd
  obtain ⟨r, d₂, hdecode, hok, hvalue, hd₂⟩ := hv.decode (w.values n) d₁ [] 0 1 (by decide)
    (by rw [List.append_nil]; exact hd₁)
  obtain ⟨d₃, hend, hd₃⟩ := run_decodeKey_end hZ hd₂
  have hnode : S.updatedNode S.registry.rootNode { id := some (S.registry.node n).id } = some n :=
    hnodes.findById hn.mem
  have hwrites : S.Writes (binaryDecoder b) S.registry.rootNode n w d₁ (w.setValue n v) d₂ := by
    refine ⟨hn.writable, by rw [hn.kind]; rfl, by rw [hnodes.root_kind]; rfl, w.setValue n v, ?_, ?_⟩
    · rw [Registry.decodeNode, hn.kind, hnodes.root_kind]
      simp only [NodeKind.invokeCallback, run_bind, hdecode, hok, hvalue, run_pure]
    · rw [hnodes.root_kind]
      rfl
  refine ⟨_, d₁, _, d₂, hkey, hnode, fun _ => ?_, hwrites, ?_⟩
  · exact hnode
  · refine ⟨by rw [hend], ?_, trivial, rfl⟩
    rw [hend]
    exact hZ.map_end d₃ [] 0 hd₃

end Serve

namespace RemoteRegistry

variable {R : RemoteRegistry ι V A} {nodes : List ι} {codec : Codec V} {n : ι} {w : World ι V A} {v : V}
  {bs : Bytes} {need : ℕ}

omit [DecidableEq ι] in
theorem id_lt_of_property (hn : R.server.ReadWriteProperty nodes codec n) :
    (R.registry.node n).id < 65535 := by
  have hlt := (R.registry.node n).id_lt
  have hne : (R.registry.node n).id ≠ 65535 := hn.id_ne
  omega

omit [DecidableEq ι] in
/-- The session that `handleGet` leaves on a property. -/
theorem handleGet_of_property (hE : R.encoder.Lawful) (c : RequestContext)
    (hkind : (R.registry.node n).kind = .property codec)
    (hv : codec.RoundTrips R.encoder R.decoder (w.values n) bs need)
    (hroom : need + 1 ≤ R.responseSize - 1) :
    R.server.handleGet c n { world := w, encoder := .new 8 (R.responseSize - 1) } =
      (.body, { world := w
                encoder := (ZcborEncodeState.new 8 (R.responseSize - 1)).append ([0xF6] ++ bs) 2
                status := some .content }) := by
  have hpreamble := run_preamble hE (s := .new 8 (R.responseSize - 1))
    (by rw [ZcborEncodeState.room_new]; omega)
  have hvalue := hv.encode ((ZcborEncodeState.new 8 (R.responseSize - 1)).append [0xF6])
    (by rw [ZcborEncodeState.room_append, ZcborEncodeState.room_new, List.length_singleton]; omega) rfl
    (Nat.zero_le 1)
  rw [ZcborEncodeState.append_append] at hvalue
  have hnode := encodeNode_of_property (S := R.server) hkind w
  have hencodable : (R.server.registry.node n).kind.tryCastTo .encodable = true := by
    rw [show (R.server.registry.node n).kind = .property codec from hkind]
    rfl
  simp only [Server.handleGet, hencodable, if_true, Session.encode, Session.setStatus, hnode]
  simp only [server, hpreamble, hvalue, if_true]

/-- The response to the request of a `get`. -/
theorem respond_get (hE : R.encoder.Lawful) (hZ : R.decoder.zcbor.Lawful)
    (hnodes : R.registry.HoldsNodes nodes) (hn : R.server.ReadWriteProperty nodes codec n)
    (hv : codec.RoundTrips R.encoder R.decoder (w.values n) bs need)
    (hroom : need + 3 ≤ R.responseSize) :
    R.respond (0x01 :: Cbor.writeHead 0 (R.registry.node n).id) w = (0x85 :: 0xF6 :: bs, w) := by
  obtain ⟨d', -, hrun⟩ := run_handleBinaryRequest (S := R.server) hZ 0x01 [] (by decide)
    (id_lt_of_property hn)
    (by
      rw [List.append_nil]
      exact ZcborState.left_new [0x01] (Cbor.writeHead 0 (R.registry.node n).id) R.requestTail 2)
    (hnodes.findById hn.mem) (by rw [hn.kind]; rfl)
    { world := w, encoder := .new 8 (R.responseSize - 1) }
  have hget : RequestContext.isGet
    { types := binaryRequestTypes, requestType := 0x01, id := some (R.registry.node n).id } = true := rfl
  rw [Server.handleNode, if_pos hget, handleGet_of_property hE _ hn.kind hv (by omega)] at hrun
  rw [respond]
  erw [hrun]
  rfl

/-- The response to the request of an `update`. -/
theorem respond_update (hE : R.encoder.Lawful) (hZ : R.decoder.zcbor.Lawful)
    (hnodes : R.registry.HoldsNodes nodes) (hn : R.server.ReadWriteProperty nodes codec n)
    (hv : codec.RoundTrips R.encoder R.decoder v bs need) (hroom : 3 ≤ R.responseSize) :
    R.respond (0x07 :: (Cbor.writeHead 0 0 ++ (Cbor.writeHead 5 1 ++
        (Cbor.writeHead 0 (R.registry.node n).id ++ bs)))) w =
      ([0x84, 0xF6, 0xF6], w.setValue n v) := by
  have hroot : R.server.registry.findById 0 = some R.registry.rootNode := by
    have hfind := hnodes.findById hnodes.root_mem
    rwa [hnodes.root_id] at hfind
  obtain ⟨d, hd, hrun⟩ := run_handleBinaryRequest (S := R.server) hZ 0x07 _
    (by decide) (by decide)
    (ZcborState.left_new [0x07] (Cbor.writeHead 0 0 ++ (Cbor.writeHead 5 1 ++
      (Cbor.writeHead 0 (R.registry.node n).id ++ bs))) R.requestTail 2)
    hroot
    (by rw [show (R.server.registry.node R.registry.rootNode).kind = .overlay from hnodes.root_kind]; rfl)
    { world := w, encoder := .new 8 (R.responseSize - 1) }
  have hget : RequestContext.isGet
    { types := binaryRequestTypes, requestType := 0x07, id := some 0 } = false := rfl
  have hfetch : RequestContext.isFetch
    { types := binaryRequestTypes, requestType := 0x07, id := some 0 } = false := rfl
  have hupdate : RequestContext.isUpdate
    { types := binaryRequestTypes, requestType := 0x07, id := some 0 } = true := rfl
  rw [Server.handleNode, hget, hfetch, hupdate] at hrun
  simp only [Bool.false_eq_true, if_false, if_true] at hrun
  obtain ⟨d₁, hstart, hd₁⟩ := hZ.map d 1 _ 0 0 (by decide) (by decide) hd
  have hupdated := Server.run_handleUpdate (S := R.server) (h := binaryDecoder R.decoder) (d := d)
    (n := R.registry.rootNode) w (.new 8 (R.responseSize - 1))
    (by rw [show (R.server.registry.node R.registry.rootNode).kind = .overlay from hnodes.root_kind]; rfl)
  have hmap : binaryDecoder R.decoder .mapStart d = (true, d₁) := hstart
  have hpreamble := run_preamble hE (s := .new 8 (R.responseSize - 1))
    (by rw [ZcborEncodeState.room_new]; omega)
  have hagain := run_preamble hE (s := (ZcborEncodeState.new 8 (R.responseSize - 1)).append [0xF6])
    (by rw [ZcborEncodeState.room_append, ZcborEncodeState.room_new, List.length_singleton]; omega)
  rw [ZcborEncodeState.append_append] at hagain
  rw [hmap] at hupdated
  simp only [if_true] at hupdated
  have hentries : R.server.Entries (binaryDecoder R.decoder) (fun _ => True) R.registry.rootNode True
      [n] {} w d₁ (w.setValue n v) :=
    entries_of_property (S := R.server) hZ hnodes hn hv w hd₁
  rw [Server.run_loop_of_entries (s := { world := w, encoder := _, status := some .changed }) hentries
    (show 1 < sizeMax by decide)] at hupdated
  simp only [if_true, Session.encode, show R.server.encoder = binaryEncoder R.encoder from rfl,
    hpreamble, hagain] at hupdated
  rw [respond]
  erw [hrun, hupdated]
  rfl

/-! ## One call -/

/-- A response of success is read as it was sent. -/
theorem read_of_response {body : Bytes} {code : UInt8} (hcode : resultSuccess code = true)
    (hsize : body.length + 2 ≤ R.rxBufferSize) (w : World ι V A) :
    R.client.read R.transport (w, code :: 0xF6 :: body) =
      (⟨code, code :: 0xF6 :: body ++ R.rxTail, body.length⟩, (w, [])) := by
  have htake : (code :: 0xF6 :: body).take R.rxBufferSize = code :: 0xF6 :: body :=
    List.take_of_length_le hsize
  have hread : R.transport.read R.client.rxBufferSize (w, code :: 0xF6 :: body) =
      ((((body.length + 2 : ℕ) : ℤ), code :: 0xF6 :: body ++ R.rxTail), (w, [])) := by
    change (((((code :: 0xF6 :: body).take R.rxBufferSize).length : ℤ),
      (code :: 0xF6 :: body).take R.rxBufferSize ++ R.rxTail), (w, [])) = _
    rw [htake]
    rfl
  have hpositive : ¬ ((body.length + 2 : ℕ) : ℤ) ≤ 0 := by omega
  have hheader : ¬ (((body.length + 2 : ℕ) : ℤ) < (Client.responseHeaderSize : ℕ) ∨
      (code :: 0xF6 :: body ++ R.rxTail).getD 1 0 ≠ Client.cborNull) := by
    rintro (hshort | hnull)
    · simp only [Client.responseHeaderSize] at hshort
      omega
    · exact hnull rfl
  rw [Client.read, hread]
  simp only [if_neg hpositive, if_neg hheader]
  simp only [List.cons_append, List.headD_cons, hcode, Bool.not_true, Bool.false_eq_true, if_false]
  rw [show (((body.length + 2 : ℕ) : ℤ).toNat - Client.responseHeaderSize) = body.length from
    Nat.add_sub_cancel ..]

/-- What the client sends when its request has been encoded, and what it reads. -/
theorem doRequestCore_of_response {type code : UInt8} {id payload : Encoding Bool}
    {s : ZcborEncodeState} {body : Bytes} {w' : World ι V A}
    (hrequest : run (binaryEncoder R.encoder) (encodeAll [id, payload])
      (.new 8 (R.txBufferSize - 1)) = (true, s))
    (hresponse : R.respond (type :: s.output) w = (code :: 0xF6 :: body, w'))
    (hcode : resultSuccess code = true) (hsize : body.length + 2 ≤ R.rxBufferSize) :
    R.client.doRequestCore R.transport type id payload (w, []) =
      (⟨code, code :: 0xF6 :: body ++ R.rxTail, body.length⟩, (w', [])) := by
  have hwrite : R.transport.write (type :: s.output) (w, []) = (true, (w', code :: 0xF6 :: body)) := by
    change (true, ((R.respond (type :: s.output) w).2, (R.respond (type :: s.output) w).1)) = _
    rw [hresponse]
  have hencode : run (binaryEncoder R.client.encoder) (encodeAll [id, payload])
      (.new 8 (R.client.txBufferSize - 1)) = (true, s) := hrequest
  simp only [Client.doRequestCore, hencode, Bool.not_true, Bool.false_eq_true, if_false, hwrite]
  exact read_of_response hcode hsize w'

/-- A `get` yields the stored value and changes nothing. -/
theorem call_get {codec : ι → Codec V} (hE : R.encoder.Lawful) (hZ : R.decoder.zcbor.Lawful)
    (hnodes : R.registry.HoldsNodes nodes) (hn : R.server.ReadWriteProperty nodes (codec n) n)
    (hv : R.Storable (codec n) (w.values n)) (result : V) :
    R.call codec (.get n result) w = ((StatusCode.content.code, some (w.values n)), w) := by
  obtain ⟨bs, need, hround, htx, hresponse, hrx⟩ := hv
  have hlength := hround.length_le
  have hcore := doRequestCore_of_response
    (run_getRequest hE (R.registry.node n).id_lt (by omega : 3 ≤ R.txBufferSize - 1))
    (respond_get (w := w) hE hZ hnodes hn hround (by omega)) (by decide) (by omega)
  obtain ⟨d, s', hdecode, hok, hvalue, -⟩ := hround.decode result
    (.new 8 ([0x85, 0xF6] ++ bs ++ R.rxTail) 2 bs.length 1) [] 0 0 (by decide)
    (by rw [List.append_nil]; exact ZcborState.left_new [0x85, 0xF6] bs R.rxTail 1)
  have hget : R.client.get R.transport (R.registry.node n).id (codec n) result (w, []) =
      ((StatusCode.content.code, w.values n), (w, [])) := by
    rw [← hvalue]
    exact Client.doRequest_of_success hcore (show resultSuccess 0x85 = true by decide) hdecode hok
  simp only [call, hget]

/-- An `update` stores the value and changes nothing else. -/
theorem call_update {codec : ι → Codec V} (hE : R.encoder.Lawful) (hZ : R.decoder.zcbor.Lawful)
    (hnodes : R.registry.HoldsNodes nodes) (hn : R.server.ReadWriteProperty nodes (codec n) n)
    (hv : R.Storable (codec n) v) :
    R.call codec (.update n v) w = ((StatusCode.changed.code, none), w.setValue n v) := by
  obtain ⟨bs, need, hround, htx, hresponse, hrx⟩ := hv
  have hcore := doRequestCore_of_response
    (run_updateRequest hE hround (R.registry.node n).id_lt (by omega : need + 6 ≤ R.txBufferSize - 1))
    (respond_update (w := w) hE hZ hnodes hn hround (by omega)) (by decide)
    (by rw [List.length_singleton]; omega)
  have hupdate : R.client.update R.transport (R.registry.node n).id (codec n) v (w, []) =
      (StatusCode.changed.code, (w.setValue n v, [])) := by
    rw [Client.update]
    erw [hcore]
    rfl
  simp only [call, hupdate]

/-! ## Runs -/

/-- A call on a property that may be read and written, of a value that can be stored. -/
structure Admits (R : RemoteRegistry ι V A) (nodes : List ι) (codec : ι → Codec V)
    (c : StoreCall ι V) : Prop where
  property : R.server.ReadWriteProperty nodes (codec c.node) c.node
  storable : ∀ v ∈ c.value, R.Storable (codec c.node) v

/-- One call does to the world what it does to a store. -/
theorem call_eq_storeCall {codec : ι → Codec V} (hE : R.encoder.Lawful)
    (hZ : R.decoder.zcbor.Lawful) (hnodes : R.registry.HoldsNodes nodes) {c : StoreCall ι V}
    (hc : R.Admits nodes codec c) (hv : R.Storable (codec c.node) (w.values c.node)) :
    R.call codec c w =
      ((storeCall c w.values).1, { w with values := (storeCall c w.values).2 }) := by
  cases c with
  | get n result => exact call_get hE hZ hnodes hc.property hv result
  | update n v => exact call_update hE hZ hnodes hc.property (hc.storable v rfl)

/-- A call leaves a value that can be stored in every property that held one. -/
theorem storable_storeCall {codec : ι → Codec V} {c : StoreCall ι V} (hc : R.Admits nodes codec c)
    {store : ι → V} {n : ι} (hn : R.Storable (codec n) (store n)) :
    R.Storable (codec n) ((storeCall c store).2 n) := by
  cases c with
  | get => exact hn
  | update m v =>
    by_cases hmn : n = m
    · subst hmn
      have hv : R.Storable (codec n) v := hc.storable v rfl
      simpa only [storeCall, Function.update_self] using hv
    · simpa only [storeCall, Function.update_of_ne hmn] using hn

/-- **The remote registry is a plain store.** -/
theorem remote_is_store {codec : ι → Codec V} (hE : R.encoder.Lawful)
    (hZ : R.decoder.zcbor.Lawful) (hnodes : R.registry.HoldsNodes nodes)
    (calls : List (StoreCall ι V)) (hcalls : ∀ c ∈ calls, R.Admits nodes codec c) (w : World ι V A)
    (hvalues : ∀ c ∈ calls, R.Storable (codec c.node) (w.values c.node)) :
    runCalls (R.call codec) calls w =
      ((runCalls storeCall calls w.values).1,
        { w with values := (runCalls storeCall calls w.values).2 }) := by
  induction calls generalizing w with
  | nil => rfl
  | cons c calls ih =>
    have hc := hcalls c List.mem_cons_self
    have hcall := call_eq_storeCall hE hZ hnodes hc (hvalues c List.mem_cons_self)
    have hrest := ih (fun c' hc' => hcalls c' (List.mem_cons_of_mem c hc'))
      { w with values := (storeCall c w.values).2 }
      (fun c' hc' => storable_storeCall hc (hvalues c' (List.mem_cons_of_mem c hc')))
    simp only [runCalls, hcall, hrest]

end RemoteRegistry

/-! ## A property of eight bits -/

/-- Every number that `decode(uint8_t *)` accepts makes the round trip. -/
theorem codecUInt8_roundTrips {E : ZcborEncode} {b : BinaryDecoderOptions} (hE : E.Lawful)
    (hZ : b.zcbor.Lawful) {v : ℕ} (hv : v < 255) :
    codecUInt8.RoundTrips E b v (Cbor.writeHead 0 v) 3 where
  length_le := Cbor.length_writeHead_le 0 (by omega)
  encode s hroom _ _ :=
    hE.uint32 v s (by omega) (le_trans (Cbor.length_writeHead_le 0 (by omega)) hroom)
  decode old s rest elements opened _ hs := by
    obtain ⟨s', huint, hs'⟩ := hZ.uint32 s v rest elements opened (by omega) hs
    have hnarrow : run (binaryDecoder b) (decode (.uint .w8)) s = (some v, s') := by
      change BinaryDecoder.narrowUInt b 255 s = _
      simp only [BinaryDecoder.narrowUInt, huint, if_pos hv]
    refine ⟨⟨true, some v⟩, s', ?_, rfl, rfl, hs'⟩
    change run (binaryDecoder b) (decodeScalar (.uint .w8) rfl old) s = _
    rw [decodeScalar, run_bind, hnarrow]
    rfl

/-- The server with one property, behind a transport. -/
def remoteOneProperty : RemoteRegistry SmallNode ℕ Unit where
  registry := (oneProperty (binaryEncoder zcborEncodeReference)).registry
  access := 0x77
  encoder := zcborEncodeReference
  decoder := ⟨zcborReference, false, false⟩
  rxBufferSize := 64
  txBufferSize := 64
  responseSize := 64
  requestTail := [0xFF]
  rxTail := [0xFF]

/-- The property is read, set to 7, read again, and set to 200. -/
theorem remoteOneProperty_is_store :
    runCalls (remoteOneProperty.call fun _ => codecUInt8)
        [.get .a 99, .update .a 7, .get .a 99, .update .a 200]
        (zeroSession (ZcborEncodeState.new 8 64)).world =
      ([(0x85, some 0), (0x84, none), (0x85, some 7), (0x84, none)],
        { (zeroSession (ZcborEncodeState.new 8 64)).world with
          values := Function.update (Function.update (fun _ => 0) .a 7) .a 200 }) := by
  have hnodes : remoteOneProperty.registry.HoldsNodes [.root, .metadata, .a] :=
    ⟨fun _ => rfl, by decide, by decide, by decide, rfl, rfl⟩
  have hstorable : ∀ v : ℕ, v < 255 → remoteOneProperty.Storable codecUInt8 v := fun v hv =>
    ⟨_, _, codecUInt8_roundTrips zcborEncodeReference_lawful zcborReference_lawful hv, by decide,
      by decide, by decide⟩
  have hproperty : remoteOneProperty.server.ReadWriteProperty [.root, .metadata, .a] codecUInt8 .a :=
    ⟨by decide, rfl, by decide, by decide⟩
  refine RemoteRegistry.remote_is_store zcborEncodeReference_lawful zcborReference_lawful hnodes _
    (fun c hc => ?_) _ (fun c _ => hstorable 0 (by decide))
  simp only [List.mem_cons, List.not_mem_nil, or_false] at hc
  rcases hc with rfl | rfl | rfl | rfl
  · exact ⟨hproperty, fun v hv => by simp [StoreCall.value] at hv⟩
  · exact ⟨hproperty, fun v hv => by
      obtain rfl : 7 = v := Option.some.inj hv
      exact hstorable 7 (by decide)⟩
  · exact ⟨hproperty, fun v hv => by simp [StoreCall.value] at hv⟩
  · exact ⟨hproperty, fun v hv => by
      obtain rfl : 200 = v := Option.some.inj hv
      exact hstorable 200 (by decide)⟩

end ThingSet
