import ThingSet.Client
import ThingSet.Server.RequestBuffer
import ThingSet.Values

/-!
# The receive buffer of a client

A client reads every response into one buffer, where what earlier exchanges have left is still behind a shorter
response, and all there is when nothing is received.

* `ClientValue`: the types of results. No `decode` of the library peeks at the type of what comes next, which is
  the one call that looks at the buffer itself.
* `exchange_eq`: an exchange depends on what is received in it only, whatever exchanges there were before.
* `exchange_success`: what has been received when it is successful.
-/

namespace ThingSet

open Interaction Prog

/-! ## Requests -/

/-- What `doRequest` is called with: the type, and how the id and the rest of the request are encoded. -/
structure ClientRequest where
  type : UInt8
  id : Encoding Bool
  payload : Encoding Bool

namespace ClientRequest

/-- How `doRequest` encodes an id or a path. -/
def encodeId : ℕ ⊕ Bytes → Encoding Bool
  | .inl id => encode (.uint .w16 id)
  | .inr path => encode (.string path)

/-- `get`. -/
def get (id : ℕ ⊕ Bytes) : ClientRequest := ⟨binaryRequestTypes.get, encodeId id, pure true⟩

/-- `fetch` of the children. -/
def fetch (id : ℕ ⊕ Bytes) : ClientRequest := ⟨binaryRequestTypes.fetch, encodeId id, encode .null⟩

/-- `exec`. -/
def exec (id : ℕ) (args : List (Encoding Bool)) : ClientRequest :=
  ⟨binaryRequestTypes.exec, encode (.uint .w16 id), encodeList args⟩

/-- `update` by id. -/
def update (id : ℕ) (value : Encoding Bool) : ClientRequest where
  type := binaryRequestTypes.update
  id := encode (.int .w32 0)
  payload := encodeAll [encode (.mapStart none), encode (.uint .w16 id), value, encode (.mapEnd none)]

/-- `update` by name: the last part of the name is the key. -/
def updateByName (pathToParent key : Bytes) (value : Encoding Bool) : ClientRequest where
  type := binaryRequestTypes.update
  id := encode (.string pathToParent)
  payload := encodeAll [encode (.mapStart none), encode (.string key), value, encode (.mapEnd none)]

end ClientRequest

/-! ## Results -/

/-- The program does not look at the type of what comes next. -/
abbrev NoPeek {α : Type} (p : Decoding α) : Prop := Never (fun o : DecodeOp => o = .peekType) p

/-- A type of results: how it is decoded, without a look at the type of what comes next. -/
structure ClientValue (V : Type) where
  decode : V → Decoding (Decoded V)
  noPeek : ∀ v, NoPeek (decode v)

section NoPeek

variable {V γ : Type}

theorem noPeek_decode {o : DecodeOp} (ho : o ≠ .peekType) : NoPeek (decode o) := never_op ho

theorem noPeek_decodeScalar {o : DecodeOp} (ho : o ≠ .peekType) (h : o.Result = Option V) (v : V) :
    NoPeek (decodeScalar o h v) :=
  (noPeek_decode ho).bind fun _ => never_pure _

theorem noPeek_decodeKey (key : Key) : NoPeek (decodeKey key) := by
  refine (noPeek_decode (by decide)).bind fun id => ?_
  cases id with
  | some i => exact never_pure _
  | none =>
    refine (noPeek_decode (by decide)).bind fun name => ?_
    cases name <;> exact never_pure _

theorem noPeek_decodeMap {callback : γ → Key → Decoding (Bool × γ)} (h : ∀ c key, NoPeek (callback c key)) (c : γ) :
    NoPeek (decodeMap callback c) := by
  refine (noPeek_decode (by decide)).bind fun started => Never.ite ?_ (never_pure _)
  refine never_repeatUntil (fun c : Key × γ => (noPeek_decodeKey c.1).bind fun found => Never.ite ?_ ?_) _ _
  · exact (h c.2 found.2).bind fun r => Never.ite (never_pure _) (never_pure _)
  · exact (noPeek_decode (by decide)).bind fun _ => never_pure _

theorem noPeek_decodeList {callback : ℕ → γ → Decoding (Bool × γ)} (h : ∀ i c, NoPeek (callback i c)) (c : γ) :
    NoPeek (decodeList callback c) := by
  refine (noPeek_decode (by decide)).bind fun started => Never.ite ?_ (never_pure _)
  refine never_repeatUntil (fun c : ℕ × γ => (noPeek_decode (by decide)).bind fun more => Never.ite ?_ ?_) _ _
  · exact (h c.1 c.2).bind fun r => Never.ite (never_pure _) (never_pure _)
  · exact (noPeek_decode (by decide)).bind fun _ => never_pure _

variable {elem : V → Decoding (Decoded V)} (helem : ∀ v, NoPeek (elem v))

include helem

theorem noPeek_decodeElements (n i : ℕ) (a : ArrayMemory V) : NoPeek (decodeElements elem n i a) := by
  induction n generalizing i a with
  | zero => exact never_pure _
  | succ n ih => exact (helem _).bind fun d => Never.ite (ih _ _) (never_pure _)

theorem noPeek_decodeArray (size : ℕ) (a : ArrayMemory V) : NoPeek (decodeArray elem size a) := by
  refine (noPeek_decode (by decide)).bind fun started => Never.ite (never_pure _) ?_
  refine (noPeek_decode (by nofun)).bind fun count => ?_
  cases count with
  | none => exact never_pure _
  | some n =>
    refine (noPeek_decodeElements helem n 0 a).bind fun r => Never.ite (never_pure _) ?_
    exact (noPeek_decode (by decide)).bind fun _ => never_pure _

theorem noPeek_decodeVector (fresh : V) (list : List V) : NoPeek (decodeVector elem fresh list) :=
  noPeek_decodeList (fun _ _ => (helem fresh).bind fun _ => never_pure _) list

end NoPeek

theorem noPeek_switchDecode {size : ℕ} {V : Fin size → Type}
    {member : (i : Fin size) → V i → Decoding (Decoded (V i))} (hmember : ∀ i v, NoPeek (member i v))
    (isKey : Fin size → Bool) (r : (i : Fin size) → V i) : NoPeek (switchDecode member isKey r) := by
  unfold switchDecode
  split
  · exact never_pure _
  · exact (hmember _ _).bind fun _ => never_pure _

/-- The types that values are built from. -/
theorem noPeek_valueType : ∀ (t : ValueType) (v : t.Value), NoPeek (t.decode v)
  | .uint _, v => noPeek_decodeScalar (by nofun) rfl v
  | .int _, v => noPeek_decodeScalar (by nofun) rfl v
  | .bool, v => noPeek_decodeScalar (by decide) rfl v
  | .string, v => noPeek_decodeScalar (by decide) rfl v
  | .array element size, f =>
    (noPeek_decodeArray (noPeek_valueType element) size ⟨f, []⟩).bind fun _ => never_pure _
  | .record size id name member, r => by
    have hskip : NoPeek (decode .skip) := noPeek_decode (by decide)
    refine (noPeek_decodeMap (fun r key => ?_) r).bind fun _ => never_pure _
    have hswitch := noPeek_switchDecode fun i => noPeek_valueType (member i)
    rcases key with ⟨_ | k, _ | n⟩
    · exact never_pure _
    all_goals
      refine (hswitch _ _).bind fun found => Never.ite (never_pure _) ?_
      exact hskip.bind fun _ => never_pure _

/-- The results of a type, and the vectors of it. -/
def ClientValue.ofType (t : ValueType) : ClientValue t.Value := ⟨t.decode, noPeek_valueType t⟩

@[inherit_doc ClientValue.ofType]
def ClientValue.vector {V : Type} (element : ClientValue V) (fresh : V) : ClientValue (List V) where
  decode list := do
    let (ok, list) ← decodeVector element.decode fresh list
    pure ⟨ok, some list⟩
  noPeek list := (noPeek_decodeVector element.noPeek fresh list).bind fun _ => never_pure _

/-! ## Exchanges -/

/-- What the transport does in an exchange: whether `write` succeeds, what `read` puts at the start of the
receive buffer, and what it returns. It has put there what it says that it has received. -/
structure Reception where
  written : Bool
  stored : Bytes
  received : ℤ
  received_le : received ≤ stored.length

/-- The bytes that are received. -/
def Reception.bytes (r : Reception) : Bytes := r.stored.take r.received.toNat

/-- A transport that does this, and the receive buffer. -/
def bufferTransport : ClientTransport (Reception × Bytes) where
  write _ t := (t.1.written, t)
  read _ t :=
    let rxBuffer := memcpy t.2 0 t.1.stored t.1.stored.length
    ((t.1.received, rxBuffer), (t.1, rxBuffer))

/-- An exchange: the request, the type of the result, if one is expected, the caller's variable, and what the
transport does. -/
structure ClientExchange where
  V : Type
  request : ClientRequest
  result : Option (ClientValue V)
  value : V
  reception : Reception

namespace ClientExchange

variable (c : Client) (e : ClientExchange)

/-- The exchange on a receive buffer: the status code, the caller's variable, and the buffer afterwards. -/
def run (rx : Bytes) : (UInt8 × e.V) × Bytes :=
  let q := e.request
  match e.result with
  | some result =>
    let (r, t) := c.doRequest bufferTransport q.type q.id q.payload ⟨fun _ => pure true, result.decode⟩ e.value
      (e.reception, rx)
    (r, t.2)
  | none =>
    let (r, t) := c.doRequestCore bufferTransport q.type q.id q.payload (e.reception, rx)
    ((r.result, e.value), t.2)

/-- The receive buffer after a sequence of exchanges. -/
def after (es : List ClientExchange) (rx : Bytes) : Bytes := es.foldl (fun rx e => (e.run c rx).2) rx

end ClientExchange

/-- The status code of `read` for what is received. -/
def Reception.status (r : Reception) : UInt8 :=
  if r.received ≤ 0 then StatusCode.gatewayTimeout.code
  else if !resultSuccess (r.bytes.headD 0) then r.bytes.headD 0
  else if r.received < Client.responseHeaderSize ∨ r.bytes.getD 1 0 ≠ Client.cborNull then
    StatusCode.internalServerError.code
  else r.bytes.headD 0

section

variable (r : Reception) (rx : Bytes)

/-- The receive buffer after `read`. -/
def Reception.rxBuffer : Bytes := memcpy rx 0 r.stored r.stored.length

theorem Reception.take_rxBuffer {n : ℕ} (hn : n ≤ r.received.toNat) : (r.rxBuffer rx).take n = r.bytes.take n := by
  have hle := r.received_le
  unfold Reception.rxBuffer Reception.bytes memcpy
  rw [List.take_zero, List.nil_append, List.take_length, List.take_append_of_le_length (by omega), List.take_take,
    Nat.min_eq_left hn]

theorem Reception.headD_rxBuffer (h : 0 < r.received) : (r.rxBuffer rx).headD 0 = r.bytes.headD 0 :=
  headD_of_take (r.take_rxBuffer rx (n := 1) (by omega)).symm

theorem Reception.getD_rxBuffer (h : ¬ r.received < Client.responseHeaderSize) :
    (r.rxBuffer rx).getD 1 0 = r.bytes.getD 1 0 := by
  have hreceived : ¬ r.received < (2 : ℕ) := h
  have htake := congrArg (fun l : Bytes => l[1]?) (r.take_rxBuffer rx (n := 2) (by omega))
  simp only [List.getElem?_take_of_lt Nat.one_lt_two] at htake
  rw [List.getD_eq_getElem?_getD, List.getD_eq_getElem?_getD, htake]

/-- `read` looks at the bytes that are received. -/
theorem Client.read_bufferTransport (c : Client) :
    (c.read bufferTransport (r, rx)).1 =
      if resultSuccess r.status then ⟨r.status, r.rxBuffer rx, r.received.toNat - Client.responseHeaderSize⟩
      else ⟨r.status, [], 0⟩ := by
  have htimeout : resultSuccess StatusCode.gatewayTimeout.code = false := by decide
  have herror : resultSuccess StatusCode.internalServerError.code = false := by decide
  have hread : (c.read bufferTransport (r, rx)).1 =
      if r.received ≤ 0 then ⟨StatusCode.gatewayTimeout.code, [], 0⟩
      else if !resultSuccess ((r.rxBuffer rx).headD 0) then ⟨(r.rxBuffer rx).headD 0, [], 0⟩
      else if r.received < responseHeaderSize ∨ (r.rxBuffer rx).getD 1 0 ≠ cborNull then
        ⟨StatusCode.internalServerError.code, [], 0⟩
      else ⟨(r.rxBuffer rx).headD 0, r.rxBuffer rx, r.received.toNat - responseHeaderSize⟩ := by
    unfold Client.read
    rw [apply_ite Prod.fst, apply_ite Prod.fst, apply_ite Prod.fst]
    rfl
  rw [hread, Reception.status]
  by_cases hreceived : r.received ≤ 0
  · rw [if_pos hreceived, if_pos hreceived, htimeout]
    rfl
  rw [if_neg hreceived, if_neg hreceived, r.headD_rxBuffer rx (by omega)]
  generalize r.bytes.headD 0 = status
  cases hsuccess : resultSuccess status with
  | false => simp [hsuccess]
  | true =>
    by_cases hheader : r.received < responseHeaderSize
    · simp [hheader, herror]
    · rw [r.getD_rxBuffer rx hheader]
      generalize r.bytes.getD 1 0 = null
      by_cases hnull : null = cborNull
      · simp [hheader, hnull, hsuccess]
      · simp [hnull, herror]

/-- A response that is a success. -/
theorem Reception.success_bytes (h : resultSuccess r.status = true) :
    2 ≤ r.received ∧ r.bytes.length = r.received.toNat ∧
      ∃ rest, r.bytes = r.status :: Client.cborNull :: rest := by
  have hle := r.received_le
  have hlen : r.bytes.length = r.received.toNat := by
    unfold Reception.bytes
    rw [List.length_take]
    omega
  have htimeout : resultSuccess StatusCode.gatewayTimeout.code = false := by decide
  have herror : resultSuccess StatusCode.internalServerError.code = false := by decide
  unfold Reception.status at h ⊢
  split_ifs at h ⊢ with hreceived hstatus hheader
  · exact absurd (htimeout.symm.trans h) Bool.false_ne_true
  · rw [h] at hstatus
    exact absurd hstatus Bool.false_ne_true
  · exact absurd (herror.symm.trans h) Bool.false_ne_true
  · obtain ⟨hsize, hnull⟩ := not_or.1 hheader
    have htwo : 2 ≤ r.received := not_lt.1 hsize
    refine ⟨htwo, hlen, ?_⟩
    rcases hbytes : r.bytes with _ | ⟨a, _ | ⟨b, rest⟩⟩ <;> rw [hbytes] at hlen hnull
    · simp only [List.length_nil] at hlen
      omega
    · simp only [List.length_cons, List.length_nil] at hlen
      omega
    · exact ⟨rest, congrArg (fun null => a :: null :: rest) (not_not.1 hnull)⟩

end

namespace ClientExchange

variable (c : Client) (e : ClientExchange) (rx : Bytes)

/-- The status code of `doRequestCore`. -/
def status : UInt8 :=
  let q := e.request
  if (Prog.run (binaryEncoder c.encoder) (encodeAll [q.id, q.payload]) (.new 8 (c.txBufferSize - 1))).1 ∧
    e.reception.written
  then e.reception.status
  else StatusCode.requestIncomplete.code

/-- The status code and the caller's variable after the exchange: a function of the request, the variable and
what is received. -/
def outcome : UInt8 × e.V :=
  match e.result with
  | none => (e.status c, e.value)
  | some result =>
    if resultSuccess (e.status c) then
      let d := (Prog.run (binaryDecoder c.decoder) (result.decode e.value) (.new 8 e.reception.bytes
        Client.responseHeaderSize (e.reception.received.toNat - Client.responseHeaderSize) 1)).1
      (if d.ok then e.status c else StatusCode.internalServerError.code, d.value e.value)
    else (e.status c, e.value)

theorem doRequestCore_bufferTransport :
    (c.doRequestCore bufferTransport e.request.type e.request.id e.request.payload (e.reception, rx)).1 =
      if resultSuccess (e.status c) then ⟨e.status c, e.reception.rxBuffer rx,
        e.reception.received.toNat - Client.responseHeaderSize⟩
      else ⟨e.status c, [], 0⟩ := by
  have hincomplete : resultSuccess StatusCode.requestIncomplete.code = false := by decide
  unfold Client.doRequestCore status
  dsimp only
  obtain ⟨ok, hok⟩ : ∃ ok, (Prog.run (binaryEncoder c.encoder) (encodeAll [e.request.id, e.request.payload])
    (.new 8 (c.txBufferSize - 1))).1 = ok := ⟨_, rfl⟩
  cases ok with
  | false => simp [hok, hincomplete]
  | true =>
    cases hwritten : e.reception.written with
    | false => simp [hok, bufferTransport, hwritten, hincomplete]
    | true => simpa [hok, bufferTransport, hwritten] using Client.read_bufferTransport e.reception rx c

/-- Where the status code is a success, the rest of the response is what is decoded. -/
theorem new_agree {r : Reception} (h : resultSuccess r.status = true) :
    (ZcborState.new 8 (r.rxBuffer rx) Client.responseHeaderSize
        (r.received.toNat - Client.responseHeaderSize) 1).Agree
      (.new 8 r.bytes Client.responseHeaderSize (r.received.toNat - Client.responseHeaderSize) 1) := by
  obtain ⟨htwo, -, -⟩ := r.success_bytes h
  refine ⟨?_, rfl, rfl, rfl, rfl, rfl, rfl, rfl⟩
  have hend : Client.responseHeaderSize + (r.received.toNat - Client.responseHeaderSize) = r.received.toNat := by
    rw [Client.responseHeaderSize]
    omega
  rw [ZcborState.new, ZcborState.new]
  dsimp only
  rw [hend]
  exact r.take_rxBuffer rx (Nat.le_refl _)

/-- An exchange does not depend on the receive buffer. -/
theorem run_eq_outcome (hZ : c.decoder.zcbor.ReadsBelowEnd) : (e.run c rx).1 = e.outcome c := by
  have hcore := doRequestCore_bufferTransport c e rx
  unfold run outcome
  dsimp only
  cases hresult : e.result with
  | none =>
    dsimp only
    rw [hcore]
    split <;> rfl
  | some result =>
    dsimp only [Client.doRequest]
    rw [hcore]
    cases hsuccess : resultSuccess (e.status c) with
    | false => simp [hsuccess]
    | true =>
      have hstatus : resultSuccess e.reception.status = true := by
        unfold status at hsuccess
        dsimp only at hsuccess
        split_ifs at hsuccess
        · exact hsuccess
        · exact absurd hsuccess (by decide)
      -- the two decoders differ behind what is received only
      have hrun := (run_eq_of_never (h := binaryDecoder c.decoder)
        (fun o u v huv ho => Server.binaryDecoder_agree hZ huv (by simp [Server.staleTypeRead, ho]))
        (result.noPeek e.value) (new_agree rx hstatus)).1
      simp only [hsuccess, if_true, hrun]

/-- What an exchange with a result decodes. -/
def decoded (result : ClientValue e.V) : Decoded e.V :=
  (Prog.run (binaryDecoder c.decoder) (result.decode e.value) (.new 8 e.reception.bytes
    Client.responseHeaderSize (e.reception.received.toNat - Client.responseHeaderSize) 1)).1

/-- A successful exchange has a successful response, and has decoded the result that is expected. -/
theorem outcome_eq (h : resultSuccess (e.outcome c).1 = true) :
    resultSuccess (e.status c) = true ∧ (e.outcome c).1 = e.status c ∧
      ∀ result ∈ e.result, (e.decoded c result).ok = true ∧
        (e.outcome c).2 = (e.decoded c result).value e.value := by
  have herror : resultSuccess StatusCode.internalServerError.code = false := by decide
  unfold outcome at h ⊢
  cases hresult : e.result with
  | none =>
    simp only [hresult] at h
    exact ⟨h, rfl, fun result hmem => absurd hmem (by simp)⟩
  | some result =>
    simp only [hresult] at h
    cases hstatus : resultSuccess (e.status c) with
    | false => simp [hstatus] at h
    | true =>
      cases hok : (e.decoded c result).ok with
      | false =>
        unfold decoded at hok
        simp [hstatus, hok, herror] at h
      | true =>
        have hok' := hok
        unfold decoded at hok'
        simp only [hok', if_true, true_and, Option.mem_some_iff]
        rintro _ rfl
        exact ⟨hok, rfl⟩

/-- The outcome looks at these parts of what the transport does. -/
theorem outcome_congr {r : Reception} (hwritten : r.written = e.reception.written)
    (hreceived : r.received = e.reception.received) (hbytes : r.bytes = e.reception.bytes) :
    outcome c { e with reception := r } = outcome c e := by
  have hstatus : status c { e with reception := r } = status c e := by
    unfold status Reception.status
    simp only [hwritten, hreceived, hbytes]
  obtain ⟨V, request, result, value, reception⟩ := e
  unfold outcome
  rw [hstatus]
  cases result with
  | none => rfl
  | some result => simp only [hreceived, hbytes]

theorem status_eq (h : resultSuccess (e.status c) = true) : e.status c = e.reception.status := by
  unfold status at h ⊢
  dsimp only at h ⊢
  split_ifs at h ⊢
  · rfl
  · exact absurd h (by decide)

end ClientExchange

/-- A client with the reference functions. -/
def referenceClient : Client := ⟨zcborEncodeReference, ⟨zcborReference, false, false⟩, 16, 16⟩

/-- A `get` of a number that is answered `85 F6 07`. -/
def getSeven : ClientExchange where
  V := ℕ
  request := .get (.inl 1)
  result := some (ClientValue.ofType (.uint .w32))
  value := 0
  reception := ⟨true, [0x85, 0xF6, 0x07], 3, Int.le_refl 3⟩

end ThingSet
