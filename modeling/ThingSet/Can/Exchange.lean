import ThingSet.Can.RequestResponse
import ThingSet.RemoteStore
import Mathlib.Data.List.Perm.Basic

/-!
# Exchanges of messages

A network of request/response contexts, with the messages that are in flight. Each delivery of a message
puts at most one answer in flight, once for every context that accepts it.

`answers_iff_quiet`: a context answers no response exactly when it belongs to a client with room in its
queue and obtains its lock; a network in which all responses are delivered like that falls silent.
-/

namespace ThingSet

open Interaction Prog Transition

/-- `handleBinaryRequest` of a server without a forwarder. -/
def Server.requestHandler {ι V A : Type} [DecidableEq ι] (S : Server ι V A ZcborEncodeState)
    (hS : S.hasForwarder = false) (o : BinaryDecoderOptions) : RequestHandler (World ι V A) where
  handle rx len tx w :=
    let r := (run (binaryDecoder o)
      (S.handleBinaryRequest (rx.headD 0) { world := w, encoder := .new 8 (tx.length - 1) })
      (.new 8 rx 1 (len - 1) 2)).1
    let response := r.1.response r.2
    ((response.length, response ++ tx.drop response.length), r.2.world)
  responds rx len tx w _ := by
    have hstatus := (Server.status_of_handleBinaryRequest (rx.headD 0) (S := S)
      (s := { world := w, encoder := .new 8 (tx.length - 1) })).run (binaryDecoder o)
        (.new 8 rx 1 (len - 1) 2) hS
    obtain ⟨status, hstatus⟩ := Option.isSome_iff_exists.1 hstatus
    dsimp only [Returned.response]
    rw [hstatus]
    split <;> exact status.isResponse_code

/-! ## Networks -/

/-- The contexts of a network. -/
structure Network (K σ : Type) where
  nodes : List K
  context : K → RequestResponseContext σ

/-- A message in flight to a context. -/
structure Packet (K : Type) where
  receiver : K
  address : BitVec 32
  data : Bytes

/-- The contexts, what is in flight, and how many requests have been delivered and answers been sent. -/
structure NetworkState (K σ : Type) where
  contexts : K → ContextState σ
  inFlight : List (Packet K)
  requests : ℕ := 0
  replies : ℕ := 0

namespace Network

variable {K σ : Type} (N : Network K σ)

/-- A message that is sent: it goes to all contexts that accept its id. -/
def packets (address : BitVec 32) (data : Bytes) : List (Packet K) :=
  (N.nodes.filter fun k => (N.context k).accepts address).map fun k => ⟨k, address, data⟩

/-- The id that a message is answered with. -/
def replyAddress (address : BitVec 32) : BitVec 32 := (CanID.create address).getReplyId.id

/-- The message at a position among those in flight is delivered. -/
def deliver [DecidableEq K] (s : NetworkState K σ) (e : ℕ × Handling) : Option (NetworkState K σ) :=
  match s.inFlight[e.1]? with
  | none => none
  | some p =>
    let (answer, c) :=
      (N.context p.receiver).onRequestResponseReceived e.2 p.data (s.contexts p.receiver)
    some {
      contexts := Function.update s.contexts p.receiver c
      inFlight := s.inFlight.eraseIdx e.1 ++
        answer.toList.flatMap (N.packets (replyAddress p.address))
      requests := s.requests + if isResponse (p.data.headD 0) then 0 else 1
      replies := s.replies + answer.toList.length }

/-- If the message is a response, it is delivered to a context that has nothing to say. -/
def QuietAt (s : NetworkState K σ) (e : ℕ × Handling) : Prop :=
  ∀ p ∈ s.inFlight[e.1]?, isResponse (p.data.headD 0) = true →
    (N.context p.receiver).Quiet e.2 (s.contexts p.receiver)

instance decidableQuietAt (s : NetworkState K σ) (e : ℕ × Handling) : Decidable (N.QuietAt s e) :=
  inferInstanceAs (Decidable (∀ p ∈ s.inFlight[e.1]?, _ → _))

/-- How many deliveries a message can lead to: a response is delivered, and a request is delivered and
answered to every context. -/
def packetWeight (p : Packet K) : ℕ := if isResponse (p.data.headD 0) then 1 else N.nodes.length + 1

/-- How many deliveries there can be. -/
def weight (s : NetworkState K σ) : ℕ := (s.inFlight.map N.packetWeight).sum

variable {N} {s s' : NetworkState K σ} {e : ℕ × Handling} {es : List (ℕ × Handling)}

/-- The weight of an answer. -/
theorem sum_packets {data : Bytes} (hdata : isResponse (data.headD 0) = true) (address : BitVec 32) :
    ((N.packets address data).map N.packetWeight).sum ≤ N.nodes.length := by
  have hone : (N.packets address data).map N.packetWeight =
      List.replicate (N.packets address data).length 1 := by
    refine List.eq_replicate_iff.2 ⟨List.length_map _, fun w hw => ?_⟩
    obtain ⟨p, hp, rfl⟩ := List.mem_map.1 hw
    obtain ⟨k, -, rfl⟩ := List.mem_map.1 hp
    rw [packetWeight, if_pos hdata]
  rw [hone, List.sum_replicate_nat, Nat.mul_one, packets, List.length_map]
  exact List.length_filter_le _ _

variable [DecidableEq K]

/-- What one delivery does to the weight and to the counts. -/
theorem deliver_of_quietAt (hquiet : N.QuietAt s e) (hs : N.deliver s e = some s') :
    N.weight s' < N.weight s ∧ s'.replies + s.requests ≤ s'.requests + s.replies := by
  rw [deliver] at hs
  split at hs
  · cases hs
  · rename_i p hp
    rcases hanswer : (N.context p.receiver).onRequestResponseReceived e.2 p.data
      (s.contexts p.receiver) with ⟨answer, c⟩
    rw [hanswer] at hs
    obtain rfl := Option.some.inj hs
    have herase : (s.inFlight.map N.packetWeight).sum =
        N.packetWeight p + ((s.inFlight.eraseIdx e.1).map N.packetWeight).sum := by
      obtain ⟨hlt, rfl⟩ := List.getElem?_eq_some_iff.1 hp
      exact ((List.getElem_cons_eraseIdx_perm hlt).map N.packetWeight).sum_nat.symm
    simp only [weight, List.map_append, List.sum_append, herase, packetWeight]
    by_cases hresponse : isResponse (p.data.headD 0) = true
    · obtain rfl : answer = none := by
        have hnone := (RequestResponseContext.answer_eq_none_iff hresponse).2 (hquiet p hp hresponse)
        rwa [hanswer] at hnone
      simp only [if_pos hresponse, Option.toList_none, List.flatMap_nil, List.map_nil, List.sum_nil,
        List.length_nil]
      omega
    · cases answer with
      | none =>
        simp only [if_neg hresponse, Option.toList_none, List.flatMap_nil, List.map_nil, List.sum_nil,
          List.length_nil]
        omega
      | some data =>
        have hdata := RequestResponseContext.isResponse_of_answer (congrArg Prod.fst hanswer)
        have hsum := sum_packets (N := N) hdata (replyAddress p.address)
        simp only [if_neg hresponse, Option.toList_some, List.flatMap_singleton, List.length_singleton]
        omega

/-- Answers do not outnumber requests. -/
theorem replies_of_quiet (hquiet : Meets N.deliver N.QuietAt s es)
    (hrun : runFrom N.deliver s es = some s') : s'.replies + s.requests ≤ s'.requests + s.replies := by
  refine runFrom_invariant_of_meets (P := fun s' => s'.replies + s.requests ≤ s'.requests + s.replies)
    (fun s₁ _ s₂ h₁ hq hs => ?_) (Nat.add_comm _ _).le hquiet hrun
  have hstep := (deliver_of_quietAt hq hs).2
  omega

/-- **A context answers no response exactly when it belongs to a client with room in its queue and obtains
its lock. When all responses are delivered to such contexts, there is at most one answer to each request,
and the network falls silent.** -/
theorem answers_iff_quiet :
    (∀ (c : RequestResponseContext σ) h message s, isResponse (message.headD 0) = true →
      ((c.onRequestResponseReceived h message s).1 = none ↔ c.Quiet h s)) ∧
    ∀ (N : Network K σ) s es s', Meets N.deliver N.QuietAt s es →
      runFrom N.deliver s es = some s' →
        s'.replies + s.requests ≤ s'.requests + s.replies ∧ es.length ≤ N.weight s :=
  ⟨fun _ _ _ _ => RequestResponseContext.answer_eq_none_iff, fun N _ _ _ hquiet hrun =>
    ⟨replies_of_quiet hquiet hrun,
      length_le_of_meets N.weight (fun _ _ _ hq hs => (deliver_of_quietAt hq hs).1) hquiet hrun⟩⟩

end Network

/-! ## Two servers -/

/-- A context of the server with one property, or of a client, at the address 1 or 2. -/
def contextAt (address : UInt8) (owner : Owner (World SmallNode ℕ Unit)) :
    RequestResponseContext (World SmallNode ℕ Unit) where
  accepts id := (CanID.create id).getTarget = address
  rxBufferSize := 64
  rxBufferSize_pos := by decide
  owner := owner

/-- The server with one property as the owner of a context. -/
def onePropertyOwner : Owner (World SmallNode ℕ Unit) :=
  .server (remoteOneProperty.server.requestHandler rfl remoteOneProperty.decoder)

/-- The context of a server, `false`, and that of a client or of another server, `true`. -/
def pairOf (owner : Owner (World SmallNode ℕ Unit)) : Network Bool (World SmallNode ℕ Unit) where
  nodes := [false, true]
  context k := if k then contextAt 2 owner else contextAt 1 onePropertyOwner

/-- A message to one of the contexts is in flight. -/
def oneInFlight (receiver : Bool) (address : BitVec 32) (data : Bytes) :
    NetworkState Bool (World SmallNode ℕ Unit) where
  contexts _ := ⟨[0xA0], [0xA0], none, (zeroSession (ZcborEncodeState.new 8 64)).world⟩
  inFlight := [⟨receiver, address, data⟩]

/-- A client asks for the property `a`, and the server responds. -/
theorem pairOf_client :
    ∃ s', runFrom (pairOf .client).deliver (oneInFlight false 0x18000102 [0x01, 0x18, 0x22])
        [(0, ⟨true, false⟩), (0, ⟨true, false⟩)] = some s' ∧
      s'.replies ≤ s'.requests ∧
        2 ≤ (pairOf .client).weight (oneInFlight false 0x18000102 [0x01, 0x18, 0x22]) := by
  obtain ⟨s', hrun⟩ := Option.isSome_iff_exists.1 (show (runFrom (pairOf .client).deliver
    (oneInFlight false 0x18000102 [0x01, 0x18, 0x22]) [(0, ⟨true, false⟩), (0, ⟨true, false⟩)]).isSome from
      by decide +kernel)
  exact ⟨s', hrun, Network.answers_iff_quiet.2 _ _ _ _ (by decide +kernel) hrun⟩

/-- Two servers answer the response `badRequest` with `badRequest` again and again. A client whose queue is
full, or a context whose lock is not obtained in time, answers a response with `internalServerError`. -/
theorem pairOf_servers :
    (∃ s', runFrom (pairOf onePropertyOwner).deliver (oneInFlight false 0x18000102 [0xA0])
        [(0, ⟨true, false⟩), (0, ⟨true, false⟩)] = some s' ∧
      s'.contexts = (oneInFlight false 0x18000102 [0xA0]).contexts ∧
      s'.inFlight = (oneInFlight false 0x18000102 [0xA0]).inFlight ∧ s'.replies = 2 ∧ s'.requests = 0) ∧
    ((contextAt 2 .client).onRequestResponseReceived ⟨true, false⟩ [0x84]
      ⟨[], [], some [0x84], (zeroSession (ZcborEncodeState.new 8 64)).world⟩).1 = some [0xC0] ∧
    ((contextAt 2 .client).onRequestResponseReceived ⟨false, false⟩ [0x84]
      ⟨[], [], none, (zeroSession (ZcborEncodeState.new 8 64)).world⟩).1 = some [0xC0] := by
  refine ⟨⟨_, rfl, ?_, ?_, rfl, rfl⟩, rfl, rfl⟩
  · funext k
    cases k <;> rfl
  · rfl

end ThingSet
