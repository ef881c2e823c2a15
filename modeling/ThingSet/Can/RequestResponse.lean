import ThingSet.BinaryDecoder
import ThingSet.BinaryEncoder
import ThingSet.Can.CanID
import ThingSet.Server.Status

/-!
# Requests and responses over CAN

A `ThingSetZephyrCanRequestResponseContext` has one handler for all messages that it receives, whether
it belongs to a server or to a client. The handler calls the callback of its owner, and sends what it
returns.

* `isResponse_of_answer`: what the handler sends is a response.
* `answer_eq_none_iff`: when the handler answers a response with nothing.
-/

namespace ThingSet

open Interaction Prog

/-- The first byte of a response, as the handler recognises it: from `created` to `notAGateway`. -/
def isResponse (b : UInt8) : Bool := StatusCode.created.code ≤ b ∧ b ≤ StatusCode.notAGateway.code

/-- The first byte of a binary request, as the handler and the server recognise it. -/
def isBinaryRequest (b : UInt8) : Bool :=
  binaryRequestTypes.get ≤ b ∧ b ≤ binaryRequestTypes.update ∨ b = binaryRequestTypes.forward

theorem StatusCode.isResponse_code (c : StatusCode) : isResponse c.code = true := by
  cases c <;> decide

theorem not_isBinaryRequest_of_isResponse {b : UInt8} (h : isResponse b = true) :
    isBinaryRequest b = false := by
  simp only [isResponse, isBinaryRequest, StatusCode.code, binaryRequestTypes, decide_eq_true_eq,
    decide_eq_false_iff_not, UInt8.le_iff_toNat_le, ← UInt8.toNat_inj] at h ⊢
  simp only [UInt8.reduceToNat] at h ⊢
  omega

/-! ## The callbacks -/

/-- `handleBinaryRequest` of a server: from the receive buffer, the length of the request and the transmit
buffer, what it returns and the transmit buffer. What it responds is a response. -/
structure RequestHandler (σ : Type) where
  handle : Bytes → ℕ → Bytes → σ → (ℤ × Bytes) × σ
  responds : ∀ rx len tx s, 0 < (handle rx len tx s).1.1 →
    isResponse ((handle rx len tx s).1.2.headD 0) = true

/-- The owner of a context: a server, or the transport of a client. -/
inductive Owner (σ : Type)
  | server (handler : RequestHandler σ)
  | client

/-- The members of a context that change: its buffers, the queue of a client with room for one response,
and what the server works on. -/
structure ContextState (σ : Type) where
  rxBuffer : Bytes
  txBuffer : Bytes
  responseQueue : Option Bytes := none
  app : σ

/-- `ThingSetServer::requestCallback`, without the text mode, for which the handler has no messages. -/
def requestCallback {σ : Type} (handler : RequestHandler σ) (rx : Bytes) (len : ℕ)
    (s : ContextState σ) : ℤ × ContextState σ :=
  if isBinaryRequest (rx.headD 0) then
    let ((result, tx), app) := handler.handle rx len s.txBuffer s.app
    (result, { s with txBuffer := tx, app := app })
  else (1, { s with txBuffer := StatusCode.badRequest.code :: s.txBuffer.drop 1 })

/-- The callback of `connect`. The client may read the queue before `k_msgq_put` gives up; else, when the
queue is full, this returns `-EAGAIN`. -/
def responseCallback {σ : Type} (drained : Bool) (rx : Bytes) (len : ℕ) (s : ContextState σ) :
    ℤ × ContextState σ :=
  if s.responseQueue = none ∨ drained then (0, { s with responseQueue := some (rx.take len) })
  else (-11, s)

/-- `_inboundRequestCallback`. -/
def Owner.callback {σ : Type} (o : Owner σ) (drained : Bool) (rx : Bytes) (len : ℕ)
    (s : ContextState σ) : ℤ × ContextState σ :=
  match o with
  | .server handler => requestCallback handler rx len s
  | .client => responseCallback drained rx len s

/-- Whether the owner is a client. -/
def Owner.isClient {σ : Type} : Owner σ → Bool
  | .server _ => false
  | .client => true

/-! ## The handler -/

/-- `ThingSetZephyrCanRequestResponseContext`, with the filter of its ISO-TP context. -/
structure RequestResponseContext (σ : Type) where
  accepts : BitVec 32 → Bool
  rxBufferSize : ℕ
  rxBufferSize_pos : 0 < rxBufferSize
  owner : Owner σ

/-- What happens while a message is handled: whether the lock is obtained in time, and whether the client
reads its queue. -/
structure Handling where
  locked : Bool
  drained : Bool
  deriving DecidableEq

namespace RequestResponseContext

variable {σ : Type} (c : RequestResponseContext σ)

/-- What `onRequestResponseReceived` sends, if anything. -/
def onRequestResponseReceived (h : Handling) (message : Bytes) (s : ContextState σ) :
    Option Bytes × ContextState σ :=
  let errorResponse := [StatusCode.internalServerError.code]
  if h.locked then
    let len := min message.length c.rxBufferSize
    let rx := message.take len ++ s.rxBuffer.drop len
    let s := { s with rxBuffer := rx }
    if isResponse (rx.headD 0) ∨ isBinaryRequest (rx.headD 0) then
      let (result, s) := c.owner.callback h.drained rx len s
      if result ≥ 0 then
        (if 0 < result then some (s.txBuffer.take result.toNat) else none, s)
      else (some errorResponse, s)
    else (some [StatusCode.badRequest.code], s)
  else (some errorResponse, s)

variable {c} {h : Handling} {message answer : Bytes} {s : ContextState σ}

theorem headD_take_append {bs : Bytes} (hbs : bs ≠ []) {n : ℕ} (hn : 0 < n) (rest : Bytes) :
    (bs.take n ++ rest).headD 0 = bs.headD 0 := by
  cases bs with
  | nil => exact absurd rfl hbs
  | cons b bs =>
    obtain ⟨n, rfl⟩ : ∃ m, n = m + 1 := ⟨n - 1, by omega⟩
    rfl

theorem headD_take {bs : Bytes} {n : ℕ} (hn : 0 < n) : (bs.take n).headD 0 = bs.headD 0 := by
  cases bs with
  | nil => simp
  | cons b bs =>
    obtain ⟨n, rfl⟩ : ∃ m, n = m + 1 := ⟨n - 1, by omega⟩
    rfl

/-- What a callback has in the transmit buffer when it returns a length is a response. -/
theorem isResponse_of_callback {drained : Bool} {rx : Bytes} {len : ℕ}
    (hresult : 0 < (c.owner.callback drained rx len s).1) :
    isResponse ((c.owner.callback drained rx len s).2.txBuffer.headD 0) = true := by
  cases howner : c.owner with
  | server handler =>
    rw [howner] at hresult
    dsimp only [Owner.callback, requestCallback] at hresult ⊢
    split
    · rename_i hrequest
      rw [if_pos hrequest] at hresult
      exact handler.responds _ _ _ _ hresult
    · exact StatusCode.badRequest.isResponse_code
  | client =>
    rw [howner] at hresult
    dsimp only [Owner.callback, responseCallback] at hresult
    split at hresult
    · exact absurd hresult (lt_irrefl 0)
    · exact absurd hresult (by dsimp only; omega)

/-- What the handler sends is a response. -/
theorem isResponse_of_answer (hanswer : (c.onRequestResponseReceived h message s).1 = some answer) :
    isResponse (answer.headD 0) = true := by
  rw [onRequestResponseReceived] at hanswer
  dsimp only at hanswer
  split at hanswer
  · split at hanswer
    · split at hanswer
      · rename_i hge
        split at hanswer
        · rename_i hresult
          obtain rfl := Option.some.inj hanswer
          rw [headD_take (by omega)]
          exact isResponse_of_callback hresult
        · cases hanswer
      · obtain rfl := Option.some.inj hanswer
        exact StatusCode.internalServerError.isResponse_code
    · obtain rfl := Option.some.inj hanswer
      exact StatusCode.badRequest.isResponse_code
  · obtain rfl := Option.some.inj hanswer
    exact StatusCode.internalServerError.isResponse_code

/-- The lock is obtained, and a client has room for the message. -/
def Quiet (c : RequestResponseContext σ) (h : Handling) (s : ContextState σ) : Prop :=
  h.locked = true ∧ c.owner.isClient = true ∧ (s.responseQueue = none ∨ h.drained = true)

instance decidableQuiet (c : RequestResponseContext σ) (h : Handling) (s : ContextState σ) :
    Decidable (c.Quiet h s) := inferInstanceAs (Decidable (_ ∧ _))

/-- When the handler answers a response with nothing. -/
theorem answer_eq_none_iff (hmessage : isResponse (message.headD 0) = true) :
    (c.onRequestResponseReceived h message s).1 = none ↔ c.Quiet h s := by
  have hne : message ≠ [] := by
    rintro rfl
    exact absurd hmessage (by decide)
  have hlen : 0 < min message.length c.rxBufferSize :=
    lt_min (List.length_pos_iff.2 hne) c.rxBufferSize_pos
  have hhead := headD_take_append hne hlen (s.rxBuffer.drop (min message.length c.rxBufferSize))
  have hbinary := not_isBinaryRequest_of_isResponse hmessage
  rw [onRequestResponseReceived, Quiet]
  dsimp only
  split
  · rename_i hlocked
    rw [hhead, if_pos (.inl hmessage)]
    cases howner : c.owner with
    | server handler =>
      simp only [Owner.callback, requestCallback, hhead, hbinary, Owner.isClient, Bool.false_eq_true,
        if_false]
      simp
    | client =>
      dsimp only [Owner.callback, responseCallback, Owner.isClient]
      split
      · simp [*]
      · simp [*]
  · rename_i hlocked
    simp [hlocked]

end RequestResponseContext

end ThingSet
