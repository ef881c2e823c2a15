import ThingSet.Decoder
import ThingSet.Foundations.Transition
import Mathlib.Data.List.Forall2
import Mathlib.Logic.Function.Basic

/-!
# The socket server

`ThingSetSocketServerTransport` runs two threads. The acceptor writes each new descriptor into a free slot
of `_socketDescriptors`; the handler polls the slots, receives, calls the callback, and sends what the
callback returns. The threads share the slots, without a lock. A step is one system call or one access to
a slot, and the steps of the threads, of the system and of the clients come in any order.

* `acceptorStep_cases`, `handlerStep_cases`, `step_cases`: what a step can do.
-/

namespace ThingSet

open Transition

/-! ## The callback -/

/-- The buffers of the handler thread, and what the callback works on. -/
structure SocketBuffers (σ : Type) where
  rxBuf : Bytes
  txBuf : Bytes
  app : σ

/-- The callback that is given to `listen`: from the receive buffer, the length received and the transmit
buffer, what it returns and the transmit buffer after it. A server does not look at the address of the
sender. -/
abbrev SocketCallback (σ : Type) : Type := Bytes → ℕ → Bytes → σ → (ℤ × Bytes) × σ

/-- What the handler sends in return for what it has received at once. -/
def SocketCallback.answer {σ : Type} (callback : SocketCallback σ) (chunk : Bytes)
    (b : SocketBuffers σ) : Bytes × SocketBuffers σ :=
  let rxBuf := chunk ++ b.rxBuf.drop chunk.length
  let ((txLen, txBuf), app) := callback rxBuf chunk.length b.txBuf b.app
  (txBuf.take txLen.toNat, ⟨rxBuf, txBuf, app⟩)

namespace SocketServer

/-! ## The state -/

/-- `THINGSET_SERVER_MAX_CLIENTS`. -/
def maxClients : ℕ := 8

/-- `PollDescriptor`. The descriptor -1 is `none`; of the events that `poll` reports, `POLLIN`. -/
structure PollDescriptor where
  fd : Option ℕ := none
  revents : Bool := false

/-- A connection: what the client has sent, whether it has closed its end, how much of what it has sent the
server has received, and what the server has sent. -/
structure Connection where
  stream : Bytes := []
  ended : Bool := false
  received : ℕ := 0
  sent : Bytes := []

/-- What was received at once, the response to it, how much of the response has been sent, and whether
sending failed. -/
structure Exchange where
  connection : ℕ
  chunk : Bytes
  response : Bytes
  sent : Bytes := []
  failed : Bool := false

/-- Where `runAcceptor` is: at `poll` and `accept`, at the `i`-th slot with a descriptor, or about to write
it there. -/
inductive Acceptor
  | polling
  | looking (fd i : ℕ)
  | assigning (fd : ℕ) (i : Fin maxClients)

/-- Where `runHandler` is: at the top of the loop, in `poll` with the descriptors that were in the slots, at
the `i`-th slot, in `recv`, in `send`, at `close`, or about to clear the slot. -/
inductive Handler
  | idle
  | waiting (fds : Fin maxClients → Option ℕ)
  | scanning (i : ℕ)
  | receiving (i : Fin maxClients) (fd : Option ℕ)
  | sending (i : Fin maxClients) (fd : ℕ) (e : Exchange)
  | closing (i : Fin maxClients) (fd : ℕ)
  | clearing (i : Fin maxClients)

/-- The two threads and what they share, the open descriptors of the system with their connections, and
the exchanges that are over. -/
structure State (σ : Type) where
  slots : Fin maxClients → PollDescriptor := fun _ => {}
  acceptor : Acceptor := .polling
  handler : Handler := .idle
  buffers : SocketBuffers σ
  files : ℕ → Option ℕ := fun _ => none
  accepted : ℕ := 0
  connections : ℕ → Connection := fun _ => {}
  log : List Exchange := []

/-- One step of a client, of the acceptor or of the handler, with what the system answers. -/
inductive Event
  | arrives (k : ℕ) (bytes : Bytes)
  | ends (k : ℕ)
  | accept (fd : ℕ)
  | look
  | assign
  | poll
  | pollFails
  | pollReturns (ready : Fin maxClients → Bool) (others : Bool)
  | scan
  | recv (len : ℕ)
  | recvFails
  | recvEnds
  | close
  | clear
  | send (len : ℕ)
  | sendFails

/-! ## Steps -/

variable {σ : Type}

namespace State

/-- Something happens to one connection. -/
def modify (s : State σ) (k : ℕ) (f : Connection → Connection) : State σ :=
  { s with connections := Function.update s.connections k (f (s.connections k)) }

/-- An exchange is over, and the handler goes on to the next slot. -/
def finish (s : State σ) (i : Fin maxClients) (e : Exchange) : State σ :=
  { s with log := s.log ++ [e], handler := .scanning (i + 1) }

/-- `recv` returns `len` bytes, and the callback is called. -/
def receive (callback : SocketCallback σ) (s : State σ) (i : Fin maxClients) (fd k len : ℕ) : State σ :=
  let c := s.connections k
  let chunk := (c.stream.drop c.received).take len
  let (response, buffers) := callback.answer chunk s.buffers
  let s := { s.modify k fun c => { c with received := c.received + len } with buffers := buffers }
  if response = [] then s.finish i ⟨k, chunk, response, [], false⟩
  else { s with handler := .sending i fd ⟨k, chunk, response, [], false⟩ }

/-- `send` takes `len` bytes of what is left. -/
def transmit (s : State σ) (i : Fin maxClients) (fd k len : ℕ) (e : Exchange) : State σ :=
  let piece := (e.response.drop e.sent.length).take len
  let e := { e with sent := e.sent ++ piece }
  let s := s.modify k fun c => { c with sent := c.sent ++ piece }
  if e.sent.length = e.response.length then s.finish i e else { s with handler := .sending i fd e }

end State

/-- A step of `runAcceptor`: a descriptor that `accept` returns is not in use, and one that finds no free
slot is forgotten. -/
def acceptorStep (s : State σ) : Event → Option (State σ)
  | .accept fd =>
    match s.acceptor, s.files fd with
    | .polling, none => some { s with
        files := Function.update s.files fd (some s.accepted)
        accepted := s.accepted + 1
        acceptor := .looking fd 0 }
    | _, _ => none
  | .look =>
    match s.acceptor with
    | .looking fd i => some { s with
        acceptor :=
          if h : i < maxClients then
            if (s.slots ⟨i, h⟩).fd = none then .assigning fd ⟨i, h⟩ else .looking fd (i + 1)
          else .polling }
    | _ => none
  | .assign =>
    match s.acceptor with
    | .assigning fd i => some { s with
        slots := Function.update s.slots i { s.slots i with fd := some fd }
        acceptor := .polling }
    | _ => none
  | _ => none

/-- A step of `runHandler`. When `poll` fails, the handler looks at the events that an earlier call has
left in the slots. -/
def handlerStep (callback : SocketCallback σ) (s : State σ) (e : Event) : Option (State σ) :=
  match s.handler, e with
  | .idle, .poll => some { s with handler := .waiting fun i => (s.slots i).fd }
  | .waiting _, .pollFails => some { s with handler := .scanning 0 }
  | .waiting fds, .pollReturns ready others =>
    if ∀ i, ready i = true → (fds i).isSome then some { s with
      slots := fun i => { s.slots i with revents := ready i }
      handler := if others = true ∨ ∃ i, ready i = true then .scanning 0 else .idle }
    else none
  | .scanning i, .scan => some { s with
      handler :=
        if h : i < maxClients then
          if (s.slots ⟨i, h⟩).revents then .receiving ⟨i, h⟩ (s.slots ⟨i, h⟩).fd
          else .scanning (i + 1)
        else .idle }
  | .receiving i _, .recvFails => some { s with handler := .scanning (i + 1) }
  | .receiving i (some fd), .recvEnds =>
    (s.files fd).bind fun k =>
      if (s.connections k).ended ∧ (s.connections k).stream.length = (s.connections k).received then
        some { s with handler := .closing i fd }
      else none
  | .receiving i (some fd), .recv len =>
    (s.files fd).bind fun k =>
      if 0 < len ∧ len ≤ s.buffers.rxBuf.length ∧
          (s.connections k).received + len ≤ (s.connections k).stream.length then
        some (s.receive callback i fd k len)
      else none
  | .sending i fd e, .send len =>
    (s.files fd).bind fun k =>
      if 0 < len ∧ e.sent.length + len ≤ e.response.length then some (s.transmit i fd k len e) else none
  | .sending i _ e, .sendFails => some (s.finish i { e with failed := true })
  | .closing i fd, .close => some { s with
      files := Function.update s.files fd none
      handler := .clearing i }
  | .clearing i, .clear => some { s with
      slots := Function.update s.slots i { s.slots i with fd := none }
      handler := .scanning (i + 1) }
  | _, _ => none

/-- A step of a client, of the acceptor or of the handler. -/
def step (callback : SocketCallback σ) (s : State σ) : Event → Option (State σ)
  | .arrives k bytes =>
    if (s.connections k).ended then none
    else some (s.modify k fun c => { c with stream := c.stream ++ bytes })
  | .ends k => some (s.modify k fun c => { c with ended := true })
  | .accept fd => acceptorStep s (.accept fd)
  | .look => acceptorStep s .look
  | .assign => acceptorStep s .assign
  | e => handlerStep callback s e

/-- A server that has accepted nothing. -/
def initial (b : SocketBuffers σ) : State σ := { buffers := b }

/-! ## What a step does -/

/-- The acceptor has a descriptor that is in no slot yet. -/
def Acceptor.Holds : Acceptor → ℕ → Prop
  | .polling, _ => False
  | .looking fd _, fd' | .assigning fd _, fd' => fd = fd'

/-- The handler works on a descriptor that it has read from a slot. -/
def Handler.WorksOn : Handler → Fin maxClients → ℕ → Prop
  | .receiving i (some fd), i', fd' | .sending i fd _, i', fd' | .closing i fd, i', fd' =>
    i = i' ∧ fd = fd'
  | _, _, _ => False

variable {callback : SocketCallback σ} {s s' : State σ} {e : Event}

/-- What a step of the acceptor does to the descriptors. -/
theorem acceptorStep_cases (h : acceptorStep s e = some s') :
    (∃ fd, e = .accept fd ∧ s.acceptor = .polling ∧ s.files fd = none ∧ s' = { s with
      files := Function.update s.files fd (some s.accepted)
      accepted := s.accepted + 1
      acceptor := .looking fd 0 }) ∨
    (∃ fd i, s.acceptor = .looking fd i ∧ ∃ a, s' = { s with acceptor := a } ∧
      ((∃ h : i < maxClients, (s.slots ⟨i, h⟩).fd = none ∧ a = .assigning fd ⟨i, h⟩) ∨
        (∃ h : i < maxClients, (s.slots ⟨i, h⟩).fd ≠ none ∧ a = .looking fd (i + 1)) ∨
        maxClients ≤ i ∧ a = .polling)) ∨
    ∃ fd i, s.acceptor = .assigning fd i ∧ s' = { s with
      slots := Function.update s.slots i { s.slots i with fd := some fd }
      acceptor := .polling } := by
  unfold acceptorStep at h
  split at h
  · split at h
    · rename_i fd _ _ hpolling hfd
      exact .inl ⟨fd, rfl, hpolling, hfd, (Option.some.inj h).symm⟩
    · cases h
  · split at h
    · rename_i fd i hlooking
      refine .inr (.inl ⟨fd, i, hlooking, _, (Option.some.inj h).symm, ?_⟩)
      by_cases hi : i < maxClients
      · by_cases hfree : (s.slots ⟨i, hi⟩).fd = none
        · exact .inl ⟨hi, hfree, by rw [dif_pos hi, if_pos hfree]⟩
        · exact .inr (.inl ⟨hi, hfree, by rw [dif_pos hi, if_neg hfree]⟩)
      · exact .inr (.inr ⟨Nat.le_of_not_lt hi, dif_neg hi⟩)
    · cases h
  · split at h
    · rename_i fd i hassigning
      exact .inr (.inr ⟨fd, i, hassigning, (Option.some.inj h).symm⟩)
    · cases h
  · cases h

/-- The exchange that the handler works on. -/
def Handler.current : Handler → List Exchange
  | .sending _ _ e => [e]
  | _ => []

/-- What a step of the handler does: it moves on, receives, sends, gives up sending, closes a descriptor or
clears its slot. -/
inductive HandlerStep (callback : SocketCallback σ) (s : State σ) : State σ → Prop
  | moves {slots hd} (hslots : ∀ i, (slots i).fd = (s.slots i).fd) (hbefore : s.handler.current = [])
    (hafter : hd.current = []) (hclearing : ∀ i, s.handler ≠ .clearing i)
    (hclearing' : ∀ i, hd ≠ .clearing i)
    (hworksOn : ∀ i fd, hd.WorksOn i fd → s.handler.WorksOn i fd ∨ (s.slots i).fd = some fd) :
    HandlerStep callback s { s with slots := slots, handler := hd }
  | receives {i fd k len} (hreceiving : s.handler = .receiving i (some fd)) (hk : s.files fd = some k)
    (hlen : (s.connections k).received + len ≤ (s.connections k).stream.length) :
    HandlerStep callback s (s.receive callback i fd k len)
  | transmits {i fd k len x} (hsending : s.handler = .sending i fd x) (hk : s.files fd = some k) :
    HandlerStep callback s (s.transmit i fd k len x)
  | fails {i fd x} (hsending : s.handler = .sending i fd x) :
    HandlerStep callback s (s.finish i { x with failed := true })
  | closes {i fd} (hclosing : s.handler = .closing i fd) :
    HandlerStep callback s { s with
      files := Function.update s.files fd none
      handler := .clearing i }
  | clears {i} (hclearing : s.handler = .clearing i) :
    HandlerStep callback s { s with
      slots := Function.update s.slots i { s.slots i with fd := none }
      handler := .scanning (i + 1) }

theorem handlerStep_cases (h : handlerStep callback s e = some s') : HandlerStep callback s s' := by
  unfold handlerStep at h
  split at h
  · rename_i hidle
    obtain rfl := Option.some.inj h
    exact .moves (fun _ => rfl) (by simp [hidle, Handler.current]) rfl (by simp [hidle]) (by simp)
      (by simp [Handler.WorksOn])
  · rename_i hwaiting
    obtain rfl := Option.some.inj h
    exact .moves (fun _ => rfl) (by simp [hwaiting, Handler.current]) rfl (by simp [hwaiting]) (by simp)
      (by simp [Handler.WorksOn])
  · rename_i hwaiting
    obtain ⟨-, h⟩ := Option.ite_none_right_eq_some.1 h
    obtain rfl := Option.some.inj h
    refine .moves (fun _ => rfl) (by simp [hwaiting, Handler.current]) ?_ (by simp [hwaiting])
      (fun i => ?_) (fun i fd => ?_)
    all_goals split <;> simp [Handler.WorksOn, Handler.current]
  · rename_i i hscanning
    obtain rfl := Option.some.inj h
    refine .moves (fun _ => rfl) (by simp [hscanning, Handler.current]) ?_ (by simp [hscanning])
      (fun j => ?_) (fun j fd => ?_)
    · split
      · split <;> rfl
      · rfl
    · split
      · split <;> simp
      · simp
    · split
      · split
        · cases hslot : (s.slots ⟨i, _⟩).fd with
          | none => simp [Handler.WorksOn]
          | some fd' =>
            rintro ⟨rfl, rfl⟩
            exact .inr hslot
        · simp [Handler.WorksOn]
      · simp [Handler.WorksOn]
  · rename_i i _ hreceiving
    obtain rfl := Option.some.inj h
    exact .moves (fun _ => rfl) (by simp [hreceiving, Handler.current]) rfl (by simp [hreceiving])
      (by simp) (by simp [Handler.WorksOn])
  · rename_i i fd hreceiving
    obtain ⟨k, -, h⟩ := Option.bind_eq_some_iff.1 h
    obtain ⟨-, h⟩ := Option.ite_none_right_eq_some.1 h
    obtain rfl := Option.some.inj h
    refine .moves (fun _ => rfl) (by simp [hreceiving, Handler.current]) rfl (by simp [hreceiving])
      (by simp) (fun j fd' hj => ?_)
    rw [hreceiving]
    exact .inl hj
  · rename_i i fd len hreceiving
    obtain ⟨k, hk, h⟩ := Option.bind_eq_some_iff.1 h
    obtain ⟨⟨-, -, hlen⟩, h⟩ := Option.ite_none_right_eq_some.1 h
    obtain rfl := Option.some.inj h
    exact .receives hreceiving hk hlen
  · rename_i i fd x len hsending
    obtain ⟨k, hk, h⟩ := Option.bind_eq_some_iff.1 h
    obtain ⟨-, h⟩ := Option.ite_none_right_eq_some.1 h
    obtain rfl := Option.some.inj h
    exact .transmits hsending hk
  · rename_i i fd x hsending
    obtain rfl := Option.some.inj h
    exact .fails hsending
  · rename_i i fd hclosing
    obtain rfl := Option.some.inj h
    exact .closes hclosing
  · rename_i i hclearing
    obtain rfl := Option.some.inj h
    exact .clears hclearing
  · cases h

/-- A step of the server is one of the acceptor, one of the handler, or something that a client does. -/
theorem step_cases (h : step callback s e = some s') :
    SocketServer.acceptorStep s e = some s' ∨ HandlerStep callback s s' ∨
      ∃ k f, s' = s.modify k f ∧ ((∃ bytes, f = fun c => { c with stream := c.stream ++ bytes }) ∨
        f = fun c => { c with ended := true }) := by
  cases e with
  | arrives k bytes =>
    obtain ⟨-, h⟩ := Option.ite_none_left_eq_some.1 h
    exact .inr (.inr ⟨k, _, (Option.some.inj h).symm, .inl ⟨bytes, rfl⟩⟩)
  | ends k => exact .inr (.inr ⟨k, _, (Option.some.inj h).symm, .inr rfl⟩)
  | accept fd => exact .inl h
  | look => exact .inl h
  | assign => exact .inl h
  | _ => exact .inr (.inl (handlerStep_cases h))

end SocketServer

end ThingSet
