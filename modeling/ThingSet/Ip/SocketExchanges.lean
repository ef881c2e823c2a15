import ThingSet.Can.Exchange
import ThingSet.Ip.SocketServer

/-!
# The exchanges of the socket server

The handler takes what it receives at once for a request.

* `answered_of_run`: however the threads take turns, the callback is called for one request after another,
  and each connection gets the responses to its own requests.
-/

namespace ThingSet.SocketServer

open Transition

variable {σ : Type} {callback : SocketCallback σ} {s s' : State σ} {e : Event} {fd k : ℕ}

/-- The exchanges that are over, and the one that the handler works on. -/
def State.exchanges (s : State σ) : List Exchange := s.log ++ s.handler.current

/-- The exchanges of one connection. -/
def State.exchangesOf (s : State σ) (k : ℕ) : List Exchange :=
  s.exchanges.filter fun x => x.connection = k

/-- The responses are those of the callback, called in this order, each is sent as far as `send` allowed on
the connection that the request came from, and nothing else is. -/
structure Answered (callback : SocketCallback σ) (b : SocketBuffers σ) (s : State σ) : Prop where
  calls : runCalls callback.answer (s.exchanges.map Exchange.chunk) b =
    (s.exchanges.map Exchange.response, s.buffers)
  received : ∀ k, ((s.exchangesOf k).map Exchange.chunk).flatten =
    (s.connections k).stream.take (s.connections k).received
  received_le : ∀ k, (s.connections k).received ≤ (s.connections k).stream.length
  sent : ∀ k, ((s.exchangesOf k).map Exchange.sent).flatten = (s.connections k).sent
  piece : ∀ x ∈ s.exchanges, x.sent <+: x.response
  whole : ∀ x ∈ s.log, x.failed = false → x.sent = x.response

/-- The descriptor that the handler sends to is still that of the connection of its exchange. -/
def Current (s : State σ) : Prop :=
  ∀ i fd x, s.handler = .sending i fd x → s.files fd = some x.connection

theorem answered_initial (b : SocketBuffers σ) : Answered callback b (initial b) where
  calls := rfl
  received _ := rfl
  received_le _ := le_rfl
  sent _ := rfl
  piece _ h := nomatch h
  whole _ h := nomatch h

/-- The claims about the exchanges are about the log, the handler, the buffers and the connections. -/
theorem Answered.congr {b : SocketBuffers σ} (hs : Answered callback b s) (hlog : s'.log = s.log)
    (hcurrent : s'.handler.current = s.handler.current) (hbuffers : s'.buffers = s.buffers)
    (hconnections : s'.connections = s.connections) : Answered callback b s' := by
  have hexchanges : s'.exchanges = s.exchanges := by
    rw [State.exchanges, State.exchanges, hlog, hcurrent]
  obtain ⟨h₁, h₂, h₃, h₄, h₅, h₆⟩ := hs
  constructor
  all_goals
    simp only [State.exchangesOf, hexchanges, hbuffers, hconnections, hlog]
    assumption

/-- What `recv` returns when it returns `len` bytes. -/
def State.chunk (s : State σ) (k len : ℕ) : Bytes :=
  ((s.connections k).stream.drop (s.connections k).received).take len

section Receive

variable (callback s) (i : Fin maxClients) (fd k len : ℕ)

theorem exchanges_receive (hcurrent : s.handler.current = []) :
    (s.receive callback i fd k len).exchanges =
      s.exchanges ++ [⟨k, s.chunk k len, (callback.answer (s.chunk k len) s.buffers).1, [], false⟩] := by
  rw [State.exchanges, State.exchanges, hcurrent, List.append_nil]
  unfold State.receive
  dsimp only
  split
  · exact List.append_nil _
  · rfl

theorem log_receive : ∀ x ∈ (s.receive callback i fd k len).log,
    x ∈ s.log ∨ x.sent = x.response := by
  unfold State.receive
  dsimp only
  split
  · rename_i hresponse
    intro x hx
    obtain hx | hx := List.mem_append.1 hx
    · exact .inl hx
    · obtain rfl := List.mem_singleton.1 hx
      exact .inr hresponse.symm
  · exact fun x hx => .inl hx

theorem buffers_receive :
    (s.receive callback i fd k len).buffers = (callback.answer (s.chunk k len) s.buffers).2 := by
  unfold State.receive
  dsimp only
  split <;> rfl

theorem connections_receive : (s.receive callback i fd k len).connections =
    Function.update s.connections k
      { s.connections k with received := (s.connections k).received + len } := by
  unfold State.receive
  dsimp only
  split <;> rfl

/-- What is received is answered. -/
theorem Answered.receives {b : SocketBuffers σ} (hs : Answered callback b s)
    (hcurrent : s.handler.current = [])
    (hlen : (s.connections k).received + len ≤ (s.connections k).stream.length) :
    Answered callback b (s.receive callback i fd k len) := by
  have hexchanges := exchanges_receive callback s i fd k len hcurrent
  have hconnections := connections_receive callback s i fd k len
  refine ⟨?_, fun k' => ?_, fun k' => ?_, fun k' => ?_, fun x hx => ?_, fun x hx hfailed => ?_⟩
  · rw [hexchanges, List.map_append, runCalls_append, hs.calls, List.map_append, buffers_receive]
    rfl
  · rw [State.exchangesOf, hexchanges, List.filter_append, List.map_append, List.flatten_append,
      hconnections]
    have hreceived := hs.received k'
    rw [State.exchangesOf] at hreceived
    rw [hreceived]
    by_cases hk : k' = k
    · subst hk
      simp only [Function.update_self, decide_true, List.filter_cons_of_pos, List.filter_nil,
        List.map_cons, List.map_nil, List.flatten_cons, List.flatten_nil, List.append_nil]
      exact (List.take_add).symm
    · simp [Function.update_of_ne hk, Ne.symm hk]
  · rw [hconnections, Function.update_apply]
    split
    · rename_i hk
      exact hlen
    · exact hs.received_le k'
  · rw [State.exchangesOf, hexchanges, List.filter_append, List.map_append, List.flatten_append,
      hconnections]
    have hsent := hs.sent k'
    rw [State.exchangesOf] at hsent
    rw [hsent]
    by_cases hk : k' = k
    · subst hk
      simp
    · simp [Function.update_of_ne hk, Ne.symm hk]
  · rw [hexchanges] at hx
    obtain hx | hx := List.mem_append.1 hx
    · exact hs.piece x hx
    · obtain rfl := List.mem_singleton.1 hx
      exact List.nil_prefix
  · obtain hx | hx := log_receive callback s i fd k len x hx
    · exact hs.whole x hx hfailed
    · exact hx

end Receive

/-- More of the last response is sent, or nothing more of it. -/
theorem Answered.extend {b : SocketBuffers σ} {x : Exchange} (x' : Exchange) (piece : Bytes)
    (hs : Answered callback b s) (hx : s.exchanges = s.log ++ [x]) (hx' : s'.exchanges = s.log ++ [x'])
    (hconnection : x'.connection = x.connection) (hchunk : x'.chunk = x.chunk)
    (hresponse : x'.response = x.response) (hpiece : x'.sent = x.sent ++ piece)
    (hle : x'.sent <+: x.response) (hlog : ∀ y ∈ s'.log, y ∈ s.log ∨ y.failed = true ∨ y.sent = y.response)
    (hbuffers : s'.buffers = s.buffers)
    (hstream : ∀ k, (s'.connections k).stream = (s.connections k).stream)
    (hreceived : ∀ k, (s'.connections k).received = (s.connections k).received)
    (hsent : ∀ k, (s'.connections k).sent =
      (s.connections k).sent ++ if x.connection = k then piece else []) : Answered callback b s' := by
  refine ⟨?_, fun k => ?_, fun k => ?_, fun k => ?_, fun y hy => ?_, fun y hy hfailed => ?_⟩
  · have hcalls := hs.calls
    rw [hx] at hcalls
    rw [hx', hbuffers]
    simp only [List.map_append, List.map_cons, List.map_nil, hchunk, hresponse] at hcalls ⊢
    exact hcalls
  · have hchunks := hs.received k
    rw [State.exchangesOf, hx] at hchunks
    rw [State.exchangesOf, hx', hstream, hreceived, ← hchunks]
    by_cases hk : x.connection = k <;> simp [hconnection, hk, hchunk]
  · rw [hstream, hreceived]
    exact hs.received_le k
  · have hpieces := hs.sent k
    rw [State.exchangesOf, hx] at hpieces
    rw [State.exchangesOf, hx', hsent, ← hpieces]
    by_cases hk : x.connection = k <;> simp [hconnection, hk, hpiece]
  · rw [hx'] at hy
    obtain hy | hy := List.mem_append.1 hy
    · exact hs.piece y (hx ▸ List.mem_append_left _ hy)
    · obtain rfl := List.mem_singleton.1 hy
      rwa [hresponse]
  · obtain hy | hy | hy := hlog y hy
    · exact hs.whole y hy hfailed
    · exact absurd (hfailed.symm.trans hy) Bool.false_ne_true
    · exact hy

theorem exchanges_of_sending {i : Fin maxClients} {x : Exchange} (hsending : s.handler = .sending i fd x) :
    s.exchanges = s.log ++ [x] := by
  rw [State.exchanges, hsending]
  rfl

/-- What `send` takes goes to the connection of the exchange. -/
theorem Answered.transmits {b : SocketBuffers σ} {i : Fin maxClients} {x : Exchange} {len : ℕ}
    (hs : Answered callback b s) (hsending : s.handler = .sending i fd x) (hk : k = x.connection) :
    Answered callback b (s.transmit i fd k len x) := by
  have hpiece := hs.piece x (exchanges_of_sending hsending ▸ List.mem_append_right _ (.head _))
  have hle : x.sent ++ (x.response.drop x.sent.length).take len <+: x.response := by
    obtain ⟨rest, hrest⟩ := hpiece
    rw [← hrest, List.drop_left, List.prefix_append_right_inj]
    exact List.take_prefix len rest
  subst hk
  refine Answered.extend { x with sent := x.sent ++ (x.response.drop x.sent.length).take len }
    ((x.response.drop x.sent.length).take len) hs (exchanges_of_sending hsending) ?_ rfl rfl rfl rfl hle ?_ ?_ ?_ ?_ ?_
  all_goals
    unfold State.transmit
    dsimp only
  · split
    · exact List.append_nil _
    · rfl
  · split
    · rename_i hlength
      intro y hy
      obtain hy | hy := List.mem_append.1 hy
      · exact .inl hy
      · obtain rfl := List.mem_singleton.1 hy
        exact .inr (.inr (hle.eq_of_length hlength))
    · exact fun y hy => .inl hy
  · split <;> rfl
  · intro k
    split <;> by_cases hk : k = x.connection <;>
      simp [State.finish, State.modify, hk]
  · intro k
    split <;> by_cases hk : k = x.connection <;>
      simp [State.finish, State.modify, hk]
  · intro k
    split <;> by_cases hk : k = x.connection <;>
      simp [State.finish, State.modify, hk, Ne.symm]

theorem Answered.fails {b : SocketBuffers σ} {i : Fin maxClients} {x : Exchange}
    (hs : Answered callback b s) (hsending : s.handler = .sending i fd x) :
    Answered callback b (s.finish i { x with failed := true }) := by
  have hpiece := hs.piece x (exchanges_of_sending hsending ▸ List.mem_append_right _ (.head _))
  refine Answered.extend { x with failed := true } [] hs (exchanges_of_sending hsending)
    (List.append_nil _) rfl rfl rfl (List.append_nil _).symm hpiece (fun y hy => ?_) rfl (fun _ => rfl)
    (fun _ => rfl) (fun k => ?_)
  · obtain hy | hy := List.mem_append.1 hy
    · exact .inl hy
    · obtain rfl := List.mem_singleton.1 hy
      exact .inr (.inl rfl)
  · rw [ite_self, List.append_nil]
    rfl

theorem Current.acceptorStep (hs : Current s) (h : SocketServer.acceptorStep s e = some s') :
    Current s' := by
  obtain ⟨fd', -, -, hfd', rfl⟩ | ⟨_, _, -, a, rfl, -⟩ | ⟨_, _, -, rfl⟩ := acceptorStep_cases h
  · intro i fd x hsending
    have hfd := hs i fd x hsending
    have hne : fd ≠ fd' := fun heq => Option.some_ne_none _ (hfd.symm.trans (heq ▸ hfd'))
    exact (Function.update_of_ne hne _ _).trans hfd
  · exact hs
  · exact hs

theorem Current.handlerStep (hs : Current s) (h : HandlerStep callback s s') : Current s' := by
  intro i fd x hsending
  cases h with
  | moves _ _ hafter =>
    dsimp only at hsending
    rw [hsending] at hafter
    exact absurd hafter (List.cons_ne_nil _ _)
  | @receives i' fd' k len hreceiving hk =>
    unfold State.receive at hsending ⊢
    dsimp only at hsending ⊢
    split at hsending
    · exact absurd hsending Handler.noConfusion
    · rename_i hresponse
      obtain ⟨rfl, rfl, rfl⟩ := Handler.sending.inj hsending
      rwa [if_neg hresponse]
  | @transmits i' fd' k len x' hsending' hk =>
    have hfd := hs i' fd' x' hsending'
    unfold State.transmit at hsending ⊢
    dsimp only at hsending ⊢
    split at hsending
    · exact absurd hsending Handler.noConfusion
    · rename_i hlength
      obtain ⟨rfl, rfl, rfl⟩ := Handler.sending.inj hsending
      rwa [if_neg hlength]
  | fails _ => exact absurd hsending Handler.noConfusion
  | closes _ => exact absurd hsending Handler.noConfusion
  | clears _ => exact absurd hsending Handler.noConfusion

theorem Answered.handlerStep {b : SocketBuffers σ} (hs : Answered callback b s) (hcurrent : Current s)
    (h : HandlerStep callback s s') : Answered callback b s' := by
  cases h with
  | moves _ hbefore hafter => exact hs.congr rfl (hafter.trans hbefore.symm) rfl rfl
  | @receives i fd k len hreceiving hk hlen =>
    exact Answered.receives callback s i fd k len hs (by rw [hreceiving]; rfl) hlen
  | @transmits i fd k len x hsending hk =>
    exact hs.transmits hsending (Option.some.inj (hk.symm.trans (hcurrent i fd x hsending)))
  | fails hsending => exact hs.fails hsending
  | closes hclosing => exact hs.congr rfl (by rw [hclosing]; rfl) rfl rfl
  | clears hclearing => exact hs.congr rfl (by rw [hclearing]; rfl) rfl rfl

/-- What a client does is no business of the exchanges. -/
theorem Answered.client {b : SocketBuffers σ} {f : Connection → Connection} (hs : Answered callback b s)
    (hf : (∃ bytes, f = fun c => { c with stream := c.stream ++ bytes }) ∨
      f = fun c => { c with ended := true }) : Answered callback b (s.modify k f) := by
  have hfield : ∀ c, (∃ rest, (f c).stream = c.stream ++ rest) ∧ (f c).received = c.received ∧
      (f c).sent = c.sent := by
    obtain ⟨bytes, rfl⟩ | rfl := hf
    · exact fun c => ⟨⟨bytes, rfl⟩, rfl, rfl⟩
    · exact fun c => ⟨⟨[], (List.append_nil _).symm⟩, rfl, rfl⟩
  obtain ⟨⟨rest, hstream⟩, hreceived, hsent⟩ := hfield (s.connections k)
  refine ⟨hs.calls, fun k' => ?_, fun k' => ?_, fun k' => ?_, hs.piece, hs.whole⟩
  · dsimp only [State.modify]
    rw [Function.update_apply]
    split
    · rename_i hk
      rw [hk, hstream, hreceived, List.take_append_of_le_length (hs.received_le k)]
      exact hs.received k
    · exact hs.received k'
  · dsimp only [State.modify]
    rw [Function.update_apply]
    split
    · rw [hstream, hreceived, List.length_append]
      exact (hs.received_le k).trans (Nat.le_add_right _ _)
    · exact hs.received_le k'
  · dsimp only [State.modify]
    rw [Function.update_apply]
    split
    · rename_i hk
      rw [hk, hsent]
      exact hs.sent k
    · exact hs.sent k'

/-- **However the two threads, the system and the clients take turns, the server answers what it receives
at once with what the callback returns, calls taken one after another; each connection gets the responses to
what was received from it, in order, each as far as `send` allowed, and nothing else.** -/
theorem answered_of_run {b : SocketBuffers σ} {es : List Event}
    (hrun : runFrom (step callback) (initial b) es = some s) : Answered callback b s := by
  refine (runFrom_invariant (P := fun s => Current s ∧ Answered callback b s) (fun s₁ e s₂ h₁ h => ?_)
    ⟨fun _ _ _ h => Handler.noConfusion h, answered_initial b⟩ hrun).2
  obtain h | h | ⟨k, f, rfl, hf⟩ := step_cases h
  · refine ⟨h₁.1.acceptorStep h, ?_⟩
    obtain ⟨_, -, -, -, rfl⟩ | ⟨_, _, -, _, rfl, -⟩ | ⟨_, _, -, rfl⟩ := acceptorStep_cases h
    all_goals exact h₁.2.congr rfl rfl rfl rfl
  · exact ⟨h₁.1.handlerStep h, h₁.2.handlerStep h₁.1 h⟩
  · exact ⟨h₁.1, h₁.2.client hf⟩

/-- `requestCallback` of a server as the callback of the socket server. -/
def ownerCallback (o : Owner σ) : SocketCallback σ := fun rx len tx app =>
  let (result, c) := o.callback false rx len ⟨rx, tx, none, app⟩
  ((result, c.txBuffer), c.app)

/-- The callback of the server with one property. -/
def onePropertyCallback : SocketCallback (World SmallNode ℕ Unit) := ownerCallback onePropertyOwner

/-- Its buffers. -/
def onePropertyBuffers : SocketBuffers (World SmallNode ℕ Unit) :=
  ⟨List.replicate 16 0, List.replicate 16 0, (zeroSession (ZcborEncodeState.new 8 64)).world⟩

/-- A client connects while the handler is in `poll`, asks for the property `a`, and gets the response in two
pieces. -/
def oneClientRun : List Event :=
  [.poll, .accept 5, .arrives 0 [0x01, 0x18, 0x22], .look, .assign, .pollReturns (fun _ => false) false,
    .poll, .pollReturns (fun i => i.val = 0) false, .scan, .recv 3, .send 1, .send 2]

theorem oneClientRun_answered :
    ∃ s, runFrom (step onePropertyCallback) (initial onePropertyBuffers) oneClientRun = some s ∧
      (s.connections 0).sent = [0x85, 0xF6, 0x00] ∧
      Answered onePropertyCallback onePropertyBuffers s := by
  obtain ⟨s, hrun, hsent⟩ := Option.map_eq_some_iff.1 (show
    (runFrom (step onePropertyCallback) (initial onePropertyBuffers) oneClientRun).map
      (fun s => (s.connections 0).sent) = some [0x85, 0xF6, 0x00] from by decide +kernel)
  exact ⟨s, hrun, hsent, answered_of_run hrun⟩

end ThingSet.SocketServer
