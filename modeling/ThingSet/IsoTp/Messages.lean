import ThingSet.IsoTp.SendPool
import ThingSet.IsoTp.Transmission
import Mathlib.Data.List.Forall2
import Mathlib.Data.List.Perm.Basic

/-!
# The messages of a bound context

Calls of `isotp_fast_send` on one bound context. A call takes over the context that the recipient has
in the list, whatever that context still has to send.

`reported_of_good`: in a run in which no call finds a context of its recipient, and none of the
driver's errors and completions that the code overlooks happens, the messages to a recipient come one
after the other. `sent_callback` is called once for each, with its argument; the frames carry the
messages that are reported as sent, and begin the others. In a calm run, in which nothing goes wrong,
all are reported as sent. The last message may still be under way.
-/

namespace ThingSet.IsoTp

open Function Transition

/-- The driver takes the frame, and sends it. -/
def CanSend.Taken (o : CanSend) : Prop := o = .queued ∨ o = .completed 0

instance (o : CanSend) : Decidable o.Taken := instDecidableOr

/-- The driver does not take the frame, or it sends it. -/
def CanSend.Sent : CanSend → Prop
  | .completed error => error = 0
  | _ => True

instance : DecidablePred CanSend.Sent
  | .completed error => inferInstanceAs (Decidable (error = 0))
  | .queued => isTrue trivial
  | .failed _ => isTrue trivial

/-- The call reports that the message was sent. -/
def SentCall.Success {A β : Type} (call : SentCall A β) : Prop :=
  call.result = .isoTp .ok ∨ call.result = .driver 0

/-- The call reports the message, and that it was sent if the run is calm. -/
structure Reports {A β : Type} (calm : Bool) (m : Outgoing A β) (call : SentCall A β) : Prop where
  success : calm → call.Success
  addr : call.addr = m.addr
  arg : call.arg = m.arg

/-- Messages that were sent one after the other, each with the call that reports it. The frames carry
the message if it is reported as sent, and begin it in any case. -/
inductive Delivered {A β : Type} (c : IsoTpConfig) (calm : Bool) :
    List (Outgoing A β) → List (SentCall A β) → List CanFrame → Prop
  | nil : Delivered c calm [] [] []
  | append {done : List (Outgoing A β)} {calls : List (SentCall A β)} {fs : List CanFrame}
      (m : Outgoing A β) (call : SentCall A β) (cur : List CanFrame) :
      Delivered c calm done calls fs → Reports calm m call → Begun c m.data cur →
        (call.Success → Carry c m.data cur) →
          Delivered c calm (done ++ [m]) (calls ++ [call]) (fs ++ cur)

namespace SendNode

variable {n : ℕ} {A β : Type} [DecidableEq A] (c : IsoTpConfig)

/-- The frames to an address, in their order on the bus. -/
def framesTo (N : SendNode n A β) (a : A) : List CanFrame := (N.bus.filter (·.1 = a)).map (·.2)

/-- The calls of `sent_callback` for an address. -/
def callsFor (N : SendNode n A β) (a : A) : List (SentCall A β) := N.sent.filter (·.addr = a)

/-- The messages to an address whose calls returned 0. -/
def acceptedFor (N : SendNode n A β) (a : A) : List (Outgoing A β) := N.accepted.filter (·.addr = a)

/-- Nothing is left to do: all frames are completed, no work item is submitted and no timer runs. -/
structure Settled (N : SendNode n A β) : Prop where
  queue : N.queue = []
  work : ∀ i, (N.slots i).work = false
  timer : ∀ i, (N.slots i).timer = .stopped
  sem : ∀ i, (N.slots i).taking = true → (N.slots i).sem = false

instance (N : SendNode n A β) : Decidable N.Settled :=
  decidable_of_iff (N.queue = [] ∧ (∀ i, (N.slots i).work = false) ∧
      (∀ i, (N.slots i).timer = .stopped) ∧
        ∀ i, (N.slots i).taking = true → (N.slots i).sem = false)
    ⟨fun h => ⟨h.1, h.2.1, h.2.2.1, h.2.2.2⟩, fun h => ⟨h.queue, h.work, h.timer, h.sem⟩⟩

/-- No frame of a context is queued. -/
def Quiet (N : SendNode n A β) (i : Fin n) : Prop := ∀ q ∈ N.queue, q.slot ≠ i

instance (N : SendNode n A β) (i : Fin n) : Decidable (N.Quiet i) := List.decidableBAll _ _

/-- The condition on an event. No context of the recipient is in the list when a message is sent. The
driver takes the frames of a message that needs several, completes them without an error, and does
not complete the last one within `can_send`. All are completed when a context starts a block, and when
it calls `sent_callback` with an error; a single frame is completed when a flow control frame comes. A
run is calm if the driver has no other errors either, no recipient takes too long, and each answers
when its context waits, with a clear-to-send frame or with one that asks to wait. -/
def Good (calm : Bool) (N : SendNode n A β) : SendEvent n A β → Prop
  | .send m _ _ o => N.find m.addr = none ∧ (calm → o.Sent)
  | .work i _ o =>
    ((N.slots i).state = .sendFf ∨ (N.slots i).state = .sendCf → o.Taken) ∧
      ((N.slots i).state = .sendCf → (N.slots i).remLen ≤ canMaxDlen c - 1 → o = .queued) ∧
      ((N.slots i).state = .err → N.Quiet i)
  | .semTaken i _ o => o.Taken ∧ ((N.slots i).remLen ≤ canMaxDlen c - 1 → o = .queued)
  | .completed k error => ∀ q ∈ N.queue[k]?, q.single = false ∨ calm → error = 0
  | .timer i => calm → (N.slots i).timer = .st
  | .flowControl addr f => ∀ i, N.find addr = some i →
    ((N.slots i).state = .sendFf ∨ (N.slots i).state = .waitFc ∧ isCts f → N.Quiet i) ∧
      (calm → (N.slots i).state = .waitFc ∧ (isCts f ∨ pciType (f.byte 0) = typeFc ∧
        f.byte 0 &&& 0x0F = fsWait ∧ (N.slots i).wft.toNat < c.wftMax))
  | .unbind _ => False

instance (calm : Bool) (N : SendNode n A β) : DecidablePred (N.Good c calm)
  | .send _ _ _ _ => instDecidableAnd
  | .work _ _ _ => instDecidableAnd
  | .semTaken _ _ _ => instDecidableAnd
  | .completed k error =>
    inferInstanceAs (Decidable (∀ q ∈ N.queue[k]?, q.single = false ∨ calm → error = 0))
  | .timer i => inferInstanceAs (Decidable (calm → (N.slots i).timer = .st))
  | .flowControl _ _ => Nat.decidableForallFin _
  | .unbind _ => instDecidableFalse

end SendNode

variable {n : ℕ} {A β : Type} {c : IsoTpConfig} {calm : Bool} {N N' : SendNode n A β} {a b : A}
  {i j : Fin n} {m : Outgoing A β} {done : List (Outgoing A β)} {fs cur : List CanFrame}
  {r : SendRun A β} {single : Bool}

/-! ## Contexts -/

theorem Delivered.forall₂ {calls : List (SentCall A β)} (h : Delivered c calm done calls fs) :
    List.Forall₂ (Reports calm) done calls := by
  induction h with
  | nil => exact .nil
  | append m call cur _ hreports _ _ ih => exact List.rel_append ih (.cons hreports .nil)

/-- How far a context is: its single frame is on the bus, or it has sent some frames of several.
`p` and `q` are the frames that are queued for it, single and others. -/
inductive Stage (c : IsoTpConfig) (calm : Bool) (msg : Bytes) (s : SendCtx) (cur : List CanFrame)
    (p q : ℕ) : Prop
  | single (f : CanFrame) : IsSingle c msg f → cur = [f] → p = 1 → q = 0 → s.state = .sendFf →
      s.work = false → s.taking = false → s.timer = .stopped → Stage c calm msg s cur p q
  | multi : canMaxDlen c - sfLenByte c < msg.length → msg.length ≤ 4095 →
      Multi c calm msg s cur q → p = 0 → Stage c calm msg s cur p q

/-- A context is bound, and it has the message's address and argument. -/
structure Bound (s : SendSlot A β) (m : Outgoing A β) : Prop where
  allocated : s.allocated = true
  listed : s.listed = true
  orphaned : s.orphaned = false
  txAddr : s.txAddr = m.addr
  cbArg : s.cbArg = m.arg

theorem SendSlot.Same.bound {s t : SendSlot A β} (h : s.Same t) (hb : Bound s m) : Bound t m :=
  ⟨h.allocated.trans hb.allocated, h.listed.trans hb.listed, h.orphaned.trans hb.orphaned,
    h.txAddr.trans hb.txAddr, h.cbArg.trans hb.cbArg⟩

/-- A function that calls nothing keeps what is known about the context. -/
theorem SendSlot.Keeps.bound {s : SendSlot A β} (h : s.Keeps r) (hb : Bound s m) : Bound r.slot m :=
  h.same.bound ⟨hb.allocated, hb.listed, hb.orphaned, hb.txAddr, hb.cbArg⟩

/-! ## The invariant -/

variable [DecidableEq A]

/-- A block that is free. -/
structure Idle (N : SendNode n A β) (i : Fin n) : Prop where
  listed : (N.slots i).listed = false
  work : (N.slots i).work = false
  taking : (N.slots i).taking = false
  timer : (N.slots i).timer = .stopped
  queue : ∀ single, ⟨i, single⟩ ∉ N.queue

/-- A context is sending the last message to an address. -/
structure Busy (c : IsoTpConfig) (calm : Bool) (N : SendNode n A β) (a : A) (i : Fin n)
    (done : List (Outgoing A β)) (m : Outgoing A β) (fs cur : List CanFrame) : Prop where
  accepted : N.acceptedFor a = done ++ [m]
  frames : N.framesTo a = fs ++ cur
  delivered : Delivered c calm done (N.callsFor a) fs
  addr : m.addr = a
  bound : Bound (N.slots i) m
  stage : Stage c calm m.data (N.slots i).toSendCtx cur (N.queue.count ⟨i, true⟩)
    (N.queue.count ⟨i, false⟩)

/-- What is known about an address. -/
inductive AddrInv (c : IsoTpConfig) (calm : Bool) (N : SendNode n A β) (a : A) : Prop
  | idle : (∀ i, (N.slots i).allocated = true → (N.slots i).txAddr ≠ a) →
      Delivered c calm (N.acceptedFor a) (N.callsFor a) (N.framesTo a) → AddrInv c calm N a
  | busy (i : Fin n) (done : List (Outgoing A β)) (m : Outgoing A β) (fs cur : List CanFrame) :
      Busy c calm N a i done m fs cur → AddrInv c calm N a

/-- The invariant of runs of good events. -/
structure Inv (c : IsoTpConfig) (calm : Bool) (N : SendNode n A β) : Prop where
  idle : ∀ i, (N.slots i).allocated = false → Idle N i
  unique : ∀ i j, (N.slots i).allocated = true → (N.slots j).allocated = true →
    (N.slots i).txAddr = (N.slots j).txAddr → i = j
  addr : ∀ a, AddrInv c calm N a

theorem inv_of_init (h : N.Init) : Inv c calm N where
  idle i _ := by
    obtain ⟨-, hlisted, hwork, htaking, htimer⟩ := h.slots i
    exact ⟨hlisted, hwork, htaking, htimer, by simp [h.queue]⟩
  unique i j hi := absurd ((h.slots i).1.symm.trans hi) (by decide)
  addr a := by
    refine .idle (fun i hi => absurd ((h.slots i).1.symm.trans hi) (by decide)) ?_
    rw [SendNode.acceptedFor, SendNode.callsFor, SendNode.framesTo, h.accepted, h.sent, h.bus]
    exact .nil

/-- A context that is allocated is sending the last message to its address. -/
theorem Inv.busy (h : Inv c calm N) (hi : (N.slots i).allocated = true) :
    ∃ done m fs cur, Busy c calm N (N.slots i).txAddr i done m fs cur := by
  rcases h.addr (N.slots i).txAddr with ⟨hne, -⟩ | ⟨j, done, m, fs, cur, hb⟩
  · exact absurd rfl (hne i hi)
  · obtain rfl := h.unique j i hb.bound.allocated hi (hb.bound.txAddr.trans hb.addr)
    exact ⟨done, m, fs, cur, hb⟩

theorem Inv.allocated_of_listed (h : Inv c calm N) (hi : (N.slots i).listed = true) :
    (N.slots i).allocated = true := by
  by_contra hne
  have := (h.idle i (by simpa using hne)).listed
  simp [hi] at this

/-- The context that is found for an address. -/
theorem Inv.of_find (h : Inv c calm N) (hfind : N.find a = some i) :
    (N.slots i).allocated = true ∧ (N.slots i).txAddr = a := by
  have hfound := List.find?_some hfind
  obtain ⟨hlisted, haddr⟩ := of_decide_eq_true hfound
  exact ⟨h.allocated_of_listed hlisted.1, haddr⟩

theorem Inv.of_find_none (h : Inv c calm N) (hfind : N.find a = none)
    (hi : (N.slots i).allocated = true) : (N.slots i).txAddr ≠ a := by
  intro haddr
  obtain ⟨done, m, fs, cur, hb⟩ := h.busy hi
  have := List.find?_eq_none.1 hfind i (List.mem_finRange i)
  exact this (decide_eq_true ⟨⟨hb.bound.listed, hb.bound.orphaned⟩, haddr⟩)

/-! ## What an event changes -/

/-- The nodes differ in one context, and in what concerns its address. -/
structure Elsewhere (N N' : SendNode n A β) (i : Fin n) (a : A) : Prop where
  slots : ∀ j ≠ i, N'.slots j = N.slots j
  queue : ∀ j ≠ i, ∀ single, N'.queue.count ⟨j, single⟩ = N.queue.count ⟨j, single⟩
  before : (N.slots i).allocated = true → (N.slots i).txAddr = a
  after : (N'.slots i).allocated = true → (N'.slots i).txAddr = a
  frames : ∀ b ≠ a, N'.framesTo b = N.framesTo b
  calls : ∀ b ≠ a, N'.callsFor b = N.callsFor b
  accepted : ∀ b ≠ a, N'.acceptedFor b = N.acceptedFor b

/-- Other addresses are not concerned. -/
theorem addrInv_of_ne (he : Elsewhere N N' i a) (hb : b ≠ a) (h : AddrInv c calm N b) :
    AddrInv c calm N' b := by
  rcases h with ⟨hidle, hdone⟩ | ⟨j, done, m, fs, cur, hbusy⟩
  · refine .idle (fun j hj => ?_) ?_
    · by_cases hij : j = i
      · subst hij
        exact fun hjb => hb (hjb.symm.trans (he.after hj))
      · rw [he.slots j hij] at hj ⊢
        exact hidle j hj
    · rw [he.accepted b hb, he.frames b hb, he.calls b hb]
      exact hdone
  · have hij : j ≠ i := by
      rintro rfl
      exact hb ((hbusy.addr.symm.trans hbusy.bound.txAddr.symm).trans (he.before hbusy.bound.allocated))
    refine .busy j done m fs cur ⟨(he.accepted b hb).trans hbusy.accepted,
      (he.frames b hb).trans hbusy.frames, ?_, hbusy.addr, ?_, ?_⟩
    · exact he.calls b hb ▸ hbusy.delivered
    · exact he.slots j hij ▸ hbusy.bound
    · rw [he.slots j hij, he.queue j hij, he.queue j hij]
      exact hbusy.stage

/-- An event on a context keeps the invariant when it does for the context's address. -/
theorem inv_of_elsewhere (h : Inv c calm N) (he : Elsewhere N N' i a)
    (hfree : ∀ j ≠ i, (N.slots j).allocated = true → (N.slots j).txAddr ≠ a)
    (haddr : AddrInv c calm N' a) (hidle : (N'.slots i).allocated = false → Idle N' i) : Inv c calm N' where
  idle j hj := by
    by_cases hij : j = i
    · exact hij ▸ hidle (hij ▸ hj)
    · rw [he.slots j hij] at hj
      obtain ⟨hlisted, hwork, htaking, htimer, hqueue⟩ := h.idle j hj
      rw [← he.slots j hij] at hlisted hwork htaking htimer
      refine ⟨hlisted, hwork, htaking, htimer, fun single => ?_⟩
      rw [← List.count_eq_zero, he.queue j hij, List.count_eq_zero]
      exact hqueue single
  unique j k hj hk heq := by
    by_cases hji : j = i <;> by_cases hki : k = i
    · exact hji.trans hki.symm
    · subst hji
      rw [he.slots k hki] at hk heq
      exact absurd (heq.symm.trans (he.after hj)) (hfree k hki hk)
    · subst hki
      rw [he.slots j hji] at hj heq
      exact absurd (heq.trans (he.after hk)) (hfree j hji hj)
    · rw [he.slots j hji] at hj heq
      rw [he.slots k hki] at hk heq
      exact h.unique j k hj hk heq
  addr b := by
    by_cases hb : b = a
    · exact hb ▸ haddr
    · exact addrInv_of_ne he hb (h.addr b)

/-- No other context has the address of one that is allocated. -/
theorem Inv.ne_of_ne (h : Inv c calm N) (hi : (N.slots i).allocated = true) (haddr : (N.slots i).txAddr = a) :
    ∀ j ≠ i, (N.slots j).allocated = true → (N.slots j).txAddr ≠ a :=
  fun j hji hj hja => hji (h.unique j i hj hi (hja.trans haddr.symm))

/-! ## A function runs on a context -/

variable {queue : List (Queued n)}

theorem framesTo_apply (N : SendNode n A β) (queue : List (Queued n)) (i : Fin n) (single : Bool)
    (r : SendRun A β) (a : A) :
    ({ N with queue := queue }.apply i single r).framesTo a =
      N.framesTo a ++ if r.slot.txAddr = a then r.frame.toList else [] := by
  simp only [SendNode.framesTo, SendNode.apply, List.filter_append, List.map_append]
  congr 1
  cases r.frame with
  | none => simp
  | some f => by_cases h : r.slot.txAddr = a <;> simp [h]

theorem callsFor_apply (N : SendNode n A β) (queue : List (Queued n)) (i : Fin n) (single : Bool)
    (r : SendRun A β) (a : A) :
    ({ N with queue := queue }.apply i single r).callsFor a =
      N.callsFor a ++ r.sent.filter (·.addr = a) := by
  simp only [SendNode.callsFor, SendNode.apply, List.filter_append]

theorem acceptedFor_apply (N : SendNode n A β) (queue : List (Queued n)) (i : Fin n) (single : Bool)
    (r : SendRun A β) (a : A) :
    ({ N with queue := queue }.apply i single r).acceptedFor a = N.acceptedFor a := rfl

theorem acceptedFor_accept (N : SendNode n A β) (m : Outgoing A β) :
    (N.accept m).acceptedFor m.addr = N.acceptedFor m.addr ++ [m] := by
  simp [SendNode.acceptedFor, SendNode.accept]

theorem framesTo_accept (N : SendNode n A β) (m : Outgoing A β) (a : A) :
    (N.accept m).framesTo a = N.framesTo a := rfl

theorem callsFor_accept (N : SendNode n A β) (m : Outgoing A β) (a : A) :
    (N.accept m).callsFor a = N.callsFor a := rfl

theorem elsewhere_accept (he : Elsewhere N N' i m.addr) : Elsewhere N (N'.accept m) i m.addr where
  slots := he.slots
  queue := he.queue
  before := he.before
  after := he.after
  frames := he.frames
  calls := he.calls
  accepted b hb := by
    rw [← he.accepted b hb]
    simp [SendNode.acceptedFor, SendNode.accept, hb.symm]

theorem elsewhere_apply (hqueue : ∀ j ≠ i, ∀ single, queue.count ⟨j, single⟩ = N.queue.count ⟨j, single⟩)
    (hbefore : (N.slots i).allocated = true → (N.slots i).txAddr = a) (hafter : r.slot.txAddr = a)
    (hsent : ∀ call ∈ r.sent, call.addr = a) :
    Elsewhere N ({ N with queue := queue }.apply i single r) i a where
  slots j hj := update_of_ne hj ..
  queue j hj s := by
    rw [SendNode.queue_apply, hqueue j hj s, if_neg, Nat.add_zero]
    rintro ⟨-, h⟩
    cases h
    exact hj rfl
  before := hbefore
  after _ := by rwa [SendNode.slots_apply]
  frames b hb := by
    rw [framesTo_apply, hafter, if_neg hb.symm, List.append_nil]
  calls b hb := by
    rw [callsFor_apply, List.filter_eq_nil_iff.2, List.append_nil]
    exact fun call hcall => by simpa [hsent call hcall] using hb.symm
  accepted b _ := rfl

/-- A function that goes on with the message. -/
theorem inv_of_run (h : Inv c calm N) (hb : Busy c calm N a i done m fs cur)
    (hqueue : ∀ j ≠ i, ∀ single, queue.count ⟨j, single⟩ = N.queue.count ⟨j, single⟩)
    (hkeeps : Bound r.slot m) (hsent : r.sent = [])
    (hstage : Stage c calm m.data r.slot.toSendCtx (cur ++ r.frame.toList) (queue.count ⟨i, true⟩)
      (queue.count ⟨i, false⟩ + if r.outstanding then 1 else 0)) :
    Inv c calm ({ N with queue := queue }.apply i false r) := by
  have haddr : (N.slots i).txAddr = a := hb.bound.txAddr.trans hb.addr
  refine inv_of_elsewhere h (elsewhere_apply (a := a) hqueue (fun _ => haddr)
    (hkeeps.txAddr.trans hb.addr) (by simp [hsent])) (h.ne_of_ne hb.bound.allocated haddr) ?_ ?_
  · refine .busy i done m fs (cur ++ r.frame.toList) ⟨hb.accepted, ?_, ?_, hb.addr, ?_, ?_⟩
    · rw [framesTo_apply, if_pos (hkeeps.txAddr.trans hb.addr), hb.frames, List.append_assoc]
    · rw [callsFor_apply, hsent, List.filter_nil, List.append_nil]
      exact hb.delivered
    · rwa [SendNode.slots_apply]
    · rw [SendNode.slots_apply, SendNode.queue_apply, SendNode.queue_apply]
      simpa using hstage
  · rw [SendNode.slots_apply, hkeeps.allocated]
    nofun

/-- A function that reports the message and frees the context. -/
theorem inv_of_free (h : Inv c calm N) (hb : Busy c calm N a i done m fs cur)
    (hqueue : ∀ j ≠ i, ∀ single, queue.count ⟨j, single⟩ = N.queue.count ⟨j, single⟩)
    (hempty : ∀ single, ⟨i, single⟩ ∉ queue) {call : SentCall A β}
    (hcall : Reports calm m call) (hbegun : Begun c m.data cur)
    (hcarry : call.Success → Carry c m.data cur) {s : SendSlot A β} (haddr' : s.txAddr = a)
    (hslot : s.allocated = false ∧ s.listed = false ∧ s.work = false ∧ s.taking = false ∧
      s.timer = .stopped) :
    Inv c calm ({ N with queue := queue }.apply i single { slot := s, sent := [call] }) := by
  have haddr : (N.slots i).txAddr = a := hb.bound.txAddr.trans hb.addr
  have hcalla : call.addr = a := hcall.addr.trans hb.addr
  have he : Elsewhere N ({ N with queue := queue }.apply i single { slot := s, sent := [call] }) i a :=
    elsewhere_apply hqueue (fun _ => haddr) haddr' (by simpa using hcalla)
  refine inv_of_elsewhere h he (h.ne_of_ne hb.bound.allocated haddr) ?_ ?_
  · refine .idle (fun j hj => ?_) ?_
    · by_cases hij : j = i
      · subst hij
        rw [SendNode.slots_apply, hslot.1] at hj
        cases hj
      · rw [he.slots j hij] at hj ⊢
        exact h.ne_of_ne hb.bound.allocated haddr j hij hj
    · rw [framesTo_apply, hb.frames, acceptedFor_apply, hb.accepted, callsFor_apply]
      simpa [hcalla] using hb.delivered.append m call cur hcall hbegun hcarry
  · obtain ⟨-, hlisted, hwork, htaking, htimer⟩ := hslot
    intro _
    refine ⟨?_, ?_, ?_, ?_, hempty⟩ <;> rwa [SendNode.slots_apply]

/-! ## The events -/

variable {stale : Bytes} {o : CanSend}

theorem CanSend.Taken.not_failed (ho : o.Taken) : ∀ eagain, o ≠ .failed eagain := by
  rcases ho with rfl | rfl <;> nofun

theorem inv_work (h : Inv c calm N) (hgood : N.Good c calm (.work i stale o))
    (hstep : N.step c (.work i stale o) = some N') : Inv c calm N' := by
  simp only [SendNode.step] at hstep
  split at hstep
  · rename_i hwork
    obtain ⟨hwork, htaking⟩ := hwork
    rw [Bool.not_eq_true] at htaking
    obtain rfl := Option.some.inj hstep
    obtain ⟨ho, hlast, hquiet⟩ := hgood
    have hi : (N.slots i).allocated = true := by
      by_contra hne
      exact absurd (hwork.symm.trans (h.idle i (by simpa using hne)).work) (by decide)
    obtain ⟨done, m, fs, cur, hb⟩ := h.busy hi
    rcases hb.stage with ⟨_, _, _, _, _, _, hidle, _⟩ | ⟨hlong, hmax, hmulti, hsingle⟩
    · exact absurd (hwork.symm.trans hidle) (by decide)
    rcases multi_workHandler stale o hmulti hlong hmax hwork htaking
      (fun hstate hrem error herr => nomatch (hlast hstate hrem).symm.trans herr)
      (fun hstate => (ho hstate).not_failed)
      (fun herr => List.count_eq_zero.2 fun hmem => hquiet herr _ hmem rfl) with
      ⟨hmulti', hkeeps⟩ | ⟨hcount, e, hresult, heq⟩
    · exact inv_of_run h hb (fun _ _ _ => rfl) (hkeeps.bound hb.bound) hkeeps.sent
        (.multi hlong hmax hmulti' hsingle)
    · rw [heq, SendSlot.sentCallback, hb.bound.orphaned]
      refine inv_of_free h hb (fun _ _ _ => rfl) (SendNode.not_mem_queue hsingle hcount)
        ⟨?_, hb.bound.txAddr, hb.bound.cbArg⟩ hmulti.frames.begun ?_ rfl ⟨rfl, rfl, rfl, htaking, rfl⟩
      · rcases hresult with ⟨rfl, -⟩ | ⟨-, hcalm⟩
        · exact fun _ => .inl rfl
        · exact fun htrue => absurd (hcalm.symm.trans htrue) (by decide)
      · rcases hresult with ⟨-, hcarry⟩ | ⟨hne, -⟩
        · exact fun _ => hcarry
        · rintro (hok | hdriver)
          · exact absurd (SentResult.isoTp.inj hok) hne
          · cases hdriver
  · cases hstep

theorem inv_semTaken (h : Inv c calm N) (hgood : N.Good c calm (.semTaken i stale o))
    (hstep : N.step c (.semTaken i stale o) = some N') : Inv c calm N' := by
  simp only [SendNode.step] at hstep
  split at hstep
  · rename_i hsem
    obtain ⟨htaking, hsem⟩ := hsem
    obtain rfl := Option.some.inj hstep
    obtain ⟨ho, hlast⟩ := hgood
    have hi : (N.slots i).allocated = true := by
      by_contra hne
      exact absurd (htaking.symm.trans (h.idle i (by simpa using hne)).taking) (by decide)
    obtain ⟨done, m, fs, cur, hb⟩ := h.busy hi
    rcases hb.stage with ⟨_, _, _, _, _, _, _, hidle, _⟩ | ⟨hlong, hmax, hmulti, hsingle⟩
    · exact absurd (htaking.symm.trans hidle) (by decide)
    have hmulti' := multi_semTaken stale o hmulti htaking hsem
      (fun hrem error herr => nomatch (hlast hrem).symm.trans herr) ho.not_failed
    have hkeeps := SendSlot.keeps_sendCfRound c stale o
      { N.slots i with taking := false, sem := false }
    exact inv_of_run h hb (fun _ _ _ => rfl)
      (hkeeps.bound ⟨hi, hb.bound.listed, hb.bound.orphaned, hb.bound.txAddr, hb.bound.cbArg⟩)
      hkeeps.sent (.multi hlong hmax hmulti' hsingle)
  · cases hstep

theorem inv_completed {k : ℕ} {error : ℤ} (h : Inv c calm N) (hgood : N.Good c calm (.completed k error))
    (hstep : N.step c (.completed k error) = some N') : Inv c calm N' := by
  simp only [SendNode.step] at hstep
  split at hstep
  · cases hstep
  rename_i q hk
  have herror := hgood q hk
  have hcount := SendNode.count_eraseIdx hk
  obtain ⟨i, single⟩ := q
  have hothers : ∀ j ≠ i, ∀ single, (N.queue.eraseIdx k).count ⟨j, single⟩ = N.queue.count ⟨j, single⟩ :=
    fun j hj s => by
      rw [hcount, if_neg fun heq => hj (congrArg Queued.slot heq).symm]
      rfl
  have hi : (N.slots i).allocated = true := by
    by_contra hne
    exact (h.idle i (by simpa using hne)).queue single (List.mem_of_getElem? hk)
  obtain ⟨done, m, fs, cur, hb⟩ := h.busy hi
  have htrue := hcount ⟨i, true⟩
  have hfalse := hcount ⟨i, false⟩
  cases single with
  | true =>
    obtain rfl := Option.some.inj hstep
    rcases hb.stage with ⟨f, hf, rfl, hsingle, hother, -, hwork, htaking, htimer⟩ | ⟨-, -, -, hsingle⟩
    · -- the single frame is completed
      have heq : (N.slots i).sentSingleCb error =
          { slot := { N.slots i with pendingCb := (N.slots i).pendingCb - 1 }.free
            sent := [⟨.driver error, (N.slots i).txAddr, (N.slots i).cbArg⟩] } := by
        simp [SendSlot.sentSingleCb, SendSlot.sentCallback, hb.bound.orphaned]
      simp only [heq]
      refine inv_of_free h hb hothers (SendNode.not_mem_queue ?_ ?_)
        ⟨fun hcalm => ?_, hb.bound.txAddr, hb.bound.cbArg⟩ (.single f hf) (fun _ => .single f hf) rfl
        ⟨rfl, rfl, hwork, htaking, rfl⟩
      · simp only [if_true] at htrue
        omega
      · omega
      · rw [herror (.inr hcalm)]
        exact .inr rfl
    · simp only [if_true] at htrue
      omega
  | false =>
    obtain rfl := Option.some.inj hstep
    rw [if_pos rfl] at hfalse
    rw [if_neg (by simp)] at htrue
    rcases hb.stage with ⟨-, -, -, -, hother, -⟩ | ⟨hlong, hmax, hmulti, hsingle⟩
    · omega
    · have hmulti' := multi_txCallback hmulti (by omega)
      have happly := SendNode.update_eq_apply { N with queue := N.queue.eraseIdx k } i
        (N.slots i).canTxCallback
      simp only at happly ⊢
      rw [happly]
      refine inv_of_run h hb hothers ⟨hi, hmulti'.frames.listed, hb.bound.orphaned, hb.bound.txAddr,
        hb.bound.cbArg⟩ rfl (.multi hlong hmax ?_ ?_)
      · rw [hfalse, Nat.add_sub_cancel] at hmulti'
        simp only [Option.toList_none, List.append_nil, Bool.false_eq_true, if_false, Nat.add_zero]
        exact hmulti'
      · omega

/-- A timer or a flow control frame changes the machine's part of a context. -/
theorem inv_update (h : Inv c calm N) (hb : Busy c calm N a i done m fs cur) {s : SendCtx}
    (hlong : canMaxDlen c - sfLenByte c < m.data.length) (hmax : m.data.length ≤ 4095)
    (hmulti : Multi c calm m.data s cur (N.queue.count ⟨i, false⟩)) (hsingle : N.queue.count ⟨i, true⟩ = 0) :
    Inv c calm { N with slots := update N.slots i { N.slots i with toSendCtx := s } } := by
  rw [SendNode.update_eq_apply]
  exact inv_of_run h hb (fun _ _ _ => rfl) ⟨hb.bound.allocated, hmulti.frames.listed, hb.bound.orphaned,
    hb.bound.txAddr, hb.bound.cbArg⟩ rfl (.multi hlong hmax (by simpa using hmulti) hsingle)

theorem inv_timer (h : Inv c calm N) (hgood : N.Good c calm (.timer i))
    (hstep : N.step c (.timer i) = some N') : Inv c calm N' := by
  simp only [SendNode.step] at hstep
  split at hstep
  · rename_i htimer
    obtain rfl := Option.some.inj hstep
    have hi : (N.slots i).allocated = true := by
      by_contra hne
      exact htimer (h.idle i (by simpa using hne)).timer
    obtain ⟨done, m, fs, cur, hb⟩ := h.busy hi
    rcases hb.stage with ⟨-, -, -, -, -, -, -, -, hstopped⟩ | ⟨hlong, hmax, hmulti, hsingle⟩
    · exact absurd hstopped htimer
    · exact inv_update h hb hlong hmax (multi_timeout hmulti hgood) hsingle
  · cases hstep

theorem inv_flowControl {f : CanFrame} (h : Inv c calm N) (hgood : N.Good c calm (.flowControl a f))
    (hstep : N.step c (.flowControl a f) = some N') : Inv c calm N' := by
  simp only [SendNode.step] at hstep
  split at hstep
  · obtain rfl := Option.some.inj hstep
    exact h
  · rename_i i hfind
    obtain rfl := Option.some.inj hstep
    obtain ⟨hquiet, hcalm⟩ := hgood i hfind
    obtain ⟨done, m, fs, cur, hb⟩ := h.busy (h.of_find hfind).1
    rcases hb.stage with ⟨-, -, -, hsingle, -, hff, -⟩ | ⟨hlong, hmax, hmulti, hsingle⟩
    · -- its single frame would be completed
      have hmem : ⟨i, true⟩ ∈ N.queue := List.count_pos_iff.1 (by omega)
      exact absurd rfl (hquiet (.inl hff) _ hmem)
    · refine inv_update h hb hlong hmax (multi_canRx hmulti (fun hstate hcts => ?_) hcalm) hsingle
      exact List.count_eq_zero.2 fun hmem => hquiet (.inr ⟨hstate, hcts⟩) _ hmem rfl

/-- An address with no context. -/
theorem Inv.delivered_of_find (h : Inv c calm N) (hfind : N.find a = none) :
    Delivered c calm (N.acceptedFor a) (N.callsFor a) (N.framesTo a) := by
  rcases h.addr a with ⟨-, hdone⟩ | ⟨i, done, m, fs, cur, hb⟩
  · exact hdone
  · exact absurd (hb.bound.txAddr.trans hb.addr) (h.of_find_none hfind hb.bound.allocated)

/-- A context is made for a message, and goes on with it. -/
theorem inv_of_create (single : Bool) (h : Inv c calm N) (hfind : N.find m.addr = none)
    (hblock : (N.slots i).allocated = false) (hbound : Bound r.slot m) (hsent : r.sent = [])
    (hstage : Stage c calm m.data r.slot.toSendCtx r.frame.toList (if r.outstanding ∧ single then 1 else 0)
      (if r.outstanding ∧ ¬ single then 1 else 0)) :
    Inv c calm ((N.apply i single r).accept m) := by
  have hdelivered := h.delivered_of_find hfind
  have hframes := framesTo_apply N N.queue i single r m.addr
  have hcalls := callsFor_apply N N.queue i single r m.addr
  have hcount := SendNode.queue_apply i single r N N.queue
  have hzero : ∀ single, N.queue.count ⟨i, single⟩ = 0 :=
    fun single => List.count_eq_zero.2 ((h.idle i hblock).queue single)
  rw [if_pos hbound.txAddr] at hframes
  rw [hsent, List.filter_nil, List.append_nil] at hcalls
  have he : Elsewhere N ((N.apply i single r).accept m) i m.addr :=
    elsewhere_accept (elsewhere_apply (fun _ _ _ => rfl)
      (fun hi => absurd (hblock.symm.trans hi) (by decide)) hbound.txAddr (by simp [hsent]))
  refine inv_of_elsewhere h he (fun j _ hj => h.of_find_none hfind hj) ?_ ?_
  · refine .busy i (N.acceptedFor m.addr) m (N.framesTo m.addr) r.frame.toList
      ⟨acceptedFor_accept .., hframes, ?_, rfl, ?_, ?_⟩
    · rw [callsFor_accept, hcalls]
      exact hdelivered
    · rwa [SendNode.slots_accept, SendNode.slots_apply]
    · rw [SendNode.slots_accept, SendNode.slots_apply, SendNode.queue_accept, hcount, hcount, hzero, hzero]
      cases single <;> simpa using hstage
  · rw [SendNode.slots_accept, SendNode.slots_apply, hbound.allocated]
    nofun

/-- A context is made for a message and freed again: its frame is completed at once. -/
theorem inv_of_create_free (h : Inv c calm N) (hfind : N.find m.addr = none)
    (hblock : (N.slots i).allocated = false) {s : SendSlot A β} {call : SentCall A β} {f : CanFrame}
    (haddr : s.txAddr = m.addr) (hcall : Reports calm m call) (hf : IsSingle c m.data f)
    (hslot : s.allocated = false ∧ s.listed = false ∧ s.work = false ∧ s.taking = false ∧
      s.timer = .stopped) :
    Inv c calm ((N.apply i true { slot := s, sent := [call], frame := some f }).accept m) := by
  have hdelivered := h.delivered_of_find hfind
  have hframes :=
    framesTo_apply N N.queue i true { slot := s, sent := [call], frame := some f } m.addr
  have hcalls :=
    callsFor_apply N N.queue i true { slot := s, sent := [call], frame := some f } m.addr
  rw [if_pos haddr] at hframes
  have he : Elsewhere N
      ((N.apply i true { slot := s, sent := [call], frame := some f }).accept m) i m.addr :=
    elsewhere_accept (elsewhere_apply (fun _ _ _ => rfl)
      (fun hi => absurd (hblock.symm.trans hi) (by decide)) haddr (by simpa using hcall.addr))
  obtain ⟨hfree, hlisted, hwork, htaking, htimer⟩ := hslot
  refine inv_of_elsewhere h he (fun j _ hj => h.of_find_none hfind hj) (.idle (fun j hj => ?_) ?_)
    fun _ => ?_
  · by_cases hij : j = i
    · subst hij
      rw [SendNode.slots_accept, SendNode.slots_apply, hfree] at hj
      cases hj
    · rw [he.slots j hij] at hj ⊢
      exact h.of_find_none hfind hj
  · rw [acceptedFor_accept, acceptedFor_apply N N.queue, framesTo_accept, hframes, callsFor_accept,
      hcalls]
    simpa [hcall.addr] using
      hdelivered.append m call [f] hcall (.single f hf) fun _ => .single f hf
  · refine ⟨?_, ?_, ?_, ?_, (h.idle i hblock).queue⟩ <;>
      rwa [SendNode.slots_accept, SendNode.slots_apply]

/-- A context is made for a message and freed again: its frame is not queued. -/
theorem inv_of_create_failed (h : Inv c calm N) (hfind : N.find a = none)
    (hblock : (N.slots i).allocated = false) {s : SendSlot A β} (haddr : s.txAddr = a)
    (hslot : s.allocated = false ∧ s.listed = false ∧ s.work = false ∧ s.taking = false ∧
      s.timer = .stopped) :
    Inv c calm (N.apply i true { slot := s }) := by
  have hdelivered := h.delivered_of_find hfind
  have hframes := framesTo_apply N N.queue i true { slot := s } a
  have hcalls := callsFor_apply N N.queue i true { slot := s } a
  rw [if_pos haddr] at hframes
  have he : Elsewhere N (N.apply i true { slot := s }) i a :=
    elsewhere_apply (fun _ _ _ => rfl) (fun hi => absurd (hblock.symm.trans hi) (by decide)) haddr
      (by simp)
  obtain ⟨hfree, hlisted, hwork, htaking, htimer⟩ := hslot
  refine inv_of_elsewhere h he (fun j _ hj => h.of_find_none hfind hj) (.idle (fun j hj => ?_) ?_)
    fun _ => ?_
  · by_cases hij : j = i
    · subst hij
      rw [SendNode.slots_apply, hfree] at hj
      cases hj
    · rw [he.slots j hij] at hj ⊢
      exact h.of_find_none hfind hj
  · rw [acceptedFor_apply N N.queue, hframes, hcalls]
    simpa using hdelivered
  · refine ⟨?_, ?_, ?_, ?_, (h.idle i hblock).queue⟩ <;> rwa [SendNode.slots_apply]

theorem inv_fastSend {block : Fin n} (h : Inv c calm N) (hgood : N.Good c calm (.send m block stale o))
    (hstep : N.step c (.send m block stale o) = some N') : Inv c calm N' := by
  obtain ⟨hfind, ho⟩ := hgood
  simp only [SendNode.step, SendNode.fastSend, SendNode.getSendCtx, hfind] at hstep
  split at hstep
  · rename_i hlen
    split at hstep
    · obtain rfl := Option.some.inj hstep
      exact h
    split at hstep
    · cases hstep
    rename_i hblock
    rw [Bool.not_eq_true] at hblock
    have hstep := Option.some.inj hstep
    cases o with
    | queued =>
      obtain rfl := hstep
      refine inv_of_create _ h hfind hblock ⟨rfl, rfl, rfl, rfl, rfl⟩ rfl ?_
      exact .single _ (isSingle_sf hlen) rfl rfl rfl rfl rfl rfl rfl
    | completed error =>
      obtain rfl := hstep
      refine inv_of_create_free h hfind hblock rfl ⟨fun hcalm => ?_, rfl, rfl⟩ (isSingle_sf hlen)
        ⟨rfl, rfl, rfl, rfl, rfl⟩
      exact .inr (congrArg SentResult.driver (ho hcalm))
    | failed eagain =>
      obtain rfl := hstep
      exact inv_of_create_failed h hfind hblock rfl ⟨rfl, rfl, rfl, rfl, rfl⟩
  split at hstep
  · obtain rfl := Option.some.inj hstep
    exact h
  · rename_i hlong hmax
    split at hstep
    · obtain rfl := Option.some.inj hstep
      exact h
    split at hstep
    · cases hstep
    rename_i hblock
    rw [Bool.not_eq_true] at hblock
    obtain rfl := Option.some.inj hstep
    have hrem : m.data.length % 4096 = m.data.length := Nat.mod_eq_of_lt (by rw [maxLen] at hmax; omega)
    have hmulti : Multi c calm m.data
        (((N.slots block).create c m.addr).sendLong m.data m.arg).toSendCtx [] 0 :=
      ⟨⟨[], 0, rfl, counted_start (N.slots block) m.addr m.data m.arg⟩,
        .start rfl rfl hrem rfl, rfl, nofun⟩
    have hcreate := inv_of_create false (i := block) (m := m)
      (r := { slot := ((N.slots block).create c m.addr).sendLong m.data m.arg }) h hfind hblock
      ⟨rfl, rfl, rfl, rfl, rfl⟩ rfl (.multi (by omega) (by rw [maxLen] at hmax; omega) hmulti rfl)
    rwa [← SendNode.update_eq_apply] at hcreate

/-- What a good event preserves. -/
theorem inv_step {e : SendEvent n A β} (h : Inv c calm N) (hgood : N.Good c calm e)
    (hstep : N.step c e = some N') : Inv c calm N' := by
  cases e with
  | send m block stale o => exact inv_fastSend h hgood hstep
  | work i stale o => exact inv_work h hgood hstep
  | semTaken i stale o => exact inv_semTaken h hgood hstep
  | completed k error => exact inv_completed h hgood hstep
  | timer i => exact inv_timer h hgood hstep
  | flowControl addr f => exact inv_flowControl h hgood hstep
  | unbind i => exact hgood.elim

/-! ## Runs -/

theorem Stage.begun {msg : Bytes} {s : SendCtx} {p q : ℕ} (h : Stage c calm msg s cur p q) :
    Begun c msg cur := by
  rcases h with ⟨f, hf, rfl, -⟩ | ⟨-, -, hmulti, -⟩
  · exact .single f hf
  · exact hmulti.frames.begun

/-- A context that is sending has something left to do. -/
theorem not_settled (hb : Busy c calm N a i done m fs cur) : ¬ N.Settled := by
  rintro ⟨hqueue, hwork, htimer, hsem⟩
  have hcount : ∀ single, N.queue.count ⟨i, single⟩ = 0 := fun single => by simp [hqueue]
  rcases hb.stage with ⟨-, -, -, hsingle, -⟩ | ⟨-, -, ⟨⟨outstanding, cts, hlength, hcounted⟩, -, hlive, -⟩, -⟩
  · exact absurd (hsingle.symm.trans (hcount true)) (by decide)
  · rw [hcount false] at hlive hlength
    have hwork := hwork i
    have htimer := htimer i
    have hsem := hsem i
    rw [Live] at hlive
    rcases hstate : (N.slots i).state with _ | _ | _ | _ | _ | _ | _ | _ <;> simp only [hstate] at hlive
    · simp [hwork] at hlive
    · simp [htimer] at hlive
    · rcases hlive.2 with ⟨-, h | h⟩ | ⟨htaking, h | h⟩
      · simp [hwork] at h
      · simp [htimer] at h
      · simp [hsem htaking] at h
      · omega
    · rcases hlive.2 with h | h
      · simp [hwork] at h
      · omega
    · exact (hcounted.waitBacklog hstate).1 (List.eq_nil_of_length_eq_zero hlength)
    · simp [hwork] at hlive
    · rcases hlive.2.2 with ⟨-, h⟩ | ⟨htaking, -, h | h⟩
      · simp [hwork] at h
      · simp [hsem htaking] at h
      · omega

/-- **In a run of good events the messages to an address are sent one after the other. Each is reported
once, with its argument, and the frames carry those that are reported as sent, which are all if the
run is calm. The last may still be under way, with the frames that it has sent; when nothing is left
to do, it is not.** -/
theorem reported_of_good {N₀ : SendNode n A β} {es : List (SendEvent n A β)} (hinit : N₀.Init)
    (hgood : Meets (SendNode.step c) (SendNode.Good c calm) N₀ es)
    (hrun : runFrom (SendNode.step c) N₀ es = some N) (a : A) :
    ∃ done last fs cur, N.acceptedFor a = done ++ last.toList ∧ N.framesTo a = fs ++ cur ∧
      Delivered c calm done (N.callsFor a) fs ∧
      (last = none → cur = []) ∧ (∀ m ∈ last, Begun c m.data cur) ∧ (N.Settled → last = none) := by
  have h : Inv c calm N := runFrom_invariant_of_meets
    (fun _ _ _ h hgood hstep => inv_step h hgood hstep) (inv_of_init hinit) hgood hrun
  rcases h.addr a with ⟨-, hdone⟩ | ⟨i, done, m, fs, cur, hb⟩
  · exact ⟨_, none, _, [], (List.append_nil _).symm, (List.append_nil _).symm, hdone, fun _ => rfl,
      nofun, fun _ => rfl⟩
  · refine ⟨done, some m, fs, cur, hb.accepted, hb.frames, hb.delivered, nofun, ?_,
      fun hsettled => absurd hsettled (not_settled hb)⟩
    intro m' hm'
    obtain rfl := Option.mem_some_iff.1 hm'
    exact hb.stage.begun

/-! ## Two messages to one recipient -/

/-- A slab of one block. -/
def oneBlock : SendNode 1 Unit Bool where
  slots _ := { zeroedSendSlot with cbArg := none, listed := false }

/-- Two messages to the same recipient. -/
def firstMessage : Outgoing Unit Bool := ⟨(), [0, 1, 2, 3, 4, 5, 6, 7], some false⟩
def secondMessage : Outgoing Unit Bool := ⟨(), [8, 9, 10, 11, 12, 13, 14, 15], some true⟩

/-- The transmission of the message that the block has. -/
def transmission : List (SendEvent 1 Unit Bool) :=
  [.work ⟨0, Nat.one_pos⟩ [] .queued, .completed 0 0, .flowControl () clearToSend,
    .work ⟨0, Nat.one_pos⟩ [] .queued, .completed 0 0, .work ⟨0, Nat.one_pos⟩ [] .queued]

theorem oneBlock_init : oneBlock.Init := ⟨fun _ => ⟨rfl, rfl, rfl, rfl, rfl⟩, rfl, rfl, rfl, rfl⟩

/-- The second message is sent when the first one was. -/
theorem oneBlock_reported :
    ∃ N ∈ runFrom (SendNode.step classicalCan) oneBlock
        (.send firstMessage 0 [] .queued :: transmission ++
          .send secondMessage 0 [] .queued :: transmission),
      N.Settled ∧ List.Forall₂ (Reports true) [firstMessage, secondMessage] (N.callsFor ()) := by
  have hgood : Meets (SendNode.step classicalCan) (SendNode.Good classicalCan true) oneBlock
      (.send firstMessage 0 [] .queued :: transmission ++
        .send secondMessage 0 [] .queued :: transmission) := by
    decide +kernel
  obtain ⟨N, hrun, hsettled, haccepted⟩ : ∃ N ∈ runFrom (SendNode.step classicalCan) oneBlock
      (.send firstMessage 0 [] .queued :: transmission ++
        .send secondMessage 0 [] .queued :: transmission),
      N.Settled ∧ N.acceptedFor () = [firstMessage, secondMessage] := by
    decide +kernel
  refine ⟨N, hrun, hsettled, ?_⟩
  obtain ⟨done, last, fs, cur, hdone, -, hdelivered, -, -, hlast⟩ :=
    reported_of_good oneBlock_init hgood hrun ()
  obtain rfl := hlast hsettled
  rw [haccepted, Option.toList_none, List.append_nil] at hdone
  exact hdone ▸ hdelivered.forall₂

/-- The second message is sent before the work item of the first has run: both calls return 0, and
the first message is neither transmitted nor reported. -/
theorem oneBlock_lost :
    ∃ N ∈ runFrom (SendNode.step classicalCan) oneBlock
        (.send firstMessage 0 [] .queued :: .send secondMessage 0 [] .queued :: transmission),
      N.Settled ∧ N.acceptedFor () = [firstMessage, secondMessage] ∧
        N.callsFor () = [⟨.isoTp .ok, (), some true⟩] ∧
        (N.framesTo ()).map (·.data) = [[0x10, 8, 8, 9, 10, 11, 12, 13], [0x21, 14, 15]] := by
  decide +kernel

end ThingSet.IsoTp
