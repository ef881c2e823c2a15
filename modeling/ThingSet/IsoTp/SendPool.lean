import ThingSet.IsoTp.SendContext
import Mathlib.Data.List.FinRange
import Mathlib.Data.List.Perm.Basic
import Mathlib.Logic.Function.Basic

/-!
# The slab of send contexts

The send contexts of one bound context: the blocks of the slab, the frames that are queued and not
completed, with the callbacks they hold, and what the driver and the application have seen. A call
of `isotp_fast_send` looks for a context of the recipient and creates one if there is none.

At most one context in the list has a given address (`SendNode.Unique`), so it does not matter in
which order the list is searched. Which free block the slab yields is left open.
-/

namespace ThingSet.IsoTp

open Function

/-- A frame that is queued: the context in the argument of its callback, and whether the callback is
`isotp_fast_sent_single_cb`. -/
structure Queued (n : ℕ) where
  slot : Fin n
  single : Bool
  deriving DecidableEq, Repr

/-- A message that `isotp_fast_send` was called with. -/
structure Outgoing (A β : Type) where
  addr : A
  data : Bytes
  arg : Option β
  deriving DecidableEq, Repr

/-- The slab of `n` send contexts, the queue of the driver, the frames that were queued and where
to, the calls of `sent_callback`, and the messages whose calls returned 0. -/
structure SendNode (n : ℕ) (A β : Type) where
  slots : Fin n → SendSlot A β
  queue : List (Queued n) := []
  bus : List (A × CanFrame) := []
  sent : List (SentCall A β) := []
  accepted : List (Outgoing A β) := []

/-- What can happen on the sending side. A call of `isotp_fast_send` comes with the block that the
slab yields if it is asked; `completed` is the completion of one of the queued frames, and
`flowControl` a flow control frame from the node with that address. -/
inductive SendEvent (n : ℕ) (A β : Type)
  | send (m : Outgoing A β) (block : Fin n) (stale : Bytes) (o : CanSend)
  | work (i : Fin n) (stale : Bytes) (o : CanSend)
  | semTaken (i : Fin n) (stale : Bytes) (o : CanSend)
  | completed (k : ℕ) (error : ℤ)
  | timer (i : Fin n)
  | flowControl (addr : A) (f : CanFrame)
  | unbind (i : Fin n)

namespace SendNode

variable {n : ℕ} {A β : Type}

section Functions

variable [DecidableEq A] (c : IsoTpConfig)

/-- The context is in the list of the bound context. -/
def Listed (N : SendNode n A β) (i : Fin n) : Prop :=
  (N.slots i).listed = true ∧ (N.slots i).orphaned = false

instance (N : SendNode n A β) (i : Fin n) : Decidable (N.Listed i) := instDecidableAnd

/-- The context of a recipient in the list. -/
def find (N : SendNode n A β) (addr : A) : Option (Fin n) :=
  (List.finRange n).find? fun i => N.Listed i ∧ (N.slots i).txAddr = addr

/-- A function has run on a context. -/
def apply (N : SendNode n A β) (i : Fin n) (single : Bool) (r : SendRun A β) : SendNode n A β :=
  { N with
    slots := update N.slots i r.slot
    queue := if r.outstanding then N.queue ++ [⟨i, single⟩] else N.queue
    bus := N.bus ++ r.frame.toList.map fun f => (r.slot.txAddr, f)
    sent := N.sent ++ r.sent }

/-- A call of `isotp_fast_send` returns 0. -/
def accept (N : SendNode n A β) (m : Outgoing A β) : SendNode n A β :=
  { N with accepted := N.accepted ++ [m] }

/-- `get_send_ctx` that creates: the context, or nothing when no block is left. A block that is not
free cannot be yielded. -/
def getSendCtx (N : SendNode n A β) (addr : A) (block : Fin n) :
    Option (Option (Fin n × SendSlot A β)) :=
  match N.find addr with
  | some i => some (some (i, N.slots i))
  | none =>
    if ∀ i, (N.slots i).allocated = true then some none
    else if (N.slots block).allocated = true then none
    else some (some (block, (N.slots block).create c addr))

/-- `isotp_fast_send`. -/
def fastSend (m : Outgoing A β) (block : Fin n) (stale : Bytes) (o : CanSend) (N : SendNode n A β) :
    Option (SendNode n A β) :=
  if m.data.length ≤ canMaxDlen c - sfLenByte c then
    (N.getSendCtx c m.addr block).map fun
      | none => N
      | some (i, s) =>
        let (ok, r) := s.sendSingle c stale o m.data m.arg
        if ok then (N.apply i true r).accept m else N.apply i true r
  else if m.data.length > maxLen then some N
  else
    (N.getSendCtx c m.addr block).map fun
      | none => N
      | some (i, s) =>
        { N with slots := update N.slots i (s.sendLong m.data m.arg) }.accept m

/-- The node after an event, if it can happen. The work item of a context does not run while it
waits in `k_sem_take`, and `isotp_fast_unbind` waits for a work item that runs. -/
def step (N : SendNode n A β) : SendEvent n A β → Option (SendNode n A β)
  | .send m block stale o => N.fastSend c m block stale o
  | .work i stale o =>
    if (N.slots i).work ∧ ¬ (N.slots i).taking then
      some (N.apply i false ((N.slots i).workHandler c stale o))
    else none
  | .semTaken i stale o =>
    if (N.slots i).taking ∧ (N.slots i).sem then
      some (N.apply i false ((N.slots i).semTaken c stale o))
    else none
  | .completed k error =>
    match N.queue[k]? with
    | none => none
    | some q =>
      let N := { N with queue := N.queue.eraseIdx k }
      if q.single then some (N.apply q.slot true ((N.slots q.slot).sentSingleCb error))
      else some { N with slots := update N.slots q.slot (N.slots q.slot).canTxCallback }
  | .timer i =>
    if (N.slots i).timer ≠ .stopped then
      let s := { N.slots i with toSendCtx := (N.slots i).toSendCtx.timeout }
      some { N with slots := update N.slots i s }
    else none
  | .flowControl addr f =>
    match N.find addr with
    | none => some N
    | some i =>
      let s := { N.slots i with toSendCtx := (N.slots i).toSendCtx.canRx c f }
      some { N with slots := update N.slots i s }
  | .unbind i =>
    if N.Listed i ∧ ¬ (N.slots i).taking then some (N.apply i false (N.slots i).unbind) else none

/-- After a reset no block is allocated, and no work item or timer is active. What is in the blocks
is not initialised. -/
structure Init (N : SendNode n A β) : Prop where
  slots : ∀ i, (N.slots i).allocated = false ∧ (N.slots i).listed = false ∧
    (N.slots i).work = false ∧ (N.slots i).taking = false ∧ (N.slots i).timer = .stopped
  queue : N.queue = []
  bus : N.bus = []
  sent : N.sent = []
  accepted : N.accepted = []

end Functions

/-! ## What a step changes -/

variable {N : SendNode n A β} {i : Fin n} {single : Bool} {r : SendRun A β}

theorem slots_apply (N : SendNode n A β) (i : Fin n) (single : Bool) (r : SendRun A β) :
    (N.apply i single r).slots i = r.slot := by
  simp only [apply, update_self]

theorem slots_accept (N : SendNode n A β) (m : Outgoing A β) : (N.accept m).slots = N.slots := rfl

theorem queue_accept (N : SendNode n A β) (m : Outgoing A β) : (N.accept m).queue = N.queue := rfl

theorem queue_apply (i : Fin n) (single : Bool) (r : SendRun A β) (N : SendNode n A β) (queue : List (Queued n)) (q : Queued n) :
    ({ N with queue := queue }.apply i single r).queue.count q =
      queue.count q + if r.outstanding ∧ q = ⟨i, single⟩ then 1 else 0 := by
  simp only [apply]
  by_cases h : r.outstanding = true
  · rw [if_pos h, List.count_append, List.count_singleton]
    by_cases hq : q = ⟨i, single⟩
    · simp [h, hq]
    · rw [if_neg fun heq => hq (eq_of_beq heq).symm, if_neg fun hand => hq hand.2]
  · rw [if_neg h, if_neg fun hand => h hand.1]
    rfl

theorem update_eq_apply (N : SendNode n A β) (i : Fin n) (s : SendSlot A β) :
    { N with slots := update N.slots i s } = N.apply i false { slot := s } := by
  simp [apply]

/-- Nothing is queued for a context whose counts are zero. -/
theorem not_mem_queue {queue : List (Queued n)} (hsingle : queue.count ⟨i, true⟩ = 0)
    (hother : queue.count ⟨i, false⟩ = 0) : ∀ single, ⟨i, single⟩ ∉ queue := by
  intro single
  cases single with
  | false => exact List.count_eq_zero.1 hother
  | true => exact List.count_eq_zero.1 hsingle

/-- What is queued for a context when one of the frames is completed. -/
theorem count_eraseIdx {k : ℕ} {q : Queued n} (hk : N.queue[k]? = some q) (q' : Queued n) :
    N.queue.count q' = (N.queue.eraseIdx k).count q' + if q = q' then 1 else 0 := by
  obtain ⟨hlt, hq⟩ := List.getElem?_eq_some_iff.1 hk
  have hperm := List.getElem_cons_eraseIdx_perm hlt
  rw [← hperm.count_eq, hq, List.count_cons]
  simp

end SendNode

end ThingSet.IsoTp
