import ThingSet.IsoTp.RecvContext
import ThingSet.IsoTp.SendPool

/-!
# The slab of receive contexts

The receive contexts of one bound context: the blocks of the slab, the readers that wait, the flow
control frames that are queued and not completed, and what the driver and the application have seen. A
frame looks for a context of its sender; a first or a single frame makes one if there is none, before
anything else of the frame is looked at.

Readers do not go on: what `isotp_fast_recv` does with a context that it was given is left out.
-/

namespace ThingSet.IsoTp

open Function

/-- The slab of `n` receive contexts, the readers, the contexts of the frames in the driver's queue,
those frames, the calls of `recv_callback` and `recv_error_callback`, the copies from frames, and the
number of frames that were refused for lack of a context. -/
structure RecvNode (n : ℕ) (A : Type) where
  slots : Fin n → RecvSlot A
  awaiters : List (Awaiter (Fin n) A) := []
  queue : List (Fin n) := []
  fcs : List CanFrame := []
  calls : List (RecvCall A) := []
  errors : List Error := []
  copies : List Copy := []
  refused : ℕ := 0

/-- What can happen on the receiving side. A frame comes with the block that the slab yields if it is
asked, and whether there is a buffer for it; a work item comes with the outcomes of `can_send`.
`unbindReader` and `unbind` are what `isotp_fast_unbind` does with a reader and with a context. -/
inductive RecvEvent (n : ℕ) (A : Type)
  | frame (addr : A) (f : CanFrame) (block : Fin n) (buffer : Bool)
  | work (i : Fin n) (o : ℕ → CanSend)
  | completed (k : ℕ) (error : ℤ)
  | timer (i : Fin n)
  | unbindReader
  | unbind (i : Fin n)

namespace RecvNode

variable {n : ℕ} {A : Type}

/-- A frame is processed with a context. -/
def canRx (c : RecvConfig) (N : RecvNode n A) (i : Fin n) (s : RecvSlot A) (f : CanFrame) :
    RecvNode n A :=
  let (s, copy) := s.canRx c f
  { N with slots := update N.slots i s, copies := N.copies ++ copy.toList }

/-- The state machine has run on a context. -/
def apply (N : RecvNode n A) (i : Fin n) (r : RecvRun (Fin n) A) : RecvNode n A :=
  { N with
    slots := update N.slots i r.slot
    awaiters := r.awaiters
    queue := N.queue ++ List.replicate r.outstanding i
    fcs := N.fcs ++ r.fcs
    calls := N.calls ++ r.calls
    errors := N.errors ++ r.errors }

/-- After a reset no block is allocated. Any readers may wait; none has a context. -/
structure Init (N : RecvNode n A) : Prop where
  slots : ∀ i, (N.slots i).allocated = false ∧ (N.slots i).work = false ∧ (N.slots i).timer = false ∧
    (N.slots i).pending = false
  awaiters : ∀ a ∈ N.awaiters, a.rctx = none
  queue : N.queue = []
  calls : N.calls = []
  copies : N.copies = []
  refused : N.refused = 0

variable [DecidableEq A]

/-- The context of a sender in the list. -/
def find (N : RecvNode n A) (addr : A) : Option (Fin n) :=
  (List.finRange n).find? fun i => (N.slots i).Listed ∧ (N.slots i).rxAddr = addr

/-- The context that a frame finds, or the one that is created for it. -/
def context (N : RecvNode n A) (addr : A) (block : Fin n) : RecvSlot A :=
  match N.find addr with
  | some i => N.slots i
  | none => (N.slots block).create addr

/-- `receive_can_rx`. A block that is not free cannot be yielded. -/
def receiveCanRx (c : RecvConfig) (addr : A) (f : CanFrame) (block : Fin n) (buffer : Bool)
    (N : RecvNode n A) : Option (RecvNode n A) :=
  let createContext := pciType (f.byte 0) = typeFf ∨ pciType (f.byte 0) = typeSf
  match N.find addr with
  | some i =>
    if buffer then some (N.canRx c i (N.slots i) f)
    else some { N with slots := update N.slots i (N.slots i).free }
  | none =>
    if ¬ createContext then some N
    else if ∀ i, (N.slots i).allocated = true then some { N with refused := N.refused + 1 }
    else if (N.slots block).allocated = true then none
    else if ¬ buffer then some N
    else some (N.canRx c block ((N.slots block).create addr) f)

/-- The node after an event, if it can happen. -/
def step (c : RecvConfig) (N : RecvNode n A) : RecvEvent n A → Option (RecvNode n A)
  | .frame addr f block buffer => N.receiveCanRx c addr f block buffer
  | .work i o =>
    if (N.slots i).work then
      some (N.apply i ({ N.slots i with work := false }.receiveStateMachine c o i N.awaiters))
    else none
  | .completed k error =>
    match N.queue[k]? with
    | none => none
    | some i =>
      some { N with
        queue := N.queue.eraseIdx k
        slots := update N.slots i ((N.slots i).canTx error) }
  | .timer i =>
    if (N.slots i).timer then some { N with slots := update N.slots i (N.slots i).timeout } else none
  | .unbindReader =>
    match N.awaiters with
    | [] => none
    | a :: as =>
      match a.rctx with
      | none => some { N with awaiters := as }
      | some i => some { N with awaiters := as, slots := update N.slots i (N.slots i).free }
  | .unbind i =>
    if (N.slots i).Listed then some { N with slots := update N.slots i (N.slots i).unbind } else none

theorem find_spec {N : RecvNode n A} {addr : A} {i : Fin n} (h : N.find addr = some i) :
    (N.slots i).Listed ∧ (N.slots i).rxAddr = addr := by
  rw [find] at h
  simpa using List.find?_some h

end RecvNode

end ThingSet.IsoTp
