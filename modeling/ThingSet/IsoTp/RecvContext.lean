import ThingSet.IsoTp.SendContext

/-!
# Receive contexts

The functions of `isotp_fast.c` that receive, on a context of the slab, in every configuration and for
every outcome of `can_send`. Where the driver takes the frames, no reader waits and whole messages are
dispatched, they do what the functions of `ThingSet.IsoTp.Basic` do.

A run of `receive_state_machine` (`RecvRun`) may free the context and go on; it records how often it
frees it and what it does with the memory afterwards.
-/

namespace ThingSet.IsoTp

/-- The configuration of a receiver: `CONFIG_ISOTP_FAST_PER_FRAME_DISPATCH` and
`CONFIG_ISOTP_FAST_BLOCKING_RECEIVE`. -/
structure RecvConfig extends IsoTpConfig where
  perFrameDispatch : Bool
  blockingReceive : Bool

/-- `ISOTP_FAST_RECEIVE_QUEUE`. -/
def RecvConfig.receiveQueue (c : RecvConfig) : Bool := c.perFrameDispatch || c.blockingReceive

/-- A fragment in the queue of a context, with the remaining length in its user data. -/
structure Fragment where
  data : Bytes
  remLen : ℕ
  deriving DecidableEq, Repr

/-- A block of the slab of receive contexts and what is in it; `orphaned` is set when the context is
bound to `orphanage`. `buffer` has the bytes of all fragments. What the last single or first frame has
declared, and the number of bytes dispatched since, are not in the source. -/
structure RecvSlot (A : Type) extends RecvCtx where
  rxAddr : A
  timer : Bool
  recvQueue : List Fragment
  pending : Bool
  pendingCb : ℤ
  orphaned : Bool
  allocated : Bool
  declared : ℕ
  dispatched : ℕ
  deriving DecidableEq, Repr

/-- The context is in the list of the bound context. -/
def RecvSlot.Listed {A : Type} (s : RecvSlot A) : Prop := s.allocated = true ∧ s.orphaned = false

instance {A : Type} (s : RecvSlot A) : Decidable s.Listed := instDecidableAnd

/-- `struct isotp_fast_recv_await_ctx`: the senders that match its filter, whether its semaphore is
given, and its context. -/
structure Awaiter (ι A : Type) where
  sender : A → Bool
  sem : Bool := false
  rctx : Option ι := none

/-- A call of `recv_callback`. What was declared and how much of it was dispatched before are not
arguments of it. -/
structure RecvCall (A : Type) where
  data : Bytes
  remLen : ℕ
  addr : A
  declared : ℕ
  before : ℕ
  deriving DecidableEq, Repr

/-- A copy from a frame: the remaining length before it, where the bytes are in the frame, and how many
bytes the frame has. -/
structure Copy where
  remLen : ℕ
  index : ℕ
  len : ℕ
  available : ℕ
  deriving DecidableEq, Repr

/-! ## Frames -/

namespace RecvSlot

variable {A : Type} (c : RecvConfig) (s : RecvSlot A) (f : CanFrame)

/-- `net_buf_add_mem`, and the fragment in the queue. A fragment that finds the queue full is lost. -/
def add (index len : ℕ) : RecvSlot A × Option Copy :=
  let r := s.toRecvCtx.add f index len
  ({ s with
    toRecvCtx := r
    recvQueue :=
      if c.receiveQueue ∧ s.recvQueue.length < c.rxMaxPacketCount then
        s.recvQueue ++ [⟨(f.data.drop index).take len, r.remLen⟩]
      else s.recvQueue },
    some ⟨s.remLen, index, len, c.dlcToBytes f.dlc⟩)

/-- `opts->bs` of the context that it is bound to. -/
def optsBs : UInt8 := if s.orphaned then 0 else c.bs

/-- `receive_report_error`. -/
def reportError (err : Error) : RecvSlot A := { s with toRecvCtx := s.toRecvCtx.reportError err }

/-- `process_ff_sf`. -/
def processFfSf : RecvSlot A × Option Copy :=
  if pciType (f.byte 0) = typeFf then
    if f.dlc ≠ c.ffDlMin then (s, none)
    else
      { s with
        remLen := ffLength f % 4096
        state := .processFf
        snExpected := 1
        declared := ffLength f
        dispatched := 0 }.add c f 2 (canMaxDlen c.toIsoTpConfig - 2)
  else if pciType (f.byte 0) = typeSf then
    let (len, index) := sfLength c.toIsoTpConfig f
    let s := { s with remLen := len, declared := len, dispatched := 0 }
    let payloadLen := min len (canMaxDlen c.toIsoTpConfig - index)
    if payloadLen > c.dlcToBytes f.dlc then (s, none)
    else { s with state := .processSf }.add c f index payloadLen
  else ({ s.reportError .unexpPdu with work := true }, none)

/-- `process_cf`. -/
def processCf : RecvSlot A × Option Copy :=
  if pciType (f.byte 0) ≠ typeCf then ({ s.reportError .unexpPdu with work := true }, none)
  else
    let expected := s.snExpected
    let s := { s with timer := true, snExpected := (s.snExpected + 1) % 16 }
    if (f.byte 0 &&& 0x0F).toNat ≠ expected then ({ s.reportError .wrongSn with work := true }, none)
    else
      let (s, copy) := s.add c f 1 (toUint32 (min (s.remLen : ℤ) (c.dlcToBytes f.dlc - 1)))
      if s.remLen = 0 then ({ s with state := .recycle, work := true }, copy)
      else if c.bs ≠ 0 then
        let s := { s with bs := s.bs - 1 }
        if s.bs = 0 then ({ s with bs := c.bs, state := .tryAlloc }, copy) else (s, copy)
      else (s, copy)

/-- `receive_can_rx` with the context. -/
def canRx : RecvSlot A × Option Copy :=
  match s.state with
  | .waitFfSf =>
    let (s, copy) := s.processFfSf c f
    ({ s with work := true }, copy)
  | .waitCf =>
    let (s, copy) := s.processCf c f
    if s.state = .waitCf then (s, copy) else ({ s with work := true }, copy)
  | _ => ({ s with work := true }, none)

/-- `get_recv_ctx`: a context is created in a block. `pending` is not initialised. -/
def create (addr : A) : RecvSlot A :=
  { s with
    buffer := []
    state := .waitFfSf
    rxAddr := addr
    error := .ok
    pendingCb := 0
    recvQueue := []
    work := false
    timer := false
    orphaned := false
    allocated := true }

/-- `free_recv_ctx`. -/
def free : RecvSlot A := { s with timer := false, recvQueue := [], allocated := false }

/-- `receive_can_tx`. -/
def canTx (error : ℤ) : RecvSlot A :=
  let s := { s with pendingCb := s.pendingCb - 1 }
  if error ≠ 0 then { s.reportError .error with work := true } else s

/-- `receive_timeout_handler`. -/
def timeout : RecvSlot A :=
  let s := { s with timer := false }
  let s :=
    match s.state with
    | .waitCf => s.reportError .timeoutCr
    | .tryAlloc => { s with state := .sendWait }
    | _ => s
  { s with work := true }

/-- What `isotp_fast_unbind` does with a context of the list. -/
def unbind : RecvSlot A :=
  let s := { s with timer := false, work := false }
  if s.pendingCb = 0 then s.free else { s with state := .unbound, orphaned := true }

end RecvSlot

/-! ## The state machine -/

/-- What a run does with the memory of a context. -/
inductive Access
  | read
  | write
  | startTimer
  | free
  deriving DecidableEq, Repr

/-- A run of `receive_state_machine` so far: the context, the waiting readers, the number of calls of
`can_send`, the flow control frames that were queued and how many of them are not completed, the calls
of `recv_callback` and `recv_error_callback`, how often the context was freed, and what was done with
it after that. -/
structure RecvRun (ι A : Type) where
  slot : RecvSlot A
  awaiters : List (Awaiter ι A)
  sends : ℕ := 0
  fcs : List CanFrame := []
  outstanding : ℕ := 0
  calls : List (RecvCall A) := []
  errors : List Error := []
  frees : ℕ := 0
  after : List Access := []

/-- The first reader that waits for the sender gets the context and its semaphore; whether it had that
already. -/
def notifyFirst {ι A : Type} (i : ι) (addr : A) : List (Awaiter ι A) → Option (List (Awaiter ι A) × Bool)
  | [] => none
  | a :: as =>
    if a.sender addr then some ({ a with sem := true, rctx := some i } :: as, a.sem)
    else (notifyFirst i addr as).map fun (as, sem) => (a :: as, sem)

/-- The calls of `recv_callback` for the fragments of a queue. -/
def dispatch {A : Type} (addr : A) (declared : ℕ) : ℕ → List Fragment → List (RecvCall A)
  | _, [] => []
  | before, frag :: frags =>
    ⟨frag.data, frag.remLen, addr, declared, before⟩ ::
      dispatch addr declared (before + frag.data.length) frags

namespace RecvRun

variable {ι A : Type} (c : RecvConfig) (o : ℕ → CanSend) (i : ι) (again : RecvRun ι A → RecvRun ι A)
  (r : RecvRun ι A)

/-- The memory of the context is accessed. -/
def touch (accesses : List Access) : RecvRun ι A :=
  if r.frees = 0 then r else { r with after := r.after ++ accesses }

/-- The context after some of its fields are read and written. -/
def modify (f : RecvSlot A → RecvSlot A) : RecvRun ι A :=
  { r.touch [.read, .write] with slot := f r.slot }

/-- `k_timer_start`. -/
def startTimer : RecvRun ι A :=
  { r.touch [.startTimer] with slot := { r.slot with timer := true } }

/-- `free_recv_ctx`. -/
def free : RecvRun ι A :=
  { r.touch [.free] with slot := r.slot.free, frees := r.frees + 1 }

/-- `free_recv_ctx_if_unowned`. -/
def freeIfUnowned : RecvRun ι A :=
  if c.receiveQueue ∧ r.slot.pending then r.touch [.read] else r.free

/-- `notify_waiting_receiver`. The list of `orphanage` is empty. -/
def notifyWaitingReceiver : RecvRun ι A :=
  if c.blockingReceive ∧ ¬ r.slot.orphaned then
    match notifyFirst i r.slot.rxAddr r.awaiters with
    | none => r.touch [.read]
    | some (awaiters, sem) =>
      let r := r.modify fun s =>
        { s with
          pending := true
          recvQueue := if sem ∧ s.error ≠ .ok then [] else s.recvQueue }
      { r with awaiters := awaiters }
  else r

/-- The loop before the states, in which the fragments in the queue are dispatched. -/
def dispatchQueue : RecvRun ι A :=
  if c.perFrameDispatch then
    let s := r.slot
    let calls := if s.orphaned then [] else dispatch s.rxAddr s.declared s.dispatched s.recvQueue
    let r := r.modify fun s =>
      { s with
        recvQueue := []
        dispatched := s.dispatched + (s.recvQueue.map (·.data.length)).sum }
    { r with calls := r.calls ++ calls }
  else r

/-- `receive_send_fc`. If the frame is not queued, the state machine runs again. -/
def receiveSendFc (fs : UInt8) : RecvRun ι A :=
  let opts := if r.slot.orphaned then { c.toIsoTpConfig with bs := 0, stmin := 0 } else c.toIsoTpConfig
  let frame := sendFc opts fs
  let n := r.sends
  let r := { r with sends := n + 1 }.modify fun s => { s with pendingCb := s.pendingCb + 1 }
  match o n with
  | .queued => { r with fcs := r.fcs ++ [frame], outstanding := r.outstanding + 1 }
  | .completed error => { r.modify fun s => s.canTx error with fcs := r.fcs ++ [frame] }
  | .failed _ =>
    again (r.modify fun s => { s with pendingCb := s.pendingCb - 1 }.reportError .timeoutA)

/-- `ISOTP_RX_STATE_SEND_FC`. -/
def sendCts : RecvRun ι A :=
  let r := (r.receiveSendFc c o again fsCts).startTimer
  r.modify fun s => { s with state := .waitCf }

/-- `ISOTP_RX_STATE_TRY_ALLOC`. -/
def tryAlloc : RecvRun ι A :=
  let r := r.modify fun s => { s with timer := false }
  let r := r.notifyWaitingReceiver c i
  (r.modify fun s => { s with state := .sendFc }).sendCts c o again

/-- `recv_error_callback` is called. `orphanage` has none. -/
def recvErrorCallback : RecvRun ι A :=
  if r.slot.orphaned then r else { r with errors := r.errors ++ [r.slot.error] }

/-- `ISOTP_RX_STATE_ERR`. -/
def stateErr : RecvRun ι A :=
  let r := (r.modify fun s => { s with timer := false }).recvErrorCallback
  let r := r.notifyWaitingReceiver c i
  let r := if r.slot.error = .bufferOverflw then r.receiveSendFc c o again fsOvflw else r
  (r.modify fun s => { s with state := .unbound }).freeIfUnowned c

/-- `ISOTP_RX_STATE_RECYCLE`. -/
def recycle : RecvRun ι A :=
  let s := r.slot
  let r := if c.receiveQueue ∨ s.orphaned then r
    else { r.touch [.read] with calls := r.calls ++ [⟨s.buffer, 0, s.rxAddr, s.declared, s.dispatched⟩] }
  let r := r.notifyWaitingReceiver c i
  (r.modify fun s => { s with state := .unbound }).freeIfUnowned c

/-- The states of `receive_state_machine`. -/
def stateSwitch : RecvRun ι A :=
  match r.slot.state with
  | .processSf =>
    again ((r.modify fun s => { s with remLen := 0, state := .recycle }).notifyWaitingReceiver c i)
  | .processFf =>
    let bs := r.slot.optsBs c
    if bs = 0 ∧ r.slot.remLen > c.rxMaxPacketCount * (canMaxDlen c.toIsoTpConfig - 1) then
      again (r.modify fun s => s.reportError .bufferOverflw)
    else
      let r := (r.notifyWaitingReceiver c i).modify fun s =>
        { s with bs := if bs ≠ 0 then bs else s.bs, wft := 0xFF, state := .tryAlloc }
      r.tryAlloc c o i again
  | .tryAlloc => r.tryAlloc c o i again
  | .sendFc => r.sendCts c o again
  | .sendWait =>
    let r := r.modify fun s => { s with wft := s.wft + 1 }
    if r.slot.wft.toNat < c.wftMax then
      let r := (r.receiveSendFc c o again fsWait).startTimer
      r.modify fun s => { s with state := .tryAlloc }
    else (r.modify fun s => s.reportError .bufferOverflw).stateErr c o i again
  | .err => r.stateErr c o i again
  | .recycle => r.recycle c i
  | _ => r

/-- `receive_state_machine` with at most `fuel` nested calls. -/
def stateMachine : ℕ → RecvRun ι A → RecvRun ι A
  | 0, r => r
  | fuel + 1, r => ((r.dispatchQueue c).touch [.read]).stateSwitch c o i (stateMachine fuel)

end RecvRun

/-- `receive_state_machine` on a context. Three nested calls are enough (`stateMachine_add`). -/
def RecvSlot.receiveStateMachine {ι A : Type} (c : RecvConfig) (o : ℕ → CanSend) (i : ι)
    (s : RecvSlot A) (awaiters : List (Awaiter ι A)) : RecvRun ι A :=
  .stateMachine c o i 3 { slot := s, awaiters := awaiters }

/-- The states in which a run can end. It stays in a state in which there is nothing to do, or it waits
for a consecutive frame or for buffers, or it is at an end. -/
def RxState.Leads : RxState → RxState → Prop
  | .waitFfSf, state => state = .waitFfSf
  | .waitCf, state | .tryAlloc, state | .sendFc, state => state = .waitCf
  | .processFf, state => state = .waitCf ∨ state = .unbound
  | .sendWait, state => state = .tryAlloc ∨ state = .unbound
  | .processSf, state | .err, state | .recycle, state | .unbound, state => state = .unbound

/-! ## Nested calls -/

namespace RecvRun

variable {ι A : Type} {c : RecvConfig} {o : ℕ → CanSend} {i : ι} {again again' : RecvRun ι A → RecvRun ι A}
  {fuel : ℕ}

/-- The nested call finds the error of a frame that was not queued. -/
def Agree (again again' : RecvRun ι A → RecvRun ι A) : Prop :=
  ∀ r, r.slot.state = .err → r.slot.error = .timeoutA → again r = again' r

theorem receiveSendFc_congr (h : Agree again again') (fs : UInt8) (r : RecvRun ι A) :
    r.receiveSendFc c o again fs = r.receiveSendFc c o again' fs := by
  rw [receiveSendFc, receiveSendFc]
  cases o r.sends with
  | queued => rfl
  | completed error => rfl
  | failed eagain => exact h _ rfl rfl

theorem stateErr_congr (h : Agree again again') (r : RecvRun ι A) :
    r.stateErr c o i again = r.stateErr c o i again' := by
  simp only [stateErr, receiveSendFc_congr h]

theorem touch_slot (r : RecvRun ι A) (accesses : List Access) : (r.touch accesses).slot = r.slot := by
  rw [touch]
  split <;> rfl

/-- The state after the readers are notified. -/
theorem notify_slot (r : RecvRun ι A) :
    (r.notifyWaitingReceiver c i).slot.state = r.slot.state ∧
      (r.notifyWaitingReceiver c i).slot.error = r.slot.error := by
  rw [notifyWaitingReceiver]
  split
  · cases notifyFirst i r.slot.rxAddr r.awaiters with
    | none =>
      dsimp only
      rw [touch_slot]
      exact ⟨rfl, rfl⟩
    | some p => exact ⟨rfl, rfl⟩
  · exact ⟨rfl, rfl⟩

theorem recvErrorCallback_slot (r : RecvRun ι A) : r.recvErrorCallback.slot = r.slot := by
  rw [recvErrorCallback]
  split <;> rfl

/-- What comes before the state is looked at does not change it. -/
theorem start_state (r : RecvRun ι A) :
    ((r.dispatchQueue c).touch [.read]).slot.state = r.slot.state ∧
      ((r.dispatchQueue c).touch [.read]).slot.error = r.slot.error := by
  rw [touch_slot, dispatchQueue]
  split <;> exact ⟨rfl, rfl⟩

/-- An error other than an overflow sends nothing. -/
theorem stateErr_of_ne {r : RecvRun ι A} (h : r.slot.error ≠ .bufferOverflw) :
    r.stateErr c o i again = r.stateErr c o i again' := by
  have herr : ((r.modify fun s => { s with timer := false }).recvErrorCallback.notifyWaitingReceiver
      c i).slot.error = r.slot.error := by
    rw [(notify_slot _).2, recvErrorCallback_slot]
    rfl
  simp only [stateErr, herr, if_neg h]

theorem stateMachine_recycle {r : RecvRun ι A} (h : r.slot.state = .recycle) :
    stateMachine c o i (fuel + 1) r = stateMachine c o i 1 r := by
  simp only [stateMachine, stateSwitch, (start_state r).1, h]

theorem stateMachine_timeoutA :
    Agree (A := A) (stateMachine c o i (fuel + 1)) (stateMachine c o i 1) := by
  intro r hstate herr
  simp only [stateMachine, stateSwitch, (start_state r).1, hstate]
  exact stateErr_of_ne (by simp [(start_state r).2, herr])

theorem stateMachine_err {r : RecvRun ι A} (h : r.slot.state = .err) :
    stateMachine c o i (fuel + 2) r = stateMachine c o i 2 r := by
  rw [stateMachine, stateMachine]
  simp only [stateSwitch, (start_state r).1, h]
  exact stateErr_congr stateMachine_timeoutA _

/-- Three nested calls are enough: one that finds an overflow, or a complete message, and one that finds
that its answer was not queued. -/
theorem stateMachine_add (r : RecvRun ι A) :
    stateMachine c o i (fuel + 3) r = stateMachine c o i 3 r := by
  have hagree : Agree (A := A) (stateMachine c o i (fuel + 2)) (stateMachine c o i 2) := fun r hstate herr =>
    (stateMachine_timeoutA r hstate herr).trans (stateMachine_timeoutA r hstate herr).symm
  rw [stateMachine, stateMachine]
  rw [stateSwitch, stateSwitch]
  cases hstate : ((r.dispatchQueue c).touch [.read]).slot.state with
  | waitFfSf | waitCf | unbound | recycle => rfl
  | processSf =>
    have hrecycle := (notify_slot (c := c) (i := i) (((r.dispatchQueue c).touch [.read]).modify
      fun s => { s with remLen := 0, state := .recycle })).1
    exact (stateMachine_recycle hrecycle).trans (stateMachine_recycle hrecycle).symm
  | processFf =>
    dsimp only
    split
    · exact stateMachine_err rfl
    · simp only [tryAlloc, sendCts, receiveSendFc_congr hagree]
  | tryAlloc => simp only [tryAlloc, sendCts, receiveSendFc_congr hagree]
  | sendFc => simp only [sendCts, receiveSendFc_congr hagree]
  | sendWait => simp only [receiveSendFc_congr hagree, stateErr_congr hagree]
  | err => exact stateErr_congr hagree _

/-! ## The state after a run -/

theorem freeIfUnowned_state (r : RecvRun ι A) : (r.freeIfUnowned c).slot.state = r.slot.state := by
  rw [freeIfUnowned]
  split
  · rw [touch_slot]
  · rfl

theorem stateErr_state (r : RecvRun ι A) : (r.stateErr c o i again).slot.state = .unbound := by
  simp only [stateErr, freeIfUnowned_state]
  rfl

theorem recycle_state (r : RecvRun ι A) : (r.recycle c i).slot.state = .unbound := by
  simp only [recycle, freeIfUnowned_state]
  rfl

theorem stateMachine_state (fuel : ℕ) (r : RecvRun ι A) :
    r.slot.state.Leads (stateMachine c o i (fuel + 3) r).slot.state := by
  have hstart := (start_state (c := c) r).1
  rw [stateMachine, stateSwitch]
  cases hstate : r.slot.state with
  | waitFfSf | waitCf | unbound => simp only [hstart, hstate, RxState.Leads]
  | processSf =>
    simp only [hstart, hstate]
    rw [stateMachine_recycle (notify_slot _).1, stateMachine, stateSwitch,
      (start_state _).1, (notify_slot _).1]
    exact recycle_state _
  | processFf =>
    simp only [hstart, hstate]
    split
    · rw [stateMachine, stateSwitch, (start_state _).1]
      exact .inr (stateErr_state _)
    · exact .inl rfl
  | tryAlloc | sendFc =>
    simp only [hstart, hstate]
    rfl
  | sendWait =>
    simp only [hstart, hstate]
    split
    · exact .inl rfl
    · exact .inr (stateErr_state _)
  | err =>
    simp only [hstart, hstate]
    exact stateErr_state _
  | recycle =>
    simp only [hstart, hstate]
    exact recycle_state _

end RecvRun

theorem RecvSlot.receiveStateMachine_state {ι A : Type} (c : RecvConfig) (o : ℕ → CanSend) (i : ι)
    (s : RecvSlot A) (awaiters : List (Awaiter ι A)) :
    s.state.Leads (s.receiveStateMachine c o i awaiters).slot.state :=
  RecvRun.stateMachine_state 0 { slot := s, awaiters := awaiters }

end ThingSet.IsoTp
