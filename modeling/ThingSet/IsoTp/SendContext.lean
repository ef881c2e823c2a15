import ThingSet.IsoTp.Basic

/-!
# Send contexts

The functions of `isotp_fast.c` that send, on a context of the slab and for every outcome of
`can_send`. Where the driver takes the frame, they do what the functions of `ThingSet.IsoTp.Basic`
do (`sendFf_eq`, `sendCf_eq`).

A run of one of them (`SendRun`) yields the context, the frame that the driver has taken, whether
its completion is still to come, and the calls of `sent_callback`.
-/

namespace ThingSet.IsoTp

/-- The outcome of a call of `can_send`: the frame is queued; it is queued and the completion
callback is called before `can_send` returns; or it is not queued, and the error is `-EAGAIN` or
another one. -/
inductive CanSend
  | queued
  | completed (error : ℤ)
  | failed (eagain : Bool)
  deriving DecidableEq, Repr

/-- The result that `sent_callback` is given: a code of ISO-TP, or what the driver reports of a
single frame. -/
inductive SentResult
  | isoTp (e : Error)
  | driver (error : ℤ)
  deriving DecidableEq, Repr

/-- A call of `sent_callback`. -/
structure SentCall (A β : Type) where
  result : SentResult
  addr : A
  arg : Option β
  deriving DecidableEq, Repr

/-- A block of the slab of send contexts and what is in it; `orphaned` is set when the context is
bound to `orphanage`, and `listed` when it is in the list of the context that it is bound to. -/
structure SendSlot (A β : Type) extends SendCtx where
  txAddr : A
  cbArg : Option β
  pendingCb : ℤ
  orphaned : Bool
  allocated : Bool

/-- What a function that sends yields. -/
structure SendRun (A β : Type) where
  slot : SendSlot A β
  frame : Option CanFrame := none
  outstanding : Bool := false
  sent : List (SentCall A β) := []

/-! ## Frames -/

section Frames

variable (c : IsoTpConfig) (stale : Bytes)

/-- `send_ff` up to `can_send`. -/
def SendCtx.ff (s : SendCtx) : CanFrame × SendCtx :=
  let len := s.remLen
  let header : Bytes :=
    if len > 0xFFF then
      [typeFf, 0, UInt8.ofNat (len >>> 24), UInt8.ofNat (len >>> 16), UInt8.ofNat (len >>> 8),
        UInt8.ofNat len]
    else [typeFf ||| UInt8.ofNat (len >>> 8), UInt8.ofNat len]
  let size := min (canMaxDlen c - header.length) len
  (frameOf (header ++ s.data.take size) stale (c.bytesToDlc (canMaxDlen c)),
    { s with sn := 1 }.advance size)

/-- `send_cf` up to `can_send`. -/
def SendCtx.cf (s : SendCtx) : CanFrame × SendCtx :=
  let header : Bytes := [typeCf ||| UInt8.ofNat s.sn]
  let len := min s.remLen (canMaxDlen c - header.length)
  (frameOf (header ++ s.data.take len) stale (c.bytesToDlc (len + header.length)), s.advance len)

/-- `send_cf` after `can_send`, if the frame is queued. -/
def SendCtx.cfQueued (s : SendCtx) : SendCtx :=
  { s with sn := (s.sn + 1) % 16, bs := s.bs - 1, backlog := s.backlog + 1 }

theorem sendFf_eq (n : Network) :
    sendFf c stale n =
      canSend { n with sctx := (n.sctx.ff c stale).2 } (n.sctx.ff c stale).1 := rfl

theorem sendCf_eq (n : Network) :
    sendCf c stale n =
      canSend { n with sctx := (n.sctx.cf c stale).2.cfQueued } (n.sctx.cf c stale).1 := rfl

/-- The frame that `isotp_fast_send` makes of a message that fits. -/
def sf (data : Bytes) : CanFrame :=
  let header : Bytes :=
    if c.canFdMode then
      if data.length > 7 then [typeSf, UInt8.ofNat data.length]
      else [typeSf ||| UInt8.ofNat data.length]
    else [UInt8.ofNat data.length]
  frameOf (header ++ data) stale (c.bytesToDlc (data.length + header.length))

end Frames

/-! ## Contexts -/

namespace SendSlot

variable {A β : Type} (c : IsoTpConfig) (stale : Bytes) (o : CanSend) (s : SendSlot A β)

/-- `opts->bs` of the context that it is bound to. -/
def optsBs : UInt8 := if s.orphaned then 0 else c.bs

/-- `sent_callback` of the context that it is bound to; that of `orphanage` does nothing. -/
def sentCallback (result : SentResult) : List (SentCall A β) :=
  if s.orphaned then [] else [⟨result, s.txAddr, s.cbArg⟩]

/-- `get_send_ctx`: a context is created in a block. -/
def create (addr : A) : SendSlot A β :=
  { s with
    txAddr := addr
    bs := c.bs
    stmin := c.stmin
    state := .sendFf
    error := .ok
    pendingCb := 0
    sem := false
    work := false
    taking := false
    timer := .stopped
    listed := true
    orphaned := false
    allocated := true }

/-- `free_send_ctx`. -/
def free : SendSlot A β := { s with toSendCtx := s.toSendCtx.free, allocated := false }

/-- `send_can_tx_callback`. -/
def canTxCallback : SendSlot A β :=
  { s with toSendCtx := s.toSendCtx.txCallback, pendingCb := s.pendingCb - 1 }

/-- `isotp_fast_sent_single_cb`. -/
def sentSingleCb (error : ℤ) : SendRun A β :=
  let s := { s with pendingCb := s.pendingCb - 1 }
  { slot := s.free, sent := s.sentCallback (.driver error) }

/-- `can_send` of a frame with `send_can_tx_callback`, and the counting of its callbacks. -/
def canSend (f : CanFrame) : SendRun A β :=
  let s := { s with pendingCb := s.pendingCb + 1 }
  match o with
  | .queued => { slot := s, frame := some f, outstanding := true }
  | .completed _ => { slot := s.canTxCallback, frame := some f }
  | .failed _ => { slot := { s with pendingCb := s.pendingCb - 1 } }

/-- `send_ff`. -/
def sendFf : SendRun A β :=
  let (f, sctx) := s.toSendCtx.ff c stale
  { s with toSendCtx := sctx }.canSend o f

/-- `send_cf`. -/
def sendCf : SendRun A β :=
  let (f, sctx) := s.toSendCtx.cf c stale
  let r := { s with toSendCtx := sctx }.canSend o f
  match o with
  | .failed _ => r
  | _ => { r with slot := { r.slot with toSendCtx := r.slot.toSendCtx.cfQueued } }

/-- What comes after a consecutive frame that is queued: the loop of `ISOTP_TX_SEND_CF` ends, or it
goes on with `k_sem_take`. -/
def afterCf : SendSlot A β :=
  if s.remLen = 0 then { s with state := .waitBacklog }
  else if s.optsBs c ≠ 0 ∧ s.bs = 0 then { s with timer := .bs, state := .waitFc }
  else if s.stmin ≠ 0 then { s with state := .waitSt }
  else { s with taking := true }

/-- One round of the loop, up to `k_sem_take`. -/
def sendCfRound : SendRun A β :=
  let r := s.sendCf c stale o
  match o with
  | .failed eagain =>
    let err := if eagain then .timeoutA else .error
    { r with slot := { r.slot with toSendCtx := r.slot.toSendCtx.reportError err } }
  | _ => { r with slot := r.slot.afterCf c }

/-- `send_state_machine`. -/
def sendStateMachine : SendRun A β :=
  match s.state with
  | .sendFf =>
    let r := s.sendFf c stale o
    { r with slot := { r.slot with timer := .bs, state := .waitFc } }
  | .sendCf => { s with timer := .stopped }.sendCfRound c stale o
  | .waitSt => { slot := { s with timer := .st, state := .sendCf } }
  | .err =>
    { slot := { s with state := .reset }.free, sent := s.sentCallback (.isoTp s.error) }
  | .waitFin =>
    { slot := { s with state := .reset }.free, sent := s.sentCallback (.isoTp .ok) }
  | _ => { slot := s }

/-- `send_work_handler`: the work item runs. -/
def workHandler : SendRun A β := { s with work := false }.sendStateMachine c stale o

/-- The wait in `k_sem_take` ends, and with it the round. -/
def semTaken : SendRun A β := { s with taking := false, sem := false }.sendCfRound c stale o

/-- `isotp_fast_send` of a message that fits, with the context. A frame that is not queued leaves
the context alone if it is in use. -/
def sendSingle (data : Bytes) (cbArg : Option β) : Bool × SendRun A β :=
  let s := { s with cbArg := cbArg, pendingCb := s.pendingCb + 1 }
  match o with
  | .queued => (true, { slot := s, frame := some (sf c stale data), outstanding := true })
  | .completed error => (true, { s.sentSingleCb error with frame := some (sf c stale data) })
  | .failed _ =>
    let s := { s with pendingCb := s.pendingCb - 1 }
    (false, { slot := if s.state = .sendFf ∧ s.pendingCb = 0 then s.free else s })

/-- `isotp_fast_send` of a longer message, with the context. -/
def sendLong (data : Bytes) (cbArg : Option β) : SendSlot A β :=
  { s with data := data, remLen := data.length % 4096, cbArg := cbArg, work := true }

/-- What `isotp_fast_unbind` does with a context of the list. -/
def unbind : SendRun A β :=
  let s := { s with timer := .stopped, work := false }
  if s.pendingCb = 0 then { slot := s.free, sent := s.sentCallback (.isoTp .error) }
  else
    { slot := { s with toSendCtx := s.toSendCtx.reportError .error, cbArg := none, orphaned := true } }

end SendSlot

/-! ## What a step of the machine does -/

variable {A β : Type} {c : IsoTpConfig} {stale : Bytes} {o : CanSend} {s : SendSlot A β} {f : CanFrame}

/-- A clear-to-send frame. -/
def isCts (f : CanFrame) : Bool := pciType (f.byte 0) = typeFc ∧ f.byte 0 &&& 0x0F = fsCts

/-- A clear-to-send frame starts a block. -/
theorem processFc_of_isCts (s : SendCtx) (hf : isCts f = true) :
    s.processFc c f = { s with
      state := .sendCf, wft := 0, backlog := 0, sem := false, bs := f.byte 1, stmin := f.byte 2 } := by
  obtain ⟨htype, hfs⟩ := of_decide_eq_true hf
  simp only [SendCtx.processFc, htype, hfs, ne_eq, not_true_eq_false, if_false, if_true]

/-- Any other frame lets the context wait, or it is an error. -/
theorem processFc_of_not_isCts (s : SendCtx) (hf : ¬ isCts f) :
    ∃ err wft timer, (timer = .bs ∧ s.processFc c f = { s with wft := wft, timer := timer }) ∨
      (err ≠ .ok ∧
        s.processFc c f = { s with state := .err, error := err, wft := wft, timer := timer }) := by
  rw [SendCtx.processFc]
  split
  · exact ⟨.unexpPdu, _, _, .inr ⟨by decide, rfl⟩⟩
  rename_i htype
  dsimp only
  split
  · rename_i hfs
    exact absurd (decide_eq_true ⟨not_not.1 htype, hfs⟩) hf
  split
  · split
    · exact ⟨.wftOvrn, _, _, .inr ⟨by decide, rfl⟩⟩
    · exact ⟨.ok, _, _, .inl ⟨rfl, rfl⟩⟩
  split
  · exact ⟨.bufferOverflw, _, _, .inr ⟨by decide, rfl⟩⟩
  · exact ⟨.invalidFs, _, _, .inr ⟨by decide, rfl⟩⟩

/-- What a context makes of a flow control frame: a clear-to-send frame starts a block, another one
lets it wait or is an error, and so is one that it does not wait for. -/
theorem canRx_cases (s : SendCtx) (f : CanFrame) :
    (s.state = .waitFc ∧ isCts f ∧ s.canRx c f = { s with
      state := .sendCf, wft := 0, backlog := 0, sem := false, bs := f.byte 1, stmin := f.byte 2,
      timer := .stopped, work := true }) ∨
    (s.state = .waitFc ∧ ¬ isCts f ∧ ∃ err wft timer,
      (timer = .bs ∧ s.canRx c f = { s with wft := wft, timer := timer, work := true }) ∨
      (err ≠ .ok ∧ s.canRx c f =
        { s with state := .err, error := err, wft := wft, timer := timer, work := true })) ∨
    (s.state ≠ .waitFc ∧
      s.canRx c f = { s with state := .err, error := .unexpPdu, work := true }) := by
  by_cases hstate : s.state = .waitFc
  · by_cases hcts : isCts f
    · refine .inl ⟨hstate, hcts, ?_⟩
      rw [SendCtx.canRx, if_pos hstate, processFc_of_isCts _ hcts]
    · refine .inr (.inl ⟨hstate, hcts, ?_⟩)
      obtain ⟨err, wft, timer, hor⟩ :=
        processFc_of_not_isCts (c := c) { s with timer := .stopped } hcts
      refine ⟨err, wft, timer, ?_⟩
      rw [SendCtx.canRx, if_pos hstate]
      exact hor.imp (fun h => ⟨h.1, by rw [h.2]⟩) (fun h => ⟨h.1, by rw [h.2]⟩)
  · refine .inr (.inr ⟨hstate, ?_⟩)
    rw [SendCtx.canRx, if_neg hstate]
    rfl

/-- What a context makes of its timer: it goes on, or it is an error. -/
theorem timeout_cases (s : SendCtx) :
    (s.state = .sendCf ∧ s.timeout = { s with timer := .stopped, work := true }) ∨
    (s.state ≠ .sendCf ∧
      s.timeout = { s with state := .err, error := .timeoutBs, timer := .stopped, work := true }) := by
  by_cases hstate : s.state = .sendCf
  · exact .inl ⟨hstate, by simp [SendCtx.timeout, hstate]⟩
  · exact .inr ⟨hstate, by simp [SendCtx.timeout, hstate, SendCtx.reportError]⟩

theorem SendCtx.cf_snd (s : SendCtx) :
    (s.cf c stale).2 = s.advance (min s.remLen (canMaxDlen c - 1)) := rfl

namespace SendSlot

/-- Where the loop goes after a consecutive frame. -/
theorem afterCf_cases (s : SendSlot A β) :
    (s.remLen = 0 ∧ s.afterCf c = { s with state := .waitBacklog }) ∨
    (s.remLen ≠ 0 ∧ s.optsBs c ≠ 0 ∧ s.bs = 0 ∧
      s.afterCf c = { s with timer := .bs, state := .waitFc }) ∨
    (s.remLen ≠ 0 ∧ s.stmin ≠ 0 ∧ s.afterCf c = { s with state := .waitSt }) ∨
    (s.remLen ≠ 0 ∧ s.stmin = 0 ∧ s.afterCf c = { s with taking := true }) := by
  rw [afterCf]
  split
  · rename_i hrem
    exact .inl ⟨hrem, rfl⟩
  rename_i hrem
  split
  · rename_i hbs
    exact .inr (.inl ⟨hrem, hbs.1, hbs.2, rfl⟩)
  split
  · rename_i hstmin
    exact .inr (.inr (.inl ⟨hrem, hstmin, rfl⟩))
  · rename_i hstmin
    exact .inr (.inr (.inr ⟨hrem, not_not.1 hstmin, rfl⟩))

/-- A round that queues a frame, which the driver completes at once or later, or one that fails. -/
theorem sendCfRound_cases (c : IsoTpConfig) (stale : Bytes) (o : CanSend)
    (hstate : s.state ≠ .waitBacklog) :
    (o = .queued ∧ s.sendCfRound c stale o =
      { slot := { s with
          toSendCtx := (s.cf c stale).2.cfQueued
          pendingCb := s.pendingCb + 1 }.afterCf c
        frame := some (s.cf c stale).1
        outstanding := true }) ∨
    (∃ error, o = .completed error ∧ s.sendCfRound c stale o =
      { slot := { s with
          toSendCtx := { (s.cf c stale).2.cfQueued with
            backlog := s.backlog - 1 + 1
            sem := true
            work := true } }.afterCf c
        frame := some (s.cf c stale).1 }) ∨
    (∃ eagain, o = .failed eagain ∧ s.sendCfRound c stale o =
      { slot := { s with
          toSendCtx := (s.cf c stale).2.reportError (if eagain then .timeoutA else .error) } }) := by
  cases o with
  | queued => exact .inl ⟨rfl, rfl⟩
  | completed error =>
    refine .inr (.inl ⟨error, rfl, ?_⟩)
    have htx := txCallback_of_ne (s := (s.cf c stale).2) hstate
    simp only [sendCfRound, sendCf, canSend, canTxCallback, htx, add_sub_cancel_right]
    rfl
  | failed eagain =>
    refine .inr (.inr ⟨eagain, rfl, ?_⟩)
    simp only [sendCfRound, sendCf, canSend, add_sub_cancel_right]

/-- The first frame is sent; whether the driver takes it does not matter. -/
theorem workHandler_sendFf (c : IsoTpConfig) (stale : Bytes) (o : CanSend)
    (hstate : s.state = .sendFf) :
    (o = .queued ∧ s.workHandler c stale o =
      { slot := { s with
          toSendCtx := { (s.ff c stale).2 with work := false, timer := .bs, state := .waitFc }
          pendingCb := s.pendingCb + 1 }
        frame := some (s.ff c stale).1
        outstanding := true }) ∨
    (∃ error, o = .completed error ∧ s.workHandler c stale o =
      { slot := { s with
          toSendCtx := { (s.ff c stale).2 with
            backlog := s.backlog - 1
            sem := true
            work := true
            timer := .bs
            state := .waitFc } }
        frame := some (s.ff c stale).1 }) ∨
    (∃ eagain, o = .failed eagain ∧ s.workHandler c stale o =
      { slot := { s with
          toSendCtx := { (s.ff c stale).2 with work := false, timer := .bs, state := .waitFc } } }) := by
  cases o with
  | queued =>
    refine .inl ⟨rfl, ?_⟩
    simp only [workHandler, sendStateMachine, hstate]
    rfl
  | completed error =>
    refine .inr (.inl ⟨error, rfl, ?_⟩)
    simp only [workHandler, sendStateMachine, hstate, sendFf, canSend, canTxCallback,
      add_sub_cancel_right]
    rfl
  | failed eagain =>
    refine .inr (.inr ⟨eagain, rfl, ?_⟩)
    simp only [workHandler, sendStateMachine, hstate, sendFf, canSend, add_sub_cancel_right]
    rfl

/-- What the work item does in the other states. -/
theorem workHandler_cases (c : IsoTpConfig) (stale : Bytes) (o : CanSend)
    (hstate : s.state ≠ .sendFf) :
    (s.state = .sendCf ∧ s.workHandler c stale o =
      { s with work := false, timer := .stopped }.sendCfRound c stale o) ∨
    (s.state = .waitSt ∧ s.workHandler c stale o =
      { slot := { s with work := false, timer := .st, state := .sendCf } }) ∨
    (∃ result, (s.state = .err ∧ result = .isoTp s.error ∨ s.state = .waitFin ∧ result = .isoTp .ok) ∧
      s.workHandler c stale o =
        { slot := { s with work := false, state := .reset }.free, sent := s.sentCallback result }) ∨
    ((s.state = .reset ∨ s.state = .waitFc ∨ s.state = .waitBacklog) ∧
      s.workHandler c stale o = { slot := { s with work := false } }) := by
  rw [workHandler, sendStateMachine]
  rcases h : s.state with _ | _ | _ | _ | _ | _ | _ | _
  · exact .inr (.inr (.inr ⟨.inl rfl, rfl⟩))
  · exact absurd h hstate
  · exact .inr (.inr (.inr ⟨.inr (.inl rfl), rfl⟩))
  · exact .inl ⟨rfl, rfl⟩
  · exact .inr (.inl ⟨rfl, rfl⟩)
  · exact .inr (.inr (.inr ⟨.inr (.inr rfl), rfl⟩))
  · exact .inr (.inr (.inl ⟨_, .inr ⟨rfl, rfl⟩, rfl⟩))
  · exact .inr (.inr (.inl ⟨_, .inl ⟨rfl, rfl⟩, rfl⟩))

/-! ## What a step leaves alone -/

theorem txCallback_listed (s : SendCtx) : s.txCallback.listed = s.listed := by
  simp only [SendCtx.txCallback]
  split
  · split <;> rfl
  · rfl

/-- The contexts differ in the machine's part only. -/
structure Same (s t : SendSlot A β) : Prop where
  txAddr : t.txAddr = s.txAddr
  cbArg : t.cbArg = s.cbArg
  pendingCb : t.pendingCb = s.pendingCb
  orphaned : t.orphaned = s.orphaned
  allocated : t.allocated = s.allocated
  listed : t.listed = s.listed

theorem same_afterCf (s : SendSlot A β) : s.Same (s.afterCf c) := by
  rcases afterCf_cases (c := c) s with ⟨-, h⟩ | ⟨-, -, -, h⟩ | ⟨-, -, h⟩ | ⟨-, -, h⟩ <;> rw [h] <;>
    exact ⟨rfl, rfl, rfl, rfl, rfl, rfl⟩

/-- A run changes the machine's part of the context, and counts the callback to come. -/
structure Keeps (s : SendSlot A β) (r : SendRun A β) : Prop where
  same : { s with pendingCb := s.pendingCb + if r.outstanding then 1 else 0 }.Same r.slot
  sent : r.sent = []

theorem keeps_sendCfRound (c : IsoTpConfig) (stale : Bytes) (o : CanSend) (s : SendSlot A β) :
    s.Keeps (s.sendCfRound c stale o) := by
  cases o with
  | queued =>
    have h := same_afterCf (c := c)
      { s with toSendCtx := (s.cf c stale).2.cfQueued, pendingCb := s.pendingCb + 1 }
    exact ⟨⟨h.txAddr, h.cbArg, h.pendingCb, h.orphaned, h.allocated, h.listed⟩, rfl⟩
  | completed error =>
    have h := same_afterCf (c := c)
      { s with
        toSendCtx := (s.cf c stale).2.txCallback.cfQueued
        pendingCb := s.pendingCb + 1 - 1 }
    have hpending : s.pendingCb + 1 - 1 = s.pendingCb + 0 := by omega
    exact ⟨⟨h.txAddr, h.cbArg, h.pendingCb.trans hpending, h.orphaned, h.allocated,
      h.listed.trans (txCallback_listed _)⟩, rfl⟩
  | failed eagain =>
    have hpending : s.pendingCb + 1 - 1 = s.pendingCb + 0 := by omega
    exact ⟨⟨rfl, rfl, hpending, rfl, rfl, rfl⟩, rfl⟩

/-- The work item does the same, or it calls `sent_callback` and frees the context. -/
theorem workHandler_frame (c : IsoTpConfig) (stale : Bytes) (o : CanSend) (s : SendSlot A β) :
    s.Keeps (s.workHandler c stale o) ∨
      ∃ result, (s.state = .err ∧ result = .isoTp s.error ∨ s.state = .waitFin ∧ result = .isoTp .ok) ∧
        s.workHandler c stale o =
          { slot := { s with work := false, state := .reset }.free, sent := s.sentCallback result } := by
  by_cases hff : s.state = .sendFf
  · refine .inl ?_
    rcases workHandler_sendFf c stale o hff with
      ⟨-, heq⟩ | ⟨error, -, heq⟩ | ⟨eagain, -, heq⟩ <;> rw [heq]
    · exact ⟨⟨rfl, rfl, rfl, rfl, rfl, rfl⟩, rfl⟩
    · exact ⟨⟨rfl, rfl, (add_zero _).symm, rfl, rfl, rfl⟩, rfl⟩
    · exact ⟨⟨rfl, rfl, (add_zero _).symm, rfl, rfl, rfl⟩, rfl⟩
  rcases workHandler_cases c stale o hff with ⟨-, heq⟩ | ⟨-, heq⟩ |
    ⟨result, hresult, heq⟩ | ⟨-, heq⟩
  · rw [heq]
    obtain ⟨⟨haddr, harg, hpending, horphaned, hallocated, hlisted⟩, hsent⟩ := keeps_sendCfRound
      c stale o { s with work := false, timer := .stopped }
    exact .inl ⟨⟨haddr, harg, hpending, horphaned, hallocated, hlisted⟩, hsent⟩
  · rw [heq]
    exact .inl ⟨⟨rfl, rfl, (add_zero _).symm, rfl, rfl, rfl⟩, rfl⟩
  · exact .inr ⟨result, hresult, heq⟩
  · rw [heq]
    exact .inl ⟨⟨rfl, rfl, (add_zero _).symm, rfl, rfl, rfl⟩, rfl⟩

theorem keeps_workHandler (herr : s.state ≠ .err) (hfin : s.state ≠ .waitFin) :
    s.Keeps (s.workHandler c stale o) := by
  rcases workHandler_frame c stale o s with h | ⟨_, ⟨h, -⟩ | ⟨h, -⟩, -⟩
  · exact h
  · exact absurd h herr
  · exact absurd h hfin

end SendSlot

end ThingSet.IsoTp
