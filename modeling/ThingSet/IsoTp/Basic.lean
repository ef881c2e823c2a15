import ThingSet.Decoder
import ThingSet.Foundations.Transition

/-!
# ISO-TP over CAN

The sender and the receiver state machines of `isotp_fast.c`, for one message from one node to
another, in the default configuration (the receiver dispatches whole messages). A message that
fits is one single frame; a longer one is a first frame and consecutive frames, in blocks that the
receiver asks for with flow control frames.

The state machines run in work items; frames arrive, sent frames complete and timers expire in
callbacks. Each runs to its end before the next, but for the wait in `k_sem_take`, where the work
item stops and other callbacks run. `IsoTpEvent` has one event for each of them, and they come in
any order. Calls to the driver succeed and a queued frame arrives after those queued before it. The
receive buffers suffice for the message: the path of `receive_can_rx` for a full buffer, which drops
the frame, is left out. Timeouts of the protocol, which only happen when the peer is silent, are no
events; the timer that separates consecutive frames is one.
-/

namespace ThingSet

/-- The configuration of both nodes. The length codes of frames are CAN's, and `ffDlMin` is
`ISOTP_FF_DL_MIN`. -/
structure IsoTpConfig where
  canFdMode : Bool
  bs : UInt8
  stmin : UInt8
  bytesToDlc : ℕ → ℕ
  dlcToBytes : ℕ → ℕ
  ffDlMin : ℕ
  rxMaxPacketCount : ℕ
  wftMax : ℕ := 10

namespace IsoTp

/-- `CAN_MAX_DLEN`. -/
def canMaxDlen (c : IsoTpConfig) : ℕ := if c.canFdMode then 64 else 8

/-- `ISOTP_FAST_SF_LEN_BYTE`. -/
def sfLenByte (c : IsoTpConfig) : ℕ := if c.canFdMode then 2 else 1

/-- `ISOTP_FAST_MAX_LEN`. -/
def maxLen : ℕ := 4095

/-- The error codes of ISO-TP that the state machines use. -/
inductive Error
  | ok
  | timeoutA
  | timeoutBs
  | timeoutCr
  | wrongSn
  | invalidFs
  | unexpPdu
  | wftOvrn
  | bufferOverflw
  | error
  deriving DecidableEq, Repr

/-- `enum isotp_tx_state`. -/
inductive TxState
  | reset
  | sendFf
  | waitFc
  | sendCf
  | waitSt
  | waitBacklog
  | waitFin
  | err
  deriving DecidableEq, Repr

/-- `enum isotp_rx_state`. -/
inductive RxState
  | waitFfSf
  | processSf
  | processFf
  | tryAlloc
  | sendFc
  | waitCf
  | sendWait
  | err
  | recycle
  | unbound
  deriving DecidableEq, Repr

/-- A CAN frame: all bytes of its data, those that were never written included, and its length
code. -/
structure CanFrame where
  data : Bytes
  dlc : ℕ
  deriving DecidableEq, Repr

/-- The sender's timer: what it was started for. -/
inductive Timer
  | stopped
  | bs
  | st
  deriving DecidableEq, Repr

/-- `struct isotp_fast_send_ctx`. `data` is what the pointer points to, `work` whether the work
item is submitted, `taking` whether it waits in `k_sem_take`, `listed` whether the context is in
the list of send contexts. -/
structure SendCtx where
  data : Bytes
  remLen : ℕ
  state : TxState := .sendFf
  error : Error := .ok
  wft : UInt8 := 0
  bs : UInt8
  sn : ℕ := 0
  backlog : UInt8 := 0
  stmin : UInt8
  sem : Bool := false
  work : Bool := false
  timer : Timer := .stopped
  taking : Bool := false
  listed : Bool := true
  deriving DecidableEq, Repr

/-- `struct isotp_fast_recv_ctx`. `buffer` is the chain of fragments. -/
structure RecvCtx where
  buffer : Bytes := []
  remLen : ℕ := 0
  state : RxState := .waitFfSf
  error : Error := .ok
  wft : UInt8 := 0
  bs : UInt8 := 0
  snExpected : ℕ := 0
  work : Bool := false
  deriving DecidableEq, Repr

/-- Both nodes and the bus: the frames that are queued in each direction, how many completions
of single and of other frames the sender has yet to see, and what the callbacks reported. -/
structure Network where
  sctx : SendCtx
  rctx : Option RecvCtx := none
  toReceiver : List CanFrame := []
  toSender : List CanFrame := []
  singleCb : ℕ := 0
  txCb : ℕ := 0
  delivered : List Bytes := []
  recvErrors : List Error := []
  sent : List Error := []
  deriving DecidableEq, Repr

/-! ## Protocol control information -/

/-- `ISOTP_PCI_TYPE_MASK` applied to a byte. -/
def pciType (b : UInt8) : UInt8 := b &&& 0xF0

/-- `ISOTP_PCI_TYPE_SF`. -/
def typeSf : UInt8 := 0x00

/-- `ISOTP_PCI_TYPE_FF`. -/
def typeFf : UInt8 := 0x10

/-- `ISOTP_PCI_TYPE_CF`. -/
def typeCf : UInt8 := 0x20

/-- `ISOTP_PCI_TYPE_FC`. -/
def typeFc : UInt8 := 0x30

/-- `ISOTP_PCI_FS_CTS`, `ISOTP_PCI_FS_WAIT` and `ISOTP_PCI_FS_OVFLW`. -/
def fsCts : UInt8 := 0x0
def fsWait : UInt8 := 0x1
def fsOvflw : UInt8 := 0x2

/-- A frame on the stack: the bytes that were written, and behind them what was there before. -/
def frameOf (written stale : Bytes) (dlc : ℕ) : CanFrame :=
  ⟨written ++ stale.drop written.length, dlc⟩

/-- Byte `i` of a frame. -/
def CanFrame.byte (f : CanFrame) (i : ℕ) : UInt8 := f.data.getD i 0

/-! ## The sender -/

section Sender

variable (c : IsoTpConfig)

/-- `send_report_error`. -/
def SendCtx.reportError (s : SendCtx) (err : Error) : SendCtx :=
  { s with state := .err, error := err }

/-- `free_send_ctx`. The memory of the context stays as it is. -/
def SendCtx.free (s : SendCtx) : SendCtx := { s with timer := .stopped, listed := false }

/-- The data that `send_ff` and `send_cf` copy, and the context past them. -/
def SendCtx.advance (s : SendCtx) (size : ℕ) : SendCtx :=
  { s with data := s.data.drop size, remLen := s.remLen - size }

/-- `can_send` with `send_can_tx_callback`. -/
def canSend (n : Network) (f : CanFrame) : Network :=
  { n with toReceiver := n.toReceiver ++ [f], txCb := n.txCb + 1 }

/-- `send_ff`. -/
def sendFf (stale : Bytes) (n : Network) : Network :=
  let s := n.sctx
  let len := s.remLen
  let header : Bytes :=
    if len > 0xFFF then
      [typeFf, 0, UInt8.ofNat (len >>> 24), UInt8.ofNat (len >>> 16), UInt8.ofNat (len >>> 8),
        UInt8.ofNat len]
    else [typeFf ||| UInt8.ofNat (len >>> 8), UInt8.ofNat len]
  let size := min (canMaxDlen c - header.length) len
  let frame := frameOf (header ++ s.data.take size) stale (c.bytesToDlc (canMaxDlen c))
  canSend { n with sctx := { s with sn := 1 }.advance size } frame

/-- `send_cf`. The sequence number has four bits. -/
def sendCf (stale : Bytes) (n : Network) : Network :=
  let s := n.sctx
  let header : Bytes := [typeCf ||| UInt8.ofNat s.sn]
  let len := min s.remLen (canMaxDlen c - header.length)
  let frame := frameOf (header ++ s.data.take len) stale (c.bytesToDlc (len + header.length))
  let s := s.advance len
  canSend { n with sctx := { s with
    sn := (s.sn + 1) % 16
    bs := s.bs - 1
    backlog := s.backlog + 1 } } frame

/-- One round of the loop of `ISOTP_TX_SEND_CF`, up to `k_sem_take`. -/
def sendCfRound (stale : Bytes) (n : Network) : Network :=
  let n := sendCf c stale n
  let s := n.sctx
  if s.remLen = 0 then { n with sctx := { s with state := .waitBacklog } }
  else if c.bs ≠ 0 ∧ s.bs = 0 then { n with sctx := { s with timer := .bs, state := .waitFc } }
  else if s.stmin ≠ 0 then { n with sctx := { s with state := .waitSt } }
  else { n with sctx := { s with taking := true } }

/-- `send_state_machine`. -/
def sendStateMachine (stale : Bytes) (n : Network) : Network :=
  let s := n.sctx
  match s.state with
  | .sendFf =>
    let n := sendFf c stale n
    { n with sctx := { n.sctx with timer := .bs, state := .waitFc } }
  | .sendCf => sendCfRound c stale { n with sctx := { s with timer := .stopped } }
  | .waitSt => { n with sctx := { s with timer := .st, state := .sendCf } }
  | .err => { n with sent := n.sent ++ [s.error], sctx := { s with state := .reset }.free }
  | .waitFin => { n with sent := n.sent ++ [.ok], sctx := { s with state := .reset }.free }
  | _ => n

/-- `send_can_tx_callback`. -/
def SendCtx.txCallback (s : SendCtx) : SendCtx :=
  let s := { s with backlog := s.backlog - 1, sem := true }
  if s.state = .waitBacklog then
    if s.backlog > 0 then s else { s with state := .waitFin, work := true }
  else { s with work := true }

theorem txCallback_of_ne {s : SendCtx} (h : s.state ≠ .waitBacklog) :
    s.txCallback = { s with backlog := s.backlog - 1, sem := true, work := true } := by
  simp [SendCtx.txCallback, h]

/-- `send_timeout_handler`. -/
def SendCtx.timeout (s : SendCtx) : SendCtx :=
  let s := { s with timer := .stopped }
  let s := if s.state ≠ .sendCf then s.reportError .timeoutBs else s
  { s with work := true }

/-- `send_process_fc`. -/
def SendCtx.processFc (s : SendCtx) (f : CanFrame) : SendCtx :=
  if pciType (f.byte 0) ≠ typeFc then s.reportError .unexpPdu
  else
    let fs := f.byte 0 &&& 0x0F
    if fs = fsCts then
      { s with state := .sendCf, wft := 0, backlog := 0, sem := false,
               bs := f.byte 1, stmin := f.byte 2 }
    else if fs = fsWait then
      let s := { s with timer := .bs }
      let s := if s.wft.toNat ≥ c.wftMax then s.reportError .wftOvrn else s
      { s with wft := s.wft + 1 }
    else if fs = fsOvflw then s.reportError .bufferOverflw
    else s.reportError .invalidFs

/-- `send_can_rx`. -/
def SendCtx.canRx (s : SendCtx) (f : CanFrame) : SendCtx :=
  let s :=
    if s.state = .waitFc then { s with timer := .stopped }.processFc c f
    else s.reportError .unexpPdu
  { s with work := true }

/-- `isotp_fast_send` to the peer. -/
def fastSend (stale : Bytes) (data : Bytes) : Option Network :=
  let len := data.length
  if len ≤ canMaxDlen c - sfLenByte c then
    let header : Bytes :=
      if c.canFdMode then
        if len > 7 then [typeSf, UInt8.ofNat len] else [typeSf ||| UInt8.ofNat len]
      else [UInt8.ofNat len]
    let frame := frameOf (header ++ data) stale (c.bytesToDlc (len + header.length))
    some
      { sctx := { data := [], remLen := 0, bs := c.bs, stmin := c.stmin }
        toReceiver := [frame]
        singleCb := 1 }
  else if len > maxLen then none
  else
    some { sctx := { data := data, remLen := len % 4096, bs := c.bs, stmin := c.stmin,
                     work := true } }

end Sender

/-! ## The receiver -/

section Receiver

variable (c : IsoTpConfig)

/-- `receive_report_error`. -/
def RecvCtx.reportError (r : RecvCtx) (err : Error) : RecvCtx :=
  { r with state := .err, error := err }

/-- `receive_get_ff_length`. -/
def ffLength (f : CanFrame) : ℕ :=
  let len := ((f.byte 0 &&& 0x0F).toNat <<< 8) ||| (f.byte 1).toNat
  if len = 0 then (f.data.take 4).foldl (fun len b => 256 * len + b.toNat) 0 else len

/-- `receive_get_sf_length`: the length and the index of the data. -/
def sfLength (f : CanFrame) : ℕ × ℕ :=
  let len := (f.byte 0 &&& 0x0F).toNat
  if c.canFdMode ∧ len = 0 then ((f.byte 1).toNat, 2) else (len, 1)

/-- `receive_send_fc`; the frame starts with all bytes zero. -/
def sendFc (fs : UInt8) : CanFrame :=
  frameOf [typeFc ||| fs, c.bs, c.stmin] (List.replicate (canMaxDlen c) 0) (c.bytesToDlc 3)

/-- The states of `receive_state_machine` that end with a flow control frame. -/
def sendCts (r : RecvCtx) (n : Network) : Network :=
  { n with rctx := some { r with state := .waitCf }, toSender := n.toSender ++ [sendFc c fsCts] }

/-- `ISOTP_RX_STATE_ERR`: the error is reported and the context freed. -/
def receiveErr (r : RecvCtx) (n : Network) : Network :=
  { n with
    recvErrors := n.recvErrors ++ [r.error]
    toSender :=
      if r.error = .bufferOverflw then n.toSender ++ [sendFc c fsOvflw] else n.toSender
    rctx := none }

/-- `ISOTP_RX_STATE_RECYCLE`: the message is dispatched and the context freed. -/
def recycle (r : RecvCtx) (n : Network) : Network :=
  { n with delivered := n.delivered ++ [r.buffer], rctx := none }

/-- `receive_state_machine`. -/
def receiveStateMachine (r : RecvCtx) (n : Network) : Network :=
  match r.state with
  | .processSf => recycle { r with remLen := 0 } n
  | .processFf =>
    if c.bs = 0 ∧ r.remLen > c.rxMaxPacketCount * (canMaxDlen c - 1) then
      receiveErr c (r.reportError .bufferOverflw) n
    else
      let r := if c.bs ≠ 0 then { r with bs := c.bs } else r
      sendCts c { r with wft := 0xFF } n
  | .tryAlloc => sendCts c r n
  | .sendFc => sendCts c r n
  | .sendWait =>
    let r := { r with wft := r.wft + 1 }
    if r.wft.toNat < c.wftMax then
      { n with
        rctx := some { r with state := .tryAlloc }
        toSender := n.toSender ++ [sendFc c fsWait] }
    else receiveErr c (r.reportError .bufferOverflw) n
  | .err => receiveErr c r n
  | .recycle => recycle r n
  | _ => { n with rctx := some r }

/-- `net_buf_add_mem` of `len` bytes from `index` on, which are taken off the remaining length. -/
def RecvCtx.add (r : RecvCtx) (f : CanFrame) (index len : ℕ) : RecvCtx :=
  { r with
    buffer := r.buffer ++ (f.data.drop index).take len
    remLen := toUint12 (r.remLen - len) }

/-- `process_ff_sf`. The remaining length has twelve bits. -/
def RecvCtx.processFfSf (r : RecvCtx) (f : CanFrame) : RecvCtx :=
  if pciType (f.byte 0) = typeFf then
    if f.dlc ≠ c.ffDlMin then r
    else
      let r := { r with remLen := ffLength f % 4096, state := .processFf, snExpected := 1 }
      r.add f 2 (canMaxDlen c - 2)
  else if pciType (f.byte 0) = typeSf then
    let (len, index) := sfLength c f
    let r := { r with remLen := len }
    let payloadLen := min len (canMaxDlen c - index)
    if payloadLen > c.dlcToBytes f.dlc then r
    else { r with state := .processSf }.add f index payloadLen
  else r.reportError .unexpPdu

/-- `process_cf`. -/
def RecvCtx.processCf (r : RecvCtx) (f : CanFrame) : RecvCtx :=
  if pciType (f.byte 0) ≠ typeCf then { r.reportError .unexpPdu with work := true }
  else
    let expected := r.snExpected
    let r := { r with snExpected := (r.snExpected + 1) % 16 }
    if (f.byte 0 &&& 0x0F).toNat ≠ expected then { r.reportError .wrongSn with work := true }
    else
      let r := r.add f 1 (toUint32 (min (r.remLen : ℤ) (c.dlcToBytes f.dlc - 1)))
      if r.remLen = 0 then { r with state := .recycle, work := true }
      else if c.bs ≠ 0 then
        let r := { r with bs := r.bs - 1 }
        if r.bs = 0 then { r with bs := c.bs, state := .tryAlloc } else r
      else r

/-- `receive_can_rx`: only a first or a single frame makes a context. -/
def receiveCanRx (f : CanFrame) (n : Network) : Network :=
  let createContext := pciType (f.byte 0) = typeFf ∨ pciType (f.byte 0) = typeSf
  match n.rctx, decide createContext with
  | none, false => n
  | rctx, _ =>
    let r := rctx.getD {}
    match r.state with
    | .waitFfSf => { n with rctx := some { r.processFfSf c f with work := true } }
    | .waitCf =>
      let r := r.processCf c f
      if r.state = .waitCf then { n with rctx := some r }
      else { n with rctx := some { r with work := true } }
    | _ => { n with rctx := some { r with work := true } }

end Receiver

/-! ## Events -/

/-- What can happen next. A work item that sends a frame finds stale bytes on its stack. -/
inductive IsoTpEvent
  | sendWork (stale : Bytes)
  | semTaken (stale : Bytes)
  | singleDone
  | txDone
  | timerExpired
  | frameToReceiver
  | frameToSender
  | receiveWork

/-- The network after an event, if it can happen. -/
def step (c : IsoTpConfig) (n : Network) : IsoTpEvent → Option Network
  | .sendWork stale =>
    if n.sctx.work ∧ ¬ n.sctx.taking then
      some (sendStateMachine c stale { n with sctx := { n.sctx with work := false } })
    else none
  | .semTaken stale =>
    if n.sctx.taking ∧ n.sctx.sem then
      some (sendCfRound c stale { n with sctx := { n.sctx with taking := false, sem := false } })
    else none
  | .singleDone =>
    if n.singleCb = 0 then none
    else some { n with singleCb := n.singleCb - 1, sent := n.sent ++ [.ok], sctx := n.sctx.free }
  | .txDone =>
    if n.txCb = 0 then none
    else some { n with txCb := n.txCb - 1, sctx := n.sctx.txCallback }
  | .timerExpired =>
    if n.sctx.timer = .st then some { n with sctx := n.sctx.timeout } else none
  | .frameToReceiver =>
    match n.toReceiver with
    | [] => none
    | f :: fs => some (receiveCanRx c f { n with toReceiver := fs })
  | .frameToSender =>
    match n.toSender with
    | [] => none
    | f :: fs =>
      some { n with
        toSender := fs
        sctx := if n.sctx.listed then n.sctx.canRx c f else n.sctx }
  | .receiveWork =>
    match n.rctx with
    | none => none
    | some r =>
      if r.work then some (receiveStateMachine c { r with work := false } n) else none

end IsoTp

end ThingSet
