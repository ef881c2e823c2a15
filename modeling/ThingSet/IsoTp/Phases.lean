import ThingSet.IsoTp.Sender

/-!
# The phases of an exchange

Between events the exchange of one message is in one of the phases of `Phase`: the frames on the
bus are the consecutive frames that the sender has sent and the receiver has not received, and
the block counters of both sides differ by their number.

* `phase_step`: every event leads from a phase to a phase.
* `phase_progress`: before the message is delivered, some event can happen.
-/

namespace ThingSet.IsoTp

open Transition

variable {c : IsoTpConfig} {msg : Bytes} {j k : ℕ} {f : CanFrame} {fs : List CanFrame}
  {s : SendCtx} {r : RecvCtx} {n n' : Network} {e : IsoTpEvent}

/-! ## Phases -/

/-- The receiver waits for consecutive frame `j`. -/
structure WaitCf (c : IsoTpConfig) (msg : Bytes) (j : ℕ) (r : RecvCtx) : Prop where
  received : Received c msg j r
  state : r.state = .waitCf
  work : r.work = false

/-- The receiver's work item is about to send a flow control frame, for a block that starts with
consecutive frame `k`. -/
structure Turn (c : IsoTpConfig) (msg : Bytes) (k : ℕ) (r : RecvCtx) : Prop where
  received : Received c msg k r
  work : r.work = true
  state : r.state = .processFf ∨ r.state = .tryAlloc ∧ (c.bs ≠ 0 → r.bs = c.bs)

/-- The sender's side while consecutive frames are on the bus, `k` sent and `j` received. The
blocks of both sides end with the same frame. -/
inductive Flow (c : IsoTpConfig) (msg : Bytes) (j k : ℕ) (r : RecvCtx) (n : Network) : Prop
  | sending (mode : Sending c msg k n.sctx n.txCb) (cb : n.singleCb = 0)
      (block : c.bs ≠ 0 → r.bs.toNat + j = n.sctx.bs.toNat + k)
  | blockEnd (mode : WaitFc c msg k n.sctx) (cb : n.singleCb = 0)
      (more : pos c msg k < msg.length) (bs : c.bs ≠ 0) (block : r.bs.toNat + j = k) (lt : j < k)
  | allSent (mode : SenderDone n) (last : pos c msg k = msg.length)
      (more : ∀ i < k, pos c msg i < msg.length) (block : c.bs ≠ 0 → k ≤ r.bs.toNat + j) (lt : j < k)

/-- The phases of the exchange of one message. -/
inductive Phase (c : IsoTpConfig) (msg : Bytes) (n : Network) : Prop
  /-- The first frame is about to be sent. -/
  | start (long : canMaxDlen c - 1 ≤ msg.length) (state : n.sctx.state = .sendFf)
      (work : n.sctx.work = true) (taking : n.sctx.taking = false) (timer : n.sctx.timer ≠ .st) (listed : n.sctx.listed = true)
      (data : n.sctx.data = msg) (remLen : n.sctx.remLen = msg.length)
      (cb : n.singleCb = 0 ∧ n.txCb = 0) (bus : n.toReceiver = [] ∧ n.toSender = [])
      (receiver : n.rctx = none) (delivered : n.delivered = [])
  /-- The first frame is on the bus. -/
  | first (f : CanFrame) (long : canMaxDlen c - 1 ≤ msg.length) (mode : WaitFc c msg 0 n.sctx)
      (cb : n.singleCb = 0) (ff : IsFf c msg f) (bus : n.toReceiver = [f] ∧ n.toSender = []) (receiver : n.rctx = none)
      (delivered : n.delivered = [])
  /-- The receiver is about to ask for a block. -/
  | turn (k : ℕ) (r : RecvCtx) (mode : WaitFc c msg k n.sctx) (cb : n.singleCb = 0)
      (more : pos c msg k < msg.length) (bus : n.toReceiver = [] ∧ n.toSender = [])
      (receiver : n.rctx = some r) (turn : Turn c msg k r) (delivered : n.delivered = [])
  /-- A flow control frame is on the bus. -/
  | flowControl (k : ℕ) (r : RecvCtx) (mode : WaitFc c msg k n.sctx) (cb : n.singleCb = 0)
      (more : pos c msg k < msg.length) (bus : n.toReceiver = [] ∧ n.toSender = [sendFc c fsCts])
      (receiver : n.rctx = some r) (wait : WaitCf c msg k r) (block : c.bs ≠ 0 → r.bs = c.bs)
      (delivered : n.delivered = [])
  /-- Consecutive frames are sent and received. -/
  | flow (j k : ℕ) (r : RecvCtx) (mode : Flow c msg j k r n) (frames : CfFrames c msg j k n.toReceiver)
      (bus : n.toSender = []) (receiver : n.rctx = some r) (wait : WaitCf c msg j r)
      (delivered : n.delivered = [])
  /-- The single frame is on the bus. -/
  | single (f : CanFrame) (mode : SenderDone n) (sf : IsSf c msg f)
      (bus : n.toReceiver = [f] ∧ n.toSender = []) (receiver : n.rctx = none)
      (delivered : n.delivered = [])
  /-- The receiver has the whole message. -/
  | last (r : RecvCtx) (mode : SenderDone n) (bus : n.toReceiver = [] ∧ n.toSender = [])
      (receiver : n.rctx = some r) (work : r.work = true)
      (state : r.state = .processSf ∨ r.state = .recycle) (buffer : r.buffer = msg)
      (delivered : n.delivered = [])
  /-- The message is delivered. -/
  | done (mode : SenderDone n) (bus : n.toReceiver = [] ∧ n.toSender = [])
      (receiver : n.rctx = none) (delivered : n.delivered = [msg])

theorem CfFrames.length_eq (h : CfFrames c msg j k fs) : j + fs.length = k := by
  induction fs generalizing j with
  | nil => exact h
  | cons f fs ih =>
    have := ih h.2
    rw [List.length_cons]
    omega

theorem sub_one_eq_zero_iff {b : UInt8} : b - 1 = 0 ↔ b.toNat = 1 := by
  rw [← UInt8.toNat_inj, UInt8.toNat_sub]
  have := b.toNat_lt
  simp
  omega

theorem toNat_sub_one {b : UInt8} (h : 0 < b.toNat) : (b - 1).toNat = b.toNat - 1 :=
  UInt8.toNat_sub_of_le _ _ (UInt8.le_iff_toNat_le.2 h)

theorem pos_mono (h : j ≤ k) : pos c msg j ≤ pos c msg k := by
  have : j * (canMaxDlen c - 1) ≤ k * (canMaxDlen c - 1) := Nat.mul_le_mul_right _ h
  rw [pos, pos]
  omega

/-! ## Events on the sender's node -/

/-- The events on the sender's node while consecutive frames are on the bus. -/
theorem flow_sender_step (he : e.ofSender) (hstep : step c n e = some n')
    (mode : Flow c msg j k r n) (frames : CfFrames c msg j k n.toReceiver)
    (bus : n.toSender = []) (receiver : n.rctx = some r) (wait : WaitCf c msg j r)
    (delivered : n.delivered = []) : Phase c msg n' := by
  cases mode with
  | sending mode cb block =>
    rcases sending_step mode cb he hstep with ⟨s, p, rfl, mode', hbs⟩ | ⟨f, s, rfl, hf, hbs, hnext⟩
    · exact .flow j k r (.sending mode' cb fun hc => by rw [hbs]; exact block hc) frames bus receiver
        wait delivered
    · have hle := frames.le
      have hblock : c.bs ≠ 0 → r.bs.toNat + j = s.bs.toNat + (k + 1) := fun hc => by
        have hne := mode.block hc
        have hpos : 0 < n.sctx.bs.toNat := Nat.pos_of_ne_zero fun h0 =>
          hne (UInt8.toNat_inj.1 h0)
        have := block hc
        rw [hbs, toNat_sub_one hpos]
        omega
      refine .flow j (k + 1) r ?_ (frames.append hf) bus receiver wait delivered
      rcases hnext with ⟨hlast, mode'⟩ | ⟨hmore, ⟨hc, hs, mode'⟩ | mode'⟩
      · refine .allSent mode' hlast (fun i hi => ?_) (fun hc => by have := hblock hc; omega) (by omega)
        have hmono : pos c msg i ≤ pos c msg k := pos_mono (by omega)
        have := mode.more
        omega
      · refine .blockEnd mode' cb hmore hc ?_ (by omega)
        have := hblock hc
        rw [hs] at this
        simpa using this
      · exact .sending mode' cb hblock
  | blockEnd mode cb more bs block lt =>
    obtain ⟨s, p, rfl, mode', -⟩ := waitFc_step mode cb he hstep
    exact .flow j k r (.blockEnd mode' cb more bs block lt) frames bus receiver wait delivered
  | allSent mode last more block lt =>
    obtain ⟨mode', hto, hfrom, hrx, hdel⟩ := senderDone_step mode he hstep
    exact .flow j k r (.allSent mode' last more block lt) (hto ▸ frames) (hfrom.trans bus)
      (hrx.trans receiver) wait (hdel.trans delivered)

/-- The events on the sender's node, in any phase. -/
theorem sender_step (hmax : msg.length ≤ 4095)
    (h : Phase c msg n) (he : e.ofSender) (hstep : step c n e = some n') : Phase c msg n' := by
  cases h with
  | start long state work taking timer listed data remLen cb bus receiver delivered =>
    cases e with
    | sendWork stale =>
      simp only [step, work, taking, Bool.false_eq_true, not_false_eq_true, and_self, if_true,
        sendStateMachine, state, Option.some.injEq] at hstep
      obtain ⟨f, s, heq, hff, hsent, htaking, -⟩ := sendFf_spec (c := c) stale
        { n with sctx := { n.sctx with state := .sendFf, work := false, taking := false } }
        data remLen listed (by omega) hmax
      rw [heq] at hstep
      subst hstep
      refine .first f long ⟨⟨hsent.1, hsent.2, hsent.3, hsent.4⟩, rfl, htaking, by simp⟩ cb.1 hff
        ⟨?_, bus.2⟩ receiver delivered
      simp [bus.1]
    | semTaken stale => simp [step, taking] at hstep
    | singleDone => simp [step, cb.1] at hstep
    | txDone => simp [step, cb.2] at hstep
    | timerExpired => simp [step, timer] at hstep
    | frameToReceiver => exact he.elim
    | frameToSender => exact he.elim
    | receiveWork => exact he.elim
  | first f long mode cb ff bus receiver delivered =>
    obtain ⟨s, p, rfl, mode', -⟩ := waitFc_step mode cb he hstep
    exact .first f long mode' cb ff bus receiver delivered
  | turn k r mode cb more bus receiver turn delivered =>
    obtain ⟨s, p, rfl, mode', -⟩ := waitFc_step mode cb he hstep
    exact .turn k r mode' cb more bus receiver turn delivered
  | flowControl k r mode cb more bus receiver wait block delivered =>
    obtain ⟨s, p, rfl, mode', -⟩ := waitFc_step mode cb he hstep
    exact .flowControl k r mode' cb more bus receiver wait block delivered
  | flow j k r mode frames bus receiver wait delivered =>
    exact flow_sender_step he hstep mode frames bus receiver wait delivered
  | single f mode sf bus receiver delivered =>
    obtain ⟨mode', hto, hfrom, hrx, hdel⟩ := senderDone_step mode he hstep
    exact .single f mode' sf ⟨hto.trans bus.1, hfrom.trans bus.2⟩ (hrx.trans receiver)
      (hdel.trans delivered)
  | last r mode bus receiver work state buffer delivered =>
    obtain ⟨mode', hto, hfrom, hrx, hdel⟩ := senderDone_step mode he hstep
    exact .last r mode' ⟨hto.trans bus.1, hfrom.trans bus.2⟩ (hrx.trans receiver) work state buffer
      (hdel.trans delivered)
  | done mode bus receiver delivered =>
    obtain ⟨mode', hto, hfrom, hrx, hdel⟩ := senderDone_step mode he hstep
    exact .done mode' ⟨hto.trans bus.1, hfrom.trans bus.2⟩ (hrx.trans receiver)
      (hdel.trans delivered)

/-! ## Frames that arrive -/

/-- The receiver's first frame of a message. -/
theorem receiveCanRx_none (hf : pciType (f.byte 0) = typeFf ∨ pciType (f.byte 0) = typeSf)
    (hrctx : n.rctx = none) :
    receiveCanRx c f n = { n with rctx := some { RecvCtx.processFfSf c {} f with work := true } } := by
  simp [receiveCanRx, hrctx, hf]

/-- A consecutive frame arrives. -/
theorem flow_frameToReceiver (hc : DlcTable c) (hmax : msg.length ≤ 4095)
    (mode : Flow c msg j k r n)
    (frames : CfFrames c msg j k n.toReceiver) (bus : n.toSender = [])
    (receiver : n.rctx = some r) (wait : WaitCf c msg j r) (delivered : n.delivered = [])
    (hstep : step c n .frameToReceiver = some n') : Phase c msg n' := by
  rcases hto : n.toReceiver with _ | ⟨f, fs⟩
  · simp [step, hto] at hstep
  · rw [hto] at frames
    obtain ⟨hf, hfs⟩ := frames
    have hlt := hfs.le
    obtain ⟨r₁, hr₁, hbs, hstate, hwork, heq⟩ := processCf_of_isCf hc hf hmax wait.received
    simp only [step, hto, receiveCanRx, receiver, Option.getD_some, wait.state,
      Option.some.injEq] at hstep
    by_cases hlast : r₁.remLen = 0
    · -- it is the last one
      have hpos : pos c msg (j + 1) = msg.length := by
        have := pos_le c msg (j + 1)
        rw [hr₁.remLen] at hlast
        omega
      rw [if_pos hlast] at heq
      rw [heq] at hstep
      simp only [reduceCtorEq, if_false] at hstep
      subst hstep
      have hlen := hfs.length_eq
      have hbuffer : r₁.buffer = msg := by rw [hr₁.buffer, hpos, List.take_length]
      have hmono : k ≠ j + 1 → pos c msg (j + 1) ≤ pos c msg k := fun _ => pos_mono hlt
      cases mode with
      | sending mode =>
        have := mode.more
        have : pos c msg (j + 1) ≤ pos c msg k := pos_mono hlt
        omega
      | blockEnd _ _ more =>
        have : pos c msg (j + 1) ≤ pos c msg k := pos_mono hlt
        omega
      | allSent mode last more =>
        have hk : k = j + 1 := by
          by_contra hne
          have := more (j + 1) (by omega)
          omega
        obtain rfl : fs = [] := List.length_eq_zero_iff.1 (by omega)
        exact .last _ ⟨mode.1, mode.2, mode.3⟩ ⟨rfl, bus⟩ rfl rfl (.inr rfl) hbuffer delivered
    · have hmore : pos c msg (j + 1) < msg.length := by
        rw [hr₁.remLen] at hlast
        omega
      rw [if_neg hlast] at heq
      by_cases hblock : c.bs ≠ 0 ∧ r.bs - 1 = 0
      · -- it is the last one of its block
        have hone : r.bs.toNat = 1 := sub_one_eq_zero_iff.1 hblock.2
        rw [if_pos hblock.1, if_pos hblock.2] at heq
        rw [heq] at hstep
        simp only [reduceCtorEq, if_false] at hstep
        subst hstep
        have hlen := hfs.length_eq
        cases mode with
        | sending mode cb block =>
          have := block hblock.1
          have hpos : 0 < n.sctx.bs.toNat := Nat.pos_of_ne_zero fun h0 =>
            mode.block hblock.1 (UInt8.toNat_inj.1 h0)
          omega
        | blockEnd mode cb more bs block lt =>
          obtain rfl : fs = [] := List.length_eq_zero_iff.1 (by omega)
          obtain rfl : j + 1 = k := by omega
          exact .turn (j + 1) _ ⟨mode.1, mode.2, mode.3, mode.4⟩ cb more ⟨rfl, bus⟩ rfl
            ⟨⟨hr₁.1, hr₁.2, hr₁.3⟩, rfl, .inr ⟨rfl, fun _ => rfl⟩⟩ delivered
        | allSent mode last more block lt =>
          have := block hblock.1
          obtain rfl : k = j + 1 := by omega
          omega
      · -- the block goes on
        obtain ⟨r₂, hr₂, hwait, hblock₂⟩ : ∃ r₂, r.processCf c f = r₂ ∧ WaitCf c msg (j + 1) r₂ ∧
            (c.bs ≠ 0 → r₂.bs = r.bs - 1) := by
          by_cases hzero : c.bs = 0
          · refine ⟨r₁, ?_, ⟨hr₁, hstate.trans wait.state, hwork.trans wait.work⟩,
              fun h => absurd hzero h⟩
            rw [heq, if_neg (by simp [hzero])]
          · refine ⟨{ r₁ with bs := r.bs - 1 }, ?_, ⟨⟨hr₁.1, hr₁.2, hr₁.3⟩,
              hstate.trans wait.state, hwork.trans wait.work⟩, fun _ => rfl⟩
            rw [heq, if_pos hzero, if_neg fun h => hblock ⟨hzero, h⟩]
        rw [hr₂, if_pos hwait.state] at hstep
        subst hstep
        -- the block counter goes down with the number of frames left in the block
        have hcount : c.bs ≠ 0 → 0 < r.bs.toNat → r₂.bs.toNat + (j + 1) = r.bs.toNat + j := by
          intro hc hpos
          rw [hblock₂ hc, toNat_sub_one hpos]
          omega
        have hne : c.bs ≠ 0 → r.bs.toNat ≠ 1 := fun hc h1 =>
          hblock ⟨hc, sub_one_eq_zero_iff.2 h1⟩
        refine .flow (j + 1) k r₂ ?_ hfs bus rfl hwait delivered
        cases mode with
        | sending mode cb block =>
          refine .sending ⟨mode.1, mode.2, mode.3, mode.4⟩ cb fun hc => ?_
          have := block hc
          rw [hcount hc (by omega)]
          exact this
        | blockEnd mode cb more bs block lt =>
          have := hne bs
          refine .blockEnd ⟨mode.1, mode.2, mode.3, mode.4⟩ cb more bs ?_ (by omega)
          rw [hcount bs (by omega)]
          exact block
        | allSent mode last more block lt =>
          have hlt' : j + 1 < k := by
            by_contra hge
            obtain rfl : k = j + 1 := by omega
            omega
          refine .allSent ⟨mode.1, mode.2, mode.3⟩ last more (fun hc => ?_) hlt'
          have := block hc
          rw [hcount hc (by omega)]
          exact this

/-- A frame arrives at the receiver, in any phase. -/
theorem frameToReceiver_step (hc : DlcTable c) (hpos : 0 < msg.length)
    (hmax : msg.length ≤ 4095)
    (h : Phase c msg n) (hstep : step c n .frameToReceiver = some n') : Phase c msg n' := by
  cases h with
  | start _ _ _ _ _ _ _ _ _ bus => simp [step, bus.1] at hstep
  | first f long mode cb ff bus receiver delivered =>
    have hd : 8 ≤ canMaxDlen c := by rcases canMaxDlen_eq c with ⟨hd, -⟩ | ⟨hd, -⟩ <;> omega
    obtain ⟨r, hr, hrec, hstate⟩ :=
      processFfSf_of_isFf (r := {}) hc ff long hmax rfl
    simp only [step, bus.1, Option.some.injEq] at hstep
    rw [receiveCanRx_none (.inl (ffLength_of_isFf ff hpos hmax).1) (by exact receiver), hr] at hstep
    subst hstep
    refine .turn 0 _ ⟨mode.1, mode.2, mode.3, mode.4⟩ cb ?_ ⟨rfl, bus.2⟩ rfl
      ⟨⟨hrec.1, hrec.2, hrec.3⟩, rfl, .inl hstate⟩ delivered
    rw [pos_zero (by omega)]
    omega
  | turn _ _ _ _ _ bus => simp [step, bus.1] at hstep
  | flowControl _ _ _ _ _ bus => simp [step, bus.1] at hstep
  | flow j k r mode frames bus receiver wait delivered =>
    exact flow_frameToReceiver hc hmax mode frames bus receiver wait delivered hstep
  | single f mode sf bus receiver delivered =>
    obtain ⟨hbuffer, hstate⟩ := processFfSf_of_isSf (r := {}) hc sf rfl
    simp only [step, bus.1, Option.some.injEq] at hstep
    obtain ⟨-, -, -, -, -, htype, -⟩ := sf
    rw [receiveCanRx_none (.inr htype) (by exact receiver)] at hstep
    subst hstep
    exact .last _ ⟨mode.1, mode.2, mode.3⟩ ⟨rfl, bus.2⟩ rfl rfl (.inl hstate) hbuffer delivered
  | last _ _ bus => simp [step, bus.1] at hstep
  | done _ bus => simp [step, bus.1] at hstep

/-- A flow control frame starts a block. -/
theorem canRx_sendFc (h : WaitFc c msg k s) :
    ∃ s', s.canRx c (sendFc c fsCts) = s' ∧ Sent c msg k s' ∧ s'.state = .sendCf ∧
      s'.taking = false ∧ s'.work = true ∧ s'.bs = c.bs := by
  obtain ⟨hsent, hstate, htaking, htimer⟩ := h
  obtain ⟨htype, hfs⟩ := nibble_fc
  refine ⟨_, rfl, ⟨?_, ?_, ?_, ?_⟩, ?_, ?_, ?_, ?_⟩ <;>
    simp [SendCtx.canRx, hstate, SendCtx.processFc, htype, hfs, htaking, hsent.1, hsent.2,
      hsent.3, hsent.4, sendFc, frameOf, CanFrame.byte]

/-- A frame arrives at the sender, in any phase. -/
theorem frameToSender_step (h : Phase c msg n) (hstep : step c n .frameToSender = some n') :
    Phase c msg n' := by
  cases h with
  | start _ _ _ _ _ _ _ _ _ bus => simp [step, bus.2] at hstep
  | first _ _ _ _ _ bus => simp [step, bus.2] at hstep
  | turn _ _ _ _ _ bus => simp [step, bus.2] at hstep
  | flowControl k r mode cb more bus receiver wait block delivered =>
    obtain ⟨s, hs, hsent, hstate, htaking, hwork, hbs⟩ := canRx_sendFc mode
    simp only [step, bus.2, mode.sent.listed, if_true, hs, Option.some.injEq] at hstep
    subst hstep
    refine .flow k k r (.sending ⟨hsent, more, fun hc => ?_, .inl ⟨hstate, htaking, .inl hwork⟩⟩ cb
      fun hc => ?_) ?_ rfl receiver wait delivered
    · rwa [hbs]
    · rw [block hc, ← hbs]
    · rw [bus.1]
      rfl
  | flow _ _ _ _ _ bus => simp [step, bus] at hstep
  | single _ _ _ bus => simp [step, bus.2] at hstep
  | last _ _ bus => simp [step, bus.2] at hstep
  | done _ bus => simp [step, bus.2] at hstep

/-! ## The receiver's work item -/

/-- The receiver's work item runs, in any phase. -/
theorem receiveWork_step (hbuf : c.bs = 0 → msg.length ≤ c.rxMaxPacketCount * (canMaxDlen c - 1))
    (h : Phase c msg n) (hstep : step c n .receiveWork = some n') : Phase c msg n' := by
  cases h with
  | start _ _ _ _ _ _ _ _ _ _ receiver => simp [step, receiver] at hstep
  | first _ _ _ _ _ _ receiver => simp [step, receiver] at hstep
  | turn k r mode cb more bus receiver turn delivered =>
    obtain ⟨hrec, hwork, hstate⟩ := turn
    have hmode : ∀ n' : Network, n'.sctx = n.sctx → WaitFc c msg k n'.sctx := fun _ h => h ▸ mode
    simp only [step, receiver, hwork, if_true, Option.some.injEq] at hstep
    subst hstep
    rcases hstate with hstate | ⟨hstate, hbs⟩
    · -- the message fits into the buffers
      have hfits : ¬ (c.bs = 0 ∧ r.remLen > c.rxMaxPacketCount * (canMaxDlen c - 1)) := fun h => by
        have := hbuf h.1
        have := hrec.remLen
        omega
      simp only [receiveStateMachine, hstate, hfits, if_false, sendCts]
      by_cases hzero : c.bs = 0
      · exact .flowControl k _ mode cb more ⟨bus.1, by simp [bus.2]⟩ rfl
          ⟨⟨by simpa [hzero] using hrec.1, by simpa [hzero] using hrec.2,
            by simpa [hzero] using hrec.3⟩, rfl, by simp [hzero]⟩ (fun h => absurd hzero h) delivered
      · exact .flowControl k _ mode cb more ⟨bus.1, by simp [bus.2]⟩ rfl
          ⟨⟨by simpa [hzero] using hrec.1, by simpa [hzero] using hrec.2,
            by simpa [hzero] using hrec.3⟩, rfl, by simp [hzero]⟩ (fun _ => by simp [hzero])
          delivered
    · simp only [receiveStateMachine, hstate, sendCts]
      exact .flowControl k _ mode cb more ⟨bus.1, by simp [bus.2]⟩ rfl
        ⟨⟨hrec.1, hrec.2, hrec.3⟩, rfl, rfl⟩ hbs delivered
  | flowControl _ _ _ _ _ _ receiver wait => simp [step, receiver, wait.work] at hstep
  | flow _ _ _ _ _ _ receiver wait => simp [step, receiver, wait.work] at hstep
  | single _ _ _ _ receiver => simp [step, receiver] at hstep
  | last r mode bus receiver work state buffer delivered =>
    simp only [step, receiver, work, if_true, Option.some.injEq] at hstep
    subst hstep
    have hmode : SenderDone { n with delivered := n.delivered ++ [r.buffer], rctx := none } :=
      ⟨mode.1, mode.2, mode.3⟩
    rcases state with state | state <;>
      simp only [receiveStateMachine, state, recycle] <;>
      exact .done hmode bus rfl (by simp [delivered, buffer])
  | done _ _ receiver => simp [step, receiver] at hstep

/-! ## Runs -/

section Run

variable (hc : DlcTable c) (hpos : 0 < msg.length) (hmax : msg.length ≤ 4095)
  (hbuf : c.bs = 0 → msg.length ≤ c.rxMaxPacketCount * (canMaxDlen c - 1))

include hc hpos hmax hbuf in
/-- Every event leads from a phase to a phase. -/
theorem phase_step (h : Phase c msg n) (hstep : step c n e = some n') : Phase c msg n' := by
  cases e with
  | sendWork stale => exact sender_step (e := .sendWork stale) hmax h trivial hstep
  | semTaken stale => exact sender_step (e := .semTaken stale) hmax h trivial hstep
  | singleDone => exact sender_step (e := .singleDone) hmax h trivial hstep
  | txDone => exact sender_step (e := .txDone) hmax h trivial hstep
  | timerExpired => exact sender_step (e := .timerExpired) hmax h trivial hstep
  | frameToReceiver => exact frameToReceiver_step hc hpos hmax h hstep
  | frameToSender => exact frameToSender_step h hstep
  | receiveWork => exact receiveWork_step hbuf h hstep

include hpos hmax in
/-- `isotp_fast_send` starts the exchange. -/
theorem fastSend_phase (stale : Bytes) : ∃ n, fastSend c stale msg = some n ∧ Phase c msg n := by
  by_cases hlen : msg.length ≤ canMaxDlen c - sfLenByte c
  · obtain ⟨f, heq, hf⟩ := fastSend_of_le stale hpos hlen
    exact ⟨_, heq, .single f ⟨rfl, by simp, .inr ⟨rfl, rfl⟩⟩ hf ⟨rfl, rfl⟩ rfl rfl⟩
  · have hlong : canMaxDlen c - 1 ≤ msg.length := by
      rcases canMaxDlen_eq c with ⟨hd, hs, -⟩ | ⟨hd, hs, -⟩ <;> omega
    have hle : ¬ msg.length > maxLen := by rw [maxLen]; omega
    refine ⟨{ sctx :=
      { data := msg, remLen := msg.length % 4096, bs := c.bs, stmin := c.stmin, work := true } },
      by simp [fastSend, hlen, hle], ?_⟩
    exact .start hlong rfl rfl rfl (by simp) rfl rfl (Nat.mod_eq_of_lt (by omega)) ⟨rfl, rfl⟩
      ⟨rfl, rfl⟩ rfl rfl

/-- Before the message is delivered, some event can happen. -/
theorem phase_progress (h : Phase c msg n) (hfinal : Final (step c) n) : n.delivered = [msg] := by
  -- a frame on the bus arrives, and a work item that is submitted runs
  have hto : ∀ f fs, n.toReceiver ≠ f :: fs := fun f fs hto => by
    have := hfinal .frameToReceiver
    simp [step, hto] at this
  have hfrom : ∀ f fs, n.toSender ≠ f :: fs := fun f fs hfrom => by
    have := hfinal .frameToSender
    simp [step, hfrom] at this
  have hrwork : ∀ r, n.rctx = some r → r.work = false := fun r hr => by
    have := hfinal .receiveWork
    simpa [step, hr] using this
  cases h with
  | start long state work taking =>
    have := hfinal (.sendWork [])
    simp [step, work, taking] at this
  | first f _ _ _ _ bus => exact absurd bus.1 (hto f [])
  | turn k r _ _ _ _ receiver turn =>
    have := hrwork r receiver
    rw [turn.work] at this
    simp at this
  | flowControl k r _ _ _ bus => exact absurd bus.2 (hfrom _ [])
  | flow j k r mode frames =>
    rcases hfs : n.toReceiver with _ | ⟨f, fs⟩
    · rw [hfs] at frames
      obtain rfl : j = k := frames
      cases mode with
      | sending mode cb =>
        have hwork := hfinal (.sendWork [])
        have hsem := hfinal (.semTaken [])
        have htx := hfinal .txDone
        have htimer := hfinal .timerExpired
        simp only [step, ite_eq_right_iff, reduceCtorEq, imp_false, ite_eq_left_iff,
          Decidable.not_not] at hwork hsem htx htimer
        obtain ⟨-, -, -, hready⟩ := mode
        rcases hready with ⟨-, htaking, hready⟩ | ⟨-, htaking, -, hready⟩ |
          ⟨-, htaking, -, hready⟩ <;> simp_all
      | blockEnd _ _ _ _ _ lt => omega
      | allSent _ _ _ _ lt => omega
    · exact absurd hfs (hto f fs)
  | single f _ _ bus => exact absurd bus.1 (hto f [])
  | last r _ _ receiver work =>
    have := hrwork r receiver
    rw [work] at this
    simp at this
  | done _ _ _ delivered => exact delivered

end Run

end ThingSet.IsoTp
