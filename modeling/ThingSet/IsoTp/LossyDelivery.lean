import ThingSet.IsoTp.Loss

/-!
# Delivery over a bus that loses frames

* `lossyPhase_step`: every event leads from a phase to a phase and uses something up.
* `delivered_of_lossy`: the receiver delivers the whole message, or reports one error, or neither, and
  every run ends without a receive context.
-/

namespace ThingSet.IsoTp

open Transition

variable {c : IsoTpConfig} {msg : Bytes} {j k : ℕ} {f : CanFrame} {n n' : Network}

/-! ## Phases -/

/-- Nothing has been delivered or reported. -/
def Network.Untouched (n : Network) : Prop := n.rctx = none ∧ n.delivered = [] ∧ n.recvErrors = []

/-- The phases of the exchange of one message over a bus that loses frames. -/
inductive LossyPhase (c : IsoTpConfig) (msg : Bytes) (n : Network) : Prop
  /-- The first frame is about to be sent. -/
  | start (long : canMaxDlen c - 1 ≤ msg.length) (state : n.sctx.state = .sendFf)
      (work : n.sctx.work = true) (taking : n.sctx.taking = false) (timer : n.sctx.timer = .stopped)
      (listed : n.sctx.listed = true) (data : n.sctx.data = msg) (remLen : n.sctx.remLen = msg.length)
      (cb : n.singleCb = 0 ∧ n.txCb = 0) (bus : n.toReceiver = [] ∧ n.toSender = [])
      (receiver : n.Untouched)
  /-- The first frame is on the bus. -/
  | first (f : CanFrame) (long : canMaxDlen c - 1 ≤ msg.length) (sender : SenderOk c msg 0 n.sctx)
      (idle : n.sctx.Idle) (cb : n.singleCb = 0) (ff : IsFf c msg f)
      (bus : n.toReceiver = [f] ∧ n.toSender = []) (receiver : n.Untouched)
  /-- `k` consecutive frames have been sent, and of those before `j` none is on the bus. -/
  | flow (j k : ℕ) (sender : SenderOk c msg k n.sctx) (cb : n.singleCb = 0)
      (frames : SomeCfFrames c msg j k n.toReceiver) (receiver : Outcome c msg j n)
  /-- The message is a single frame. -/
  | single (sender : n.sctx.work = false ∧ n.sctx.taking = false ∧ n.sctx.timer = .stopped ∧ n.txCb = 0)
      (bus : n.toSender = [])
      (receiver : (∃ f, n.toReceiver = [f] ∧ IsSf c msg f ∧ n.Untouched) ∨
        n.toReceiver = [] ∧ Outcome c msg 0 n ∧ ∀ r ∈ n.rctx, r.state = .processSf)

variable {le : LossyEvent}

/-- The first frame is sent. -/
theorem LossyPhase.start_step (hmax : msg.length ≤ 4095) (long : canMaxDlen c - 1 ≤ msg.length)
    (state : n.sctx.state = .sendFf) (work : n.sctx.work = true) (taking : n.sctx.taking = false)
    (timer : n.sctx.timer = .stopped) (listed : n.sctx.listed = true) (data : n.sctx.data = msg)
    (remLen : n.sctx.remLen = msg.length) (cb : n.singleCb = 0 ∧ n.txCb = 0)
    (bus : n.toReceiver = [] ∧ n.toSender = []) (receiver : n.Untouched)
    (hstep : lossyStep c n le = some n') : LossyPhase c msg n' ∧ n'.lossyMeasure c < n.lossyMeasure c := by
  cases le with
  | event e =>
    cases e with
    | sendWork stale =>
      simp only [lossyStep, step, work, taking, Bool.false_eq_true, not_false_eq_true, and_self, if_true,
        sendStateMachine, state, Option.some.injEq] at hstep
      obtain ⟨f, s, heq, hff, hsent, htaking, hwork⟩ := sendFf_spec (c := c) stale
        { n with sctx := { n.sctx with state := .sendFf, work := false, taking := false } }
        data remLen listed (by omega) hmax
      rw [heq] at hstep
      subst hstep
      have hpos : pos c msg 0 < msg.length ∧ 0 < pos c msg 0 := by
        rw [pos_zero (by omega)]
        rcases canMaxDlen_eq c with ⟨hd, -⟩ | ⟨hd, -⟩ <;> omega
      have hremLen := hsent.remLen
      refine ⟨.first f long ⟨TxState.noConfusion, fun _ => ⟨⟨hsent.1, hsent.2, hsent.3, hsent.4⟩, hpos.1⟩⟩
        ⟨TxState.noConfusion, TxState.noConfusion, htaking⟩ cb.1 hff ⟨by simp [bus.1], bus.2⟩ receiver, ?_⟩
      have hle := SendCtx.lossyMeasure_le c { s with timer := .bs, state := .waitFc }
      have hmul : (lossyWeight c + 8) * s.remLen + (lossyWeight c + 8) ≤
          (lossyWeight c + 8) * n.sctx.remLen := by
        rw [← Nat.mul_succ]
        exact Nat.mul_le_mul_left _ (by omega)
      have hlow : (lossyWeight c + 8) * n.sctx.remLen ≤ n.sctx.lossyMeasure c := by
        rw [SendCtx.lossyMeasure]
        omega
      simp only [Network.lossyMeasure, bus.1, List.length_append, List.length_singleton, List.length_nil]
      simp only at hle
      omega
    | semTaken stale => simp [lossyStep, step, taking] at hstep
    | singleDone => simp [lossyStep, step, cb.1] at hstep
    | txDone => simp [lossyStep, step, cb.2] at hstep
    | timerExpired => simp [lossyStep, step, timer] at hstep
    | frameToReceiver => simp [lossyStep, step, bus.1] at hstep
    | frameToSender => simp [lossyStep, step, bus.2] at hstep
    | receiveWork => simp [lossyStep, step, receiver.1] at hstep
  | loseToReceiver i => simp [lossyStep, bus.1] at hstep
  | loseToSender i => simp [lossyStep, bus.2] at hstep
  | sendTimeout => simp [lossyStep, timer] at hstep
  | receiveTimeout => simp [lossyStep, receiver.1] at hstep

/-- The first frame arrives, or is lost. -/
theorem LossyPhase.first_step (hc : DlcTable c) (hpos : 0 < msg.length) (hmax : msg.length ≤ 4095)
    (long : canMaxDlen c - 1 ≤ msg.length) (sender : SenderOk c msg 0 n.sctx) (idle : n.sctx.Idle)
    (cb : n.singleCb = 0) (ff : IsFf c msg f) (bus : n.toReceiver = [f] ∧ n.toSender = [])
    (receiver : n.Untouched) (hstep : lossyStep c n le = some n') :
    LossyPhase c msg n' ∧ n'.lossyMeasure c < n.lossyMeasure c := by
  have hsender : ∀ e : IsoTpEvent, e.ofSender → step c n e = some n' →
      LossyPhase c msg n' ∧ n'.lossyMeasure c < n.lossyMeasure c := by
    intro e he hstep
    obtain ⟨hlt, ⟨s, p, l, rfl, hs, hidle⟩ | ⟨_, _, _, -, -, -, -, hidle⟩⟩ :=
      sender_lossy sender cb he hstep
    · exact ⟨.first f long hs (hidle idle) cb ff bus receiver, hlt⟩
    · exact absurd idle hidle
  obtain ⟨hrctx, hdelivered, herrors⟩ := receiver
  cases le with
  | event e =>
    cases e with
    | sendWork stale => exact hsender (.sendWork stale) trivial hstep
    | semTaken stale => exact hsender (.semTaken stale) trivial hstep
    | singleDone => exact hsender .singleDone trivial hstep
    | txDone => exact hsender .txDone trivial hstep
    | timerExpired => exact hsender .timerExpired trivial hstep
    | frameToReceiver =>
      have hlt := lossyMeasure_receiveCanRx c f [] bus.1
      simp only [lossyStep, step, bus.1, Option.some.injEq] at hstep
      subst hstep
      refine ⟨?_, hlt⟩
      obtain ⟨r, hr, hrec, hstate⟩ := processFfSf_of_isFf (r := {}) hc ff long hmax rfl
      rw [receiveCanRx_none (.inl (ffLength_of_isFf ff hpos hmax).1) (by exact hrctx), hr]
      have hmore : 0 < r.remLen := by
        rw [hrec.remLen, pos_zero (by omega)]
        omega
      refine .flow 0 0 sender cb (Nat.le_refl 0) (.inl ⟨_, rfl, ?_, hdelivered, herrors⟩)
      simp only [RecvCtx.Ok, hstate, and_true]
      exact ⟨0, (hrec.accepted hmore).of_fields rfl rfl rfl⟩
    | frameToSender => simp [lossyStep, step, bus.2] at hstep
    | receiveWork => simp [lossyStep, step, hrctx] at hstep
  | loseToReceiver i =>
    simp only [lossyStep, bus.1, List.length_singleton, Option.ite_none_right_eq_some,
      Option.some.injEq] at hstep
    obtain ⟨hi, rfl⟩ := hstep
    obtain rfl : i = 0 := by omega
    refine ⟨.flow 0 0 sender cb (Nat.le_refl 0) (.inr ⟨hrctx, .inl ⟨hdelivered, ?_⟩⟩), ?_⟩
    · simp [herrors]
    · simp only [Network.lossyMeasure, bus.1, List.eraseIdx_cons_zero, List.length_singleton, List.length_nil]
      have : 0 < lossyWeight c := Nat.succ_pos _
      omega
  | loseToSender i => simp [lossyStep, bus.2] at hstep
  | sendTimeout =>
    obtain ⟨htimer, hstep⟩ := Option.ite_none_right_eq_some.1 hstep
    obtain rfl := Option.some.inj hstep
    obtain ⟨h', hidle, hlt⟩ := sender.timeout (c := c) (by rw [htimer]; exact Timer.noConfusion)
    exact ⟨.first f long h' (hidle idle) cb ff bus ⟨hrctx, hdelivered, herrors⟩,
      Network.lossyMeasure_lt_of_sctx (by omega)⟩
  | receiveTimeout => simp [lossyStep, hrctx] at hstep

theorem Outcome.of_receiver (h : Outcome c msg j n) (hrctx : n'.rctx = n.rctx)
    (hdelivered : n'.delivered = n.delivered) (herrors : n'.recvErrors = n.recvErrors) :
    Outcome c msg j n' := by
  rw [Outcome, hrctx, hdelivered, herrors]
  exact h

/-- Consecutive frames are sent, received and lost. -/
theorem LossyPhase.flow_step (hc : DlcTable c) (hmax : msg.length ≤ 4095) (hwft : c.wftMax ≤ 255)
    (sender : SenderOk c msg k n.sctx) (cb : n.singleCb = 0)
    (frames : SomeCfFrames c msg j k n.toReceiver) (receiver : Outcome c msg j n)
    (hstep : lossyStep c n le = some n') : LossyPhase c msg n' ∧ n'.lossyMeasure c < n.lossyMeasure c := by
  have hsender : ∀ e : IsoTpEvent, e.ofSender → step c n e = some n' →
      LossyPhase c msg n' ∧ n'.lossyMeasure c < n.lossyMeasure c := by
    intro e he hstep
    obtain ⟨hlt, ⟨s, p, l, rfl, hs, -⟩ | ⟨s, p, f, rfl, hf, hpos, hs, -⟩⟩ :=
      sender_lossy sender cb he hstep
    · exact ⟨.flow j k hs cb frames (receiver.of_receiver rfl rfl rfl), hlt⟩
    · exact ⟨.flow j (k + 1) hs cb (frames.append hpos hf) (receiver.of_receiver rfl rfl rfl), hlt⟩
  have hreceiver : ReceiverFrame c msg j n n' →
      LossyPhase c msg n' ∧ n'.lossyMeasure c < n.lossyMeasure c := fun h =>
    ⟨.flow j k (h.sctx ▸ sender) (h.singleCb.trans cb) (h.toReceiver ▸ frames) h.outcome, h.measure⟩
  cases le with
  | event e =>
    cases e with
    | sendWork stale => exact hsender (.sendWork stale) trivial hstep
    | semTaken stale => exact hsender (.semTaken stale) trivial hstep
    | singleDone => exact hsender .singleDone trivial hstep
    | txDone => exact hsender .txDone trivial hstep
    | timerExpired => exact hsender .timerExpired trivial hstep
    | frameToReceiver =>
      rcases hto : n.toReceiver with _ | ⟨f, fs⟩
      · simp [lossyStep, step, hto] at hstep
      · have hlt := lossyMeasure_receiveCanRx c f fs hto
        simp only [lossyStep, step, hto, Option.some.injEq] at hstep
        subst hstep
        rw [hto] at frames
        obtain ⟨i, hij, hi, hf, hfs⟩ := frames
        have houtcome := Outcome.receiveCanRx (n := { n with toReceiver := fs }) hc hmax hf hi hij
          (receiver.of_receiver rfl rfl rfl)
        obtain ⟨r, hr⟩ := receiveCanRx_rctx c f { n with toReceiver := fs }
        rw [hr] at hlt houtcome ⊢
        exact ⟨.flow (i + 1) k sender cb hfs houtcome, hlt⟩
    | frameToSender =>
      rcases hfrom : n.toSender with _ | ⟨f, fs⟩
      · simp [lossyStep, step, hfrom] at hstep
      · simp only [lossyStep, step, hfrom, Option.some.injEq] at hstep
        subst hstep
        obtain ⟨hs, hle⟩ := sender.canRx f
        refine ⟨.flow j k ?_ cb frames (receiver.of_receiver rfl rfl rfl), ?_⟩
        · dsimp only
          split
          · exact hs
          · exact sender
        · simp only [Network.lossyMeasure, hfrom, List.length_cons]
          split <;> omega
    | receiveWork => exact hreceiver (receiveWork_lossy hwft receiver hstep)
  | loseToReceiver i =>
    obtain ⟨hi, hstep⟩ := Option.ite_none_right_eq_some.1 hstep
    obtain rfl := Option.some.inj hstep
    refine ⟨.flow j k sender cb (frames.eraseIdx i) (receiver.of_receiver rfl rfl rfl), ?_⟩
    have hlen : n.toReceiver.length = (n.toReceiver.eraseIdx i).length + 1 := by
      rw [List.length_eraseIdx_of_lt hi]
      omega
    simp only [Network.lossyMeasure, hlen, Nat.mul_succ]
    have : 0 < lossyWeight c := Nat.succ_pos _
    omega
  | loseToSender i =>
    obtain ⟨hi, hstep⟩ := Option.ite_none_right_eq_some.1 hstep
    obtain rfl := Option.some.inj hstep
    refine ⟨.flow j k sender cb frames (receiver.of_receiver rfl rfl rfl), ?_⟩
    have hlen := List.length_eraseIdx_of_lt hi
    simp only [Network.lossyMeasure]
    omega
  | sendTimeout =>
    obtain ⟨htimer, hstep⟩ := Option.ite_none_right_eq_some.1 hstep
    obtain rfl := Option.some.inj hstep
    obtain ⟨h', -, hlt⟩ := sender.timeout (c := c) (by rw [htimer]; exact Timer.noConfusion)
    exact ⟨.flow j k h' cb frames (receiver.of_receiver rfl rfl rfl),
      Network.lossyMeasure_lt_of_sctx (by omega)⟩
  | receiveTimeout => exact hreceiver (receiveTimeout_lossy receiver hstep)

/-- The single frame arrives, or is lost. -/
theorem LossyPhase.single_step (hc : DlcTable c) (hwft : c.wftMax ≤ 255)
    (sender : n.sctx.work = false ∧ n.sctx.taking = false ∧ n.sctx.timer = .stopped ∧ n.txCb = 0)
    (bus : n.toSender = [])
    (receiver : (∃ f, n.toReceiver = [f] ∧ IsSf c msg f ∧ n.Untouched) ∨
      n.toReceiver = [] ∧ Outcome c msg 0 n ∧ ∀ r ∈ n.rctx, r.state = .processSf)
    (hstep : lossyStep c n le = some n') : LossyPhase c msg n' ∧ n'.lossyMeasure c < n.lossyMeasure c := by
  obtain ⟨work, taking, timer, cb⟩ := sender
  cases le with
  | event e =>
    cases e with
    | sendWork stale => simp [lossyStep, step, work] at hstep
    | semTaken stale => simp [lossyStep, step, taking] at hstep
    | singleDone =>
      simp only [lossyStep, step, Option.ite_none_left_eq_some, Option.some.injEq] at hstep
      obtain ⟨hcb, rfl⟩ := hstep
      refine ⟨.single ⟨work, taking, rfl, cb⟩ bus receiver, ?_⟩
      simp only [Network.lossyMeasure, SendCtx.lossyMeasure, SendCtx.free, timer]
      omega
    | txDone => simp [lossyStep, step, cb] at hstep
    | timerExpired => simp [lossyStep, step, timer] at hstep
    | frameToReceiver =>
      obtain ⟨f, hto, hsf, hrctx, hdelivered, herrors⟩ | ⟨hto, -⟩ := receiver
      · have hlt := lossyMeasure_receiveCanRx c f [] hto
        simp only [lossyStep, step, hto, Option.some.injEq] at hstep
        subst hstep
        refine ⟨?_, hlt⟩
        obtain ⟨hbuffer, hstate⟩ := processFfSf_of_isSf (r := {}) hc hsf rfl
        obtain ⟨-, -, -, -, -, htype, -⟩ := hsf
        rw [receiveCanRx_none (.inr htype) (by exact hrctx)]
        refine .single ⟨work, taking, timer, cb⟩ bus (.inr ⟨rfl, .inl ⟨_, rfl, ?_, hdelivered, herrors⟩, ?_⟩)
        · simp only [RecvCtx.Ok, hstate, hbuffer, and_self]
        · intro r hr
          obtain rfl := Option.some.inj hr
          exact hstate
      · simp [lossyStep, step, hto] at hstep
    | frameToSender => simp [lossyStep, step, bus] at hstep
    | receiveWork =>
      obtain ⟨f, -, -, hrctx, -⟩ | ⟨hto, houtcome, hstate⟩ := receiver
      · simp [lossyStep, step, hrctx] at hstep
      · have hframe := receiveWork_lossy hwft houtcome hstep
        rcases hr : n.rctx with _ | r
        · simp [lossyStep, step, hr] at hstep
        · have hsf := hstate r hr
          refine ⟨?_, hframe.measure⟩
          simp only [lossyStep, step, hr, Option.ite_none_right_eq_some, Option.some.injEq] at hstep
          obtain ⟨-, rfl⟩ := hstep
          have houtcome := hframe.outcome
          simp only [receiveStateMachine, hsf, recycle] at houtcome ⊢
          refine .single ⟨work, taking, timer, cb⟩ bus (.inr ⟨hto, houtcome, ?_⟩)
          intro r hr
          cases hr
  | loseToReceiver i =>
    obtain ⟨hi, hstep⟩ := Option.ite_none_right_eq_some.1 hstep
    obtain rfl := Option.some.inj hstep
    obtain ⟨f, hto, hsf, hrctx, hdelivered, herrors⟩ | ⟨hto, -⟩ := receiver
    · rw [hto, List.length_singleton] at hi
      obtain rfl : i = 0 := by omega
      refine ⟨.single ⟨work, taking, timer, cb⟩ bus (.inr ⟨?_, .inr ⟨hrctx, .inl ⟨hdelivered, ?_⟩⟩, ?_⟩), ?_⟩
      · rw [hto]
        rfl
      · simp [herrors]
      · intro r hr
        dsimp only at hr
        rw [hrctx] at hr
        cases hr
      · simp only [Network.lossyMeasure, hto, List.eraseIdx_cons_zero, List.length_singleton,
          List.length_nil]
        have : 0 < lossyWeight c := Nat.succ_pos _
        omega
    · simp [hto] at hi
  | loseToSender i => simp [lossyStep, bus] at hstep
  | sendTimeout => simp [lossyStep, timer] at hstep
  | receiveTimeout =>
    obtain ⟨r, hr, hstep⟩ := Option.bind_eq_some_iff.1 hstep
    obtain ⟨hstate, -⟩ := Option.ite_none_right_eq_some.1 hstep
    obtain ⟨f, -, -, hrctx, -⟩ | ⟨-, -, hsf⟩ := receiver
    · rw [hrctx] at hr
      cases hr
    · rw [hsf r hr] at hstate
      obtain hstate | hstate := hstate <;> cases hstate

/-! ## Runs -/

/-- Every event leads from a phase to a phase, and uses something up. -/
theorem lossyPhase_step (hc : DlcTable c) (hpos : 0 < msg.length) (hmax : msg.length ≤ 4095)
    (hwft : c.wftMax ≤ 255) (h : LossyPhase c msg n) (hstep : lossyStep c n le = some n') :
    LossyPhase c msg n' ∧ n'.lossyMeasure c < n.lossyMeasure c := by
  cases h with
  | start long state work taking timer listed data remLen cb bus receiver =>
    exact LossyPhase.start_step hmax long state work taking timer listed data remLen cb bus receiver hstep
  | first f long sender idle cb ff bus receiver =>
    exact LossyPhase.first_step hc hpos hmax long sender idle cb ff bus receiver hstep
  | flow j k sender cb frames receiver =>
    exact LossyPhase.flow_step hc hmax hwft sender cb frames receiver hstep
  | single sender bus receiver => exact LossyPhase.single_step hc hwft sender bus receiver hstep

/-- `isotp_fast_send` starts the exchange. -/
theorem fastSend_lossyPhase (hpos : 0 < msg.length) (hmax : msg.length ≤ 4095) (stale : Bytes) :
    ∃ n, fastSend c stale msg = some n ∧ LossyPhase c msg n := by
  by_cases hlen : msg.length ≤ canMaxDlen c - sfLenByte c
  · obtain ⟨f, heq, hf⟩ := fastSend_of_le stale hpos hlen
    exact ⟨_, heq, .single ⟨rfl, rfl, rfl, rfl⟩ rfl (.inl ⟨f, rfl, hf, rfl, rfl, rfl⟩)⟩
  · have hlong : canMaxDlen c - 1 ≤ msg.length := by
      rcases canMaxDlen_eq c with ⟨hd, hs, -⟩ | ⟨hd, hs, -⟩ <;> omega
    have hle : ¬ msg.length > maxLen := by rw [maxLen]; omega
    refine ⟨{ sctx :=
      { data := msg, remLen := msg.length % 4096, bs := c.bs, stmin := c.stmin, work := true } },
      by simp [fastSend, hlen, hle], ?_⟩
    exact .start hlong rfl rfl rfl rfl rfl rfl (Nat.mod_eq_of_lt (by omega)) ⟨rfl, rfl⟩ ⟨rfl, rfl⟩
      ⟨rfl, rfl, rfl⟩

/-- The receiver has come to an outcome in every phase. -/
theorem LossyPhase.outcome (h : LossyPhase c msg n) : ∃ j, Outcome c msg j n := by
  have huntouched : n.Untouched → Outcome c msg 0 n := fun ⟨hrctx, hdelivered, herrors⟩ =>
    .inr ⟨hrctx, .inl ⟨hdelivered, by simp [herrors]⟩⟩
  cases h with
  | start _ _ _ _ _ _ _ _ _ _ receiver => exact ⟨0, huntouched receiver⟩
  | first _ _ _ _ _ _ _ receiver => exact ⟨0, huntouched receiver⟩
  | flow j _ _ _ _ receiver => exact ⟨j, receiver⟩
  | single _ _ receiver =>
    obtain ⟨_, -, -, receiver⟩ | ⟨-, receiver, -⟩ := receiver
    · exact ⟨0, huntouched receiver⟩
    · exact ⟨0, receiver⟩

/-- A receiver that has a context goes on. -/
theorem Outcome.rctx_of_final (h : Outcome c msg j n) (hfinal : Final (lossyStep c) n) : n.rctx = none := by
  obtain ⟨r, hr, hok, -⟩ | ⟨hr, -⟩ := h
  · have hwork : r.work = false := by
      have := hfinal (.event .receiveWork)
      simpa [lossyStep, step, hr] using this
    have htimer : ¬(r.state = .waitCf ∨ r.state = .tryAlloc) := by
      have := hfinal .receiveTimeout
      simpa [lossyStep, hr] using this
    exfalso
    rw [RecvCtx.Ok] at hok
    split at hok <;> simp_all
  · exact hr

/-- **Over a bus that loses any frames, in either direction, and with timers that expire at any time, the
receiver never delivers anything but the whole message, delivers it once at most, and never both delivers it
and reports an error. Every run ends, and at its end no receive context is left.** -/
theorem delivered_of_lossy (hc : DlcTable c) (hpos : 0 < msg.length) (hmax : msg.length ≤ 4095)
    (hwft : c.wftMax ≤ 255) (stale : Bytes) :
    ∃ n₀, fastSend c stale msg = some n₀ ∧
      ∀ es n, runFrom (lossyStep c) n₀ es = some n →
        (n.delivered = [] ∧ n.recvErrors.length ≤ 1 ∨ n.delivered = [msg] ∧ n.recvErrors = []) ∧
          es.length ≤ n₀.lossyMeasure c ∧ (Final (lossyStep c) n → n.rctx = none) := by
  obtain ⟨n₀, hsend, hstart⟩ := fastSend_lossyPhase hpos hmax stale
  refine ⟨n₀, hsend, fun es n hrun => ?_⟩
  have hphase : LossyPhase c msg n :=
    runFrom_invariant (fun _ _ _ h hstep => (lossyPhase_step hc hpos hmax hwft h hstep).1) hstart hrun
  obtain ⟨j, houtcome⟩ := hphase.outcome
  refine ⟨?_, ?_, houtcome.rctx_of_final⟩
  · obtain ⟨r, -, -, hdelivered, herrors⟩ | ⟨-, h⟩ := houtcome
    · exact .inl ⟨hdelivered, by simp [herrors]⟩
    · exact h
  · exact length_le_of_runFrom (Network.lossyMeasure c)
      (fun _ _ _ h hstep => lossyPhase_step hc hpos hmax hwft h hstep) hstart hrun

/-- A message of twenty bytes over classic CAN, in blocks of two frames. -/
theorem delivered_of_lossy_twenty :
    ∃ n₀, fastSend ⟨false, 2, 0, canDlc, canBytes, 8, 0, 10⟩ [] (List.replicate 20 7) = some n₀ ∧
      ∀ es n, runFrom (lossyStep ⟨false, 2, 0, canDlc, canBytes, 8, 0, 10⟩) n₀ es = some n →
        (n.delivered = [] ∧ n.recvErrors.length ≤ 1 ∨
          n.delivered = [List.replicate 20 7] ∧ n.recvErrors = []) ∧
        es.length ≤ n₀.lossyMeasure ⟨false, 2, 0, canDlc, canBytes, 8, 0, 10⟩ ∧
          (Final (lossyStep ⟨false, 2, 0, canDlc, canBytes, 8, 0, 10⟩) n → n.rctx = none) :=
  delivered_of_lossy ⟨by decide, by decide, rfl⟩ (by decide) (by decide) (by decide) []

end ThingSet.IsoTp
