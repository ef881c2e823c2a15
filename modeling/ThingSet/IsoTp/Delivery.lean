import ThingSet.IsoTp.Phases

/-!
# Delivery of a message

* `measure_step`: every event decreases `measure`, so that every run ends.
* `isoTp_delivers`: every run delivers at most the message that was sent, every run is finite,
  and a run that cannot go on has delivered it.
-/

namespace ThingSet.IsoTp

open Transition

variable {c : IsoTpConfig} {msg : Bytes} {f : CanFrame} {s : SendCtx} {r : RecvCtx}
  {n n' : Network} {e : IsoTpEvent}

/-! ## The measure -/

/-- A timer that separates consecutive frames has yet to expire. -/
def Timer.measure : Timer → ℕ
  | .st => 2
  | _ => 0

/-- The timer that separates consecutive frames has yet to be started. -/
def TxState.measure : TxState → ℕ
  | .waitSt => 2
  | _ => 0

/-- The sender's share of `measure`. -/
def SendCtx.measure (s : SendCtx) : ℕ :=
  9 * s.remLen + s.work.toNat + s.timer.measure + s.state.measure

/-- The receiver's share of `measure`. -/
def RecvCtx.measure (r : RecvCtx) : ℕ := 3 * r.work.toNat

/-- What is left to do: bytes to send, frames to receive, callbacks and work items to run. -/
def Network.measure (n : Network) : ℕ :=
  n.sctx.measure + (n.rctx.map RecvCtx.measure).getD 0 + 4 * n.toReceiver.length +
    2 * n.toSender.length + 2 * n.txCb + n.singleCb

/-- The sender is about to send a frame of its message. -/
def SendCtx.Sends (s : SendCtx) : Prop :=
  s.work = true ∧ (s.state = .sendFf ∨ s.state = .sendCf) ∨ s.taking = true

theorem Timer.measure_of_ne {t : Timer} (h : t ≠ .st) : t.measure = 0 := by
  cases t <;> simp_all [Timer.measure]

/-- A round of the loop sends at least one byte. -/
theorem measure_sendCfRound (stale : Bytes) (h : 0 < n.sctx.remLen)
    (htimer : n.sctx.timer ≠ .st) (hstate : n.sctx.state = .sendCf) :
    (sendCfRound c stale n).measure < n.measure := by
  have hd : 8 ≤ canMaxDlen c := by rcases canMaxDlen_eq c with ⟨hd, -⟩ | ⟨hd, -⟩ <;> omega
  have hlt : n.sctx.remLen - min n.sctx.remLen (canMaxDlen c - 1) + 1 ≤ n.sctx.remLen := by omega
  have ht := Timer.measure_of_ne htimer
  simp only [sendCfRound, sendCf, canSend, SendCtx.advance, List.length_cons, List.length_nil,
    Nat.zero_add]
  split
  · simp only [Network.measure, SendCtx.measure, ht, hstate, TxState.measure, List.length_append,
      List.length_singleton]
    omega
  · split
    · simp only [Network.measure, SendCtx.measure, hstate, TxState.measure, Timer.measure,
        List.length_append, List.length_singleton]
      omega
    · split
      · simp only [Network.measure, SendCtx.measure, ht, hstate, TxState.measure,
          List.length_append, List.length_singleton]
        omega
      · simp only [Network.measure, SendCtx.measure, ht, hstate, TxState.measure,
          List.length_append, List.length_singleton]
        omega

/-- A run of the sender's work item uses it up, or sends at least one byte. -/
theorem measure_sendStateMachine (stale : Bytes) (hwork : n.sctx.work = true)
    (h : n.sctx.state = .sendFf ∨ n.sctx.state = .sendCf → 0 < n.sctx.remLen) :
    (sendStateMachine c stale { n with sctx := { n.sctx with work := false } }).measure <
      n.measure := by
  have hd : 8 ≤ canMaxDlen c := by rcases canMaxDlen_eq c with ⟨hd, -⟩ | ⟨hd, -⟩ <;> omega
  rw [sendStateMachine]
  cases hstate : n.sctx.state with
  | sendFf =>
    have hrem := h (.inl hstate)
    simp only [sendFf, canSend, SendCtx.advance, Network.measure, SendCtx.measure, hwork, hstate,
      TxState.measure, Timer.measure, List.length_append, List.length_singleton, Bool.toNat_true,
      Bool.toNat_false]
    split <;> simp only [List.length_cons, List.length_nil] <;> omega
  | sendCf =>
    refine Nat.lt_of_lt_of_le (measure_sendCfRound stale (h (.inr hstate)) (by simp) rfl) ?_
    simp only [Network.measure, SendCtx.measure, Timer.measure, hstate, Bool.toNat_false]
    omega
  | waitSt =>
    simp only [Network.measure, SendCtx.measure, hwork, hstate, TxState.measure, Timer.measure,
      Bool.toNat_true, Bool.toNat_false]
    omega
  | err | waitFin =>
    simp only [Network.measure, SendCtx.measure, SendCtx.free, hwork, hstate, TxState.measure,
      Timer.measure, Bool.toNat_true, Bool.toNat_false]
    omega
  | reset | waitFc | waitBacklog =>
    simp only [Network.measure, SendCtx.measure, hwork, hstate, TxState.measure,
      Bool.toNat_true, Bool.toNat_false]
    omega

/-- The sender's callbacks cost what they submit. -/
theorem measure_txCallback : s.txCallback.measure ≤ s.measure + 1 := by
  have hwork : s.work.toNat ≤ 1 := Bool.toNat_le s.work
  rw [SendCtx.txCallback]
  dsimp only
  split
  · rename_i hstate
    split
    · simp only [SendCtx.measure]
      omega
    · simp only [SendCtx.measure, hstate, TxState.measure, Bool.toNat_true]
      omega
  · simp only [SendCtx.measure, Bool.toNat_true]
    omega

theorem measure_timeout (h : s.timer = .st) : s.timeout.measure < s.measure := by
  rw [SendCtx.timeout]
  dsimp only
  split
  · simp only [SendCtx.reportError, SendCtx.measure, h, TxState.measure, Timer.measure,
      Bool.toNat_true]
    omega
  · simp only [SendCtx.measure, h, Timer.measure, Bool.toNat_true]
    omega

/-- A flow control frame neither starts the timer that separates frames nor waits for it. -/
theorem measure_processFc : (s.processFc c f).measure ≤ s.measure := by
  have hok : ∀ s' : SendCtx, s'.remLen = s.remLen → s'.work = s.work → s'.timer.measure ≤
      s.timer.measure → s'.state.measure ≤ s.state.measure → s'.measure ≤ s.measure :=
    fun s' hrem hwork htimer hstate => by
      simp only [SendCtx.measure, hrem, hwork]
      omega
  rw [SendCtx.processFc]
  dsimp only
  split
  · exact hok _ rfl rfl (Nat.le_refl _) (Nat.zero_le _)
  · split
    · exact hok _ rfl rfl (Nat.le_refl _) (Nat.zero_le _)
    · split
      · split
        · exact hok _ rfl rfl (Nat.zero_le _) (Nat.zero_le _)
        · exact hok _ rfl rfl (Nat.zero_le _) (Nat.le_refl _)
      · split
        · exact hok _ rfl rfl (Nat.le_refl _) (Nat.zero_le _)
        · exact hok _ rfl rfl (Nat.le_refl _) (Nat.zero_le _)

theorem measure_canRx : (s.canRx c f).measure ≤ s.measure + 1 := by
  have hstep : ∀ s' : SendCtx, s'.measure ≤ s.measure →
      SendCtx.measure { s' with work := true } ≤ s.measure + 1 := fun s' h => by
    simp only [SendCtx.measure, Bool.toNat_true] at h ⊢
    omega
  rw [SendCtx.canRx]
  refine hstep _ ?_
  split
  · refine Nat.le_trans measure_processFc ?_
    simp only [SendCtx.measure, Timer.measure]
    omega
  · simp only [SendCtx.measure, SendCtx.reportError, TxState.measure]
    omega

/-- A frame submits the receiver's work item at most. -/
theorem measure_receiveCanRx (f : CanFrame) (n : Network) :
    (receiveCanRx c f n).measure ≤ n.measure + 3 := by
  have hok : ∀ r : RecvCtx, Network.measure { n with rctx := some r } ≤ n.measure + 3 := fun r => by
    have := Bool.toNat_le r.work
    simp only [Network.measure, Option.map_some, Option.getD_some, RecvCtx.measure]
    omega
  rw [receiveCanRx]
  dsimp only
  split
  · omega
  · split
    · exact hok _
    · split
      · exact hok _
      · exact hok _
    · exact hok _

/-- The receiver's work item sends one frame at most. -/
theorem measure_receiveStateMachine (hr : n.rctx = some r) (hwork : r.work = true) :
    (receiveStateMachine c { r with work := false } n).measure < n.measure := by
  have hok : ∀ n' : Network, n'.sctx = n.sctx → n'.toReceiver = n.toReceiver →
      n'.txCb = n.txCb → n'.singleCb = n.singleCb →
      n'.toSender.length ≤ n.toSender.length + 1 → (∀ r', n'.rctx = some r' → r'.work = false) →
      n'.measure < n.measure := fun n' hs hto htx hcb hfrom hwork' => by
    have hidle : (n'.rctx.map RecvCtx.measure).getD 0 = 0 := by
      rcases hr' : n'.rctx with _ | r'
      · rfl
      · simp [RecvCtx.measure, hwork' r' hr']
    simp only [Network.measure, hs, hto, htx, hcb, hidle, hr, Option.map_some, Option.getD_some,
      RecvCtx.measure, hwork, Bool.toNat_true]
    omega
  have herr : ∀ r' : RecvCtx, (receiveErr c r' n).measure < n.measure := fun r' => by
    refine hok _ rfl rfl rfl rfl ?_ (by simp [receiveErr])
    rw [receiveErr]
    dsimp only
    split <;> simp
  have hcts : ∀ r' : RecvCtx, r'.work = false → (sendCts c r' n).measure < n.measure :=
    fun r' h => hok _ rfl rfl rfl rfl (by simp [sendCts]) fun r'' h' => by
      obtain rfl := Option.some.inj h'
      exact h
  have hrecycle : ∀ r' : RecvCtx, (recycle r' n).measure < n.measure := fun r' =>
    hok _ rfl rfl rfl rfl (Nat.le_succ _) (by simp [recycle])
  rw [receiveStateMachine]
  dsimp only
  split
  · exact hrecycle _
  · split
    · exact herr _
    · refine hcts _ ?_
      split <;> rfl
  · exact hcts _ rfl
  · exact hcts _ rfl
  · split
    · refine hok _ rfl rfl rfl rfl (by simp) fun r' h => ?_
      obtain rfl := Option.some.inj h
      rfl
    · exact herr _
  · exact herr _
  · exact hrecycle _
  · refine hok _ rfl rfl rfl rfl (Nat.le_succ _) fun r' h => ?_
    obtain rfl := Option.some.inj h
    rfl

/-- Every event decreases `measure`. -/
theorem measure_step (hs : n.sctx.Sends → 0 < n.sctx.remLen) (hsem : n.sctx.taking = true →
    n.sctx.state = .sendCf ∧ n.sctx.timer ≠ .st) (hstep : step c n e = some n') :
    n'.measure < n.measure := by
  cases e with
  | sendWork stale =>
    simp only [step, Option.ite_none_right_eq_some, Option.some.injEq] at hstep
    obtain ⟨⟨hwork, -⟩, rfl⟩ := hstep
    exact measure_sendStateMachine stale hwork fun hstate => hs (.inl ⟨hwork, hstate⟩)
  | semTaken stale =>
    simp only [step, Option.ite_none_right_eq_some, Option.some.injEq] at hstep
    obtain ⟨⟨htaking, -⟩, rfl⟩ := hstep
    obtain ⟨hstate, htimer⟩ := hsem htaking
    exact measure_sendCfRound (c := c)
      (n := { n with sctx := { n.sctx with taking := false, sem := false } }) stale
      (hs (.inr htaking)) htimer hstate
  | singleDone =>
    simp only [step, Option.ite_none_left_eq_some, Option.some.injEq] at hstep
    obtain ⟨hcb, rfl⟩ := hstep
    simp only [Network.measure, SendCtx.measure, SendCtx.free, Timer.measure]
    omega
  | txDone =>
    simp only [step, Option.ite_none_left_eq_some, Option.some.injEq] at hstep
    obtain ⟨hcb, rfl⟩ := hstep
    have := measure_txCallback (s := n.sctx)
    simp only [Network.measure]
    omega
  | timerExpired =>
    simp only [step, Option.ite_none_right_eq_some, Option.some.injEq] at hstep
    obtain ⟨htimer, rfl⟩ := hstep
    have := measure_timeout htimer
    simp only [Network.measure]
    omega
  | frameToReceiver =>
    rcases hto : n.toReceiver with _ | ⟨f, fs⟩
    · simp [step, hto] at hstep
    · simp only [step, hto, Option.some.injEq] at hstep
      subst hstep
      refine Nat.lt_of_le_of_lt (measure_receiveCanRx _ _) ?_
      simp only [Network.measure, hto, List.length_cons]
      omega
  | frameToSender =>
    rcases hfrom : n.toSender with _ | ⟨f, fs⟩
    · simp [step, hfrom] at hstep
    · simp only [step, hfrom, Option.some.injEq] at hstep
      subst hstep
      have := measure_canRx (c := c) (f := f) (s := n.sctx)
      simp only [Network.measure, hfrom, List.length_cons]
      split <;> omega
  | receiveWork =>
    rcases hrctx : n.rctx with _ | r
    · simp [step, hrctx] at hstep
    · simp only [step, hrctx, Option.ite_none_right_eq_some, Option.some.injEq] at hstep
      obtain ⟨hwork, rfl⟩ := hstep
      exact measure_receiveStateMachine hrctx hwork

/-! ## Delivery -/

/-- A sender that is about to send has something to send. -/
theorem Phase.remLen_pos (h : Phase c msg n) (hs : n.sctx.Sends) : 0 < n.sctx.remLen := by
  have hdone : ¬ SenderDone n := fun ⟨htaking, _, hquiet⟩ => by
    rcases hs with ⟨hwork, hstate⟩ | hs
    · rcases hquiet with ⟨hquiet, -⟩ | ⟨hidle, -⟩
      · rcases hstate with hstate | hstate <;> simp [hstate] at hquiet
      · simp [hwork] at hidle
    · simp [htaking] at hs
  have hwait : ∀ k, ¬ WaitFc c msg k n.sctx := fun k ⟨_, hstate, htaking, _⟩ => by
    simp [SendCtx.Sends, hstate, htaking] at hs
  cases h with
  | start long _ _ _ _ _ _ remLen =>
    rw [remLen]
    rcases canMaxDlen_eq c with ⟨hd, -⟩ | ⟨hd, -⟩ <;> omega
  | first _ _ mode => exact absurd mode (hwait _)
  | turn _ _ mode => exact absurd mode (hwait _)
  | flowControl _ _ mode => exact absurd mode (hwait _)
  | flow _ _ _ mode =>
    cases mode with
    | sending mode =>
      rw [mode.sent.remLen]
      have := mode.more
      omega
    | blockEnd mode => exact absurd mode (hwait _)
    | allSent mode => exact absurd mode hdone
  | single _ mode => exact absurd mode hdone
  | last _ mode => exact absurd mode hdone
  | done mode => exact absurd mode hdone

/-- A sender that waits in `k_sem_take` is in the loop of `ISOTP_TX_SEND_CF`. -/
theorem Phase.of_taking (h : Phase c msg n) (htaking : n.sctx.taking = true) :
    n.sctx.state = .sendCf ∧ n.sctx.timer ≠ .st := by
  have hdone : ¬ SenderDone n := fun mode => by simp [mode.taking] at htaking
  have hwait : ∀ k, ¬ WaitFc c msg k n.sctx := fun k mode => by simp [mode.taking] at htaking
  cases h with
  | start _ _ _ taking => simp [taking] at htaking
  | first _ _ mode => exact absurd mode (hwait _)
  | turn _ _ mode => exact absurd mode (hwait _)
  | flowControl _ _ mode => exact absurd mode (hwait _)
  | flow _ _ _ mode =>
    cases mode with
    | sending mode =>
      rcases mode.ready with ⟨-, htaking', -⟩ | ⟨-, htaking', -⟩ | ⟨hstate, -, htimer, -⟩
      · simp [htaking'] at htaking
      · simp [htaking'] at htaking
      · exact ⟨hstate, htimer⟩
    | blockEnd mode => exact absurd mode (hwait _)
    | allSent mode => exact absurd mode hdone
  | single _ mode => exact absurd mode hdone
  | last _ mode => exact absurd mode hdone
  | done mode => exact absurd mode hdone

theorem Phase.delivered_eq (h : Phase c msg n) : n.delivered = [] ∨ n.delivered = [msg] := by
  cases h with
  | done _ _ _ delivered => exact .inr delivered
  | start _ _ _ _ _ _ _ _ _ _ _ delivered => exact .inl delivered
  | first _ _ _ _ _ _ _ delivered => exact .inl delivered
  | turn _ _ _ _ _ _ _ _ delivered => exact .inl delivered
  | flowControl _ _ _ _ _ _ _ _ _ delivered => exact .inl delivered
  | flow _ _ _ _ _ _ _ _ delivered => exact .inl delivered
  | single _ _ _ _ _ delivered => exact .inl delivered
  | last _ _ _ _ _ _ _ delivered => exact .inl delivered

/-- A message of 1 to 4095 bytes is delivered: whatever order the events of both nodes come in,
no run delivers anything but the message, or delivers it twice, every run ends, and where no event
can happen any more the message has been delivered. -/
theorem isoTp_delivers (hc : DlcTable c) (hpos : 0 < msg.length) (hmax : msg.length ≤ 4095)
    (hbuf : c.bs = 0 → msg.length ≤ c.rxMaxPacketCount * (canMaxDlen c - 1)) (stale : Bytes) :
    ∃ n₀, fastSend c stale msg = some n₀ ∧
      ∀ es n, runFrom (step c) n₀ es = some n →
        (n.delivered = [] ∨ n.delivered = [msg]) ∧ es.length ≤ n₀.measure ∧
          (Final (step c) n → n.delivered = [msg]) := by
  obtain ⟨n₀, hsend, hstart⟩ := fastSend_phase hpos hmax stale
  refine ⟨n₀, hsend, fun es n hrun => ?_⟩
  have hphase : Phase c msg n :=
    runFrom_invariant (fun _ _ _ h hstep => phase_step hc hpos hmax hbuf h hstep) hstart hrun
  refine ⟨hphase.delivered_eq, ?_, phase_progress hphase⟩
  exact length_le_of_runFrom Network.measure (fun _ _ _ h hstep =>
    ⟨phase_step hc hpos hmax hbuf h hstep, measure_step h.remLen_pos h.of_taking hstep⟩) hstart hrun

/-- CAN's length codes. -/
def canDlc (n : ℕ) : ℕ :=
  if n ≤ 8 then n
  else if n ≤ 12 then 9
  else if n ≤ 16 then 10
  else if n ≤ 20 then 11
  else if n ≤ 24 then 12
  else if n ≤ 32 then 13
  else if n ≤ 48 then 14
  else 15

/-- The length of each of CAN's length codes. -/
def canBytes (dlc : ℕ) : ℕ :=
  [0, 1, 2, 3, 4, 5, 6, 7, 8, 12, 16, 20, 24, 32, 48, 64].getD dlc 64

/-- A message of twenty bytes over classic CAN, in blocks of two frames. -/
theorem isoTp_delivers_twenty :
    ∃ n₀, fastSend ⟨false, 2, 0, canDlc, canBytes, 8, 0, 10⟩ [] (List.replicate 20 7) = some n₀ ∧
      ∀ es n, runFrom (step ⟨false, 2, 0, canDlc, canBytes, 8, 0, 10⟩) n₀ es = some n →
        (n.delivered = [] ∨ n.delivered = [List.replicate 20 7]) ∧ es.length ≤ n₀.measure ∧
          (Final (step ⟨false, 2, 0, canDlc, canBytes, 8, 0, 10⟩) n →
            n.delivered = [List.replicate 20 7]) :=
  isoTp_delivers ⟨by decide, by decide, rfl⟩ (by decide) (by decide) (by decide) []

end ThingSet.IsoTp
