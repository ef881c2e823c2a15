import ThingSet.IsoTp.Delivery

/-!
# Frames that are lost

The bus loses frames in both directions, and the timers that both sides run against a silent peer expire.
A lost frame is never sent again, and the sequence number of the frames has four bits: the receiver does not
notice the loss of sixteen frames in a row by the number of the next.

* `lossyStep`: the events of `step`, the loss of a frame and the two timeouts.
* `sender_lossy`: the sender puts the consecutive frames on the bus in order, whatever reaches it.
* `processCf_missing`: a receiver that misses a frame notices it, or waits for more bytes than will come.
-/

namespace ThingSet.IsoTp

open Transition

variable {c : IsoTpConfig} {msg : Bytes} {i j k m : ℕ} {f : CanFrame} {fs : List CanFrame}
  {s : SendCtx} {r : RecvCtx} {n n' : Network} {e : IsoTpEvent}

/-! ## Steps -/

/-- `receive_timeout_handler`. -/
def RecvCtx.timeout (r : RecvCtx) : RecvCtx :=
  let r :=
    match r.state with
    | .waitCf => r.reportError .timeoutCr
    | .tryAlloc => { r with state := .sendWait }
    | _ => r
  { r with work := true }

/-- An event of the two state machines, the loss of the frame at a position on the bus, or the expiry of a
timer that waits for the peer. -/
inductive LossyEvent
  | event (e : IsoTpEvent)
  | loseToReceiver (i : ℕ)
  | loseToSender (i : ℕ)
  | sendTimeout
  | receiveTimeout

/-- The network after such an event. The receiver's timer runs while it waits for a consecutive frame, and
from the end of a block until its work item runs; it also does what an allocation that failed would wait
for. -/
def lossyStep (c : IsoTpConfig) (n : Network) : LossyEvent → Option Network
  | .event e => step c n e
  | .loseToReceiver i =>
    if i < n.toReceiver.length then some { n with toReceiver := n.toReceiver.eraseIdx i } else none
  | .loseToSender i =>
    if i < n.toSender.length then some { n with toSender := n.toSender.eraseIdx i } else none
  | .sendTimeout => if n.sctx.timer = .bs then some { n with sctx := n.sctx.timeout } else none
  | .receiveTimeout =>
    n.rctx.bind fun r =>
      if r.state = .waitCf ∨ r.state = .tryAlloc then some { n with rctx := some r.timeout } else none

/-! ## The frames that are left -/

/-- Some of the consecutive frames from `j` up to `k`, in order. -/
def SomeCfFrames (c : IsoTpConfig) (msg : Bytes) : ℕ → ℕ → List CanFrame → Prop
  | j, k, [] => j ≤ k
  | j, k, f :: fs => ∃ i, j ≤ i ∧ pos c msg i < msg.length ∧ IsCf c msg i f ∧
      SomeCfFrames c msg (i + 1) k fs

theorem SomeCfFrames.mono (h : SomeCfFrames c msg j k fs) (hij : i ≤ j) : SomeCfFrames c msg i k fs := by
  cases fs with
  | nil => exact hij.trans h
  | cons f fs =>
    obtain ⟨l, hl, h⟩ := h
    exact ⟨l, hij.trans hl, h⟩

theorem SomeCfFrames.append (h : SomeCfFrames c msg j k fs) (hk : pos c msg k < msg.length)
    (hf : IsCf c msg k f) : SomeCfFrames c msg j (k + 1) (fs ++ [f]) := by
  induction fs generalizing j with
  | nil => exact ⟨k, h, hk, hf, Nat.le_refl _⟩
  | cons g fs ih =>
    obtain ⟨i, hi, hpos, hg, hfs⟩ := h
    exact ⟨i, hi, hpos, hg, ih hfs⟩

theorem SomeCfFrames.eraseIdx (h : SomeCfFrames c msg j k fs) (i : ℕ) :
    SomeCfFrames c msg j k (fs.eraseIdx i) := by
  induction fs generalizing j i with
  | nil => exact h
  | cons g fs ih =>
    obtain ⟨l, hl, hpos, hg, hfs⟩ := h
    cases i with
    | zero => exact hfs.mono (Nat.le_succ_of_le hl)
    | succ i => exact ⟨l, hl, hpos, hg, ih hfs i⟩

/-! ## The measure -/

/-- The weight of a frame to the receiver: it can make the receiver ask to wait `wftMax` times. -/
def lossyWeight (c : IsoTpConfig) : ℕ := 6 * c.wftMax + 14

/-- A timer that runs will expire. -/
def Timer.lossyMeasure : Timer → ℕ
  | .stopped => 0
  | _ => 2

/-- The sender's share of `lossyMeasure`. -/
def SendCtx.lossyMeasure (c : IsoTpConfig) (s : SendCtx) : ℕ :=
  (lossyWeight c + 8) * s.remLen + s.work.toNat + s.timer.lossyMeasure + s.state.measure

/-- How often the receiver can still ask the sender to wait. -/
def RecvCtx.waits (c : IsoTpConfig) (r : RecvCtx) : ℕ :=
  if r.state = .processFf then c.wftMax else c.wftMax - (r.wft + 1).toNat

/-- The receiver has a timer that will expire. -/
def RxState.lossyMeasure : RxState → ℕ
  | .processFf | .tryAlloc | .sendFc | .waitCf => 7
  | _ => 0

/-- The receiver's share of `lossyMeasure`. -/
def RecvCtx.lossyMeasure (c : IsoTpConfig) (r : RecvCtx) : ℕ :=
  6 * r.work.toNat + 6 * r.waits c + r.state.lossyMeasure

/-- What is left to do. -/
def Network.lossyMeasure (c : IsoTpConfig) (n : Network) : ℕ :=
  n.sctx.lossyMeasure c + (n.rctx.map (RecvCtx.lossyMeasure c)).getD 0 +
    lossyWeight c * n.toReceiver.length + 4 * n.toSender.length + 2 * n.txCb + n.singleCb

theorem Timer.lossyMeasure_le (t : Timer) : t.lossyMeasure ≤ 2 := by
  cases t <;> simp [lossyMeasure]

theorem Timer.lossyMeasure_of_ne {t : Timer} (h : t ≠ .stopped) : t.lossyMeasure = 2 := by
  cases t with
  | stopped => exact absurd rfl h
  | bs | st => rfl

theorem RecvCtx.lossyMeasure_lt (c : IsoTpConfig) (r : RecvCtx) : r.lossyMeasure c < lossyWeight c := by
  have hwork := Bool.toNat_le r.work
  have hwaits : r.waits c ≤ c.wftMax := by
    rw [waits]
    split <;> omega
  have hstate : r.state.lossyMeasure ≤ 7 := by
    cases r.state <;> simp [RxState.lossyMeasure]
  rw [lossyMeasure, lossyWeight]
  omega

/-- All of the sender's share but for the bytes that are left. -/
theorem SendCtx.lossyMeasure_le (c : IsoTpConfig) (s : SendCtx) :
    s.lossyMeasure c ≤ (lossyWeight c + 8) * s.remLen + 5 := by
  have hwork := Bool.toNat_le s.work
  have htimer := Timer.lossyMeasure_le s.timer
  have hstate : s.state.measure ≤ 2 := by cases s.state <;> simp [TxState.measure]
  rw [lossyMeasure]
  omega

/-! ## The sender -/

/-- A sender that has sent its first frame and `k` consecutive frames: when it can send more, there is
more to send. -/
structure SenderOk (c : IsoTpConfig) (msg : Bytes) (k : ℕ) (s : SendCtx) : Prop where
  state : s.state ≠ .sendFf
  sends : s.state = .waitFc ∨ s.state = .sendCf ∨ s.state = .waitSt ∨ s.taking = true →
    Sent c msg k s ∧ pos c msg k < msg.length

/-- A sender that sends nothing before a frame arrives. -/
def SendCtx.Idle (s : SendCtx) : Prop := s.state ≠ .sendCf ∧ s.state ≠ .waitSt ∧ s.taking = false

/-- A round of the loop sends the next frame. -/
theorem sendCfRound_of_sent (stale : Bytes) (h : Sent c msg k n.sctx) (hk : pos c msg k < msg.length)
    (hstate : n.sctx.state ≠ .sendFf) (htaking : n.sctx.taking = false) :
    ∃ f s, sendCfRound c stale n =
        { n with sctx := s, toReceiver := n.toReceiver ++ [f], txCb := n.txCb + 1 } ∧
      IsCf c msg k f ∧ SenderOk c msg (k + 1) s ∧ s.remLen < n.sctx.remLen := by
  obtain ⟨f, s, heq, hf, hsent, hbs, htimer', hstate', htaking'⟩ := sendCf_spec stale n h
  have hle := pos_le c msg (k + 1)
  have hlt : s.remLen < n.sctx.remLen := by
    have := pos_lt_pos_succ hk
    rw [hsent.remLen, h.remLen]
    omega
  rw [hstate'.symm] at hstate
  rw [htaking'.symm] at htaking
  rw [sendCfRound]
  simp only [heq]
  split
  · refine ⟨f, _, rfl, hf, ⟨TxState.noConfusion, fun h => ?_⟩, hlt⟩
    simp [htaking] at h
  · rename_i hrem
    have hmore : pos c msg (k + 1) < msg.length := by
      rw [hsent.remLen] at hrem
      omega
    obtain ⟨h₁, h₂, h₃, h₄⟩ := hsent
    split
    · exact ⟨f, _, rfl, hf, ⟨TxState.noConfusion, fun _ => ⟨⟨h₁, h₂, h₃, h₄⟩, hmore⟩⟩, hlt⟩
    · split
      · exact ⟨f, _, rfl, hf, ⟨TxState.noConfusion, fun _ => ⟨⟨h₁, h₂, h₃, h₄⟩, hmore⟩⟩, hlt⟩
      · exact ⟨f, _, rfl, hf, ⟨hstate, fun _ => ⟨⟨h₁, h₂, h₃, h₄⟩, hmore⟩⟩, hlt⟩

/-- What a sender keeps that neither gets anything new to send nor starts to send. -/
theorem SenderOk.of_fields (h : SenderOk c msg k s) {s' : SendCtx} (hstate : s'.state ≠ .sendFf)
    (hsends : s'.state = .waitFc ∨ s'.state = .sendCf ∨ s'.state = .waitSt ∨ s'.taking = true →
      s.state = .waitFc ∨ s.state = .sendCf ∨ s.state = .waitSt ∨ s.taking = true)
    (hdata : s'.data = s.data) (hremLen : s'.remLen = s.remLen) (hsn : s'.sn = s.sn)
    (hlisted : s'.state = .waitFc ∨ s'.state = .sendCf ∨ s'.state = .waitSt ∨ s'.taking = true →
      s'.listed = s.listed) : SenderOk c msg k s' := by
  refine ⟨hstate, fun hsends' => ?_⟩
  obtain ⟨⟨h₁, h₂, h₃, h₄⟩, hpos⟩ := h.sends (hsends hsends')
  exact ⟨⟨hdata.trans h₁, hremLen.trans h₂, hsn.trans h₃, (hlisted hsends').trans h₄⟩, hpos⟩

/-- The rest of the network costs what it cost. -/
theorem Network.lossyMeasure_lt_of_sctx {p : ℕ} {l : List Error}
    (h : s.lossyMeasure c + 2 * p < n.sctx.lossyMeasure c + 2 * n.txCb) :
    Network.lossyMeasure c { n with sctx := s, txCb := p, sent := l } < n.lossyMeasure c := by
  simp only [Network.lossyMeasure]
  omega

theorem SenderOk.txCallback (h : SenderOk c msg k s) : SenderOk c msg k s.txCallback ∧
    (s.Idle → s.txCallback.Idle) ∧ s.txCallback.lossyMeasure c ≤ s.lossyMeasure c + 1 := by
  have hwork := Bool.toNat_le s.work
  rw [SendCtx.txCallback]
  dsimp only
  split
  · rename_i hstate
    split
    · refine ⟨h.of_fields h.state id rfl rfl rfl fun _ => rfl, id, ?_⟩
      simp only [SendCtx.lossyMeasure]
      omega
    · refine ⟨h.of_fields TxState.noConfusion (fun hsends => ?_) rfl rfl rfl fun _ => rfl,
        fun hidle => ⟨TxState.noConfusion, TxState.noConfusion, hidle.2.2⟩, ?_⟩
      · simp only [reduceCtorEq, false_or] at hsends
        exact .inr (.inr (.inr hsends))
      · simp only [SendCtx.lossyMeasure, hstate, TxState.measure, Bool.toNat_true]
        omega
  · refine ⟨h.of_fields h.state id rfl rfl rfl fun _ => rfl, id, ?_⟩
    simp only [SendCtx.lossyMeasure, Bool.toNat_true]
    omega

theorem SenderOk.timeout (h : SenderOk c msg k s) (htimer : s.timer ≠ .stopped) :
    SenderOk c msg k s.timeout ∧ (s.Idle → s.timeout.Idle) ∧
      s.timeout.lossyMeasure c < s.lossyMeasure c := by
  have hmeasure := Timer.lossyMeasure_of_ne htimer
  rw [SendCtx.timeout]
  dsimp only
  split
  · refine ⟨h.of_fields TxState.noConfusion (fun hsends => ?_) rfl rfl rfl fun _ => rfl,
      fun hidle => ⟨TxState.noConfusion, TxState.noConfusion, hidle.2.2⟩, ?_⟩
    · simp only [SendCtx.reportError, reduceCtorEq, false_or] at hsends
      exact .inr (.inr (.inr hsends))
    · simp only [SendCtx.lossyMeasure, SendCtx.reportError, TxState.measure, Bool.toNat_true,
        Timer.lossyMeasure]
      omega
  · refine ⟨h.of_fields h.state id rfl rfl rfl fun _ => rfl, id, ?_⟩
    simp only [SendCtx.lossyMeasure, Bool.toNat_true, Timer.lossyMeasure]
    omega

/-- An error stops a sender, but for the loop that waits for a completion. -/
theorem SenderOk.reportError (h : SenderOk c msg k s) (err : Error) :
    SenderOk c msg k (s.reportError err) ∧ (s.reportError err).lossyMeasure c ≤ s.lossyMeasure c := by
  refine ⟨h.of_fields TxState.noConfusion (fun hsends => ?_) rfl rfl rfl fun _ => rfl, ?_⟩
  · simp only [SendCtx.reportError, reduceCtorEq, false_or] at hsends
    exact .inr (.inr (.inr hsends))
  · simp only [SendCtx.lossyMeasure, SendCtx.reportError, TxState.measure]
    omega

/-- A flow control frame that is waited for starts the next block, makes the sender wait on, or stops it. -/
theorem SenderOk.processFc (h : SenderOk c msg k s) (hstate : s.state = .waitFc) (f : CanFrame) :
    SenderOk c msg k (s.processFc c f) ∧
      (s.processFc c f).lossyMeasure c ≤ (lossyWeight c + 8) * s.remLen + s.work.toNat + 2 := by
  have hmeasure : ∀ s' : SendCtx, s'.remLen = s.remLen → s'.work = s.work → s'.state.measure = 0 →
      s'.lossyMeasure c ≤ (lossyWeight c + 8) * s.remLen + s.work.toNat + 2 := by
    intro s' hremLen hwork hstate
    have htimer := Timer.lossyMeasure_le s'.timer
    rw [SendCtx.lossyMeasure, hremLen, hwork, hstate]
    omega
  have hsends : ∀ s' : SendCtx, s'.state ≠ .sendFf → s'.data = s.data → s'.remLen = s.remLen →
      s'.sn = s.sn → s'.listed = s.listed → SenderOk c msg k s' := fun s' hstate' h₁ h₂ h₃ h₄ =>
    h.of_fields hstate' (fun _ => .inl hstate) h₁ h₂ h₃ fun _ => h₄
  rw [SendCtx.processFc]
  dsimp only
  split
  · exact ⟨(h.reportError _).1, hmeasure _ rfl rfl rfl⟩
  · split
    · exact ⟨hsends _ TxState.noConfusion rfl rfl rfl rfl, hmeasure _ rfl rfl rfl⟩
    · split
      · split
        · exact ⟨hsends _ TxState.noConfusion rfl rfl rfl rfl, hmeasure _ rfl rfl rfl⟩
        · refine ⟨hsends _ h.state rfl rfl rfl rfl, hmeasure _ rfl rfl ?_⟩
          dsimp only
          rw [hstate]
          rfl
      · split
        · exact ⟨(h.reportError _).1, hmeasure _ rfl rfl rfl⟩
        · exact ⟨(h.reportError _).1, hmeasure _ rfl rfl rfl⟩

theorem SenderOk.canRx (h : SenderOk c msg k s) (f : CanFrame) : SenderOk c msg k (s.canRx c f) ∧
    (s.canRx c f).lossyMeasure c ≤ s.lossyMeasure c + 3 := by
  have hsubmit : ∀ s' : SendCtx, SenderOk c msg k s' → s'.lossyMeasure c ≤ s.lossyMeasure c + 2 →
      SenderOk c msg k { s' with work := true } ∧
        SendCtx.lossyMeasure c { s' with work := true } ≤ s.lossyMeasure c + 3 := by
    intro s' h' hle
    refine ⟨h'.of_fields h'.state id rfl rfl rfl fun _ => rfl, ?_⟩
    simp only [SendCtx.lossyMeasure, Bool.toNat_true] at hle ⊢
    omega
  rw [SendCtx.canRx]
  split
  · rename_i hstate
    obtain ⟨h', hle⟩ := SenderOk.processFc (c := c) (k := k) (s := { s with timer := .stopped })
      (h.of_fields h.state id rfl rfl rfl fun _ => rfl) hstate f
    refine hsubmit _ h' (hle.trans ?_)
    simp only [SendCtx.lossyMeasure]
    omega
  · exact hsubmit _ (h.reportError _).1 ((h.reportError _).2.trans (Nat.le_add_right _ _))

/-- An event on the sender's node leaves the bus as it is, or puts the next frame on it. -/
theorem sender_lossy (h : SenderOk c msg k n.sctx) (hcb : n.singleCb = 0) (he : e.ofSender)
    (hstep : step c n e = some n') :
    n'.lossyMeasure c < n.lossyMeasure c ∧ ((∃ s p l, n' = { n with sctx := s, txCb := p, sent := l } ∧
        SenderOk c msg k s ∧ (n.sctx.Idle → s.Idle)) ∨
      ∃ s p f, n' = { n with sctx := s, txCb := p, toReceiver := n.toReceiver ++ [f] } ∧
        IsCf c msg k f ∧ pos c msg k < msg.length ∧ SenderOk c msg (k + 1) s ∧ ¬n.sctx.Idle) := by
  -- a round of the loop
  have hround : ∀ (stale : Bytes) (s : SendCtx), Sent c msg k s → pos c msg k < msg.length →
      s.state ≠ .sendFf → s.taking = false → s.remLen = n.sctx.remLen → ¬n.sctx.Idle →
      ∀ n₁, n₁ = sendCfRound c stale { n with sctx := s } →
        n₁.lossyMeasure c < n.lossyMeasure c ∧ ∃ s' p f,
          n₁ = { n with sctx := s', txCb := p, toReceiver := n.toReceiver ++ [f] } ∧
            IsCf c msg k f ∧ pos c msg k < msg.length ∧ SenderOk c msg (k + 1) s' ∧ ¬n.sctx.Idle := by
    rintro stale s hsent hpos hstate htaking hremLen hidle _ rfl
    obtain ⟨f, s', heq, hf, hs', hlt⟩ :=
      sendCfRound_of_sent (n := { n with sctx := s }) stale hsent hpos hstate htaking
    rw [heq]
    refine ⟨?_, s', _, f, rfl, hf, hpos, hs', hidle⟩
    have hlt : s'.remLen < s.remLen := hlt
    have hle := s'.lossyMeasure_le c
    have hmul : (lossyWeight c + 8) * s'.remLen + (lossyWeight c + 8) ≤
        (lossyWeight c + 8) * n.sctx.remLen := by
      rw [← Nat.mul_succ]
      exact Nat.mul_le_mul_left _ (by omega)
    simp only [Network.lossyMeasure, List.length_append, List.length_singleton, Nat.mul_succ]
    have hlow : (lossyWeight c + 8) * n.sctx.remLen ≤ n.sctx.lossyMeasure c := by
      rw [SendCtx.lossyMeasure]
      omega
    omega
  cases e with
  | sendWork stale =>
    simp only [step, Option.ite_none_right_eq_some, Option.some.injEq] at hstep
    obtain ⟨⟨hwork, htaking⟩, rfl⟩ := hstep
    have htaking := Bool.eq_false_iff.2 htaking
    -- the work item does nothing but use itself up
    have hquiet : ∀ s : SendCtx, SenderOk c msg k s → (n.sctx.Idle → s.Idle) →
        s.lossyMeasure c < n.sctx.lossyMeasure c → ∀ l n₁, n₁ = { n with sctx := s, sent := l } →
          n₁.lossyMeasure c < n.lossyMeasure c ∧ ∃ s p l, n₁ = { n with sctx := s, txCb := p, sent := l } ∧
            SenderOk c msg k s ∧ (n.sctx.Idle → s.Idle) := by
      rintro s hs hidle hlt l _ rfl
      exact ⟨Network.lossyMeasure_lt_of_sctx (by omega), s, _, l, rfl, hs, hidle⟩
    cases hstate : n.sctx.state with
    | sendFf => exact absurd hstate h.state
    | sendCf =>
      obtain ⟨⟨h₁, h₂, h₃, h₄⟩, hpos⟩ := h.sends (.inr (.inl hstate))
      exact (hround stale { n.sctx with work := false, timer := .stopped, state := .sendCf }
        ⟨h₁, h₂, h₃, h₄⟩ hpos TxState.noConfusion htaking rfl (fun hidle => hidle.1 hstate) _
        (by simp only [sendStateMachine])).imp_right .inr
    | waitSt =>
      have hs : SenderOk c msg k { n.sctx with work := false, timer := .st, state := .sendCf } :=
        h.of_fields TxState.noConfusion (fun _ => .inr (.inr (.inl hstate))) rfl rfl rfl fun _ => rfl
      refine (hquiet _ hs (fun hidle => absurd hstate hidle.2.1) ?_ n.sent _
        (by simp only [sendStateMachine])).imp_right .inl
      simp only [SendCtx.lossyMeasure, hwork, hstate, TxState.measure, Bool.toNat_true,
        Bool.toNat_false, Timer.lossyMeasure]
      omega
    | err | waitFin =>
      have hs : SenderOk c msg k { n.sctx with
          work := false, state := .reset, timer := .stopped, listed := false } := by
        refine ⟨TxState.noConfusion, fun hsends => ?_⟩
        simp [htaking] at hsends
      refine (hquiet _ hs (fun _ => ⟨TxState.noConfusion, TxState.noConfusion, htaking⟩) ?_ _ _
        (by simp only [sendStateMachine, SendCtx.free]; rfl)).imp_right .inl
      simp only [SendCtx.lossyMeasure, hwork, hstate, TxState.measure, Bool.toNat_true,
        Bool.toNat_false, Timer.lossyMeasure]
      omega
    | reset | waitFc | waitBacklog =>
      refine (hquiet { n.sctx with work := false }
        (h.of_fields h.state id rfl rfl rfl fun _ => rfl) id ?_ n.sent _
        (by simp only [sendStateMachine, hstate])).imp_right .inl
      simp only [SendCtx.lossyMeasure, hwork, Bool.toNat_true, Bool.toNat_false]
      omega
  | semTaken stale =>
    simp only [step, Option.ite_none_right_eq_some, Option.some.injEq] at hstep
    obtain ⟨⟨htaking, -⟩, rfl⟩ := hstep
    obtain ⟨⟨h₁, h₂, h₃, h₄⟩, hpos⟩ := h.sends (.inr (.inr (.inr htaking)))
    exact (hround stale { n.sctx with taking := false, sem := false } ⟨h₁, h₂, h₃, h₄⟩ hpos h.state rfl
      rfl (fun hidle => Bool.eq_false_iff.1 hidle.2.2 htaking) _ rfl).imp_right .inr
  | singleDone => simp [step, hcb] at hstep
  | txDone =>
    simp only [step, Option.ite_none_left_eq_some, Option.some.injEq] at hstep
    obtain ⟨htx, rfl⟩ := hstep
    obtain ⟨h', hidle, hle⟩ := h.txCallback (c := c)
    exact ⟨Network.lossyMeasure_lt_of_sctx (by omega), .inl ⟨_, _, _, rfl, h', hidle⟩⟩
  | timerExpired =>
    simp only [step, Option.ite_none_right_eq_some, Option.some.injEq] at hstep
    obtain ⟨htimer, rfl⟩ := hstep
    obtain ⟨h', hidle, hlt⟩ := h.timeout (c := c) (by rw [htimer]; exact Timer.noConfusion)
    exact ⟨Network.lossyMeasure_lt_of_sctx (by omega), .inl ⟨_, _, _, rfl, h', hidle⟩⟩
  | frameToReceiver => exact he.elim
  | frameToSender => exact he.elim
  | receiveWork => exact he.elim

/-! ## The receiver -/

/-- The receiver has accepted `m` of the consecutive frames before `j`, and more is to come. If it has
accepted all of them, it has the beginning of the message; in any case no more bytes than `m` frames can
carry. -/
structure Accepted (c : IsoTpConfig) (msg : Bytes) (m j : ℕ) (r : RecvCtx) : Prop where
  le : m ≤ j
  whole : m = j → Received c msg j r
  bytes : msg.length ≤ r.remLen + (canMaxDlen c - 2) + m * (canMaxDlen c - 1)
  remLen_le : r.remLen ≤ msg.length
  more : 0 < r.remLen

/-- What the receiver has when the frames before `j` are gone, and that it will go on: it has the whole
message when it is about to dispatch it. -/
def RecvCtx.Ok (c : IsoTpConfig) (msg : Bytes) (j : ℕ) (r : RecvCtx) : Prop :=
  match r.state with
  | .waitCf | .tryAlloc => ∃ m, Accepted c msg m j r
  | .processFf | .sendWait => (∃ m, Accepted c msg m j r) ∧ r.work = true
  | .processSf | .recycle => r.buffer = msg ∧ r.work = true
  | .err => r.work = true
  | .waitFfSf | .sendFc | .unbound => False

theorem Received.accepted (h : Received c msg j r) (hmore : 0 < r.remLen) : Accepted c msg j j r := by
  refine ⟨Nat.le_refl _, fun _ => h, ?_, ?_, hmore⟩
  · have hle : pos c msg j ≤ canMaxDlen c - 2 + j * (canMaxDlen c - 1) := Nat.min_le_right ..
    rw [h.remLen]
    omega
  · rw [h.remLen]
    exact Nat.sub_le ..

/-- The receiver's fields that the bytes of the message are about. -/
theorem Accepted.of_fields (h : Accepted c msg m j r) {r' : RecvCtx} (hbuffer : r'.buffer = r.buffer)
    (hremLen : r'.remLen = r.remLen) (hsn : r'.snExpected = r.snExpected) : Accepted c msg m j r' := by
  obtain ⟨hle, hwhole, hbytes, hremLen_le, hmore⟩ := h
  refine ⟨hle, fun heq => ?_, hremLen ▸ hbytes, hremLen ▸ hremLen_le, hremLen ▸ hmore⟩
  obtain ⟨h₁, h₂, h₃⟩ := hwhole heq
  exact ⟨hbuffer.trans h₁, hremLen.trans h₂, hsn.trans h₃⟩

/-- A frame that is not looked at is as good as lost. -/
theorem Accepted.skip (h : Accepted c msg m j r) (hij : j < i) : Accepted c msg m i r :=
  ⟨h.le.trans hij.le, fun heq => absurd heq (Nat.ne_of_lt (Nat.lt_of_le_of_lt h.le hij)), h.bytes,
    h.remLen_le, h.more⟩

/-- When a frame is missing before consecutive frame `i`, the receiver notices that, or it ends up with
bytes missing. -/
theorem processCf_missing (hc : DlcTable c) (hmax : msg.length ≤ 4095) (hf : IsCf c msg i f)
    (hi : pos c msg i < msg.length) (hmi : m < i) (h : Accepted c msg m j r) (hstate : r.state = .waitCf) :
    ((r.processCf c f).state = .err ∧ (r.processCf c f).work = true) ∨
    (((r.processCf c f).state = .waitCf ∨ (r.processCf c f).state = .tryAlloc) ∧
      Accepted c msg (m + 1) (i + 1) (r.processCf c f)) := by
  obtain ⟨junk, hdata, hdlc⟩ := hf
  obtain ⟨htype, hnibble⟩ := nibble_cf ((i + 1) % 16) (Nat.mod_lt _ (by decide))
  have hbyte := byte_of_data hdata
  -- at most a full frame's bytes are taken
  have hd : 8 ≤ canMaxDlen c := by rcases canMaxDlen_eq c with ⟨hd, -⟩ | ⟨hd, -⟩ <;> omega
  have hlen : (payload c msg i).length ≤ canMaxDlen c - 1 := by
    rw [length_payload]
    exact Nat.min_le_right ..
  have hle := hc.le_dlc ((payload c msg i).length + 1) (by omega)
  have hge := hc.dlc_le ((payload c msg i).length + 1) (by omega)
  have hremLen := h.remLen_le
  obtain ⟨t, ht, htrem, htfull⟩ : ∃ t : ℕ, toUint32 (min (r.remLen : ℤ) (c.dlcToBytes f.dlc - 1)) = t ∧
      t ≤ r.remLen ∧ t ≤ canMaxDlen c - 1 := by
    refine ⟨min r.remLen (c.dlcToBytes f.dlc - 1), ?_, Nat.min_le_left .., ?_⟩
    · rw [← toUint32_natCast (n := min r.remLen (c.dlcToBytes f.dlc - 1)) (by omega), hdlc]
      congr 1
      omega
    · rw [hdlc]
      omega
  have hsub : toUint12 ((r.remLen : ℤ) - (t : ℕ)) = r.remLen - t := toUint12_sub htrem (by omega)
  -- the frames up to the last one do not carry the whole message
  have hshort : canMaxDlen c - 2 + (m + 1) * (canMaxDlen c - 1) < msg.length := by
    have hmul : (m + 1) * (canMaxDlen c - 1) ≤ i * (canMaxDlen c - 1) := Nat.mul_le_mul_right _ hmi
    rw [pos] at hi
    omega
  have hbytes := h.bytes
  have haccepted : ∀ r' : RecvCtx, r'.remLen = r.remLen - t → Accepted c msg (m + 1) (i + 1) r' := by
    intro r' hr'
    have hsucc : (m + 1) * (canMaxDlen c - 1) = m * (canMaxDlen c - 1) + (canMaxDlen c - 1) :=
      Nat.succ_mul ..
    exact ⟨by omega, fun heq => absurd heq (by omega), by rw [hr']; omega, by omega, by omega⟩
  have hmore := (haccepted { r with remLen := r.remLen - t } rfl).more
  simp only [RecvCtx.processCf, hbyte, htype, hnibble, ne_eq, not_true_eq_false, if_false, RecvCtx.add, ht,
    hsub]
  split
  · exact .inl ⟨rfl, rfl⟩
  · rw [if_neg (Nat.ne_of_gt hmore)]
    split
    · split
      · exact .inr ⟨.inr rfl, haccepted _ rfl⟩
      · exact .inr ⟨.inl hstate, haccepted _ rfl⟩
    · exact .inr ⟨.inl hstate, haccepted _ rfl⟩

/-- What a receiver makes of consecutive frame `i`: it notices that a frame is missing, or it has the whole
message, or more is to come. -/
theorem processCf_accepted (hc : DlcTable c) (hmax : msg.length ≤ 4095) (hf : IsCf c msg i f)
    (hi : pos c msg i < msg.length) (hij : j ≤ i) (h : Accepted c msg m j r) (hstate : r.state = .waitCf) :
    ((r.processCf c f).state = .err ∧ (r.processCf c f).work = true) ∨
    ((r.processCf c f).state = .recycle ∧ (r.processCf c f).buffer = msg ∧
      (r.processCf c f).work = true) ∨
    (((r.processCf c f).state = .waitCf ∨ (r.processCf c f).state = .tryAlloc) ∧
      ∃ m', Accepted c msg m' (i + 1) (r.processCf c f)) := by
  by_cases hlost : m = i
  · -- no frame is missing
    obtain rfl : m = j := by have := h.le; omega
    subst hlost
    obtain ⟨r₁, hr₁, hbs, hstate₁, hwork₁, heq⟩ := processCf_of_isCf hc hf hmax (h.whole rfl)
    rw [heq]
    split
    · rename_i hrem
      have hpos : pos c msg (m + 1) = msg.length := by
        have := pos_le c msg (m + 1)
        rw [hr₁.remLen] at hrem
        omega
      exact .inr (.inl ⟨rfl, by rw [hr₁.buffer, hpos, List.take_length], rfl⟩)
    · rename_i hrem
      have hmore := hr₁.accepted (Nat.pos_of_ne_zero hrem)
      split
      · split
        · exact .inr (.inr ⟨.inr rfl, _, hmore.of_fields rfl rfl rfl⟩)
        · exact .inr (.inr ⟨.inl (hstate₁.trans hstate), _, hmore.of_fields rfl rfl rfl⟩)
      · exact .inr (.inr ⟨.inl (hstate₁.trans hstate), _, hmore⟩)
  · -- a frame is missing, and so at least one frame's bytes will be missing at the end
    have hlt : m < i := by have := h.le; omega
    obtain herr | ⟨hstate', haccepted⟩ := processCf_missing hc hmax hf hi hlt h hstate
    · exact .inl herr
    · exact .inr (.inr ⟨hstate', _, haccepted⟩)

/-- What the receiver has come to: it has a context, or it has reported at most one error, or delivered the
message. -/
def Outcome (c : IsoTpConfig) (msg : Bytes) (j : ℕ) (n : Network) : Prop :=
  (∃ r, n.rctx = some r ∧ r.Ok c msg j ∧ n.delivered = [] ∧ n.recvErrors = []) ∨
    n.rctx = none ∧ (n.delivered = [] ∧ n.recvErrors.length ≤ 1 ∨ n.delivered = [msg] ∧ n.recvErrors = [])

/-- An event on the receiver's node, frames that arrive apart: the sender does not notice it. -/
structure ReceiverFrame (c : IsoTpConfig) (msg : Bytes) (j : ℕ) (n n' : Network) : Prop where
  measure : n'.lossyMeasure c < n.lossyMeasure c
  outcome : Outcome c msg j n'
  sctx : n'.sctx = n.sctx
  toReceiver : n'.toReceiver = n.toReceiver
  singleCb : n'.singleCb = n.singleCb

/-- The receiver's work item frees the context. -/
theorem ReceiverFrame.freed (hr : n.rctx = some r) (hwork : r.work = true) {fs : List CanFrame}
    {d : List Bytes} {es : List Error} (hfs : fs.length ≤ n.toSender.length + 1)
    (houtcome : d = [] ∧ es.length ≤ 1 ∨ d = [msg] ∧ es = []) :
    ReceiverFrame c msg j n
      { n with rctx := none, toSender := fs, delivered := d, recvErrors := es } := by
  refine ⟨?_, .inr ⟨rfl, houtcome⟩, rfl, rfl, rfl⟩
  simp only [Network.lossyMeasure, RecvCtx.lossyMeasure, hr, hwork, Bool.toNat_true, Option.map_some,
    Option.map_none, Option.getD_some, Option.getD_none]
  omega

/-- The receiver's work item keeps the context. -/
theorem ReceiverFrame.kept (fs : List CanFrame) (hr : n.rctx = some r) {r' : RecvCtx}
    (hmeasure : r'.lossyMeasure c + 4 * fs.length < r.lossyMeasure c + 4 * n.toSender.length)
    (hok : r'.Ok c msg j) (hdelivered : n.delivered = []) (herrors : n.recvErrors = []) :
    ReceiverFrame c msg j n { n with rctx := some r', toSender := fs } := by
  refine ⟨?_, .inl ⟨r', rfl, hok, hdelivered, herrors⟩, rfl, rfl, rfl⟩
  simp only [Network.lossyMeasure, hr, Option.map_some, Option.getD_some]
  omega

theorem receiveErr_lossy (hr : n.rctx = some r) (hwork : r.work = true) (hdelivered : n.delivered = [])
    (herrors : n.recvErrors = []) (r' : RecvCtx) : ReceiverFrame c msg j n (receiveErr c r' n) := by
  refine .freed hr hwork ?_ (.inl ⟨hdelivered, ?_⟩)
  · split
    · simp
    · omega
  · simp [herrors]

/-- The receiver's work item runs. -/
theorem receiveWork_lossy (hwft : c.wftMax ≤ 255) (h : Outcome c msg j n)
    (hstep : step c n .receiveWork = some n') : ReceiverFrame c msg j n n' := by
  obtain ⟨r, hr, hok, hdelivered, herrors⟩ | ⟨hr, -⟩ := h
  · simp only [step, hr, Option.ite_none_right_eq_some, Option.some.injEq] at hstep
    obtain ⟨hwork, rfl⟩ := hstep
    rw [RecvCtx.Ok] at hok
    cases hstate : r.state with
    | waitFfSf | sendFc | unbound =>
      rw [hstate] at hok
      exact hok.elim
    | processSf | recycle =>
      rw [hstate] at hok
      simp only [receiveStateMachine, recycle]
      exact .freed hr hwork (Nat.le_succ _) (.inr ⟨by rw [hdelivered, hok.1]; rfl, herrors⟩)
    | err =>
      simp only [receiveStateMachine]
      exact receiveErr_lossy hr hwork hdelivered herrors _
    | processFf =>
      rw [hstate] at hok
      obtain ⟨⟨m, haccepted⟩, -⟩ := hok
      simp only [receiveStateMachine]
      split
      · exact receiveErr_lossy hr hwork hdelivered herrors _
      · split
        all_goals
          refine .kept _ hr ?_ ⟨m, haccepted.of_fields rfl rfl rfl⟩ hdelivered herrors
          simp only [RecvCtx.lossyMeasure, RecvCtx.waits, hstate, hwork, RxState.lossyMeasure,
            List.length_append, List.length_singleton, Bool.toNat_true, Bool.toNat_false, if_true,
            reduceCtorEq, if_false]
          omega
    | tryAlloc =>
      rw [hstate] at hok
      obtain ⟨m, haccepted⟩ := hok
      simp only [receiveStateMachine]
      refine .kept _ hr ?_ ⟨m, haccepted.of_fields rfl rfl rfl⟩ hdelivered herrors
      simp only [RecvCtx.lossyMeasure, RecvCtx.waits, hstate, hwork, RxState.lossyMeasure,
        List.length_append, List.length_singleton, Bool.toNat_true, Bool.toNat_false, reduceCtorEq,
        if_false]
      omega
    | sendWait =>
      rw [hstate] at hok
      obtain ⟨⟨m, haccepted⟩, -⟩ := hok
      simp only [receiveStateMachine]
      split
      · rename_i hlt
        refine .kept _ hr ?_ ⟨m, haccepted.of_fields rfl rfl rfl⟩ hdelivered herrors
        have hsucc : (r.wft + 1 + 1).toNat = (r.wft + 1).toNat + 1 := by
          rw [UInt8.toNat_add]
          simp only [UInt8.toNat_one]
          omega
        simp only [RecvCtx.lossyMeasure, RecvCtx.waits, hstate, hwork, RxState.lossyMeasure, hsucc,
          List.length_append, List.length_singleton, Bool.toNat_true, Bool.toNat_false, reduceCtorEq,
          if_false]
        omega
      · exact receiveErr_lossy hr hwork hdelivered herrors _
    | waitCf =>
      rw [hstate] at hok
      obtain ⟨m, haccepted⟩ := hok
      simp only [receiveStateMachine]
      refine .kept n.toSender hr ?_ ⟨m, haccepted.of_fields rfl rfl rfl⟩ hdelivered herrors
      simp only [RecvCtx.lossyMeasure, RecvCtx.waits, hstate, hwork, Bool.toNat_true, Bool.toNat_false,
        reduceCtorEq, if_false]
      omega
  · simp [step, hr] at hstep

/-- A receiver's timer expires. -/
theorem receiveTimeout_lossy (h : Outcome c msg j n)
    (hstep : lossyStep c n .receiveTimeout = some n') : ReceiverFrame c msg j n n' := by
  obtain ⟨r, hr, hstep⟩ := Option.bind_eq_some_iff.1 hstep
  obtain ⟨hstate, hstep⟩ := Option.ite_none_right_eq_some.1 hstep
  obtain rfl := Option.some.inj hstep
  obtain ⟨r', hr', hok, hdelivered, herrors⟩ | ⟨hr', -⟩ := h
  · obtain rfl := Option.some.inj (hr.symm.trans hr')
    have hwork := Bool.toNat_le r.work
    rw [RecvCtx.Ok] at hok
    obtain hstate | hstate := hstate
    · rw [hstate] at hok
      refine .kept n.toSender hr ?_ ?_ hdelivered herrors
      · simp only [RecvCtx.timeout, RecvCtx.reportError, RecvCtx.lossyMeasure, RecvCtx.waits, hstate,
          RxState.lossyMeasure, Bool.toNat_true, reduceCtorEq, if_false]
        omega
      · simp only [RecvCtx.Ok, RecvCtx.timeout, hstate, RecvCtx.reportError]
    · rw [hstate] at hok
      obtain ⟨m, haccepted⟩ := hok
      have htimeout : r.timeout = { r with state := .sendWait, work := true } := by
        rw [RecvCtx.timeout, hstate]
      rw [htimeout]
      refine .kept n.toSender hr ?_ ⟨⟨m, haccepted.of_fields rfl rfl rfl⟩, rfl⟩ hdelivered herrors
      simp only [RecvCtx.lossyMeasure, RecvCtx.waits, hstate, RxState.lossyMeasure, Bool.toNat_true,
        reduceCtorEq, if_false]
      omega
  · rw [hr] at hr'
    cases hr'

/-- A frame changes the receive context only. -/
theorem receiveCanRx_rctx (c : IsoTpConfig) (f : CanFrame) (n : Network) :
    ∃ r, receiveCanRx c f n = { n with rctx := r } := by
  rw [receiveCanRx]
  dsimp only
  split
  · exact ⟨n.rctx, rfl⟩
  · split
    · exact ⟨_, rfl⟩
    · split <;> exact ⟨_, rfl⟩
    · exact ⟨_, rfl⟩

/-- Whatever the receiver makes of a frame, the frame cost more. -/
theorem lossyMeasure_receiveCanRx (c : IsoTpConfig) (f : CanFrame) (fs : List CanFrame)
    (hto : n.toReceiver = f :: fs) :
    (receiveCanRx c f { n with toReceiver := fs }).lossyMeasure c < n.lossyMeasure c := by
  obtain ⟨r, hr⟩ := receiveCanRx_rctx c f { n with toReceiver := fs }
  rw [hr]
  have hlt : (r.map (RecvCtx.lossyMeasure c)).getD 0 < lossyWeight c := by
    cases r with
    | none => exact Nat.succ_pos _
    | some r => exact r.lossyMeasure_lt c
  simp only [Network.lossyMeasure, hto, List.length_cons, Nat.mul_succ]
  omega

/-- A frame that is not looked at submits the work item. -/
theorem RecvCtx.Ok.skip (h : r.Ok c msg j) (hij : j < i) :
    RecvCtx.Ok c msg i { r with work := true } := by
  rw [RecvCtx.Ok] at h ⊢
  dsimp only
  split at h
  · obtain ⟨m, haccepted⟩ := h
    exact ⟨m, (haccepted.skip hij).of_fields rfl rfl rfl⟩
  · obtain ⟨m, haccepted⟩ := h
    exact ⟨m, (haccepted.skip hij).of_fields rfl rfl rfl⟩
  · obtain ⟨⟨m, haccepted⟩, -⟩ := h
    exact ⟨⟨m, (haccepted.skip hij).of_fields rfl rfl rfl⟩, rfl⟩
  · obtain ⟨⟨m, haccepted⟩, -⟩ := h
    exact ⟨⟨m, (haccepted.skip hij).of_fields rfl rfl rfl⟩, rfl⟩
  · exact ⟨h.1, rfl⟩
  · exact ⟨h.1, rfl⟩
  · rfl
  · exact h
  · exact h
  · exact h

/-- A consecutive frame arrives. -/
theorem Outcome.receiveCanRx (hc : DlcTable c) (hmax : msg.length ≤ 4095) (hf : IsCf c msg i f)
    (hi : pos c msg i < msg.length) (hij : j ≤ i) (h : Outcome c msg j n) :
    Outcome c msg (i + 1) (receiveCanRx c f n) := by
  have htype : pciType (f.byte 0) = typeCf := by
    obtain ⟨junk, hdata, -⟩ := hf
    rw [byte_of_data hdata]
    exact (nibble_cf _ (Nat.mod_lt _ (by decide))).1
  have hcf : ¬(pciType (f.byte 0) = typeFf ∨ pciType (f.byte 0) = typeSf) := by
    rw [htype]
    decide
  obtain ⟨r, hr, hok, hdelivered, herrors⟩ | ⟨hr, houtcome⟩ := h
  · suffices h : ∃ r', IsoTp.receiveCanRx c f n = { n with rctx := some r' } ∧ r'.Ok c msg (i + 1) by
      obtain ⟨r', heq, hok'⟩ := h
      rw [heq]
      exact .inl ⟨r', rfl, hok', hdelivered, herrors⟩
    have hskip := hok.skip (Nat.lt_succ_of_le hij)
    rw [IsoTp.receiveCanRx, hr, decide_eq_false hcf]
    dsimp only [Option.getD_some]
    cases hstate : r.state with
    | waitFfSf =>
      rw [RecvCtx.Ok, hstate] at hok
      exact hok.elim
    | waitCf =>
      rw [RecvCtx.Ok, hstate] at hok
      obtain ⟨m, haccepted⟩ := hok
      dsimp only
      obtain ⟨herr, hwork⟩ | ⟨hrecycle, hbuffer, hwork⟩ | ⟨hstate', m', haccepted'⟩ :=
        processCf_accepted hc hmax hf hi hij haccepted hstate
      · rw [if_neg (by rw [herr]; exact RxState.noConfusion)]
        exact ⟨_, rfl, by simp only [RecvCtx.Ok, herr]⟩
      · rw [if_neg (by rw [hrecycle]; exact RxState.noConfusion)]
        exact ⟨_, rfl, by simp only [RecvCtx.Ok, hrecycle, hbuffer, and_self]⟩
      · obtain hstate' | hstate' := hstate'
        · rw [if_pos hstate']
          refine ⟨_, rfl, ?_⟩
          rw [RecvCtx.Ok, hstate']
          exact ⟨m', haccepted'⟩
        · rw [if_neg (by rw [hstate']; exact RxState.noConfusion)]
          refine ⟨_, rfl, ?_⟩
          simp only [RecvCtx.Ok, hstate']
          exact ⟨m', haccepted'.of_fields rfl rfl rfl⟩
    | processSf | processFf | tryAlloc | sendFc | sendWait | err | recycle | unbound =>
      exact ⟨_, rfl, hstate ▸ hskip⟩
  · rw [IsoTp.receiveCanRx, hr, decide_eq_false hcf]
    exact .inr ⟨hr, houtcome⟩

end ThingSet.IsoTp
