import ThingSet.IsoTp.Backlog

/-!
# The transmission of a message

What a context has sent of its message, and what is to come, in a run in which the driver takes the
frames of the context and the completions of a block come before the next one: `Multi` is the
invariant of a message that needs several frames. Something will always make the context go on
(`Live`): its work item, its timer, a completion, or a flow control frame that it waits for. A `calm`
run is one in which nothing goes wrong, and the context never comes to an error.

`multi_workHandler`, `multi_semTaken`, `multi_txCallback`, `multi_timeout`, `multi_canRx`: what each
event makes of it. It ends with a work item that calls `sent_callback`, and with the last frame if
the message is reported as sent.
-/

namespace ThingSet.IsoTp

variable {A β : Type} {c : IsoTpConfig} {calm : Bool} {msg : Bytes} {k p : ℕ} {stale : Bytes}
  {o : CanSend} {sctx : SendCtx} {s : SendSlot A β} {fs : List CanFrame} {f : CanFrame}

/-! ## The frames of a message -/

/-- A single frame: a header, from which the length can be read unless it is zero, and the
message. -/
structure IsSingle (c : IsoTpConfig) (msg : Bytes) (f : CanFrame) : Prop where
  type : pciType (f.byte 0) = typeSf
  data : ∃ header junk, f.data = header ++ (msg ++ junk) ∧
    f.dlc = c.bytesToDlc (msg.length + header.length) ∧
      (0 < msg.length → sfLength c f = (msg.length, header.length))

/-- The frames that carry a message. -/
inductive Carry (c : IsoTpConfig) (msg : Bytes) : List CanFrame → Prop
  | single (f : CanFrame) : IsSingle c msg f → Carry c msg [f]
  | multi (f : CanFrame) (fs : List CanFrame) (k : ℕ) : IsFf c msg f → CfFrames c msg 0 k fs →
      pos c msg k = msg.length → Carry c msg (f :: fs)

/-- The beginning of the frames that carry a message. -/
inductive Begun (c : IsoTpConfig) (msg : Bytes) : List CanFrame → Prop
  | nothing : Begun c msg []
  | single (f : CanFrame) : IsSingle c msg f → Begun c msg [f]
  | multi (f : CanFrame) (fs : List CanFrame) (k : ℕ) : IsFf c msg f → CfFrames c msg 0 k fs →
      Begun c msg (f :: fs)

theorem Carry.begun (h : Carry c msg fs) : Begun c msg fs := by
  rcases h with ⟨f, hf⟩ | ⟨f, cfs, k, hf, hcfs, -⟩
  · exact .single f hf
  · exact .multi f cfs k hf hcfs

/-- The frame of a message that fits. -/
theorem isSingle_sf (hlen : msg.length ≤ canMaxDlen c - sfLenByte c) :
    IsSingle c msg (sf c stale msg) := by
  rcases Nat.eq_zero_or_pos msg.length with hzero | hpos
  · obtain rfl := List.eq_nil_of_length_eq_zero hzero
    refine ⟨?_, [0], stale.drop 1, ?_, ?_, fun h => absurd h (Nat.lt_irrefl 0)⟩ <;>
      cases h : c.canFdMode <;> simp [sf, frameOf, h, CanFrame.byte, typeSf, pciType]
  · obtain ⟨f, hsend, header, junk, hdata, hdlc, -, htype, hlength⟩ :=
      fastSend_of_le (c := c) stale hpos hlen
    -- the frame is the one of the model of a single transfer
    have hf : fastSend c stale msg =
        some { sctx := { data := [], remLen := 0, bs := c.bs, stmin := c.stmin }
               toReceiver := [sf c stale msg]
               singleCb := 1 } := by
      rw [fastSend]
      exact if_pos hlen
    obtain rfl : sf c stale msg = f := by
      have := congrArg Network.toReceiver (Option.some.inj (hf.symm.trans hsend))
      simpa using this
    exact ⟨htype, header, junk, hdata, hdlc, fun _ => hlength⟩

theorem ff_spec (c : IsoTpConfig) (stale : Bytes) (hdata : sctx.data = msg) (hrem : sctx.remLen = msg.length)
    (hlisted : sctx.listed = true) (hlen : canMaxDlen c - 2 ≤ msg.length)
    (hmax : msg.length ≤ 4095) :
    IsFf c msg (sctx.ff c stale).1 ∧ Sent c msg 0 (sctx.ff c stale).2 := by
  obtain ⟨f, t, heq, hf, hsent, -, -⟩ := sendFf_spec stale { sctx := sctx } hdata hrem hlisted hlen hmax
  rw [sendFf_eq] at heq
  obtain rfl : (sctx.ff c stale).2 = t := congrArg Network.sctx heq
  obtain rfl : (sctx.ff c stale).1 = f := by simpa [canSend] using congrArg Network.toReceiver heq
  exact ⟨hf, hsent⟩

theorem cf_spec (stale : Bytes) (h : Sent c msg k sctx) :
    IsCf c msg k (sctx.cf c stale).1 ∧ Sent c msg (k + 1) (sctx.cf c stale).2.cfQueued := by
  obtain ⟨f, t, heq, hf, hsent, -⟩ := sendCf_spec stale { sctx := sctx } h
  rw [sendCf_eq] at heq
  obtain rfl : (sctx.cf c stale).2.cfQueued = t := congrArg Network.sctx heq
  obtain rfl : (sctx.cf c stale).1 = f := by simpa [canSend] using congrArg Network.toReceiver heq
  exact ⟨hf, hsent⟩

/-! ## A message that needs several frames -/

/-- Something makes the context go on, and it knows whether there is more to send. -/
def Live (calm : Bool) (s : SendCtx) (p : ℕ) : Prop :=
  match s.state with
  | .sendFf => s.work = true
  | .waitFc => 0 < s.remLen ∧ s.timer = .bs
  | .sendCf => 0 < s.remLen ∧
      (s.taking = false ∧ (s.work = true ∨ s.timer = .st) ∨ s.taking = true ∧ (s.sem = true ∨ 0 < p))
  | .waitSt => 0 < s.remLen ∧ (s.work = true ∨ 0 < p)
  | .waitBacklog => s.remLen = 0
  | .waitFin => s.remLen = 0 ∧ s.work = true ∧ p = 0
  | .err => calm = false ∧ s.error ≠ .ok ∧
      (s.taking = false ∧ s.work = true ∨
        s.taking = true ∧ 0 < s.remLen ∧ (s.sem = true ∨ 0 < p))
  | .reset => False

/-- The context has sent nothing yet, or the first frame and `k` consecutive frames, or a part of the
message and it came to an error. -/
inductive SentFrames (c : IsoTpConfig) (msg : Bytes) (s : SendCtx) : List CanFrame → Prop
  | start : s.state = .sendFf → s.data = msg → s.remLen = msg.length → s.listed = true →
      SentFrames c msg s []
  | going (f : CanFrame) (cfs : List CanFrame) (k : ℕ) : s.state ≠ .sendFf → IsFf c msg f →
      CfFrames c msg 0 k cfs → Sent c msg k s → SentFrames c msg s (f :: cfs)
  | failed (fs : List CanFrame) : s.state = .err → s.taking = false → s.listed = true →
      Begun c msg fs → SentFrames c msg s fs

/-- The context has sent `fs` of its message and `p` of the frames are not completed. -/
structure Multi (c : IsoTpConfig) (calm : Bool) (msg : Bytes) (s : SendCtx) (fs : List CanFrame)
    (p : ℕ) : Prop where
  counted : ∃ outstanding cts, outstanding.length = p ∧ Counted s outstanding cts
  frames : SentFrames c msg s fs
  live : Live calm s p
  timer : s.timer = .st → (s.state = .sendCf ∨ s.state = .err) ∧ s.taking = false

theorem SentFrames.begun (h : SentFrames c msg sctx fs) : Begun c msg fs := by
  rcases h with - | ⟨f, cfs, k, -, hf, hcfs, -⟩ | ⟨_, -, -, -, hbegun⟩
  · exact .nothing
  · exact .multi f cfs k hf hcfs
  · exact hbegun

theorem SentFrames.listed (h : SentFrames c msg sctx fs) : sctx.listed = true := by
  rcases h with ⟨-, -, -, hlisted⟩ | ⟨_, _, _, -, -, -, hsent⟩ | ⟨_, -, -, hlisted, -⟩
  · exact hlisted
  · exact hsent.listed
  · exact hlisted

/-- The frames of a context that goes on. -/
theorem SentFrames.of_going (h : SentFrames c msg sctx fs) (hff : sctx.state ≠ .sendFf)
    (hne : sctx.state ≠ .err ∨ sctx.taking = true) :
    ∃ f cfs k, fs = f :: cfs ∧ IsFf c msg f ∧ CfFrames c msg 0 k cfs ∧ Sent c msg k sctx := by
  rcases h with ⟨hstate, -⟩ | ⟨f, cfs, k, -, hf, hcfs, hsent⟩ | ⟨_, herr, htaking, -⟩
  · exact absurd hstate hff
  · exact ⟨f, cfs, k, rfl, hf, hcfs, hsent⟩
  · rcases hne with hne | hne
    · exact absurd herr hne
    · exact absurd (htaking.symm.trans hne) (by decide)

/-- What a consecutive frame leaves behind. -/
theorem live_afterCf (c : IsoTpConfig) (msg : Bytes) (k : ℕ)
    (hstate : s.state = .sendCf ∨ s.state = .err ∧ calm = false ∧ s.error ≠ .ok)
    (htimer : s.timer ≠ .st) (hp : 0 < p ∨ s.sem = true ∧ s.work = true) :
    Live calm (s.afterCf c).toSendCtx p ∧ (s.afterCf c).timer ≠ .st ∧ (s.afterCf c).state ≠ .sendFf ∧
      (Sent c msg k s.toSendCtx → Sent c msg k (s.afterCf c).toSendCtx) := by
  rcases SendSlot.afterCf_cases (c := c) s with ⟨hrem, h⟩ | ⟨hrem, -, -, h⟩ | ⟨hrem, -, h⟩ |
    ⟨hrem, -, h⟩ <;> rw [h] <;> refine ⟨?_, ?_, ?_, fun h => ⟨h.data, h.remLen, h.sn, h.listed⟩⟩
  · exact hrem
  · exact htimer
  · exact nofun
  · exact ⟨Nat.pos_of_ne_zero hrem, rfl⟩
  · exact nofun
  · exact nofun
  · exact ⟨Nat.pos_of_ne_zero hrem, hp.symm.imp_left And.right⟩
  · exact htimer
  · exact nofun
  · rcases hstate with hstate | ⟨hstate, hcalm, herror⟩ <;> simp only [Live, hstate]
    · exact ⟨Nat.pos_of_ne_zero hrem, .inr ⟨trivial, hp.symm.imp_left And.left⟩⟩
    · exact ⟨hcalm, herror, .inr ⟨trivial, Nat.pos_of_ne_zero hrem, hp.symm.imp_left And.left⟩⟩
  · exact htimer
  · rcases hstate with hstate | ⟨hstate, -⟩ <;> simp [hstate]

/-- A round of the loop sends the next frame. -/
theorem multi_sendCfRound {cts : ℕ} {cfs : List CanFrame} (hcts : 0 < cts) (hbacklog : s.backlog = 0)
    (hstate : s.state = .sendCf ∨ s.state = .err ∧ calm = false ∧ s.error ≠ .ok)
    (htaking : s.taking = false) (htimer : s.timer ≠ .st)
    (hsem : s.stmin = 0 → s.sem = false) (hwork : s.stmin ≠ 0 → s.work = false)
    (hff : IsFf c msg f) (hcfs : CfFrames c msg 0 k cfs) (hsent : Sent c msg k s.toSendCtx)
    (hgood : s.remLen ≤ canMaxDlen c - 1 → ∀ error, o ≠ .completed error)
    (hok : ∀ eagain, o ≠ .failed eagain) :
    Multi c calm msg (s.sendCfRound c stale o).slot.toSendCtx
      (f :: cfs ++ (s.sendCfRound c stale o).frame.toList)
      (if (s.sendCfRound c stale o).outstanding then 1 else 0) := by
  have hcounted := counted_sendCfRound c stale o (T := ⟨s, [], cts, []⟩)
    hcts rfl hbacklog (hstate.imp_right And.left) htaking hsem hwork hgood
  obtain ⟨hcf, hsent'⟩ := cf_spec stale hsent
  have hne : s.state ≠ .waitBacklog := by rcases hstate with h | ⟨h, -⟩ <;> simp [h]
  rcases SendSlot.sendCfRound_cases c stale o hne with
    ⟨rfl, h⟩ | ⟨error, rfl, h⟩ | ⟨eagain, rfl, -⟩
  · rw [h] at hcounted ⊢
    obtain ⟨hlive, htimer', hsendFf, hkeep⟩ := live_afterCf c msg (k + 1)
      (p := 1) (s := { s with toSendCtx := (s.cf c stale).2.cfQueued, pendingCb := s.pendingCb + 1 })
      hstate htimer (.inl Nat.one_pos)
    exact ⟨⟨_, _, rfl, hcounted⟩, .going f _ _ hsendFf hff (hcfs.append hcf) (hkeep hsent'), hlive,
      fun h => absurd h htimer'⟩
  · rw [h] at hcounted ⊢
    obtain ⟨hlive, htimer', hsendFf, hkeep⟩ := live_afterCf c msg (k + 1) (p := 0)
      (s := { s with
        toSendCtx := { (s.cf c stale).2.cfQueued with
          backlog := s.backlog - 1 + 1
          sem := true
          work := true } }) hstate htimer (.inr ⟨rfl, rfl⟩)
    exact ⟨⟨_, _, rfl, hcounted⟩, .going f _ _ hsendFf hff (hcfs.append hcf)
      (hkeep ⟨hsent'.data, hsent'.remLen, hsent'.sn, hsent'.listed⟩), hlive,
      fun h => absurd h htimer'⟩
  · exact absurd rfl (hok eagain)

/-- The work item runs: the next frame is sent, or the message is reported, and it was sent if the
context has not come to an error. -/
theorem multi_workHandler (stale : Bytes) (o : CanSend) (h : Multi c calm msg s.toSendCtx fs p)
    (hlong : canMaxDlen c - sfLenByte c < msg.length) (hmax : msg.length ≤ 4095)
    (hwork : s.work = true) (htaking : s.taking = false)
    (hgood : s.state = .sendCf → s.remLen ≤ canMaxDlen c - 1 → ∀ error, o ≠ .completed error)
    (hok : s.state = .sendFf ∨ s.state = .sendCf → ∀ eagain, o ≠ .failed eagain)
    (herr : s.state = .err → p = 0) :
    (Multi c calm msg (s.workHandler c stale o).slot.toSendCtx
        (fs ++ (s.workHandler c stale o).frame.toList)
        (p + if (s.workHandler c stale o).outstanding then 1 else 0) ∧
      s.Keeps (s.workHandler c stale o)) ∨
    (p = 0 ∧ ∃ e, (e = .ok ∧ Carry c msg fs ∨ e ≠ .ok ∧ calm = false) ∧
      s.workHandler c stale o =
        { slot := { s with work := false, state := .reset }.free
          sent := s.sentCallback (.isoTp e) }) := by
  obtain ⟨⟨outstanding, cts, hp, hcounted⟩, hframes, hlive, htimer⟩ := h
  -- what is on the bus is counted
  have hcounted' : ∃ outstanding' cts',
      outstanding'.length = p + (if (s.workHandler c stale o).outstanding then 1 else 0) ∧
        Counted (s.workHandler c stale o).slot.toSendCtx outstanding' cts' := by
    refine ⟨_, _, ?_, counted_workHandler (T := ⟨s, outstanding, cts, []⟩) hcounted hwork htaking
      hgood⟩
    simp only [Transfer.apply]
    split <;> simp [hp]
  by_cases hff : s.state = .sendFf
  · -- the first frame is sent
    obtain ⟨rfl, hdata, hrem, hlisted⟩ : fs = [] ∧ s.data = msg ∧ s.remLen = msg.length ∧
        s.listed = true := by
      rcases hframes with ⟨-, hdata, hrem, hlisted⟩ | ⟨_, _, _, hne, -⟩ | ⟨_, herr, -⟩
      · exact ⟨rfl, hdata, hrem, hlisted⟩
      · exact absurd hff hne
      · exact absurd (hff.symm.trans herr) (by decide)
    have hd := canMaxDlen_eq c
    obtain ⟨hf, hsent⟩ := ff_spec c stale hdata hrem hlisted (by omega) hmax
    have hpos : 0 < (s.ff c stale).2.remLen := by
      rw [hsent.remLen, pos_zero (by omega)]
      omega
    refine .inl ⟨?_, SendSlot.keeps_workHandler (by simp [hff]) (by simp [hff])⟩
    rcases SendSlot.workHandler_sendFf c stale o hff with
      ⟨-, heq⟩ | ⟨error, -, heq⟩ | ⟨eagain, hfailed, -⟩
    · rw [heq] at hcounted' ⊢
      exact ⟨hcounted', .going _ [] 0 (by rintro ⟨⟩) hf rfl
        ⟨hsent.data, hsent.remLen, hsent.sn, hsent.listed⟩, ⟨hpos, rfl⟩, by rintro ⟨⟩⟩
    · rw [heq] at hcounted' ⊢
      exact ⟨hcounted', .going _ [] 0 (by rintro ⟨⟩) hf rfl
        ⟨hsent.data, hsent.remLen, hsent.sn, hsent.listed⟩, ⟨hpos, rfl⟩, by rintro ⟨⟩⟩
    · exact absurd hfailed (hok (.inl hff) eagain)
  by_cases herror : s.state = .err
  · -- the error is reported
    simp only [Live, herror] at hlive
    rcases SendSlot.workHandler_cases c stale o hff with ⟨hstate, -⟩ |
      ⟨hstate, -⟩ | ⟨result, ⟨-, rfl⟩ | ⟨hstate, -⟩, heq⟩ | ⟨hstate, -⟩
    · exact absurd (herror.symm.trans hstate) (by decide)
    · exact absurd (herror.symm.trans hstate) (by decide)
    · exact .inr ⟨herr herror, s.error, .inr ⟨hlive.2.1, hlive.1⟩, heq⟩
    · exact absurd (herror.symm.trans hstate) (by decide)
    · rcases hstate with hstate | hstate | hstate <;>
        exact absurd (herror.symm.trans hstate) (by decide)
  obtain ⟨f, cfs, k, rfl, hf, hcfs, hsent⟩ := hframes.of_going hff (.inl herror)
  rcases SendSlot.workHandler_cases c stale o hff with ⟨hstate, heq⟩ |
    ⟨hstate, heq⟩ | ⟨result, ⟨hstate, -⟩ | ⟨hstate, rfl⟩, heq⟩ | ⟨hstate, heq⟩
  · -- the next consecutive frame is sent
    obtain ⟨rfl, hcts, hsem⟩ := hcounted.sendCf hstate htaking
    obtain rfl : p = 0 := hp.symm
    refine .inl ⟨?_, SendSlot.keeps_workHandler (by simp [hstate]) (by simp [hstate])⟩
    rw [heq, Nat.zero_add]
    exact multi_sendCfRound (s := { s with work := false, timer := .stopped }) hcts
      (UInt8.toNat_inj.1 (hcounted.backlog hcts)) (.inl hstate) htaking (by rintro ⟨⟩) hsem
      (fun _ => rfl) hf hcfs ⟨hsent.data, hsent.remLen, hsent.sn, hsent.listed⟩ (hgood hstate)
      (hok (.inr hstate))
  · refine .inl ⟨?_, SendSlot.keeps_workHandler (by simp [hstate]) (by simp [hstate])⟩
    rw [heq] at hcounted' ⊢
    simp only [Live, hstate] at hlive
    exact ⟨hcounted', (List.append_nil _).symm ▸ .going f cfs k (by rintro ⟨⟩) hf hcfs
      ⟨hsent.data, hsent.remLen, hsent.sn, hsent.listed⟩, ⟨hlive.1, .inl ⟨htaking, .inr rfl⟩⟩,
      fun _ => ⟨.inl rfl, htaking⟩⟩
  · exact absurd hstate herror
  · -- the message was sent
    simp only [Live, hstate] at hlive
    have hle := pos_le c msg k
    have hrem := hsent.remLen
    exact .inr ⟨hlive.2.2, .ok, .inl ⟨rfl, .multi f cfs k hf hcfs (by omega)⟩, heq⟩
  · have hne : s.state ≠ .waitFin := by
      rcases hstate with h | h | h <;> simp [h]
    refine .inl ⟨?_, SendSlot.keeps_workHandler herror hne⟩
    rw [heq] at hcounted' ⊢
    refine ⟨hcounted', (List.append_nil _).symm ▸ .going f cfs k hff hf hcfs
        ⟨hsent.data, hsent.remLen, hsent.sn, hsent.listed⟩, ?_, htimer⟩
    rcases hstate with h | h | h <;> simp only [Live, h] at hlive ⊢
    · exact hlive
    · exact hlive

/-- The wait in `k_sem_take` ends, and the next frame is sent. -/
theorem multi_semTaken (stale : Bytes) (o : CanSend) (h : Multi c calm msg s.toSendCtx fs p) (htaking : s.taking = true)
    (hsem : s.sem = true)
    (hgood : s.remLen ≤ canMaxDlen c - 1 → ∀ error, o ≠ .completed error)
    (hok : ∀ eagain, o ≠ .failed eagain) :
    Multi c calm msg (s.semTaken c stale o).slot.toSendCtx
      (fs ++ (s.semTaken c stale o).frame.toList)
      (p + if (s.semTaken c stale o).outstanding then 1 else 0) := by
  obtain ⟨⟨outstanding, cts, hp, hcounted⟩, hframes, hlive, htimer⟩ := h
  obtain ⟨hstate, hcts, hstmin, hout⟩ := hcounted.taking htaking
  obtain rfl := hout hsem
  obtain rfl : p = 0 := hp.symm
  obtain ⟨f, cfs, k, rfl, hf, hcfs, hsent⟩ :=
    hframes.of_going (by rcases hstate with h | h <;> simp [h]) (.inr htaking)
  have hstate' : s.state = .sendCf ∨ s.state = .err ∧ calm = false ∧ s.error ≠ .ok := by
    refine hstate.imp_right fun herr => ?_
    simp only [Live, herr] at hlive
    exact ⟨herr, hlive.1, hlive.2.1⟩
  have htimer' : s.timer ≠ .st := fun h => absurd (htaking.symm.trans (htimer h).2) (by decide)
  rw [Nat.zero_add]
  exact multi_sendCfRound (s := { s with taking := false, sem := false }) hcts
    (UInt8.toNat_inj.1 (hcounted.backlog hcts)) hstate' rfl htimer' (fun _ => rfl)
    (fun hne => absurd hstmin hne) hf hcfs ⟨hsent.data, hsent.remLen, hsent.sn, hsent.listed⟩ hgood hok

/-- A frame is completed. -/
theorem multi_txCallback (h : Multi c calm msg sctx fs p) (hp : 0 < p) :
    Multi c calm msg sctx.txCallback fs (p - 1) := by
  obtain ⟨⟨outstanding, cts, hlength, hcounted⟩, hframes, hlive, htimer⟩ := h
  have hone := hcounted.length_le
  have hcounted' : ∃ outstanding' cts', outstanding'.length = p - 1 ∧
      Counted sctx.txCallback outstanding' cts' :=
    ⟨_, _, by rw [List.length_eraseIdx_of_lt (by omega), hlength],
      counted_txCallback hcounted (k := 0) (by omega)⟩
  by_cases hwait : sctx.state = .waitBacklog
  · -- it was the last frame
    have hzero : sctx.backlog - 1 = 0 := by
      have hbacklog := hcounted.backlog (hcounted.waitBacklog hwait).2.1
      rw [show sctx.backlog = 1 from UInt8.toNat_inj.1 (by rw [hbacklog]; show _ = 1; omega)]
      rfl
    have htx : sctx.txCallback = { sctx with
        backlog := 0, sem := true, state := .waitFin, work := true } := by
      simp [SendCtx.txCallback, hwait, hzero]
    rw [htx] at hcounted' ⊢
    obtain ⟨f, cfs, k, rfl, hf, hcfs, hsent⟩ :=
      hframes.of_going (by simp [hwait]) (.inl (by simp [hwait]))
    simp only [Live, hwait] at hlive
    exact ⟨hcounted', .going f cfs k (by rintro ⟨⟩) hf hcfs
      ⟨hsent.data, hsent.remLen, hsent.sn, hsent.listed⟩, ⟨hlive, rfl, by omega⟩,
      fun h => by rcases (htimer h).1 with h | h <;> simp [hwait] at h⟩
  · rw [txCallback_of_ne hwait] at hcounted' ⊢
    refine ⟨hcounted', ?_, ?_, htimer⟩
    · rcases hframes with ⟨hff, hdata, hrem, hlisted⟩ | ⟨f, cfs, k, hff, hf, hcfs, hsent⟩ |
        ⟨fs, herr, htaking, hlisted, hbegun⟩
      · exact .start hff hdata hrem hlisted
      · exact .going f cfs k hff hf hcfs ⟨hsent.data, hsent.remLen, hsent.sn, hsent.listed⟩
      · exact .failed fs herr htaking hlisted hbegun
    · rw [Live] at hlive ⊢
      rcases hstate : sctx.state with _ | _ | _ | _ | _ | _ | _ | _ <;> simp only [hstate] at hlive ⊢
      · exact hlive
      · exact hlive.imp_right fun hor =>
          hor.imp (fun h => ⟨h.1, .inl trivial⟩) fun h => ⟨h.1, .inl trivial⟩
      · exact ⟨hlive.1, .inl trivial⟩
      · exact absurd hstate hwait
      · exact absurd hlive.2.2 (by omega)
      · exact ⟨hlive.1, hlive.2.1, hlive.2.2.imp (fun h => ⟨h.1, trivial⟩)
          fun h => ⟨h.1, h.2.1, .inl trivial⟩⟩

/-- The context comes to an error. A loop that waits for a completion goes on nevertheless. -/
theorem multi_err (h : Multi c calm msg sctx fs p) {err : Error} {timer : Timer} (wft : UInt8)
    (hcalm : calm = false) (herr : err ≠ .ok) (htimer : timer = .st → sctx.taking = false) :
    Multi c calm msg
      { sctx with state := .err, error := err, timer := timer, wft := wft, work := true } fs p := by
  obtain ⟨⟨outstanding, cts, hlength, hcounted⟩, hframes, hlive, -⟩ := h
  refine ⟨⟨outstanding, cts, hlength, counted_err hcounted err timer wft true⟩, ?_, ?_,
    fun h => ⟨.inr rfl, htimer h⟩⟩
  · cases htaking : sctx.taking with
    | false => exact .failed fs rfl rfl hframes.listed hframes.begun
    | true =>
      obtain ⟨f, cfs, k, rfl, hf, hcfs, hsent⟩ := hframes.of_going
        (by rcases (hcounted.taking htaking).1 with h | h <;> simp [h]) (.inr htaking)
      exact .going f cfs k (by nofun) hf hcfs ⟨hsent.data, hsent.remLen, hsent.sn, hsent.listed⟩
  · refine ⟨hcalm, herr, ?_⟩
    cases htaking : sctx.taking with
    | false => exact .inl ⟨rfl, rfl⟩
    | true =>
      rcases (hcounted.taking htaking).1 with hstate | hstate <;>
        simp only [Live, hstate, htaking, Bool.true_eq_false, false_and, false_or, true_and] at hlive
      · exact .inr ⟨rfl, hlive⟩
      · exact .inr ⟨rfl, hlive.2.2⟩

/-- The timer expires. -/
theorem multi_timeout (h : Multi c calm msg sctx fs p) (hcalm : calm → sctx.timer = .st) :
    Multi c calm msg sctx.timeout fs p := by
  rcases timeout_cases sctx with ⟨hstate, heq⟩ | ⟨hne, heq⟩
  · -- the next frame can be sent
    obtain ⟨⟨outstanding, cts, hlength, hcounted⟩, hframes, hlive, -⟩ := h
    have hcounted' := counted_timeout hcounted
    rw [heq] at hcounted' ⊢
    obtain ⟨f, cfs, k, rfl, hf, hcfs, hsent⟩ :=
      hframes.of_going (by simp [hstate]) (.inl (by simp [hstate]))
    refine ⟨⟨outstanding, cts, hlength, hcounted'⟩, .going f cfs k (by simp [hstate]) hf hcfs
      ⟨hsent.data, hsent.remLen, hsent.sn, hsent.listed⟩, ?_, nofun⟩
    simp only [Live, hstate] at hlive ⊢
    exact hlive.imp_right fun hor => hor.imp_left fun h => ⟨h.1, .inl trivial⟩
  · rw [heq]
    refine multi_err h sctx.wft ?_ (by decide) nofun
    by_contra htrue
    rw [Bool.not_eq_false] at htrue
    rcases (h.timer (hcalm htrue)).1 with hstate | hstate
    · exact hne hstate
    · have hlive := h.live
      simp only [Live, hstate] at hlive
      exact absurd (htrue.symm.trans hlive.1) (by decide)

/-- A wait frame restarts the timer. -/
theorem canRx_of_wait (hstate : sctx.state = .waitFc) (htype : pciType (f.byte 0) = typeFc)
    (hfs : f.byte 0 &&& 0x0F = fsWait) (hwft : sctx.wft.toNat < c.wftMax) :
    sctx.canRx c f = { sctx with timer := .bs, wft := sctx.wft + 1, work := true } := by
  have hne : ¬ fsWait = fsCts := by decide
  simp only [SendCtx.canRx, hstate, if_true, SendCtx.processFc, htype, ne_eq, not_true_eq_false,
    if_false, hfs, hne, ge_iff_le, Nat.not_le.2 hwft]

/-- A flow control frame comes. -/
theorem multi_canRx (h : Multi c calm msg sctx fs p) (hgood : sctx.state = .waitFc → isCts f → p = 0)
    (hcalm : calm → sctx.state = .waitFc ∧ (isCts f ∨
      pciType (f.byte 0) = typeFc ∧ f.byte 0 &&& 0x0F = fsWait ∧ sctx.wft.toNat < c.wftMax)) :
    Multi c calm msg (sctx.canRx c f) fs p := by
  obtain ⟨⟨outstanding, cts, hlength, hcounted⟩, hframes, hlive, htimer⟩ := id h
  have hcounted' : Counted (sctx.canRx c f) outstanding
      (if sctx.state = .waitFc ∧ isCts f then cts + 1 else cts) :=
    counted_canRx hcounted fun hstate hcts =>
      List.eq_nil_of_length_eq_zero (hlength.trans (hgood hstate hcts))
  have htaking : sctx.state = .waitFc → sctx.taking = false := by
    intro hstate
    by_contra htrue
    rcases (hcounted.taking (by simpa using htrue)).1 with h | h <;> simp [hstate] at h
  rcases canRx_cases (c := c) sctx f with ⟨hstate, hcts, heq⟩ | ⟨hstate, hcts, err, wft, timer,
    ⟨rfl, heq⟩ | ⟨herr, heq⟩⟩ | ⟨hstate, heq⟩
  · -- the next block can be sent
    rw [heq] at hcounted' ⊢
    obtain ⟨f₀, cfs, k, rfl, hf, hcfs, hsent⟩ :=
      hframes.of_going (by simp [hstate]) (.inl (by simp [hstate]))
    simp only [Live, hstate] at hlive
    exact ⟨⟨outstanding, _, hlength, hcounted'⟩, .going f₀ cfs k (by nofun) hf hcfs
      ⟨hsent.data, hsent.remLen, hsent.sn, hsent.listed⟩,
      ⟨hlive.1, .inl ⟨htaking hstate, .inl rfl⟩⟩, nofun⟩
  · -- it waits on
    rw [heq] at hcounted' ⊢
    obtain ⟨f₀, cfs, k, rfl, hf, hcfs, hsent⟩ :=
      hframes.of_going (by simp [hstate]) (.inl (by simp [hstate]))
    refine ⟨⟨outstanding, _, hlength, hcounted'⟩, .going f₀ cfs k (by simp [hstate]) hf hcfs
      ⟨hsent.data, hsent.remLen, hsent.sn, hsent.listed⟩, ?_, nofun⟩
    simp only [Live, hstate] at hlive ⊢
    exact ⟨hlive.1, trivial⟩
  · rw [heq]
    refine multi_err h wft ?_ herr fun _ => htaking hstate
    by_contra htrue
    obtain ⟨-, hor⟩ := hcalm (by simpa using htrue)
    rcases hor with hcts' | ⟨htype, hfs, hwft⟩
    · exact hcts hcts'
    · have hstate' := congrArg SendCtx.state (heq.symm.trans (canRx_of_wait hstate htype hfs hwft))
      simp only [hstate, reduceCtorEq] at hstate'
  · rw [heq]
    refine multi_err h sctx.wft ?_ (by decide) fun h => (htimer h).2
    by_contra htrue
    exact hstate (hcalm (by simpa using htrue)).1

end ThingSet.IsoTp
