import ThingSet.IsoTp.SendContext
import ThingSet.IsoTp.Frames

/-!
# The backlog

The backlog of a send context counts its consecutive frames on the bus, and the transfer is finished
when it is zero again. Every completion decrements it, that of a first frame or of a frame of the
previous block as well; it is incremented after `can_send`, and whether the frame was the last one
is looked at later still.

`backlog_of_good`: in a run in which all frames have been completed when a clear-to-send comes, and
the last frame is not completed within `can_send`, the backlog is the number of frames on the bus,
there is one while the context waits for them, and then `sent_callback` is called.
-/

namespace ThingSet.IsoTp

open Transition

variable {A β : Type} {c : IsoTpConfig}

/-! ## A transfer -/

/-- A frame that has been queued: the first frame, or a consecutive frame of a block. -/
inductive FrameKind
  | ff
  | cf (block : ℕ)
  deriving DecidableEq, Repr

/-- A send context, its frames that are queued and not completed, and how many clear-to-send frames
it has had. -/
structure Transfer (A β : Type) where
  slot : SendSlot A β
  outstanding : List FrameKind := []
  cts : ℕ := 0
  sent : List (SentCall A β) := []

/-- What can happen to the context of a transfer. -/
inductive TransferEvent
  | work (stale : Bytes) (o : CanSend)
  | semTaken (stale : Bytes) (o : CanSend)
  | completed (k : ℕ)
  | timer
  | flowControl (f : CanFrame)

namespace Transfer

/-- `isotp_fast_send` of a message that needs several frames, in a block with any content. -/
def start (c : IsoTpConfig) (block : SendSlot A β) (addr : A) (data : Bytes) (cbArg : Option β) :
    Transfer A β where
  slot := (block.create c addr).sendLong data cbArg

/-- The transfer after a function has run. -/
def apply (T : Transfer A β) (kind : FrameKind) (r : SendRun A β) : Transfer A β :=
  { T with
    slot := r.slot
    outstanding := if r.outstanding then T.outstanding ++ [kind] else T.outstanding
    sent := T.sent ++ r.sent }

/-- The transfer after an event, if it can happen. -/
def step (c : IsoTpConfig) (T : Transfer A β) : TransferEvent → Option (Transfer A β)
  | .work stale o =>
    if T.slot.work ∧ ¬ T.slot.taking then
      let kind := if T.slot.state = .sendFf then .ff else .cf T.cts
      some (T.apply kind (T.slot.workHandler c stale o))
    else none
  | .semTaken stale o =>
    if T.slot.taking ∧ T.slot.sem then
      some (T.apply (.cf T.cts) (T.slot.semTaken c stale o))
    else none
  | .completed k =>
    if k < T.outstanding.length then
      some { T with outstanding := T.outstanding.eraseIdx k, slot := T.slot.canTxCallback }
    else none
  | .timer =>
    if T.slot.timer ≠ .stopped then
      some { T with slot := { T.slot with toSendCtx := T.slot.toSendCtx.timeout } }
    else none
  | .flowControl f =>
    if T.slot.listed then
      some { T with
        slot := { T.slot with toSendCtx := T.slot.toSendCtx.canRx c f }
        cts := if T.slot.state = .waitFc ∧ isCts f then T.cts + 1 else T.cts }
    else none

/-- The consecutive frames since the last clear-to-send that are not completed. -/
def inFlight (T : Transfer A β) : ℕ := T.outstanding.count (.cf T.cts)

/-- The condition on an event: all frames have been completed when a clear-to-send comes, and the
last consecutive frame is not completed within `can_send`. -/
def Good (c : IsoTpConfig) (T : Transfer A β) : TransferEvent → Prop
  | .work _ o =>
    T.slot.state = .sendCf → T.slot.remLen ≤ canMaxDlen c - 1 → ∀ error, o ≠ .completed error
  | .semTaken _ o => T.slot.remLen ≤ canMaxDlen c - 1 → ∀ error, o ≠ .completed error
  | .flowControl f => T.slot.state = .waitFc → isCts f → T.outstanding = []
  | _ => True

end Transfer

/-! ## The invariant -/

/-- What holds in runs of good events. At most one frame is on the bus, and none when the next one
can be sent. -/
structure Counted (s : SendCtx) (outstanding : List FrameKind) (cts : ℕ) : Prop where
  block : 0 < cts → ∀ k ∈ outstanding, k = .cf cts
  backlog : 0 < cts → s.backlog.toNat = outstanding.length
  length_le : outstanding.length ≤ 1
  sendFf : s.state = .sendFf → outstanding = [] ∧ cts = 0 ∧ s.taking = false
  sendCf : s.state = .sendCf → s.taking = false →
    outstanding = [] ∧ 0 < cts ∧ (s.stmin = 0 → s.sem = false)
  waitSt : s.state = .waitSt → 0 < cts ∧ s.stmin ≠ 0 ∧ (s.work = true → outstanding = [])
  taking : s.taking = true → (s.state = .sendCf ∨ s.state = .err) ∧ 0 < cts ∧ s.stmin = 0 ∧
    (s.sem = true → outstanding = [])
  waitBacklog : s.state = .waitBacklog → outstanding ≠ [] ∧ 0 < cts ∧ s.taking = false

variable {T T' : Transfer A β} {s : SendSlot A β} {sctx : SendCtx} {stale : Bytes} {o : CanSend}
  {outstanding : List FrameKind} {cts : ℕ}

theorem counted_start (block : SendSlot A β) (addr : A) (data : Bytes) (cbArg : Option β) :
    Counted (Transfer.start c block addr data cbArg).slot.toSendCtx [] 0 where
  block h := absurd h (Nat.lt_irrefl 0)
  backlog h := absurd h (Nat.lt_irrefl 0)
  length_le := Nat.zero_le 1
  sendFf _ := ⟨rfl, rfl, rfl⟩
  sendCf h := by cases h
  waitSt h := by cases h
  taking h := by cases h
  waitBacklog h := by cases h

/-- What a consecutive frame leaves behind: it is on the bus, or it is completed and not the last. -/
theorem counted_afterCf (hcts : 0 < cts) (hstate : s.state = .sendCf ∨ s.state = .err)
    (htaking : s.taking = false)
    (hout : outstanding = [.cf cts] ∧ s.backlog = 1 ∧ (s.stmin = 0 → s.sem = false) ∧
        (s.stmin ≠ 0 → s.work = false) ∨
      outstanding = [] ∧ s.backlog = 0 ∧ s.remLen ≠ 0) :
    Counted (s.afterCf c).toSendCtx outstanding cts := by
  obtain ⟨hblock, hlength, hbacklog⟩ : (∀ k ∈ outstanding, k = .cf cts) ∧ outstanding.length ≤ 1 ∧
      s.backlog.toNat = outstanding.length := by
    rcases hout with ⟨rfl, hbacklog, -⟩ | ⟨rfl, hbacklog, -⟩ <;> simp [hbacklog]
  rcases SendSlot.afterCf_cases (c := c) s with ⟨hrem, h⟩ | ⟨-, -, -, h⟩ | ⟨-, hstmin, h⟩ |
    ⟨-, hstmin, h⟩ <;> rw [h]
  · -- it was the last frame
    refine ⟨fun _ => hblock, fun _ => hbacklog, hlength, nofun, nofun, nofun, ?_, fun _ => ?_⟩
    · exact fun htrue => absurd htrue (by simp [htaking])
    · rcases hout with ⟨rfl, -⟩ | ⟨-, -, hne⟩
      · exact ⟨List.cons_ne_nil _ _, hcts, htaking⟩
      · exact absurd hrem hne
  · -- the block is complete
    refine ⟨fun _ => hblock, fun _ => hbacklog, hlength, nofun, nofun, nofun, ?_, nofun⟩
    exact fun htrue => absurd htrue (by simp [htaking])
  · refine ⟨fun _ => hblock, fun _ => hbacklog, hlength, nofun, nofun, fun _ => ⟨hcts, hstmin, ?_⟩, ?_,
      nofun⟩
    · rcases hout with ⟨-, -, -, hwork⟩ | ⟨rfl, -⟩
      · exact fun htrue => absurd htrue (by simp [hwork hstmin])
      · exact fun _ => rfl
    · exact fun htrue => absurd htrue (by simp [htaking])
  · refine ⟨fun _ => hblock, fun _ => hbacklog, hlength, ?_, nofun, ?_, fun _ => ?_, ?_⟩
    · exact fun hff => absurd hff (by rcases hstate with h | h <;> simp [h])
    · exact fun hst => absurd hst (by rcases hstate with h | h <;> simp [h])
    · refine ⟨hstate, hcts, hstmin, ?_⟩
      rcases hout with ⟨-, -, hsem, -⟩ | ⟨rfl, -⟩
      · exact fun htrue => absurd htrue (by simp [hsem hstmin])
      · exact fun _ => rfl
    · exact fun hwait => absurd hwait (by rcases hstate with h | h <;> simp [h])

/-- A consecutive frame is sent when none is on the bus. -/
theorem counted_sendCfRound (c : IsoTpConfig) (stale : Bytes) (o : CanSend)
    (hcts : 0 < T.cts) (hout : T.outstanding = []) (hbacklog : s.backlog = 0)
    (hstate : s.state = .sendCf ∨ s.state = .err) (htaking : s.taking = false)
    (hsem : s.stmin = 0 → s.sem = false) (hwork : s.stmin ≠ 0 → s.work = false)
    (hgood : s.remLen ≤ canMaxDlen c - 1 → ∀ error, o ≠ .completed error) :
    Counted (T.apply (.cf T.cts) (s.sendCfRound c stale o)).slot.toSendCtx
      (T.apply (.cf T.cts) (s.sendCfRound c stale o)).outstanding T.cts := by
  have hne : s.state ≠ .waitBacklog := by rcases hstate with h | h <;> simp [h]
  rcases SendSlot.sendCfRound_cases c stale o hne with
    ⟨rfl, h⟩ | ⟨error, rfl, h⟩ | ⟨eagain, rfl, h⟩ <;> rw [h] <;>
    simp only [Transfer.apply, hout, if_true, List.nil_append, Bool.false_eq_true, if_false]
  · refine counted_afterCf hcts hstate htaking (.inl ⟨rfl, ?_, hsem, hwork⟩)
    simp only [SendCtx.cf_snd, SendCtx.cfQueued, SendCtx.advance, hbacklog]
    rfl
  · refine counted_afterCf hcts hstate htaking (.inr ⟨rfl, ?_, ?_⟩)
    · simp only [hbacklog]
      rfl
    · have hlast : canMaxDlen c - 1 < s.remLen := by
        by_contra hle
        exact hgood (Nat.not_lt.1 hle) error rfl
      simp only [SendCtx.cf_snd, SendCtx.cfQueued, SendCtx.advance]
      omega
  · refine ⟨fun _ _ hmem => absurd hmem List.not_mem_nil, fun _ => ?_, Nat.zero_le 1, by rintro ⟨⟩, by rintro ⟨⟩, by rintro ⟨⟩, ?_, by rintro ⟨⟩⟩
    · simp only [SendCtx.cf_snd, SendCtx.reportError, SendCtx.advance, hbacklog]
      rfl
    · exact fun htrue => absurd htrue (by simp [SendCtx.cf_snd, SendCtx.reportError,
        SendCtx.advance, htaking])

/-- A context in an error state has no frame to send but for a loop that waits for the last one. -/
theorem counted_err (h : Counted sctx outstanding cts) (err : Error) (timer : Timer) (wft : UInt8)
    (work : Bool) :
    Counted { sctx with state := .err, error := err, timer := timer, wft := wft, work := work }
      outstanding cts where
  block := h.block
  backlog := h.backlog
  length_le := h.length_le
  sendFf := nofun
  sendCf := nofun
  waitSt := nofun
  taking htaking := ⟨.inr rfl, (h.taking htaking).2⟩
  waitBacklog := nofun

/-- A timer expires. -/
theorem counted_timeout (h : Counted sctx outstanding cts) :
    Counted sctx.timeout outstanding cts := by
  rcases timeout_cases sctx with ⟨hstate, heq⟩ | ⟨-, heq⟩ <;> rw [heq]
  · exact ⟨h.block, h.backlog, h.length_le, h.sendFf, h.sendCf,
      fun hst => absurd (hstate.symm.trans hst) (by decide), h.taking, h.waitBacklog⟩
  · exact counted_err h .timeoutBs .stopped sctx.wft true

/-- A flow control frame comes. -/
theorem counted_canRx {f : CanFrame} (h : Counted sctx outstanding cts)
    (hgood : sctx.state = .waitFc → isCts f → outstanding = []) :
    Counted (sctx.canRx c f) outstanding (if sctx.state = .waitFc ∧ isCts f then cts + 1 else cts) := by
  have htaking : sctx.state = .waitFc → sctx.taking = false := by
    intro hstate
    by_contra htrue
    rw [Bool.not_eq_false] at htrue
    rcases (h.taking htrue).1 with hsend | herr
    · cases hstate.symm.trans hsend
    · cases hstate.symm.trans herr
  rcases canRx_cases (c := c) sctx f with ⟨hstate, hcts, heq⟩ | ⟨hstate, hcts, err, wft, timer, heq⟩ |
    ⟨hstate, heq⟩
  · obtain rfl := hgood hstate hcts
    rw [heq, if_pos ⟨hstate, hcts⟩]
    exact ⟨fun _ => nofun, fun _ => rfl, Nat.zero_le 1, nofun,
      fun _ _ => ⟨rfl, Nat.succ_pos cts, fun _ => rfl⟩, nofun,
      fun htrue => absurd ((htaking hstate).symm.trans htrue) (by decide), nofun⟩
  · rw [if_neg fun hboth => hcts hboth.2]
    rcases heq with ⟨-, heq⟩ | ⟨-, heq⟩ <;> rw [heq]
    · exact ⟨h.block, h.backlog, h.length_le, h.sendFf, h.sendCf,
        fun hst => absurd (hstate.symm.trans hst) (by decide), h.taking, h.waitBacklog⟩
    · exact counted_err h err timer wft true
  · rw [heq, if_neg fun hboth => hstate hboth.1]
    exact counted_err h .unexpPdu sctx.timer sctx.wft true

/-- A frame is completed. -/
theorem counted_txCallback (h : Counted sctx outstanding cts) {k : ℕ} (hk : k < outstanding.length) :
    Counted sctx.txCallback (outstanding.eraseIdx k) cts := by
  have hone : outstanding.length = 1 := by
    have := h.length_le
    omega
  obtain rfl : k = 0 := by omega
  obtain ⟨kind, rfl⟩ := List.length_eq_one_iff.1 hone
  rw [List.eraseIdx_cons_zero]
  have hbacklog : 0 < cts → sctx.backlog - 1 = 0 := fun hcts => by
    rw [← UInt8.toNat_inj, UInt8.toNat_sub_of_le _ _ (by
      rw [UInt8.le_iff_toNat_le, h.backlog hcts]
      exact Nat.le_refl 1), h.backlog hcts]
    rfl
  by_cases hwait : sctx.state = .waitBacklog
  · -- the last frame is completed
    obtain ⟨-, hcts, htaking⟩ := h.waitBacklog hwait
    have hzero : ¬ (0 : UInt8) > 0 := by decide
    simp only [SendCtx.txCallback, hwait, if_true, hbacklog hcts, hzero, if_false]
    exact ⟨fun _ _ hmem => absurd hmem List.not_mem_nil, fun _ => rfl, Nat.zero_le 1, by rintro ⟨⟩, by rintro ⟨⟩, by rintro ⟨⟩,
      fun htrue => absurd (htaking.symm.trans htrue) (by rintro ⟨⟩), by rintro ⟨⟩⟩
  · rw [txCallback_of_ne hwait]
    refine ⟨fun _ _ hmem => absurd hmem List.not_mem_nil, fun hcts => ?_, Nat.zero_le 1, fun hff => ?_, fun hcf htaking => ?_,
      fun hst => ?_, fun htaking => ?_, fun hwait' => absurd hwait' hwait⟩
    · simp only [hbacklog hcts]
      rfl
    · exact absurd (h.sendFf hff).1 (List.cons_ne_nil _ _)
    · exact absurd (h.sendCf hcf htaking).1 (List.cons_ne_nil _ _)
    · exact ⟨(h.waitSt hst).1, (h.waitSt hst).2.1, fun _ => rfl⟩
    · obtain ⟨hstate, hcts, hstmin, -⟩ := h.taking htaking
      exact ⟨hstate, hcts, hstmin, fun _ => rfl⟩

/-- Before the first clear-to-send frame there is at most the first frame on the bus. -/
theorem counted_waitFc (hcts : cts = 0) (hlength : outstanding.length ≤ 1)
    (hstate : sctx.state = .waitFc) (htaking : sctx.taking = false) :
    Counted sctx outstanding cts where
  block h := absurd h (by omega)
  backlog h := absurd h (by omega)
  length_le := hlength
  sendFf h := absurd (hstate.symm.trans h) (by decide)
  sendCf h := absurd (hstate.symm.trans h) (by decide)
  waitSt h := absurd (hstate.symm.trans h) (by decide)
  taking h := absurd (htaking.symm.trans h) (by decide)
  waitBacklog h := absurd (hstate.symm.trans h) (by decide)

/-- The work item runs. -/
theorem counted_workHandler (h : Counted T.slot.toSendCtx T.outstanding T.cts)
    (hwork : T.slot.work = true) (htaking : T.slot.taking = false)
    (hgood : T.slot.state = .sendCf → T.slot.remLen ≤ canMaxDlen c - 1 →
      ∀ error, o ≠ .completed error) :
    Counted (T.apply (if T.slot.state = .sendFf then .ff else .cf T.cts)
        (T.slot.workHandler c stale o)).slot.toSendCtx
      (T.apply (if T.slot.state = .sendFf then .ff else .cf T.cts)
        (T.slot.workHandler c stale o)).outstanding T.cts := by
  by_cases hff : T.slot.state = .sendFf
  · obtain ⟨hout, hcts, -⟩ := h.sendFf hff
    rcases SendSlot.workHandler_sendFf c stale o hff with
      ⟨-, heq⟩ | ⟨error, -, heq⟩ | ⟨eagain, -, heq⟩ <;> rw [heq] <;>
      exact counted_waitFc hcts (by simp [Transfer.apply, hout]) rfl htaking
  rw [if_neg hff]
  rcases SendSlot.workHandler_cases c stale o hff with ⟨hstate, heq⟩ |
    ⟨hstate, heq⟩ | ⟨result, -, heq⟩ | ⟨-, heq⟩ <;> rw [heq]
  · obtain ⟨hout, hcts, hsem⟩ := h.sendCf hstate htaking
    have hbacklog := h.backlog hcts
    rw [hout, List.length_nil] at hbacklog
    exact counted_sendCfRound _ _ _ hcts hout (UInt8.toNat_inj.1 hbacklog) (.inl hstate) htaking hsem
      (fun _ => rfl) (hgood hstate)
  · obtain ⟨hcts, hstmin, hout⟩ := h.waitSt hstate
    exact ⟨h.block, h.backlog, h.length_le, nofun,
      fun _ _ => ⟨hout hwork, hcts, fun hzero => absurd hzero hstmin⟩, nofun,
      fun htrue => absurd (htaking.symm.trans htrue) (by decide), nofun⟩
  · exact ⟨h.block, h.backlog, h.length_le, nofun, nofun, nofun,
      fun htrue => absurd (htaking.symm.trans htrue) (by decide), nofun⟩
  · exact ⟨h.block, h.backlog, h.length_le, h.sendFf, h.sendCf,
      fun hst => ⟨(h.waitSt hst).1, (h.waitSt hst).2.1, nofun⟩, h.taking, h.waitBacklog⟩

/-- What a good event preserves. -/
theorem counted_step {e : TransferEvent} (h : Counted T.slot.toSendCtx T.outstanding T.cts)
    (hgood : T.Good c e) (hstep : T.step c e = some T') :
    Counted T'.slot.toSendCtx T'.outstanding T'.cts := by
  cases e with
  | work stale o =>
    simp only [Transfer.step] at hstep
    split at hstep
    · rename_i hwork
      obtain ⟨hwork, htaking⟩ := hwork
      rw [Bool.not_eq_true] at htaking
      obtain rfl := Option.some.inj hstep
      exact counted_workHandler h hwork htaking hgood
    · cases hstep
  | semTaken stale o =>
    simp only [Transfer.step] at hstep
    split at hstep
    · rename_i htaken
      obtain ⟨htaking, hsem⟩ := htaken
      obtain rfl := Option.some.inj hstep
      obtain ⟨hstate, hcts, hstmin, hout⟩ := h.taking htaking
      have hbacklog := h.backlog hcts
      rw [hout hsem, List.length_nil] at hbacklog
      exact counted_sendCfRound _ _ _ hcts (hout hsem) (UInt8.toNat_inj.1 hbacklog) hstate rfl
        (fun _ => rfl) (fun hne => absurd hstmin hne) hgood
    · cases hstep
  | completed k =>
    simp only [Transfer.step] at hstep
    split at hstep
    · rename_i hk
      obtain rfl := Option.some.inj hstep
      exact counted_txCallback h hk
    · cases hstep
  | timer =>
    simp only [Transfer.step] at hstep
    split at hstep
    · obtain rfl := Option.some.inj hstep
      exact counted_timeout h
    · cases hstep
  | flowControl f =>
    simp only [Transfer.step] at hstep
    split at hstep
    · obtain rfl := Option.some.inj hstep
      exact counted_canRx h hgood
    · cases hstep

/-! ## The end of a transfer -/

/-- The context waits for its last frames, or it is about to call `sent_callback`, or it has. -/
def Finishing (T : Transfer A β) : Prop :=
  T.slot.state = .waitBacklog ∨
    ((T.slot.state = .waitFin ∨ T.slot.state = .err) ∧ T.slot.work = true ∧ T.slot.taking = false) ∨
      T.sent ≠ []

/-- The context stays bound to the context that it was created for. -/
theorem orphaned_step {e : TransferEvent} (horphaned : T.slot.orphaned = false)
    (hstep : T.step c e = some T') : T'.slot.orphaned = false := by
  cases e with
  | work stale o =>
    simp only [Transfer.step] at hstep
    split at hstep
    · obtain rfl := Option.some.inj hstep
      rcases SendSlot.workHandler_frame c stale o T.slot with h | ⟨_, -, h⟩
      · exact h.same.orphaned.trans horphaned
      · simp only [Transfer.apply, h]
        exact horphaned
    · cases hstep
  | semTaken stale o =>
    simp only [Transfer.step] at hstep
    split at hstep
    · obtain rfl := Option.some.inj hstep
      exact (SendSlot.keeps_sendCfRound _ _ _ _).same.orphaned.trans horphaned
    · cases hstep
  | completed | timer | flowControl =>
    simp only [Transfer.step] at hstep
    split at hstep
    · obtain rfl := Option.some.inj hstep
      exact horphaned
    · cases hstep

/-- The calls of `sent_callback` stay. -/
theorem sent_step {e : TransferEvent} (hsent : T.sent ≠ []) (hstep : T.step c e = some T') :
    T'.sent ≠ [] := by
  cases e <;> simp only [Transfer.step] at hstep <;> split at hstep <;> cases hstep <;>
    simp [Transfer.apply, hsent]

/-- Once a context waits for its last frames, it will call `sent_callback`. -/
theorem finishing_step {e : TransferEvent} (h : Counted T.slot.toSendCtx T.outstanding T.cts)
    (horphaned : T.slot.orphaned = false) (hf : Finishing T) (hstep : T.step c e = some T') :
    Finishing T' := by
  by_cases hsent : T.sent ≠ []
  · exact .inr (.inr (sent_step hsent hstep))
  rw [not_not] at hsent
  have htaking : T.slot.taking = false := by
    rcases hf with hwait | ⟨-, -, htaking⟩ | hne
    · exact (h.waitBacklog hwait).2.2
    · exact htaking
    · exact absurd hsent hne
  -- the context has sent its frames
  have hne : T.slot.state ≠ .sendCf ∧ T.slot.state ≠ .sendFf ∧ T.slot.state ≠ .waitFc ∧
      T.slot.state ≠ .waitSt ∧ T.slot.state ≠ .reset := by
    rcases hf with hwait | ⟨hfin | herr, -⟩ | hne
    · simp [hwait]
    · simp [hfin]
    · simp [herr]
    · exact absurd hsent hne
  cases e with
  | work stale o =>
    simp only [Transfer.step] at hstep
    split at hstep
    · obtain rfl := Option.some.inj hstep
      rcases SendSlot.workHandler_cases c stale o hne.2.1 with
        ⟨hstate, -⟩ | ⟨hstate, -⟩ | ⟨result, -, heq⟩ | ⟨hstate, heq⟩
      · exact absurd hstate hne.1
      · exact absurd hstate hne.2.2.2.1
      · refine .inr (.inr ?_)
        simp [Transfer.apply, heq, SendSlot.sentCallback, horphaned]
      · rcases hstate with hstate | hstate | hstate
        · exact absurd hstate hne.2.2.2.2
        · exact absurd hstate hne.2.2.1
        · refine .inl ?_
          simp only [Transfer.apply, heq, hstate]
    · cases hstep
  | semTaken stale o => simp [Transfer.step, htaking] at hstep
  | completed k =>
    simp only [Transfer.step] at hstep
    split at hstep
    · obtain rfl := Option.some.inj hstep
      rcases hf with hwait | ⟨hfin, -, -⟩ | hsome
      · -- it waits on, or it was the last frame
        simp only [Finishing, SendSlot.canTxCallback, SendCtx.txCallback, hwait, if_true]
        split
        · exact .inl rfl
        · exact .inr (.inl ⟨.inl rfl, rfl, htaking⟩)
      · have hwait : T.slot.state ≠ .waitBacklog := by rcases hfin with h | h <;> simp [h]
        simp only [Finishing, SendSlot.canTxCallback, txCallback_of_ne hwait]
        exact .inr (.inl ⟨hfin, trivial, htaking⟩)
      · exact absurd hsent hsome
    · cases hstep
  | timer =>
    simp only [Transfer.step] at hstep
    split at hstep
    · obtain rfl := Option.some.inj hstep
      rcases timeout_cases T.slot.toSendCtx with ⟨hstate, -⟩ | ⟨-, heq⟩
      · exact absurd hstate hne.1
      · refine .inr (.inl ?_)
        simp only [heq]
        exact ⟨.inr trivial, trivial, htaking⟩
    · cases hstep
  | flowControl f =>
    simp only [Transfer.step] at hstep
    split at hstep
    · obtain rfl := Option.some.inj hstep
      rcases canRx_cases (c := c) T.slot.toSendCtx f with ⟨hstate, -⟩ | ⟨hstate, -⟩ | ⟨-, heq⟩
      · exact absurd hstate hne.2.2.1
      · exact absurd hstate hne.2.2.1
      · refine .inr (.inl ?_)
        simp only [heq]
        exact ⟨.inr trivial, trivial, htaking⟩
    · cases hstep

/-- **In a run of good events the backlog is the number of frames on the bus, and there is one while
the context waits for them. Once they are completed, and the work item has run, the context has left
that state and called `sent_callback`.** -/
theorem backlog_of_good (block : SendSlot A β) (addr : A) (data : Bytes) (cbArg : Option β)
    {es es' : List TransferEvent}
    (hgood : Meets (Transfer.step c) (Transfer.Good c) (Transfer.start c block addr data cbArg)
      (es ++ es'))
    (hrun : runFrom (Transfer.step c) (Transfer.start c block addr data cbArg) es = some T)
    (hrun' : runFrom (Transfer.step c) T es' = some T') :
    (0 < T.cts → T.slot.backlog.toNat = T.inFlight) ∧
      (T.slot.state = .waitBacklog → 0 < T.inFlight ∧
        (T'.outstanding = [] → T'.slot.state ≠ .waitBacklog ∧
          (T'.slot.work = false → T'.sent ≠ []))) := by
  obtain ⟨hgood, hgood'⟩ := hgood.of_append hrun
  obtain ⟨h, horphaned⟩ := runFrom_invariant_of_meets
    (P := fun T => Counted T.slot.toSendCtx T.outstanding T.cts ∧ T.slot.orphaned = false)
    (fun _ _ _ h hgood hstep => ⟨counted_step h.1 hgood hstep, orphaned_step h.2 hstep⟩)
    ⟨counted_start block addr data cbArg, rfl⟩ hgood hrun
  have hinFlight : 0 < T.cts → T.inFlight = T.outstanding.length := fun hcts =>
    List.count_eq_length.2 fun k hk => (h.block hcts k hk).symm
  refine ⟨fun hcts => (h.backlog hcts).trans (hinFlight hcts).symm, fun hwait => ?_⟩
  obtain ⟨hout, hcts, -⟩ := h.waitBacklog hwait
  refine ⟨hinFlight hcts ▸ List.length_pos_iff.2 hout, fun hout' => ?_⟩
  obtain ⟨h', -, hfin⟩ := runFrom_invariant_of_meets
    (P := fun T => Counted T.slot.toSendCtx T.outstanding T.cts ∧ T.slot.orphaned = false ∧
      Finishing T)
    (fun _ _ _ h hgood hstep => ⟨counted_step h.1 hgood hstep, orphaned_step h.2.1 hstep,
      finishing_step h.1 h.2.1 h.2.2 hstep⟩)
    ⟨h, horphaned, .inl hwait⟩ hgood' hrun'
  refine ⟨fun hwait' => (h'.waitBacklog hwait').1 hout', fun hwork => ?_⟩
  rcases hfin with hwait' | ⟨-, htrue, -⟩ | hsent
  · exact absurd hout' (h'.waitBacklog hwait').1
  · exact absurd (hwork.symm.trans htrue) (by decide)
  · exact hsent

/-! ## A message of eight bytes -/

/-- Classical CAN, with a receiver that asks for all frames at once. -/
def classicalCan : IsoTpConfig where
  canFdMode := false
  bs := 0
  stmin := 0
  bytesToDlc := id
  dlcToBytes := id
  ffDlMin := 8
  rxMaxPacketCount := 40

/-- A block of the slab that was zeroed. -/
def zeroedSendSlot : SendSlot Unit Unit where
  data := []
  remLen := 0
  bs := 0
  stmin := 0
  txAddr := ()
  cbArg := none
  pendingCb := 0
  orphaned := false
  allocated := false

/-- A transfer of eight bytes: a first frame and one consecutive frame. -/
def eightBytes : Transfer Unit Unit :=
  .start classicalCan zeroedSendSlot () [0, 1, 2, 3, 4, 5, 6, 7] none

/-- `30 00 00`: the receiver is clear to send. -/
def clearToSend : CanFrame := ⟨[0x30, 0, 0, 0, 0, 0, 0, 0], 3⟩

/-- The first frame and the consecutive frame are queued in time; both are completed, and the work
item runs. -/
theorem eightBytes_finish :
    ∃ T T', runFrom (Transfer.step classicalCan) eightBytes
        [.work [] .queued, .completed 0, .flowControl clearToSend, .work [] .queued] = some T ∧
      runFrom (Transfer.step classicalCan) T [.completed 0, .work [] .queued] = some T' ∧
        T.slot.state = .waitBacklog ∧ 0 < T.inFlight ∧ T'.slot.state ≠ .waitBacklog ∧ T'.sent ≠ [] := by
  refine ⟨_, _, rfl, rfl, rfl, ?_⟩
  have hgood : Meets (Transfer.step classicalCan) (Transfer.Good classicalCan) eightBytes
      ([.work [] .queued, .completed 0, .flowControl clearToSend, .work [] .queued] ++
        [.completed 0, .work [] .queued]) := by
    refine ⟨(fun h => by cases h), fun _ h => ?_⟩
    obtain rfl := Option.some.inj h
    refine ⟨trivial, fun _ h => ?_⟩
    obtain rfl := Option.some.inj h
    refine ⟨fun _ _ => rfl, fun _ h => ?_⟩
    obtain rfl := Option.some.inj h
    refine ⟨(fun _ _ _ => nofun), fun _ h => ?_⟩
    obtain rfl := Option.some.inj h
    refine ⟨trivial, fun _ h => ?_⟩
    obtain rfl := Option.some.inj h
    exact ⟨(fun h => by cases h), fun _ _ => trivial⟩
  obtain ⟨hpos, hleft⟩ := (backlog_of_good zeroedSendSlot () [0, 1, 2, 3, 4, 5, 6, 7] none hgood rfl
    rfl).2 rfl
  exact ⟨hpos, (hleft rfl).1, (hleft rfl).2 rfl⟩

/-- When the first frame is completed after the clear-to-send frame, the backlog is 255. When the
consecutive frame is completed within `can_send`, the context waits for it forever. -/
theorem eightBytes_stranded :
    (∃ T, runFrom (Transfer.step classicalCan) eightBytes
        [.work [] .queued, .flowControl clearToSend, .completed 0] = some T ∧
      0 < T.cts ∧ T.slot.backlog.toNat ≠ T.inFlight) ∧
    ∃ T, runFrom (Transfer.step classicalCan) eightBytes
        [.work [] .queued, .completed 0, .flowControl clearToSend, .work [] (.completed 0),
          .work [] .queued] = some T ∧
      T.slot.state = .waitBacklog ∧ T.outstanding = [] ∧ T.slot.work = false ∧ T.sent = [] :=
  ⟨⟨_, rfl, by decide, by decide⟩, _, rfl, rfl, rfl, rfl, rfl⟩

end ThingSet.IsoTp
