import ThingSet.IsoTp.Freed
import ThingSet.IsoTp.RecvRule

/-!
# Outstanding callbacks of a receive context

A run of `receive_state_machine` queues flow control frames, counts them in `pending_cb`, and frees the
context at the end of a message. Nothing looks at `pending_cb` when it does.

* `accounts_receiveStateMachine`: what the run adds to `pending_cb` is the number of frames that it
  leaves outstanding.
* `unfreed_of_owned`: the context is freed only if the run closes it (`RecvSlot.Closes`) and no reader
  owns it.
* `outstanding_of_closes`: such a run leaves a frame outstanding only if it answers an overflow.
-/

namespace ThingSet.IsoTp

variable {ι A : Type} {c : RecvConfig} {o : ℕ → CanSend} {i : ι} {again : RecvRun ι A → RecvRun ι A}
  {r : RecvRun ι A} {fuel : ℕ}

/-- The run finds an overflow, which it answers. -/
def RecvSlot.Overflows (c : RecvConfig) (s : RecvSlot A) : Prop :=
  s.state = .processFf ∧ s.optsBs c = 0 ∧
      s.remLen > c.rxMaxPacketCount * (canMaxDlen c.toIsoTpConfig - 1) ∨
    s.state = .sendWait ∧ ¬ (s.wft + 1).toNat < c.wftMax ∨
    s.state = .err ∧ s.error = .bufferOverflw

instance (c : RecvConfig) (s : RecvSlot A) : Decidable (s.Overflows c) :=
  inferInstanceAs (Decidable (_ ∨ _))

/-- The run is the last one of the context, unless a reader owns it. -/
def RecvSlot.Closes (c : RecvConfig) (o : CanSend) (s : RecvSlot A) : Prop :=
  s.state = .processSf ∨ s.state = .recycle ∨ s.state = .err ∨ s.Overflows c ∨
    s.Sends ∧ ∃ eagain, o = .failed eagain

namespace RecvRun

/-! ## What a run counts -/

/-- What a run adds to `pending_cb` is the number of frames that it leaves outstanding. A reader that
owns the context keeps it, and a context that is not freed stays allocated. -/
structure Accounts (r r' : RecvRun ι A) : Prop where
  pendingCb : r'.slot.pendingCb - r'.outstanding = r.slot.pendingCb - r.outstanding
  pending : r.slot.pending = true → r'.slot.pending = true
  allocated : (r.frees = 0 → r.slot.allocated = true) → r'.frees = 0 → r'.slot.allocated = true

theorem rule_accounts : Rule (A := A) c i Accounts where
  trans r r₁ r₂ h h' := ⟨h'.pendingCb.trans h.pendingCb, fun hp => h'.pending (h.pending hp),
    fun ha => h'.allocated (h.allocated ha)⟩
  alike r r' h := by
    refine ⟨?_, ?_, ?_⟩
    · rw [h.pendingCb, h.outstanding]
    · rw [h.pending]
      exact id
    · rw [h.allocated, h.frees]
      exact id
  free r := by
    refine ⟨?_, ?_, ?_⟩ <;> simp [free, RecvSlot.free]
  notify r := by
    rw [notifyWaitingReceiver]
    split
    · cases notifyFirst i r.slot.rxAddr r.awaiters <;> refine ⟨?_, ?_, ?_⟩ <;> simp [modify]
    · exact ⟨rfl, id, id⟩
  queued r := by
    refine ⟨?_, ?_, ?_⟩ <;> simp [queued]

@[simp]
theorem outstanding_modify (r : RecvRun ι A) (f : RecvSlot A → RecvSlot A) :
    (r.modify f).outstanding = r.outstanding := by
  simp [modify]

@[simp]
theorem sends_modify (r : RecvRun ι A) (f : RecvSlot A → RecvSlot A) :
    (r.modify f).sends = r.sends := by
  simp [modify]

/-! ## Frames that are queued -/

@[simp]
theorem outstanding_startTimer (r : RecvRun ι A) : r.startTimer.outstanding = r.outstanding := by
  simp [startTimer]

@[simp]
theorem outstanding_freeIfUnowned (r : RecvRun ι A) :
    (r.freeIfUnowned c).outstanding = r.outstanding := by
  rw [freeIfUnowned]
  split <;> simp [free]

@[simp]
theorem notify_fields (r : RecvRun ι A) :
    (r.notifyWaitingReceiver c i).outstanding = r.outstanding ∧
      (r.notifyWaitingReceiver c i).sends = r.sends := by
  rw [notifyWaitingReceiver]
  split
  · cases notifyFirst i r.slot.rxAddr r.awaiters <;> simp
  · exact ⟨rfl, rfl⟩

@[simp]
theorem dispatchQueue_fields (r : RecvRun ι A) :
    (r.dispatchQueue c).outstanding = r.outstanding ∧ (r.dispatchQueue c).sends = r.sends := by
  rw [dispatchQueue]
  split <;> simp

@[simp]
theorem recvErrorCallback_fields (r : RecvRun ι A) :
    r.recvErrorCallback.outstanding = r.outstanding ∧ r.recvErrorCallback.sends = r.sends := by
  rw [recvErrorCallback]
  split <;> exact ⟨rfl, rfl⟩

theorem outstanding_recycle (r : RecvRun ι A) : (r.recycle c i).outstanding = r.outstanding := by
  simp only [recycle, outstanding_freeIfUnowned, outstanding_modify, notify_fields]
  split
  · rfl
  · simp

/-- The run that follows a frame that was not queued. -/
theorem outstanding_timeoutA (hstate : r.slot.state = .err) (herr : r.slot.error = .timeoutA) :
    (stateMachine c o i (fuel + 1) r).outstanding = r.outstanding := by
  simp only [stateMachine, stateSwitch, start_state, hstate, stateErr, error_err, herr]
  simp

/-- A frame that is not queued is not outstanding. -/
theorem outstanding_receiveSendFc (fuel : ℕ) (fs : UInt8) (ho : o r.sends ≠ .queued) :
    (r.receiveSendFc c o (stateMachine c o i (fuel + 1)) fs).outstanding = r.outstanding := by
  rw [receiveSendFc]
  cases h : o r.sends with
  | queued => exact absurd h ho
  | completed error => simp
  | failed eagain =>
    dsimp only
    rw [outstanding_timeoutA rfl rfl]
    simp

theorem outstanding_stateErr (ho : r.slot.error = .bufferOverflw → o r.sends ≠ .queued) :
    (r.stateErr c o i (stateMachine c o i (fuel + 1))).outstanding = r.outstanding := by
  simp only [stateErr, error_err, outstanding_freeIfUnowned, outstanding_modify]
  split
  · rename_i herr
    rw [outstanding_receiveSendFc fuel fsOvflw (by simpa using ho herr)]
    simp
  · simp

/-- A run that finds an error. -/
theorem outstanding_stateMachine_err (hstate : r.slot.state = .err)
    (ho : r.slot.error = .bufferOverflw → o r.sends ≠ .queued) :
    (stateMachine c o i (fuel + 2) r).outstanding = r.outstanding := by
  rw [stateMachine]
  simp only [stateSwitch, start_state, hstate]
  rw [outstanding_stateErr]
  · simp
  · rw [(start_state r).2]
    simpa using ho

/-- A run that finds a complete message. -/
theorem outstanding_stateMachine_recycle (hstate : r.slot.state = .recycle) :
    (stateMachine c o i (fuel + 1) r).outstanding = r.outstanding := by
  simp only [stateMachine, stateSwitch, start_state, hstate, outstanding_recycle]
  simp

theorem outstanding_sendCts (ho : o r.sends ≠ .queued) :
    (r.sendCts c o (stateMachine c o i (fuel + 1))).outstanding = r.outstanding := by
  simp [sendCts, outstanding_receiveSendFc fuel fsCts ho]

theorem outstanding_tryAlloc (ho : o r.sends ≠ .queued) :
    (r.tryAlloc c o i (stateMachine c o i (fuel + 1))).outstanding = r.outstanding := by
  rw [tryAlloc, outstanding_sendCts (by simpa using ho)]
  simp

/-- A run that sends nothing, or whose frame is not queued. -/
theorem outstanding_stateSwitch (fuel : ℕ) (ho : r.slot.Sends → o r.sends ≠ .queued) :
    (r.stateSwitch c o i (stateMachine c o i (fuel + 2))).outstanding = r.outstanding := by
  rw [stateSwitch]
  cases hstate : r.slot.state with
  | waitFfSf | waitCf | unbound => rfl
  | processSf =>
    dsimp only
    rw [outstanding_stateMachine_recycle (notify_slot _).1]
    simp
  | recycle => exact outstanding_recycle r
  | processFf =>
    have ho := ho (.inl hstate)
    dsimp only
    split
    · rw [outstanding_stateMachine_err rfl fun _ => by simpa using ho]
      simp
    · rw [outstanding_tryAlloc (by simpa using ho)]
      simp
  | tryAlloc => exact outstanding_tryAlloc (ho (.inr (.inl hstate)))
  | sendFc => exact outstanding_sendCts (ho (.inr (.inr (.inl hstate))))
  | sendWait =>
    have ho := ho (.inr (.inr (.inr (.inl hstate))))
    dsimp only
    split
    · simp [outstanding_receiveSendFc (fuel + 1) fsWait, ho]
    · rw [outstanding_stateErr fun _ => by simpa using ho]
      simp
  | err => exact outstanding_stateErr fun herr => ho (.inr (.inr (.inr (.inr ⟨hstate, herr⟩))))

/-! ## Contexts that are not freed -/

theorem unfreed_receiveSendFc (h : r.Unfreed) (fuel : ℕ) (fs : UInt8) (hlost : ¬ Lost c o r) :
    (r.receiveSendFc c o (stateMachine c o i (fuel + 1)) fs).Unfreed := by
  rcases receiveSendFc_cases c o i fuel h fs with ⟨h', -⟩ | ⟨-, h'⟩
  · exact absurd h' hlost
  · exact h'

theorem unfreed_tryAlloc (h : r.Unfreed) (hlost : ¬ Lost c o r) :
    (r.tryAlloc c o i (stateMachine c o i (fuel + 1))).Unfreed := by
  have hgoes : Goes c r (((r.modify fun s => { s with timer := false }).notifyWaitingReceiver c i).modify
      fun s => { s with state := .sendFc }) :=
    ((goes_modify r ⟨rfl, rfl, rfl⟩).trans (goes_notify _)).trans (goes_modify _ ⟨rfl, rfl, rfl⟩)
  have hsend := unfreed_receiveSendFc (i := i) (hgoes.unfreed h) fuel fsCts
    (mt (hgoes.lost h).1 hlost)
  rw [tryAlloc, sendCts]
  exact hsend.startTimer.modify _

/-- A context that a reader has is kept when an overflow was answered. -/
theorem unfreed_answer (h : r.Unfreed) (fuel : ℕ) (hqueue : c.receiveQueue = true)
    (hpending : r.slot.pending = true) (hlost : ¬ Lost c o r) :
    (((r.receiveSendFc c o (stateMachine c o i (fuel + 1)) fsOvflw).modify fun s =>
      { s with state := .unbound }).freeIfUnowned c).Unfreed := by
  have hsend := (unfreed_receiveSendFc (i := i) h fuel fsOvflw hlost).modify fun s =>
    { s with state := .unbound }
  have hrule : Rule c i (Accounts (ι := ι) (A := A)) := rule_accounts
  have haccounts : r.Accounts (r.receiveSendFc c o (stateMachine c o i (fuel + 1)) fsOvflw) :=
    hrule.receiveSendFc (hrule.stateMachine o (fuel + 1)) (hrule.refl r) fsOvflw
  rcases hsend.freeIfUnowned (c := c) with ⟨-, -, hfree⟩ | ⟨hne, -⟩
  · exact hfree
  · exact absurd ⟨hqueue, haccounts.pending hpending⟩ hne

/-- A context that a reader owns survives an error. -/
theorem unfreed_stateErr (h : r.Unfreed) (howned : r.slot.Owned c r.awaiters) :
    (r.stateErr c o i (stateMachine c o i (fuel + 1))).Unfreed := by
  by_cases herr : r.slot.error = .bufferOverflw
  · have hgoes := goes_err (c := c) r
    obtain ⟨hqueue, hpending⟩ :=
      (owned_notify (i := i) (hgoes.unfreed h)).1 ((hgoes.owned h).2 howned)
    have hnotify := hgoes.trans (goes_notify (i := i) _)
    simp only [stateErr, error_err, if_pos herr]
    exact unfreed_answer (hnotify.unfreed h) fuel hqueue hpending fun hlost =>
      hlost.2 ((hnotify.owned h).2 howned)
  · rcases ends_stateErr c o i (stateMachine c o i (fuel + 1)) h herr with ⟨-, h'⟩ | ⟨hne, -⟩
    · exact h'
    · exact absurd howned hne

/-- A run that finds an error of a context that a reader owns. -/
theorem unfreed_stateMachine_err (h : r.Unfreed) (hstate : r.slot.state = .err)
    (howned : r.slot.Owned c r.awaiters) : (stateMachine c o i (fuel + 2) r).Unfreed := by
  have hgoes := goes_start (c := c) r
  rw [stateMachine]
  simp only [stateSwitch, start_state, hstate]
  exact unfreed_stateErr (hgoes.unfreed h) ((hgoes.owned h).2 howned)

/-- A run that finds a complete message of a context that a reader owns. -/
theorem unfreed_stateMachine_recycle (h : r.Unfreed) (hstate : r.slot.state = .recycle)
    (howned : r.slot.Owned c r.awaiters) : (stateMachine c o i (fuel + 1) r).Unfreed := by
  have hgoes := goes_start (c := c) r
  rw [stateMachine]
  simp only [stateSwitch, start_state, hstate]
  rcases ends_recycle (i := i) (hgoes.unfreed h) with ⟨-, h'⟩ | ⟨hne, -⟩
  · exact h'
  · exact absurd ((hgoes.owned h).2 howned) hne

/-- A context that a run does not close, or that a reader owns, is not freed. -/
theorem unfreed_stateSwitch (fuel : ℕ) (h : r.Unfreed)
    (hopen : r.slot.Owned c r.awaiters ∨ ¬ r.slot.Closes c (o r.sends)) :
    (r.stateSwitch c o i (stateMachine c o i (fuel + 2))).Unfreed := by
  have howned : r.slot.Closes c (o r.sends) → r.slot.Owned c r.awaiters :=
    fun hcloses => hopen.resolve_right (not_not.2 hcloses)
  have hlost : r.slot.Sends → ¬ Lost c o r := fun hsends hlost =>
    hlost.2 (howned (.inr (.inr (.inr (.inr ⟨hsends, hlost.1⟩)))))
  rw [stateSwitch]
  cases hstate : r.slot.state with
  | waitFfSf | waitCf | unbound => exact h
  | processSf =>
    have hgoes : Goes c r ((r.modify fun s => { s with remLen := 0, state := .recycle })
        |>.notifyWaitingReceiver c i) := (goes_modify r ⟨rfl, rfl, rfl⟩).trans (goes_notify _)
    exact unfreed_stateMachine_recycle (hgoes.unfreed h) (notify_slot _).1
      ((hgoes.owned h).2 (howned (.inl hstate)))
  | recycle =>
    rcases ends_recycle (i := i) h with ⟨-, h'⟩ | ⟨hne, -⟩
    · exact h'
    · exact absurd (howned (.inr (.inl hstate))) hne
  | processFf =>
    dsimp only
    split
    · rename_i hoverflow
      have hgoes : Goes c r (r.modify fun s => s.reportError .bufferOverflw) :=
        goes_modify r ⟨rfl, rfl, rfl⟩
      refine unfreed_stateMachine_err (hgoes.unfreed h) rfl ((hgoes.owned h).2 (howned ?_))
      exact .inr (.inr (.inr (.inl (.inl ⟨hstate, hoverflow⟩))))
    · have hgoes : Goes c r ((r.notifyWaitingReceiver c i).modify fun s =>
          { s with
            bs := if r.slot.optsBs c ≠ 0 then r.slot.optsBs c else s.bs
            wft := 0xFF
            state := .tryAlloc }) := (goes_notify r).trans (goes_modify _ ⟨rfl, rfl, rfl⟩)
      exact unfreed_tryAlloc (hgoes.unfreed h) (mt (hgoes.lost h).1 (hlost (.inl hstate)))
  | tryAlloc => exact unfreed_tryAlloc h (hlost (.inr (.inl hstate)))
  | sendFc =>
    have hsend := unfreed_receiveSendFc (i := i) h (fuel + 1) fsCts (hlost (.inr (.inr (.inl hstate))))
    dsimp only
    unfold sendCts
    exact hsend.startTimer.modify _
  | sendWait =>
    have hgoes : Goes c r (r.modify fun s => { s with wft := s.wft + 1 }) :=
      goes_modify r ⟨rfl, rfl, rfl⟩
    dsimp only
    split
    · have hsend := unfreed_receiveSendFc (i := i) (hgoes.unfreed h) (fuel + 1) fsWait
        (mt (hgoes.lost h).1 (hlost (.inr (.inr (.inr (.inl hstate))))))
      exact hsend.startTimer.modify _
    · rename_i hwft
      have hgoes := hgoes.trans (goes_modify _ (f := fun s => s.reportError .bufferOverflw)
        ⟨rfl, rfl, rfl⟩)
      refine unfreed_stateErr (hgoes.unfreed h) ((hgoes.owned h).2 (howned ?_))
      exact .inr (.inr (.inr (.inl (.inr (.inl ⟨hstate, hwft⟩)))))
  | err => exact unfreed_stateErr h (howned (.inr (.inr (.inl hstate))))

end RecvRun

/-! ## Runs of the state machine -/

section Run

variable (c : RecvConfig) (o : ℕ → CanSend) (i : ι) (s : RecvSlot A) (awaiters : List (Awaiter ι A))

/-- What a run adds to `pending_cb` is the number of frames that it leaves outstanding. -/
theorem accounts_receiveStateMachine :
    (s.receiveStateMachine c o i awaiters).slot.pendingCb =
      s.pendingCb + (s.receiveStateMachine c o i awaiters).outstanding := by
  have h := ((RecvRun.rule_accounts (c := c) (i := i)).stateMachine o 3
    { slot := s, awaiters := awaiters }).pendingCb
  simp only [Nat.cast_zero, sub_zero] at h
  rw [← h]
  exact (sub_add_cancel _ _).symm

/-- What a run reads of the context before it looks at the state. -/
theorem start_slot_fields :
    ∃ queue dispatched, ((RecvRun.dispatchQueue c { slot := s, awaiters := awaiters }).touch
      [.read] : RecvRun ι A).slot = { s with recvQueue := queue, dispatched := dispatched } :=
  RecvRun.start_slot ⟨rfl, rfl⟩

/-- A context that a run does not close, or that a reader owns, stays allocated. -/
theorem unfreed_of_owned (hallocated : s.allocated = true)
    (hopen : s.Owned c awaiters ∨ ¬ s.Closes c (o 0)) :
    (s.receiveStateMachine c o i awaiters).slot.allocated = true := by
  have h : RecvRun.Unfreed ({ slot := s, awaiters := awaiters } : RecvRun ι A) := ⟨rfl, rfl⟩
  have hgoes := RecvRun.goes_start (c := c) ({ slot := s, awaiters := awaiters } : RecvRun ι A)
  obtain ⟨queue, dispatched, hslot⟩ := start_slot_fields c s awaiters
  have hrun := RecvRun.unfreed_stateSwitch (o := o) (i := i) 0 (hgoes.unfreed h) (by
    rw [hgoes.owned h, hgoes.sends h, hslot]
    exact hopen)
  exact (RecvRun.rule_accounts.stateMachine o 3 _).allocated (fun _ => hallocated) hrun.frees

/-- A run that closes the context leaves a frame outstanding only if it answers an overflow. -/
theorem outstanding_of_closes (hcloses : s.Closes c (o 0))
    (hanswer : s.Overflows c → o 0 ≠ .queued) :
    (s.receiveStateMachine c o i awaiters).outstanding = 0 := by
  have hgoes := RecvRun.goes_start (c := c) ({ slot := s, awaiters := awaiters } : RecvRun ι A)
  obtain ⟨queue, dispatched, hslot⟩ := start_slot_fields c s awaiters
  have hsilent : s.Sends → o 0 ≠ .queued := by
    intro hsends hqueued
    rcases hcloses with hstate | hstate | hstate | hoverflows | ⟨-, eagain, hfailed⟩
    · simp [RecvSlot.Sends, hstate] at hsends
    · simp [RecvSlot.Sends, hstate] at hsends
    · refine hanswer (.inr (.inr ⟨hstate, ?_⟩)) hqueued
      simpa [RecvSlot.Sends, hstate] using hsends
    · exact hanswer hoverflows hqueued
    · cases hqueued.symm.trans hfailed
  refine (RecvRun.outstanding_stateSwitch 0 ?_).trans (by simp)
  rw [hgoes.sends ⟨rfl, rfl⟩, hslot]
  exact hsilent

end Run

end ThingSet.IsoTp
