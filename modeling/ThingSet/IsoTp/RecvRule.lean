import ThingSet.IsoTp.RecvContext

/-!
# A rule for runs of the state machine

`receive_state_machine` calls itself, and each of its states goes through the same few functions. What
relates a run to how it started, because each of these functions keeps to it, relates it so at the end
(`Rule.stateMachine`).

* `Alike`: the run has gone on, and has not done anything that is counted or shared.
* `Rule`: a relation that such steps keep to, and freeing the context, notifying the readers and queuing a
  flow control frame.
-/

namespace ThingSet.IsoTp.RecvRun

variable {ι A : Type} {c : RecvConfig} {o : ℕ → CanSend} {i : ι} {again : RecvRun ι A → RecvRun ι A}
  {r r₁ r₂ : RecvRun ι A} {R : RecvRun ι A → RecvRun ι A → Prop}

/-- What a run has counted or shares with others has not changed. -/
structure Alike (r r' : RecvRun ι A) : Prop where
  rxAddr : r'.slot.rxAddr = r.slot.rxAddr
  pending : r'.slot.pending = r.slot.pending
  pendingCb : r'.slot.pendingCb = r.slot.pendingCb
  orphaned : r'.slot.orphaned = r.slot.orphaned
  allocated : r'.slot.allocated = r.slot.allocated
  awaiters : r'.awaiters = r.awaiters
  outstanding : r'.outstanding = r.outstanding
  frees : r'.frees = r.frees

/-- A frame is queued, and its callback is counted. -/
def queued (r : RecvRun ι A) : RecvRun ι A :=
  { r with
    slot := { r.slot with pendingCb := r.slot.pendingCb + 1 }
    outstanding := r.outstanding + 1 }

/-- A relation that the functions of the state machine keep to. -/
structure Rule (c : RecvConfig) (i : ι) (R : RecvRun ι A → RecvRun ι A → Prop) : Prop where
  trans : ∀ r r₁ r₂, R r r₁ → R r₁ r₂ → R r r₂
  alike : ∀ r r', Alike r r' → R r r'
  free : ∀ r, R r r.free
  notify : ∀ r, R r (r.notifyWaitingReceiver c i)
  queued : ∀ r, R r r.queued

@[simp]
theorem touch_fields (r : RecvRun ι A) (accesses : List Access) :
    (r.touch accesses).slot = r.slot ∧ (r.touch accesses).awaiters = r.awaiters ∧
      (r.touch accesses).outstanding = r.outstanding ∧ (r.touch accesses).frees = r.frees ∧
      (r.touch accesses).sends = r.sends := by
  rw [touch]
  split <;> exact ⟨rfl, rfl, rfl, rfl, rfl⟩

theorem alike_touch (r : RecvRun ι A) (accesses : List Access) : Alike r (r.touch accesses) := by
  constructor <;> simp

theorem alike_modify (r : RecvRun ι A) {f : RecvSlot A → RecvSlot A}
    (hf : (f r.slot).rxAddr = r.slot.rxAddr ∧ (f r.slot).pending = r.slot.pending ∧
      (f r.slot).pendingCb = r.slot.pendingCb ∧ (f r.slot).orphaned = r.slot.orphaned ∧
      (f r.slot).allocated = r.slot.allocated) : Alike r (r.modify f) := by
  constructor <;> simp [modify, hf]

theorem canTx_fields (s : RecvSlot A) (error : ℤ) :
    (s.canTx error).rxAddr = s.rxAddr ∧ (s.canTx error).pending = s.pending ∧
      (s.canTx error).pendingCb = s.pendingCb - 1 ∧ (s.canTx error).orphaned = s.orphaned ∧
      (s.canTx error).allocated = s.allocated := by
  rw [RecvSlot.canTx]
  dsimp only
  split <;> exact ⟨rfl, rfl, rfl, rfl, rfl⟩

namespace Rule

variable (hR : Rule c i R)

include hR

theorem refl (r : RecvRun ι A) : R r r := hR.alike r r ⟨rfl, rfl, rfl, rfl, rfl, rfl, rfl, rfl⟩

theorem touch (h : R r r₁) (accesses : List Access) : R r (r₁.touch accesses) :=
  hR.trans _ _ _ h (hR.alike _ _ (alike_touch r₁ accesses))

theorem modify (h : R r r₁) {f : RecvSlot A → RecvSlot A}
    (hf : (f r₁.slot).rxAddr = r₁.slot.rxAddr ∧ (f r₁.slot).pending = r₁.slot.pending ∧
      (f r₁.slot).pendingCb = r₁.slot.pendingCb ∧ (f r₁.slot).orphaned = r₁.slot.orphaned ∧
      (f r₁.slot).allocated = r₁.slot.allocated) : R r (r₁.modify f) :=
  hR.trans _ _ _ h (hR.alike _ _ (alike_modify r₁ hf))

theorem startTimer (h : R r r₁) : R r r₁.startTimer := by
  apply hR.trans _ _ _ h
  apply hR.alike
  constructor <;> simp [RecvRun.startTimer]

theorem freeIfUnowned (h : R r r₁) : R r (r₁.freeIfUnowned c) := by
  rw [RecvRun.freeIfUnowned]
  split
  · exact hR.touch h _
  · exact hR.trans _ _ _ h (hR.free r₁)

theorem notifyWaitingReceiver (h : R r r₁) : R r (r₁.notifyWaitingReceiver c i) :=
  hR.trans _ _ _ h (hR.notify r₁)

theorem dispatchQueue (h : R r r₁) : R r (r₁.dispatchQueue c) := by
  rw [RecvRun.dispatchQueue]
  split
  · apply hR.trans _ _ _ h
    apply hR.alike
    constructor <;> simp [RecvRun.modify]
  · exact h

theorem recvErrorCallback (h : R r r₁) : R r r₁.recvErrorCallback := by
  rw [RecvRun.recvErrorCallback]
  split
  · exact h
  · exact hR.trans _ _ _ h (hR.alike _ _ ⟨rfl, rfl, rfl, rfl, rfl, rfl, rfl, rfl⟩)

section Again

variable (hagain : ∀ r, R r (again r))

include hagain

/-- A frame is queued, or it is counted and then it is not. -/
theorem receiveSendFc (h : R r r₁) (fs : UInt8) : R r (r₁.receiveSendFc c o again fs) := by
  rw [RecvRun.receiveSendFc]
  cases o r₁.sends with
  | queued =>
    apply hR.trans _ _ _ (hR.trans _ _ _ h (hR.queued r₁))
    apply hR.alike
    constructor <;> simp [RecvRun.modify, RecvRun.queued]
  | completed error =>
    apply hR.trans _ _ _ h
    apply hR.alike
    constructor <;> simp [RecvRun.modify, canTx_fields]
  | failed eagain =>
    refine hR.trans _ _ _ (hR.trans _ _ _ h ?_) (hagain _)
    apply hR.alike
    constructor <;> simp [RecvRun.modify, RecvSlot.reportError]

theorem sendCts (h : R r r₁) : R r (r₁.sendCts c o again) := by
  unfold RecvRun.sendCts
  exact hR.modify (hR.startTimer (hR.receiveSendFc hagain h fsCts)) ⟨rfl, rfl, rfl, rfl, rfl⟩

theorem tryAlloc (h : R r r₁) : R r (r₁.tryAlloc c o i again) := by
  unfold RecvRun.tryAlloc
  apply hR.sendCts hagain
  apply hR.modify _ ⟨rfl, rfl, rfl, rfl, rfl⟩
  apply hR.notifyWaitingReceiver
  exact hR.modify h ⟨rfl, rfl, rfl, rfl, rfl⟩

theorem stateErr (h : R r r₁) : R r (r₁.stateErr c o i again) := by
  apply hR.freeIfUnowned
  apply hR.modify _ ⟨rfl, rfl, rfl, rfl, rfl⟩
  have hnotify : R r ((r₁.modify fun s => { s with timer := false }).recvErrorCallback
      |>.notifyWaitingReceiver c i) := by
    apply hR.notifyWaitingReceiver
    apply hR.recvErrorCallback
    exact hR.modify h ⟨rfl, rfl, rfl, rfl, rfl⟩
  split
  · exact hR.receiveSendFc hagain hnotify fsOvflw
  · exact hnotify

omit hagain in
theorem recycle (h : R r r₁) : R r (r₁.recycle c i) := by
  apply hR.freeIfUnowned
  apply hR.modify _ ⟨rfl, rfl, rfl, rfl, rfl⟩
  apply hR.notifyWaitingReceiver
  split
  · exact h
  · apply hR.trans _ _ _ (hR.touch h [.read])
    exact hR.alike _ _ ⟨rfl, rfl, rfl, rfl, rfl, rfl, rfl, rfl⟩

theorem stateSwitch (h : R r r₁) : R r (r₁.stateSwitch c o i again) := by
  rw [RecvRun.stateSwitch]
  cases r₁.slot.state with
  | waitFfSf | waitCf | unbound => exact h
  | processSf =>
    refine hR.trans _ _ _ (hR.notifyWaitingReceiver ?_) (hagain _)
    exact hR.modify h ⟨rfl, rfl, rfl, rfl, rfl⟩
  | processFf =>
    dsimp only
    split
    · exact hR.trans _ _ _ (hR.modify h ⟨rfl, rfl, rfl, rfl, rfl⟩) (hagain _)
    · apply hR.tryAlloc hagain
      exact hR.modify (hR.notifyWaitingReceiver h) ⟨rfl, rfl, rfl, rfl, rfl⟩
  | tryAlloc => exact hR.tryAlloc hagain h
  | sendFc => exact hR.sendCts hagain h
  | sendWait =>
    have hwft : R r (r₁.modify fun s => { s with wft := s.wft + 1 }) :=
      hR.modify h ⟨rfl, rfl, rfl, rfl, rfl⟩
    dsimp only
    split
    · apply hR.modify _ ⟨rfl, rfl, rfl, rfl, rfl⟩
      exact hR.startTimer (hR.receiveSendFc hagain hwft fsWait)
    · apply hR.stateErr hagain
      exact hR.modify hwft ⟨rfl, rfl, rfl, rfl, rfl⟩
  | err => exact hR.stateErr hagain h
  | recycle => exact hR.recycle h

end Again

/-- **What the functions keep to, a run of the state machine keeps to.** -/
theorem stateMachine (o : ℕ → CanSend) (fuel : ℕ) (r : RecvRun ι A) :
    R r (stateMachine c o i fuel r) := by
  induction fuel generalizing r with
  | zero => exact hR.refl r
  | succ fuel ih => exact hR.stateSwitch ih (hR.touch (hR.dispatchQueue (hR.refl r)) _)

end Rule

end ThingSet.IsoTp.RecvRun
