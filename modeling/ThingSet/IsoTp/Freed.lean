import ThingSet.IsoTp.RecvContext
import ThingSet.IsoTp.Backlog

/-!
# After a receive context is freed

`receive_send_fc` runs the state machine again when `can_send` fails. That run frees the context unless
a reader owns it, and its caller goes on with the context.

`freed_iff`: this is the only way in which a run of `receive_state_machine` uses a context that it has
freed, or frees it twice.
-/

namespace ThingSet.IsoTp

variable {ι A : Type} {c : RecvConfig} {o : ℕ → CanSend} {i : ι} {again : RecvRun ι A → RecvRun ι A}
  {r : RecvRun ι A} {fuel : ℕ}

/-! ## Readers -/

/-- A reader owns the context, or it will when it is notified. -/
def RecvSlot.Owned (c : RecvConfig) (s : RecvSlot A) (awaiters : List (Awaiter ι A)) : Prop :=
  c.receiveQueue = true ∧ (s.pending = true ∨
    c.blockingReceive = true ∧ s.orphaned = false ∧ ∃ a ∈ awaiters, a.sender s.rxAddr = true)

/-- The state in which a run calls `can_send`. -/
def RecvSlot.Sends (s : RecvSlot A) : Prop :=
  s.state = .processFf ∨ s.state = .tryAlloc ∨ s.state = .sendFc ∨ s.state = .sendWait ∨
    s.state = .err ∧ s.error = .bufferOverflw

namespace RecvRun

/-- The context has not been freed. -/
structure Unfreed (r : RecvRun ι A) : Prop where
  frees : r.frees = 0
  after : r.after = []

/-- The context has been freed once, and not been used after that. -/
structure Freed (r : RecvRun ι A) : Prop where
  frees : r.frees = 1
  after : r.after = []

/-- The context is freed at most once, and not used after that. -/
def Sound (r : RecvRun ι A) : Prop := r.frees ≤ 1 ∧ r.after = []

theorem touch_of_frees (h : r.frees = 0) (accesses : List Access) : r.touch accesses = r := if_pos h

theorem modify_of_frees (h : r.frees = 0) (f : RecvSlot A → RecvSlot A) :
    r.modify f = { r with slot := f r.slot } := by
  rw [modify, touch_of_frees h]

theorem startTimer_of_frees (h : r.frees = 0) :
    r.startTimer = { r with slot := { r.slot with timer := true } } := by
  rw [startTimer, touch_of_frees h]

end RecvRun

theorem notifyFirst_eq_none {addr : A} {as : List (Awaiter ι A)} :
    notifyFirst i addr as = none ↔ ∀ a ∈ as, a.sender addr = false := by
  induction as with
  | nil => simp [notifyFirst]
  | cons a as ih =>
    by_cases h : a.sender addr = true
    · simp [notifyFirst, h]
    · simp [notifyFirst, h, ih]

/-- The same readers wait afterwards. -/
theorem notifyFirst_sender {addr : A} {as as' : List (Awaiter ι A)} {sem : Bool}
    (h : notifyFirst i addr as = some (as', sem)) :
    as'.map (·.sender) = as.map (·.sender) ∧ ∃ a ∈ as, a.sender addr = true := by
  induction as generalizing as' with
  | nil => cases h
  | cons a as ih =>
    rw [notifyFirst] at h
    split at h
    · rename_i hsender
      obtain ⟨rfl, -⟩ := Prod.mk.inj (Option.some.inj h)
      exact ⟨rfl, a, List.mem_cons_self, hsender⟩
    · obtain ⟨⟨as₁, sem₁⟩, h₁, heq⟩ := Option.map_eq_some_iff.1 h
      obtain ⟨rfl, rfl⟩ := Prod.mk.inj heq
      obtain ⟨hmap, b, hb, hsender⟩ := ih h₁
      exact ⟨by rw [List.map_cons, List.map_cons, hmap], b, List.mem_cons_of_mem a hb, hsender⟩

theorem exists_sender_iff {as as' : List (Awaiter ι A)} (h : as'.map (·.sender) = as.map (·.sender))
    (addr : A) : (∃ a ∈ as', a.sender addr = true) ↔ ∃ a ∈ as, a.sender addr = true := by
  have hmem : ∀ l : List (Awaiter ι A),
      (∃ a ∈ l, a.sender addr = true) ↔ ∃ g ∈ l.map (·.sender), g addr = true := by
    intro l
    simp
  rw [hmem, hmem, h]

namespace RecvRun

theorem Unfreed.modify (h : r.Unfreed) (f : RecvSlot A → RecvSlot A) : (r.modify f).Unfreed := by
  rw [modify_of_frees h.frees]
  exact ⟨h.frees, h.after⟩

theorem Unfreed.startTimer (h : r.Unfreed) : r.startTimer.Unfreed := by
  rw [startTimer_of_frees h.frees]
  exact ⟨h.frees, h.after⟩

/-- A matching reader gets the context, or nothing happens. -/
theorem notify_cases (h : r.frees = 0) :
    (r.notifyWaitingReceiver c i = r ∧ (c.blockingReceive = true → r.slot.orphaned = false →
      ∀ a ∈ r.awaiters, a.sender r.slot.rxAddr = false)) ∨
    ∃ awaiters sem queue, c.blockingReceive = true ∧ r.slot.orphaned = false ∧
      notifyFirst i r.slot.rxAddr r.awaiters = some (awaiters, sem) ∧
      r.notifyWaitingReceiver c i =
        { r with slot := { r.slot with pending := true, recvQueue := queue }, awaiters := awaiters } := by
  rw [notifyWaitingReceiver]
  split
  · rename_i hb
    obtain ⟨hblocking, horphaned⟩ := hb
    rw [Bool.not_eq_true] at horphaned
    cases hfirst : notifyFirst i r.slot.rxAddr r.awaiters with
    | none => exact .inl ⟨touch_of_frees h _, fun _ _ => notifyFirst_eq_none.1 hfirst⟩
    | some p =>
      refine .inr ⟨p.1, p.2, if p.2 ∧ r.slot.error ≠ .ok then [] else r.slot.recvQueue, hblocking,
        horphaned, rfl, ?_⟩
      simp only [modify_of_frees h]
  · rename_i hb
    exact .inl ⟨rfl, fun hblocking horphaned => absurd ⟨hblocking, by simp [horphaned]⟩ hb⟩

/-- What a run does with the context before it sends or frees: it is owned if it was. -/
structure Goes (c : RecvConfig) (r r' : RecvRun ι A) : Prop where
  unfreed : r.Unfreed → r'.Unfreed
  sends : r.Unfreed → r'.sends = r.sends
  owned : r.Unfreed → (r'.slot.Owned c r'.awaiters ↔ r.slot.Owned c r.awaiters)

theorem Goes.trans {r₁ r₂ r₃ : RecvRun ι A} (h : Goes c r₁ r₂) (h' : Goes c r₂ r₃) : Goes c r₁ r₃ where
  unfreed hr := h'.unfreed (h.unfreed hr)
  sends hr := (h'.sends (h.unfreed hr)).trans (h.sends hr)
  owned hr := (h'.owned (h.unfreed hr)).trans (h.owned hr)

theorem goes_touch (r : RecvRun ι A) (accesses : List Access) : Goes c r (r.touch accesses) where
  unfreed hr := (touch_of_frees hr.frees accesses).symm ▸ hr
  sends hr := congrArg sends (touch_of_frees hr.frees accesses)
  owned hr := by rw [touch_of_frees hr.frees]

theorem goes_modify (r : RecvRun ι A) {f : RecvSlot A → RecvSlot A}
    (hf : (f r.slot).pending = r.slot.pending ∧ (f r.slot).orphaned = r.slot.orphaned ∧
      (f r.slot).rxAddr = r.slot.rxAddr) : Goes c r (r.modify f) where
  unfreed hr := hr.modify f
  sends hr := by rw [modify_of_frees hr.frees]
  owned hr := by
    rw [modify_of_frees hr.frees, RecvSlot.Owned, RecvSlot.Owned, hf.1, hf.2.1, hf.2.2]

theorem dispatchQueue_eq (h : r.frees = 0) : ∃ queue dispatched calls, r.dispatchQueue c =
    { r with slot := { r.slot with recvQueue := queue, dispatched := dispatched }, calls := calls } := by
  rw [dispatchQueue]
  split
  · exact ⟨_, _, _, by rw [modify_of_frees h]⟩
  · exact ⟨_, _, _, rfl⟩

theorem goes_dispatchQueue (r : RecvRun ι A) : Goes c r (r.dispatchQueue c) := by
  refine ⟨fun hr => ?_, fun hr => ?_, fun hr => ?_⟩ <;>
    obtain ⟨queue, dispatched, calls, heq⟩ := dispatchQueue_eq (c := c) hr.frees <;> rw [heq]
  · exact ⟨hr.frees, hr.after⟩
  · rfl

theorem goes_recvErrorCallback (r : RecvRun ι A) : Goes c r r.recvErrorCallback := by
  rw [recvErrorCallback]
  split
  · exact ⟨id, fun _ => rfl, fun _ => Iff.rfl⟩
  · exact ⟨fun hr => ⟨hr.frees, hr.after⟩, fun _ => rfl, fun _ => Iff.rfl⟩

theorem goes_notify (r : RecvRun ι A) : Goes c r (r.notifyWaitingReceiver c i) := by
  refine ⟨fun hr => ?_, fun hr => ?_, fun hr => ?_⟩ <;>
    rcases notify_cases (c := c) (i := i) hr.frees with ⟨heq, -⟩ |
      ⟨awaiters, sem, queue, hblocking, horphaned, hfirst, heq⟩ <;> rw [heq]
  · exact hr
  · exact ⟨hr.frees, hr.after⟩
  · refine and_congr_right fun _ => ⟨fun _ => .inr ⟨hblocking, horphaned, ?_⟩, fun _ => .inl rfl⟩
    exact (notifyFirst_sender hfirst).2

/-! ## Runs -/

/-- The memory stays accessed. -/
theorem after_touch {accesses : List Access} (h : r.after ≠ []) : (r.touch accesses).after ≠ [] := by
  rw [touch]
  split
  · exact h
  · exact fun hnil => h (List.append_eq_nil_iff.1 hnil).1

theorem after_modify {f : RecvSlot A → RecvSlot A} (h : r.after ≠ []) : (r.modify f).after ≠ [] :=
  after_touch h

theorem after_freeIfUnowned (h : r.after ≠ []) : (r.freeIfUnowned c).after ≠ [] := by
  rw [freeIfUnowned]
  split
  · exact after_touch h
  · exact after_touch h

theorem not_sound (h : r.after ≠ []) : ¬ r.Sound := fun hs => h hs.2

theorem Freed.after_modify {f : RecvSlot A → RecvSlot A} (h : r.Freed) : (r.modify f).after ≠ [] := by
  simp [modify, touch, h.frees]

theorem Freed.after_startTimer (h : r.Freed) : r.startTimer.after ≠ [] := by
  simp [startTimer, touch, h.frees]

/-- The context is freed unless a reader owns it. -/
theorem Unfreed.freeIfUnowned (h : r.Unfreed) :
    (c.receiveQueue = true ∧ r.slot.pending = true ∧ (r.freeIfUnowned c).Unfreed) ∨
      ¬ (c.receiveQueue = true ∧ r.slot.pending = true) ∧ (r.freeIfUnowned c).Freed := by
  rw [RecvRun.freeIfUnowned, touch_of_frees h.frees]
  split
  · rename_i howned
    exact .inl ⟨howned.1, howned.2, h⟩
  · rename_i howned
    refine .inr ⟨howned, ?_, ?_⟩
    · rw [free, touch_of_frees h.frees, h.frees]
    · rw [free, touch_of_frees h.frees]
      exact h.after

theorem Unfreed.sound (h : r.Unfreed) : r.Sound := ⟨by simp [h.frees], h.after⟩

theorem Freed.sound (h : r.Freed) : r.Sound := ⟨by simp [h.frees], h.after⟩

theorem Unfreed.sound_freeIfUnowned (h : r.Unfreed) : (r.freeIfUnowned c).Sound := by
  rcases h.freeIfUnowned (c := c) with ⟨-, -, h⟩ | ⟨-, h⟩
  · exact h.sound
  · exact h.sound

/-- After the readers were notified, the context is owned if one of them was or is pending. -/
theorem owned_notify (h : r.Unfreed) :
    r.slot.Owned c r.awaiters ↔
      c.receiveQueue = true ∧ (r.notifyWaitingReceiver c i).slot.pending = true := by
  rcases notify_cases (c := c) (i := i) h.frees with ⟨heq, hnone⟩ |
    ⟨awaiters, sem, queue, hblocking, horphaned, hfirst, heq⟩ <;> rw [heq]
  · refine and_congr_right fun _ => or_iff_left ?_
    rintro ⟨hblocking, horphaned, a, ha, hsender⟩
    exact absurd ((hnone hblocking horphaned a ha).symm.trans hsender) (by decide)
  · have hqueue : c.receiveQueue = true := by simp [RecvConfig.receiveQueue, hblocking]
    exact iff_of_true ⟨hqueue, .inr ⟨hblocking, horphaned, (notifyFirst_sender hfirst).2⟩⟩ ⟨hqueue, rfl⟩

/-- The run has freed the context unless a reader owns it. -/
def Ends (c : RecvConfig) (r r' : RecvRun ι A) : Prop :=
  r.slot.Owned c r.awaiters ∧ r'.Unfreed ∨ ¬ r.slot.Owned c r.awaiters ∧ r'.Freed

theorem Ends.sound {r' : RecvRun ι A} (h : Ends c r r') : r'.Sound := by
  rcases h with ⟨-, h⟩ | ⟨-, h⟩
  · exact h.sound
  · exact h.sound

theorem Goes.ends {r₁ r₂ : RecvRun ι A} (h : Goes c r r₁) (hr : r.Unfreed) (he : Ends c r₁ r₂) :
    Ends c r r₂ := by
  rw [Ends, h.owned hr] at he
  exact he

/-- The readers are notified and the context is freed. -/
theorem ends_notify (h : r.Unfreed) {f : RecvSlot A → RecvSlot A} (hf : ∀ s, (f s).pending = s.pending) :
    Ends c r (((r.notifyWaitingReceiver c i).modify f).freeIfUnowned c) := by
  have hn := (goes_notify (c := c) (i := i) r).unfreed h
  have hm := hn.modify f
  have hpending : ((r.notifyWaitingReceiver c i).modify f).slot.pending =
      (r.notifyWaitingReceiver c i).slot.pending := by
    rw [modify_of_frees hn.frees]
    exact hf _
  rcases hm.freeIfUnowned (c := c) with ⟨hqueue, hp, hfree⟩ | ⟨hne, hfree⟩
  · exact .inl ⟨(owned_notify h).2 ⟨hqueue, hpending ▸ hp⟩, hfree⟩
  · exact .inr ⟨fun howned => hne ((owned_notify h).1 howned |>.imp_right hpending.trans), hfree⟩

theorem ends_recycle (h : r.Unfreed) : Ends c r (r.recycle c i) := by
  rw [recycle]
  split
  · exact ends_notify h fun _ => rfl
  · have hr : ({ r with
        calls := r.calls ++
          [⟨r.slot.buffer, 0, r.slot.rxAddr, r.slot.declared, r.slot.dispatched⟩] } : RecvRun ι A).Unfreed :=
      ⟨h.frees, h.after⟩
    rw [touch_of_frees h.frees]
    exact ends_notify hr fun _ => rfl

/-- The context of an error, when the readers are notified. -/
theorem goes_err (r : RecvRun ι A) :
    Goes c r (r.modify fun s => { s with timer := false }).recvErrorCallback :=
  (goes_modify r ⟨rfl, rfl, rfl⟩).trans (goes_recvErrorCallback _)

theorem error_err (r : RecvRun ι A) :
    ((r.modify fun s => { s with timer := false }).recvErrorCallback.notifyWaitingReceiver c i).slot.error =
      r.slot.error := by
  rw [(notify_slot _).2, recvErrorCallback_slot]
  rfl

/-- An error that sends nothing. -/
theorem ends_stateErr (c : RecvConfig) (o : ℕ → CanSend) (i : ι)
    (again : RecvRun ι A → RecvRun ι A) (h : r.Unfreed) (herr : r.slot.error ≠ .bufferOverflw) :
    Ends c r (r.stateErr c o i again) := by
  have hgoes := goes_err (c := c) r
  simp only [stateErr, error_err, if_neg herr]
  exact hgoes.ends h (ends_notify (hgoes.unfreed h) fun _ => rfl)

/-- What comes before the state is looked at. -/
theorem goes_start (r : RecvRun ι A) : Goes c r ((r.dispatchQueue c).touch [.read]) :=
  (goes_dispatchQueue r).trans (goes_touch _ _)

theorem start_slot (h : r.Unfreed) : ∃ queue dispatched, ((r.dispatchQueue c).touch [.read]).slot =
    { r.slot with recvQueue := queue, dispatched := dispatched } := by
  obtain ⟨queue, dispatched, calls, heq⟩ := dispatchQueue_eq (c := c) h.frees
  rw [touch_of_frees ((goes_dispatchQueue r).unfreed h).frees, heq]
  exact ⟨queue, dispatched, rfl⟩

/-- The run that follows a frame that was not queued. -/
theorem ends_stateMachine (c : RecvConfig) (o : ℕ → CanSend) (i : ι) (fuel : ℕ) (h : r.Unfreed) (hstate : r.slot.state = .err)
    (herr : r.slot.error = .timeoutA) : Ends c r (stateMachine c o i (fuel + 1) r) := by
  obtain ⟨queue, dispatched, hslot⟩ := start_slot (c := c) h
  have hgoes := goes_start (c := c) r
  have hends := ends_stateErr c o i (stateMachine c o i fuel)
    (hgoes.unfreed h) (by simp [hslot, herr])
  simp only [stateMachine, stateSwitch, hslot, hstate]
  exact hgoes.ends h hends

/-- A frame is not queued, and no reader owns the context. -/
def Lost (c : RecvConfig) (o : ℕ → CanSend) (r : RecvRun ι A) : Prop :=
  (∃ eagain, o r.sends = .failed eagain) ∧ ¬ r.slot.Owned c r.awaiters

/-- A flow control frame is sent. -/
theorem receiveSendFc_cases (c : RecvConfig) (o : ℕ → CanSend) (i : ι) (fuel : ℕ) (h : r.Unfreed) (fs : UInt8) :
    Lost c o r ∧ (r.receiveSendFc c o (stateMachine c o i (fuel + 1)) fs).Freed ∨
      ¬ Lost c o r ∧ (r.receiveSendFc c o (stateMachine c o i (fuel + 1)) fs).Unfreed := by
  have hr : ∀ slot, ({ r with sends := r.sends + 1, slot := slot } : RecvRun ι A).Unfreed :=
    fun _ => ⟨h.frees, h.after⟩
  have hr₀ : ({ r with sends := r.sends + 1 } : RecvRun ι A).frees = 0 := h.frees
  rw [receiveSendFc, Lost]
  cases ho : o r.sends with
  | queued =>
    simp only [modify_of_frees hr₀]
    exact .inr ⟨by rintro ⟨⟨_, ⟨⟩⟩, _⟩, h.frees, h.after⟩
  | completed error =>
    simp only [modify_of_frees hr₀, modify_of_frees (hr _).frees]
    exact .inr ⟨by rintro ⟨⟨_, ⟨⟩⟩, _⟩, h.frees, h.after⟩
  | failed eagain =>
    simp only [modify_of_frees hr₀, modify_of_frees (hr _).frees]
    have hends := ends_stateMachine c o i fuel
      (hr ({ r.slot with pendingCb := r.slot.pendingCb + 1 - 1 }.reportError .timeoutA)) rfl rfl
    rcases hends with ⟨howned, hrun⟩ | ⟨howned, hrun⟩
    · exact .inr ⟨fun hlost => hlost.2 howned, hrun⟩
    · exact .inl ⟨⟨⟨eagain, rfl⟩, howned⟩, hrun⟩

theorem Goes.lost {r' : RecvRun ι A} (h : Goes c r r') (hr : r.Unfreed) : Lost c o r' ↔ Lost c o r := by
  rw [Lost, Lost, h.sends hr, h.owned hr]

/-- A frame is sent, the timer started and the context written. -/
theorem sound_send (h : r.Unfreed) (fs : UInt8) (f : RecvSlot A → RecvSlot A) :
    ((r.receiveSendFc c o (stateMachine c o i (fuel + 1)) fs).startTimer.modify f).Sound ↔
      ¬ Lost c o r := by
  rcases receiveSendFc_cases c o i fuel h fs with
    ⟨hlost, hrun⟩ | ⟨hlost, hrun⟩
  · exact iff_of_false (not_sound (after_modify hrun.after_startTimer)) (not_not.2 hlost)
  · exact iff_of_true (hrun.startTimer.modify f).sound hlost

theorem sound_tryAlloc (h : r.Unfreed) :
    (r.tryAlloc c o i (stateMachine c o i (fuel + 1))).Sound ↔ ¬ Lost c o r := by
  have hgoes : Goes c r (((r.modify fun s => { s with timer := false }).notifyWaitingReceiver c i).modify
      fun s => { s with state := .sendFc }) :=
    ((goes_modify r ⟨rfl, rfl, rfl⟩).trans (goes_notify _)).trans (goes_modify _ ⟨rfl, rfl, rfl⟩)
  rw [tryAlloc, sendCts, sound_send (hgoes.unfreed h), hgoes.lost h]

/-- An overflow is answered. -/
theorem sound_stateErr (h : r.Unfreed) (herr : r.slot.error = .bufferOverflw) :
    (r.stateErr c o i (stateMachine c o i (fuel + 1))).Sound ↔ ¬ Lost c o r := by
  have hgoes : Goes c r
      ((r.modify fun s => { s with timer := false }).recvErrorCallback.notifyWaitingReceiver c i) :=
    (goes_err r).trans (goes_notify _)
  simp only [stateErr, error_err, if_pos herr]
  rw [← hgoes.lost h]
  rcases receiveSendFc_cases c o i fuel (hgoes.unfreed h) fsOvflw with
    ⟨hlost, hrun⟩ | ⟨hlost, hrun⟩
  · exact iff_of_false (not_sound (after_freeIfUnowned hrun.after_modify)) (not_not.2 hlost)
  · exact iff_of_true (hrun.modify _).sound_freeIfUnowned hlost

/-- A run that finds an error. -/
theorem sound_stateMachine_err (h : r.Unfreed) (hstate : r.slot.state = .err) :
    (stateMachine c o i (fuel + 2) r).Sound ↔ ¬ (r.slot.error = .bufferOverflw ∧ Lost c o r) := by
  obtain ⟨queue, dispatched, hslot⟩ := start_slot (c := c) h
  have hgoes := goes_start (c := c) r
  have hr := hgoes.unfreed h
  rw [← hgoes.lost h, stateMachine]
  simp only [stateSwitch, hslot, hstate]
  by_cases herr : r.slot.error = .bufferOverflw
  · rw [sound_stateErr hr (by simp [hslot, herr]), and_iff_right herr]
  · exact iff_of_true (ends_stateErr _ _ _ _ hr (by simp [hslot, herr])).sound fun hboth => herr hboth.1

/-- A run that finds a complete message. -/
theorem sound_stateMachine_recycle (h : r.Unfreed) (hstate : r.slot.state = .recycle) :
    (stateMachine c o i (fuel + 1) r).Sound := by
  obtain ⟨queue, dispatched, hslot⟩ := start_slot (c := c) h
  rw [stateMachine]
  simp only [stateSwitch, hslot, hstate]
  exact (ends_recycle ((goes_start r).unfreed h)).sound

/-- A run that looks at the state, in those in which it sends a frame and in the others. -/
theorem sound_stateSwitch (c : RecvConfig) (o : ℕ → CanSend) (i : ι) (fuel : ℕ) (h : r.Unfreed) :
    (r.stateSwitch c o i (stateMachine c o i (fuel + 2))).Sound ↔ ¬ (r.slot.Sends ∧ Lost c o r) := by
  have hsilent : ∀ {r' : RecvRun ι A}, r'.Sound → ¬ r.slot.Sends →
      (r'.Sound ↔ ¬ (r.slot.Sends ∧ Lost c o r)) :=
    fun hs hne => iff_of_true hs fun hboth => hne hboth.1
  rw [stateSwitch]
  cases hstate : r.slot.state with
  | waitFfSf | waitCf | unbound =>
    exact hsilent h.sound (by simp [RecvSlot.Sends, hstate])
  | processSf =>
    have hm := h.modify fun s => { s with remLen := 0, state := .recycle }
    refine hsilent (sound_stateMachine_recycle ((goes_notify (c := c) _).unfreed hm) ?_)
      (by simp [RecvSlot.Sends, hstate])
    exact (notify_slot _).1
  | recycle => exact hsilent (ends_recycle h).sound (by simp [RecvSlot.Sends, hstate])
  | processFf =>
    rw [and_iff_right (by simp [RecvSlot.Sends, hstate])]
    dsimp only
    split
    · -- the message does not fit
      have hgoes : Goes c r (r.modify fun s => s.reportError .bufferOverflw) :=
        goes_modify r ⟨rfl, rfl, rfl⟩
      have hslot : (r.modify fun s => s.reportError .bufferOverflw).slot =
          r.slot.reportError .bufferOverflw := by rw [modify_of_frees h.frees]
      rw [sound_stateMachine_err (hgoes.unfreed h) (by rw [hslot]; rfl), hgoes.lost h,
        and_iff_right (by rw [hslot]; rfl)]
    · refine (sound_tryAlloc (Goes.unfreed (c := c) ?_ h)).trans (not_congr (Goes.lost ?_ h)) <;>
        exact (goes_notify r).trans (goes_modify _ ⟨rfl, rfl, rfl⟩)
  | tryAlloc =>
    rw [and_iff_right (by simp [RecvSlot.Sends, hstate])]
    exact sound_tryAlloc h
  | sendFc =>
    rw [and_iff_right (by simp [RecvSlot.Sends, hstate])]
    exact sound_send h fsCts _
  | sendWait =>
    have hgoes : Goes c r (r.modify fun s => { s with wft := s.wft + 1 }) :=
      goes_modify r ⟨rfl, rfl, rfl⟩
    rw [and_iff_right (by simp [RecvSlot.Sends, hstate]), ← hgoes.lost h]
    dsimp only
    split
    · exact sound_send (hgoes.unfreed h) fsWait _
    · have herr := goes_modify (c := c) (r.modify fun s => { s with wft := s.wft + 1 })
        (f := fun s => s.reportError .bufferOverflw) ⟨rfl, rfl, rfl⟩
      rw [← herr.lost (hgoes.unfreed h)]
      refine sound_stateErr (herr.unfreed (hgoes.unfreed h)) ?_
      rw [modify_of_frees (hgoes.unfreed h).frees]
      rfl
  | err =>
    by_cases herr : r.slot.error = .bufferOverflw
    · rw [and_iff_right (by simp [RecvSlot.Sends, hstate, herr])]
      exact sound_stateErr h herr
    · exact hsilent (ends_stateErr _ _ _ _ h herr).sound (by simp [RecvSlot.Sends, hstate, herr])

end RecvRun

/-- **A run of `receive_state_machine` frees the context at most once and does not use it after that
if and only if it does not send a flow control frame, or the frame is queued, or a reader owns the
context.** -/
theorem freed_iff (c : RecvConfig) (o : ℕ → CanSend) (i : ι) (s : RecvSlot A)
    (awaiters : List (Awaiter ι A)) :
    (s.receiveStateMachine c o i awaiters).frees ≤ 1 ∧ (s.receiveStateMachine c o i awaiters).after = [] ↔
      ¬ (s.Sends ∧ (∃ eagain, o 0 = .failed eagain) ∧ ¬ s.Owned c awaiters) := by
  have h : RecvRun.Unfreed ({ slot := s, awaiters := awaiters } : RecvRun ι A) := ⟨rfl, rfl⟩
  have hgoes := RecvRun.goes_start (c := c) ({ slot := s, awaiters := awaiters } : RecvRun ι A)
  obtain ⟨queue, dispatched, hslot⟩ := RecvRun.start_slot (c := c) h
  have hsound := RecvRun.sound_stateSwitch c o i 0 (hgoes.unfreed h)
  rw [hgoes.lost h, hslot] at hsound
  exact hsound

/-- Classical CAN, in the default configuration. -/
def wholeMessages : RecvConfig where
  toIsoTpConfig := classicalCan
  perFrameDispatch := false
  blockingReceive := false

/-- A context that is created in a block that was zeroed. -/
def zeroedRecvSlot : RecvSlot Unit where
  rxAddr := ()
  timer := false
  recvQueue := []
  pending := false
  pendingCb := 0
  orphaned := false
  allocated := true
  declared := 0
  dispatched := 0

/-- No frame is queued. A context that is to send a clear-to-send frame is freed and its timer started;
one that is to report an overflow is freed twice. -/
theorem zeroed_freed :
    (({ zeroedRecvSlot with state := .sendFc }.receiveStateMachine wholeMessages
        (fun _ => .failed true) () []).after = [.startTimer, .read, .write]) ∧
      ({ zeroedRecvSlot with state := .err, error := .bufferOverflw }.receiveStateMachine wholeMessages
        (fun _ => .failed true) () []).frees = 2 := by
  decide +kernel

end ThingSet.IsoTp
