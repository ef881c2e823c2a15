import ThingSet.IsoTp.Outstanding

/-!
# Readers, and the end of a run

A run of `receive_state_machine` notifies the first reader that matches the sender, and that reader then
has the context, whichever one it had. At the end of a run the timer of the context runs, or the
message is finished, and then the context is freed unless it is marked as pending.

* `tends_receiveStateMachine`: what a run does to the readers.
* `waits_receiveStateMachine`, `finished_receiveStateMachine`: how a run ends.
-/

namespace ThingSet.IsoTp

variable {ι A : Type} {c : RecvConfig} {o : ℕ → CanSend} {i : ι} {again : RecvRun ι A → RecvRun ι A}
  {r r₁ : RecvRun ι A} {fuel : ℕ} {P : ι → Prop}

/-! ## Readers -/

/-- A reader has the context. -/
def Holds (as : List (Awaiter ι A)) (j : ι) : Prop := ∃ a ∈ as, a.rctx = some j

/-- The reader that is notified for a sender does not have one of the contexts. -/
def Spares (P : ι → Prop) (addr : A) (as : List (Awaiter ι A)) : Prop :=
  ∀ a ∈ as.find? (·.sender addr), ∀ j ∈ a.rctx, ¬ P j

/-- A waiting reader matches the sender of the context. -/
def RecvSlot.Matched (c : RecvConfig) (s : RecvSlot A) (awaiters : List (Awaiter ι A)) : Prop :=
  c.blockingReceive = true ∧ s.orphaned = false ∧ ∃ a ∈ awaiters, a.sender s.rxAddr = true

theorem holds_notifyFirst {addr : A} {as as' : List (Awaiter ι A)} {sem : Bool}
    (h : notifyFirst i addr as = some (as', sem)) : Holds as' i := by
  induction as generalizing as' with
  | nil => cases h
  | cons a as ih =>
    rw [notifyFirst] at h
    split at h
    · obtain ⟨rfl, -⟩ := Prod.mk.inj (Option.some.inj h)
      exact ⟨_, List.mem_cons_self, rfl⟩
    · obtain ⟨⟨as₁, sem₁⟩, h₁, heq⟩ := Option.map_eq_some_iff.1 h
      obtain ⟨rfl, rfl⟩ := Prod.mk.inj heq
      obtain ⟨b, hb, hrctx⟩ := ih h₁
      exact ⟨b, List.mem_cons_of_mem a hb, hrctx⟩

/-- The reader is spared again, and the other readers keep what they have. -/
theorem spares_notifyFirst {addr : A} {as as' : List (Awaiter ι A)} {sem : Bool} (hi : ¬ P i)
    (h : notifyFirst i addr as = some (as', sem)) (hs : Spares P addr as) :
    Spares P addr as' ∧ ∀ j, P j → Holds as j → Holds as' j := by
  induction as generalizing as' with
  | nil => cases h
  | cons a as ih =>
    rw [notifyFirst] at h
    split at h
    · rename_i hsender
      obtain ⟨rfl, -⟩ := Prod.mk.inj (Option.some.inj h)
      have hfind : (a :: as).find? (·.sender addr) = some a := List.find?_cons_of_pos hsender
      refine ⟨?_, ?_⟩
      · intro b hb j hj
        have hfind' : ({ a with sem := true, rctx := some i } :: as).find? (·.sender addr) =
            some { a with sem := true, rctx := some i } := List.find?_cons_of_pos hsender
        rw [hfind'] at hb
        obtain rfl := Option.some.inj hb
        obtain rfl := Option.some.inj hj
        exact hi
      · rintro j hj ⟨b, hb, hrctx⟩
        rcases List.mem_cons.1 hb with rfl | hb
        · exact absurd hj (hs b hfind j hrctx)
        · exact ⟨b, List.mem_cons_of_mem _ hb, hrctx⟩
    · rename_i hsender
      obtain ⟨⟨as₁, sem₁⟩, h₁, heq⟩ := Option.map_eq_some_iff.1 h
      obtain ⟨rfl, rfl⟩ := Prod.mk.inj heq
      have hfind : ∀ l : List (Awaiter ι A),
          (a :: l).find? (·.sender addr) = l.find? (·.sender addr) :=
        fun l => List.find?_cons_of_neg hsender
      rw [Spares, hfind] at hs
      obtain ⟨hspares, hholds⟩ := ih h₁ hs
      refine ⟨?_, ?_⟩
      · rw [Spares, hfind]
        exact hspares
      · rintro j hj ⟨b, hb, hrctx⟩
        rcases List.mem_cons.1 hb with rfl | hb
        · exact ⟨b, List.mem_cons_self, hrctx⟩
        · obtain ⟨b', hb', hrctx'⟩ := hholds j hj ⟨b, hb, hrctx⟩
          exact ⟨b', List.mem_cons_of_mem _ hb', hrctx'⟩

namespace RecvRun

/-- What a run does to the readers: they stay, and the one that it notifies gets the context. The contexts
of the others are `P`. -/
structure Tends (c : RecvConfig) (i : ι) (P : ι → Prop) (r r' : RecvRun ι A) : Prop where
  rxAddr : r'.slot.rxAddr = r.slot.rxAddr
  orphaned : r'.slot.orphaned = r.slot.orphaned
  sender : r'.awaiters.map (·.sender) = r.awaiters.map (·.sender)
  pending : r'.slot.pending = true → r.slot.pending = true ∨ r.slot.Matched c r.awaiters
  allocated : r'.slot.allocated = true → r.slot.allocated = true
  spares : (r.slot.Matched c r.awaiters → Spares P r.slot.rxAddr r.awaiters) →
    (r.slot.Matched c r.awaiters → Spares P r.slot.rxAddr r'.awaiters) ∧
      ∀ j, P j → Holds r.awaiters j → Holds r'.awaiters j
  holds : Holds r.awaiters i → Holds r'.awaiters i

theorem Tends.matched {r' : RecvRun ι A} (h : Tends c i P r r') :
    r'.slot.Matched c r'.awaiters ↔ r.slot.Matched c r.awaiters := by
  rw [RecvSlot.Matched, RecvSlot.Matched, h.rxAddr, h.orphaned, exists_sender_iff h.sender]

theorem rule_tends (hi : ¬ P i) : Rule (A := A) c i (Tends c i P) where
  trans r r₁ r₂ h h' := by
    refine ⟨h'.rxAddr.trans h.rxAddr, h'.orphaned.trans h.orphaned, h'.sender.trans h.sender, ?_,
      fun hallocated => h.allocated (h'.allocated hallocated), ?_, fun hholds => h'.holds (h.holds hholds)⟩
    · intro hpending
      rcases h'.pending hpending with hpending | hmatched
      · exact h.pending hpending
      · exact .inr (h.matched.1 hmatched)
    · intro hspares
      obtain ⟨hspares₁, hholds₁⟩ := h.spares hspares
      have hspared : r₁.slot.Matched c r₁.awaiters → Spares P r₁.slot.rxAddr r₁.awaiters := by
        intro hmatched
        rw [h.rxAddr]
        exact hspares₁ (h.matched.1 hmatched)
      obtain ⟨hspares₂, hholds₂⟩ := h'.spares hspared
      rw [h.rxAddr, h.matched] at hspares₂
      exact ⟨hspares₂, fun j hj hholds => hholds₂ j hj (hholds₁ j hj hholds)⟩
  alike r r' h := by
    refine ⟨h.rxAddr, h.orphaned, by rw [h.awaiters], ?_, ?_, ?_, ?_⟩
    · rw [h.pending]
      exact .inl
    · rw [h.allocated]
      exact id
    · rw [h.awaiters]
      exact fun hspares => ⟨hspares, fun _ _ => id⟩
    · rw [h.awaiters]
      exact id
  free r := by
    refine ⟨?_, ?_, ?_, ?_, ?_, ?_, ?_⟩ <;> simp [free, RecvSlot.free]
    exact .inl
  notify r := by
    rw [notifyWaitingReceiver]
    split
    · rename_i hblocking
      cases hfirst : notifyFirst i r.slot.rxAddr r.awaiters with
      | none => refine ⟨?_, ?_, ?_, ?_, ?_, ?_, ?_⟩ <;> simp +contextual
      | some p =>
        obtain ⟨hsender, hmatch⟩ := notifyFirst_sender hfirst
        have hmatched : r.slot.Matched c r.awaiters := ⟨hblocking.1, by simpa using hblocking.2, hmatch⟩
        refine ⟨rfl, rfl, hsender, fun _ => .inr hmatched, fun hallocated => ?_, fun hspares => ?_,
          fun _ => holds_notifyFirst hfirst⟩
        · simpa [modify] using hallocated
        · obtain ⟨hspares', hholds⟩ := spares_notifyFirst hi hfirst (hspares hmatched)
          exact ⟨fun _ => hspares', hholds⟩
    · exact ⟨rfl, rfl, rfl, .inl, id, fun hspares => ⟨hspares, fun _ _ => id⟩, id⟩
  queued r := ⟨rfl, rfl, rfl, .inl, id, fun hspares => ⟨hspares, fun _ _ => id⟩, id⟩

/-- The reader that matches has the context afterwards. -/
theorem holds_notify (h : r.slot.Matched c r.awaiters) :
    Holds (r.notifyWaitingReceiver c i).awaiters i := by
  obtain ⟨hblocking, horphaned, a, ha, hsender⟩ := h
  rw [notifyWaitingReceiver, if_pos ⟨hblocking, by simp [horphaned]⟩]
  cases hfirst : notifyFirst i r.slot.rxAddr r.awaiters with
  | none => exact absurd (hsender.symm.trans (notifyFirst_eq_none.1 hfirst a ha)) (by decide)
  | some p => exact holds_notifyFirst hfirst

/-! ## The end of a run -/

/-- The timer of the context runs until something else comes. -/
structure Waits (r : RecvRun ι A) : Prop where
  timer : r.slot.timer = true
  state : r.slot.state = .waitCf ∨ r.slot.state = .tryAlloc

/-- The message is finished. A context that stays allocated is pending, and a reader that matches has it. -/
structure Finished (c : RecvConfig) (i : ι) (r r' : RecvRun ι A) : Prop where
  state : r'.slot.state = .unbound
  pending : r'.slot.allocated = true → c.receiveQueue = true ∧ r'.slot.pending = true
  holds : r.slot.Matched c r.awaiters → Holds r'.awaiters i

theorem Tends.finished {r₂ : RecvRun ι A} (h : Tends c i P r r₁) (h' : Finished c i r₁ r₂) :
    Finished c i r r₂ :=
  ⟨h'.state, h'.pending, fun hmatched => h'.holds (h.matched.2 hmatched)⟩

theorem finished_freeIfUnowned (hstate : r₁.slot.state = .unbound)
    (hholds : r.slot.Matched c r.awaiters → Holds r₁.awaiters i) :
    Finished c i r (r₁.freeIfUnowned c) := by
  rw [freeIfUnowned]
  split
  · rename_i howned
    refine ⟨?_, ?_, ?_⟩ <;> simp only [touch_fields]
    · exact hstate
    · exact fun _ => howned
    · exact hholds
  · refine ⟨?_, ?_, ?_⟩ <;> simp only [free, RecvSlot.free, touch_fields]
    · exact hstate
    · exact fun hfalse => absurd hfalse (by decide)
    · exact hholds

theorem finished_recycle (r : RecvRun ι A) : Finished c i r (r.recycle c i) := by
  apply finished_freeIfUnowned rfl
  intro hmatched
  have hawaiters : ∀ (r : RecvRun ι A) f, (r.modify f).awaiters = r.awaiters := by
    intro r f
    simp [modify]
  rw [hawaiters]
  apply holds_notify
  split
  · exact hmatched
  · simpa using hmatched

theorem finished_stateErr (hagain : ∀ r, Tends c i (fun _ => False) r (again r)) (r : RecvRun ι A) :
    Finished c i r (r.stateErr c o i again) := by
  have hrule : Rule (A := A) c i (Tends c i fun _ => False) := rule_tends not_false
  apply finished_freeIfUnowned rfl
  intro hmatched
  have herr : Tends c i (fun _ => False) r
      (r.modify fun s => { s with timer := false }).recvErrorCallback := by
    apply hrule.recvErrorCallback
    exact hrule.modify (hrule.refl r) ⟨rfl, rfl, rfl, rfl, rfl⟩
  have hnotified := holds_notify (i := i) (herr.matched.2 hmatched)
  have hawaiters : ∀ (r : RecvRun ι A) f, (r.modify f).awaiters = r.awaiters := by
    intro r f
    simp [modify]
  rw [hawaiters]
  split
  · exact (hrule.receiveSendFc hagain (hrule.refl _) fsOvflw).holds hnotified
  · exact hnotified

/-- What comes before the state is looked at. -/
theorem tends_start (r : RecvRun ι A) :
    Tends c i (fun _ => False) r ((r.dispatchQueue c).touch [.read]) := by
  have hrule : Rule (A := A) c i (Tends c i fun _ => False) := rule_tends not_false
  exact hrule.touch (hrule.dispatchQueue (hrule.refl r)) _

theorem finished_stateMachine_recycle (hstate : r.slot.state = .recycle) :
    Finished c i r (stateMachine c o i (fuel + 1) r) := by
  rw [stateMachine]
  simp only [stateSwitch, start_state, hstate]
  exact (tends_start r).finished (finished_recycle _)

theorem finished_stateMachine_err (hstate : r.slot.state = .err) :
    Finished c i r (stateMachine c o i (fuel + 1) r) := by
  rw [stateMachine]
  simp only [stateSwitch, start_state, hstate]
  exact (tends_start r).finished
    (finished_stateErr ((rule_tends not_false).stateMachine o fuel) _)

end RecvRun

/-- The run is the last one of the message, whatever becomes of what it sends. -/
def RecvSlot.Finishes (c : RecvConfig) (s : RecvSlot A) : Prop :=
  s.state = .processSf ∨ s.state = .recycle ∨ s.state = .err ∨ s.Overflows c

namespace RecvRun

/-- The last run of a message. -/
theorem finished_stateSwitch (hfinishes : r.slot.Finishes c) :
    Finished c i r (r.stateSwitch c o i (stateMachine c o i (fuel + 1))) := by
  have hrule : Rule (A := A) c i (Tends c i fun _ => False) := rule_tends not_false
  have hagain := hrule.stateMachine o (fuel + 1)
  rw [stateSwitch]
  rcases hfinishes with hstate | hstate | hstate | ⟨hstate, hoverflow⟩ | ⟨hstate, hwft⟩ | ⟨hstate, -⟩ <;>
    simp only [hstate]
  · have htends : Tends c i (fun _ => False) r ((r.modify fun s =>
        { s with remLen := 0, state := .recycle }).notifyWaitingReceiver c i) := by
      apply hrule.notifyWaitingReceiver
      exact hrule.modify (hrule.refl r) ⟨rfl, rfl, rfl, rfl, rfl⟩
    exact htends.finished (finished_stateMachine_recycle (notify_slot _).1)
  · exact finished_recycle r
  · exact finished_stateErr hagain r
  · rw [if_pos hoverflow]
    have htends : Tends c i (fun _ => False) r (r.modify fun s => s.reportError .bufferOverflw) :=
      hrule.modify (hrule.refl r) ⟨rfl, rfl, rfl, rfl, rfl⟩
    exact htends.finished (finished_stateMachine_err rfl)
  · have hslot : (r.modify fun s => { s with wft := s.wft + 1 }).slot.wft = r.slot.wft + 1 := rfl
    rw [hslot, if_neg hwft]
    have hwait : Tends c i (fun _ => False) r (r.modify fun s => { s with wft := s.wft + 1 }) :=
      hrule.modify (hrule.refl r) ⟨rfl, rfl, rfl, rfl, rfl⟩
    have htends : Tends c i (fun _ => False) r ((r.modify fun s => { s with wft := s.wft + 1 }).modify
        fun s => s.reportError .bufferOverflw) := hrule.modify hwait ⟨rfl, rfl, rfl, rfl, rfl⟩
    exact htends.finished (finished_stateErr hagain _)
  · exact finished_stateErr hagain r

/-- A run that sends a flow control frame and waits for the next frame. -/
theorem waits_stateSwitch (hstate : r.slot.state = .processFf ∨ r.slot.state = .tryAlloc ∨
    r.slot.state = .sendFc ∨ r.slot.state = .sendWait) (hoverflows : ¬ r.slot.Overflows c) :
    Waits (r.stateSwitch c o i again) := by
  rw [stateSwitch]
  rcases hstate with hstate | hstate | hstate | hstate <;> simp only [hstate]
  · have hfits : ¬ (r.slot.optsBs c = 0 ∧
        r.slot.remLen > c.rxMaxPacketCount * (canMaxDlen c.toIsoTpConfig - 1)) :=
      fun hoverflow => hoverflows (.inl ⟨hstate, hoverflow⟩)
    rw [if_neg hfits]
    exact ⟨rfl, .inl rfl⟩
  · exact ⟨rfl, .inl rfl⟩
  · exact ⟨rfl, .inl rfl⟩
  · have hwft : (r.slot.wft + 1).toNat < c.wftMax :=
      not_not.1 fun hwft => hoverflows (.inr (.inl ⟨hstate, hwft⟩))
    have hslot : (r.modify fun s => { s with wft := s.wft + 1 }).slot.wft = r.slot.wft + 1 := rfl
    rw [hslot, if_pos hwft]
    exact ⟨rfl, .inr rfl⟩

/-- A run that notifies no reader. -/
theorem awaiters_stateSwitch (hstate : r.slot.state = .sendFc ∨ r.slot.state = .sendWait)
    (hcloses : ¬ r.slot.Closes c (o r.sends)) :
    (r.stateSwitch c o i again).awaiters = r.awaiters := by
  have hsends : r.slot.Sends := by
    rcases hstate with hstate | hstate <;> simp [RecvSlot.Sends, hstate]
  have hsent : ∀ (r' : RecvRun ι A) fs, r'.sends = r.sends → r'.awaiters = r.awaiters →
      (r'.receiveSendFc c o again fs).awaiters = r.awaiters := by
    intro r' fs hnumber hawaiters
    rw [receiveSendFc, hnumber]
    cases ho : o r.sends with
    | queued => simp [modify, hawaiters]
    | completed error => simp [modify, hawaiters]
    | failed eagain => exact absurd (.inr (.inr (.inr (.inr ⟨hsends, eagain, ho⟩)))) hcloses
  rw [stateSwitch]
  rcases hstate with hstate | hstate <;> simp only [hstate]
  · simp [sendCts, startTimer, modify, hsent r fsCts rfl rfl]
  · have hwft : (r.slot.wft + 1).toNat < c.wftMax :=
      not_not.1 fun hwft => hcloses (.inr (.inr (.inr (.inl (.inr (.inl ⟨hstate, hwft⟩))))))
    have hslot : (r.modify fun s => { s with wft := s.wft + 1 }).slot.wft = r.slot.wft + 1 := rfl
    rw [hslot, if_pos hwft]
    have hsame := hsent (r.modify fun s => { s with wft := s.wft + 1 }) fsWait (by simp)
      (by simp [modify])
    simpa [startTimer, modify] using hsame

/-- A run that does nothing. -/
theorem stateSwitch_idle (hstate : r.slot.state = .waitFfSf ∨ r.slot.state = .waitCf ∨
    r.slot.state = .unbound) : r.stateSwitch c o i again = r := by
  rw [stateSwitch]
  rcases hstate with hstate | hstate | hstate <;> simp only [hstate]

end RecvRun

/-- The run notifies a reader, if one matches. -/
def RecvSlot.Notifies (c : RecvConfig) (o : CanSend) (s : RecvSlot A) : Prop :=
  s.Closes c o ∨ s.state = .processFf ∨ s.state = .tryAlloc

/-! ## Runs of the state machine -/

section Run

variable (c : RecvConfig) (o : ℕ → CanSend) (i : ι) (s : RecvSlot A) (awaiters : List (Awaiter ι A))

/-- What a run does to the readers, and whom it marks as pending. -/
theorem tends_receiveStateMachine (hi : ¬ P i) :
    RecvRun.Tends c i P { slot := s, awaiters := awaiters } (s.receiveStateMachine c o i awaiters) :=
  (RecvRun.rule_tends hi).stateMachine o 3 _

theorem waits_receiveStateMachine (hstate : s.state = .processFf ∨ s.state = .tryAlloc ∨
    s.state = .sendFc ∨ s.state = .sendWait) (hoverflows : ¬ s.Overflows c) :
    (s.receiveStateMachine c o i awaiters).Waits := by
  obtain ⟨queue, dispatched, hslot⟩ := start_slot_fields c s awaiters
  apply RecvRun.waits_stateSwitch
  · rw [hslot]
    exact hstate
  · rw [hslot]
    exact hoverflows

theorem finished_receiveStateMachine (hfinishes : s.Finishes c) :
    RecvRun.Finished c i { slot := s, awaiters := awaiters } (s.receiveStateMachine c o i awaiters) := by
  obtain ⟨queue, dispatched, hslot⟩ := start_slot_fields c s awaiters
  have hstart := RecvRun.tends_start (c := c) (i := i)
    ({ slot := s, awaiters := awaiters } : RecvRun ι A)
  refine hstart.finished (RecvRun.finished_stateSwitch ?_)
  rw [hslot]
  exact hfinishes

theorem idle_receiveStateMachine (hstate : s.state = .waitFfSf ∨ s.state = .waitCf ∨
    s.state = .unbound) :
    (s.receiveStateMachine c o i awaiters).slot.timer = s.timer ∧
      (s.receiveStateMachine c o i awaiters).slot.state = s.state ∧
      (s.receiveStateMachine c o i awaiters).awaiters = awaiters := by
  obtain ⟨queue, dispatched, hslot⟩ := start_slot_fields c s awaiters
  have hidle : s.receiveStateMachine c o i awaiters =
      (RecvRun.dispatchQueue c { slot := s, awaiters := awaiters }).touch [.read] :=
    RecvRun.stateSwitch_idle (by rw [hslot]; exact hstate)
  rw [hidle, hslot]
  refine ⟨rfl, rfl, ?_⟩
  rw [(RecvRun.touch_fields _ _).2.1, RecvRun.dispatchQueue]
  split
  · simp [RecvRun.modify]
  · rfl

theorem awaiters_receiveStateMachine (h : ¬ s.Notifies c (o 0)) :
    (s.receiveStateMachine c o i awaiters).awaiters = awaiters := by
  by_cases hsends : s.state = .sendFc ∨ s.state = .sendWait
  · obtain ⟨queue, dispatched, hslot⟩ := start_slot_fields c s awaiters
    have hgoes := RecvRun.goes_start (c := c) ({ slot := s, awaiters := awaiters } : RecvRun ι A)
    refine (RecvRun.awaiters_stateSwitch ?_ ?_).trans ?_
    · rw [hslot]
      exact hsends
    · rw [hgoes.sends ⟨rfl, rfl⟩, hslot]
      exact fun hcloses => h (.inl hcloses)
    · rw [(RecvRun.touch_fields _ _).2.1, RecvRun.dispatchQueue]
      split
      · simp [RecvRun.modify]
      · rfl
  · refine (idle_receiveStateMachine c o i s awaiters ?_).2.2
    cases hstate : s.state with
    | waitFfSf => exact .inl rfl
    | waitCf => exact .inr (.inl rfl)
    | unbound => exact .inr (.inr rfl)
    | processSf => exact absurd (.inl (.inl hstate)) h
    | recycle => exact absurd (.inl (.inr (.inl hstate))) h
    | err => exact absurd (.inl (.inr (.inr (.inl hstate)))) h
    | processFf => exact absurd (.inr (.inl hstate)) h
    | tryAlloc => exact absurd (.inr (.inr hstate)) h
    | sendFc => exact absurd (.inl hstate) hsends
    | sendWait => exact absurd (.inr hstate) hsends

end Run

end ThingSet.IsoTp
