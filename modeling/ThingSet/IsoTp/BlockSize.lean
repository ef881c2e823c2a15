import ThingSet.IsoTp.Backlog

/-!
# The block size

A clear-to-send frame announces how many consecutive frames may be sent before the next one, 0 for as many as there
are. A send context loads its counter, of eight bits, with the announced size, but it looks at the counter only if the
size that is configured locally is not 0.

* `Block.Obeys`: no more frames are sent than were announced, and the context waits for a clear-to-send frame only when
  exactly these have been sent.
* `obeys_of_fits`: this holds in runs where each announced size is 0 exactly if the local one is, or the rest of the
  message fits into the announced block, of 256 frames for 0.
-/

namespace ThingSet.IsoTp

open Transition

variable {A β : Type} {c : IsoTpConfig}

/-- The consecutive frames that an event sends. -/
def Transfer.consecutive (c : IsoTpConfig) (T : Transfer A β) : TransferEvent → List CanFrame
  | .work stale o => if T.slot.state = .sendFf then [] else (T.slot.workHandler c stale o).frame.toList
  | .semTaken stale o => (T.slot.semTaken c stale o).frame.toList
  | _ => []

/-- A transfer, the size that the last clear-to-send frame announced, and how many consecutive frames have been sent
since. -/
structure Block (A β : Type) where
  transfer : Transfer A β
  announced : UInt8 := 0
  sent : ℕ := 0

namespace Block

/-- The transfer takes a clear-to-send frame. -/
def TakesCts (B : Block A β) (f : CanFrame) : Prop := B.transfer.slot.state = .waitFc ∧ isCts f = true

instance (B : Block A β) (f : CanFrame) : Decidable (B.TakesCts f) := inferInstanceAs (Decidable (_ ∧ _))

/-- The transfer after an event, if it can happen. -/
def step (c : IsoTpConfig) (B : Block A β) (e : TransferEvent) : Option (Block A β) :=
  (B.transfer.step c e).map fun T =>
    match e with
    | .flowControl f => if B.TakesCts f then ⟨T, f.byte 1, 0⟩ else { B with transfer := T }
    | e => { B with transfer := T, sent := B.sent + (B.transfer.consecutive c e).length }

/-- The block size is obeyed. -/
structure Obeys (B : Block A β) : Prop where
  bound : B.announced ≠ 0 → B.sent ≤ B.announced.toNat
  waits : B.transfer.slot.state = .waitFc → 0 < B.transfer.cts → B.announced ≠ 0 ∧ B.sent = B.announced.toNat

/-- The number of frames after which the counter is zero. -/
def limit (announced : UInt8) : ℕ := if announced = 0 then 256 else announced.toNat

/-- The condition on an event: a clear-to-send frame that is taken announces 0 exactly if the local size is 0, or the
rest of the message fits into the block. -/
def Fits (c : IsoTpConfig) (B : Block A β) : TransferEvent → Prop
  | .flowControl f => B.TakesCts f →
    (f.byte 1 = 0 ↔ c.bs = 0) ∨ B.transfer.slot.remLen ≤ limit (f.byte 1) * (canMaxDlen c - 1)
  | _ => True

instance (B : Block A β) : DecidablePred (B.Fits c)
  | .flowControl f => inferInstanceAs (Decidable (B.TakesCts f → _ ∨ _))
  | .work _ _ => isTrue trivial
  | .semTaken _ _ => isTrue trivial
  | .completed _ => isTrue trivial
  | .timer => isTrue trivial

/-! ## The invariant -/

/-- Frames of the block are to come. -/
def GoesOn (s : SendCtx) : Prop := s.state = .sendCf ∨ s.state = .waitSt ∨ s.state = .err ∧ s.taking = true

/-- What is left of the message belongs to the block. -/
def Room (c : IsoTpConfig) (remLen : ℕ) (announced : UInt8) (sent : ℕ) : Prop :=
  (announced = 0 ↔ c.bs = 0) ∧ (announced ≠ 0 → sent < announced.toNat) ∨
    sent < limit announced ∧ remLen ≤ (limit announced - sent) * (canMaxDlen c - 1)

/-- The counter has what is left of the block. -/
structure Counts (c : IsoTpConfig) (s : SendSlot A β) (cts : ℕ) (announced : UInt8) (sent : ℕ) : Prop where
  orphaned : s.orphaned = false
  taking : s.taking = true → s.state = .sendCf ∨ s.state = .err
  sendFf : s.state = .sendFf → canMaxDlen c - 2 < s.remLen ∧ s.remLen ≤ 4095 ∧ cts = 0
  waitFc : s.state = .waitFc → 0 < s.remLen ∧ (0 < cts → announced ≠ 0 ∧ sent = announced.toNat)
  goesOn : GoesOn s.toSendCtx →
    0 < cts ∧ 0 < s.remLen ∧ s.bs = announced - UInt8.ofNat sent ∧ Room c s.remLen announced sent
  bound : announced ≠ 0 → sent ≤ announced.toNat

variable {s : SendSlot A β} {cts sent : ℕ} {announced : UInt8} {stale : Bytes} {o : CanSend}

theorem limit_le (announced : UInt8) : limit announced ≤ 256 := by
  unfold limit
  split
  · exact Nat.le_refl 256
  · exact Nat.le_of_lt announced.toNat_lt

theorem limit_of_ne (h : announced ≠ 0) : limit announced = announced.toNat := if_neg h

/-- One frame more of the block. -/
theorem counter_succ : announced - UInt8.ofNat sent - 1 = announced - UInt8.ofNat (sent + 1) := by
  rw [← UInt8.toNat_inj]
  simp only [UInt8.toNat_sub, UInt8.toNat_ofNat', UInt8.reduceToNat]
  omega

/-- The counter is zero at the end of the block. -/
theorem counter_eq_zero : announced - UInt8.ofNat sent = 0 ↔ announced.toNat = sent % 256 := by
  have hlt := announced.toNat_lt
  rw [← UInt8.toNat_inj]
  simp only [UInt8.toNat_sub, UInt8.toNat_ofNat', UInt8.reduceToNat]
  omega

/-- As long as something is left of the message, fewer frames have been sent than were announced. -/
theorem Room.sent_lt {remLen : ℕ} (h : Room c remLen announced sent) (hne : announced ≠ 0) : sent < announced.toNat := by
  rcases h with ⟨-, h⟩ | ⟨h, -⟩
  · exact h hne
  · rwa [limit_of_ne hne] at h

/-- What a frame that is not the last one leaves of the block: room for more, or nothing of a block that counts. -/
theorem Room.after {remLen : ℕ} (h : Room c remLen announced sent) (hlong : canMaxDlen c - 1 < remLen) :
    Room c (remLen - (canMaxDlen c - 1)) announced (sent + 1) ∨
      (c.bs ≠ 0 ∧ announced ≠ 0 ∧ sent + 1 = announced.toNat) := by
  rcases h with ⟨hiff, hsent⟩ | ⟨hsent, hrem⟩
  · by_cases hend : announced ≠ 0 ∧ sent + 1 = announced.toNat
    · exact .inr ⟨fun hbs => hend.1 (hiff.2 hbs), hend⟩
    · refine .inl (.inl ⟨hiff, fun hne => ?_⟩)
      have hlt := hsent hne
      have hnot : sent + 1 ≠ announced.toNat := fun heq => hend ⟨hne, heq⟩
      omega
  · -- what is left takes more than one frame, so that the block has more than one to come
    have hmore : 1 < limit announced - sent := by
      by_contra hle
      have : (limit announced - sent) * (canMaxDlen c - 1) ≤ 1 * (canMaxDlen c - 1) :=
        Nat.mul_le_mul_right _ (Nat.not_lt.1 hle)
      omega
    refine .inl (.inr ⟨by omega, ?_⟩)
    have hsplit : (limit announced - sent) * (canMaxDlen c - 1) =
        (limit announced - (sent + 1)) * (canMaxDlen c - 1) + (canMaxDlen c - 1) := by
      rw [← Nat.succ_mul]
      congr 1
      omega
    omega

/-- As long as the block has room, its counter is not zero, or the local size is. -/
theorem Room.counter {remLen : ℕ} (h : Room c remLen announced sent) (hpos : 0 < sent) (hbs : c.bs ≠ 0) :
    announced - UInt8.ofNat sent ≠ 0 := by
  intro hzero
  have hmod := counter_eq_zero.1 hzero
  have hlt := announced.toNat_lt
  rcases h with ⟨hiff, hsent⟩ | ⟨hsent, -⟩
  · have := hsent fun hann => hbs (hiff.1 hann)
    omega
  · have hle := limit_le announced
    by_cases hann : announced = 0
    · subst hann
      have : (0 : UInt8).toNat = 0 := rfl
      omega
    · rw [limit_of_ne hann] at hsent
      omega

/-- A context that is not in the loop sends no more of the block. -/
theorem counts_rest (horphaned : s.orphaned = false) (htaking : s.taking = false) (hff : s.state ≠ .sendFf)
    (hcf : s.state ≠ .sendCf) (hst : s.state ≠ .waitSt)
    (hwait : s.state = .waitFc → 0 < s.remLen ∧ (0 < cts → announced ≠ 0 ∧ sent = announced.toNat))
    (hbound : announced ≠ 0 → sent ≤ announced.toNat) : Counts c s cts announced sent where
  orphaned := horphaned
  taking h := absurd (htaking.symm.trans h) (by decide)
  sendFf h := absurd h hff
  waitFc := hwait
  goesOn := by
    rintro (h | h | ⟨-, h⟩)
    · exact absurd h hcf
    · exact absurd h hst
    · exact absurd (htaking.symm.trans h) (by decide)
  bound := hbound

/-- Where the loop goes after a frame of the block. -/
theorem counts_afterCf (horphaned : s.orphaned = false) (htaking : s.taking = false)
    (hstate : s.state = .sendCf ∨ s.state = .err) (hcts : 0 < cts)
    (hbs : s.bs = announced - UInt8.ofNat (sent + 1)) (hbound : announced ≠ 0 → sent + 1 ≤ announced.toNat)
    (hroom : s.remLen ≠ 0 → Room c s.remLen announced (sent + 1) ∨
      (c.bs ≠ 0 ∧ announced ≠ 0 ∧ sent + 1 = announced.toNat)) :
    Counts c (s.afterCf c) cts announced (sent + 1) := by
  have hopts : s.optsBs c = c.bs := by simp [SendSlot.optsBs, horphaned]
  unfold SendSlot.afterCf
  rw [hopts]
  split
  · exact counts_rest horphaned htaking (by rintro ⟨⟩) (by rintro ⟨⟩) (by rintro ⟨⟩) (by rintro ⟨⟩) hbound
  rename_i hrem
  split
  · -- the block is complete
    rename_i hzero
    refine counts_rest horphaned htaking (by rintro ⟨⟩) (by rintro ⟨⟩) (by rintro ⟨⟩)
      (fun _ => ⟨Nat.pos_of_ne_zero hrem, fun _ => ?_⟩) hbound
    rcases hroom hrem with h | ⟨-, h⟩
    · exact absurd (hbs.symm.trans hzero.2) (h.counter (Nat.succ_pos sent) hzero.1)
    · exact h
  rename_i hnot
  have hgoes : Room c s.remLen announced (sent + 1) := by
    rcases hroom hrem with h | ⟨hlocal, hann, heq⟩
    · exact h
    · refine absurd ⟨hlocal, ?_⟩ hnot
      rw [hbs, counter_eq_zero]
      have := announced.toNat_lt
      omega
  split
  · exact ⟨horphaned, fun h => absurd (htaking.symm.trans h) (by decide), by rintro ⟨⟩, by rintro ⟨⟩,
      fun _ => ⟨hcts, Nat.pos_of_ne_zero hrem, hbs, hgoes⟩, hbound⟩
  · exact ⟨horphaned, fun _ => hstate,
      fun h => absurd (show s.state = .sendFf from h) (by rcases hstate with h | h <;> simp [h]),
      fun h => absurd (show s.state = .waitFc from h) (by rcases hstate with h | h <;> simp [h]),
      fun _ => ⟨hcts, Nat.pos_of_ne_zero hrem, hbs, hgoes⟩, hbound⟩

/-- A round of the loop sends one frame of the block, or it fails. -/
theorem counts_sendCfRound (c : IsoTpConfig) (stale : Bytes) (o : CanSend) (horphaned : s.orphaned = false)
    (htaking : s.taking = false) (hstate : s.state = .sendCf ∨ s.state = .err) (hcts : 0 < cts)
    (hrem : 0 < s.remLen) (hbs : s.bs = announced - UInt8.ofNat sent)
    (hroom : Room c s.remLen announced sent) (hbound : announced ≠ 0 → sent ≤ announced.toNat) :
    Counts c (s.sendCfRound c stale o).slot cts announced
      (sent + (s.sendCfRound c stale o).frame.toList.length) := by
  have hne : s.state ≠ .waitBacklog := by rcases hstate with h | h <;> simp [h]
  have hbs' : s.bs - 1 = announced - UInt8.ofNat (sent + 1) := by rw [hbs, counter_succ]
  have hbound' : announced ≠ 0 → sent + 1 ≤ announced.toNat := hroom.sent_lt
  have hroom' : s.remLen - min s.remLen (canMaxDlen c - 1) ≠ 0 →
      Room c (s.remLen - min s.remLen (canMaxDlen c - 1)) announced (sent + 1) ∨
        (c.bs ≠ 0 ∧ announced ≠ 0 ∧ sent + 1 = announced.toNat) := by
    intro hleft
    rw [min_eq_right (by omega)]
    exact hroom.after (by omega)
  rcases SendSlot.sendCfRound_cases c stale o hne with ⟨-, h⟩ | ⟨error, -, h⟩ | ⟨eagain, -, h⟩ <;> rw [h]
  · exact counts_afterCf horphaned htaking hstate hcts hbs' hbound' hroom'
  · exact counts_afterCf horphaned htaking hstate hcts hbs' hbound' hroom'
  · exact counts_rest horphaned htaking (by rintro ⟨⟩) (by rintro ⟨⟩) (by rintro ⟨⟩) (by rintro ⟨⟩) hbound

/-- The work item runs. -/
theorem counts_workHandler (h : Counts c s cts announced sent) (htaking : s.taking = false) :
    Counts c (s.workHandler c stale o).slot cts announced
      (sent + if s.state = .sendFf then 0 else (s.workHandler c stale o).frame.toList.length) := by
  by_cases hff : s.state = .sendFf
  · -- the first frame belongs to no block
    obtain ⟨hlong, hlen, hcts⟩ := h.sendFf hff
    have hheader : (s.toSendCtx.ff c stale).2.remLen = s.remLen - min (canMaxDlen c - 2) s.remLen := by
      have hshort : ¬ s.remLen > 0xFFF := by omega
      simp only [SendCtx.ff, SendCtx.advance, hshort, if_false, List.length_cons, List.length_nil]
    rw [if_pos hff, Nat.add_zero]
    have hwait : 0 < (s.toSendCtx.ff c stale).2.remLen ∧
        (0 < cts → announced ≠ 0 ∧ sent = announced.toNat) := by
      refine ⟨?_, fun hpos => by omega⟩
      rw [hheader]
      omega
    rcases SendSlot.workHandler_sendFf c stale o hff with ⟨-, heq⟩ | ⟨error, -, heq⟩ | ⟨eagain, -, heq⟩ <;>
      rw [heq] <;>
      exact counts_rest h.orphaned htaking (by rintro ⟨⟩) (by rintro ⟨⟩) (by rintro ⟨⟩) (fun _ => hwait) h.bound
  rw [if_neg hff]
  rcases SendSlot.workHandler_cases c stale o hff with ⟨hstate, heq⟩ | ⟨hstate, heq⟩ |
    ⟨result, -, heq⟩ | ⟨hstate, heq⟩ <;> rw [heq]
  · obtain ⟨hcts, hrem, hbs, hroom⟩ := h.goesOn (.inl hstate)
    exact counts_sendCfRound c stale o h.orphaned htaking (.inl hstate) hcts hrem hbs hroom h.bound
  · have hgoes := h.goesOn (.inr (.inl hstate))
    exact ⟨h.orphaned, fun _ => .inl rfl, by rintro ⟨⟩, by rintro ⟨⟩, fun _ => hgoes, h.bound⟩
  · exact counts_rest h.orphaned htaking (by rintro ⟨⟩) (by rintro ⟨⟩) (by rintro ⟨⟩) (by rintro ⟨⟩) h.bound
  · have hne : s.state ≠ .sendCf ∧ s.state ≠ .waitSt := by
      rcases hstate with h | h | h <;> simp [h]
    exact counts_rest h.orphaned htaking hff hne.1 hne.2 h.waitFc h.bound

/-- The wait in the loop ends. -/
theorem counts_semTaken (h : Counts c s cts announced sent) (htaking : s.taking = true) :
    Counts c (s.semTaken c stale o).slot cts announced
      (sent + (s.semTaken c stale o).frame.toList.length) := by
  have hstate := h.taking htaking
  have hgoes : GoesOn s.toSendCtx := hstate.imp_right fun herr => .inr ⟨herr, htaking⟩
  obtain ⟨hcts, hrem, hbs, hroom⟩ := h.goesOn hgoes
  exact counts_sendCfRound c stale o h.orphaned rfl hstate hcts hrem hbs hroom h.bound

/-- An error lets only a loop go on that waits. -/
theorem counts_err (h : Counts c s cts announced sent) (sctx : SendCtx) (hstate : sctx.state = .err)
    (htaking : sctx.taking = s.taking) (hrem : sctx.remLen = s.remLen) (hbs : sctx.bs = s.bs) :
    Counts c { s with toSendCtx := sctx } cts announced sent where
  orphaned := h.orphaned
  taking _ := .inr hstate
  sendFf hff := absurd (hstate.symm.trans hff) (by decide)
  waitFc hwait := absurd (hstate.symm.trans hwait) (by decide)
  goesOn := by
    rintro (hcf | hst | ⟨-, htrue⟩)
    · exact absurd (hstate.symm.trans hcf) (by decide)
    · exact absurd (hstate.symm.trans hst) (by decide)
    · have htrue' : s.taking = true := htaking.symm.trans htrue
      have hgoes := h.goesOn ((h.taking htrue').imp_right fun herr => .inr ⟨herr, htrue'⟩)
      simpa only [hrem, hbs] using hgoes
  bound := h.bound

/-- A frame is completed. -/
theorem counts_txCallback (h : Counts c s cts announced sent) :
    Counts c s.canTxCallback cts announced sent := by
  by_cases hwait : s.state = .waitBacklog
  · have htaking : s.taking = false := by
      by_contra htrue
      rcases h.taking (Bool.eq_true_of_not_eq_false htrue) with hcf | herr
      · cases hwait.symm.trans hcf
      · cases hwait.symm.trans herr
    simp only [SendSlot.canTxCallback, SendCtx.txCallback, hwait, if_true]
    split
    · exact counts_rest h.orphaned htaking (by simp) (by simp) (by simp) (by simp) h.bound
    · exact counts_rest h.orphaned htaking (by rintro ⟨⟩) (by rintro ⟨⟩) (by rintro ⟨⟩) (by rintro ⟨⟩) h.bound
  · simp only [SendSlot.canTxCallback, txCallback_of_ne hwait]
    exact ⟨h.orphaned, h.taking, h.sendFf, h.waitFc, h.goesOn, h.bound⟩

/-- A timer expires. -/
theorem counts_timeout (h : Counts c s cts announced sent) :
    Counts c { s with toSendCtx := s.toSendCtx.timeout } cts announced sent := by
  rcases timeout_cases s.toSendCtx with ⟨-, heq⟩ | ⟨-, heq⟩ <;> rw [heq]
  · exact ⟨h.orphaned, h.taking, h.sendFf, h.waitFc, h.goesOn, h.bound⟩
  · exact counts_err h _ rfl rfl rfl rfl

/-- A frame that is no clear-to-send frame, or one that the context does not wait for, comes. -/
theorem counts_canRx {f : CanFrame} (h : Counts c s cts announced sent)
    (hnot : ¬ (s.state = .waitFc ∧ isCts f = true)) :
    Counts c { s with toSendCtx := s.toSendCtx.canRx c f } cts announced sent := by
  rcases canRx_cases (c := c) s.toSendCtx f with ⟨hwait, hcts, -⟩ |
    ⟨-, -, err, wft, timer, ⟨-, heq⟩ | ⟨-, heq⟩⟩ | ⟨-, heq⟩
  · exact absurd ⟨hwait, hcts⟩ hnot
  · rw [heq]
    exact ⟨h.orphaned, h.taking, h.sendFf, h.waitFc, h.goesOn, h.bound⟩
  · rw [heq]
    exact counts_err h _ rfl rfl rfl rfl
  · rw [heq]
    exact counts_err h _ rfl rfl rfl rfl

/-- A clear-to-send frame starts a block. -/
theorem counts_cts {f : CanFrame} (h : Counts c s cts announced sent) (hwait : s.state = .waitFc)
    (hcts : isCts f = true)
    (hfits : (f.byte 1 = 0 ↔ c.bs = 0) ∨ s.remLen ≤ limit (f.byte 1) * (canMaxDlen c - 1)) :
    Counts c { s with toSendCtx := s.toSendCtx.canRx c f } (cts + 1) (f.byte 1) 0 := by
  have htaking : s.taking = false := by
    by_contra htrue
    rcases h.taking (Bool.eq_true_of_not_eq_false htrue) with hcf | herr
    · cases hwait.symm.trans hcf
    · cases hwait.symm.trans herr
  have hroom : Room c s.remLen (f.byte 1) 0 := by
    rcases hfits with hiff | hrem
    · refine .inl ⟨hiff, fun hne => Nat.pos_of_ne_zero fun hzero => hne ?_⟩
      exact UInt8.toNat_inj.1 hzero
    · refine .inr ⟨?_, hrem⟩
      by_contra hzero
      rw [Nat.eq_zero_of_not_pos hzero, Nat.zero_mul] at hrem
      have := (h.waitFc hwait).1
      omega
  rcases canRx_cases (c := c) s.toSendCtx f with ⟨-, -, heq⟩ | ⟨-, hnot, -⟩ | ⟨hnot, -⟩
  · rw [heq]
    refine ⟨h.orphaned, fun htrue => absurd (htaking.symm.trans htrue) (by decide), by rintro ⟨⟩, by rintro ⟨⟩,
      fun _ => ⟨Nat.succ_pos cts, (h.waitFc hwait).1, ?_, hroom⟩, fun _ => Nat.zero_le _⟩
    exact UInt8.toBitVec_inj.1 (by simp)
  · exact absurd hcts hnot
  · exact absurd hwait hnot

/-- What holds of a transfer with its block. -/
def Counted (c : IsoTpConfig) (B : Block A β) : Prop :=
  Counts c B.transfer.slot B.transfer.cts B.announced B.sent

/-- A step keeps the count. -/
theorem counted_step {B B' : Block A β} {e : TransferEvent} (h : B.Counted c) (hfits : B.Fits c e)
    (hstep : B.step c e = some B') : B'.Counted c := by
  obtain ⟨T, hT, rfl⟩ := Option.map_eq_some_iff.1 hstep
  cases e with
  | work stale o =>
    simp only [Transfer.step] at hT
    split at hT
    · rename_i hwork
      obtain rfl := Option.some.inj hT
      have htaking : B.transfer.slot.taking = false := by simpa using hwork.2
      have hcount := @counts_workHandler _ _ _ _ _ _ _ stale o h htaking
      by_cases hff : B.transfer.slot.state = .sendFf
      · simpa [Counted, Transfer.consecutive, Transfer.apply, hff] using hcount
      · simpa [Counted, Transfer.consecutive, Transfer.apply, hff] using hcount
    · cases hT
  | semTaken stale o =>
    simp only [Transfer.step] at hT
    split at hT
    · rename_i htaking
      obtain rfl := Option.some.inj hT
      exact counts_semTaken h htaking.1
    · cases hT
  | completed k =>
    simp only [Transfer.step] at hT
    split at hT
    · obtain rfl := Option.some.inj hT
      exact counts_txCallback h
    · cases hT
  | timer =>
    simp only [Transfer.step] at hT
    split at hT
    · obtain rfl := Option.some.inj hT
      exact counts_timeout h
    · cases hT
  | flowControl f =>
    simp only [Transfer.step] at hT
    split at hT
    · obtain rfl := Option.some.inj hT
      by_cases htakes : B.TakesCts f
      · simp only [Counted, if_pos htakes, if_pos (show _ ∧ _ from htakes)]
        exact counts_cts h htakes.1 htakes.2 (hfits htakes)
      · simp only [Counted, if_neg htakes, if_neg (show ¬ (_ ∧ _) from htakes)]
        exact counts_canRx h htakes
    · cases hT

/-- A transfer of a message that needs several frames, before anything has happened. -/
def start (c : IsoTpConfig) (block : SendSlot A β) (addr : A) (data : Bytes) (cbArg : Option β) : Block A β where
  transfer := .start c block addr data cbArg

theorem counted_start (block : SendSlot A β) (addr : A) {data : Bytes} (cbArg : Option β)
    (hlong : canMaxDlen c - sfLenByte c < data.length) (hlen : data.length ≤ maxLen) :
    (start c block addr data cbArg).Counted c := by
  have hmax : maxLen = 4095 := rfl
  have hrem : data.length % 4096 = data.length := Nat.mod_eq_of_lt (by omega)
  have hbyte : sfLenByte c ≤ 2 := by
    unfold sfLenByte
    split <;> omega
  refine ⟨rfl, by rintro ⟨⟩, fun _ => ?_, by rintro ⟨⟩, ?_, fun h => absurd rfl h⟩
  · change canMaxDlen c - 2 < data.length % 4096 ∧ data.length % 4096 ≤ 4095 ∧ 0 = 0
    omega
  · rintro (h | h | ⟨h, -⟩) <;> cases h

/-- **In a run in which every clear-to-send frame that is taken announces 0 exactly if the local block size is 0, or a
block that holds the rest of the message, the block size is obeyed in every state.** -/
theorem obeys_of_fits (block : SendSlot A β) (addr : A) {data : Bytes} (cbArg : Option β)
    (hlong : canMaxDlen c - sfLenByte c < data.length) (hlen : data.length ≤ maxLen) {es : List TransferEvent}
    {B : Block A β} (hfits : Meets (Block.step c) (Block.Fits c) (start c block addr data cbArg) es)
    (hrun : runFrom (Block.step c) (start c block addr data cbArg) es = some B) : B.Obeys := by
  have h : B.Counted c := runFrom_invariant_of_meets (fun _ _ _ => counted_step)
    (counted_start block addr cbArg hlong hlen) hfits hrun
  exact ⟨h.bound, fun hwait => (h.waitFc hwait).2⟩

/-- `30 bs 00`: the receiver announces a block size. -/
def ctsOf (bs : UInt8) : CanFrame := ⟨[0x30, bs, 0, 0, 0, 0, 0, 0], 3⟩

/-- A message of `n` bytes. -/
def numbers (n : ℕ) : Bytes := (List.range n).map UInt8.ofNat

/-- The local size is two; the receiver announces one frame, which is sent, and then the context waits. -/
theorem numbers_obey :
    ∃ B, runFrom (Block.step { classicalCan with bs := 2 })
        (start { classicalCan with bs := 2 } zeroedSendSlot () (numbers 27) none)
        [.work [] .queued, .completed 0, .flowControl (ctsOf 1), .work [] .queued] = some B ∧
      B.transfer.slot.state = .waitFc ∧ B.announced ≠ 0 ∧ B.sent = B.announced.toNat := by
  refine ⟨_, rfl, rfl, ?_⟩
  exact (@obeys_of_fits _ _ _ zeroedSendSlot () (numbers 27) none (by decide) (by decide)
    [.work [] .queued, .completed 0, .flowControl (ctsOf 1), .work [] .queued] _ (by decide +kernel) rfl).waits rfl (by decide)

/-- The local size is 0. The receiver announces one frame, and two are sent. -/
theorem numbers_overrun :
    ∃ B, runFrom (Block.step classicalCan) (start classicalCan zeroedSendSlot () (numbers 27) none)
        [.work [] .queued, .completed 0, .flowControl (ctsOf 1), .work [] .queued, .completed 0,
          .semTaken [] .queued] = some B ∧
      B.announced = 1 ∧ B.sent = 2 ∧ ¬ B.Obeys := by
  refine ⟨_, rfl, rfl, rfl, fun h => ?_⟩
  have hle := h.bound (by decide)
  exact absurd hle (by decide)

end Block

end ThingSet.IsoTp
