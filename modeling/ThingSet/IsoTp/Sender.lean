import ThingSet.IsoTp.Frames

/-!
# The sender

The modes a sender can be in after its first frame, and what every event on its node other than a
frame does in each: it waits for a flow control frame (`WaitFc`), it is in the middle of a block
(`Sending`), or it has queued its last frame (`SenderDone`). Only a sender in the middle of a
block queues a frame, and it is the next consecutive one (`sending_step`).
-/

namespace ThingSet.IsoTp

variable {c : IsoTpConfig} {msg : Bytes} {k : ℕ} {s : SendCtx} {n n' : Network} {e : IsoTpEvent}

/-- The sender waits for a flow control frame. -/
structure WaitFc (c : IsoTpConfig) (msg : Bytes) (k : ℕ) (s : SendCtx) : Prop where
  sent : Sent c msg k s
  state : s.state = .waitFc
  taking : s.taking = false
  timer : s.timer ≠ .st

/-- The sender is in the middle of a block, and something will make it go on: its work item, its
timer, or one of the `p` completions it has yet to see. -/
structure Sending (c : IsoTpConfig) (msg : Bytes) (k : ℕ) (s : SendCtx) (p : ℕ) : Prop where
  sent : Sent c msg k s
  more : pos c msg k < msg.length
  block : c.bs ≠ 0 → s.bs ≠ 0
  ready : s.state = .sendCf ∧ s.taking = false ∧ (s.work = true ∨ s.timer = .st) ∨
    s.state = .waitSt ∧ s.taking = false ∧ s.timer ≠ .st ∧ (s.work = true ∨ 0 < p) ∨
    s.state = .sendCf ∧ s.taking = true ∧ s.timer ≠ .st ∧ (s.sem = true ∨ 0 < p)

/-- The sender has queued its last frame. -/
structure SenderDone (n : Network) : Prop where
  taking : n.sctx.taking = false
  timer : n.sctx.timer ≠ .st
  quiet : (n.sctx.state = .waitBacklog ∨ n.sctx.state = .waitFin ∨ n.sctx.state = .reset) ∧
      n.singleCb = 0 ∨
    n.sctx.work = false ∧ n.txCb = 0

/-- The events on the sender's node that are not frames. -/
def IsoTpEvent.ofSender : IsoTpEvent → Prop
  | .sendWork _ => True
  | .semTaken _ => True
  | .singleDone => True
  | .txDone => True
  | .timerExpired => True
  | _ => False

/-- Nothing happens to a sender that waits for a flow control frame. -/
theorem waitFc_step (h : WaitFc c msg k n.sctx) (hcb : n.singleCb = 0) (he : e.ofSender)
    (hstep : step c n e = some n') :
    ∃ s p, n' = { n with sctx := s, txCb := p } ∧ WaitFc c msg k s ∧ s.bs = n.sctx.bs := by
  obtain ⟨hsent, hstate, htaking, htimer⟩ := h
  cases e with
  | sendWork stale =>
    simp only [step, htaking, Bool.false_eq_true, not_false_eq_true, and_true] at hstep
    split at hstep
    · simp only [sendStateMachine, hstate, Option.some.injEq] at hstep
      subst hstep
      exact ⟨_, _, rfl, ⟨⟨hsent.1, hsent.2, hsent.3, hsent.4⟩, rfl, rfl, htimer⟩, rfl⟩
    · simp at hstep
  | semTaken stale => simp [step, htaking] at hstep
  | singleDone => simp [step, hcb] at hstep
  | txDone =>
    simp only [step] at hstep
    split at hstep
    · simp at hstep
    · rw [txCallback_of_ne (by simp [hstate]), Option.some.injEq] at hstep
      subst hstep
      exact ⟨_, _, rfl, ⟨⟨hsent.1, hsent.2, hsent.3, hsent.4⟩, hstate, htaking, htimer⟩, rfl⟩
  | timerExpired => simp [step, htimer] at hstep
  | frameToReceiver => exact he.elim
  | frameToSender => exact he.elim
  | receiveWork => exact he.elim

/-- A sender that is done sends nothing more. -/
theorem senderDone_step (h : SenderDone n) (he : e.ofSender) (hstep : step c n e = some n') :
    SenderDone n' ∧ n'.toReceiver = n.toReceiver ∧ n'.toSender = n.toSender ∧ n'.rctx = n.rctx ∧
      n'.delivered = n.delivered := by
  obtain ⟨htaking, htimer, hquiet⟩ := h
  cases e with
  | sendWork stale =>
    simp only [step, htaking, Bool.false_eq_true, not_false_eq_true, and_true] at hstep
    split at hstep
    · rename_i hwork
      obtain ⟨hstate, hcb⟩ := hquiet.resolve_right (fun hq => by simp [hwork] at hq)
      rcases hstate with hstate | hstate | hstate <;>
        simp only [sendStateMachine, hstate, Option.some.injEq] at hstep <;> subst hstep
      · exact ⟨⟨rfl, htimer, .inl ⟨.inl rfl, hcb⟩⟩, rfl, rfl, rfl, rfl⟩
      · exact ⟨⟨rfl, by simp [SendCtx.free], .inl ⟨.inr (.inr rfl), hcb⟩⟩, rfl, rfl, rfl, rfl⟩
      · exact ⟨⟨rfl, htimer, .inl ⟨.inr (.inr rfl), hcb⟩⟩, rfl, rfl, rfl, rfl⟩
    · simp at hstep
  | semTaken stale => simp [step, htaking] at hstep
  | singleDone =>
    simp only [step] at hstep
    split at hstep
    · simp at hstep
    · rename_i hcb
      obtain ⟨hwork, htx⟩ := hquiet.resolve_left (fun hq => hcb hq.2)
      rw [Option.some.injEq] at hstep
      subst hstep
      exact ⟨⟨htaking, by simp [SendCtx.free], .inr ⟨hwork, htx⟩⟩, rfl, rfl, rfl, rfl⟩
  | txDone =>
    simp only [step] at hstep
    split at hstep
    · simp at hstep
    · rename_i htx
      obtain ⟨hstate, hcb⟩ := hquiet.resolve_right (fun hq => htx hq.2)
      rw [Option.some.injEq] at hstep
      subst hstep
      refine ⟨⟨?_, ?_, .inl ⟨?_, hcb⟩⟩, rfl, rfl, rfl, rfl⟩
      all_goals
        simp only [SendCtx.txCallback]
        split
        · split <;> simp_all
        · simp_all
  | timerExpired => simp [step, htimer] at hstep
  | frameToReceiver => exact he.elim
  | frameToSender => exact he.elim
  | receiveWork => exact he.elim

/-- What a round of the loop leaves: the sender is done, at the end of a block, or goes on. -/
theorem sendCfRound_spec (stale : Bytes) (h : Sent c msg k n.sctx) (hcb : n.singleCb = 0)
    (hstate : n.sctx.state = .sendCf) (htaking : n.sctx.taking = false)
    (htimer : n.sctx.timer ≠ .st) :
    ∃ f s, sendCfRound c stale n =
        { n with sctx := s, toReceiver := n.toReceiver ++ [f], txCb := n.txCb + 1 } ∧
      IsCf c msg k f ∧ s.bs = n.sctx.bs - 1 ∧
      (pos c msg (k + 1) = msg.length ∧ SenderDone (sendCfRound c stale n) ∨
        pos c msg (k + 1) < msg.length ∧
          (c.bs ≠ 0 ∧ s.bs = 0 ∧ WaitFc c msg (k + 1) s ∨
            Sending c msg (k + 1) s (n.txCb + 1))) := by
  obtain ⟨f, s, heq, hf, hsent, hbs, htimer', hstate', htaking'⟩ := sendCf_spec stale n h
  rw [htimer'.symm] at htimer
  rw [hstate] at hstate'
  rw [htaking] at htaking'
  have hle := pos_le c msg (k + 1)
  rw [sendCfRound]
  simp only [heq]
  by_cases hlast : s.remLen = 0
  · rw [if_pos hlast]
    refine ⟨f, _, rfl, hf, hbs, .inl ⟨?_, htaking', htimer, .inl ⟨.inl rfl, hcb⟩⟩⟩
    rw [hsent.remLen] at hlast
    omega
  · rw [if_neg hlast]
    have hmore : pos c msg (k + 1) < msg.length := by
      rw [hsent.remLen] at hlast
      omega
    by_cases hblock : c.bs ≠ 0 ∧ s.bs = 0
    · rw [if_pos hblock]
      exact ⟨f, _, rfl, hf, hbs, .inr ⟨hmore, .inl ⟨hblock.1, hblock.2,
        ⟨hsent.1, hsent.2, hsent.3, hsent.4⟩, rfl, htaking', by simp⟩⟩⟩
    · rw [if_neg hblock]
      have hbs' : c.bs ≠ 0 → s.bs ≠ 0 := fun hc hs => hblock ⟨hc, hs⟩
      split
      · exact ⟨f, _, rfl, hf, hbs, .inr ⟨hmore, .inr ⟨⟨hsent.1, hsent.2, hsent.3, hsent.4⟩, hmore,
          hbs', .inr (.inl ⟨rfl, htaking', htimer, .inr (Nat.succ_pos _)⟩)⟩⟩⟩
      · exact ⟨f, _, rfl, hf, hbs, .inr ⟨hmore, .inr ⟨⟨hsent.1, hsent.2, hsent.3, hsent.4⟩, hmore,
          hbs', .inr (.inr ⟨hstate', rfl, htimer, .inr (Nat.succ_pos _)⟩)⟩⟩⟩

/-- A sender in the middle of a block goes on towards the next consecutive frame, or sends it. -/
theorem sending_step (h : Sending c msg k n.sctx n.txCb) (hcb : n.singleCb = 0) (he : e.ofSender)
    (hstep : step c n e = some n') :
    (∃ s p, n' = { n with sctx := s, txCb := p } ∧ Sending c msg k s p ∧ s.bs = n.sctx.bs) ∨
    ∃ f s, n' = { n with sctx := s, toReceiver := n.toReceiver ++ [f], txCb := n.txCb + 1 } ∧
      IsCf c msg k f ∧ s.bs = n.sctx.bs - 1 ∧
      (pos c msg (k + 1) = msg.length ∧ SenderDone n' ∨
        pos c msg (k + 1) < msg.length ∧
          (c.bs ≠ 0 ∧ s.bs = 0 ∧ WaitFc c msg (k + 1) s ∨
            Sending c msg (k + 1) s (n.txCb + 1))) := by
  obtain ⟨hsent, hmore, hblock, hready⟩ := h
  have hsent' : ∀ s : SendCtx, s.data = n.sctx.data → s.remLen = n.sctx.remLen →
      s.sn = n.sctx.sn → s.listed = n.sctx.listed → Sent c msg k s := fun s h₁ h₂ h₃ h₄ =>
    ⟨h₁.trans hsent.1, h₂.trans hsent.2, h₃.trans hsent.3, h₄.trans hsent.4⟩
  cases e with
  | sendWork stale =>
    simp only [step] at hstep
    split at hstep
    · rename_i hwork
      rw [Option.some.injEq] at hstep
      subst hstep
      rcases hready with ⟨hstate, htaking, -⟩ | ⟨hstate, htaking, htimer, -⟩ | ⟨-, htaking, -⟩
      · right
        rw [sendStateMachine]
        simp only [hstate]
        exact sendCfRound_spec stale (hsent' _ rfl rfl rfl rfl) hcb rfl htaking (by simp)
      · left
        rw [sendStateMachine]
        simp only [hstate]
        exact ⟨_, _, rfl, ⟨hsent' _ rfl rfl rfl rfl, hmore, hblock,
          .inl ⟨rfl, htaking, .inr rfl⟩⟩, rfl⟩
      · exact absurd htaking (by simpa using hwork.2)
    · simp at hstep
  | semTaken stale =>
    simp only [step] at hstep
    split at hstep
    · rename_i hsem
      rw [Option.some.injEq] at hstep
      subst hstep
      rcases hready with ⟨-, htaking, -⟩ | ⟨-, htaking, -⟩ | ⟨hstate, -, htimer, -⟩
      · exact absurd hsem.1 (by simp [htaking])
      · exact absurd hsem.1 (by simp [htaking])
      · right
        exact sendCfRound_spec stale (hsent' _ rfl rfl rfl rfl) hcb hstate rfl htimer
    · simp at hstep
  | singleDone => simp [step, hcb] at hstep
  | txDone =>
    simp only [step] at hstep
    split at hstep
    · simp at hstep
    · have hne : n.sctx.state ≠ .waitBacklog := by
        rcases hready with ⟨hstate, -⟩ | ⟨hstate, -⟩ | ⟨hstate, -⟩ <;> simp [hstate]
      rw [txCallback_of_ne hne, Option.some.injEq] at hstep
      subst hstep
      refine .inl ⟨_, _, rfl, ⟨hsent' _ rfl rfl rfl rfl, hmore, hblock, ?_⟩, rfl⟩
      rcases hready with ⟨hstate, htaking, -⟩ | ⟨hstate, htaking, htimer, -⟩ |
        ⟨hstate, htaking, htimer, -⟩
      · exact .inl ⟨hstate, htaking, .inl rfl⟩
      · exact .inr (.inl ⟨hstate, htaking, htimer, .inl rfl⟩)
      · exact .inr (.inr ⟨hstate, htaking, htimer, .inl rfl⟩)
  | timerExpired =>
    simp only [step] at hstep
    split at hstep
    · rename_i htimer
      rcases hready with ⟨hstate, htaking, -⟩ | ⟨-, -, hne, -⟩ | ⟨-, -, hne, -⟩
      · simp only [SendCtx.timeout, hstate, ne_eq, not_true_eq_false, if_false,
          Option.some.injEq] at hstep
        subst hstep
        exact .inl ⟨_, _, rfl, ⟨hsent' _ rfl rfl rfl rfl, hmore, hblock,
          .inl ⟨rfl, htaking, .inl rfl⟩⟩, rfl⟩
      · exact absurd htimer hne
      · exact absurd htimer hne
    · simp at hstep
  | frameToReceiver => exact he.elim
  | frameToSender => exact he.elim
  | receiveWork => exact he.elim

end ThingSet.IsoTp
