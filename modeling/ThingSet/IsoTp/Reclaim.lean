import ThingSet.IsoTp.Lengths
import ThingSet.IsoTp.Readers

/-!
# Reclaiming receive contexts

A context is created before its first frame is looked at. What frees it later is its timer, its work item or
the reader that has it.

* `served_of_good`: in a run in which the frames that create a context are not ignored, and no reader
  leaves a finished context behind, every context of the list has one of them.
* `twoSenders_stranded`: a first frame that is ignored, and the next sender is refused.
-/

namespace ThingSet.IsoTp

open Transition Function

variable {n : ℕ} {A : Type} {c : RecvConfig} {s : RecvSlot A} {f : CanFrame} {held : Prop}

/-- `process_ff_sf` does not ignore the frame. -/
def Accepts (c : RecvConfig) (f : CanFrame) : Prop :=
  (pciType (f.byte 0) = typeFf → f.dlc = c.ffDlMin) ∧
    (pciType (f.byte 0) = typeSf →
      min (sfLength c.toIsoTpConfig f).1
        (canMaxDlen c.toIsoTpConfig - (sfLength c.toIsoTpConfig f).2) ≤ c.dlcToBytes f.dlc)

instance (c : RecvConfig) (f : CanFrame) : Decidable (Accepts c f) := instDecidableAnd

/-! ## Contexts -/

namespace RecvSlot

/-- Something is left to happen to the context. -/
structure Alive (s : RecvSlot A) (held : Prop) : Prop where
  fresh : s.state ≠ .waitFfSf
  waitCf : s.state = .waitCf → s.timer = true
  unbound : s.state = .unbound → held
  active : s.state ≠ .waitCf → s.state ≠ .unbound → s.work = true ∨ s.timer = true

theorem Alive.served (h : s.Alive held) : s.timer = true ∨ s.work = true ∨ held := by
  by_cases hwait : s.state = .waitCf
  · exact .inl (h.waitCf hwait)
  by_cases hunbound : s.state = .unbound
  · exact .inr (.inr (h.unbound hunbound))
  rcases h.active hwait hunbound with hwork | htimer
  · exact .inr (.inl hwork)
  · exact .inl htimer

/-- The work item has been submitted. -/
theorem alive_of_work (hwork : s.work = true) (hfresh : s.state ≠ .waitFfSf)
    (hwait : s.state ≠ .waitCf) (hunbound : s.state = .unbound → held) : s.Alive held where
  fresh := hfresh
  waitCf h := absurd h hwait
  unbound := hunbound
  active _ _ := .inl hwork

/-- A consecutive frame restarts the timer, or the state is left. -/
theorem processCf_cases (s : RecvSlot A) (f : CanFrame) (hstate : s.state = .waitCf) :
    ((s.processCf c f).1.state = .waitCf ∧ (s.processCf c f).1.timer = true) ∨
      (s.processCf c f).1.state = .err ∨ (s.processCf c f).1.state = .recycle ∨
        (s.processCf c f).1.state = .tryAlloc := by
  rw [processCf]
  split
  · exact .inr (.inl rfl)
  · dsimp only
    split
    · exact .inr (.inl rfl)
    · split
      · exact .inr (.inr (.inl rfl))
      · split
        · split
          · exact .inr (.inr (.inr rfl))
          · exact .inl ⟨hstate, rfl⟩
        · exact .inl ⟨hstate, rfl⟩

theorem canRx_of_ne (hfresh : s.state ≠ .waitFfSf) (hwait : s.state ≠ .waitCf) :
    s.canRx c f = ({ s with work := true }, none) := by
  rw [canRx]
  split
  · rename_i hstate
    exact absurd hstate hfresh
  · rename_i hstate
    exact absurd hstate hwait
  · rfl

theorem alive_canRx (h : s.Alive held) (f : CanFrame) : (s.canRx c f).1.Alive held := by
  by_cases hwait : s.state = .waitCf
  · rw [canRx]
    simp only [hwait]
    rcases processCf_cases (c := c) s f hwait with ⟨hstill, htimer⟩ | hleft
    · rw [if_pos hstill]
      refine ⟨?_, fun _ => htimer, ?_, fun hne => absurd hstill hne⟩ <;> rw [hstill] <;> rintro ⟨⟩
    · have hne : (s.processCf c f).1.state ≠ .waitCf := by
        rcases hleft with h | h | h <;> simp [h]
      rw [if_neg hne]
      refine alive_of_work rfl ?_ hne ?_ <;> rcases hleft with h | h | h <;> simp [h]
  · rw [canRx_of_ne h.fresh hwait]
    exact alive_of_work rfl h.fresh hwait h.unbound

/-- The frame that a context is created for. -/
theorem alive_create {addr : A}
    (hcreate : pciType (f.byte 0) = typeFf ∨ pciType (f.byte 0) = typeSf) (hf : Accepts c f) :
    ((s.create addr).canRx c f).1.Alive held := by
  have hstate : ((s.create addr).processFfSf c f).1.state = .processFf ∨
      ((s.create addr).processFfSf c f).1.state = .processSf := by
    rw [processFfSf]
    rcases hcreate with hff | hsf
    · rw [if_pos hff, if_neg (not_not.2 (hf.1 hff))]
      exact .inl rfl
    · have hne : pciType (f.byte 0) ≠ typeFf := by
        rw [hsf]
        decide
      rw [if_neg hne, if_pos hsf]
      dsimp only
      rw [if_neg (Nat.not_lt.2 (hf.2 hsf))]
      exact .inr rfl
  have hcanRx : ((s.create addr).canRx c f).1 =
      { ((s.create addr).processFfSf c f).1 with work := true } := rfl
  rw [hcanRx]
  refine alive_of_work rfl ?_ ?_ ?_ <;> rcases hstate with h | h <;> simp [h]

theorem Alive.mono {held' : Prop} (h : s.Alive held) (hheld : held → held') : s.Alive held' :=
  ⟨h.fresh, h.waitCf, fun hunbound => hheld (h.unbound hunbound), h.active⟩

/-- What a run has to send, when it neither finishes the message nor has nothing to do. -/
theorem Alive.sends (h : s.Alive held) (hwait : s.state ≠ .waitCf) (hunbound : s.state ≠ .unbound)
    (hfinishes : ¬ s.Finishes c) : s.state = .processFf ∨ s.state = .tryAlloc ∨ s.state = .sendFc ∨
      s.state = .sendWait := by
  have hne : s.state ≠ .processSf ∧ s.state ≠ .recycle ∧ s.state ≠ .err := by
    refine ⟨fun hstate => ?_, fun hstate => ?_, fun hstate => ?_⟩
    · exact hfinishes (.inl hstate)
    · exact hfinishes (.inr (.inl hstate))
    · exact hfinishes (.inr (.inr (.inl hstate)))
  have hfresh := h.fresh
  cases hstate : s.state <;> simp_all

theorem timeout_listed (s : RecvSlot A) : s.timeout.Listed ↔ s.Listed := by
  rw [timeout]
  dsimp only
  cases s.state <;> exact Iff.rfl

theorem alive_timeout (h : s.Alive held) : s.timeout.Alive held := by
  rw [timeout]
  dsimp only
  cases hstate : s.state with
  | waitFfSf => exact absurd hstate h.fresh
  | unbound =>
    refine alive_of_work rfl ?_ ?_ fun _ => h.unbound hstate <;> simp [hstate]
  | waitCf | tryAlloc =>
    refine alive_of_work rfl ?_ ?_ ?_ <;> simp [reportError, RecvCtx.reportError]
  | _ => refine alive_of_work rfl ?_ ?_ ?_ <;> simp [hstate]

theorem alive_canTx (h : s.Alive held) (error : ℤ) : (s.canTx error).Alive held := by
  rw [canTx]
  dsimp only
  split
  · refine alive_of_work rfl ?_ ?_ ?_ <;> simp [reportError, RecvCtx.reportError]
  · exact ⟨h.fresh, h.waitCf, h.unbound, h.active⟩

end RecvSlot

namespace RecvNode

variable {N N' : RecvNode n A} {i : Fin n}

/-- Something is left to happen to every context of the list. -/
def Served (N : RecvNode n A) : Prop :=
  ∀ i, (N.slots i).Listed → (N.slots i).Alive (Holds N.awaiters i)

/-- The other contexts of the list that are finished. -/
def Behind (N : RecvNode n A) (i j : Fin n) : Prop :=
  j ≠ i ∧ (N.slots j).Listed ∧ (N.slots j).state = .unbound

/-- The condition on an event. The frame that a context is created for is not ignored. When a run
finishes a message, and the context is marked as pending, there is a reader for it; and a reader that a run
notifies does not have another context that is finished. -/
def Reclaims [DecidableEq A] (c : RecvConfig) (N : RecvNode n A) : RecvEvent n A → Prop
  | .frame addr f block buffer => N.find addr = none → (N.slots block).allocated = false →
      buffer = true → Accepts c f
  | .work i o =>
    ((N.slots i).Finishes c → c.receiveQueue = true → (N.slots i).pending = true →
      (N.slots i).Matched c N.awaiters) ∧
    ((N.slots i).Notifies c (o 0) → (N.slots i).Matched c N.awaiters →
      Spares (N.Behind i) (N.slots i).rxAddr N.awaiters)
  | _ => True

theorem served_update (h : N.Served) (hslots : N'.slots = update N.slots i s)
    (hholds : ∀ j, N.Behind i j → Holds N.awaiters j → Holds N'.awaiters j)
    (hi : s.Listed → s.Alive (Holds N'.awaiters i)) : N'.Served := by
  intro j hj
  by_cases hji : j = i
  · subst hji
    rw [hslots, update_self] at hj ⊢
    exact hi hj
  · rw [hslots, update_of_ne hji] at hj ⊢
    have hj' := h j hj
    exact ⟨hj'.fresh, hj'.waitCf, fun hunbound => hholds j ⟨hji, hj, hunbound⟩ (hj'.unbound hunbound),
      hj'.active⟩

/-- What does not change the readers. -/
theorem served_of_slot (h : N.Served) (hslots : N'.slots = update N.slots i s)
    (hawaiters : N'.awaiters = N.awaiters) (hi : s.Listed → s.Alive (Holds N.awaiters i)) :
    N'.Served := by
  refine served_update h hslots (fun j _ => ?_) ?_
  · rw [hawaiters]
    exact id
  · rw [hawaiters]
    exact hi

theorem served_of_init (h : N.Init) : N.Served := by
  intro i hlisted
  exact absurd ((h.slots i).1.symm.trans hlisted.1) Bool.false_ne_true

variable [DecidableEq A]

theorem served_work {o : ℕ → CanSend} (h : N.Served) (hgood : N.Reclaims c (.work i o)) :
    (N.apply i ({ N.slots i with work := false }.receiveStateMachine c o i N.awaiters)).Served := by
  obtain ⟨hpending, hspares⟩ := hgood
  have htends := tends_receiveStateMachine (P := N.Behind i) c o i { N.slots i with work := false }
    N.awaiters fun hbehind => hbehind.1 rfl
  refine served_update h rfl (fun j hj hholds => ?_) fun hlisted => ?_
  · by_cases hnotifies : (N.slots i).Notifies c (o 0)
    · exact (htends.spares (hspares hnotifies)).2 j hj hholds
    · have hawaiters := awaiters_receiveStateMachine c o i { N.slots i with work := false }
        N.awaiters hnotifies
      simp only [apply, hawaiters]
      exact hholds
  · have halive := h i ⟨htends.allocated hlisted.1, htends.orphaned.symm.trans hlisted.2⟩
    by_cases hfinishes : (N.slots i).Finishes c
    · obtain ⟨hstate, hkept, hholds⟩ := finished_receiveStateMachine c o i
        { N.slots i with work := false } N.awaiters hfinishes
      obtain ⟨hqueue, hmarked⟩ := hkept hlisted.1
      have hmatched : (N.slots i).Matched c N.awaiters := by
        rcases htends.pending hmarked with hmarked | hmatched
        · exact hpending hfinishes hqueue hmarked
        · exact hmatched
      refine ⟨?_, ?_, fun _ => hholds hmatched, fun _ hne => absurd hstate hne⟩ <;> simp [hstate]
    by_cases hidle : (N.slots i).state = .waitCf ∨ (N.slots i).state = .unbound
    · obtain ⟨htimer, hstate, hawaiters⟩ := idle_receiveStateMachine c o i
        { N.slots i with work := false } N.awaiters (.inr hidle)
      refine ⟨?_, fun hwait => ?_, fun hunbound => ?_, fun hwait hunbound => ?_⟩
      · rw [hstate]
        exact halive.fresh
      · rw [htimer]
        exact halive.waitCf (hstate.symm.trans hwait)
      · simp only [apply, hawaiters]
        exact halive.unbound (hstate.symm.trans hunbound)
      · rw [hstate] at hwait hunbound
        exact absurd hidle (not_or.2 ⟨hwait, hunbound⟩)
    · obtain ⟨hwaitCf, hunbound⟩ := not_or.1 hidle
      obtain ⟨htimer, hstate⟩ := waits_receiveStateMachine c o i { N.slots i with work := false }
        N.awaiters (halive.sends hwaitCf hunbound hfinishes)
        fun hoverflows => hfinishes (.inr (.inr (.inr hoverflows)))
      refine ⟨?_, fun _ => htimer, ?_, fun _ _ => .inr htimer⟩ <;>
        rcases hstate with hstate | hstate <;> simp [hstate]

theorem served_step {e : RecvEvent n A} (h : N.Served) (hgood : N.Reclaims c e)
    (hstep : N.step c e = some N') : N'.Served := by
  cases e with
  | frame addr f block buffer =>
    simp only [step, receiveCanRx] at hstep
    cases hfind : N.find addr with
    | some i =>
      simp only [hfind] at hstep
      split at hstep
      · obtain rfl := Option.some.inj hstep
        exact served_of_slot h rfl rfl fun _ => RecvSlot.alive_canRx (h i (find_spec hfind).1) f
      · obtain rfl := Option.some.inj hstep
        exact served_of_slot h rfl rfl fun hlisted => absurd hlisted.1 Bool.false_ne_true
    | none =>
      simp only [hfind] at hstep
      split at hstep
      · obtain rfl := Option.some.inj hstep
        exact h
      rename_i hcreate
      split at hstep
      · obtain rfl := Option.some.inj hstep
        exact h
      split at hstep
      · cases hstep
      rename_i hfree
      split at hstep
      · obtain rfl := Option.some.inj hstep
        exact h
      · rename_i hbuffer
        obtain rfl := Option.some.inj hstep
        refine served_of_slot h rfl rfl fun _ => RecvSlot.alive_create (not_not.1 hcreate) ?_
        exact hgood hfind (eq_false_of_ne_true hfree) (not_not.1 hbuffer)
  | work i o =>
    simp only [step] at hstep
    split at hstep
    · obtain rfl := Option.some.inj hstep
      exact served_work h hgood
    · cases hstep
  | completed k error =>
    simp only [step] at hstep
    cases hk : N.queue[k]? with
    | none => simp [hk] at hstep
    | some i =>
      simp only [hk] at hstep
      obtain rfl := Option.some.inj hstep
      refine served_of_slot h rfl rfl fun hlisted => RecvSlot.alive_canTx (h i ?_) error
      obtain ⟨-, -, -, horphaned, hallocated⟩ := RecvRun.canTx_fields (N.slots i) error
      exact ⟨hallocated.symm.trans hlisted.1, horphaned.symm.trans hlisted.2⟩
  | timer i =>
    simp only [step] at hstep
    split at hstep
    · obtain rfl := Option.some.inj hstep
      refine served_of_slot h rfl rfl fun hlisted => RecvSlot.alive_timeout (h i ?_)
      exact (RecvSlot.timeout_listed _).1 hlisted
    · cases hstep
  | unbindReader =>
    simp only [step] at hstep
    cases hawaiters : N.awaiters with
    | nil => simp [hawaiters] at hstep
    | cons a as =>
      simp only [hawaiters] at hstep
      cases hrctx : a.rctx with
      | none =>
        simp only [hrctx] at hstep
        obtain rfl := Option.some.inj hstep
        refine fun j hj => (h j hj).mono ?_
        rintro ⟨b, hb, hholds⟩
        rcases List.mem_cons.1 (hawaiters ▸ hb) with rfl | hb
        · cases hrctx.symm.trans hholds
        · exact ⟨b, hb, hholds⟩
      | some i =>
        simp only [hrctx] at hstep
        obtain rfl := Option.some.inj hstep
        refine served_update h rfl ?_ fun hlisted => absurd hlisted.1 Bool.false_ne_true
        rintro j hbehind ⟨b, hb, hholds⟩
        rcases List.mem_cons.1 (hawaiters ▸ hb) with rfl | hb
        · exact absurd (Option.some.inj (hholds.symm.trans hrctx)) hbehind.1
        · exact ⟨b, hb, hholds⟩
  | unbind i =>
    simp only [step] at hstep
    split at hstep
    · obtain rfl := Option.some.inj hstep
      refine served_of_slot h rfl rfl fun hlisted => absurd hlisted ?_
      rw [RecvSlot.unbind]
      dsimp only
      split
      · exact fun hlisted => absurd hlisted.1 Bool.false_ne_true
      · exact fun hlisted => absurd hlisted.2.symm Bool.false_ne_true
    · cases hstep

/-- A frame is refused only when no block is free. -/
theorem allocated_of_refused {addr : A} {block : Fin n} {buffer : Bool}
    (hstep : N.step c (.frame addr f block buffer) = some N') (hrefused : N'.refused ≠ N.refused)
    (i : Fin n) : (N.slots i).allocated = true := by
  simp only [step, receiveCanRx] at hstep
  cases hfind : N.find addr with
  | some j =>
    simp only [hfind] at hstep
    split at hstep <;> obtain rfl := Option.some.inj hstep <;> exact absurd rfl hrefused
  | none =>
    simp only [hfind] at hstep
    split at hstep
    · obtain rfl := Option.some.inj hstep
      exact absurd rfl hrefused
    split at hstep
    · rename_i hfull
      exact hfull i
    split at hstep
    · cases hstep
    split at hstep <;> obtain rfl := Option.some.inj hstep <;> exact absurd rfl hrefused

end RecvNode

variable [DecidableEq A] {N₀ N : RecvNode n A} {es : List (RecvEvent n A)}

/-- **In a run whose events all meet the condition, the timer of every context of the list runs, or its work
item has been submitted, or a waiting reader has it; and when a frame is refused, that is so of every
block that is not orphaned.** -/
theorem served_of_good (hinit : N₀.Init)
    (hgood : Meets (RecvNode.step c) (RecvNode.Reclaims c) N₀ es)
    (hrun : runFrom (RecvNode.step c) N₀ es = some N) :
    (∀ i, (N.slots i).Listed →
      (N.slots i).timer = true ∨ (N.slots i).work = true ∨ Holds N.awaiters i) ∧
    ∀ addr f block buffer N', N.step c (.frame addr f block buffer) = some N' →
      N'.refused ≠ N.refused → ∀ i, (N.slots i).orphaned = true ∨
        (N.slots i).timer = true ∨ (N.slots i).work = true ∨ Holds N.awaiters i := by
  have hserved : N.Served := runFrom_invariant_of_meets
    (fun _ _ _ h hgood hstep => RecvNode.served_step h hgood hstep)
    (RecvNode.served_of_init hinit) hgood hrun
  refine ⟨fun i hlisted => (hserved i hlisted).served, ?_⟩
  intro addr f block buffer N' hstep hrefused i
  by_cases horphaned : (N.slots i).orphaned = true
  · exact .inl horphaned
  · have hallocated := RecvNode.allocated_of_refused hstep hrefused i
    exact .inr (hserved i ⟨hallocated, eq_false_of_ne_true horphaned⟩).served

/-! ## First frames -/

/-- A first frame of a message of eight bytes, and the work item that it submits. -/
theorem firstFrame_served :
    ∃ N, runFrom (RecvNode.step wholeMessages) oneRecvBlock
        (received [0x10, 8, 1, 2, 3, 4, 5, 6] 8) = some N ∧ (N.slots 0).Listed ∧
      ((N.slots 0).timer = true ∨ (N.slots 0).work = true ∨ Holds N.awaiters 0) := by
  have hgood : Meets (RecvNode.step wholeMessages) (RecvNode.Reclaims wholeMessages) oneRecvBlock
      (received [0x10, 8, 1, 2, 3, 4, 5, 6] 8) := by
    refine ⟨fun _ _ _ => by decide +kernel, fun _ h => ?_⟩
    obtain rfl := Option.some.inj h
    refine ⟨⟨fun _ hqueue => ?_, fun _ hmatched => ?_⟩, fun _ _ => trivial⟩
    · exact absurd hqueue Bool.false_ne_true
    · exact absurd hmatched.1 Bool.false_ne_true
  exact ⟨_, rfl, ⟨rfl, rfl⟩, (served_of_good oneRecvBlock_init hgood rfl).1 0 ⟨rfl, rfl⟩⟩

/-- A slab of one block that was zeroed, for two senders. -/
def twoSenders : RecvNode 1 Bool where
  slots _ :=
    { rxAddr := false
      timer := false
      recvQueue := []
      pending := false
      pendingCb := 0
      orphaned := false
      allocated := false
      declared := 0
      dispatched := 0 }

/-- The first frame of one sender is ignored because of its length code. Nothing is left to happen to its
context, and the other sender is refused. -/
theorem twoSenders_stranded :
    twoSenders.Init ∧
      ∃ N ∈ runFrom (RecvNode.step wholeMessages) twoSenders
          [.frame false ⟨[0x10, 8, 1, 2, 3, 4, 5, 6], 7⟩ 0 true, .work 0 fun _ => .queued],
        (N.slots 0).Listed ∧ (N.slots 0).timer = false ∧ (N.slots 0).work = false ∧
          N.awaiters = [] ∧
          ∃ N' ∈ N.step wholeMessages (.frame true ⟨[0x10, 8, 1, 2, 3, 4, 5, 6], 8⟩ 0 true),
            N'.refused = 1 :=
  ⟨⟨fun _ => ⟨rfl, rfl, rfl, rfl⟩, nofun, rfl, rfl, rfl, rfl⟩, _, rfl, ⟨rfl, rfl⟩, rfl, rfl, rfl,
    _, rfl, rfl⟩

end ThingSet.IsoTp
