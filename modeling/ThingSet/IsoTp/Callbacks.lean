import ThingSet.Foundations.Slab
import ThingSet.IsoTp.Lengths
import ThingSet.IsoTp.Messages
import ThingSet.IsoTp.Outstanding

/-!
# Callbacks that hold a context

The frames of a bound context that are queued hold pointers to its send and receive contexts, and
`pending_cb` counts them. Only `isotp_fast_unbind`, and `isotp_fast_send` where `can_send` fails, look at it
before they free a context.

* `callbacks_of_good`: in a run in which no context is freed while frames are queued for it, and no
  work item of a free one runs, `pending_cb` is the number of those frames.
* `oneBlock_freed`: a first frame that is not transmitted in time.
-/

namespace ThingSet.IsoTp

open Transition Function

variable {n : ℕ} {A β : Type}

/-! ## Send contexts -/

namespace SendNode

/-- The number of queued frames whose callback holds a context. -/
def held (N : SendNode n A β) (i : Fin n) : ℕ := N.queue.countP fun q => q.slot = i

/-- The blocks with `pending_cb`. -/
def blocks (N : SendNode n A β) (i : Fin n) : Slab.Block :=
  ⟨(N.slots i).allocated, (N.slots i).pendingCb⟩

/-- `pending_cb` of each context is the number of queued frames whose callback holds it, and no callback
holds a free block. -/
def Counted (N : SendNode n A β) : Prop := Slab.Counted N.blocks N.held

/-- The condition on an event. No frame is queued when the work item frees the context, when a single
frame is completed within `can_send`, and, besides that frame, when it is completed later. The work
item of a free context does not run. -/
def Unheld [DecidableEq A] (c : IsoTpConfig) (N : SendNode n A β) : SendEvent n A β → Prop
  | .work i _ _ => (N.slots i).allocated = true ∧
      ((N.slots i).state = .err ∨ (N.slots i).state = .waitFin → (N.slots i).pendingCb = 0)
  | .semTaken i _ _ => (N.slots i).allocated = true
  | .send m _ _ (.completed _) =>
    m.data.length ≤ canMaxDlen c - sfLenByte c → ∀ i, N.find m.addr = some i →
      (N.slots i).pendingCb = 0
  | .completed k _ => ∀ q ∈ N.queue[k]?, q.single = true → (N.slots q.slot).pendingCb = 1
  | _ => True

variable {c : IsoTpConfig} {N N' : SendNode n A β} {i j : Fin n} {single : Bool} {r : SendRun A β}
  {stale : Bytes} {o : CanSend} {s : SendSlot A β}

theorem held_apply (N : SendNode n A β) (i j : Fin n) (single : Bool) (r : SendRun A β) :
    (N.apply i single r).held j = N.held j + if r.outstanding ∧ i = j then 1 else 0 := by
  simp only [held, apply]
  by_cases hout : r.outstanding = true
  · rw [if_pos hout, List.countP_append, List.countP_singleton]
    simp [hout]
  · simp [hout]

/-- What holds in runs that meet the condition. -/
structure Inv (N : SendNode n A β) : Prop where
  counted : N.Counted
  listed : ∀ i, (N.slots i).listed = true → (N.slots i).allocated = true

/-- A function runs on a context. The queue may have lost one of the context's frames before. -/
theorem inv_apply {queue : List (Queued n)} (h : N.Inv)
    (hqueue : ∀ j ≠ i, { N with queue := queue }.held j = N.held j)
    (hlisted : r.slot.listed = true → r.slot.allocated = true)
    (hi : (N.blocks i).Steps ⟨r.slot.allocated, r.slot.pendingCb⟩
      ({ N with queue := queue }.held i + if r.outstanding then 1 else 0)) :
    ({ N with queue := queue }.apply i single r).Inv ∧
      Slab.Returned N.blocks ({ N with queue := queue }.apply i single r).blocks := by
  obtain ⟨hcounted, hreturned⟩ : ({ N with queue := queue }.apply i single r).Counted ∧
      Slab.Returned N.blocks ({ N with queue := queue }.apply i single r).blocks := by
    apply Slab.counted_of_ne (i := i) h.counted
    · intro j hj
      refine ⟨?_, (held_apply { N with queue := queue } i j single r).trans ?_⟩
      · simp only [blocks, apply, update_of_ne hj]
      · rw [hqueue j hj, if_neg fun hand => hj hand.2.symm, add_zero]
    · rw [held_apply]
      simpa [blocks, slots_apply] using hi
  refine ⟨⟨hcounted, fun j => ?_⟩, hreturned⟩
  by_cases hj : j = i
  · subst hj
    rw [slots_apply]
    exact hlisted
  · simp only [apply, update_of_ne hj]
    exact h.listed j

/-- A function that keeps the context allocated. -/
theorem inv_of_keeps (h : N.Inv) (hallocated : (N.slots i).allocated = true)
    (hkeeps : (N.slots i).Keeps r) :
    (N.apply i single r).Inv ∧ Slab.Returned N.blocks (N.apply i single r).blocks := by
  have hslot : r.slot.allocated = true := hkeeps.same.allocated.trans hallocated
  refine inv_apply h (fun _ _ => rfl) (fun _ => hslot) (.of_allocated hslot ?_)
  have hpending : (N.slots i).pendingCb = N.held i := (h.counted i).count hallocated
  refine hkeeps.same.pendingCb.trans ?_
  rw [hpending]
  push_cast
  rfl

/-- A function that frees the context. -/
theorem inv_of_free {queue : List (Queued n)} (h : N.Inv)
    (hqueue : ∀ j ≠ i, { N with queue := queue }.held j = N.held j)
    (hheld : { N with queue := queue }.held i = 0) (hr : r.slot = s.free) (hs : s.pendingCb = 0)
    (hout : r.outstanding = false) :
    ({ N with queue := queue }.apply i single r).Inv ∧
      Slab.Returned N.blocks ({ N with queue := queue }.apply i single r).blocks := by
  refine inv_apply h hqueue ?_ (.of_free ?_ ?_ ?_)
  · rw [hr]
    exact fun hlisted => absurd hlisted Bool.false_ne_true
  · rw [hr]
    rfl
  · rw [hheld, hout]
    rfl
  · rw [hr]
    exact hs

/-- What keeps the context's block and its count. -/
theorem inv_of_same (h : N.Inv) (hallocated : r.slot.allocated = (N.slots i).allocated)
    (hpending : r.slot.pendingCb = (N.slots i).pendingCb)
    (hlisted : r.slot.listed = (N.slots i).listed) (hout : r.outstanding = false) :
    (N.apply i single r).Inv ∧ Slab.Returned N.blocks (N.apply i single r).blocks := by
  refine inv_apply h (fun _ _ => rfl) ?_ ?_
  · rw [hlisted, hallocated]
    exact h.listed i
  · rw [hallocated, hpending, hout]
    exact (h.counted i).steps

theorem inv_accept {blocks : Fin n → Slab.Block} (m : Outgoing A β)
    (h : N.Inv ∧ Slab.Returned blocks N.blocks) :
    (N.accept m).Inv ∧ Slab.Returned blocks (N.accept m).blocks :=
  ⟨⟨h.1.counted, h.1.listed⟩, h.2⟩

theorem held_of_pendingCb (h : N.Inv) (hallocated : (N.slots i).allocated = true)
    (hpending : (N.slots i).pendingCb = 0) : N.held i = 0 := by
  have hcount : (N.slots i).pendingCb = N.held i := (h.counted i).count hallocated
  omega

/-- What is queued when one of the frames is completed. -/
theorem held_eraseIdx {k : ℕ} {q : Queued n} (hk : N.queue[k]? = some q) (j : Fin n) :
    N.held j = { N with queue := N.queue.eraseIdx k }.held j + if q.slot = j then 1 else 0 := by
  obtain ⟨hlt, hq⟩ := List.getElem?_eq_some_iff.1 hk
  have hperm := List.getElem_cons_eraseIdx_perm hlt
  simp only [held]
  rw [← hperm.countP_eq, hq, List.countP_cons]
  simp

theorem inv_semTaken (h : N.Inv) (hallocated : (N.slots i).allocated = true) :
    (N.apply i false ((N.slots i).semTaken c stale o)).Inv ∧
      Slab.Returned N.blocks (N.apply i false ((N.slots i).semTaken c stale o)).blocks := by
  have hkeeps := SendSlot.keeps_sendCfRound c stale o
    { N.slots i with taking := false, sem := false }
  obtain ⟨⟨haddr, harg, hpending, horphaned, hslot, hlisted⟩, hsent⟩ := hkeeps
  exact inv_of_keeps h hallocated ⟨⟨haddr, harg, hpending, horphaned, hslot, hlisted⟩, hsent⟩

/-- A message that fits. -/
theorem inv_sendSingle (h : N.Inv) {data : Bytes} {arg : Option β} (hallocated : s.allocated = true)
    (hpending : s.pendingCb = N.held i) (hzero : ∀ error, o = .completed error → N.held i = 0) :
    (N.apply i true (s.sendSingle c stale o data arg).2).Inv ∧
      Slab.Returned N.blocks (N.apply i true (s.sendSingle c stale o data arg).2).blocks := by
  cases o with
  | queued =>
    refine inv_apply h (fun _ _ => rfl) (fun _ => hallocated) (.of_allocated hallocated ?_)
    simp [SendSlot.sendSingle, hpending, held]
  | completed error =>
    have hheld := hzero error rfl
    refine inv_of_free (s := { s with cbArg := arg, pendingCb := s.pendingCb + 1 - 1 }) h
      (fun _ _ => rfl) hheld rfl ?_ rfl
    simp [hpending, hheld]
  | failed eagain =>
    by_cases hfree : s.state = .sendFf ∧ s.pendingCb + 1 - 1 = 0
    · refine inv_of_free (s := { s with cbArg := arg, pendingCb := s.pendingCb + 1 - 1 }) h
        (fun _ _ => rfl) ?_ ?_ hfree.2 rfl
      · have hheld : N.held i = 0 := by omega
        exact hheld
      · simp only [SendSlot.sendSingle, if_pos hfree]
    · have hslot : (s.sendSingle c stale (.failed eagain) data arg).2 =
          { slot := { s with cbArg := arg, pendingCb := s.pendingCb + 1 - 1 } } := by
        simp only [SendSlot.sendSingle, if_neg hfree]
      rw [hslot]
      refine inv_apply h (fun _ _ => rfl) (fun _ => hallocated) (.of_allocated hallocated ?_)
      simp [hpending, held]

theorem timeout_listed (s : SendCtx) : s.timeout.listed = s.listed := by
  rcases timeout_cases s with ⟨-, h⟩ | ⟨-, h⟩ <;> rw [h]

theorem canRx_listed (s : SendCtx) (f : CanFrame) : (s.canRx c f).listed = s.listed := by
  rcases canRx_cases (c := c) s f with ⟨-, -, h⟩ | ⟨-, -, err, wft, timer, ⟨-, h⟩ | ⟨-, h⟩⟩ |
    ⟨-, h⟩ <;> rw [h]

theorem inv_unbind (h : N.Inv) (hallocated : (N.slots i).allocated = true) :
    (N.apply i false (N.slots i).unbind).Inv ∧
      Slab.Returned N.blocks (N.apply i false (N.slots i).unbind).blocks := by
  by_cases hzero : (N.slots i).pendingCb = 0
  · refine inv_of_free (s := { N.slots i with timer := .stopped, work := false }) h (fun _ _ => rfl)
      (held_of_pendingCb h hallocated hzero) ?_ hzero ?_
    · simp only [SendSlot.unbind, if_pos hzero]
    · simp only [SendSlot.unbind, if_pos hzero]
  · refine inv_of_same h ?_ ?_ ?_ ?_ <;> simp only [SendSlot.unbind, if_neg hzero]
    rfl

theorem inv_of_init (h : N.Init) : N.Inv where
  counted i := by
    refine ⟨fun hallocated => ?_, fun _ => ?_⟩
    · exact absurd ((h.slots i).1.symm.trans hallocated) (by decide)
    · simp [held, h.queue]
  listed i hlisted := absurd ((h.slots i).2.1.symm.trans hlisted) (by decide)

section Events

variable [DecidableEq A]

theorem inv_work (h : N.Inv) (hgood : N.Unheld c (.work i stale o)) :
    (N.apply i false ((N.slots i).workHandler c stale o)).Inv ∧
      Slab.Returned N.blocks (N.apply i false ((N.slots i).workHandler c stale o)).blocks := by
  obtain ⟨hallocated, hpending⟩ := hgood
  rcases SendSlot.workHandler_frame c stale o (N.slots i) with hkeeps | ⟨result, hstate, heq⟩
  · exact inv_of_keeps h hallocated hkeeps
  · have hzero : (N.slots i).pendingCb = 0 := hpending (hstate.imp And.left And.left)
    rw [heq]
    exact inv_of_free h (fun _ _ => rfl) (held_of_pendingCb h hallocated hzero) rfl hzero rfl

theorem inv_completed {k : ℕ} {error : ℤ} (h : N.Inv) (hgood : N.Unheld c (.completed k error))
    (hstep : N.step c (.completed k error) = some N') :
    N'.Inv ∧ Slab.Returned N.blocks N'.blocks := by
  simp only [step] at hstep
  cases hk : N.queue[k]? with
  | none => simp [hk] at hstep
  | some q =>
    simp only [hk] at hstep
    have hheld := held_eraseIdx hk q.slot
    rw [if_pos rfl] at hheld
    have hqueue : ∀ j ≠ q.slot, { N with queue := N.queue.eraseIdx k }.held j = N.held j := by
      intro j hj
      rw [held_eraseIdx hk j, if_neg hj.symm, add_zero]
    have hallocated : (N.slots q.slot).allocated = true :=
      (h.counted q.slot).allocated (by omega)
    have hpending : (N.slots q.slot).pendingCb = N.held q.slot :=
      (h.counted q.slot).count hallocated
    split at hstep
    · rename_i hsingle
      obtain rfl := Option.some.inj hstep
      have hone : (N.slots q.slot).pendingCb = 1 := hgood q hk hsingle
      refine inv_of_free (s := { N.slots q.slot with pendingCb := (N.slots q.slot).pendingCb - 1 })
        h hqueue ?_ rfl ?_ rfl
      · omega
      · simp only [hone]
        rfl
    · obtain rfl := Option.some.inj hstep
      rw [update_eq_apply { N with queue := N.queue.eraseIdx k }]
      refine inv_apply h hqueue (fun _ => hallocated) (.of_allocated hallocated ?_)
      simp only [SendSlot.canTxCallback, hpending, hheld]
      simp

theorem find_spec {a : A} (h : N.find a = some i) : N.Listed i ∧ (N.slots i).txAddr = a := by
  rw [find] at h
  simpa using List.find?_some h

/-- The context that a call of `isotp_fast_send` finds or creates. -/
theorem getSendCtx_spec {a : A} {block : Fin n} (h : N.Inv)
    (hget : N.getSendCtx c a block = some (some (i, s))) :
    s.allocated = true ∧ s.pendingCb = N.held i ∧
      (N.find a = some i ∧ s = N.slots i ∨ N.held i = 0) := by
  rw [getSendCtx] at hget
  cases hfind : N.find a with
  | some j =>
    simp only [hfind, Option.some.injEq, Prod.mk.injEq] at hget
    obtain ⟨rfl, rfl⟩ := hget
    have hallocated := h.listed j (find_spec hfind).1.1
    exact ⟨hallocated, (h.counted j).count hallocated, .inl ⟨rfl, rfl⟩⟩
  | none =>
    simp only [hfind] at hget
    split at hget
    · cases hget
    · split at hget
      · cases hget
      · rename_i hfree
        simp only [Option.some.injEq, Prod.mk.injEq] at hget
        obtain ⟨rfl, rfl⟩ := hget
        have hheld : N.held block = 0 := (h.counted block).free (eq_false_of_ne_true hfree)
        exact ⟨rfl, by rw [hheld]; rfl, .inr hheld⟩

theorem inv_send {m : Outgoing A β} {block : Fin n} (h : N.Inv)
    (hgood : N.Unheld c (.send m block stale o))
    (hstep : N.step c (.send m block stale o) = some N') :
    N'.Inv ∧ Slab.Returned N.blocks N'.blocks := by
  simp only [step, fastSend] at hstep
  split at hstep
  · rename_i hlength
    obtain ⟨x, hget, rfl⟩ := Option.map_eq_some_iff.1 hstep
    cases x with
    | none => exact ⟨h, Slab.returned_refl _⟩
    | some p =>
      obtain ⟨i, s⟩ := p
      obtain ⟨hallocated, hpending, hor⟩ := getSendCtx_spec h hget
      have hzero : ∀ error, o = .completed error → N.held i = 0 := by
        rintro error rfl
        rcases hor with ⟨hfind, rfl⟩ | hheld
        · exact held_of_pendingCb h hallocated (hgood hlength i hfind)
        · exact hheld
      have hinv : (N.apply i true (s.sendSingle c stale o m.data m.arg).2).Inv ∧
          Slab.Returned N.blocks (N.apply i true (s.sendSingle c stale o m.data m.arg).2).blocks :=
        inv_sendSingle h hallocated hpending hzero
      dsimp only
      split
      · exact inv_accept m hinv
      · exact hinv
  · split at hstep
    · obtain rfl := Option.some.inj hstep
      exact ⟨h, Slab.returned_refl _⟩
    · obtain ⟨x, hget, rfl⟩ := Option.map_eq_some_iff.1 hstep
      cases x with
      | none => exact ⟨h, Slab.returned_refl _⟩
      | some p =>
        obtain ⟨i, s⟩ := p
        obtain ⟨hallocated, hpending, -⟩ := getSendCtx_spec h hget
        have hinv : (N.apply i false { slot := s.sendLong m.data m.arg }).Inv ∧ Slab.Returned N.blocks
            (N.apply i false { slot := s.sendLong m.data m.arg }).blocks :=
          inv_apply h (fun _ _ => rfl) (fun _ => hallocated) (.of_allocated hallocated hpending)
        dsimp only
        rw [update_eq_apply N]
        exact inv_accept m hinv

/-- What an event preserves that meets the condition. -/
theorem inv_step {e : SendEvent n A β} (h : N.Inv) (hgood : N.Unheld c e)
    (hstep : N.step c e = some N') : N'.Inv ∧ Slab.Returned N.blocks N'.blocks := by
  cases e with
  | send m block stale o => exact inv_send h hgood hstep
  | work i stale o =>
    simp only [step] at hstep
    split at hstep
    · obtain rfl := Option.some.inj hstep
      exact inv_work h hgood
    · cases hstep
  | semTaken i stale o =>
    simp only [step] at hstep
    split at hstep
    · obtain rfl := Option.some.inj hstep
      exact inv_semTaken h hgood
    · cases hstep
  | completed k error => exact inv_completed h hgood hstep
  | timer i =>
    simp only [step] at hstep
    split at hstep
    · obtain rfl := Option.some.inj hstep
      rw [update_eq_apply]
      exact inv_of_same h rfl rfl (timeout_listed _) rfl
    · cases hstep
  | flowControl a f =>
    simp only [step] at hstep
    cases hfind : N.find a with
    | none =>
      simp only [hfind] at hstep
      obtain rfl := Option.some.inj hstep
      exact ⟨h, Slab.returned_refl _⟩
    | some i =>
      simp only [hfind] at hstep
      obtain rfl := Option.some.inj hstep
      rw [update_eq_apply]
      exact inv_of_same h rfl rfl (canRx_listed _ f) rfl
  | unbind i =>
    simp only [step] at hstep
    split at hstep
    · rename_i hlisted
      obtain rfl := Option.some.inj hstep
      exact inv_unbind h (h.listed i hlisted.1.1)
    · cases hstep

end Events

end SendNode

/-! ## Receive contexts -/

namespace RecvSlot

variable {c : RecvConfig} {s : RecvSlot A} {f : CanFrame}

/-- The contexts have the same block and count. -/
def SameBlock (s t : RecvSlot A) : Prop :=
  t.allocated = s.allocated ∧ t.pendingCb = s.pendingCb

theorem sameBlock_processFfSf (s : RecvSlot A) (f : CanFrame) :
    s.SameBlock (s.processFfSf c f).1 := by
  rw [processFfSf]
  split
  · split <;> exact ⟨rfl, rfl⟩
  · split
    · dsimp only
      split <;> exact ⟨rfl, rfl⟩
    · exact ⟨rfl, rfl⟩

theorem sameBlock_processCf (s : RecvSlot A) (f : CanFrame) : s.SameBlock (s.processCf c f).1 := by
  rw [processCf]
  split
  · exact ⟨rfl, rfl⟩
  · dsimp only
    split
    · exact ⟨rfl, rfl⟩
    · split
      · exact ⟨rfl, rfl⟩
      · split
        · split <;> exact ⟨rfl, rfl⟩
        · exact ⟨rfl, rfl⟩

theorem sameBlock_canRx (s : RecvSlot A) (f : CanFrame) : s.SameBlock (s.canRx c f).1 := by
  rw [canRx]
  cases s.state with
  | waitFfSf => exact sameBlock_processFfSf s f
  | waitCf =>
    dsimp only
    split
    · exact sameBlock_processCf s f
    · exact sameBlock_processCf s f
  | _ => exact ⟨rfl, rfl⟩

theorem sameBlock_timeout (s : RecvSlot A) : s.SameBlock s.timeout := by
  rw [timeout]
  dsimp only
  cases s.state <;> exact ⟨rfl, rfl⟩

end RecvSlot

namespace RecvNode

/-- The number of queued frames whose callback holds a context. -/
def held (N : RecvNode n A) (i : Fin n) : ℕ := N.queue.count i

/-- The blocks with `pending_cb`. -/
def blocks (N : RecvNode n A) (i : Fin n) : Slab.Block :=
  ⟨(N.slots i).allocated, (N.slots i).pendingCb⟩

/-- `pending_cb` of each context is the number of queued frames whose callback holds it, and no callback
holds a free block. -/
def Counted (N : RecvNode n A) : Prop := Slab.Counted N.blocks N.held

/-- The condition on an event. No frame is queued when there is no buffer for a frame of the context's
sender, when the work item closes a context that no reader owns, and when the reader that has the
context is removed; and an overflow is not answered with a frame that is still queued. The work
item of a free context does not run. -/
def Unheld [DecidableEq A] (c : RecvConfig) (N : RecvNode n A) : RecvEvent n A → Prop
  | .frame addr _ _ buffer => buffer = false → ∀ i, N.find addr = some i → (N.slots i).pendingCb = 0
  | .work i o => (N.slots i).allocated = true ∧
      ((N.slots i).Closes c (o 0) → ¬ (N.slots i).Owned c N.awaiters →
        (N.slots i).pendingCb = 0 ∧ ((N.slots i).Overflows c → o 0 ≠ .queued))
  | .unbindReader => ∀ a ∈ N.awaiters.head?, ∀ i ∈ a.rctx, (N.slots i).allocated = true →
      (N.slots i).pendingCb = 0
  | _ => True

variable {c : RecvConfig} {N N' : RecvNode n A} {i : Fin n} {s : RecvSlot A}

theorem counted_update (h : N.Counted) (hslots : N'.slots = update N.slots i s)
    (hqueue : ∀ j ≠ i, N'.held j = N.held j)
    (hi : (N.blocks i).Steps ⟨s.allocated, s.pendingCb⟩ (N'.held i)) :
    N'.Counted ∧ Slab.Returned N.blocks N'.blocks := by
  apply Slab.counted_of_ne (i := i) h
  · intro j hj
    refine ⟨?_, hqueue j hj⟩
    simp only [blocks, hslots, update_of_ne hj]
  · simpa only [blocks, hslots, update_self] using hi

/-- What keeps the context's block and its count. -/
theorem counted_of_same (h : N.Counted) (hslots : N'.slots = update N.slots i s)
    (hqueue : N'.queue = N.queue) (hs : (N.slots i).SameBlock s) :
    N'.Counted ∧ Slab.Returned N.blocks N'.blocks := by
  have hheld : ∀ j, N'.held j = N.held j := fun j => congrArg (List.count j) hqueue
  refine counted_update h hslots (fun j _ => hheld j) ?_
  rw [hs.1, hs.2, hheld]
  exact (h i).steps

/-- What frees the context. -/
theorem counted_of_free (h : N.Counted) (hslots : N'.slots = update N.slots i s.free)
    (hqueue : N'.queue = N.queue) (hheld : N.held i = 0) (hs : s.pendingCb = 0) :
    N'.Counted ∧ Slab.Returned N.blocks N'.blocks := by
  have hheld' : ∀ j, N'.held j = N.held j := fun j => congrArg (List.count j) hqueue
  exact counted_update h hslots (fun j _ => hheld' j) (.of_free rfl ((hheld' i).trans hheld) hs)

theorem held_of_pendingCb (h : N.Counted)
    (hpending : (N.slots i).allocated = true → (N.slots i).pendingCb = 0) : N.held i = 0 := by
  by_cases hallocated : (N.slots i).allocated = true
  · have hcount : (N.slots i).pendingCb = N.held i := (h i).count hallocated
    have hzero := hpending hallocated
    omega
  · exact (h i).free (eq_false_of_ne_true hallocated)

theorem counted_work {o : ℕ → CanSend} [DecidableEq A] (h : N.Counted)
    (hgood : N.Unheld c (.work i o)) :
    (N.apply i ({ N.slots i with work := false }.receiveStateMachine c o i N.awaiters)).Counted ∧
      Slab.Returned N.blocks
        (N.apply i ({ N.slots i with work := false }.receiveStateMachine c o i N.awaiters)).blocks := by
  obtain ⟨hallocated, hclose⟩ := hgood
  have haccounts := accounts_receiveStateMachine c o i { N.slots i with work := false } N.awaiters
  have hpending : (N.slots i).pendingCb = N.held i := (h i).count hallocated
  have hheld : ∀ j, (N.apply i ({ N.slots i with work := false }.receiveStateMachine c o i
      N.awaiters)).held j = N.held j + if i = j then
        ({ N.slots i with work := false }.receiveStateMachine c o i N.awaiters).outstanding else 0 := by
    intro j
    simp [held, apply, List.count_replicate]
  refine counted_update h rfl (fun j hj => by rw [hheld, if_neg hj.symm, add_zero]) ?_
  rw [hheld, if_pos rfl]
  by_cases hends : (N.slots i).Closes c (o 0) ∧ ¬ (N.slots i).Owned c N.awaiters
  · -- the context is freed, or it is not
    obtain ⟨hzero, hanswer⟩ := hclose hends.1 hends.2
    have hout := outstanding_of_closes c o i { N.slots i with work := false } N.awaiters
      hends.1 hanswer
    have hcount : ({ N.slots i with work := false }.receiveStateMachine c o i
        N.awaiters).slot.pendingCb = 0 := by
      rw [haccounts, hout]
      simpa using hzero
    rw [hout, add_zero]
    refine ⟨⟨fun _ => ?_, fun _ => ?_⟩, fun _ _ => hcount⟩
    · exact hcount.trans (hzero.symm.trans hpending)
    · omega
  · have hopen := unfreed_of_owned c o i { N.slots i with work := false } N.awaiters hallocated (by
      by_cases howned : (N.slots i).Owned c N.awaiters
      · exact .inl howned
      · exact .inr fun hcloses => hends ⟨hcloses, howned⟩)
    refine .of_allocated hopen (haccounts.trans ?_)
    simp [hpending]

theorem counted_completed {k : ℕ} {error : ℤ} [DecidableEq A] (h : N.Counted)
    (hstep : N.step c (.completed k error) = some N') :
    N'.Counted ∧ Slab.Returned N.blocks N'.blocks := by
  simp only [step] at hstep
  cases hk : N.queue[k]? with
  | none => simp [hk] at hstep
  | some i =>
    simp only [hk] at hstep
    obtain rfl := Option.some.inj hstep
    obtain ⟨hlt, hi⟩ := List.getElem?_eq_some_iff.1 hk
    have hheld : ∀ j, N.held j = (N.queue.eraseIdx k).count j + if i = j then 1 else 0 := by
      intro j
      have hperm := List.getElem_cons_eraseIdx_perm hlt
      rw [held, ← hperm.count_eq, hi, List.count_cons]
      simp
    have hallocated : (N.slots i).allocated = true := (h i).allocated (by simp [hheld])
    have hpending : (N.slots i).pendingCb = N.held i := (h i).count hallocated
    obtain ⟨-, -, hcount, -, hkept⟩ := RecvRun.canTx_fields (N.slots i) error
    refine counted_update h rfl (fun j hj => ?_) (.of_allocated (hkept.trans hallocated) ?_)
    · rw [hheld, if_neg hj.symm, add_zero]
      rfl
    · refine hcount.trans ?_
      rw [hpending, hheld]
      simp [held]

theorem counted_frame [DecidableEq A] {addr : A} {f : CanFrame} {block : Fin n} {buffer : Bool}
    (h : N.Counted) (hgood : N.Unheld c (.frame addr f block buffer))
    (hstep : N.step c (.frame addr f block buffer) = some N') :
    N'.Counted ∧ Slab.Returned N.blocks N'.blocks := by
  simp only [step, receiveCanRx] at hstep
  cases hfind : N.find addr with
  | some i =>
    simp only [hfind] at hstep
    split at hstep
    · obtain rfl := Option.some.inj hstep
      exact counted_of_same h rfl rfl (RecvSlot.sameBlock_canRx _ f)
    · rename_i hbuffer
      obtain rfl := Option.some.inj hstep
      have hzero := hgood (by simpa using hbuffer) i hfind
      exact counted_of_free h rfl rfl (held_of_pendingCb h fun _ => hzero) hzero
  | none =>
    simp only [hfind] at hstep
    split at hstep
    · obtain rfl := Option.some.inj hstep
      exact ⟨h, Slab.returned_refl _⟩
    split at hstep
    · obtain rfl := Option.some.inj hstep
      exact ⟨h, Slab.returned_refl _⟩
    split at hstep
    · cases hstep
    rename_i hfree
    split at hstep
    · obtain rfl := Option.some.inj hstep
      exact ⟨h, Slab.returned_refl _⟩
    · obtain rfl := Option.some.inj hstep
      obtain ⟨hallocated, hpending⟩ := RecvSlot.sameBlock_canRx (c := c)
        ((N.slots block).create addr) f
      have hheld : (N.canRx c block ((N.slots block).create addr) f).held block = 0 :=
        (h block).free (eq_false_of_ne_true hfree)
      refine counted_update h rfl (fun _ _ => rfl) (.of_allocated hallocated (hpending.trans ?_))
      rw [hheld]
      rfl

/-- What an event preserves that meets the condition. -/
theorem counted_step [DecidableEq A] {e : RecvEvent n A} (h : N.Counted) (hgood : N.Unheld c e)
    (hstep : N.step c e = some N') : N'.Counted ∧ Slab.Returned N.blocks N'.blocks := by
  cases e with
  | frame addr f block buffer => exact counted_frame h hgood hstep
  | work i o =>
    simp only [step] at hstep
    split at hstep
    · obtain rfl := Option.some.inj hstep
      exact counted_work h hgood
    · cases hstep
  | completed k error => exact counted_completed h hstep
  | timer i =>
    simp only [step] at hstep
    split at hstep
    · obtain rfl := Option.some.inj hstep
      exact counted_of_same h rfl rfl (RecvSlot.sameBlock_timeout _)
    · cases hstep
  | unbindReader =>
    simp only [step] at hstep
    cases hawaiters : N.awaiters with
    | nil => simp [hawaiters] at hstep
    | cons a as =>
      simp only [hawaiters] at hstep
      cases hrctx : a.rctx with
      | none =>
        simp only [hrctx] at hstep
        obtain rfl := Option.some.inj hstep
        exact ⟨h, Slab.returned_refl _⟩
      | some i =>
        simp only [hrctx] at hstep
        obtain rfl := Option.some.inj hstep
        have hzero := hgood a (by simp [hawaiters]) i hrctx
        have hheld : N.held i = 0 := held_of_pendingCb h hzero
        refine counted_update h rfl (fun _ _ => rfl) ⟨⟨fun ha => ?_, fun _ => ?_⟩, fun ha _ => ?_⟩
        · exact absurd ha Bool.false_ne_true
        · exact hheld
        · exact hzero ha
  | unbind i =>
    simp only [step] at hstep
    split at hstep
    · rename_i hlisted
      obtain rfl := Option.some.inj hstep
      by_cases hzero : (N.slots i).pendingCb = 0
      · refine counted_of_free (s := { N.slots i with timer := false, work := false }) h ?_ rfl
          (held_of_pendingCb h fun _ => hzero) hzero
        simp only [RecvSlot.unbind, if_pos hzero]
      · refine counted_of_same h rfl rfl ?_
        simp only [RecvSlot.unbind, if_neg hzero]
        exact ⟨rfl, rfl⟩
    · cases hstep

theorem counted_of_init (h : N.Init) : N.Counted := by
  intro i
  refine ⟨fun hallocated => ?_, fun _ => ?_⟩
  · exact absurd ((h.slots i).1.symm.trans hallocated) (by decide)
  · simp [held, h.queue]

end RecvNode

/-! ## Runs -/

variable {m : ℕ} [DecidableEq A]

/-- `isotp_fast`: the send contexts and the receive contexts, and what can happen to either. -/
def nodeStep (c : RecvConfig) :
    SendNode n A β × RecvNode m A → SendEvent n A β ⊕ RecvEvent m A →
      Option (SendNode n A β × RecvNode m A) :=
  interleave (SendNode.step c.toIsoTpConfig) (RecvNode.step c)

/-- The condition on an event of a node. -/
def NodeUnheld (c : RecvConfig) (N : SendNode n A β × RecvNode m A) :
    SendEvent n A β ⊕ RecvEvent m A → Prop
  | .inl e => N.1.Unheld c.toIsoTpConfig e
  | .inr e => N.2.Unheld c e

/-- What an event of a node preserves that meets the condition. -/
theorem inv_nodeStep {c : RecvConfig} {N N' : SendNode n A β × RecvNode m A}
    {e : SendEvent n A β ⊕ RecvEvent m A} (h : N.1.Inv ∧ N.2.Counted) (hgood : NodeUnheld c N e)
    (hstep : nodeStep c N e = some N') :
    (N'.1.Inv ∧ N'.2.Counted) ∧
      Slab.Returned N.1.blocks N'.1.blocks ∧ Slab.Returned N.2.blocks N'.2.blocks := by
  cases e with
  | inl e =>
    obtain ⟨S', hS', rfl⟩ := Option.map_eq_some_iff.1 hstep
    obtain ⟨hinv, hreturned⟩ := SendNode.inv_step h.1 hgood hS'
    exact ⟨⟨hinv, h.2⟩, hreturned, Slab.returned_refl _⟩
  | inr e =>
    obtain ⟨R', hR', rfl⟩ := Option.map_eq_some_iff.1 hstep
    obtain ⟨hcounted, hreturned⟩ := RecvNode.counted_step h.2 hgood hR'
    exact ⟨⟨h.1, hcounted⟩, Slab.returned_refl _, hreturned⟩

/-- **In a run whose events all meet the condition, `pending_cb` of each context is the number of
queued frames whose callback holds it, no callback holds a free block, and no event that meets the
condition returns a context whose `pending_cb` is not zero.** -/
theorem callbacks_of_good {c : RecvConfig} {S₀ S : SendNode n A β} {R₀ R : RecvNode m A}
    {es : List (SendEvent n A β ⊕ RecvEvent m A)} (hsend : S₀.Init) (hrecv : R₀.Init)
    (hgood : Meets (nodeStep c) (NodeUnheld c) (S₀, R₀) es)
    (hrun : runFrom (nodeStep c) (S₀, R₀) es = some (S, R)) :
    S.Counted ∧ R.Counted ∧ ∀ e S' R', NodeUnheld c (S, R) e →
      nodeStep c (S, R) e = some (S', R') →
        Slab.Returned S.blocks S'.blocks ∧ Slab.Returned R.blocks R'.blocks := by
  have hinv : S.Inv ∧ R.Counted := runFrom_invariant_of_meets
    (P := fun N : SendNode n A β × RecvNode m A => N.1.Inv ∧ N.2.Counted)
    (fun _ _ _ h hgood hstep => (inv_nodeStep h hgood hstep).1)
    ⟨SendNode.inv_of_init hsend, RecvNode.counted_of_init hrecv⟩ hgood hrun
  refine ⟨hinv.1.counted, hinv.2, ?_⟩
  intro e S' R' hgood hstep
  exact (inv_nodeStep hinv hgood hstep).2

/-! ## Two blocks -/

/-- A message of two bytes is sent and completed; another one is received. -/
def twoBytes : List (SendEvent 1 Unit Bool ⊕ RecvEvent 1 Unit) :=
  [.inl (.send ⟨(), [5, 6], none⟩ ⟨0, Nat.one_pos⟩ [] .queued), .inl (.completed 0 0),
    .inr (.frame () ⟨[2, 7, 8, 0, 0, 0, 0, 0], 3⟩ ⟨0, Nat.one_pos⟩ true)]

/-- The work item returns the receive context. -/
theorem twoBytes_returned :
    ∃ N N', runFrom (nodeStep wholeMessages) (oneBlock, oneRecvBlock) twoBytes = some N ∧
      nodeStep wholeMessages N (.inr (.work 0 fun _ => .queued)) = some N' ∧
      N.1.Counted ∧ N.2.Counted ∧ (N.2.blocks 0).allocated = true ∧
      (N'.2.blocks 0).allocated = false ∧ (N'.2.blocks 0).count = 0 := by
  have hgood : Meets (nodeStep wholeMessages) (NodeUnheld wholeMessages) (oneBlock, oneRecvBlock)
      twoBytes := by
    refine ⟨trivial, fun _ h => ?_⟩
    obtain rfl := Option.some.inj h
    refine ⟨?_, fun _ h => ?_⟩
    · rintro q ⟨⟩ -
      rfl
    obtain rfl := Option.some.inj h
    exact ⟨nofun, fun _ _ => trivial⟩
  have h := fun S R => callbacks_of_good (S := S) (R := R) oneBlock_init oneRecvBlock_init hgood
  refine ⟨(_, _), (_, _), rfl, rfl, (h _ _ rfl).1, (h _ _ rfl).2.1, rfl, rfl, ?_⟩
  refine ((h _ _ rfl).2.2 (.inr (.work 0 fun _ => .queued)) _ _ ⟨rfl, fun _ _ => ⟨rfl, ?_⟩⟩ rfl).2
    0 rfl rfl
  intro hoverflows
  exact absurd hoverflows (by decide +kernel)

/-- A first frame is not transmitted before the timer expires: the context is freed while the frame is
queued. An overflow is answered: so it is with the answer. -/
theorem oneBlock_freed :
    (∃ N ∈ runFrom (nodeStep wholeMessages) (oneBlock, oneRecvBlock)
        [.inl (.send firstMessage 0 [] .queued), .inl (.work 0 [] .queued), .inl (.timer 0),
          .inl (.work 0 [] .queued)],
      (N.1.blocks 0).allocated = false ∧ (N.1.blocks 0).count = 1 ∧ N.1.held 0 = 1) ∧
    ∃ N ∈ runFrom (nodeStep wholeMessages) (oneBlock, oneRecvBlock)
        [.inr (.frame () ⟨[0x1F, 0xFF, 0, 0, 0, 0, 0, 0], 8⟩ 0 true),
          .inr (.work 0 fun _ => .queued)],
      (N.2.blocks 0).allocated = false ∧ (N.2.blocks 0).count = 1 ∧ N.2.held 0 = 1 := by
  decide +kernel

end ThingSet.IsoTp
