import ThingSet.IsoTp.Frames
import ThingSet.IsoTp.Freed
import ThingSet.IsoTp.RecvPool

/-!
# Lengths of received messages

What a receive context has taken of a message and what is left of it are, together, what the single or
first frame has declared (`RecvSlot.Counted`). The checks of `process_ff_sf` and `process_cf` let frames
through that break this (`RecvSlot.Takes`, `CanFrame.Proper`).

`lengths_of_good`: where no such frame comes, the remaining length never wraps, every byte is copied
from the received part of its frame, and every message has the length that was declared.
-/

namespace ThingSet.IsoTp

open Transition Function

variable {ι A : Type} {n : ℕ} {c : RecvConfig} {o : ℕ → CanSend} {i : ι} {s : RecvSlot A} {f : CanFrame}

/-! ## Counting -/

/-- The remaining length does not wrap, and the bytes are of those that were received. -/
def Copy.Sound (copy : Copy) : Prop :=
  copy.len ≤ copy.remLen ∧ (0 < copy.len → copy.index + copy.len ≤ copy.available)

/-- The bytes before a call, those of the call and those that remain are what was declared. A call
without dispatch of single frames has all bytes. -/
def RecvCall.Exact (c : RecvConfig) (call : RecvCall A) : Prop :=
  call.before + call.data.length + call.remLen = call.declared ∧
    (c.perFrameDispatch = false → call.before = 0 ∧ call.remLen = 0)

/-- The number of bytes of the message so far. -/
def RecvSlot.taken (c : RecvConfig) (s : RecvSlot A) : ℕ :=
  if c.perFrameDispatch then s.dispatched + (s.recvQueue.map (·.data.length)).sum else s.buffer.length

/-- What was taken and what remains are what was declared. -/
structure RecvSlot.Counted (c : RecvConfig) (s : RecvSlot A) : Prop where
  total : s.taken c + s.remLen = s.declared
  bound : s.remLen < 4096
  whole : c.perFrameDispatch = false → s.dispatched = 0

/-- A message is being received. -/
def RxState.Active : RxState → Prop
  | .waitFfSf | .err | .unbound => False
  | _ => True

/-- The message is complete. -/
def RxState.Complete : RxState → Prop
  | .processSf | .recycle => True
  | _ => False

/-- A context that was created: what a message that is being received counts, what the calls for the
fragments in its queue would say, and what it has before the first frame, at the end of a message and
after it was freed. -/
structure RecvSlot.Counts (c : RecvConfig) (s : RecvSlot A) : Prop where
  active : s.state.Active → (c.perFrameDispatch = true → s.allocated = true) → s.Counted c
  parts : c.perFrameDispatch = true → ∀ call ∈ dispatch s.rxAddr s.declared s.dispatched s.recvQueue,
    call.Exact c
  idle : s.state = .waitFfSf → s.buffer = [] ∧ s.recvQueue = []
  freed : c.perFrameDispatch = true → s.allocated = false → s.recvQueue = []
  complete : s.state.Complete → s.remLen = 0

theorem RxState.Complete.active {state : RxState} (h : state.Complete) : state.Active := by
  cases state <;> trivial

theorem dispatch_append (addr : A) (declared before : ℕ) (frags frags' : List Fragment) :
    dispatch addr declared before (frags ++ frags') = dispatch addr declared before frags ++
      dispatch addr declared (before + (frags.map (·.data.length)).sum) frags' := by
  induction frags generalizing before with
  | nil => rfl
  | cons frag frags ih =>
    rw [List.cons_append, dispatch, dispatch, ih, List.map_cons, List.sum_cons, List.cons_append,
      Nat.add_assoc]

/-! ## Runs of the state machine -/

namespace RecvRun

variable {again : RecvRun ι A → RecvRun ι A} {r : RecvRun ι A} {active : Prop}

/-- What a run keeps of a context; `active` says whether it was receiving a message. -/
structure Counts (c : RecvConfig) (active : Prop) (r : RecvRun ι A) : Prop where
  calls : ∀ call ∈ r.calls, call.Exact c
  queue : c.perFrameDispatch = true → r.slot.recvQueue = []
  counted : active → (c.perFrameDispatch = true → r.slot.allocated = true) → r.slot.Counted c
  complete : r.slot.state.Complete → active ∧ r.slot.remLen = 0

theorem Counts.touch (h : Counts c active r) (accesses : List Access) :
    Counts c active (r.touch accesses) := by
  rw [RecvRun.touch]
  split
  · exact h
  · exact ⟨h.calls, h.queue, h.counted, h.complete⟩

/-- A run goes on with a context in which the fields that count are the same. -/
theorem Counts.slot (h : Counts c active r) {s : RecvSlot A} (hbuffer : s.buffer = r.slot.buffer)
    (hdeclared : s.declared = r.slot.declared) (hdispatched : s.dispatched = r.slot.dispatched)
    (hremLen : s.remLen = r.slot.remLen) (hallocated : s.allocated = true → r.slot.allocated = true)
    (hqueue : c.perFrameDispatch = true → s.recvQueue = [])
    (hstate : s.state.Complete → active ∧ r.slot.remLen = 0) :
    Counts c active { r with slot := s } where
  calls := h.calls
  queue := hqueue
  counted hactive hin := by
    have hcounted := h.counted hactive fun hper => hallocated (hin hper)
    refine ⟨?_, hremLen.trans_lt hcounted.bound, fun hper => hdispatched.trans (hcounted.whole hper)⟩
    have htaken : s.taken c = r.slot.taken c := by
      rw [RecvSlot.taken, RecvSlot.taken, hbuffer, hdispatched]
      split
      · rename_i hper
        rw [hqueue hper, h.queue hper]
      · rfl
    exact (congrArg₂ (· + ·) htaken hremLen).trans (hcounted.total.trans hdeclared.symm)
  complete hcomplete := ⟨(hstate hcomplete).1, hremLen.trans (hstate hcomplete).2⟩

/-- Fields that do not count are written. -/
theorem Counts.modify (h : Counts c active r) {f : RecvSlot A → RecvSlot A}
    (hf : (f r.slot).buffer = r.slot.buffer ∧ (f r.slot).declared = r.slot.declared ∧
      (f r.slot).dispatched = r.slot.dispatched ∧ (f r.slot).remLen = r.slot.remLen ∧
      (f r.slot).allocated = r.slot.allocated ∧ (f r.slot).recvQueue = r.slot.recvQueue)
    (hstate : (f r.slot).state.Complete → r.slot.state.Complete) :
    Counts c active (r.modify f) := by
  obtain ⟨hbuffer, hdeclared, hdispatched, hremLen, hallocated, hqueue⟩ := hf
  have htouch := h.touch [.read, .write]
  have hslot := touch_slot r [.read, .write]
  refine htouch.slot ?_ ?_ ?_ ?_ ?_ (fun hper => hqueue.trans (h.queue hper)) fun hcomplete => ?_
  · rw [hslot, hbuffer]
  · rw [hslot, hdeclared]
  · rw [hslot, hdispatched]
  · rw [hslot, hremLen]
  · rw [hslot, hallocated]
    exact id
  · rw [hslot]
    exact h.complete (hstate hcomplete)

theorem Counts.startTimer (h : Counts c active r) : Counts c active r.startTimer :=
  have htouch := h.touch [.startTimer]
  ⟨htouch.calls, h.queue, fun hactive hin => ⟨(h.counted hactive hin).total,
    (h.counted hactive hin).bound, (h.counted hactive hin).whole⟩, h.complete⟩

theorem Counts.free (h : Counts c active r) : Counts c active r.free := by
  have htouch := h.touch [.free]
  have hslot := touch_slot r [.free]
  have hfree : Counts c active { r.touch [.free] with slot := r.slot.free } :=
    htouch.slot (by rw [hslot]; rfl) (by rw [hslot]; rfl) (by rw [hslot]; rfl) (by rw [hslot]; rfl)
      (by nofun) (fun _ => rfl) (fun hcomplete => by rw [hslot]; exact h.complete hcomplete)
  exact ⟨hfree.calls, hfree.queue, hfree.counted, hfree.complete⟩

theorem Counts.freeIfUnowned (h : Counts c active r) : Counts c active (r.freeIfUnowned c) := by
  rw [RecvRun.freeIfUnowned]
  split
  · exact h.touch _
  · exact h.free

theorem Counts.notify (h : Counts c active r) : Counts c active (r.notifyWaitingReceiver c i) := by
  rw [notifyWaitingReceiver]
  split
  · cases notifyFirst i r.slot.rxAddr r.awaiters with
    | none => exact h.touch _
    | some p =>
      have htouch := h.touch [.read, .write]
      have hslot := touch_slot r [.read, .write]
      have hnotified := htouch.slot (s := { r.slot with
          pending := true
          recvQueue := if p.2 ∧ r.slot.error ≠ .ok then [] else r.slot.recvQueue })
        (by rw [hslot]) (by rw [hslot]) (by rw [hslot]) (by rw [hslot]) (by rw [hslot]; exact id)
        (fun hper => by simp [h.queue hper]) (fun hcomplete => by rw [hslot]; exact h.complete hcomplete)
      exact ⟨hnotified.calls, hnotified.queue, hnotified.counted, hnotified.complete⟩
  · exact h

/-- The fragments in the queue are dispatched. -/
theorem counts_dispatchQueue (hcalls : ∀ call ∈ r.calls, call.Exact c)
    (hcounted : active → (c.perFrameDispatch = true → r.slot.allocated = true) → r.slot.Counted c)
    (hcomplete : r.slot.state.Complete → active ∧ r.slot.remLen = 0)
    (hparts : c.perFrameDispatch = true →
      ∀ call ∈ dispatch r.slot.rxAddr r.slot.declared r.slot.dispatched r.slot.recvQueue, call.Exact c) :
    Counts c active (r.dispatchQueue c) := by
  rw [dispatchQueue]
  split
  · rename_i hper
    refine ⟨fun call hcall => ?_, fun _ => rfl, fun hactive hin => ?_, hcomplete⟩
    · rcases List.mem_append.1 hcall with hcall | hcall
      · rw [modify, touch] at hcall
        split at hcall
        · exact hcalls call hcall
        · exact hcalls call hcall
      · split at hcall
        · cases hcall
        · exact hparts hper call hcall
    · have htotal := (hcounted hactive hin).total
      refine ⟨?_, (hcounted hactive hin).bound, fun hne => absurd (hper.symm.trans hne) (by decide)⟩
      rw [RecvSlot.taken, if_pos hper] at htotal ⊢
      exact htotal
  · rename_i hper
    exact ⟨hcalls, fun hp => absurd hp hper, hcounted, hcomplete⟩

theorem Counts.dispatchQueue (h : Counts c active r) : Counts c active (r.dispatchQueue c) :=
  counts_dispatchQueue h.calls h.counted h.complete fun hper call hcall => by
    rw [h.queue hper] at hcall
    cases hcall

theorem Counts.recvErrorCallback (h : Counts c active r) : Counts c active r.recvErrorCallback := by
  rw [RecvRun.recvErrorCallback]
  split
  · exact h
  · exact ⟨h.calls, h.queue, h.counted, h.complete⟩

/-- A flow control frame is sent. -/
theorem Counts.receiveSendFc (hagain : ∀ r, Counts c active r → Counts c active (again r))
    (h : Counts c active r) (fs : UInt8) : Counts c active (r.receiveSendFc c o again fs) := by
  have hsends : Counts c active { r with sends := r.sends + 1 } :=
    ⟨h.calls, h.queue, h.counted, h.complete⟩
  have hsent := hsends.modify (f := fun s => { s with pendingCb := s.pendingCb + 1 })
    ⟨rfl, rfl, rfl, rfl, rfl, rfl⟩ id
  rw [RecvRun.receiveSendFc]
  cases o r.sends with
  | queued => exact ⟨hsent.calls, hsent.queue, hsent.counted, hsent.complete⟩
  | completed error =>
    have hdone := hsent.modify (f := fun s => s.canTx error)
      (by simp only [RecvSlot.canTx]; split <;> exact ⟨rfl, rfl, rfl, rfl, rfl, rfl⟩)
      (by simp only [RecvSlot.canTx]; split <;> [rintro ⟨⟩; exact id])
    exact ⟨hdone.calls, hdone.queue, hdone.counted, hdone.complete⟩
  | failed eagain =>
    exact hagain _ (hsent.modify ⟨rfl, rfl, rfl, rfl, rfl, rfl⟩ (by rintro ⟨⟩))

theorem Counts.sendCts (hagain : ∀ r, Counts c active r → Counts c active (again r))
    (h : Counts c active r) : Counts c active (r.sendCts c o again) := by
  simp only [RecvRun.sendCts]
  exact (h.receiveSendFc (o := o) hagain fsCts).startTimer.modify ⟨rfl, rfl, rfl, rfl, rfl, rfl⟩ (by rintro ⟨⟩)

theorem Counts.tryAlloc (hagain : ∀ r, Counts c active r → Counts c active (again r))
    (h : Counts c active r) : Counts c active (r.tryAlloc c o i again) := by
  have hnotified := (h.modify (f := fun s => { s with timer := false })
    ⟨rfl, rfl, rfl, rfl, rfl, rfl⟩ id).notify (i := i)
  exact (hnotified.modify ⟨rfl, rfl, rfl, rfl, rfl, rfl⟩ (by nofun)).sendCts hagain

theorem Counts.stateErr (hagain : ∀ r, Counts c active r → Counts c active (again r))
    (h : Counts c active r) : Counts c active (r.stateErr c o i again) := by
  have hnotified := ((h.modify (f := fun s => { s with timer := false })
    ⟨rfl, rfl, rfl, rfl, rfl, rfl⟩ id).recvErrorCallback).notify (i := i)
  simp only [RecvRun.stateErr]
  split
  · exact ((hnotified.receiveSendFc hagain fsOvflw).modify ⟨rfl, rfl, rfl, rfl, rfl, rfl⟩ (by rintro ⟨⟩)).freeIfUnowned
  · exact (hnotified.modify ⟨rfl, rfl, rfl, rfl, rfl, rfl⟩ (by rintro ⟨⟩)).freeIfUnowned

/-- A message is dispatched whole: it has the declared length. -/
theorem Counts.recycle (h : Counts c active r) (hstate : r.slot.state = .recycle) :
    Counts c active (r.recycle c i) := by
  obtain ⟨hactive, hremLen⟩ := h.complete (by rw [hstate]; trivial)
  have hfinish : ∀ {r' : RecvRun ι A}, Counts c active r' →
      Counts c active (((r'.notifyWaitingReceiver c i).modify fun s => { s with state := .unbound }).freeIfUnowned
        c) :=
    fun h' => (h'.notify.modify ⟨rfl, rfl, rfl, rfl, rfl, rfl⟩ (by nofun)).freeIfUnowned
  rw [RecvRun.recycle]
  split
  · exact hfinish h
  · rename_i hqueue
    have hper : c.perFrameDispatch = false := by
      rw [RecvConfig.receiveQueue] at hqueue
      simp_all
    have htouch := h.touch [.read]
    have hcounted := h.counted hactive fun hp => absurd (hp.symm.trans hper) (by decide)
    refine hfinish ⟨fun call hcall => ?_, htouch.queue, htouch.counted, htouch.complete⟩
    rcases List.mem_append.1 hcall with hcall | hcall
    · exact h.calls call hcall
    · obtain rfl := List.mem_singleton.1 hcall
      have htotal := hcounted.total
      rw [RecvSlot.taken, hper, if_neg (by decide), hremLen] at htotal
      refine ⟨?_, fun _ => ⟨hcounted.whole hper, rfl⟩⟩
      simp only [hcounted.whole hper, Nat.zero_add]
      exact htotal

theorem Counts.stateSwitch (hagain : ∀ r, Counts c active r → Counts c active (again r))
    (h : Counts c active r) : Counts c active (r.stateSwitch c o i again) := by
  rw [RecvRun.stateSwitch]
  cases hstate : r.slot.state with
  | waitFfSf | waitCf | unbound => exact h
  | processSf =>
    have hcomplete := h.complete (by rw [hstate]; trivial)
    have hslot := touch_slot r [.read, .write]
    refine hagain _ (Counts.notify ((h.touch [.read, .write]).slot
      (s := { r.slot with remLen := 0, state := .recycle }) ?_ ?_ ?_ ?_ ?_ h.queue fun _ => ?_)) <;>
      rw [hslot]
    · exact hcomplete.2.symm
    · exact id
    · exact hcomplete
  | processFf =>
    dsimp only
    split
    · exact hagain _ (h.modify ⟨rfl, rfl, rfl, rfl, rfl, rfl⟩ (by rintro ⟨⟩))
    · exact Counts.tryAlloc hagain (h.notify.modify ⟨rfl, rfl, rfl, rfl, rfl, rfl⟩ (by rintro ⟨⟩))
  | tryAlloc => exact h.tryAlloc hagain
  | sendFc => exact h.sendCts hagain
  | sendWait =>
    have hwft := h.modify (f := fun s => { s with wft := s.wft + 1 }) ⟨rfl, rfl, rfl, rfl, rfl, rfl⟩ id
    dsimp only
    split
    · exact (hwft.receiveSendFc hagain fsWait).startTimer.modify ⟨rfl, rfl, rfl, rfl, rfl, rfl⟩ (by rintro ⟨⟩)
    · exact Counts.stateErr hagain (hwft.modify ⟨rfl, rfl, rfl, rfl, rfl, rfl⟩ (by rintro ⟨⟩))
  | err => exact h.stateErr hagain
  | recycle => exact h.recycle hstate

theorem Counts.stateMachine (h : Counts c active r) (fuel : ℕ) :
    Counts c active (stateMachine c o i fuel r) := by
  induction fuel generalizing r with
  | zero => exact h
  | succ fuel ih => exact (h.dispatchQueue.touch [.read]).stateSwitch fun _ => ih

end RecvRun

theorem RecvSlot.Counts.of_dispatched (h : s.Counts c) (awaiters : List (Awaiter ι A)) :
    RecvRun.Counts c s.state.Active (RecvRun.dispatchQueue c { slot := s, awaiters := awaiters }) :=
  RecvRun.counts_dispatchQueue nofun h.active (fun hcomplete => ⟨hcomplete.active, h.complete hcomplete⟩)
    h.parts

/-- A run does not begin a message. -/
theorem active_of_run (awaiters : List (Awaiter ι A))
    (h : (s.receiveStateMachine c o i awaiters).slot.state.Active) : s.state.Active := by
  have hstate := s.receiveStateMachine_state c o i awaiters
  cases hs : s.state <;> rw [hs] at hstate <;> try trivial
  all_goals
    rw [RxState.Leads.eq_def] at hstate
    rw [hstate] at h
    exact h

theorem waitFfSf_of_run (awaiters : List (Awaiter ι A))
    (h : (s.receiveStateMachine c o i awaiters).slot.state = .waitFfSf) : s.state = .waitFfSf := by
  have hstate := s.receiveStateMachine_state c o i awaiters
  cases hs : s.state <;> simp [hs, h, RxState.Leads] at hstate ⊢

/-- A context without a message is left as it is. -/
theorem RecvSlot.Counts.idle_stateMachine (h : s.Counts c) (awaiters : List (Awaiter ι A))
    (hstate : s.state = .waitFfSf) :
    (s.receiveStateMachine c o i awaiters).slot.buffer = [] ∧
      (s.receiveStateMachine c o i awaiters).slot.recvQueue = [] := by
  have hslot : (s.receiveStateMachine c o i awaiters).slot =
      (RecvRun.dispatchQueue c { slot := s, awaiters := awaiters }).slot := by
    rw [receiveStateMachine, RecvRun.stateMachine, RecvRun.stateSwitch, (RecvRun.start_state _).1]
    simp only [hstate, RecvRun.touch_slot]
  rw [hslot, RecvRun.dispatchQueue]
  split
  · exact ⟨(h.idle hstate).1, rfl⟩
  · exact h.idle hstate

/-- A run of the state machine delivers what was declared. -/
theorem RecvSlot.Counts.receiveStateMachine (h : s.Counts c) (awaiters : List (Awaiter ι A)) :
    (s.receiveStateMachine c o i awaiters).slot.Counts c ∧
      ∀ call ∈ (s.receiveStateMachine c o i awaiters).calls, call.Exact c := by
  have hrun : RecvRun.Counts c s.state.Active (s.receiveStateMachine c o i awaiters) :=
    ((h.of_dispatched awaiters).touch [.read]).stateSwitch fun _ hr => hr.stateMachine 2
  refine ⟨⟨fun hactive => hrun.counted (active_of_run awaiters hactive), fun hper call hcall => ?_,
    fun hidle => h.idle_stateMachine awaiters (waitFfSf_of_run awaiters hidle),
    fun hper _ => hrun.queue hper, fun hcomplete => (hrun.complete hcomplete).2⟩, hrun.calls⟩
  rw [hrun.queue hper] at hcall
  cases hcall

/-! ## Frames -/

/-- The data has the bytes that the length code says. -/
def CanFrame.HasData (c : RecvConfig) (f : CanFrame) : Prop :=
  canMaxDlen c.toIsoTpConfig ≤ f.data.length ∧ c.dlcToBytes f.dlc ≤ f.data.length

/-- What is not checked. A first frame declares what it carries at least, and a length of twelve bits; a
single frame declares what fits a frame, and has as many bytes after its header; a consecutive frame has
a header. -/
def CanFrame.Proper (c : RecvConfig) (f : CanFrame) : Prop :=
  if pciType (f.byte 0) = typeFf then
    canMaxDlen c.toIsoTpConfig - 2 ≤ ffLength f ∧ ffLength f < 4096
  else if pciType (f.byte 0) = typeSf then
    (sfLength c.toIsoTpConfig f).1 ≤ canMaxDlen c.toIsoTpConfig - (sfLength c.toIsoTpConfig f).2 ∧
      (0 < (sfLength c.toIsoTpConfig f).1 →
        (sfLength c.toIsoTpConfig f).2 + (sfLength c.toIsoTpConfig f).1 ≤ c.dlcToBytes f.dlc)
  else 0 < c.dlcToBytes f.dlc

namespace RecvSlot

/-- What is checked. A context takes bytes from the frame. -/
def Takes (c : RecvConfig) (s : RecvSlot A) (f : CanFrame) : Prop :=
  s.state = .waitFfSf ∧
      (pciType (f.byte 0) = typeFf ∧ f.dlc = c.ffDlMin ∨
        pciType (f.byte 0) = typeSf ∧
          min (sfLength c.toIsoTpConfig f).1
            (canMaxDlen c.toIsoTpConfig - (sfLength c.toIsoTpConfig f).2) ≤ c.dlcToBytes f.dlc) ∨
    s.state = .waitCf ∧ pciType (f.byte 0) = typeCf ∧ (f.byte 0 &&& 0x0F).toNat = s.snExpected

/-- A frame whose bytes the context takes is proper, and there is room for its fragment. -/
def Good (c : RecvConfig) (s : RecvSlot A) (f : CanFrame) : Prop :=
  s.Takes c f → f.HasData c ∧ f.Proper c ∧
    (c.perFrameDispatch = true → s.recvQueue.length < c.rxMaxPacketCount)

instance decidableGood (c : RecvConfig) (s : RecvSlot A) (f : CanFrame) : Decidable (s.Good c f) := by
  unfold Good Takes CanFrame.HasData CanFrame.Proper
  infer_instance

/-- The length of a single frame is a byte. -/
theorem sfLength_lt (c : IsoTpConfig) (f : CanFrame) : (sfLength c f).1 < 256 := by
  rw [sfLength]
  split
  · exact (f.byte 1).toNat_lt
  · exact (f.byte 0 &&& 0x0F).toNat_lt

/-- Bytes are added to what is counted. -/
theorem Counted.add {index len : ℕ} (h : s.Counted c) (hlen : len ≤ s.remLen)
    (hdata : 0 < len → index + len ≤ f.data.length)
    (hroom : c.perFrameDispatch = true → s.recvQueue.length < c.rxMaxPacketCount) :
    (s.add c f index len).1.Counted c ∧ (s.add c f index len).1.remLen = s.remLen - len := by
  have hremLen : (s.add c f index len).1.remLen = s.remLen - len := toUint12_sub hlen h.bound
  have hbytes : ((f.data.drop index).take len).length = len := by
    rw [List.length_take, List.length_drop]
    omega
  refine ⟨⟨?_, ?_, h.whole⟩, hremLen⟩
  · have htotal := h.total
    rw [hremLen]
    change _ = s.declared
    rw [taken] at htotal ⊢
    split at htotal
    · rename_i hper
      have hqueue : (s.add c f index len).1.recvQueue =
          s.recvQueue ++ [⟨(f.data.drop index).take len, (s.add c f index len).1.remLen⟩] :=
        if_pos ⟨by simp [RecvConfig.receiveQueue, hper], hroom hper⟩
      rw [if_pos hper, hqueue, List.map_append, List.sum_append, List.map_singleton, List.sum_singleton,
        hbytes]
      change s.dispatched + _ + _ = _
      omega
    · rename_i hper
      have hbuffer : (s.add c f index len).1.buffer = s.buffer ++ (f.data.drop index).take len := rfl
      rw [if_neg hper, hbuffer, List.length_append, hbytes]
      omega
  · rw [hremLen]
    exact (Nat.sub_le _ _).trans_lt h.bound

/-- The call for the new fragment says what the calls before it say. -/
theorem Counted.parts_add {index len : ℕ} (h : s.Counted c) (hlen : len ≤ s.remLen)
    (hdata : 0 < len → index + len ≤ f.data.length) (hper : c.perFrameDispatch = true)
    (hparts : ∀ call ∈ dispatch s.rxAddr s.declared s.dispatched s.recvQueue, call.Exact c) :
    ∀ call ∈ dispatch s.rxAddr s.declared s.dispatched (s.add c f index len).1.recvQueue,
      call.Exact c := by
  have hremLen : (s.add c f index len).1.remLen = s.remLen - len := toUint12_sub hlen h.bound
  have hbytes : ((f.data.drop index).take len).length = len := by
    rw [List.length_take, List.length_drop]
    omega
  intro call hcall
  rw [RecvSlot.add] at hcall
  dsimp only at hcall
  split at hcall
  · rw [dispatch_append] at hcall
    rcases List.mem_append.1 hcall with hcall | hcall
    · exact hparts call hcall
    · obtain rfl := List.mem_singleton.1 hcall
      have htotal := h.total
      rw [taken, if_pos hper] at htotal
      refine ⟨?_, fun hne => absurd (hper.symm.trans hne) (by decide)⟩
      change s.dispatched + (s.recvQueue.map (·.data.length)).sum +
        ((f.data.drop index).take len).length + (s.add c f index len).1.remLen = s.declared
      rw [hbytes, hremLen]
      omega
  · exact hparts call hcall

/-- A context in which the fields that count are the same. -/
theorem Counts.congr (h : s.Counts c) {s' : RecvSlot A} (hbuffer : s'.buffer = s.buffer)
    (hremLen : s'.remLen = s.remLen) (hdeclared : s'.declared = s.declared)
    (hdispatched : s'.dispatched = s.dispatched) (haddr : s'.rxAddr = s.rxAddr)
    (hqueue : s'.recvQueue = s.recvQueue) (hallocated : s'.allocated = s.allocated)
    (hstate : s'.state = s.state ∨ s'.state = .err ∨ s'.state = .unbound ∨
      s.state.Active ∧ ¬ s'.state.Complete ∧ s'.state ≠ .waitFfSf) : s'.Counts c where
  active hactive hin := by
    have hactive : s.state.Active := by
      rcases hstate with hstate | hstate | hstate | hstate
      · exact hstate ▸ hactive
      · exact (hstate ▸ hactive : RxState.Active .err).elim
      · exact (hstate ▸ hactive : RxState.Active .unbound).elim
      · exact hstate.1
    have hcounted := h.active hactive fun hper => hallocated.symm.trans (hin hper)
    refine ⟨?_, hremLen.trans_lt hcounted.bound, fun hper => hdispatched.trans (hcounted.whole hper)⟩
    rw [taken, hbuffer, hdispatched, hqueue, hremLen, hdeclared]
    exact hcounted.total
  parts hper := by
    rw [haddr, hdeclared, hdispatched, hqueue]
    exact h.parts hper
  idle hidle := by
    rw [hbuffer, hqueue]
    rcases hstate with hstate | hstate | hstate | ⟨-, -, hstate⟩
    · exact h.idle (hstate.symm.trans hidle)
    · cases hstate.symm.trans hidle
    · cases hstate.symm.trans hidle
    · exact absurd hidle hstate
  freed hper hfree := hqueue.trans (h.freed hper (hallocated.symm.trans hfree))
  complete hcomplete := by
    rw [hremLen]
    rcases hstate with hstate | hstate | hstate | ⟨-, hstate, -⟩
    · exact h.complete (hstate ▸ hcomplete)
    · exact (hstate ▸ hcomplete : RxState.Complete .err).elim
    · exact (hstate ▸ hcomplete : RxState.Complete .unbound).elim
    · exact absurd hcomplete hstate

theorem Counts.canTx (h : s.Counts c) (error : ℤ) : (s.canTx error).Counts c := by
  rw [RecvSlot.canTx]
  dsimp only
  split
  · exact h.congr rfl rfl rfl rfl rfl rfl rfl (.inr (.inl rfl))
  · exact h.congr rfl rfl rfl rfl rfl rfl rfl (.inl rfl)

theorem Counts.timeout (h : s.Counts c) : s.timeout.Counts c := by
  rw [RecvSlot.timeout]
  cases hstate : s.state with
  | waitCf => exact h.congr rfl rfl rfl rfl rfl rfl rfl (.inr (.inl rfl))
  | tryAlloc =>
    refine h.congr rfl rfl rfl rfl rfl rfl rfl (.inr (.inr (.inr ⟨?_, by nofun, by nofun⟩)))
    rw [hstate]
    trivial
  | _ => exact h.congr rfl rfl rfl rfl rfl rfl rfl (.inl rfl)

/-- Nothing is left in the queue of a context that is freed. -/
theorem Counts.free (h : s.Counts c) : s.free.Counts c where
  active hactive hin := by
    have hper : c.perFrameDispatch = false := by
      cases hper : c.perFrameDispatch with
      | false => rfl
      | true => cases hin hper
    have hcounted := h.active hactive fun hp => absurd (hp.symm.trans hper) (by decide)
    refine ⟨?_, hcounted.bound, hcounted.whole⟩
    have htotal := hcounted.total
    rw [taken, hper] at htotal ⊢
    exact htotal
  parts _ := nofun
  idle hidle := ⟨(h.idle hidle).1, rfl⟩
  freed _ _ := rfl
  complete := h.complete

theorem Counts.unbind (h : s.Counts c) : s.unbind.Counts c := by
  have hstopped : Counts c { s with timer := false, work := false } :=
    h.congr rfl rfl rfl rfl rfl rfl rfl (.inl rfl)
  rw [RecvSlot.unbind]
  dsimp only
  split
  · exact hstopped.free
  · exact h.congr rfl rfl rfl rfl rfl rfl rfl (.inr (.inr (.inl rfl)))

/-- A context that has taken nothing. -/
theorem counts_of_idle (hstate : s.state = .waitFfSf) (hbuffer : s.buffer = []) (hqueue : s.recvQueue = []) :
    s.Counts c where
  active hactive := by
    rw [hstate] at hactive
    exact hactive.elim
  parts _ := by
    rw [hqueue]
    nofun
  idle _ := ⟨hbuffer, hqueue⟩
  freed _ _ := hqueue
  complete hcomplete := by
    rw [hstate] at hcomplete
    exact hcomplete.elim

/-- The work item is submitted. -/
theorem Counts.work (h : s.Counts c) : Counts c { s with work := true } :=
  h.congr rfl rfl rfl rfl rfl rfl rfl (.inl rfl)

/-- A first or a single frame is added to an empty context. -/
theorem counts_begin {len declared index k sn : ℕ} {state : RxState} (h : s.Counts c)
    (hidle : s.state = .waitFfSf) (hallocated : s.allocated = true) (hdeclared : len = declared)
    (hbound : len < 4096) (hk : k ≤ len) (hdata : 0 < k → index + k ≤ f.data.length)
    (hroom : c.perFrameDispatch = true → s.recvQueue.length < c.rxMaxPacketCount)
    (hstate : state ≠ .waitFfSf) (hcomplete : state.Complete → k = len) :
    Counts c (RecvSlot.add c { s with
      remLen := len, state := state, snExpected := sn, declared := declared, dispatched := 0 } f index
      k).1 := by
  have hcounted : Counted c { s with
      remLen := len, state := state, snExpected := sn, declared := declared, dispatched := 0 } := by
    refine ⟨?_, hbound, fun _ => rfl⟩
    simp only [taken, h.idle hidle]
    simpa using hdeclared
  have hadd := hcounted.add hk hdata hroom
  refine ⟨fun _ _ => hadd.1, fun hper => hcounted.parts_add hk hdata hper ?_, fun hs => absurd hs hstate,
    fun _ hfree => ?_, fun hs => ?_⟩
  · intro call hcall
    simp only [h.idle hidle] at hcall
    cases hcall
  · exact absurd (hallocated.symm.trans hfree) (by decide)
  · rw [hadd.2, hcomplete hs]
    exact Nat.sub_self len

/-- `process_ff_sf` copies what was received, and counts it. -/
theorem Counts.processFfSf (hdlc : canMaxDlen c.toIsoTpConfig ≤ c.dlcToBytes c.ffDlMin) (h : s.Counts c)
    (hidle : s.state = .waitFfSf) (hallocated : s.allocated = true) (hgood : s.Good c f) :
    (s.processFfSf c f).1.Counts c ∧ ∀ copy ∈ (s.processFfSf c f).2.toList, copy.Sound := by
  have hmax := canMaxDlen_eq c.toIsoTpConfig
  rw [RecvSlot.processFfSf]
  split
  · rename_i hff
    split
    · exact ⟨h, by simp⟩
    · rename_i hmin
      rw [not_not] at hmin
      obtain ⟨⟨hlong, -⟩, hproper, hroom⟩ := hgood (.inl ⟨hidle, .inl ⟨hff, hmin⟩⟩)
      rw [CanFrame.Proper, if_pos hff] at hproper
      have hlen : ffLength f % 4096 = ffLength f := Nat.mod_eq_of_lt hproper.2
      refine ⟨counts_begin h hidle hallocated hlen (by omega) (by omega) (fun _ => by omega) hroom nofun
        nofun, fun copy hcopy => ?_⟩
      obtain rfl := List.mem_singleton.1 hcopy
      refine ⟨by dsimp only; omega, fun _ => ?_⟩
      dsimp only
      rw [hmin]
      omega
  · rename_i hff
    split
    · rename_i hsf
      dsimp only
      split
      · exact ⟨counts_of_idle hidle (h.idle hidle).1 (h.idle hidle).2, by simp⟩
      · rename_i hfits
        obtain ⟨⟨hlong, hdata⟩, hproper, hroom⟩ := hgood (.inl ⟨hidle, .inr ⟨hsf, not_lt.1 hfits⟩⟩)
        rw [CanFrame.Proper, if_neg hff, if_pos hsf] at hproper
        have hsize := sfLength_lt c.toIsoTpConfig f
        have hk : min (sfLength c.toIsoTpConfig f).1
            (canMaxDlen c.toIsoTpConfig - (sfLength c.toIsoTpConfig f).2) =
              (sfLength c.toIsoTpConfig f).1 := by omega
        rw [hk]
        refine ⟨counts_begin h hidle hallocated rfl (by omega) le_rfl
          (fun hpos => (hproper.2 hpos).trans hdata) hroom nofun fun _ => rfl, fun copy hcopy => ?_⟩
        obtain rfl := List.mem_singleton.1 hcopy
        exact ⟨le_rfl, hproper.2⟩
    · exact ⟨h.congr rfl rfl rfl rfl rfl rfl rfl (.inr (.inl rfl)), by simp⟩

/-- What a consecutive frame adds, when it has a header. -/
theorem toUint32_min (s : RecvSlot A) {k : ℕ} (hrem : s.remLen < 4096) (hk : 0 < k) :
    toUint32 (min (s.remLen : ℤ) (k - 1)) = min s.remLen (k - 1) := by
  rw [← toUint32_natCast (n := min s.remLen (k - 1)) (by omega)]
  congr 1
  omega

/-- A consecutive frame is added. -/
theorem Counts.more {k : ℕ} (h : s.Counts c) (hwait : s.state = .waitCf) (hallocated : s.allocated = true)
    (hk : k ≤ s.remLen) (hdata : 0 < k → 1 + k ≤ f.data.length)
    (hroom : c.perFrameDispatch = true → s.recvQueue.length < c.rxMaxPacketCount) :
    (s.add c f 1 k).1.Counts c := by
  have hcounted := h.active (by rw [hwait]; trivial) fun _ => hallocated
  have hstate : (s.add c f 1 k).1.state = .waitCf := hwait
  refine ⟨fun _ _ => (hcounted.add hk hdata hroom).1,
    fun hper => hcounted.parts_add hk hdata hper (h.parts hper), fun hidle => ?_,
    fun _ hfree => absurd (hallocated.symm.trans hfree) (by decide), fun hcomplete => ?_⟩
  · cases hstate.symm.trans hidle
  · rw [hstate] at hcomplete
    exact hcomplete.elim

/-- The message is complete. -/
theorem Counts.finish (h : s.Counts c) (hactive : s.state.Active) (hremLen : s.remLen = 0) :
    Counts c { s with state := .recycle, work := true } where
  active _ hin :=
    have hcounted := h.active hactive hin
    ⟨hcounted.total, hcounted.bound, hcounted.whole⟩
  parts := h.parts
  idle := nofun
  freed := h.freed
  complete _ := hremLen

/-- `process_cf` copies what was received, and counts it. -/
theorem Counts.processCf (h : s.Counts c) (hwait : s.state = .waitCf) (hallocated : s.allocated = true)
    (hgood : s.Good c f) :
    (s.processCf c f).1.Counts c ∧ ∀ copy ∈ (s.processCf c f).2.toList, copy.Sound := by
  rw [RecvSlot.processCf]
  split
  · exact ⟨h.congr rfl rfl rfl rfl rfl rfl rfl (.inr (.inl rfl)), by simp⟩
  · rename_i hcf
    rw [not_not] at hcf
    dsimp only
    split
    · exact ⟨h.congr rfl rfl rfl rfl rfl rfl rfl (.inr (.inl rfl)), by simp⟩
    · rename_i hsn
      rw [not_not] at hsn
      obtain ⟨⟨-, hdata⟩, hproper, hroom⟩ := hgood (.inr ⟨hwait, hcf, hsn⟩)
      rw [CanFrame.Proper, if_neg (by rw [hcf]; decide), if_neg (by rw [hcf]; decide)] at hproper
      have hbound := (h.active (by rw [hwait]; trivial) fun _ => hallocated).bound
      have hadded := Counts.more (f := f) (k := min s.remLen (c.dlcToBytes f.dlc - 1))
        (s := { s with timer := true, snExpected := (s.snExpected + 1) % 16 })
        (h.congr rfl rfl rfl rfl rfl rfl rfl (.inl rfl)) hwait hallocated (Nat.min_le_left ..) (by omega) hroom
      have hcopy : Copy.Sound
          ⟨s.remLen, 1, min s.remLen (c.dlcToBytes f.dlc - 1), c.dlcToBytes f.dlc⟩ :=
        ⟨Nat.min_le_left .., fun _ => by dsimp only; omega⟩
      rw [toUint32_min s hbound hproper]
      generalize hadd : RecvSlot.add c { s with timer := true, snExpected := (s.snExpected + 1) % 16 } f 1
        (min s.remLen (c.dlcToBytes f.dlc - 1)) = added at hadded
      have hstate : added.1.state = .waitCf := hadd ▸ hwait
      have hbusy : added.1.state.Active := by
        rw [hstate]
        trivial
      have hcopies : ∀ copy ∈ added.2.toList, copy.Sound := by
        intro copy hmem
        rw [← hadd] at hmem
        exact List.mem_singleton.1 hmem ▸ hcopy
      split
      · exact ⟨hadded.finish hbusy ‹_›, hcopies⟩
      · split
        · split
          · exact ⟨hadded.congr rfl rfl rfl rfl rfl rfl rfl (.inr (.inr (.inr ⟨hbusy, by nofun, by nofun⟩))),
              hcopies⟩
          · exact ⟨hadded.congr rfl rfl rfl rfl rfl rfl rfl (.inl rfl), hcopies⟩
        · exact ⟨hadded, hcopies⟩

/-- `receive_can_rx` with the context. -/
theorem Counts.canRx (hdlc : canMaxDlen c.toIsoTpConfig ≤ c.dlcToBytes c.ffDlMin) (h : s.Counts c)
    (hallocated : s.allocated = true) (hgood : s.Good c f) :
    (s.canRx c f).1.Counts c ∧ ∀ copy ∈ (s.canRx c f).2.toList, copy.Sound := by
  rw [RecvSlot.canRx]
  split
  · rename_i hstate
    have hrun := h.processFfSf hdlc hstate hallocated hgood
    exact ⟨hrun.1.work, hrun.2⟩
  · rename_i hstate
    have hrun := h.processCf hstate hallocated hgood
    dsimp only
    split
    · exact hrun
    · exact ⟨hrun.1.work, hrun.2⟩
  · exact ⟨h.work, by simp⟩

end RecvSlot

namespace RecvNode

variable {N N' : RecvNode n A}

/-- The block is not in use, and nothing refers to it. -/
def Unused (N : RecvNode n A) (i : Fin n) : Prop :=
  (N.slots i).allocated = false ∧ (N.slots i).work = false ∧ (N.slots i).timer = false ∧ i ∉ N.queue

/-- Every context counts, and what was copied and delivered is what it should be. -/
structure Lengths (c : RecvConfig) (N : RecvNode n A) : Prop where
  slots : ∀ i, (N.slots i).Counts c ∨ N.Unused i
  copies : ∀ copy ∈ N.copies, copy.Sound
  calls : ∀ call ∈ N.calls, call.Exact c

theorem Lengths.of_init (h : N.Init) : N.Lengths c where
  slots i :=
    have hslot := h.slots i
    .inr ⟨hslot.1, hslot.2.1, hslot.2.2.1, by rw [h.queue]; nofun⟩
  copies := by
    rw [h.copies]
    nofun
  calls := by
    rw [h.calls]
    nofun

theorem Lengths.of_allocated (h : N.Lengths c) {i : Fin n} (hi : (N.slots i).allocated = true) :
    (N.slots i).Counts c :=
  (h.slots i).resolve_right fun hunused => by simp [hunused.1] at hi

/-- Only a context and what refers to it is new. -/
theorem Lengths.update (h : N.Lengths c) {i : Fin n} {s : RecvSlot A} (hs : s.Counts c)
    (hslots : N'.slots = Function.update N.slots i s) (hqueue : ∀ j ∈ N'.queue, j = i ∨ j ∈ N.queue)
    (hcopies : ∀ copy ∈ N'.copies, copy.Sound) (hcalls : ∀ call ∈ N'.calls, call.Exact c) :
    N'.Lengths c where
  slots j := by
    rw [Unused, hslots]
    by_cases hj : j = i
    · subst hj
      rw [Function.update_self]
      exact .inl hs
    · rw [Function.update_of_ne hj]
      refine (h.slots j).imp_right fun ⟨hallocated, hwork, htimer, hmem⟩ =>
        ⟨hallocated, hwork, htimer, fun hj' => (hqueue j hj').elim hj hmem⟩
  copies := hcopies
  calls := hcalls

/-- A frame that meets the condition is processed with a context. -/
theorem Lengths.canRx (hdlc : canMaxDlen c.toIsoTpConfig ≤ c.dlcToBytes c.ffDlMin) (h : N.Lengths c)
    {i : Fin n} (hs : s.Counts c) (hallocated : s.allocated = true) (hgood : s.Good c f) :
    (N.canRx c i s f).Lengths c := by
  obtain ⟨hcounts, hcopies⟩ := hs.canRx hdlc hallocated hgood
  refine h.update hcounts rfl (fun _ hj => .inr hj) (fun copy hcopy => ?_) h.calls
  rcases List.mem_append.1 hcopy with hcopy | hcopy
  · exact h.copies copy hcopy
  · exact hcopies copy hcopy

variable [DecidableEq A]

/-- A frame that comes meets the condition on the context that it finds. -/
def GoodFrame (c : RecvConfig) (N : RecvNode n A) : RecvEvent n A → Prop
  | .frame addr f block _ => (N.context addr block).Good c f
  | _ => True

instance decidableGoodFrame (c : RecvConfig) (N : RecvNode n A) : ∀ e, Decidable (N.GoodFrame c e)
  | .frame addr f block _ => RecvSlot.decidableGood c (N.context addr block) f
  | .work .. | .completed .. | .timer _ | .unbindReader | .unbind _ => isTrue trivial

theorem Lengths.receiveCanRx (hdlc : canMaxDlen c.toIsoTpConfig ≤ c.dlcToBytes c.ffDlMin)
    (h : N.Lengths c) {addr : A} {block : Fin n} {buffer : Bool} (hgood : (N.context addr block).Good c f)
    (hstep : N.receiveCanRx c addr f block buffer = some N') : N'.Lengths c := by
  rw [RecvNode.receiveCanRx] at hstep
  rw [context] at hgood
  cases hfind : N.find addr with
  | some i =>
    simp only [hfind] at hstep hgood
    have hallocated := (find_spec hfind).1.1
    have hcounts := h.of_allocated hallocated
    split at hstep <;> obtain rfl := Option.some.inj hstep
    · exact h.canRx hdlc hcounts hallocated hgood
    · exact h.update hcounts.free rfl (fun _ hj => .inr hj) h.copies h.calls
  | none =>
    simp only [hfind] at hstep hgood
    split at hstep
    · exact Option.some.inj hstep ▸ h
    · split at hstep
      · obtain rfl := Option.some.inj hstep
        exact ⟨h.slots, h.copies, h.calls⟩
      · split at hstep
        · cases hstep
        · split at hstep <;> obtain rfl := Option.some.inj hstep
          · exact h
          · exact h.canRx hdlc (RecvSlot.counts_of_idle rfl rfl rfl) rfl hgood

/-- A step of a good frame, and every other step, keeps to the lengths. -/
theorem Lengths.step (hdlc : canMaxDlen c.toIsoTpConfig ≤ c.dlcToBytes c.ffDlMin) (h : N.Lengths c)
    {e : RecvEvent n A} (hgood : N.GoodFrame c e) (hstep : N.step c e = some N') : N'.Lengths c := by
  cases e with
  | frame addr f block buffer => exact h.receiveCanRx hdlc hgood hstep
  | work i o =>
    obtain ⟨hwork, hstep⟩ := Option.ite_none_right_eq_some.1 hstep
    obtain rfl := Option.some.inj hstep
    have hcounts := (h.slots i).resolve_right fun hunused => by simp [hunused.2.1] at hwork
    have hstopped : RecvSlot.Counts c { N.slots i with work := false } :=
      hcounts.congr rfl rfl rfl rfl rfl rfl rfl (.inl rfl)
    obtain ⟨hrun, hcalls⟩ := hstopped.receiveStateMachine (o := o) (i := i) N.awaiters
    refine h.update hrun rfl (fun j hj => ?_) h.copies fun call hcall => ?_
    · rcases List.mem_append.1 hj with hj | hj
      · exact .inr hj
      · exact .inl (List.eq_of_mem_replicate hj)
    · rcases List.mem_append.1 hcall with hcall | hcall
      · exact h.calls call hcall
      · exact hcalls call hcall
  | completed k error =>
    simp only [RecvNode.step] at hstep
    cases hk : N.queue[k]? with
    | none => simp [hk] at hstep
    | some i =>
      simp only [hk, Option.some.injEq] at hstep
      subst hstep
      have hcounts := (h.slots i).resolve_right fun hunused => hunused.2.2.2 (List.mem_of_getElem? hk)
      exact h.update (hcounts.canTx error) rfl (fun j hj => .inr (List.mem_of_mem_eraseIdx hj)) h.copies
        h.calls
  | timer i =>
    obtain ⟨htimer, hstep⟩ := Option.ite_none_right_eq_some.1 hstep
    obtain rfl := Option.some.inj hstep
    have hcounts := (h.slots i).resolve_right fun hunused => by simp [hunused.2.2.1] at htimer
    exact h.update hcounts.timeout rfl (fun _ hj => .inr hj) h.copies h.calls
  | unbindReader =>
    simp only [RecvNode.step] at hstep
    split at hstep
    · cases hstep
    · split at hstep <;> obtain rfl := Option.some.inj hstep
      · exact ⟨h.slots, h.copies, h.calls⟩
      · rename_i i _
        rcases h.slots i with hcounts | hunused
        · exact h.update hcounts.free rfl (fun _ hj => .inr hj) h.copies h.calls
        · refine ⟨fun j => ?_, h.copies, h.calls⟩
          by_cases hj : j = i
          · subst hj
            refine .inr ?_
            simp only [Unused, Function.update_self]
            exact ⟨rfl, hunused.2.1, rfl, hunused.2.2.2⟩
          · simp only [Unused, Function.update_of_ne hj]
            exact h.slots j
  | unbind i =>
    obtain ⟨hlisted, hstep⟩ := Option.ite_none_right_eq_some.1 hstep
    obtain rfl := Option.some.inj hstep
    exact h.update (h.of_allocated hlisted.1).unbind rfl (fun _ hj => .inr hj) h.copies h.calls

end RecvNode

/-- **No remaining length wraps, every byte is copied from the received part of its frame, and every
message has the length that was declared**, in every run in which each frame whose bytes are taken
declares what it carries. -/
theorem lengths_of_good [DecidableEq A] (hc : DlcTable c.toIsoTpConfig) {N₀ N : RecvNode n A}
    (hinit : N₀.Init) {es : List (RecvEvent n A)}
    (hgood : Meets (RecvNode.step c) (RecvNode.GoodFrame c) N₀ es)
    (hrun : runFrom (RecvNode.step c) N₀ es = some N) :
    (∀ copy ∈ N.copies, copy.Sound) ∧ ∀ call ∈ N.calls, call.Exact c := by
  have hdlc : canMaxDlen c.toIsoTpConfig ≤ c.dlcToBytes c.ffDlMin := by
    rw [hc.first]
    exact hc.le_dlc _ le_rfl
  have hlengths : N.Lengths c := runFrom_invariant_of_meets
    (fun _ _ _ h hg hstep => h.step hdlc hg hstep) (.of_init hinit) hgood hrun
  exact ⟨hlengths.copies, hlengths.calls⟩

/-! ## Single frames -/

/-- A slab of one block that was zeroed, and no reader. -/
def oneRecvBlock : RecvNode 1 Unit where
  slots _ := { zeroedRecvSlot with allocated := false }

theorem oneRecvBlock_init : oneRecvBlock.Init :=
  ⟨fun _ => ⟨rfl, rfl, rfl, rfl⟩, nofun, rfl, rfl, rfl, rfl⟩

theorem classicalCan_dlcTable : DlcTable classicalCan := ⟨fun _ _ => le_rfl, fun _ => id, rfl⟩

/-- A frame, and the work item that it submits. -/
def received (data : Bytes) (dlc : ℕ) : List (RecvEvent 1 Unit) :=
  [.frame () ⟨data, dlc⟩ 0 true, .work 0 fun _ => .queued]

/-- A single frame with two bytes. -/
theorem twoBytes_received :
    ∃ N ∈ runFrom (RecvNode.step wholeMessages) oneRecvBlock (received [2, 5, 6, 0, 0, 0, 0, 0] 3),
      N.calls ≠ [] ∧ ∀ call ∈ N.calls, call.data.length = call.declared := by
  have hgood : Meets (RecvNode.step wholeMessages) (RecvNode.GoodFrame wholeMessages) oneRecvBlock
      (received [2, 5, 6, 0, 0, 0, 0, 0] 3) := by
    decide +kernel
  obtain ⟨N, hrun, hcalls⟩ : ∃ N ∈ runFrom (RecvNode.step wholeMessages) oneRecvBlock
      (received [2, 5, 6, 0, 0, 0, 0, 0] 3), N.calls ≠ [] := by
    decide +kernel
  refine ⟨N, hrun, hcalls, fun call hcall => ?_⟩
  obtain ⟨hcount, hwhole⟩ := (lengths_of_good classicalCan_dlcTable oneRecvBlock_init hgood hrun).2 call hcall
  obtain ⟨hbefore, hremLen⟩ := hwhole rfl
  rw [← hcount, hbefore, hremLen, Nat.zero_add, Nat.add_zero]

/-- A first frame that declares three bytes carries six, and the remaining length wraps to 4093. A
single frame of seven bytes with a length code of seven has a byte that was not received. One that
declares nine bytes delivers seven. -/
theorem lengths_wrong :
    (∃ N ∈ runFrom (RecvNode.step wholeMessages) oneRecvBlock (received [0x10, 3, 1, 2, 3, 4, 5, 6] 8),
        (N.slots 0).remLen = 4093 ∧ N.copies = [⟨3, 2, 6, 8⟩]) ∧
      (∃ N ∈ runFrom (RecvNode.step wholeMessages) oneRecvBlock (received [7, 1, 2, 3, 4, 5, 6, 9] 7),
        N.copies = [⟨7, 1, 7, 7⟩]) ∧
      ∃ N ∈ runFrom (RecvNode.step wholeMessages) oneRecvBlock (received [9, 1, 2, 3, 4, 5, 6, 7] 8),
        N.calls = [⟨[1, 2, 3, 4, 5, 6, 7], 0, (), 9, 0⟩] := by
  decide +kernel

end ThingSet.IsoTp
