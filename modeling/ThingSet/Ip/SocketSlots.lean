import ThingSet.Ip.SocketServer
import Mathlib.Data.Set.Subsingleton

/-!
# The slots of the socket server

The acceptor writes into free slots and the handler clears the slots of closed connections. Between `close`
and the clearing the system may give the descriptor away again.

* `slots_of_run`: however the threads take turns, no two slots share a descriptor. A connection that
  finds no slot is left open for good, and all find one when a slot is free at each `accept`.
-/

namespace ThingSet.SocketServer

open Transition

variable {σ : Type} {callback : SocketCallback σ} {s s' : State σ} {e : Event} {fd k : ℕ}

/-! ## Descriptors -/

/-- A slot shares its descriptor with no other slot, every descriptor in use is open, and each thread finds
the slots as it has left them. A slot that the handler is about to clear has a descriptor that is closed. -/
structure Ordered (s : State σ) : Prop where
  files_lt : ∀ fd k, s.files fd = some k → k < s.accepted
  files_inj : ∀ fd fd' k, s.files fd = some k → s.files fd' = some k → fd = fd'
  slot_open : ∀ i fd, (s.slots i).fd = some fd → s.handler ≠ .clearing i → (s.files fd).isSome
  slot_inj : ∀ i j fd, (s.slots i).fd = some fd → (s.slots j).fd = some fd → s.handler ≠ .clearing i →
    s.handler ≠ .clearing j → i = j
  held_open : ∀ fd, s.acceptor.Holds fd → (s.files fd).isSome
  held_free : ∀ fd i, s.acceptor.Holds fd → (s.slots i).fd = some fd → s.handler = .clearing i
  free : ∀ fd i, s.acceptor = .assigning fd i → (s.slots i).fd = none
  worksOn : ∀ i fd, s.handler.WorksOn i fd → (s.slots i).fd = some fd
  cleared : ∀ i, s.handler = .clearing i → (s.slots i).fd.isSome

/-- After `recv` the handler goes on to the next slot or sends to the same descriptor. -/
theorem receive_frame (callback : SocketCallback σ) (s : State σ) (i : Fin maxClients) (fd k len : ℕ) :
    ∃ b c l hd, s.receive callback i fd k len =
        { s with buffers := b, connections := c, log := l, handler := hd } ∧
      (hd = .scanning (i + 1) ∨ ∃ e, hd = .sending i fd e) := by
  unfold State.receive
  dsimp only
  split
  · exact ⟨_, _, _, _, rfl, .inl rfl⟩
  · exact ⟨_, _, _, _, rfl, .inr ⟨_, rfl⟩⟩

/-- So it does after `send`. -/
theorem transmit_frame (s : State σ) (i : Fin maxClients) (fd k len : ℕ) (x : Exchange) :
    ∃ c l hd, s.transmit i fd k len x = { s with connections := c, log := l, handler := hd } ∧
      (hd = .scanning (i + 1) ∨ ∃ e, hd = .sending i fd e) := by
  unfold State.transmit
  dsimp only
  split
  · exact ⟨_, _, _, rfl, .inl rfl⟩
  · exact ⟨_, _, _, rfl, .inr ⟨_, rfl⟩⟩

/-- What a step of the handler does to the descriptors: nothing, or it closes one, or it clears a slot. -/
structure HandlerFrame (s s' : State σ) : Prop where
  acceptor : s'.acceptor = s.acceptor
  accepted : s'.accepted = s.accepted
  cases : (s'.files = s.files ∧ (∀ i, (s'.slots i).fd = (s.slots i).fd) ∧ (∀ i, s.handler ≠ .clearing i) ∧
      (∀ i, s'.handler ≠ .clearing i) ∧
      ∀ i fd, s'.handler.WorksOn i fd → s.handler.WorksOn i fd ∨ (s.slots i).fd = some fd) ∨
    (∃ i fd, s.handler = .closing i fd ∧ s'.files = Function.update s.files fd none ∧
      s'.slots = s.slots ∧ s'.handler = .clearing i) ∨
    ∃ i, s.handler = .clearing i ∧ s'.files = s.files ∧
      s'.slots = Function.update s.slots i { s.slots i with fd := none } ∧
      s'.handler = .scanning (i + 1)

theorem HandlerStep.frame (h : HandlerStep callback s s') : HandlerFrame s s' := by
  cases h with
  | moves hslots _ _ hclearing hclearing' hworksOn =>
    exact ⟨rfl, rfl, .inl ⟨rfl, hslots, hclearing, hclearing', hworksOn⟩⟩
  | @receives i fd k len hreceiving =>
    obtain ⟨b, c, l, hd, hs', hhd⟩ := receive_frame callback s i fd k len
    rw [hs']
    refine ⟨rfl, rfl, .inl ⟨rfl, fun _ => rfl, by simp [hreceiving], fun j => ?_, fun j fd' hj => ?_⟩⟩
    · obtain rfl | ⟨e, rfl⟩ := hhd <;> simp
    · rw [hreceiving]
      obtain rfl | ⟨e, rfl⟩ := hhd
      · exact hj.elim
      · exact .inl hj
  | @transmits i fd k len x hsending =>
    obtain ⟨c, l, hd, hs', hhd⟩ := transmit_frame s i fd k len x
    rw [hs']
    refine ⟨rfl, rfl, .inl ⟨rfl, fun _ => rfl, by simp [hsending], fun j => ?_, fun j fd' hj => ?_⟩⟩
    · obtain rfl | ⟨e, rfl⟩ := hhd <;> simp
    · rw [hsending]
      obtain rfl | ⟨e, rfl⟩ := hhd
      · exact hj.elim
      · exact .inl hj
  | fails hsending =>
    exact ⟨rfl, rfl, .inl ⟨rfl, fun _ => rfl, by simp [hsending], by simp [State.finish],
      by simp [State.finish, Handler.WorksOn]⟩⟩
  | @closes i fd hclosing => exact ⟨rfl, rfl, .inr (.inl ⟨i, fd, hclosing, rfl, rfl, rfl⟩)⟩
  | @clears i hclearing => exact ⟨rfl, rfl, .inr (.inr ⟨i, hclearing, rfl, rfl, rfl⟩)⟩

theorem Ordered.acceptorStep (hs : Ordered s) (h : acceptorStep s e = some s') : Ordered s' := by
  obtain ⟨h₁, h₂, h₃, h₄, h₅, h₆, h₇, h₈, h₉⟩ := hs
  obtain ⟨fd, -, hpolling, hfd, rfl⟩ | ⟨fd, i, hlooking, a, rfl, ha⟩ | ⟨fd, i, hassigning, rfl⟩ :=
    acceptorStep_cases h
  · constructor <;> grind [Acceptor.Holds, Function.update_apply]
  · constructor <;> grind [Acceptor.Holds]
  · constructor <;> grind [Acceptor.Holds, Function.update_apply]

theorem Ordered.handlerStep (hs : Ordered s) (h : HandlerFrame s s') : Ordered s' := by
  obtain ⟨h₁, h₂, h₃, h₄, h₅, h₆, h₇, h₈, h₉⟩ := hs
  obtain ⟨hacceptor, haccepted, h⟩ := h
  obtain ⟨hfiles, hslots, hclear, hclear', hworks⟩ | ⟨i, fd, hclosing, hfiles, hslots, hhandler⟩ |
    ⟨i, hclearing, hfiles, hslots, hhandler⟩ := h
  · constructor <;> simp only [hfiles, haccepted, hacceptor, hslots] <;> grind
  · have hslot := h₈ i fd (by rw [hclosing]; exact ⟨rfl, rfl⟩)
    constructor <;> simp only [hfiles, haccepted, hacceptor, hslots, hhandler] <;>
      grind [Handler.WorksOn, Function.update_apply]
  · have hother : ∀ j, s.handler = .clearing j → j = i := fun j hj =>
      Handler.clearing.inj (hj.symm.trans hclearing)
    constructor <;> simp only [hfiles, haccepted, hacceptor, hslots, hhandler] <;>
      grind [Handler.WorksOn, Function.update_apply]

theorem Ordered.step (hs : Ordered s) (h : SocketServer.step callback s e = some s') : Ordered s' := by
  obtain h | h | ⟨k, f, rfl, -⟩ := step_cases h
  · exact hs.acceptorStep h
  · exact hs.handlerStep h.frame
  · obtain ⟨h₁, h₂, h₃, h₄, h₅, h₆, h₇, h₈, h₉⟩ := hs
    exact ⟨h₁, h₂, h₃, h₄, h₅, h₆, h₇, h₈, h₉⟩

theorem ordered_initial (b : SocketBuffers σ) : Ordered (initial b) where
  files_lt _ _ h := nomatch h
  files_inj _ _ _ h := nomatch h
  slot_open _ _ h := nomatch h
  slot_inj _ _ _ h := nomatch h
  held_open _ h := h.elim
  held_free _ _ h := h.elim
  free _ _ h := nomatch h
  worksOn _ _ h := h.elim
  cleared _ h := nomatch h

/-! ## Connections that no slot has -/

/-- A descriptor is open, the acceptor does not have it, and it is in no slot, or in one that the handler is
about to clear. -/
structure Stranded (s : State σ) (fd k : ℕ) : Prop where
  opened : s.files fd = some k
  not_held : ¬s.acceptor.Holds fd
  no_slot : ∀ i, (s.slots i).fd = some fd → s.handler = .clearing i

/-- What the server does with a connection. -/
def State.progress (s : State σ) (k : ℕ) : ℕ × Bytes := ((s.connections k).received, (s.connections k).sent)

theorem progress_modify (f : Connection → Connection) {k k' : ℕ} (h : k ≠ k') :
    (s.modify k' f).progress k = s.progress k := by
  simp only [State.progress, State.modify, Function.update_of_ne h]

theorem Stranded.acceptorStep (hstranded : Stranded s fd k)
    (h : SocketServer.acceptorStep s e = some s') :
    Stranded s' fd k ∧ s'.progress k = s.progress k := by
  obtain ⟨hopened, hheld, hslot⟩ := hstranded
  obtain ⟨fd', -, hpolling, hfd', rfl⟩ | ⟨fd', i, hlooking, a, rfl, ha⟩ | ⟨fd', i, hassigning, rfl⟩ :=
    acceptorStep_cases h
  · have hne : fd ≠ fd' := fun heq => Option.some_ne_none k (hopened.symm.trans (heq ▸ hfd'))
    exact ⟨⟨(Function.update_of_ne hne _ _).trans hopened, hne.symm, hslot⟩, rfl⟩
  · refine ⟨⟨hopened, ?_, hslot⟩, rfl⟩
    rw [hlooking] at hheld
    obtain ⟨-, -, rfl⟩ | ⟨-, -, rfl⟩ | ⟨-, rfl⟩ := ha
    · exact hheld
    · exact hheld
    · exact not_false
  · rw [hassigning] at hheld
    refine ⟨⟨hopened, not_false, fun j hj => ?_⟩, rfl⟩
    dsimp only at hj
    by_cases hij : j = i
    · subst hij
      rw [Function.update_self] at hj
      exact absurd (Option.some.inj hj) hheld
    · rw [Function.update_of_ne hij] at hj
      exact hslot j hj

theorem receive_progress (i : Fin maxClients) (fd len : ℕ) {k k' : ℕ} (h : k ≠ k') :
    (s.receive callback i fd k' len).progress k = s.progress k := by
  unfold State.receive
  dsimp only
  split
  · simp only [State.progress, State.finish, State.modify, Function.update_of_ne h]
  · simp only [State.progress, State.modify, Function.update_of_ne h]

theorem transmit_progress (i : Fin maxClients) (fd len : ℕ) (x : Exchange) {k k' : ℕ} (h : k ≠ k') :
    (s.transmit i fd k' len x).progress k = s.progress k := by
  unfold State.transmit
  dsimp only
  split
  · simp only [State.progress, State.finish, State.modify, Function.update_of_ne h]
  · simp only [State.progress, State.modify, Function.update_of_ne h]

/-- The handler does not work on a stranded descriptor. -/
theorem Stranded.not_worksOn (hs : Ordered s) (hstranded : Stranded s fd k) {i : Fin maxClients} :
    ¬s.handler.WorksOn i fd := by
  intro hworksOn
  have hclearing := hstranded.no_slot i (hs.worksOn i fd hworksOn)
  rw [hclearing] at hworksOn
  exact hworksOn

theorem Stranded.handlerStep (hs : Ordered s) (hstranded : Stranded s fd k)
    (h : HandlerStep callback s s') : Stranded s' fd k ∧ s'.progress k = s.progress k := by
  have hne : ∀ i fd', s.handler.WorksOn i fd' → fd ≠ fd' := fun i fd' hworksOn heq =>
    hstranded.not_worksOn hs (heq ▸ hworksOn)
  have hother : ∀ i fd' k', s.handler.WorksOn i fd' → s.files fd' = some k' → k ≠ k' := by
    rintro i fd' k' hworksOn hk' rfl
    exact hne i fd' hworksOn (hs.files_inj fd fd' k hstranded.opened hk')
  obtain ⟨hopened, hheld, hslot⟩ := hstranded
  cases h with
  | moves hslots _ _ hclearing =>
    refine ⟨⟨hopened, hheld, fun i hi => ?_⟩, rfl⟩
    exact absurd (hslot i ((hslots i).symm.trans hi)) (hclearing i)
  | @receives i fd' k' len hreceiving hk' =>
    have hworksOn : s.handler.WorksOn i fd' := by rw [hreceiving]; exact ⟨rfl, rfl⟩
    obtain ⟨b, c, l, hd, hs', -⟩ := receive_frame callback s i fd' k' len
    refine ⟨?_, receive_progress i fd' len (hother i fd' k' hworksOn hk')⟩
    rw [hs']
    refine ⟨hopened, hheld, fun j hj => ?_⟩
    rw [hreceiving] at hslot
    exact nomatch hslot j hj
  | @transmits i fd' k' len x hsending hk' =>
    have hworksOn : s.handler.WorksOn i fd' := by rw [hsending]; exact ⟨rfl, rfl⟩
    obtain ⟨c, l, hd, hs', -⟩ := transmit_frame s i fd' k' len x
    refine ⟨?_, transmit_progress i fd' len x (hother i fd' k' hworksOn hk')⟩
    rw [hs']
    refine ⟨hopened, hheld, fun j hj => ?_⟩
    rw [hsending] at hslot
    exact nomatch hslot j hj
  | fails hsending =>
    refine ⟨⟨hopened, hheld, fun j hj => ?_⟩, rfl⟩
    rw [hsending] at hslot
    exact nomatch hslot j hj
  | @closes i fd' hclosing =>
    have hworksOn : s.handler.WorksOn i fd' := by rw [hclosing]; exact ⟨rfl, rfl⟩
    refine ⟨⟨(Function.update_of_ne (hne i fd' hworksOn) _ _).trans hopened, hheld, fun j hj => ?_⟩, rfl⟩
    rw [hclosing] at hslot
    exact nomatch hslot j hj
  | @clears i hclearing =>
    refine ⟨⟨hopened, hheld, fun j hj => ?_⟩, rfl⟩
    dsimp only at hj
    by_cases hij : j = i
    · rw [hij, Function.update_self] at hj
      exact nomatch hj
    · rw [Function.update_of_ne hij] at hj
      have hclearing' := hslot j hj
      rw [hclearing] at hclearing'
      exact absurd (Handler.clearing.inj hclearing').symm hij

theorem Stranded.step (hs : Ordered s) (hstranded : Stranded s fd k)
    (h : SocketServer.step callback s e = some s') :
    Stranded s' fd k ∧ s'.progress k = s.progress k := by
  obtain h | h | ⟨k', f, rfl, hf⟩ := step_cases h
  · exact hstranded.acceptorStep h
  · exact hstranded.handlerStep hs h
  · obtain ⟨h₁, h₂, h₃⟩ := hstranded
    refine ⟨⟨h₁, h₂, h₃⟩, ?_⟩
    by_cases hk : k = k'
    · subst hk
      rw [State.progress, State.modify]
      simp only [Function.update_self]
      obtain ⟨bytes, rfl⟩ | rfl := hf <;> rfl
    · exact progress_modify f hk

/-- When a connection is accepted, a slot is free. -/
def HasRoom (s : State σ) : Event → Prop
  | .accept _ => ∃ i, (s.slots i).fd = none
  | _ => True

/-- A free slot is ahead of the acceptor, and every descriptor in use is in a slot or with the acceptor. -/
structure Placed (s : State σ) : Prop where
  ahead : ∀ fd i, s.acceptor = .looking fd i → ∃ j : Fin maxClients, i ≤ j ∧ (s.slots j).fd = none
  placed : ∀ fd, (s.files fd).isSome → s.acceptor.Holds fd ∨
    ∃ i, (s.slots i).fd = some fd ∧ s.handler ≠ .clearing i

theorem Placed.acceptorStep (hs : Placed s) (hordered : Ordered s) (hroom : HasRoom s e)
    (h : SocketServer.acceptorStep s e = some s') : Placed s' := by
  obtain ⟨hahead, hplaced⟩ := hs
  obtain ⟨fd, rfl, hpolling, hfd, rfl⟩ | ⟨fd, i, hlooking, a, rfl, ha⟩ | ⟨fd, i, hassigning, rfl⟩ :=
    acceptorStep_cases h
  · constructor <;> grind [Acceptor.Holds, Function.update_apply, HasRoom]
  · constructor <;> grind [Acceptor.Holds]
  · have hfree := hordered.free fd i hassigning
    have hcleared := hordered.cleared i
    constructor <;> grind [Acceptor.Holds, Function.update_apply]

theorem Placed.handlerStep (hs : Placed s) (hordered : Ordered s) (h : HandlerFrame s s') :
    Placed s' := by
  obtain ⟨hahead, hplaced⟩ := hs
  obtain ⟨hacceptor, -, h⟩ := h
  obtain ⟨hfiles, hslots, hclear, hclear', hworks⟩ | ⟨i, fd, hclosing, hfiles, hslots, hhandler⟩ |
    ⟨i, hclearing, hfiles, hslots, hhandler⟩ := h
  · constructor <;> simp only [hfiles, hacceptor, hslots] <;> grind
  · have hslot := hordered.worksOn i fd (by rw [hclosing]; exact ⟨rfl, rfl⟩)
    constructor <;> simp only [hfiles, hacceptor, hslots, hhandler] <;> grind [Function.update_apply]
  · have hne : ∀ j, s.handler ≠ .clearing j → j ≠ i := fun j hj heq => hj (heq ▸ hclearing)
    refine ⟨fun fd j hlooking => ?_, fun fd hfd => ?_⟩
    · rw [hacceptor] at hlooking
      obtain ⟨j', hj', hfree⟩ := hahead fd j hlooking
      refine ⟨j', hj', ?_⟩
      rw [hslots, Function.update_apply]
      split
      · rfl
      · exact hfree
    · rw [hfiles] at hfd
      rw [hacceptor]
      refine (hplaced fd hfd).imp_right fun ⟨j, hj, hclear⟩ => ⟨j, ?_, ?_⟩
      · rw [hslots, Function.update_of_ne (hne j hclear)]
        exact hj
      · rw [hhandler]
        exact Handler.noConfusion

theorem placed_initial (b : SocketBuffers σ) : Placed (initial b) where
  ahead _ _ h := nomatch h
  placed _ h := nomatch h

theorem Placed.step (hs : Placed s) (hordered : Ordered s) (hroom : HasRoom s e)
    (h : SocketServer.step callback s e = some s') : Placed s' := by
  obtain h | h | ⟨k, f, rfl, -⟩ := step_cases h
  · exact hs.acceptorStep hordered hroom h
  · exact hs.handlerStep hordered h.frame
  · exact ⟨hs.ahead, hs.placed⟩

theorem Placed.not_stranded (hs : Placed s) : ¬Stranded s fd k := by
  rintro ⟨hopened, hheld, hslot⟩
  obtain h | ⟨i, hi, hclear⟩ := hs.placed fd (by rw [hopened]; rfl)
  · exact hheld h
  · exact hclear (hslot i hi)

/-- The slots that have a descriptor, but for one that the handler is about to clear. -/
def State.slotsOf (s : State σ) (fd : ℕ) : Set (Fin maxClients) :=
  {i | (s.slots i).fd = some fd ∧ s.handler ≠ .clearing i}

/-- **However the two threads, the system and the clients take turns, no two slots have the same
descriptor, the one the acceptor has is in no slot, and what is in a slot is open. A connection that finds
no slot is never received from, sent to or closed again; when each connection is accepted while a slot is
free, every one finds a slot.** -/
theorem slots_of_run {b : SocketBuffers σ} {es : List Event}
    (hrun : runFrom (step callback) (initial b) es = some s) :
    (∀ fd, (s.slotsOf fd).Subsingleton ∧ (s.acceptor.Holds fd → s.slotsOf fd = ∅) ∧
      ((s.slotsOf fd).Nonempty → (s.files fd).isSome)) ∧
    (∀ fd k es' s', Stranded s fd k → runFrom (step callback) s es' = some s' →
      Stranded s' fd k ∧ s'.progress k = s.progress k) ∧
    (Meets (step callback) HasRoom (initial b) es → ∀ fd k, ¬Stranded s fd k) := by
  have hs : Ordered s := runFrom_invariant (fun _ _ _ h => h.step) (ordered_initial b) hrun
  refine ⟨fun fd => ⟨?_, fun hheld => ?_, ?_⟩, fun fd k es' s' hstranded hrun' => ?_, fun hroom => ?_⟩
  · rintro i ⟨hi, hclear⟩ j ⟨hj, hclear'⟩
    exact hs.slot_inj i j fd hi hj hclear hclear'
  · ext i
    simp only [State.slotsOf, Set.mem_ofPred_eq, Set.mem_empty_iff_false, iff_false, not_and,
      Classical.not_not]
    exact hs.held_free fd i hheld
  · rintro ⟨i, hi, hclear⟩
    exact hs.slot_open i fd hi hclear
  · refine (runFrom_invariant (P := fun s₁ => Ordered s₁ ∧ Stranded s₁ fd k ∧
      s₁.progress k = s.progress k) (fun s₁ e s₂ h₁ h => ?_) ⟨hs, hstranded, rfl⟩ hrun').2
    obtain ⟨hs₁, hstranded₁, hprogress⟩ := h₁
    obtain ⟨hstranded₂, hprogress₂⟩ := hstranded₁.step hs₁ h
    exact ⟨hs₁.step h, hstranded₂, hprogress₂.trans hprogress⟩
  · have hplaced := (runFrom_invariant_of_meets (P := fun s => Ordered s ∧ Placed s)
      (fun s₁ _ s₂ h₁ hG h => ⟨h₁.1.step h, h₁.2.step h₁.1 hG h⟩)
      ⟨ordered_initial b, placed_initial b⟩ hroom hrun).2
    exact fun fd k => hplaced.not_stranded

instance decidableHasRoom (s : State σ) : ∀ e, Decidable (HasRoom s e)
  | .accept _ => inferInstanceAs (Decidable (∃ i, (s.slots i).fd = none))
  | .arrives _ _ | .ends _ | .look | .assign | .poll | .pollFails | .pollReturns _ _ | .scan | .recv _
  | .recvFails | .recvEnds | .close | .clear | .send _ | .sendFails => isTrue trivial

instance decidableHolds (fd : ℕ) : ∀ a : Acceptor, Decidable (a.Holds fd)
  | .polling => isFalse not_false
  | .looking fd' _ | .assigning fd' _ => inferInstanceAs (Decidable (fd' = fd))

/-- A callback that returns nothing. -/
def silentCallback : SocketCallback Unit := fun _ _ tx app => ((0, tx), app)

/-- The `k`-th connection is accepted and put into the `k`-th slot. -/
def connectRun (k : ℕ) : List Event := .accept (5 + k) :: List.replicate (k + 1) .look ++ [.assign]

/-- As many clients connect as there are slots. -/
def eightClientsRun : List Event := (List.range maxClients).flatMap connectRun

/-- Eight clients find a slot. A ninth finds none, and is stranded. -/
theorem nineClients_stranded :
    (∃ s, runFrom (step silentCallback) (initial ⟨[0], [0], ()⟩) eightClientsRun = some s ∧
      ∀ fd k, ¬Stranded s fd k) ∧
    ∃ s, runFrom (step silentCallback) (initial ⟨[0], [0], ()⟩)
        (eightClientsRun ++ .accept 13 :: List.replicate (maxClients + 1) .look) = some s ∧
      Stranded s 13 8 ∧ ∀ es s', runFrom (step silentCallback) s es = some s' →
        Stranded s' 13 8 ∧ s'.progress 8 = (0, []) := by
  refine ⟨?_, ?_⟩
  · obtain ⟨s, hrun⟩ := Option.isSome_iff_exists.1 (show (runFrom (step silentCallback)
      (initial ⟨[0], [0], ()⟩) eightClientsRun).isSome from by decide +kernel)
    exact ⟨s, hrun, (slots_of_run hrun).2.2 (by decide +kernel)⟩
  · obtain ⟨s, hrun, hfiles, hholds, hslots, hprogress⟩ : ∃ s ∈ runFrom (step silentCallback)
        (initial ⟨[0], [0], ()⟩) (eightClientsRun ++ .accept 13 :: List.replicate (maxClients + 1) .look),
        s.files 13 = some 8 ∧ ¬s.acceptor.Holds 13 ∧ (∀ i, (s.slots i).fd ≠ some 13) ∧
          s.progress 8 = (0, []) := by decide +kernel
    have hstranded : Stranded s 13 8 := ⟨hfiles, hholds, fun i hi => absurd hi (hslots i)⟩
    refine ⟨s, hrun, hstranded, fun es s' hrun' => ?_⟩
    obtain ⟨hstranded', hprogress'⟩ := (slots_of_run hrun).2.1 13 8 es s' hstranded hrun'
    exact ⟨hstranded', hprogress'.trans hprogress⟩

end ThingSet.SocketServer
