import ThingSet.Can.ZephyrInterface

/-!
# The address claim of a SocketCAN interface

`bind` sends a discovery frame and reads one claim from its socket, or none in time; if it is not a claim of
its address, it claims the address. It answers discovery frames only later, when the thread of its claimer
runs.

`not_both_bound`: two interfaces of one kind are never bound to the same address, in runs in which a wait does
not end before its discovery frame is answered, and no discovery frame reaches a node that has the address and
does not listen for it. `not_distinct`: else they can be.
-/

namespace ThingSet

open Transition CanID NetworkFrame

/-- Where `bind` is. -/
inductive SocketCanStage
  | idle
  | looping
  | waiting
  | claiming
  | claimed
  | done
  deriving DecidableEq, Repr

/-- `ThingSetSocketCanInterface`, with the frames that its two sockets have received. -/
structure SocketCanInterface where
  stage : SocketCanStage := .idle
  nodeAddress : UInt8 := 0
  claimLookoutSocket : List NetworkFrame := []
  claimer : List NetworkFrame := []
  deriving DecidableEq

/-- The steps of `bind`, with what they get from the socket and the random numbers, and of the claimer. -/
inductive SocketCanAction
  | bind (nodeAddress : UInt8)
  | discover (random : UInt8) (sent : Bool)
  | read (nodeAddress : UInt8)
  | timeout
  | claim (sent : Bool)
  | run
  | answer (sent : Bool)
  deriving DecidableEq, Repr

namespace SocketCanInterface

variable (eui : Eui) (self : SocketCanInterface)

/-- `tryClaimAddress`: the frame, if it is sent. -/
def tryClaimAddress (sent : Bool) : Option NetworkFrame :=
  if sent then some (.claim self.nodeAddress eui) else none

/-- `bind`, and `AddressClaimer::run`. -/
def act (e : SocketCanAction) : Option (SocketCanInterface × Option NetworkFrame) :=
  match self.stage, e with
  | .idle, .bind nodeAddress =>
    if nodeAddress < anonymousAddress then
      some ({ self with stage := .looping, nodeAddress := nodeAddress }, none)
    else none
  | .looping, .discover random sent =>
    some ({ self with stage := .waiting }, if sent then some (.discover self.nodeAddress random) else none)
  | .waiting, .read nodeAddress =>
    match self.claimLookoutSocket with
    | [] => none
    | claimedFrame :: frames =>
      if (CanID.create (claimedFrame.canId.wire true)).getSource = self.nodeAddress then
        if nodeAddress < anonymousAddress then
          some ({ self with stage := .looping, nodeAddress := nodeAddress, claimLookoutSocket := frames }, none)
        else none
      else some ({ self with stage := .claiming, claimLookoutSocket := frames }, none)
  | .waiting, .timeout =>
    if self.claimLookoutSocket = [] then some ({ self with stage := .claiming }, none) else none
  | .claiming, .claim sent =>
    some ({ self with stage := if sent then .claimed else .looping }, self.tryClaimAddress eui sent)
  | .claimed, .run => some ({ self with stage := .done, claimLookoutSocket := [] }, none)
  | .done, .answer sent =>
    match self.claimer with
    | [] => none
    | _ :: frames => some ({ self with claimer := frames }, self.tryClaimAddress eui sent)
  | _, _ => none

/-- A frame is received by the sockets with a filter that accepts it: that of `bind` while it runs, and that
of the claimer afterwards. -/
def receive (f : NetworkFrame) : SocketCanInterface :=
  let id := f.canId.wire true
  match self.stage with
  | .idle => self
  | .done =>
    if (discoverFilter self.nodeAddress).Accepts id then { self with claimer := self.claimer ++ [f] } else self
  | _ =>
    if claimLookoutFilter.Accepts id then
      { self with claimLookoutSocket := self.claimLookoutSocket ++ [f] }
    else self

end SocketCanInterface

/-- Two SocketCAN interfaces on a bus. -/
def socketCanProcedure (eui : Bool → Eui) : ClaimProcedure SocketCanInterface SocketCanAction where
  init := {}
  act p self e := self.act (eui p) e
  receive _ self f := self.receive f

/-- The wait for a claim times out when the discovery frame has been delivered, the other node does not have
to answer it any more, and no claim is in flight. -/
def SocketCanPatient (s : ClaimBus SocketCanInterface) : BusEvent SocketCanAction → Prop
  | .act p .timeout => (∀ f ∈ s.inFlight p, f.isClaim = true) ∧
      (s.node !p).claimer = [] ∧ ∀ f ∈ s.inFlight !p, f.isClaim = false
  | _ => True

instance (s : ClaimBus SocketCanInterface) : ∀ e, Decidable (SocketCanPatient s e)
  | .act _ .timeout => inferInstanceAs (Decidable (_ ∧ _ ∧ _))
  | .act _ (.bind _) | .act _ (.discover _ _) | .act _ (.read _) | .act _ (.claim _) | .act _ .run
  | .act _ (.answer _) | .deliver _ _ => isTrue trivial

/-- The frame asks for the address of the interface, the claimer of which does not run yet. -/
def SocketCanInterface.Deaf (self : SocketCanInterface) (f : NetworkFrame) : Prop :=
  self.stage ∈ [.waiting, .claiming, .claimed] ∧ f.isClaim = false ∧ f.address = self.nodeAddress

/-- The discovery frame, and an answer, is sent. -/
def SocketCanAction.Succeeds : SocketCanAction → Prop
  | .discover _ sent => sent = true
  | .answer sent => sent = true
  | _ => True

instance : ∀ e : SocketCanAction, Decidable e.Succeeds
  | .discover _ sent => inferInstanceAs (Decidable (sent = true))
  | .answer sent => inferInstanceAs (Decidable (sent = true))
  | .bind _ | .read _ | .timeout | .claim _ | .run => isTrue trivial

/-- Discovery frames and answers are sent, and no discovery frame arrives before the claimer runs. -/
def SocketCanHeard (s : ClaimBus SocketCanInterface) : BusEvent SocketCanAction → Prop
  | .act _ e => e.Succeeds
  | .deliver p i => ∀ f ∈ (s.inFlight p)[i]?, ¬ (s.node !p).Deaf f

instance (node : SocketCanInterface) (f : NetworkFrame) : Decidable (node.Deaf f) :=
  inferInstanceAs (Decidable (_ ∧ _ ∧ _))

instance (s : ClaimBus SocketCanInterface) : ∀ e, Decidable (SocketCanHeard s e)
  | .act _ e => inferInstanceAs (Decidable e.Succeeds)
  | .deliver p i => inferInstanceAs (Decidable (∀ f ∈ (s.inFlight p)[i]?, _))

/-- The interface is bound to an address. -/
def SocketCanInterface.BoundTo (self : SocketCanInterface) (nodeAddress : UInt8) : Prop :=
  self.stage = .done ∧ self.nodeAddress = nodeAddress

instance (node : SocketCanInterface) (a : UInt8) : Decidable (node.BoundTo a) :=
  inferInstanceAs (Decidable (_ ∧ _))

/-! ## The interface as a party -/

/-- A node has its address from the discovery frame on, and settles on it when it stops waiting. -/
def SocketCanInterface.name (self : SocketCanInterface) : Option UInt8 :=
  match self.stage with
  | .idle | .looping => none
  | _ => some self.nodeAddress

def SocketCanInterface.settled (self : SocketCanInterface) : Bool :=
  match self.stage with
  | .claiming | .claimed | .done => true
  | _ => false

/-- A claim of its address is in the socket. -/
def SocketCanInterface.told (self : SocketCanInterface) : Bool :=
  !self.settled && self.claimLookoutSocket.any fun f => f.address = self.nodeAddress

def socketCanView : ClaimView SocketCanInterface where
  name := SocketCanInterface.name
  settled := SocketCanInterface.settled
  told := SocketCanInterface.told
  owes self := !self.claimer.isEmpty

/-- The interface has claimed the address, and keeps it. -/
def SocketCanInterface.Claimed (self : SocketCanInterface) (nodeAddress : UInt8) : Prop :=
  self.stage ∈ [.claimed, .done] ∧ self.nodeAddress = nodeAddress

/-- The frames are about addresses of nodes, and claims are of an address that their sender keeps. -/
structure SocketCanWf (s : ClaimBus SocketCanInterface) : Prop where
  node : ∀ p, (s.node p).stage ≠ .idle → (s.node p).nodeAddress < anonymousAddress
  lookout : ∀ p, ∀ f ∈ (s.node p).claimLookoutSocket,
    f.isClaim = true ∧ f.address < anonymousAddress ∧ (s.node !p).Claimed f.address
  address : ∀ p, ∀ f ∈ s.inFlight p, f.address < anonymousAddress
  claim : ∀ p, ∀ f ∈ s.inFlight p, f.isClaim = true → (s.node p).Claimed f.address

variable {eui : Bool → Eui} {s s' : ClaimBus SocketCanInterface} {self self' : SocketCanInterface}
  {f : NetworkFrame} {sent : Option NetworkFrame} {p : Bool} {e : SocketCanAction} {a : UInt8}

namespace SocketCanInterface

/-- What `bind` or the claimer does, at each stage. -/
theorem act_cases {eui : Eui} {motive : SocketCanAction → Prop} (hact : self.act eui e = some (self', sent))
    (bind : ∀ nodeAddress, self.stage = .idle → nodeAddress < anonymousAddress →
      self' = { self with stage := .looping, nodeAddress := nodeAddress } → sent = none →
      motive (.bind nodeAddress))
    (discover : ∀ random sent', self.stage = .looping → self' = { self with stage := .waiting } →
      sent = (if sent' then some (.discover self.nodeAddress random) else none) →
      motive (.discover random sent'))
    (read : ∀ nodeAddress claimedFrame frames, self.stage = .waiting →
      self.claimLookoutSocket = claimedFrame :: frames →
      (if (CanID.create (claimedFrame.canId.wire true)).getSource = self.nodeAddress then
        if nodeAddress < anonymousAddress then
          some ({ self with stage := .looping, nodeAddress := nodeAddress, claimLookoutSocket := frames }, none)
        else none
      else some ({ self with stage := .claiming, claimLookoutSocket := frames }, none)) = some (self', sent) →
      motive (.read nodeAddress))
    (timeout : self.stage = .waiting → self.claimLookoutSocket = [] →
      self' = { self with stage := .claiming } → sent = none → motive .timeout)
    (claim : ∀ sent', self.stage = .claiming →
      self' = { self with stage := if sent' then .claimed else .looping } →
      sent = self.tryClaimAddress eui sent' → motive (.claim sent'))
    (run : self.stage = .claimed → self' = { self with stage := .done, claimLookoutSocket := [] } →
      sent = none → motive .run)
    (answer : ∀ sent' frame frames, self.stage = .done → self.claimer = frame :: frames →
      self' = { self with claimer := frames } → sent = self.tryClaimAddress eui sent' →
      motive (.answer sent')) : motive e := by
  unfold SocketCanInterface.act at hact
  cases e with
  | bind nodeAddress =>
    cases hstage : self.stage <;> simp only [hstage, reduceCtorEq] at hact
    split at hact <;> cases hact
    exact bind nodeAddress hstage ‹_› rfl rfl
  | discover random sent' =>
    cases hstage : self.stage <;> simp only [hstage, reduceCtorEq] at hact
    cases hact
    exact discover random sent' hstage rfl rfl
  | read nodeAddress =>
    cases hstage : self.stage <;> simp only [hstage, reduceCtorEq] at hact
    cases hframes : self.claimLookoutSocket with
    | nil =>
      rw [hframes] at hact
      cases hact
    | cons claimedFrame frames =>
      rw [hframes] at hact
      exact read nodeAddress claimedFrame frames hstage hframes hact
  | timeout =>
    cases hstage : self.stage <;> simp only [hstage, reduceCtorEq] at hact
    split at hact <;> cases hact
    exact timeout hstage ‹_› rfl rfl
  | claim sent' =>
    cases hstage : self.stage <;> simp only [hstage, reduceCtorEq] at hact
    cases hact
    exact claim sent' hstage rfl rfl
  | run =>
    cases hstage : self.stage <;> simp only [hstage, reduceCtorEq] at hact
    cases hact
    exact run hstage rfl rfl
  | answer sent' =>
    cases hstage : self.stage <;> simp only [hstage, reduceCtorEq] at hact
    cases hframes : self.claimer with
    | nil =>
      rw [hframes] at hact
      cases hact
    | cons frame frames =>
      rw [hframes] at hact
      cases hact
      exact answer sent' frame frames hstage hframes (by rw [hstage]) rfl

theorem Claimed.act {eui : Eui} (h : self.Claimed a) (hact : self.act eui e = some (self', sent)) :
    self'.Claimed a := by
  obtain ⟨hstage, haddress⟩ := h
  revert hstage
  apply act_cases hact
  case run =>
    rintro _ rfl _ -
    exact ⟨List.mem_of_getElem? (i := 1) rfl, haddress⟩
  case answer =>
    rintro _ _ _ _ _ rfl _ hstage
    exact ⟨hstage, haddress⟩
  all_goals
    intros
    simp_all

theorem Claimed.name (h : self.Claimed a) : self.name = some a := by
  obtain ⟨hstage, rfl⟩ := h
  unfold SocketCanInterface.name
  split
  · rename_i hidle
    rw [hidle] at hstage
    exact absurd hstage (by decide)
  · rename_i hlooping
    rw [hlooping] at hstage
    exact absurd hstage (by decide)
  · rfl

theorem of_name (h : self.name = some a) : self.stage ∉ [.idle, .looping] ∧ self.nodeAddress = a := by
  unfold SocketCanInterface.name at h
  split at h
  · cases h
  · cases h
  · rename_i hidle hlooping
    rw [List.mem_pair]
    exact ⟨fun h => h.elim hidle hlooping, Option.some.inj h⟩

/-- The address of an interface, the claims in its socket, and the frames that it sends. -/
theorem act_frames {eui : Eui} (haddress : self.stage ≠ .idle → self.nodeAddress < anonymousAddress)
    (hact : self.act eui e = some (self', sent)) :
    (self'.stage ≠ .idle → self'.nodeAddress < anonymousAddress) ∧
      (∀ f ∈ self'.claimLookoutSocket, f ∈ self.claimLookoutSocket) ∧
      ∀ f ∈ sent, f.address < anonymousAddress ∧ (f.isClaim = true → self'.Claimed f.address) := by
  have hclaim : ∀ {sent : Bool} {n : SocketCanInterface}, self.stage ≠ .idle →
      (sent = true → n.Claimed self.nodeAddress) → ∀ f ∈ self.tryClaimAddress eui sent,
        f.address < anonymousAddress ∧ (f.isClaim = true → n.Claimed f.address) := by
    intro sent n hstage hn f hf
    cases sent with
    | true =>
      cases hf
      exact ⟨haddress hstage, fun _ => hn rfl⟩
    | false => cases hf
  apply act_cases hact
  case bind =>
    rintro nodeAddress - hlt rfl rfl
    exact ⟨fun _ => hlt, fun _ => id, nofun⟩
  case discover =>
    rintro random sent' hstage rfl rfl
    have hstage : self.stage ≠ .idle := by rw [hstage]; nofun
    refine ⟨fun _ => haddress hstage, fun _ => id, fun f hf => ?_⟩
    split at hf
    · cases hf
      exact ⟨haddress hstage, nofun⟩
    · cases hf
  case read =>
    intro nodeAddress claimedFrame frames hstage hframes hact
    have hstage : self.stage ≠ .idle := by rw [hstage]; nofun
    split at hact
    · split at hact
      · rename_i hlt
        cases hact
        exact ⟨fun _ => hlt, fun f hf => hframes ▸ List.mem_cons_of_mem _ hf, nofun⟩
      · cases hact
    · cases hact
      exact ⟨fun _ => haddress hstage, fun f hf => hframes ▸ List.mem_cons_of_mem _ hf, nofun⟩
  case timeout =>
    rintro hstage - rfl rfl
    exact ⟨fun _ => haddress (by rw [hstage]; nofun), fun _ => id, nofun⟩
  case claim =>
    rintro sent' hstage rfl rfl
    have hstage : self.stage ≠ .idle := by rw [hstage]; nofun
    refine ⟨fun _ => haddress hstage, fun _ => id, hclaim hstage ?_⟩
    rintro rfl
    exact ⟨List.mem_cons_self, rfl⟩
  case run =>
    rintro hstage rfl rfl
    exact ⟨fun _ => haddress (by rw [hstage]; nofun), nofun, nofun⟩
  case answer =>
    rintro sent' frame frames hstage - rfl rfl
    have hidle : self.stage ≠ .idle := by rw [hstage]; nofun
    refine ⟨fun _ => haddress hidle, fun _ => id, hclaim hidle fun _ => ⟨?_, rfl⟩⟩
    exact hstage ▸ List.mem_of_getElem? (i := 1) rfl

/-- What a frame leaves as it is. -/
theorem receive_frame : (self.receive f).stage = self.stage ∧ (self.receive f).nodeAddress = self.nodeAddress := by
  unfold receive
  dsimp only
  split <;> (try split) <;> exact ⟨rfl, rfl⟩

theorem Claimed.receive (h : self.Claimed a) : (self.receive f).Claimed a := by
  rw [Claimed, receive_frame.1, receive_frame.2]
  exact h

theorem receive_claim (hf : f.address < anonymousAddress) (hclaim : f.isClaim = true) :
    self.receive f = if self.stage ∈ [.idle, .done] then self
      else { self with claimLookoutSocket := self.claimLookoutSocket ++ [f] } := by
  unfold receive
  dsimp only
  split
  · rename_i hstage
    rw [if_pos (by rw [hstage]; decide)]
  · rename_i hstage
    have hdiscover : ¬ (discoverFilter self.nodeAddress).Accepts (f.canId.wire true) := by
      rw [accepts_discoverFilter hf, hclaim]
      exact fun h => Bool.noConfusion h.1
    rw [if_neg hdiscover, if_pos (by rw [hstage]; decide)]
  · rename_i hidle hdone
    rw [if_pos ((accepts_claimLookoutFilter hf).2 hclaim), if_neg]
    rw [List.mem_pair]
    exact fun h => h.elim hidle hdone

theorem receive_discover (hf : f.address < anonymousAddress) (hclaim : f.isClaim = false) :
    self.receive f = if self.stage = .done ∧ f.address = self.nodeAddress then
      { self with claimer := self.claimer ++ [f] } else self := by
  unfold receive
  dsimp only
  split
  · rename_i hstage
    rw [if_neg (by simp [hstage])]
  · rename_i hstage
    simp only [accepts_discoverFilter hf, hclaim, hstage, true_and]
  · rename_i hidle hdone
    rw [if_neg (by rw [accepts_claimLookoutFilter hf, hclaim]; exact Bool.noConfusion),
      if_neg (fun h => hdone h.1)]

/-- A claim in the socket was there, or it is the frame that is received. -/
theorem mem_receive {g : NetworkFrame} (hf : f.address < anonymousAddress)
    (hg : g ∈ (self.receive f).claimLookoutSocket) :
    g ∈ self.claimLookoutSocket ∨ g = f ∧ f.isClaim = true := by
  cases hclaim : f.isClaim with
  | true =>
    rw [receive_claim hf hclaim] at hg
    split at hg
    · exact .inl hg
    · exact (List.mem_append.1 hg).imp id fun h => ⟨List.mem_singleton.1 h, rfl⟩
  | false =>
    rw [receive_discover hf hclaim] at hg
    split at hg <;> exact .inl hg

end SocketCanInterface

/-! ## Refinement -/

theorem source_of_isClaim (hclaim : f.isClaim = true) : f.source = f.address := by
  cases f with
  | discover target random => cases hclaim
  | claim source eui => rfl

/-- A step of `bind` or of the claimer is a step of the party. -/
theorem socketCan_act (hs : SocketCanWf s) (hact : (s.node p).act (eui p) e = some (self', sent))
    (hpatient : SocketCanPatient s (.act p e)) (he : e.Succeeds) :
    Claiming.Step (socketCanView.parties s) (socketCanView.parties
      ⟨Function.update s.node p self', Function.update s.inFlight p (sent.toList ++ s.inFlight p)⟩) := by
  revert hpatient he
  apply SocketCanInterface.act_cases hact
  case bind =>
    rintro _ _ _ rfl rfl _ _
    exact step_act_withdraw rfl rfl rfl
  case discover =>
    rintro random sent' hstage rfl rfl _ he
    obtain rfl : sent' = true := he
    refine step_act_discover rfl rfl rfl ?_ rfl
    simp only [socketCanView, SocketCanInterface.told, SocketCanInterface.settled, hstage]
  case read =>
    intro nodeAddress claimedFrame frames hstage hframes hact _ _
    have hname : socketCanView.name (s.node p) = some (s.node p).nodeAddress := by
      simp only [socketCanView, SocketCanInterface.name, hstage]
    split at hact
    · split at hact
      · cases hact
        exact step_act_withdraw rfl rfl rfl
      · cases hact
    · rename_i hsource
      cases hact
      -- the claim is of the address that the other node keeps
      have hother : ∀ f ∈ (s.node p).claimLookoutSocket, f.address ≠ (s.node p).nodeAddress := by
        intro f hf
        have hclaimed := hs.lookout p claimedFrame (hframes ▸ List.mem_cons_self)
        rw [getSource_create, source_of_isClaim hclaimed.1] at hsource
        rw [← (hs.lookout p f hf).2.2.2, hclaimed.2.2.2]
        exact hsource
      have htold : (s.node p).told = false := by
        rw [SocketCanInterface.told, List.any_eq_false.2 fun f hf => by simpa using hother f hf]
        exact Bool.and_false _
      refine step_act_settle hname.symm rfl htold.symm rfl hname (.inr ?_)
      have hclaimed := hs.lookout p claimedFrame (hframes ▸ List.mem_cons_self)
      change (s.node !p).name ≠ _
      rw [hclaimed.2.2.name]
      exact fun h => hother claimedFrame (hframes ▸ List.mem_cons_self) (Option.some.inj h)
  case timeout =>
    rintro hstage hempty rfl rfl hpatient _
    have hname : socketCanView.name (s.node p) = some (s.node p).nodeAddress := by
      simp only [socketCanView, SocketCanInterface.name, hstage]
    have htold : (s.node p).told = false := by
      rw [SocketCanInterface.told, hempty]
      exact Bool.and_false _
    refine step_act_settle hname.symm rfl htold.symm rfl hname (.inl ?_)
    obtain ⟨hquestions, howes, hanswers⟩ := hpatient
    rintro (hquestion | howed | hanswer | hknown)
    · obtain ⟨f, hf, hclaim, -⟩ := mem_questions.1 hquestion
      rw [hquestions f hf] at hclaim
      cases hclaim
    · have howed : (!(s.node !p).claimer.isEmpty) = true := howed
      rw [howes] at howed
      cases howed
    · obtain ⟨f, hf, hclaim, -⟩ := mem_answers.1 hanswer
      rw [hanswers f hf] at hclaim
      cases hclaim
    · exact Bool.false_ne_true (htold.symm.trans hknown)
  case claim =>
    rintro sent' hstage rfl rfl _ _
    cases sent' with
    | true =>
      refine step_act_claim rfl ?_ ?_ ?_ ?_ <;>
        simp [socketCanView, SocketCanInterface.name, SocketCanInterface.settled, SocketCanInterface.told,
          hstage, NetworkFrame.address]
    | false => exact step_act_withdraw rfl rfl rfl
  case run =>
    rintro hstage rfl rfl _ _
    refine step_act_stay ?_ ?_ ?_ rfl <;>
      simp [socketCanView, SocketCanInterface.name, SocketCanInterface.settled, SocketCanInterface.told, hstage]
  case answer =>
    rintro sent' frame frames hstage _ rfl rfl _ he
    obtain rfl : sent' = true := he
    refine step_act_claim rfl rfl rfl rfl fun b hb => ?_
    simp only [socketCanView, SocketCanInterface.name, hstage] at hb
    exact (Option.some.inj hb).symm

/-- The delivery of a frame is a step of the parties. -/
theorem socketCan_deliver {i : ℕ} (hs : SocketCanWf s) (hf : (s.inFlight p)[i]? = some f)
    (hdeaf : ¬ (s.node !p).Deaf f) :
    Claiming.Step (socketCanView.parties s) (socketCanView.parties
      ⟨Function.update s.node (!p) ((s.node !p).receive f),
        Function.update s.inFlight p ((s.inFlight p).eraseIdx i)⟩) := by
  have haddress := hs.address p f (List.mem_of_getElem? hf)
  cases hclaim : f.isClaim with
  | true =>
    rw [SocketCanInterface.receive_claim haddress hclaim]
    split
    · rename_i hstage
      refine step_deliver_claim hf hclaim rfl rfl rfl id fun hname hsettled => ?_
      rcases List.mem_pair.1 hstage with hstage | hstage
      · exact absurd (hstage ▸ List.mem_cons_self) (SocketCanInterface.of_name hname).1
      · simp only [socketCanView, SocketCanInterface.settled, hstage] at hsettled
        cases hsettled
    · refine step_deliver_claim hf hclaim rfl rfl rfl (fun htold => ?_) fun hname hsettled => ?_
      · simp only [socketCanView, SocketCanInterface.told, Bool.and_eq_true, List.any_append] at htold ⊢
        exact ⟨htold.1, by rw [htold.2, Bool.true_or]⟩
      · have haddress := (SocketCanInterface.of_name hname).2
        change (!(s.node !p).settled && _) = true
        rw [show (s.node !p).settled = false from hsettled]
        simp [haddress]
  | false =>
    rw [SocketCanInterface.receive_discover haddress hclaim]
    split
    · refine step_deliver_discover hf hclaim rfl rfl rfl (fun _ => ?_) (fun _ => ?_) <;>
        simp [socketCanView]
    · rename_i hdone
      refine step_deliver_discover hf hclaim rfl rfl rfl id fun hname => ?_
      obtain ⟨hstage, haddress⟩ := SocketCanInterface.of_name hname
      refine absurd ⟨?_, hclaim, haddress.symm⟩ hdeaf
      cases hcase : (s.node !p).stage <;> simp_all

/-! ## Runs -/

/-- One step: the parties make a step, and what is known of the interfaces stays. -/
theorem socketCan_step {event : BusEvent SocketCanAction} (hs : SocketCanWf s)
    (hpatient : SocketCanPatient s event) (hheard : SocketCanHeard s event)
    (hstep : (socketCanProcedure eui).step s event = some s') :
    SocketCanWf s' ∧ Claiming.Step (socketCanView.parties s) (socketCanView.parties s') := by
  cases event with
  | act p e =>
    obtain ⟨⟨self', sent⟩, hact, rfl⟩ := Option.map_eq_some_iff.1 hstep
    refine ⟨?_, socketCan_act hs hact hpatient hheard⟩
    obtain ⟨hnode, hlookout, hsent⟩ := SocketCanInterface.act_frames (hs.node p) hact
    constructor <;> refine Claiming.forall_party (p := p) ?_ ?_ <;> dsimp only
    · rwa [Function.update_self]
    · rw [Function.update_of_ne (Bool.not_ne_self p)]
      exact hs.node !p
    · rw [Function.update_self, Function.update_of_ne (Bool.not_ne_self p)]
      exact fun f hf => hs.lookout p f (hlookout f hf)
    · rw [Bool.not_not, Function.update_self, Function.update_of_ne (Bool.not_ne_self p)]
      intro f hf
      obtain ⟨hclaim, haddress, hclaimed⟩ := hs.lookout (!p) f hf
      rw [Bool.not_not] at hclaimed
      exact ⟨hclaim, haddress, hclaimed.act hact⟩
    · rw [Function.update_self]
      exact fun f hf => (List.mem_append.1 hf).elim (fun h => (hsent f (Option.mem_toList.1 h)).1) (hs.address p f)
    · rw [Function.update_of_ne (Bool.not_ne_self p)]
      exact hs.address !p
    · rw [Function.update_self, Function.update_self]
      exact fun f hf => (List.mem_append.1 hf).elim (fun h => (hsent f (Option.mem_toList.1 h)).2)
        fun h hclaim => (hs.claim p f h hclaim).act hact
    · rw [Function.update_of_ne (Bool.not_ne_self p), Function.update_of_ne (Bool.not_ne_self p)]
      exact hs.claim !p
  | deliver p i =>
    obtain ⟨f, hf, rfl⟩ := Option.map_eq_some_iff.1 hstep
    have hmem := List.mem_of_getElem? hf
    refine ⟨?_, socketCan_deliver hs hf (hheard f hf)⟩
    have hself := Function.update_of_ne (Bool.not_ne_self p).symm ((s.node !p).receive f) s.node
    have hother := Function.update_self (!p) ((s.node !p).receive f) s.node
    constructor <;> refine Claiming.forall_party (p := p) ?_ ?_ <;>
      simp only [socketCanProcedure, hself, hother, Bool.not_not]
    · exact hs.node p
    · rw [SocketCanInterface.receive_frame.1, SocketCanInterface.receive_frame.2]
      exact hs.node !p
    · intro g hg
      obtain ⟨hclaim, haddress, hclaimed⟩ := hs.lookout p g hg
      exact ⟨hclaim, haddress, hclaimed.receive⟩
    · intro g hg
      rcases SocketCanInterface.mem_receive (hs.address p f hmem) hg with hg | ⟨rfl, hclaim⟩
      · simpa only [Bool.not_not] using hs.lookout (!p) g hg
      · exact ⟨hclaim, hs.address p g hmem, hs.claim p g hmem hclaim⟩
    · rw [Function.update_self]
      exact fun g hg => hs.address p g (List.mem_of_mem_eraseIdx hg)
    · rw [Function.update_of_ne (Bool.not_ne_self p)]
      exact hs.address !p
    · rw [Function.update_self]
      exact fun g hg => hs.claim p g (List.mem_of_mem_eraseIdx hg)
    · rw [Function.update_of_ne (Bool.not_ne_self p)]
      exact fun g hg hclaim => (hs.claim (!p) g hg hclaim).receive

theorem socketCanWf_start : SocketCanWf (socketCanProcedure eui).start :=
  ⟨fun _ h => absurd rfl h, nofun, nofun, nofun⟩

/-- Two SocketCAN interfaces are not bound to the same address. -/
theorem socketCan_not_both_bound {es : List (BusEvent SocketCanAction)}
    (hmeets : Meets (socketCanProcedure eui).step (fun s e => SocketCanPatient s e ∧ SocketCanHeard s e)
      (socketCanProcedure eui).start es)
    (hrun : runFrom (socketCanProcedure eui).step (socketCanProcedure eui).start es = some s) (a : UInt8) :
    ¬ ∀ p, (s.node p).BoundTo a := by
  have hinv : SocketCanWf s ∧ Claiming.Contested (socketCanView.parties s) := by
    have hstart : Claiming.Contested (socketCanView.parties (socketCanProcedure eui).start) := fun a ha =>
      nomatch ha true
    refine runFrom_invariant_of_meets (P := fun s => SocketCanWf s ∧ Claiming.Contested (socketCanView.parties s))
      (fun s e s' hs hgood hstep => ?_) ⟨socketCanWf_start, hstart⟩ hmeets hrun
    obtain ⟨hwf, hparties⟩ := socketCan_step hs.1 hgood.1 hgood.2 hstep
    exact ⟨hwf, hparties.contested hs.2⟩
  intro hbound
  obtain ⟨p, hp⟩ := hinv.2.not_both_settled (a := a) fun p => by
    obtain ⟨hstage, haddress⟩ := hbound p
    simp [ClaimView.parties, socketCanView, SocketCanInterface.name, hstage, haddress]
  obtain ⟨hstage, -⟩ := hbound p
  simp [ClaimView.parties, socketCanView, SocketCanInterface.settled, hstage] at hp

/-! ## Both kinds of interfaces -/

/-- **Two interfaces of one kind are not bound to the same address.** -/
theorem not_both_bound :
    (∀ es s a, Meets (zephyrProcedure eui).step (fun s e => ZephyrPatient s e ∧ ZephyrHeard s e)
        (zephyrProcedure eui).start es →
      runFrom (zephyrProcedure eui).step (zephyrProcedure eui).start es = some s → eui false ≠ eui true →
      ¬ ∀ p, (s.node p).BoundTo a) ∧
    ∀ es s a, Meets (socketCanProcedure eui).step (fun s e => SocketCanPatient s e ∧ SocketCanHeard s e)
        (socketCanProcedure eui).start es →
      runFrom (socketCanProcedure eui).step (socketCanProcedure eui).start es = some s →
      ¬ ∀ p, (s.node p).BoundTo a :=
  ⟨fun _ _ a hmeets hrun heui => zephyr_not_both_bound heui hmeets hrun a,
    fun _ _ a hmeets hrun => socketCan_not_both_bound hmeets hrun a⟩

/-! ## Two nodes at one address -/

/-- The EUIs of two nodes. -/
def twoEuis (p : Bool) : Eui := ⟨[if p then 1 else 0, 0, 0, 0, 0, 0, 0, 0], rfl⟩

/-- A Zephyr interface claims address 1 without an answer, up to the end of the loop. -/
def zephyrClaims (p : Bool) (nodeAddress : UInt8) : List (BusEvent ZephyrAction) :=
  [.act p (.bind nodeAddress), .act p (.addClaimFilter true), .act p (.addAnyDiscoverFilter true), .act p .clear,
    .act p (.discover 0 true), .deliver p 0, .act p .timeout, .act p (.claim true), .deliver p 0,
    .act p (.count false), .act p .removeFilter]

/-- The second interface starts while the first one has no filter for discovery frames. -/
def zephyrCollision : List (BusEvent ZephyrAction) :=
  zephyrClaims false 1 ++ zephyrClaims true 1 ++
    [.act false (.addDiscoverFilter true), .act true (.addDiscoverFilter true)]

/-- The second interface is told that the first one has its address, and takes another. -/
def zephyrAvoidance : List (BusEvent ZephyrAction) :=
  zephyrClaims false 1 ++ [.act false (.addDiscoverFilter true), .act true (.bind 1),
    .act true (.addClaimFilter true), .act true (.addAnyDiscoverFilter true), .act true .clear,
    .act true (.discover 0 true), .deliver true 0, .act false (.work true), .deliver false 0,
    .act true (.taken 2), .act true .clear, .act true (.discover 0 true), .deliver true 0, .act true .timeout,
    .act true (.claim true), .deliver true 0, .act true (.count false), .act true .removeFilter,
    .act true (.addDiscoverFilter true)]

/-- Two SocketCAN interfaces start at the same time. -/
def socketCanCollision : List (BusEvent SocketCanAction) :=
  [.act false (.bind 1), .act true (.bind 1), .act false (.discover 0 true), .act true (.discover 0 true),
    .deliver false 0, .deliver true 0, .act false .timeout, .act true .timeout, .act false (.claim true),
    .act true (.claim true), .deliver false 0, .deliver true 0, .act false .run, .act true .run]

/-- The second interface is told that the first one has its address, and takes another. -/
def socketCanAvoidance : List (BusEvent SocketCanAction) :=
  [.act false (.bind 1), .act false (.discover 0 true), .deliver false 0, .act false .timeout,
    .act false (.claim true), .deliver false 0, .act false .run, .act true (.bind 1),
    .act true (.discover 0 true), .deliver true 0, .act false (.answer true), .deliver false 0,
    .act true (.read 2), .act true (.discover 0 true), .deliver true 0, .act true .timeout,
    .act true (.claim true), .deliver true 0, .act true .run]

/-- Nobody is bound to the address of the other in these runs. -/
theorem avoidance_not_both_bound :
    (∃ s, runFrom (zephyrProcedure twoEuis).step (zephyrProcedure twoEuis).start zephyrAvoidance = some s ∧
      ¬ ∀ p, (s.node p).BoundTo 1) ∧
    ∃ s, runFrom (socketCanProcedure twoEuis).step (socketCanProcedure twoEuis).start socketCanAvoidance =
      some s ∧ ¬ ∀ p, (s.node p).BoundTo 1 := by
  obtain ⟨s, hs⟩ := Option.isSome_iff_exists.1 (show (runFrom (zephyrProcedure twoEuis).step
    (zephyrProcedure twoEuis).start zephyrAvoidance).isSome from by decide +kernel)
  obtain ⟨s', hs'⟩ := Option.isSome_iff_exists.1 (show (runFrom (socketCanProcedure twoEuis).step
    (socketCanProcedure twoEuis).start socketCanAvoidance).isSome from by decide +kernel)
  exact ⟨⟨s, hs, not_both_bound.1 zephyrAvoidance s 1 (by decide +kernel) hs (by decide)⟩,
    ⟨s', hs', not_both_bound.2 socketCanAvoidance s' 1 (by decide +kernel) hs'⟩⟩

/-- **Two interfaces can be bound to the same address**: two Zephyr interfaces, when one looks for an address
while the other exchanges its filters, and two SocketCAN interfaces that start at the same time. -/
theorem collision_both_bound :
    (Meets (zephyrProcedure twoEuis).step ZephyrPatient (zephyrProcedure twoEuis).start zephyrCollision ∧
      ∃ s, runFrom (zephyrProcedure twoEuis).step (zephyrProcedure twoEuis).start zephyrCollision = some s ∧
        ∀ p, (s.node p).BoundTo 1) ∧
    Meets (socketCanProcedure twoEuis).step SocketCanPatient (socketCanProcedure twoEuis).start
        socketCanCollision ∧
      ∃ s, runFrom (socketCanProcedure twoEuis).step (socketCanProcedure twoEuis).start socketCanCollision =
        some s ∧ ∀ p, (s.node p).BoundTo 1 := by
  have hzephyr : ((runFrom (zephyrProcedure twoEuis).step (zephyrProcedure twoEuis).start
      zephyrCollision).any fun s => decide (∀ p, (s.node p).BoundTo 1)) = true := by decide +kernel
  have hsocketCan : ((runFrom (socketCanProcedure twoEuis).step (socketCanProcedure twoEuis).start
      socketCanCollision).any fun s => decide (∀ p, (s.node p).BoundTo 1)) = true := by decide +kernel
  obtain ⟨s, hs, hbound⟩ := (Option.any_eq_true ..).1 hzephyr
  obtain ⟨s', hs', hbound'⟩ := (Option.any_eq_true ..).1 hsocketCan
  exact ⟨⟨by decide +kernel, s, hs, of_decide_eq_true hbound⟩,
    by decide +kernel, s', hs', of_decide_eq_true hbound'⟩

end ThingSet
