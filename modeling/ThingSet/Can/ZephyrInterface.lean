import ThingSet.Can.AddressClaim
import ThingSet.Foundations.Transition

/-!
# The address claim of a Zephyr interface

`bind` sends a discovery frame for an address and waits for a claim of it; with none it claims the address.
It answers discovery frames through a work item: while it looks for an address, with a filter for all
discovery frames, and later with a filter for those that ask for its own.

`zephyr_not_both_bound`: two interfaces are never bound to the same address, in runs in which a wait does not
end before its discovery frame is answered, and no discovery frame reaches a node between the two filters.
-/

namespace ThingSet

open Transition CanID NetworkFrame

/-- Where `bind` is. -/
inductive ZephyrStage
  | idle
  | started
  | filtered
  | looping
  | cleared
  | waiting
  | claiming
  | claimed
  | leaving
  | unfiltered
  | done
  deriving DecidableEq, Repr

/-- `ThingSetZephyrCanInterface`, with the filters that it has on the device, and whether its work item is
submitted. -/
structure ZephyrInterface where
  stage : ZephyrStage := .idle
  nodeAddress : UInt8 := broadcastAddress
  claimFilter : Bool := false
  anyDiscoverFilter : Bool := false
  discoverFilter : Option UInt8 := none
  alreadyUsed : Bool := false
  addressClaimWork : Bool := false
  isBound : Bool := false
  deriving DecidableEq, Repr

/-- The steps of `bind`, with what they get from the device and the random numbers, and the work item. -/
inductive ZephyrAction
  | bind (nodeAddress : UInt8)
  | addClaimFilter (added : Bool)
  | addAnyDiscoverFilter (added : Bool)
  | clear
  | discover (random : UInt8) (sent : Bool)
  | taken (nodeAddress : UInt8)
  | timeout
  | claim (sent : Bool)
  | count (collision : Bool)
  | removeFilter
  | addDiscoverFilter (added : Bool)
  | work (sent : Bool)
  deriving DecidableEq, Repr

namespace ZephyrInterface

variable (eui : Eui) (self : ZephyrInterface)

/-- `claimAddress(nodeAddress)`: the frame, if it is sent. -/
def claimAddress (sent : Bool) : Option NetworkFrame :=
  if sent then some (.claim self.nodeAddress eui) else none

/-- `bind`, and `addressClaimWorkHandler`. -/
def act (e : ZephyrAction) : Option (ZephyrInterface × Option NetworkFrame) :=
  match self.stage, e with
  | .idle, .bind nodeAddress =>
    if nodeAddress < anonymousAddress then
      some ({ self with stage := .started, nodeAddress := nodeAddress, alreadyUsed := false }, none)
    else none
  | .started, .addClaimFilter added => some ({ self with stage := .filtered, claimFilter := added }, none)
  | .filtered, .addAnyDiscoverFilter added =>
    some ({ self with stage := .looping, anyDiscoverFilter := added }, none)
  | .looping, .clear => some ({ self with stage := .cleared, alreadyUsed := false }, none)
  | .cleared, .discover random sent =>
    if sent then some ({ self with stage := .waiting }, some (.discover self.nodeAddress random))
    else some ({ self with stage := .looping }, none)
  | .waiting, .taken nodeAddress =>
    if self.alreadyUsed ∧ nodeAddress < anonymousAddress then
      some ({ self with stage := .looping, nodeAddress := nodeAddress }, none)
    else none
  | .waiting, .timeout => if self.alreadyUsed then none else some ({ self with stage := .claiming }, none)
  | .claiming, .claim sent =>
    some ({ self with stage := if sent then .claimed else .looping }, self.claimAddress eui sent)
  | .claimed, .count collision =>
    some ({ self with stage := if collision then .looping else .leaving }, none)
  | .leaving, .removeFilter => some ({ self with stage := .unfiltered, anyDiscoverFilter := false }, none)
  | .unfiltered, .addDiscoverFilter added =>
    some ({ self with
      stage := .done
      discoverFilter := if added then some self.nodeAddress else none
      isBound := added }, none)
  | _, .work sent =>
    if self.addressClaimWork then some ({ self with addressClaimWork := false }, self.claimAddress eui sent)
    else none
  | _, _ => none

/-- `onAddressClaimReceived`. -/
def onAddressClaimReceived (id : BitVec 32) (data : Bytes) : ZephyrInterface :=
  if data = eui.bytes then self
  else if self.nodeAddress = (CanID.create id).getSource then { self with alreadyUsed := true }
  else self

/-- `onAnyAddressDiscoverReceived`. -/
def onAnyAddressDiscoverReceived (id : BitVec 32) : ZephyrInterface :=
  if self.nodeAddress = (CanID.create id).getTarget then { self with addressClaimWork := true } else self

/-- `onAddressDiscoverReceived`. -/
def onAddressDiscoverReceived : ZephyrInterface := { self with addressClaimWork := true }

/-- A frame is received: the callbacks of the filters that accept it are called. -/
def receive (f : NetworkFrame) : ZephyrInterface :=
  let id := f.canId.wire false
  let self := if self.claimFilter ∧ NetworkFrame.claimFilter.Accepts id then
    self.onAddressClaimReceived eui id f.data else self
  let self := if self.anyDiscoverFilter ∧ NetworkFrame.anyDiscoverFilter.Accepts id then
    self.onAnyAddressDiscoverReceived id else self
  if ∃ a ∈ self.discoverFilter, (NetworkFrame.discoverFilter a).Accepts id then
    self.onAddressDiscoverReceived else self

end ZephyrInterface

/-- Two Zephyr interfaces on a bus. -/
def zephyrProcedure (eui : Bool → Eui) : ClaimProcedure ZephyrInterface ZephyrAction where
  init := {}
  act p self e := self.act (eui p) e
  receive p self f := self.receive (eui p) f

/-- The wait for a claim ends when the discovery frame has been delivered, the other node does not have to
answer it any more, and no claim is in flight. -/
def ZephyrPatient (s : ClaimBus ZephyrInterface) : BusEvent ZephyrAction → Prop
  | .act p .timeout => (∀ f ∈ s.inFlight p, f.isClaim = true) ∧
      (s.node !p).addressClaimWork = false ∧ ∀ f ∈ s.inFlight !p, f.isClaim = false
  | _ => True

instance (s : ClaimBus ZephyrInterface) : ∀ e, Decidable (ZephyrPatient s e)
  | .act _ .timeout => inferInstanceAs (Decidable (_ ∧ _ ∧ _))
  | .act _ (.bind _) | .act _ (.addClaimFilter _) | .act _ (.addAnyDiscoverFilter _) | .act _ .clear
  | .act _ (.discover _ _) | .act _ (.taken _) | .act _ (.claim _) | .act _ (.count _) | .act _ .removeFilter
  | .act _ (.addDiscoverFilter _) | .act _ (.work _) | .deliver _ _ => isTrue trivial

/-- The frame asks for the address of the interface, which has no filter for it. -/
def ZephyrInterface.Deaf (self : ZephyrInterface) (f : NetworkFrame) : Prop :=
  self.stage = .unfiltered ∧ f.isClaim = false ∧ f.address = self.nodeAddress

/-- The filters of the loop are added, and an answer is sent. -/
def ZephyrAction.Succeeds : ZephyrAction → Prop
  | .addClaimFilter added => added = true
  | .addAnyDiscoverFilter added => added = true
  | .work sent => sent = true
  | _ => True

instance : ∀ e : ZephyrAction, Decidable e.Succeeds
  | .addClaimFilter added => inferInstanceAs (Decidable (added = true))
  | .addAnyDiscoverFilter added => inferInstanceAs (Decidable (added = true))
  | .work sent => inferInstanceAs (Decidable (sent = true))
  | .bind _ | .clear | .discover _ _ | .taken _ | .timeout | .claim _ | .count _ | .removeFilter
  | .addDiscoverFilter _ => isTrue trivial

/-- The filters are added and answers are sent, and no discovery frame arrives between two filters. -/
def ZephyrHeard (s : ClaimBus ZephyrInterface) : BusEvent ZephyrAction → Prop
  | .act _ e => e.Succeeds
  | .deliver p i => ∀ f ∈ (s.inFlight p)[i]?, ¬ (s.node !p).Deaf f

instance (node : ZephyrInterface) (f : NetworkFrame) : Decidable (node.Deaf f) :=
  inferInstanceAs (Decidable (_ ∧ _ ∧ _))

instance (s : ClaimBus ZephyrInterface) : ∀ e, Decidable (ZephyrHeard s e)
  | .act _ e => inferInstanceAs (Decidable e.Succeeds)
  | .deliver p i => inferInstanceAs (Decidable (∀ f ∈ (s.inFlight p)[i]?, _))

/-- The interface is bound to an address. -/
def ZephyrInterface.BoundTo (self : ZephyrInterface) (nodeAddress : UInt8) : Prop :=
  self.stage = .done ∧ self.isBound = true ∧ self.nodeAddress = nodeAddress

instance (node : ZephyrInterface) (a : UInt8) : Decidable (node.BoundTo a) :=
  inferInstanceAs (Decidable (_ ∧ _ ∧ _))

/-! ## The interface as a party -/

/-- A node has its address from the discovery frame on, and settles on it when it stops waiting. -/
def ZephyrInterface.name (self : ZephyrInterface) : Option UInt8 :=
  match self.stage with
  | .waiting | .claiming | .claimed | .leaving | .unfiltered => some self.nodeAddress
  | .done => if self.isBound then some self.nodeAddress else none
  | _ => none

def ZephyrInterface.settled (self : ZephyrInterface) : Bool :=
  match self.stage with
  | .claiming | .claimed | .leaving | .unfiltered => true
  | .done => self.isBound
  | _ => false

def zephyrView : ClaimView ZephyrInterface where
  name := ZephyrInterface.name
  settled := ZephyrInterface.settled
  told := ZephyrInterface.alreadyUsed
  owes := ZephyrInterface.addressClaimWork

/-- The filters are those of the stage. -/
structure ZephyrInterface.Wf (node : ZephyrInterface) : Prop where
  address : node.stage ≠ .idle → node.nodeAddress < anonymousAddress
  claim : node.stage ∉ [.idle, .started] → node.claimFilter = true
  anyDiscover : node.stage ∈ [.looping, .cleared, .waiting, .claiming, .claimed, .leaving] →
    node.anyDiscoverFilter = true
  discover : node.stage = .done → node.isBound = true → node.discoverFilter = some node.nodeAddress
  idle : node.stage = .idle →
    node.anyDiscoverFilter = false ∧ node.discoverFilter = none ∧ node.addressClaimWork = false

/-- The interfaces, and the frames in flight from them. -/
structure ZephyrWf (eui : Bool → Eui) (s : ClaimBus ZephyrInterface) : Prop where
  node : ∀ p, (s.node p).Wf
  address : ∀ p, ∀ f ∈ s.inFlight p, f.address < anonymousAddress
  eui : ∀ p, ∀ f ∈ s.inFlight p, f.isClaim = true → f.data = (eui p).bytes

variable {eui : Bool → Eui} {s s' : ClaimBus ZephyrInterface} {self self' : ZephyrInterface}
  {f : NetworkFrame} {sent : Option NetworkFrame} {p : Bool} {e : ZephyrAction}

/-! ## What the interface does with a frame -/

/-- Another interface claims an address. -/
theorem ZephyrInterface.receive_claim {eui : Eui} (hf : f.address < anonymousAddress) (hclaim : f.isClaim = true)
    (heui : f.data ≠ eui.bytes) :
    self.receive eui f =
      if self.claimFilter = true ∧ self.nodeAddress = f.address then { self with alreadyUsed := true }
      else self := by
  have hsource : f.source = f.address := by
    cases f with
    | discover target random => cases hclaim
    | claim source eui => rfl
  have hany : ¬ NetworkFrame.anyDiscoverFilter.Accepts (f.canId.wire false) := by
    rw [accepts_anyDiscoverFilter hf, hclaim]
    exact Bool.noConfusion
  have hdiscover : ∀ a, ¬ (NetworkFrame.discoverFilter a).Accepts (f.canId.wire false) := by
    intro a
    rw [accepts_discoverFilter hf, hclaim]
    exact fun h => Bool.noConfusion h.1
  rw [receive]
  simp only [accepts_claimFilter hf, hclaim, hany, hdiscover, and_true, and_false, exists_false, if_false,
    onAddressClaimReceived, if_neg heui, getSource_create, hsource]
  split_ifs <;> simp_all

/-- Another interface asks for an address. -/
theorem ZephyrInterface.receive_discover {eui : Eui} (hf : f.address < anonymousAddress)
    (hclaim : f.isClaim = false) :
    self.receive eui f =
      if self.anyDiscoverFilter = true ∧ self.nodeAddress = f.address ∨ self.discoverFilter = some f.address then
        { self with addressClaimWork := true }
      else self := by
  have htarget : f.target = f.address := by
    cases f with
    | discover target random => rfl
    | claim source eui => cases hclaim
  have hclaimFilter : ¬ NetworkFrame.claimFilter.Accepts (f.canId.wire false) := by
    rw [accepts_claimFilter hf, hclaim]
    exact Bool.noConfusion
  rw [receive]
  simp only [hclaimFilter, accepts_anyDiscoverFilter hf, accepts_discoverFilter hf, hclaim, and_true, true_and,
    and_false, if_false, onAnyAddressDiscoverReceived, onAddressDiscoverReceived, getTarget_create, htarget,
    Option.mem_def]
  by_cases hany : self.anyDiscoverFilter = true ∧ self.nodeAddress = f.address
  · rw [if_pos hany.1, if_pos hany.2,
      if_pos (show (self.anyDiscoverFilter = true ∧ self.nodeAddress = f.address) ∨
        self.discoverFilter = some f.address from .inl hany)]
    split <;> rfl
  · have hsame : (if self.anyDiscoverFilter = true then
        (if self.nodeAddress = f.address then { self with addressClaimWork := true } else self) else self) =
          self := by
      split_ifs with h h'
      · exact absurd ⟨h, h'⟩ hany
      · rfl
      · rfl
    simp only [hsame, hany, false_or, exists_eq_right']

/-! ## Refinement -/

/-- What `bind` or the work item does, at each stage. -/
theorem ZephyrInterface.act_cases {eui : Eui} {motive : ZephyrAction → Prop}
    (hact : self.act eui e = some (self', sent))
    (bind : ∀ nodeAddress, self.stage = .idle → nodeAddress < anonymousAddress →
      self' = { self with stage := .started, nodeAddress := nodeAddress, alreadyUsed := false } →
      sent = none → motive (.bind nodeAddress))
    (addClaimFilter : ∀ added, self.stage = .started →
      self' = { self with stage := .filtered, claimFilter := added } → sent = none →
      motive (.addClaimFilter added))
    (addAnyDiscoverFilter : ∀ added, self.stage = .filtered →
      self' = { self with stage := .looping, anyDiscoverFilter := added } → sent = none →
      motive (.addAnyDiscoverFilter added))
    (clear : self.stage = .looping → self' = { self with stage := .cleared, alreadyUsed := false } →
      sent = none → motive .clear)
    (discover : ∀ random sent', self.stage = .cleared →
      (if sent' then some ({ self with stage := .waiting }, some (.discover self.nodeAddress random))
        else some ({ self with stage := .looping }, none)) = some (self', sent) →
      motive (.discover random sent'))
    (taken : ∀ nodeAddress, self.stage = .waiting → self.alreadyUsed = true →
      nodeAddress < anonymousAddress → self' = { self with stage := .looping, nodeAddress := nodeAddress } →
      sent = none → motive (.taken nodeAddress))
    (timeout : self.stage = .waiting → ¬ self.alreadyUsed = true → self' = { self with stage := .claiming } →
      sent = none → motive .timeout)
    (claim : ∀ sent', self.stage = .claiming →
      self' = { self with stage := if sent' then .claimed else .looping } →
      sent = self.claimAddress eui sent' → motive (.claim sent'))
    (count : ∀ collision, self.stage = .claimed →
      self' = { self with stage := if collision then .looping else .leaving } → sent = none →
      motive (.count collision))
    (removeFilter : self.stage = .leaving →
      self' = { self with stage := .unfiltered, anyDiscoverFilter := false } → sent = none →
      motive .removeFilter)
    (addDiscoverFilter : ∀ added, self.stage = .unfiltered →
      self' = { self with
        stage := .done
        discoverFilter := if added then some self.nodeAddress else none
        isBound := added } → sent = none → motive (.addDiscoverFilter added))
    (work : ∀ sent', self.addressClaimWork = true → self' = { self with addressClaimWork := false } →
      sent = self.claimAddress eui sent' → motive (.work sent')) : motive e := by
  unfold ZephyrInterface.act at hact
  cases e with
  | work sent' =>
    cases hstage : self.stage <;> simp only [hstage] at hact <;> split at hact <;> cases hact <;>
      exact work sent' ‹_› (by rw [hstage]) rfl
  | bind nodeAddress =>
    cases hstage : self.stage <;> simp only [hstage, reduceCtorEq] at hact
    split at hact <;> cases hact
    exact bind nodeAddress hstage ‹_› rfl rfl
  | taken nodeAddress =>
    cases hstage : self.stage <;> simp only [hstage, reduceCtorEq] at hact
    split at hact <;> cases hact
    exact taken nodeAddress hstage (And.left ‹_›) (And.right ‹_›) rfl rfl
  | timeout =>
    cases hstage : self.stage <;> simp only [hstage, reduceCtorEq] at hact
    split at hact <;> cases hact
    exact timeout hstage ‹_› rfl rfl
  | discover random sent' =>
    cases hstage : self.stage <;> simp only [hstage, reduceCtorEq] at hact
    exact discover random sent' hstage hact
  | addClaimFilter added =>
    cases hstage : self.stage <;> simp only [hstage, reduceCtorEq] at hact
    cases hact
    exact addClaimFilter added hstage rfl rfl
  | addAnyDiscoverFilter added =>
    cases hstage : self.stage <;> simp only [hstage, reduceCtorEq] at hact
    cases hact
    exact addAnyDiscoverFilter added hstage rfl rfl
  | clear =>
    cases hstage : self.stage <;> simp only [hstage, reduceCtorEq] at hact
    cases hact
    exact clear hstage rfl rfl
  | claim sent' =>
    cases hstage : self.stage <;> simp only [hstage, reduceCtorEq] at hact
    cases hact
    exact claim sent' hstage rfl rfl
  | count collision =>
    cases hstage : self.stage <;> simp only [hstage, reduceCtorEq] at hact
    cases hact
    exact count collision hstage rfl rfl
  | removeFilter =>
    cases hstage : self.stage <;> simp only [hstage, reduceCtorEq] at hact
    cases hact
    exact removeFilter hstage rfl rfl
  | addDiscoverFilter added =>
    cases hstage : self.stage <;> simp only [hstage, reduceCtorEq] at hact
    cases hact
    exact addDiscoverFilter added hstage rfl rfl

theorem ZephyrInterface.Wf.act {eui : Eui} (h : self.Wf) (he : e.Succeeds)
    (hact : self.act eui e = some (self', sent)) : self'.Wf := by
  obtain ⟨haddress, hclaim, hany, hdiscover, hidle⟩ := h
  revert he
  apply ZephyrInterface.act_cases hact
  case discover =>
    intro random sent' hstage hact he
    split at hact <;> cases hact <;> constructor <;> simp_all
  case claim | count => rintro (_ | _) _ rfl _ _ <;> constructor <;> simp_all
  all_goals
    intros
    subst self'
    constructor <;> simp_all [ZephyrAction.Succeeds]

/-- The frames that an interface sends are about its address. -/
theorem ZephyrInterface.Wf.frame {eui : Eui} (h : self.Wf) (hact : self.act eui e = some (self', some f)) :
    f.address < anonymousAddress ∧ (f.isClaim = true → f.data = eui.bytes) := by
  have hclaim : ∀ {sent}, self.stage ≠ .idle → self.claimAddress eui sent = some f →
      f.address < anonymousAddress ∧ (f.isClaim = true → f.data = eui.bytes) := by
    intro sent hstage hsent
    rw [claimAddress] at hsent
    split at hsent
    · cases hsent
      exact ⟨h.address hstage, fun _ => rfl⟩
    · cases hsent
  apply ZephyrInterface.act_cases hact
  case discover =>
    intro random sent' hstage hact
    split at hact
    · cases hact
      exact ⟨h.address (by rw [hstage]; nofun), nofun⟩
    · cases hact
  case claim => exact fun sent' hstage _ hsent => hclaim (by rw [hstage]; nofun) hsent.symm
  case work =>
    refine fun sent' hwork _ hsent => hclaim (fun hstage => ?_) hsent.symm
    rw [(h.idle hstage).2.2] at hwork
    cases hwork
  all_goals
    intros
    contradiction

/-- A step of `bind` or of the work item is a step of the party. -/
theorem zephyr_act (hact : (s.node p).act (eui p) e = some (self', sent))
    (hpatient : ZephyrPatient s (.act p e)) (he : e.Succeeds) :
    Claiming.Step (zephyrView.parties s) (zephyrView.parties
      ⟨Function.update s.node p self', Function.update s.inFlight p (sent.toList ++ s.inFlight p)⟩) := by
  revert hpatient he
  apply ZephyrInterface.act_cases hact
  case bind =>
    rintro _ _ _ rfl rfl _ _
    exact step_act_withdraw rfl rfl rfl
  case taken =>
    rintro _ _ _ _ rfl rfl _ _
    exact step_act_withdraw rfl rfl rfl
  case addClaimFilter | addAnyDiscoverFilter =>
    rintro _ _ rfl rfl _ _
    exact step_act_withdraw rfl rfl rfl
  case clear =>
    rintro _ rfl rfl _ _
    exact step_act_withdraw rfl rfl rfl
  case discover =>
    intro random sent' hstage hact _ _
    split at hact
    · cases hact
      exact step_act_discover rfl rfl rfl rfl rfl
    · cases hact
      exact step_act_withdraw rfl rfl rfl
  case timeout =>
    rintro hstage hused rfl rfl hpatient _
    have hname : zephyrView.name (s.node p) = some (s.node p).nodeAddress := by
      simp only [zephyrView, ZephyrInterface.name, hstage]
    refine step_act_settle hname.symm rfl rfl rfl hname (.inl ?_)
    obtain ⟨hquestions, howes, hanswers⟩ := hpatient
    rintro (hquestion | howed | hanswer | htold)
    · obtain ⟨f, hf, hclaim, -⟩ := mem_questions.1 hquestion
      rw [hquestions f hf] at hclaim
      cases hclaim
    · exact Bool.false_ne_true (howes.symm.trans howed)
    · obtain ⟨f, hf, hclaim, -⟩ := mem_answers.1 hanswer
      rw [hanswers f hf] at hclaim
      cases hclaim
    · exact hused htold
  case claim =>
    rintro sent' hstage rfl rfl _ _
    cases sent' with
    | true =>
      refine step_act_claim rfl ?_ ?_ rfl ?_ <;>
        simp [zephyrView, ZephyrInterface.name, ZephyrInterface.settled, hstage, NetworkFrame.address]
    | false => exact step_act_withdraw rfl rfl rfl
  case count =>
    rintro collision hstage rfl rfl _ _
    cases collision with
    | true => exact step_act_withdraw rfl rfl rfl
    | false =>
      refine step_act_stay ?_ ?_ rfl rfl <;>
        simp [zephyrView, ZephyrInterface.name, ZephyrInterface.settled, hstage]
  case removeFilter =>
    rintro hstage rfl rfl _ _
    refine step_act_stay ?_ ?_ rfl rfl <;>
      simp [zephyrView, ZephyrInterface.name, ZephyrInterface.settled, hstage]
  case addDiscoverFilter =>
    rintro added hstage rfl rfl _ _
    cases added with
    | true =>
      refine step_act_stay ?_ ?_ rfl rfl <;>
        simp [zephyrView, ZephyrInterface.name, ZephyrInterface.settled, hstage]
    | false => exact step_act_withdraw rfl rfl rfl
  case work =>
    rintro sent' _ rfl rfl _ he
    obtain rfl : sent' = true := he
    refine step_act_claim rfl rfl rfl rfl fun b hb => ?_
    change (s.node p).name = some b at hb
    unfold ZephyrInterface.name at hb
    split at hb <;> (try split at hb) <;> cases hb <;> rfl

/-- What is known of the interface stays when a frame is received. -/
theorem ZephyrInterface.Wf.receive {eui : Eui} (h : self.Wf) (hf : f.address < anonymousAddress)
    (heui : f.isClaim = true → f.data ≠ eui.bytes) : (self.receive eui f).Wf := by
  cases hclaim : f.isClaim with
  | true =>
    rw [receive_claim hf hclaim (heui hclaim)]
    split
    · exact ⟨h.address, h.claim, h.anyDiscover, h.discover, h.idle⟩
    · exact h
  | false =>
    rw [receive_discover hf hclaim]
    split
    · rename_i hfilter
      refine ⟨h.address, h.claim, h.anyDiscover, h.discover, fun hstage => ?_⟩
      obtain ⟨hany, hdiscover, -⟩ := h.idle hstage
      rw [hany, hdiscover] at hfilter
      rcases hfilter with ⟨hfilter, -⟩ | hfilter <;> cases hfilter
    · exact h

/-- An interface that has an address has a filter for the frames that ask for it, or it is deaf to them. -/
theorem ZephyrInterface.Wf.hears (h : self.Wf) (hname : self.name = some f.address) (hclaim : f.isClaim = false)
    (hdeaf : ¬ self.Deaf f) :
    self.anyDiscoverFilter = true ∧ self.nodeAddress = f.address ∨ self.discoverFilter = some f.address := by
  unfold name at hname
  split at hname
  case h_5 hstage => exact absurd ⟨hstage, hclaim, (Option.some.inj hname).symm⟩ hdeaf
  case h_6 hstage =>
    split at hname
    · rename_i hbound
      exact .inr ((h.discover hstage hbound).trans hname)
    · cases hname
  case h_7 => cases hname
  all_goals
    rename_i hstage
    exact .inl ⟨h.anyDiscover (by rw [hstage]; decide), Option.some.inj hname⟩

/-- An interface that waits for a claim has a filter for claims. -/
theorem ZephyrInterface.Wf.waits (h : self.Wf) {a : UInt8} (hname : self.name = some a)
    (hsettled : self.settled = false) : self.claimFilter = true ∧ self.nodeAddress = a := by
  unfold name at hname
  split at hname
  case h_1 hstage => exact ⟨h.claim (by rw [hstage]; decide), Option.some.inj hname⟩
  case h_6 hstage =>
    simp only [settled, hstage] at hsettled
    rw [hsettled] at hname
    cases hname
  case h_7 => cases hname
  all_goals
    rename_i hstage
    simp only [settled, hstage] at hsettled
    cases hsettled

/-- The delivery of a frame is a step of the parties. -/
theorem zephyr_deliver {i : ℕ} (hs : ZephyrWf eui s) (hne : eui p ≠ eui !p) (hf : (s.inFlight p)[i]? = some f)
    (hdeaf : ¬ (s.node !p).Deaf f) :
    Claiming.Step (zephyrView.parties s) (zephyrView.parties
      ⟨Function.update s.node (!p) ((s.node !p).receive (eui !p) f),
        Function.update s.inFlight p ((s.inFlight p).eraseIdx i)⟩) := by
  have hmem := List.mem_of_getElem? hf
  have hwf := hs.node !p
  cases hclaim : f.isClaim with
  | true =>
    have heui : f.data ≠ (eui !p).bytes := by
      rw [hs.eui p f hmem hclaim]
      exact fun h => hne (Eui.ext h)
    rw [ZephyrInterface.receive_claim (hs.address p f hmem) hclaim heui]
    split
    · exact step_deliver_claim hf hclaim rfl rfl rfl (fun _ => rfl) (fun _ _ => rfl)
    · rename_i hfilter
      refine step_deliver_claim hf hclaim rfl rfl rfl id fun hname hsettled => ?_
      exact absurd (hwf.waits hname hsettled) hfilter
  | false =>
    rw [ZephyrInterface.receive_discover (hs.address p f hmem) hclaim]
    split
    · exact step_deliver_discover hf hclaim rfl rfl rfl (fun _ => rfl) (fun _ => rfl)
    · rename_i hfilter
      refine step_deliver_discover hf hclaim rfl rfl rfl id fun hname => ?_
      exact absurd (hwf.hears hname hclaim hdeaf) hfilter

/-! ## Runs -/

theorem ZephyrInterface.wf_new : ({} : ZephyrInterface).Wf :=
  ⟨by decide, by decide, by decide, by decide, by decide⟩

theorem zephyrWf_start : ZephyrWf eui (zephyrProcedure eui).start :=
  ⟨fun _ => ZephyrInterface.wf_new, nofun, nofun⟩

/-- One step: the parties make a step, and what is known of the interfaces stays. -/
theorem zephyr_step {event : BusEvent ZephyrAction} (heui : eui false ≠ eui true) (hs : ZephyrWf eui s)
    (hpatient : ZephyrPatient s event) (hheard : ZephyrHeard s event)
    (hstep : (zephyrProcedure eui).step s event = some s') :
    ZephyrWf eui s' ∧ Claiming.Step (zephyrView.parties s) (zephyrView.parties s') := by
  have hne : ∀ p, eui p ≠ eui !p := Bool.forall_bool.2 ⟨heui, heui.symm⟩
  cases event with
  | act p e =>
    obtain ⟨⟨self', sent⟩, hact, rfl⟩ := Option.map_eq_some_iff.1 hstep
    refine ⟨?_, zephyr_act hact hpatient hheard⟩
    have hsent : ∀ f ∈ sent.toList, f.address < anonymousAddress ∧
        (f.isClaim = true → f.data = (eui p).bytes) := by
      intro f hf
      obtain rfl := Option.mem_toList.1 hf
      exact (hs.node p).frame hact
    constructor <;> refine Claiming.forall_party (p := p) ?_ ?_ <;> dsimp only
    · rw [Function.update_self]
      exact (hs.node p).act hheard hact
    · rw [Function.update_of_ne (Bool.not_ne_self p)]
      exact hs.node !p
    · rw [Function.update_self]
      exact fun f hf => (List.mem_append.1 hf).elim (fun h => (hsent f h).1) (hs.address p f)
    · rw [Function.update_of_ne (Bool.not_ne_self p)]
      exact hs.address !p
    · rw [Function.update_self]
      exact fun f hf => (List.mem_append.1 hf).elim (fun h => (hsent f h).2) (hs.eui p f)
    · rw [Function.update_of_ne (Bool.not_ne_self p)]
      exact hs.eui !p
  | deliver p i =>
    obtain ⟨f, hf, rfl⟩ := Option.map_eq_some_iff.1 hstep
    have hmem := List.mem_of_getElem? hf
    refine ⟨?_, zephyr_deliver hs (hne p) hf (hheard f hf)⟩
    constructor <;> refine Claiming.forall_party (p := p) ?_ ?_ <;> dsimp only
    · rw [Function.update_of_ne (Bool.not_ne_self p).symm]
      exact hs.node p
    · rw [Function.update_self]
      refine (hs.node !p).receive (hs.address p f hmem) fun hclaim h => hne p (Eui.ext ?_)
      exact (hs.eui p f hmem hclaim).symm.trans h
    · rw [Function.update_self]
      exact fun g hg => hs.address p g (List.mem_of_mem_eraseIdx hg)
    · rw [Function.update_of_ne (Bool.not_ne_self p)]
      exact hs.address !p
    · rw [Function.update_self]
      exact fun g hg => hs.eui p g (List.mem_of_mem_eraseIdx hg)
    · rw [Function.update_of_ne (Bool.not_ne_self p)]
      exact hs.eui !p

/-- **Two Zephyr interfaces are not bound to the same address.** -/
theorem zephyr_not_both_bound (heui : eui false ≠ eui true) {es : List (BusEvent ZephyrAction)}
    (hmeets : Meets (zephyrProcedure eui).step (fun s e => ZephyrPatient s e ∧ ZephyrHeard s e)
      (zephyrProcedure eui).start es)
    (hrun : runFrom (zephyrProcedure eui).step (zephyrProcedure eui).start es = some s) (a : UInt8) :
    ¬ ∀ p, (s.node p).BoundTo a := by
  have hinv : ZephyrWf eui s ∧ Claiming.Contested (zephyrView.parties s) := by
    have hstart : Claiming.Contested (zephyrView.parties (zephyrProcedure eui).start) := fun a ha =>
      nomatch ha true
    refine runFrom_invariant_of_meets (P := fun s => ZephyrWf eui s ∧ Claiming.Contested (zephyrView.parties s))
      (fun s e s' hs hgood hstep => ?_) ⟨zephyrWf_start, hstart⟩ hmeets hrun
    obtain ⟨hwf, hparties⟩ := zephyr_step heui hs.1 hgood.1 hgood.2 hstep
    exact ⟨hwf, hparties.contested hs.2⟩
  intro hbound
  obtain ⟨p, hp⟩ := hinv.2.not_both_settled (a := a) fun p => by
    obtain ⟨hstage, hbound, haddress⟩ := hbound p
    simp [ClaimView.parties, zephyrView, ZephyrInterface.name, hstage, hbound, haddress]
  obtain ⟨hstage, hbound, -⟩ := hbound p
  simp [ClaimView.parties, zephyrView, ZephyrInterface.settled, hstage, hbound] at hp

end ThingSet
