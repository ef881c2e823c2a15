import ThingSet.Can.CanID
import ThingSet.Foundations.Claiming
import Mathlib.Logic.Function.Basic

/-!
# Discovery and claim of an address

An interface asks whether an address is in use with a discovery frame, and says that it has an address
with a claim frame. Both are network messages, which are told apart by the filters on their ids.

* `accepts_setField`: a filter accepts the ids with its fields.
* `NetworkFrame.accepts_targetFilter`, `NetworkFrame.accepts_sourceFilter`,
  `NetworkFrame.accepts_discoverFilter`: which frames the filters of the interfaces accept.
-/

namespace ThingSet

namespace CanID

def anonymousAddress : UInt8 := 0xFE
def broadcastAddress : UInt8 := 0xFF

/-- The id matches a filter in the bits that were set. -/
def Accepts (filter : CanID) (id : BitVec 32) : Prop := BitField.get filter.mask id = BitField.get filter.mask filter.id

instance (filter : CanID) (id : BitVec 32) : Decidable (filter.Accepts id) :=
  inferInstanceAs (Decidable (_ = _))

variable {c : CanID} {mask mask' value value' id : BitVec 32}

theorem accepts_new : new.Accepts id := by
  rw [Accepts, BitField.get, BitField.get]
  exact BitVec.and_zero.trans BitVec.and_zero.symm

/-- A filter accepts the ids with its fields. -/
theorem accepts_setField (hdisjoint : c.mask &&& mask = 0) (hfits : BitField.Fits mask value) :
    (c.setField mask value).Accepts id ↔ c.Accepts id ∧ BitField.get mask id = value := by
  rw [Accepts, setField, BitField.get_or_inj, BitField.get_insert hfits,
    BitField.get_insert_of_disjoint hdisjoint hfits, Accepts]

theorem shifted_and {v : UInt8} {pos : ℕ} : shifted v pos &&& 0xff#32 <<< pos = shifted v pos := by
  rw [shifted, ← BitVec.shiftLeft_and_distrib]
  congr 1
  apply BitVec.eq_of_toNat_eq
  rw [BitVec.toNat_and, BitVec.toNat_setWidth_of_le (by decide)]
  exact (Nat.and_two_pow_sub_one_eq_mod _ 8).trans (Nat.mod_eq_of_lt v.toBitVec.isLt)

theorem setWidth_shifted {v : UInt8} {pos : ℕ} (hpos : pos + 8 ≤ 32) :
    (⟨(shifted v pos >>> pos).setWidth 8⟩ : UInt8) = v := by
  rw [shifted, BitField.setWidth_ushiftRight_shiftLeft hpos]

/-- Bytes are told apart at their positions. -/
theorem shifted_inj {v v' : UInt8} {pos : ℕ} (hmask : mask = 0xff#32 <<< pos) (hpos : pos + 8 ≤ 32) :
    shifted v pos &&& mask = shifted v' pos &&& mask ↔ v = v' := by
  rw [hmask, shifted_and, shifted_and]
  refine ⟨fun h => ?_, fun h => h ▸ rfl⟩
  rw [← setWidth_shifted (v := v) hpos, h, setWidth_shifted hpos]

/-- The fields of an id in a frame. -/
theorem get_wire (c : CanID) (flagInId : Bool) (hflag : mask &&& effFlag = 0) :
    BitField.get mask (c.wire flagInId) = BitField.get mask c.id := by
  rw [wire]
  split
  · rw [BitField.get, BitField.get, BitVec.and_comm, BitVec.and_or_distrib_left, hflag, BitVec.and_comm]
    exact BitVec.or_zero
  · rfl

end CanID

/-! ## Frames -/

/-- The EUI of a node. -/
@[ext] structure Eui where
  bytes : Bytes
  length_eq : bytes.length = 8
  deriving DecidableEq

/-- The frames that the interfaces send to find out who has an address. -/
inductive NetworkFrame
  | discover (target random : UInt8)
  | claim (source : UInt8) (eui : Eui)
  deriving DecidableEq

namespace NetworkFrame

open CanID

/-- The id of a discovery frame. -/
def discoverId (target random : UInt8) : CanID :=
  ((((CanID.new.setMessageType .network).setMessagePriority .networkManagement).setBridge random).setTarget
    target).setSource anonymousAddress

/-- The id of a claim frame. -/
def claimId (source : UInt8) : CanID :=
  (((CanID.new.setSource source).setTarget broadcastAddress).setMessageType .network).setMessagePriority
    .networkManagement

/-- The id of a frame. -/
def canId : NetworkFrame → CanID
  | .discover target random => discoverId target random
  | .claim source _ => claimId source

/-- The data of a frame: a discovery frame has none. -/
def data : NetworkFrame → Bytes
  | .discover _ _ => []
  | .claim _ eui => eui.bytes

/-- The fields of the id. -/
def source : NetworkFrame → UInt8
  | .discover _ _ => anonymousAddress
  | .claim source _ => source
def target : NetworkFrame → UInt8
  | .discover target _ => target
  | .claim _ _ => broadcastAddress
def bridge : NetworkFrame → UInt8
  | .discover _ random => random
  | .claim _ _ => 0

variable (f : NetworkFrame)

theorem get_type : BitField.get messageTypeMask f.canId.id = CanMessageType.network.code := by
  cases f with
  | discover target random =>
    simp only [canId, discoverId, setSource, setTarget, setBridge, setMessagePriority, setMessageType]
    rw [get_setField_of_disjoint (by decide) (BitField.fits_and ..),
      get_setField_of_disjoint (by decide) (BitField.fits_and ..),
      get_setField_of_disjoint (by decide) (BitField.fits_and ..),
      get_setField_of_disjoint (by decide) (by decide), get_setField (by decide)]
  | claim source eui =>
    simp only [canId, claimId, setSource, setTarget, setMessagePriority, setMessageType]
    rw [get_setField_of_disjoint (by decide) (by decide), get_setField (by decide)]

theorem get_target : BitField.get targetMask f.canId.id = shifted f.target 8 &&& targetMask := by
  cases f with
  | discover target random =>
    simp only [canId, discoverId, setSource, setTarget]
    rw [get_setField_of_disjoint (by decide) (BitField.fits_and ..), get_setField (BitField.fits_and ..)]
    rfl
  | claim source eui =>
    simp only [canId, claimId, setTarget, setMessagePriority, setMessageType]
    rw [get_setField_of_disjoint (by decide) (by decide), get_setField_of_disjoint (by decide) (by decide),
      get_setField (BitField.fits_and ..)]
    rfl

theorem get_source : BitField.get sourceMask f.canId.id = shifted f.source 0 &&& sourceMask := by
  cases f with
  | discover target random =>
    simp only [canId, discoverId, setSource]
    rw [get_setField (BitField.fits_and ..)]
    rfl
  | claim source eui =>
    simp only [canId, claimId, setSource, setTarget, setMessagePriority, setMessageType]
    rw [get_setField_of_disjoint (by decide) (by decide), get_setField_of_disjoint (by decide) (by decide),
      get_setField_of_disjoint (by decide) (BitField.fits_and ..), get_setField (BitField.fits_and ..)]
    rfl

theorem get_bridge : BitField.get bridgeMask f.canId.id = shifted f.bridge 16 &&& bridgeMask := by
  cases f with
  | discover target random =>
    simp only [canId, discoverId, setSource, setTarget, setBridge]
    rw [get_setField_of_disjoint (by decide) (BitField.fits_and ..),
      get_setField_of_disjoint (by decide) (BitField.fits_and ..), get_setField (BitField.fits_and ..)]
    rfl
  | claim source eui =>
    simp only [canId, claimId, setSource, setTarget, setMessagePriority, setMessageType]
    rw [get_setField_of_disjoint (by decide) (by decide), get_setField_of_disjoint (by decide) (by decide),
      get_setField_of_disjoint (by decide) (BitField.fits_and ..),
      get_setField_of_disjoint (by decide) (BitField.fits_and ..), bridge]
    decide

/-! ## Filters -/

/-- The filter for claims of a Zephyr interface. -/
def claimFilter : CanID := ((CanID.new.setTarget broadcastAddress).setBridge 0).setMessageType .network

/-- The filter for claims of a SocketCAN interface. -/
def claimLookoutFilter : CanID := (CanID.new.setTarget broadcastAddress).setMessageType .network

/-- The filter for discovery frames that ask for any address. -/
def anyDiscoverFilter : CanID := (CanID.new.setSource anonymousAddress).setMessageType .network

/-- The filter for discovery frames that ask for an address. -/
def discoverFilter (nodeAddress : UInt8) : CanID :=
  ((CanID.new.setSource anonymousAddress).setTarget nodeAddress).setMessageType .network

variable {f} {nodeAddress : UInt8} {flagInId : Bool}

theorem accepts_type {c : CanID} (h : c.mask &&& messageTypeMask = 0) :
    (c.setMessageType .network).Accepts (f.canId.wire flagInId) ↔ c.Accepts (f.canId.wire flagInId) := by
  rw [setMessageType, accepts_setField h (by decide), get_wire _ _ (by decide), get_type]
  exact and_iff_left rfl

theorem accepts_target {c : CanID} (h : c.mask &&& targetMask = 0) (value : UInt8) :
    (c.setTarget value).Accepts (f.canId.wire flagInId) ↔
      c.Accepts (f.canId.wire flagInId) ∧ f.target = value := by
  rw [setTarget, accepts_setField h (BitField.fits_and ..), get_wire _ _ (by decide), get_target,
    shifted_inj (show targetMask = 0xff#32 <<< 8 from rfl) (by decide)]

theorem accepts_source {c : CanID} (h : c.mask &&& sourceMask = 0) (value : UInt8) :
    (c.setSource value).Accepts (f.canId.wire flagInId) ↔
      c.Accepts (f.canId.wire flagInId) ∧ f.source = value := by
  rw [setSource, accepts_setField h (BitField.fits_and ..), get_wire _ _ (by decide), get_source,
    shifted_inj (show sourceMask = 0xff#32 <<< 0 from rfl) (by decide)]

theorem accepts_bridge {c : CanID} (h : c.mask &&& bridgeMask = 0) (value : UInt8) :
    (c.setBridge value).Accepts (f.canId.wire flagInId) ↔
      c.Accepts (f.canId.wire flagInId) ∧ f.bridge = value := by
  rw [setBridge, accepts_setField h (BitField.fits_and ..), get_wire _ _ (by decide), get_bridge,
    shifted_inj (show bridgeMask = 0xff#32 <<< 16 from rfl) (by decide)]

/-- The address of a node that a frame is about: what a discovery frame asks for, or what a claim frame
claims. -/
def address : NetworkFrame → UInt8
  | .discover target _ => target
  | .claim source _ => source

/-- Whether the frame is a claim. -/
def isClaim : NetworkFrame → Bool
  | .discover _ _ => false
  | .claim _ _ => true

theorem accepts_claimFilter (hf : f.address < anonymousAddress) :
    claimFilter.Accepts (f.canId.wire flagInId) ↔ f.isClaim = true := by
  rw [claimFilter, accepts_type rfl, accepts_bridge rfl, accepts_target rfl]
  cases f with
  | discover target random =>
    refine iff_of_false (fun h => ?_) Bool.false_ne_true
    have hlt : broadcastAddress < anonymousAddress := h.1.2 ▸ hf
    exact absurd hlt (by decide)
  | claim source eui => exact iff_of_true ⟨⟨accepts_new, rfl⟩, rfl⟩ rfl

theorem accepts_claimLookoutFilter (hf : f.address < anonymousAddress) :
    claimLookoutFilter.Accepts (f.canId.wire flagInId) ↔ f.isClaim = true := by
  rw [claimLookoutFilter, accepts_type rfl, accepts_target rfl]
  cases f with
  | discover target random =>
    refine iff_of_false (fun h => ?_) Bool.false_ne_true
    have hlt : broadcastAddress < anonymousAddress := h.2 ▸ hf
    exact absurd hlt (by decide)
  | claim source eui => exact iff_of_true ⟨accepts_new, rfl⟩ rfl

theorem accepts_anyDiscoverFilter (hf : f.address < anonymousAddress) :
    anyDiscoverFilter.Accepts (f.canId.wire flagInId) ↔ f.isClaim = false := by
  rw [anyDiscoverFilter, accepts_type rfl, accepts_source rfl]
  cases f with
  | discover target random => exact iff_of_true ⟨accepts_new, rfl⟩ rfl
  | claim source eui =>
    refine iff_of_false (fun h => ?_) Bool.noConfusion
    have hlt : anonymousAddress < anonymousAddress := h.2 ▸ hf
    exact absurd hlt (by decide)

theorem accepts_discoverFilter (hf : f.address < anonymousAddress) :
    (discoverFilter nodeAddress).Accepts (f.canId.wire flagInId) ↔
      f.isClaim = false ∧ f.address = nodeAddress := by
  have hmask : ((CanID.new.setSource anonymousAddress).setTarget nodeAddress).mask &&& messageTypeMask = 0 :=
    show (new.mask ||| sourceMask ||| targetMask) &&& messageTypeMask = 0 from by decide
  rw [discoverFilter, accepts_type hmask, accepts_target rfl, accepts_source rfl]
  cases f with
  | discover target random => exact ⟨fun h => ⟨rfl, h.2⟩, fun h => ⟨⟨accepts_new, rfl⟩, h.2⟩⟩
  | claim source eui =>
    refine iff_of_false (fun h => ?_) (fun h => Bool.noConfusion h.1)
    have hlt : anonymousAddress < anonymousAddress := h.1.2 ▸ hf
    exact absurd hlt (by decide)

theorem sffMask_lt : sffMask < f.canId.id := by
  have hle := get_le messageTypeMask f.canId
  rw [get_type] at hle
  have hlt : sffMask < CanMessageType.network.code := by decide
  rw [BitVec.lt_def, BitVec.le_def] at *
  omega

/-- What `CanID::create` reads from the id of a frame. -/
theorem getSource_create : (CanID.create (f.canId.wire flagInId)).getSource = f.source := by
  rw [getSource, getField, get_create _ sffMask_lt (by decide) (by decide), get_source,
    show sourceMask = 0xff#32 <<< 0 from rfl, shifted_and, setWidth_shifted (by decide)]

theorem getTarget_create : (CanID.create (f.canId.wire flagInId)).getTarget = f.target := by
  rw [getTarget, getField, get_create _ sffMask_lt (by decide) (by decide), get_target,
    show targetMask = 0xff#32 <<< 8 from rfl, shifted_and, setWidth_shifted (by decide)]

end NetworkFrame

/-! ## Two nodes on a bus -/

/-- How a node acts, possibly sending a frame, and what it does with a frame that it receives. -/
structure ClaimProcedure (N E : Type) where
  init : N
  act : Bool → N → E → Option (N × Option NetworkFrame)
  receive : Bool → N → NetworkFrame → N

/-- Two nodes, and the frames from each that are in flight. -/
structure ClaimBus (N : Type) where
  node : Bool → N
  inFlight : Bool → List NetworkFrame

/-- A node acts, or the frame from it at a position is delivered to the other node. -/
inductive BusEvent (E : Type)
  | act (p : Bool) (e : E)
  | deliver (p : Bool) (i : ℕ)

namespace ClaimProcedure

variable {N E : Type} (P : ClaimProcedure N E)

/-- The bus before the nodes do anything. -/
def start : ClaimBus N where
  node _ := P.init
  inFlight _ := []

/-- One event. No frame is lost. -/
def step (s : ClaimBus N) : BusEvent E → Option (ClaimBus N)
  | .act p e => (P.act p (s.node p) e).map fun r =>
    { node := Function.update s.node p r.1
      inFlight := Function.update s.inFlight p (r.2.toList ++ s.inFlight p) }
  | .deliver p i => (s.inFlight p)[i]?.map fun f =>
    { node := Function.update s.node (!p) (P.receive (!p) (s.node !p) f)
      inFlight := Function.update s.inFlight p ((s.inFlight p).eraseIdx i) }

end ClaimProcedure

/-! ## The bus as a pair of parties -/

/-- The addresses that are asked for, and those that are claimed. -/
def questions (fs : List NetworkFrame) : List UInt8 := (fs.filter fun f => !f.isClaim).map NetworkFrame.address
def answers (fs : List NetworkFrame) : List UInt8 := (fs.filter NetworkFrame.isClaim).map NetworkFrame.address

/-- What a node has as a party: an address that it has asked for or settled on, and what it knows and owes. -/
structure ClaimView (N : Type) where
  name : N → Option UInt8
  settled : N → Bool
  told : N → Bool
  owes : N → Bool

/-- The nodes as parties. -/
def ClaimView.parties {N : Type} (V : ClaimView N) (s : ClaimBus N) (p : Bool) : Claiming.Party UInt8 where
  name := V.name (s.node p)
  settled := V.settled (s.node p)
  told := V.told (s.node p)
  owes := V.owes (s.node p)
  questions := questions (s.inFlight p)
  answers := answers (s.inFlight p)

section Parties

variable {fs : List NetworkFrame} {f : NetworkFrame} {i : ℕ} {a : UInt8}

theorem mem_questions : a ∈ questions fs ↔ ∃ f ∈ fs, f.isClaim = false ∧ f.address = a := by
  simp [questions, and_assoc]

theorem mem_answers : a ∈ answers fs ↔ ∃ f ∈ fs, f.isClaim = true ∧ f.address = a := by
  simp [answers, and_assoc]

theorem filter_eraseIdx {q : NetworkFrame → Bool} (hf : fs[i]? = some f) (hq : q f = false) :
    (fs.eraseIdx i).filter q = fs.filter q := by
  induction fs generalizing i with
  | nil => rfl
  | cons g fs ih =>
    cases i with
    | zero =>
      obtain rfl := Option.some.inj hf
      rw [List.eraseIdx_cons_zero, List.filter_cons_of_neg (by simp [hq])]
    | succ i =>
      rw [List.eraseIdx_cons_succ, List.filter_cons, List.filter_cons, ih hf]

/-- What is not the frame at a position stays. -/
theorem mem_eraseIdx (hf : fs[i]? = some f) {g : NetworkFrame} (hg : g ∈ fs) (hne : g ≠ f) :
    g ∈ fs.eraseIdx i := by
  obtain ⟨j, hj, rfl⟩ := List.mem_iff_getElem.1 hg
  refine List.mem_eraseIdx_iff_getElem?.2 ⟨j, ?_, List.getElem?_eq_getElem hj⟩
  rintro rfl
  exact hne (Option.some.inj ((List.getElem?_eq_getElem hj).symm.trans hf))

theorem questions_eraseIdx_of_claim (hf : fs[i]? = some f) (hclaim : f.isClaim = true) :
    questions (fs.eraseIdx i) = questions fs := by
  rw [questions, filter_eraseIdx hf (by simp [hclaim]), questions]

theorem answers_eraseIdx_of_discover (hf : fs[i]? = some f) (hclaim : f.isClaim = false) :
    answers (fs.eraseIdx i) = answers fs := by
  rw [answers, filter_eraseIdx hf hclaim, answers]

theorem questions_eraseIdx (hf : fs[i]? = some f) : ∀ b ∈ questions fs, b ≠ f.address →
    b ∈ questions (fs.eraseIdx i) := by
  intro b hb hne
  obtain ⟨g, hg, hclaim, rfl⟩ := mem_questions.1 hb
  exact mem_questions.2 ⟨g, mem_eraseIdx hf hg fun h => hne (h ▸ rfl), hclaim, rfl⟩

theorem answers_eraseIdx (hf : fs[i]? = some f) : ∀ b ∈ answers fs, b ≠ f.address →
    b ∈ answers (fs.eraseIdx i) := by
  intro b hb hne
  obtain ⟨g, hg, hclaim, rfl⟩ := mem_answers.1 hb
  exact mem_answers.2 ⟨g, mem_eraseIdx hf hg fun h => hne (h ▸ rfl), hclaim, rfl⟩

variable {N : Type} {V : ClaimView N} {s : ClaimBus N} {n : N} {p : Bool} {sent : Option NetworkFrame}

/-- The party that has acted. -/
theorem parties_act_self :
    V.parties ⟨Function.update s.node p n, Function.update s.inFlight p (sent.toList ++ s.inFlight p)⟩ p =
      { name := V.name n, settled := V.settled n, told := V.told n, owes := V.owes n,
        questions := questions sent.toList ++ questions (s.inFlight p),
        answers := answers sent.toList ++ answers (s.inFlight p) } := by
  simp only [ClaimView.parties, Function.update_self, questions, answers, List.filter_append, List.map_append]

theorem parties_act_other :
    V.parties ⟨Function.update s.node p n, Function.update s.inFlight p fs⟩ (!p) = V.parties s (!p) := by
  have hne : (!p) ≠ p := Bool.not_ne_self p
  simp only [ClaimView.parties, Function.update_of_ne hne]

/-- The party that a frame is from, and the party that it is delivered to. -/
theorem parties_deliver_self :
    V.parties ⟨Function.update s.node (!p) n, Function.update s.inFlight p fs⟩ p =
      { V.parties s p with questions := questions fs, answers := answers fs } := by
  have hne : p ≠ (!p) := (Bool.not_ne_self p).symm
  simp only [ClaimView.parties, Function.update_of_ne hne, Function.update_self]

theorem parties_deliver_other :
    V.parties ⟨Function.update s.node (!p) n, Function.update s.inFlight p fs⟩ (!p) =
      { V.parties s (!p) with
        name := V.name n, settled := V.settled n, told := V.told n, owes := V.owes n } := by
  have hne : (!p) ≠ p := Bool.not_ne_self p
  simp only [ClaimView.parties, Function.update_of_ne hne, Function.update_self]

/-- A node acts without a frame: it gives up its address. -/
theorem step_act_withdraw (hname : V.name n = none) (hsettled : V.settled n = false)
    (howes : V.owes n = V.owes (s.node p)) :
    Claiming.Step (V.parties s) (V.parties
      ⟨Function.update s.node p n, Function.update s.inFlight p ((none : Option NetworkFrame).toList ++ s.inFlight p)⟩) := by
  refine .withdraw p (V.told n) ?_ parties_act_other
  rw [parties_act_self, hname, hsettled, howes]
  rfl

/-- A node acts without a frame, and nothing changes for the other. -/
theorem step_act_stay (hname : V.name n = V.name (s.node p)) (hsettled : V.settled n = V.settled (s.node p))
    (htold : V.told n = V.told (s.node p)) (howes : V.owes n = V.owes (s.node p)) :
    Claiming.Step (V.parties s) (V.parties
      ⟨Function.update s.node p n, Function.update s.inFlight p ((none : Option NetworkFrame).toList ++ s.inFlight p)⟩) := by
  refine .stay p ?_ parties_act_other
  rw [parties_act_self, hname, hsettled, htold, howes]
  rfl

/-- A node stops waiting. -/
theorem step_act_settle (hname : V.name n = V.name (s.node p)) (hsettled : V.settled n = true)
    (htold : V.told n = V.told (s.node p)) (howes : V.owes n = V.owes (s.node p))
    (haddress : V.name (s.node p) = some a)
    (hclear : ¬ Claiming.WillBeTold (V.parties s) p a ∨ V.name (s.node !p) ≠ some a) :
    Claiming.Step (V.parties s) (V.parties
      ⟨Function.update s.node p n, Function.update s.inFlight p ((none : Option NetworkFrame).toList ++ s.inFlight p)⟩) := by
  refine .settle p a haddress hclear ?_ parties_act_other
  rw [parties_act_self, hname, hsettled, htold, howes]
  rfl

/-- A node asks for an address. -/
theorem step_act_discover (hclaim : f.isClaim = false) (hname : V.name n = some f.address)
    (hsettled : V.settled n = false) (htold : V.told n = V.told (s.node p))
    (howes : V.owes n = V.owes (s.node p)) :
    Claiming.Step (V.parties s) (V.parties
      ⟨Function.update s.node p n, Function.update s.inFlight p ((some f).toList ++ s.inFlight p)⟩) := by
  refine .ask p f.address ?_ parties_act_other
  rw [parties_act_self, hname, hsettled, htold, howes]
  simp [questions, answers, hclaim, ClaimView.parties]

/-- A node claims an address. -/
theorem step_act_claim (hclaim : f.isClaim = true) (hname : V.name n = V.name (s.node p))
    (hsettled : V.settled n = V.settled (s.node p)) (htold : V.told n = V.told (s.node p))
    (haddress : ∀ b, V.name (s.node p) = some b → b = f.address) :
    Claiming.Step (V.parties s) (V.parties
      ⟨Function.update s.node p n, Function.update s.inFlight p ((some f).toList ++ s.inFlight p)⟩) := by
  refine .answer p f.address (V.owes n) haddress ?_ parties_act_other
  rw [parties_act_self, hname, hsettled, htold]
  simp [questions, answers, hclaim, ClaimView.parties]

/-- A discovery frame is delivered. -/
theorem step_deliver_discover (hf : (s.inFlight p)[i]? = some f) (hclaim : f.isClaim = false)
    (hname : V.name n = V.name (s.node !p)) (hsettled : V.settled n = V.settled (s.node !p))
    (htold : V.told n = V.told (s.node !p))
    (howes : V.owes (s.node !p) = true → V.owes n = true)
    (hasked : V.name (s.node !p) = some f.address → V.owes n = true) :
    Claiming.Step (V.parties s) (V.parties
      ⟨Function.update s.node (!p) n, Function.update s.inFlight p ((s.inFlight p).eraseIdx i)⟩) := by
  refine .hear p f.address (questions ((s.inFlight p).eraseIdx i)) (V.owes n) (questions_eraseIdx hf) hasked
    howes ?_ ?_
  · rw [parties_deliver_self, answers_eraseIdx_of_discover hf hclaim]
    rfl
  · rw [parties_deliver_other, hname, hsettled, htold]
    rfl

/-- A claim frame is delivered. -/
theorem step_deliver_claim (hf : (s.inFlight p)[i]? = some f) (hclaim : f.isClaim = true)
    (hname : V.name n = V.name (s.node !p)) (hsettled : V.settled n = V.settled (s.node !p))
    (howes : V.owes n = V.owes (s.node !p))
    (htold : V.told (s.node !p) = true → V.told n = true)
    (hasked : V.name (s.node !p) = some f.address → V.settled (s.node !p) = false → V.told n = true) :
    Claiming.Step (V.parties s) (V.parties
      ⟨Function.update s.node (!p) n, Function.update s.inFlight p ((s.inFlight p).eraseIdx i)⟩) := by
  refine .tell (!p) f.address (answers ((s.inFlight p).eraseIdx i)) (V.told n) ?_ hasked htold ?_ ?_
  · rw [Bool.not_not]
    exact answers_eraseIdx hf
  · rw [parties_deliver_other, hname, hsettled, howes]
    rfl
  · rw [Bool.not_not, parties_deliver_self, questions_eraseIdx_of_claim hf hclaim]
    rfl

end Parties

end ThingSet
