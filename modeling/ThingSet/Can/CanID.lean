import ThingSet.Foundations.BitField
import ThingSet.Streaming.Encoder

/-!
# CAN ids

`CanID` packs the fields of a ThingSet message into the 29 bits of an extended CAN id. Which field
lies where depends on the type of the message; the fields of a multi-frame report are disjoint.

* `get_create`: the fields of an extended id are read back from the frame that carries it.
-/

namespace ThingSet

/-- `CanID`: the id, and the bits of it that were set. -/
structure CanID where
  id : BitVec 32
  mask : BitVec 32
  deriving DecidableEq, Repr

/-- `enum MessageType` of a CAN id. -/
inductive CanMessageType
  | requestResponse
  | multiFrameReport
  | singleFrameReport
  | network
  deriving DecidableEq, Repr

/-- `enum MessagePriority`. -/
inductive MessagePriority
  | controlEmergency
  | controlHigh
  | controlLow
  | networkManagement
  | reportHigh
  | channel
  | reportLow
  deriving DecidableEq, Repr

/-- The type of a message, at its position. -/
def CanMessageType.code : CanMessageType → BitVec 32
  | .requestResponse => 0x0 <<< 24
  | .multiFrameReport => 0x1 <<< 24
  | .singleFrameReport => 0x2 <<< 24
  | .network => 0x3 <<< 24

/-- The priority of a message, at its position. -/
def MessagePriority.code : MessagePriority → BitVec 32
  | .controlEmergency => 0x0 <<< 26
  | .controlHigh => 0x2 <<< 26
  | .controlLow => 0x3 <<< 26
  | .networkManagement => 0x4 <<< 26
  | .reportHigh => 0x5 <<< 26
  | .channel => 0x6 <<< 26
  | .reportLow => 0x7 <<< 26

/-- `Can::MultiFrameMessageType`, at its position. -/
def MessageType.canCode : MessageType → BitVec 32
  | .first => 0x0 <<< 12
  | .consecutive => 0x1 <<< 12
  | .last => 0x2 <<< 12
  | .single => 0x3 <<< 12

namespace CanID

def sourceMask : BitVec 32 := 0xff <<< 0
def targetMask : BitVec 32 := 0xff <<< 8
def sequenceNumberMask : BitVec 32 := 0xf <<< 8
def multiFrameTypeMask : BitVec 32 := 0x3 <<< 12
def messageNumberMask : BitVec 32 := 0x3 <<< 14
def bridgeMask : BitVec 32 := 0xff <<< 16
def messageTypeMask : BitVec 32 := 0x3 <<< 24
def messagePriorityMask : BitVec 32 := 0x7 <<< 26

/-- `CanID()`. -/
def new : CanID := ⟨0, 0⟩

variable (c : CanID)

/-- A field of the id is replaced. -/
def setField (mask value : BitVec 32) : CanID := ⟨BitField.insert mask value c.id, c.mask ||| mask⟩

/-- A field of the id that starts at a position. -/
def getField (mask : BitVec 32) (pos : ℕ) : UInt8 :=
  ⟨(BitField.get mask c.id >>> pos).setWidth 8⟩

/-- A byte at a position. -/
def shifted (value : UInt8) (pos : ℕ) : BitVec 32 := value.toBitVec.setWidth 32 <<< pos

/-- `getSource`, `setSource`. -/
def getSource : UInt8 := c.getField sourceMask 0
def setSource (value : UInt8) : CanID := c.setField sourceMask (shifted value 0 &&& sourceMask)

/-- `getTarget`, `setTarget`. -/
def getTarget : UInt8 := c.getField targetMask 8
def setTarget (value : UInt8) : CanID := c.setField targetMask (shifted value 8 &&& targetMask)

/-- `getSequenceNumber`, `setSequenceNumber`. -/
def getSequenceNumber : UInt8 := c.getField sequenceNumberMask 8
def setSequenceNumber (value : UInt8) : CanID :=
  c.setField sequenceNumberMask (shifted value 8 &&& sequenceNumberMask)

/-- `getMessageNumber`, `setMessageNumber`. -/
def getMessageNumber : UInt8 := c.getField messageNumberMask 14
def setMessageNumber (value : UInt8) : CanID :=
  c.setField messageNumberMask (shifted value 14 &&& messageNumberMask)

/-- `getBridge`, `setBridge`. -/
def getBridge : UInt8 := c.getField bridgeMask 16
def setBridge (value : UInt8) : CanID := c.setField bridgeMask (shifted value 16 &&& bridgeMask)

/-- `setMessageType`. -/
def setMessageType (value : CanMessageType) : CanID := c.setField messageTypeMask value.code

/-- `setMessagePriority`. -/
def setMessagePriority (value : MessagePriority) : CanID :=
  c.setField messagePriorityMask value.code

/-- `getMultiFrameMessageType`, `setMultiFrameMessageType`. -/
def getMultiFrameMessageType : Option MessageType :=
  [MessageType.first, .consecutive, .last, .single].find?
    fun t => t.canCode = BitField.get multiFrameTypeMask c.id
def setMultiFrameMessageType (value : MessageType) : CanID :=
  c.setField multiFrameTypeMask value.canCode

/-- `getReplyId`. -/
def getReplyId : CanID := (c.setTarget c.getSource).setSource c.getTarget

/-! ## Frames -/

/-- `CAN_SFF_MASK`, `CAN_EFF_MASK` and `CAN_EFF_FLAG`. -/
def sffMask : BitVec 32 := 0x000007FF
def effMask : BitVec 32 := 0x1FFFFFFF
def effFlag : BitVec 32 := 0x80000000

/-- The id in a native frame: `setId` sets the flag of an extended id, in the id or beside it. -/
def wire (flagInId : Bool) : BitVec 32 :=
  if flagInId ∧ c.id ≥ 0x800 then c.id ||| effFlag else c.id

/-- `CanID::create`, which `getId` calls. -/
def create (id : BitVec 32) : CanID :=
  let mask := if id ≤ sffMask then sffMask else effMask
  ⟨id &&& mask, mask⟩

variable {c : CanID} {mask mask' value : BitVec 32} {flagInId : Bool}

theorem fits_canCode (type : MessageType) : BitField.Fits multiFrameTypeMask type.canCode := by
  cases type <;> decide

theorem get_setField (h : BitField.Fits mask value) :
    BitField.get mask (c.setField mask value).id = value := BitField.get_insert h

theorem get_setField_of_disjoint (hdisjoint : mask &&& mask' = 0) (h : BitField.Fits mask' value) :
    BitField.get mask (c.setField mask' value).id = BitField.get mask c.id :=
  BitField.get_insert_of_disjoint hdisjoint h

theorem get_le (mask : BitVec 32) (c : CanID) : BitField.get mask c.id ≤ c.id := by
  rw [BitField.get, BitVec.le_def, BitVec.toNat_and]
  exact Nat.and_le_left

/-- The fields of an extended id are read back from a frame. -/
theorem get_create (mask : BitVec 32) (hid : sffMask < c.id) (hmask : BitField.Fits effMask mask)
    (hflag : mask &&& effFlag = 0) :
    BitField.get mask (create (c.wire flagInId)).id = BitField.get mask c.id := by
  have hwire : BitField.get mask (c.wire flagInId) = BitField.get mask c.id := by
    rw [wire]
    split
    · rw [BitField.get, BitField.get, BitVec.and_comm, BitVec.and_or_distrib_left, hflag,
        BitVec.and_comm]
      exact BitVec.or_zero
    · rfl
  have hle : c.id ≤ c.wire flagInId := by
    rw [wire]
    split
    · rw [BitVec.le_def, BitVec.toNat_or]
      exact Nat.left_le_or
    · exact BitVec.le_refl _
  have hlt : ¬ c.wire flagInId ≤ sffMask := by
    rw [BitVec.not_le]
    rw [BitVec.lt_def, BitVec.le_def] at *
    omega
  rw [create, if_neg hlt, ← hwire, BitField.get, BitField.get, BitVec.and_assoc, BitVec.and_comm effMask,
    show mask &&& effMask = mask from hmask]

end CanID

end ThingSet
