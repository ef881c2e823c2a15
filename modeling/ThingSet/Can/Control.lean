import ThingSet.BinaryEncoder
import ThingSet.Can.AddressClaim
import ThingSet.MapKeys
import ThingSet.Zcbor.Nesting

/-!
# Control messages

`sendControl` sends the value of a property in a frame by itself, with the id of the property in the CAN id. The
control listener puts the header of a map and the id before the value, in a buffer that it uses for every frame,
and hands a decoder for it to its callback.

`sendControl_controls`: the callback of each frame gets subset 0 and a map of the id to the value, which it can read
if it nests at most one list or map; and nothing is written behind the buffer.
-/

namespace ThingSet

open Interaction Prog Cbor

/-- `CAN_MAX_DLEN`, `can_bytes_to_dlc` and `can_dlc_to_bytes`. -/
structure CanDlc where
  maxDlen : ℕ
  bytesToDlc : ℕ → ℕ
  dlcToBytes : ℕ → ℕ

/-- A frame whose length can be told has room for what it was made for. -/
structure CanDlc.Lawful (c : CanDlc) : Prop where
  le_dlc : ∀ n ≤ c.maxDlen, n ≤ c.dlcToBytes (c.bytesToDlc n)
  dlc_le : ∀ n ≤ c.maxDlen, c.dlcToBytes (c.bytesToDlc n) ≤ c.maxDlen

/-- `struct can_frame`: its id, the bytes of its data and its length code. -/
structure ControlFrame where
  id : BitVec 32
  data : Bytes
  dlc : ℕ
  deriving DecidableEq, Repr

namespace CanID

def dataIdMask : BitVec 32 := 0xffff#32 <<< 8

/-- `getDataId`. -/
def getDataId (c : CanID) : UInt16 := ⟨(BitField.get dataIdMask c.id >>> 8).setWidth 16⟩

/-- `setDataId`. -/
def setDataId (c : CanID) (value : UInt16) : CanID :=
  c.setField dataIdMask (value.toBitVec.setWidth 32 <<< 8 &&& dataIdMask)

end CanID

/-! ## The sender -/

/-- A property: its id, and what encodes its value. -/
structure ControlProperty where
  id : UInt16
  encode : Encoding Bool

/-- The id of the frame of a property. -/
def controlId (nodeAddress : UInt8) (dataId : UInt16) : CanID :=
  (((CanID.new.setSource nodeAddress).setDataId dataId).setMessageType .singleFrameReport).setMessagePriority .reportLow

/-- `doPublish`: the frame that is passed to `can_send`. The frame starts with all bytes zero. -/
def ControlFrame.doPublish (c : CanDlc) (id : CanID) (buffer : Bytes) (length : ℕ) : Option ControlFrame :=
  if c.maxDlen < length then none
  else some
    { id := id.wire false
      data := memcpy (List.replicate c.maxDlen 0) 0 buffer length
      dlc := c.bytesToDlc length }

/-- `sendControl`, where `canSend k` says whether call `k` of `can_send` returns 0: whether all properties have been
sent, and the frames. -/
def sendControl (E : ZcborEncode) (c : CanDlc) (nodeAddress : UInt8) :
    (canSend : ℕ → Bool) → List ControlProperty → Bool × List ControlFrame
  | _, [] => (true, [])
  | canSend, p :: ps =>
    let (ok, encoder) := run (binaryEncoder E) p.encode (.new 8 c.maxDlen)
    if !ok then (false, [])
    else
      match ControlFrame.doPublish c (controlId nodeAddress p.id) encoder.output encoder.output.length with
      | none => (false, [])
      | some frame =>
        if canSend 0 then
          let (ok, frames) := sendControl E c nodeAddress (fun k => canSend (k + 1)) ps
          (ok, frame :: frames)
        else (false, [])

/-! ## The listener -/

/-- `ZCBOR_VALUE_IN_HEADER`. -/
def valueInHeader : ℕ := 23

/-- A round of `runListener`: the buffer, and what the callback is called with. -/
def receiveControl (c : CanDlc) (buffer : Bytes) (frame : ControlFrame) : Bytes × CanID × ZcborState :=
  let canId := CanID.create frame.id
  let itemId := canId.getDataId.toNat
  let (buffer, i) :=
    if itemId ≤ valueInHeader then (buffer.set 2 (UInt8.ofNat itemId), 3)
    else if itemId ≤ 0xFF then ((buffer.set 2 0x18).set 3 (UInt8.ofNat itemId), 4)
    else (((buffer.set 2 0x19).set 3 (UInt8.ofNat (itemId / 256))).set 4 (UInt8.ofNat itemId), 5)
  let buffer := memcpy buffer i frame.data (c.dlcToBytes frame.dlc)
  (buffer, canId, .new 4 buffer 0 (c.maxDlen + 5) 2)

/-- The buffer of `runListener` before its loop, in memory with any content. -/
def controlBuffer (memory : Bytes) : Bytes := (memory.set 0 0x00).set 1 0xA1

/-- The buffer of `runListener` after some frames. -/
def runListener (c : CanDlc) (buffer : Bytes) : List ControlFrame → Bytes
  | [] => buffer
  | frame :: frames => runListener c (receiveControl c buffer frame).1 frames

/-! ## What a decoder finds -/

/-- The decoder is at subset 0, and a map of an id to an item that `read` gets over. -/
def IsControl (o : BinaryDecoderOptions) (id : ℕ) (x : Item) (read : Decoding Bool) (d : ZcborState) : Prop :=
  ∃ d₁ value behind, binaryDecoder o (.uint .w32) d = (some 0, d₁) ∧
    IsMap (binaryDecoder o) [⟨.id id, value, behind⟩] d₁ ∧
      x.bytes <+: value.remaining ∧ run (binaryDecoder o) read value = (true, behind)

/-- `controlFilter`. -/
def controlFilter : CanID := (CanID.new.setMessageType .singleFrameReport).setMessagePriority .reportLow

/-! ## The CAN id -/

section Id

variable {nodeAddress : UInt8} {dataId : UInt16}

theorem get_priority_controlId :
    BitField.get CanID.messagePriorityMask (controlId nodeAddress dataId).id = MessagePriority.reportLow.code :=
  CanID.get_setField (by decide)

theorem get_type_controlId :
    BitField.get CanID.messageTypeMask (controlId nodeAddress dataId).id = CanMessageType.singleFrameReport.code := by
  unfold controlId CanID.setMessagePriority CanID.setMessageType
  rw [CanID.get_setField_of_disjoint (by decide) (by decide), CanID.get_setField (by decide)]

theorem get_dataId_controlId :
    BitField.get CanID.dataIdMask (controlId nodeAddress dataId).id =
      dataId.toBitVec.setWidth 32 <<< 8 &&& CanID.dataIdMask := by
  unfold controlId CanID.setMessagePriority CanID.setMessageType CanID.setDataId
  rw [CanID.get_setField_of_disjoint (by decide) (by decide), CanID.get_setField_of_disjoint (by decide) (by decide),
    CanID.get_setField (BitField.fits_and ..)]

/-- The id is an extended one. -/
theorem sffMask_lt_controlId : CanID.sffMask < (controlId nodeAddress dataId).id := by
  have hle := CanID.get_le CanID.messagePriorityMask (controlId nodeAddress dataId)
  rw [get_priority_controlId] at hle
  have hlt : CanID.sffMask < MessagePriority.reportLow.code := by decide
  rw [BitVec.lt_def, BitVec.le_def] at *
  omega

/-- The listener gets the frame. -/
theorem accepts_controlFilter : controlFilter.Accepts ((controlId nodeAddress dataId).wire false) := by
  unfold controlFilter CanID.setMessagePriority CanID.setMessageType
  rw [CanID.accepts_setField (by decide) (by decide), CanID.accepts_setField (by decide) (by decide),
    CanID.get_wire _ _ (by decide), CanID.get_wire _ _ (by decide)]
  exact ⟨⟨CanID.accepts_new, get_type_controlId⟩, get_priority_controlId⟩

/-- The id of the property is read back from the frame. -/
theorem getDataId_create :
    (CanID.create ((controlId nodeAddress dataId).wire false)).getDataId = dataId := by
  have hbits : dataId.toBitVec.setWidth 32 <<< 8 &&& CanID.dataIdMask = dataId.toBitVec.setWidth 32 <<< 8 := by
    rw [CanID.dataIdMask, ← BitVec.shiftLeft_and_distrib]
    congr 1
    apply BitVec.eq_of_toNat_eq
    rw [BitVec.toNat_and, BitVec.toNat_setWidth_of_le (by decide)]
    exact (Nat.and_two_pow_sub_one_eq_mod _ 16).trans (Nat.mod_eq_of_lt dataId.toBitVec.isLt)
  unfold CanID.getDataId
  rw [CanID.get_create _ sffMask_lt_controlId (by decide) (by decide), get_dataId_controlId, hbits,
    BitField.setWidth_ushiftRight_shiftLeft (by decide)]

end Id

/-! ## The buffer -/

section Buffer

variable {c : CanDlc} {buffer : Bytes} {frame : ControlFrame}

/-- The header of the map and the subset stay where they are. -/
structure IsControlBuffer (c : CanDlc) (buffer : Bytes) : Prop where
  length : buffer.length = c.maxDlen + 5
  header : [0x00, 0xA1] <+: buffer

/-- A frame with as many bytes as its length says, which fit into a frame. -/
def CanDlc.Holds (c : CanDlc) (frame : ControlFrame) : Prop :=
  c.dlcToBytes frame.dlc ≤ c.maxDlen ∧ c.dlcToBytes frame.dlc ≤ frame.data.length

theorem controlBuffer_isControlBuffer {memory : Bytes} (h : memory.length = c.maxDlen + 5) :
    IsControlBuffer c (controlBuffer memory) := by
  obtain ⟨b₀, b₁, rest, rfl⟩ : ∃ b₀ b₁ rest, memory = b₀ :: b₁ :: rest := by
    match memory, h with
    | b₀ :: b₁ :: rest, _ => exact ⟨b₀, b₁, rest, rfl⟩
  exact ⟨h, ⟨rest, rfl⟩⟩

theorem receiveControl_decoder :
    (receiveControl c buffer frame).2.2 = .new 4 (receiveControl c buffer frame).1 0 (c.maxDlen + 5) 2 := rfl

/-- What a round leaves in the buffer. -/
theorem receiveControl_spec (h : IsControlBuffer c buffer) (hframe : c.Holds frame) :
    IsControlBuffer c (receiveControl c buffer frame).1 ∧
      ∃ rest, (receiveControl c buffer frame).1 = 0x00 :: 0xA1 ::
        (writeHead 0 (CanID.create frame.id).getDataId.toNat ++
          (frame.data.take (c.dlcToBytes frame.dlc) ++ rest)) := by
  obtain ⟨hlen, rest, hrest⟩ := h
  obtain ⟨hmax, hdata⟩ := hframe
  obtain ⟨b₂, b₃, b₄, tail, rfl⟩ : ∃ b₂ b₃ b₄ tail, buffer = 0x00 :: 0xA1 :: b₂ :: b₃ :: b₄ :: tail := by
    rw [← hrest] at hlen ⊢
    match rest, hlen with
    | b₂ :: b₃ :: b₄ :: tail, _ => exact ⟨b₂, b₃, b₄, tail, rfl⟩
    | [], h | [_], h | [_, _], h => simp at h
  simp only [List.length_cons] at hlen
  have hid := (CanID.create frame.id).getDataId.toNat_lt
  have htake : (frame.data.take (c.dlcToBytes frame.dlc)).length = c.dlcToBytes frame.dlc :=
    List.length_take_of_le hdata
  unfold receiveControl
  dsimp only
  generalize (CanID.create frame.id).getDataId.toNat = id at hid
  unfold valueInHeader writeHead
  by_cases hone : id ≤ 23
  · rw [if_pos hone, if_pos (show id < 24 by omega)]
    simp only [memcpy, Nat.mul_zero, Nat.zero_add]
    refine ⟨⟨?_, ?_⟩, _, rfl⟩
    · simp [htake]
      omega
    · exact ⟨_, rfl⟩
  rw [if_neg hone, if_neg (show ¬ id < 24 by omega)]
  by_cases htwo : id ≤ 0xFF
  · rw [if_pos htwo, if_pos (show id < 256 by omega)]
    refine ⟨⟨?_, ?_⟩, _, rfl⟩
    · simp [memcpy, htake]
      omega
    · exact ⟨_, rfl⟩
  · rw [if_neg htwo, if_neg (show ¬ id < 256 by omega), if_pos (show id < 65536 by omega)]
    refine ⟨⟨?_, ?_⟩, _, rfl⟩
    · simp [memcpy, htake]
      omega
    · exact ⟨_, rfl⟩

/-- No frame is written behind the buffer. -/
theorem runListener_isControlBuffer (frames : List ControlFrame) (h : IsControlBuffer c buffer)
    (hframes : ∀ f ∈ frames, c.Holds f) : IsControlBuffer c (runListener c buffer frames) := by
  induction frames generalizing buffer with
  | nil => exact h
  | cons f frames ih =>
    exact ih (receiveControl_spec h (hframes f List.mem_cons_self)).1 fun g hg => hframes g (List.mem_cons_of_mem f hg)

end Buffer

/-! ## The value -/

section Value

variable {o : BinaryDecoderOptions} {max id : ℕ} {x : Item} {rest : Bytes} {s : ZcborState}

/-- What gets over the value is at the end of the map. -/
theorem isControl_of_reads (read : Decoding Bool) (hZ : o.zcbor.ItemLaws) (hid : id < 2 ^ 16) (hcount : s.elemCount = 2)
    (hdepth : s.backups.length + 2 < s.depth)
    (hs : s.remaining = 0x00 :: 0xA1 :: (writeHead 0 id ++ (x.bytes ++ rest)))
    (hread : ∀ v : ZcborState, v.elemCount = 1 → v.backups.length = s.backups.length + 1 → v.depth = s.depth →
      v.remaining = x.bytes ++ rest →
        ∃ v', run (binaryDecoder o) read v = (true, v') ∧ v.Reads x.bytes.length 1 v') :
    IsControl o id x read s := by
  have hsubset : s.remaining = writeHead 0 0 ++ (0xA1 :: (writeHead 0 id ++ (x.bytes ++ rest))) := hs
  obtain ⟨h₀, hadvances₁, hcount₁, -, hbackups₁⟩ := hZ.uint32 s 0 _ (by decide) (by omega) hsubset
  obtain ⟨hstart, hadvances₂, hcount₂, hindefinite₂, b, hbackups₂, -, -⟩ :=
    hZ.mapStart (o.zcbor.uint32Decode s).2 (writeHead 5 1) 1 _ (isHead_writeHead (by decide) (by decide)) (by omega)
      (by rw [hbackups₁, hadvances₁.depth]; exact hdepth) (hadvances₁.remaining hsubset)
  generalize hd₁ : (o.zcbor.uint32Decode s).2 = d₁ at *
  generalize hd₂ : (o.zcbor.mapStartDecode d₁).2 = d₂ at *
  obtain ⟨hkey, hadvances₃, hcount₃, hindefinite₃, hbackups₃⟩ :=
    hZ.uint32 d₂ id _ (by omega) (by omega) (hadvances₂.remaining (hadvances₁.remaining hsubset))
  generalize hv : (o.zcbor.uint32Decode d₂).2 = v at *
  have hremaining := hadvances₃.remaining (hadvances₂.remaining (hadvances₁.remaining hsubset))
  obtain ⟨v', hrun, hreads⟩ := hread v (by omega) (by rw [hbackups₃, hbackups₂, hbackups₁, List.length_cons])
    (by rw [hadvances₃.depth, hadvances₂.depth, hadvances₁.depth]) hremaining
  have hend : v'.elemCount = 0 := by
    have := hreads.elemCount
    omega
  have hleave := hZ.mapEnd v' b d₁.backups (by rw [hreads.backups, hbackups₃, hbackups₂])
    (by rw [hreads.indefinite, hindefinite₃, hindefinite₂]) hend
  refine ⟨d₁, v, v', Prod.ext h₀ hd₁, ⟨hstart, (by decide : 1 < sizeMax), ?_, ?_⟩, ⟨rest, hremaining.symm⟩, hrun⟩
  · exact Prod.ext (by rw [← hd₂] at hkey; exact hkey) (by rw [← hv, ← hd₂]; rfl)
  · change (o.zcbor.uint32Decode v').1 = none ∧ (o.zcbor.tstrDecode (o.zcbor.uint32Decode v').2).1 = none ∧
      (o.zcbor.mapEndDecode (o.zcbor.tstrDecode (o.zcbor.uint32Decode v').2).2).1 = true
    rw [hZ.uint32_end v' hend, hZ.tstr_end v' hend]
    exact ⟨rfl, rfl, hleave.1⟩

end Value

/-! ## From the sender to the listener -/

section Control

variable {E : ZcborEncode} {c : CanDlc} {nodeAddress : UInt8} {o : BinaryDecoderOptions} {memory : Bytes}

/-- The frame holds the bytes, and zeros behind them. -/
theorem doPublish_spec {id : CanID} {buffer : Bytes} {frame : ControlFrame} (hc : c.Lawful)
    (h : ControlFrame.doPublish c id buffer buffer.length = some frame) :
    c.Holds frame ∧ frame.id = id.wire false ∧
      ∃ rest, frame.data.take (c.dlcToBytes frame.dlc) = buffer ++ rest := by
  unfold ControlFrame.doPublish at h
  split at h
  · cases h
  · rename_i hlen
    have hle := hc.le_dlc buffer.length (Nat.le_of_not_lt hlen)
    have hmax := hc.dlc_le buffer.length (Nat.le_of_not_lt hlen)
    cases h
    refine ⟨⟨hmax, ?_⟩, rfl, ?_⟩
    · simp only [memcpy, List.take_zero, List.nil_append, List.take_length, List.length_append, List.length_drop,
        List.length_replicate]
      omega
    · simp only [memcpy, List.take_zero, List.nil_append, List.take_length, List.take_append,
        List.take_of_length_le hle]
      exact ⟨_, rfl⟩

/-- A frame is the one of a property: the listener gets it, it does not write behind its buffer, and its callback
gets the id and the value. -/
def Controls (E : ZcborEncode) (c : CanDlc) (o : BinaryDecoderOptions) (memory : Bytes) (p : ControlProperty)
    (frame : ControlFrame) : Prop :=
  let (ok, encoder) := run (binaryEncoder E) p.encode (.new 8 c.maxDlen)
  ok = true ∧ controlFilter.Accepts frame.id ∧ c.Holds frame ∧
    ∀ earlier : List ControlFrame, (∀ f ∈ earlier, c.Holds f) →
      let (buffer, canId, decoder) := receiveControl c (runListener c (controlBuffer memory) earlier) frame
      buffer.length = memory.length ∧ canId.getDataId = p.id ∧
        ∀ max (x : Item), x.WellFormed max → encoder.output = x.bytes →
          IsControl o p.id.toNat x (decode .skip) decoder ∧
            (x.NestsWithin 1 → IsControl o p.id.toNat x (readItem x) decoder)

theorem controls_of_doPublish {p : ControlProperty} {frame : ControlFrame} (hZ : o.zcbor.ItemLaws) (hc : c.Lawful)
    (hmemory : memory.length = c.maxDlen + 5)
    (hok : (run (binaryEncoder E) p.encode (.new 8 c.maxDlen)).1 = true)
    (h : ControlFrame.doPublish c (controlId nodeAddress p.id) (run (binaryEncoder E) p.encode (.new 8 c.maxDlen)).2.output
      (run (binaryEncoder E) p.encode (.new 8 c.maxDlen)).2.output.length = some frame) :
    Controls E c o memory p frame := by
  obtain ⟨hholds, hid, padding, hdata⟩ := doPublish_spec hc h
  refine ⟨hok, by rw [hid]; exact accepts_controlFilter, hholds, fun earlier hearlier => ?_⟩
  obtain ⟨hbuffer, rest, hrest⟩ :=
    receiveControl_spec (runListener_isControlBuffer earlier (controlBuffer_isControlBuffer hmemory) hearlier) hholds
  have hdataId : (CanID.create frame.id).getDataId = p.id := by rw [hid, getDataId_create]
  refine ⟨hbuffer.length.trans hmemory.symm, hdataId, fun max x hx hbytes => ?_⟩
  rw [hdataId, hdata, hbytes, List.append_assoc] at hrest
  change IsControl o _ x _ (receiveControl _ _ _).2.2 ∧ (_ → IsControl o _ x _ (receiveControl _ _ _).2.2)
  rw [receiveControl_decoder]
  generalize (receiveControl c (runListener c (controlBuffer memory) earlier) frame).1 = buffer at hbuffer hrest ⊢
  have hdecoder : (ZcborState.new 4 buffer 0 (c.maxDlen + 5) 2).remaining = buffer :=
    List.take_of_length_le (by change buffer.length ≤ 0 + (c.maxDlen + 5); rw [hbuffer.length, Nat.zero_add])
  have hcontrol := fun read => isControl_of_reads read hZ (Nat.lt_of_lt_of_le p.id.toNat_lt (by decide))
    (s := .new 4 buffer 0 (c.maxDlen + 5) 2) rfl (by decide : 0 + 2 < 4) (hdecoder.trans hrest)
  refine ⟨hcontrol _ ?_, fun hnest => hcontrol _ ?_⟩
  · intro v hcount _ _ hv
    obtain ⟨hskip, hadvances, hcount', hindefinite, hbackups⟩ := hZ.anySkip v x max _ hx (by omega) hv
    exact ⟨_, Prod.ext hskip rfl, hadvances, hcount', hindefinite, hbackups⟩
  · intro v hcount hbackups hdepth hv
    exact run_readItem hZ hx hnest (by rw [hbackups, hdepth]; exact (by decide : 0 + 1 + 2 + 1 ≤ 4)) (by omega) hv

/-- The value of a property fits in a frame. -/
def FitsInFrame (E : ZcborEncode) (c : CanDlc) (p : ControlProperty) : Prop :=
  (run (binaryEncoder E) p.encode (.new 8 c.maxDlen)).1 = true ∧
    (run (binaryEncoder E) p.encode (.new 8 c.maxDlen)).2.output.length ≤ c.maxDlen

/-- **The frames that `sendControl` sends are those of the properties from the first on, and of all of them if it
returns true, as it does if all of them fit.** -/
theorem sendControl_controls (hZ : o.zcbor.ItemLaws) (hc : c.Lawful) (hmemory : memory.length = c.maxDlen + 5)
    (canSend : ℕ → Bool) (ps : List ControlProperty) :
    let (ok, frames) := sendControl E c nodeAddress canSend ps
    frames.length ≤ ps.length ∧ List.Forall₂ (Controls E c o memory) (ps.take frames.length) frames ∧
      (ok = true ↔ frames.length = ps.length) ∧
        ((∀ p ∈ ps, FitsInFrame E c p) → (∀ k, canSend k = true) → ok = true) := by
  induction ps generalizing canSend with
  | nil => exact ⟨Nat.le_refl 0, .nil, by decide, fun _ _ => rfl⟩
  | cons p ps ih =>
    have hstop (hfails : (∀ q ∈ p :: ps, FitsInFrame E c q) → (∀ k, canSend k = true) → False) :
        0 ≤ (p :: ps).length ∧ List.Forall₂ (Controls E c o memory) ((p :: ps).take 0) [] ∧
          (false = true ↔ 0 = (p :: ps).length) ∧
            ((∀ q ∈ p :: ps, FitsInFrame E c q) → (∀ k, canSend k = true) → false = true) :=
      ⟨Nat.zero_le _, .nil, ⟨by rintro ⟨⟩, by rintro ⟨⟩⟩, fun hfits hsend => (hfails hfits hsend).elim⟩
    unfold sendControl
    dsimp only
    split
    · rename_i hok
      apply hstop
      intro hfits _
      rw [(hfits p List.mem_cons_self).1] at hok
      cases hok
    rename_i hok
    rw [Bool.not_eq_true, Bool.not_eq_false'] at hok
    split
    · rename_i hnone
      apply hstop
      intro hfits _
      rw [ControlFrame.doPublish, if_neg (Nat.not_lt.2 (hfits p List.mem_cons_self).2)] at hnone
      cases hnone
    rename_i frame hframe
    split
    · obtain ⟨hle, hall, hiff, hsent⟩ := ih fun k => canSend (k + 1)
      refine ⟨Nat.succ_le_succ hle, .cons (controls_of_doPublish hZ hc hmemory hok hframe) hall,
        hiff.trans Nat.succ_inj.symm, ?_⟩
      intro hfits hsend
      exact hsent (fun q hq => hfits q (List.mem_cons_of_mem p hq)) fun k => hsend (k + 1)
    · rename_i hfail
      apply hstop
      intro _ hsend
      exact hfail (hsend 0)

end Control

/-! ## Two properties, and a value that nests deeper -/

/-- The lengths of CAN FD. -/
def canLengths : List ℕ := [0, 1, 2, 3, 4, 5, 6, 7, 8, 12, 16, 20, 24, 32, 48, 64]

/-- `can_bytes_to_dlc` and `can_dlc_to_bytes` for frames of CAN FD: the first length that is long enough. -/
def canFdDlc : CanDlc where
  maxDlen := 64
  bytesToDlc n := canLengths.findIdx (n ≤ ·)
  dlcToBytes d := canLengths.getD d 64

theorem canFdDlc_lawful : canFdDlc.Lawful where
  le_dlc := by decide
  dlc_le := by decide

/-- A number of two bytes with an id of two bytes, and an array with an id that is in its header. -/
def twoControls : List ControlProperty :=
  [⟨300, encode (.uint .w16 1000)⟩, ⟨5, encodeArray (fun i => encode (.uint .w8 i)) 3⟩]

theorem twoControls_sent :
    ∃ frames, sendControl zcborEncodeReference canFdDlc 1 (fun _ => true) twoControls = (true, frames) ∧
      List.Forall₂ (Controls zcborEncodeReference canFdDlc ⟨zcborStates, false, false⟩ (List.replicate 69 0xFF))
        twoControls frames := by
  have hok : (sendControl zcborEncodeReference canFdDlc 1 (fun _ => true) twoControls).1 = true := by decide +kernel
  obtain ⟨-, hall, hiff, -⟩ := @sendControl_controls zcborEncodeReference canFdDlc 1 ⟨zcborStates, false, false⟩
    (List.replicate 69 0xFF) zcborStates_itemLaws canFdDlc_lawful rfl (fun _ => true) twoControls
  refine ⟨_, Prod.ext hok rfl, ?_⟩
  rw [List.take_of_length_le (hiff.1 hok).ge] at hall
  exact hall

/-- An array of arrays of numbers. -/
def nestedProperty : ControlProperty :=
  ⟨5, encodeArray (fun i => encodeArray (fun j => encode (.uint .w8 (2 * i + j))) 2) 2⟩

def nestedItem : Item := .list [0x82] 2 fun i => .list [0x82] 2 fun j => .primitive [UInt8.ofNat (2 * i + j)]

/-- The listener has no backup for the inner arrays. -/
theorem nestedProperty_not_read :
    ∃ frame, sendControl zcborEncodeReference canFdDlc 1 (fun _ => true) [nestedProperty] = (true, [frame]) ∧
      (run (binaryEncoder zcborEncodeReference) nestedProperty.encode (.new 8 64)).2.output = nestedItem.bytes ∧
        ¬ IsControl ⟨zcborStates, false, false⟩ 5 nestedItem (readItem nestedItem)
          (receiveControl canFdDlc (controlBuffer (List.replicate 69 0)) frame).2.2 := by
  refine ⟨⟨_, _, _⟩, rfl, by decide +kernel, ?_⟩
  rintro ⟨d₁, value, behind, hsubset, ⟨-, -, hkey, -⟩, -, hread⟩
  obtain rfl := congrArg Prod.snd hsubset
  obtain rfl := congrArg Prod.snd hkey
  have hfails : (run (binaryDecoder ⟨zcborStates, false, false⟩) (readItem nestedItem) _).1 = true := congrArg Prod.fst hread
  revert hfails
  decide +kernel

end ThingSet
