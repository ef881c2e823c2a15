import ThingSet.IsoTp.Basic

/-!
# The frames of a message

A message that does not fit into a single frame is cut at the positions `pos i`: the first frame
takes the bytes before `pos 0`, consecutive frame `i` those from `pos i` to `pos (i + 1)`. The
last position is the length of the message.

`IsFf`, `IsCf` and `IsSf` say what a frame of each kind looks like on the bus, whatever bytes are
behind its payload; the lemmas say that the sender makes such frames and the receiver takes the
bytes from them.
-/

namespace ThingSet.IsoTp

/-- What the code relies on of CAN's length codes: the code of a length gives at least that length
and no more than a full frame, and a first frame is accepted when it is a full frame. -/
structure DlcTable (c : IsoTpConfig) : Prop where
  le_dlc : ∀ n ≤ canMaxDlen c, n ≤ c.dlcToBytes (c.bytesToDlc n)
  dlc_le : ∀ n ≤ canMaxDlen c, c.dlcToBytes (c.bytesToDlc n) ≤ canMaxDlen c
  first : c.ffDlMin = c.bytesToDlc (canMaxDlen c)

variable {c : IsoTpConfig} {msg : Bytes} {i j k : ℕ} {f : CanFrame} {fs : List CanFrame}
  {s : SendCtx} {r : RecvCtx} {n : Network}

theorem canMaxDlen_eq (c : IsoTpConfig) :
    canMaxDlen c = 64 ∧ sfLenByte c = 2 ∧ c.canFdMode = true ∨
      canMaxDlen c = 8 ∧ sfLenByte c = 1 ∧ c.canFdMode = false := by
  cases h : c.canFdMode <;> simp [canMaxDlen, sfLenByte, h]

/-! ## Positions -/

/-- Where the payload of consecutive frame `i` starts. -/
def pos (c : IsoTpConfig) (msg : Bytes) (i : ℕ) : ℕ :=
  min msg.length (canMaxDlen c - 2 + i * (canMaxDlen c - 1))

/-- The payload of consecutive frame `i`. -/
def payload (c : IsoTpConfig) (msg : Bytes) (i : ℕ) : Bytes :=
  (msg.drop (pos c msg i)).take (canMaxDlen c - 1)

theorem pos_le (c : IsoTpConfig) (msg : Bytes) (i : ℕ) : pos c msg i ≤ msg.length :=
  Nat.min_le_left ..

theorem pos_zero (h : canMaxDlen c - 2 ≤ msg.length) : pos c msg 0 = canMaxDlen c - 2 := by
  rw [pos, Nat.zero_mul, Nat.add_zero, Nat.min_eq_right h]

theorem length_payload :
    (payload c msg i).length = min (msg.length - pos c msg i) (canMaxDlen c - 1) := by
  rw [payload, List.length_take, List.length_drop, Nat.min_comm]

theorem pos_succ : pos c msg (i + 1) = pos c msg i + (payload c msg i).length := by
  rw [length_payload, pos, pos, Nat.succ_mul]
  omega

/-- The message up to the end of a frame. -/
theorem take_pos_succ :
    msg.take (pos c msg (i + 1)) = msg.take (pos c msg i) ++ payload c msg i := by
  rw [pos_succ, List.take_add, length_payload, payload]
  congr 1
  rw [← List.length_drop, Nat.min_comm, ← List.take_eq_take_min]

theorem pos_lt_pos_succ (h : pos c msg i < msg.length) : pos c msg i < pos c msg (i + 1) := by
  rw [pos_succ, length_payload]
  rcases canMaxDlen_eq c with ⟨hd, -⟩ | ⟨hd, -⟩ <;> omega

/-! ## Frames -/

/-- A first frame: the length of the message and its first bytes, with the length code of a full
frame. -/
def IsFf (c : IsoTpConfig) (msg : Bytes) (f : CanFrame) : Prop :=
  ∃ junk, f.data = (typeFf ||| UInt8.ofNat (msg.length >>> 8)) :: UInt8.ofNat msg.length ::
    (msg.take (canMaxDlen c - 2) ++ junk) ∧ f.dlc = c.bytesToDlc (canMaxDlen c)

/-- Consecutive frame `i`. -/
def IsCf (c : IsoTpConfig) (msg : Bytes) (i : ℕ) (f : CanFrame) : Prop :=
  ∃ junk, f.data = (typeCf ||| UInt8.ofNat ((i + 1) % 16)) :: (payload c msg i ++ junk) ∧
    f.dlc = c.bytesToDlc ((payload c msg i).length + 1)

/-- A single frame, with its length in one byte or, in a long frame, in the second of two. -/
def IsSf (c : IsoTpConfig) (msg : Bytes) (f : CanFrame) : Prop :=
  ∃ header junk, f.data = header ++ (msg ++ junk) ∧ f.dlc = c.bytesToDlc (msg.length + header.length) ∧
    msg.length + header.length ≤ canMaxDlen c ∧ pciType (f.byte 0) = typeSf ∧
      sfLength c f = (msg.length, header.length)

/-- The consecutive frames from `j` up to `k`, in order. -/
def CfFrames (c : IsoTpConfig) (msg : Bytes) : ℕ → ℕ → List CanFrame → Prop
  | j, k, [] => j = k
  | j, k, f :: fs => IsCf c msg j f ∧ CfFrames c msg (j + 1) k fs

theorem CfFrames.append (h : CfFrames c msg j k fs) (hf : IsCf c msg k f) :
    CfFrames c msg j (k + 1) (fs ++ [f]) := by
  induction fs generalizing j with
  | nil =>
    obtain rfl : j = k := h
    exact ⟨hf, rfl⟩
  | cons g fs ih => exact ⟨h.1, ih h.2⟩

theorem CfFrames.le (h : CfFrames c msg j k fs) : j ≤ k := by
  induction fs generalizing j with
  | nil => exact Nat.le_of_eq h
  | cons g fs ih => exact Nat.le_of_succ_le (ih h.2)

theorem nibble_ff : ∀ l < 16, pciType (typeFf ||| UInt8.ofNat l) = typeFf ∧
    ((typeFf ||| UInt8.ofNat l) &&& 0x0F).toNat = l := by decide

theorem nibble_cf : ∀ l < 16, pciType (typeCf ||| UInt8.ofNat l) = typeCf ∧
    ((typeCf ||| UInt8.ofNat l) &&& 0x0F).toNat = l := by decide

theorem nibble_sf : ∀ l < 16, pciType (typeSf ||| UInt8.ofNat l) = typeSf ∧
    ((typeSf ||| UInt8.ofNat l) &&& 0x0F).toNat = l ∧ pciType (UInt8.ofNat l) = typeSf ∧
      (UInt8.ofNat l &&& 0x0F).toNat = l := by decide

theorem nibble_fc : pciType (typeFc ||| fsCts) = typeFc ∧ (typeFc ||| fsCts) &&& 0x0F = fsCts := by
  decide

theorem byte_of_data {b : UInt8} {l : Bytes} (h : f.data = b :: l) : f.byte 0 = b := by
  rw [CanFrame.byte, h]
  rfl

theorem byte_one_of_data {a b : UInt8} {l : Bytes} (h : f.data = a :: b :: l) : f.byte 1 = b := by
  rw [CanFrame.byte, h]
  rfl

/-! ## The first frame -/

/-- The length in a first frame. -/
theorem ffLength_of_isFf (h : IsFf c msg f) (hpos : 0 < msg.length) (hmax : msg.length ≤ 4095) :
    pciType (f.byte 0) = typeFf ∧ ffLength f % 4096 = msg.length := by
  obtain ⟨junk, hdata, -⟩ := h
  have hhigh : msg.length >>> 8 < 16 := by rw [Nat.shiftRight_eq_div_pow]; omega
  obtain ⟨htype, hnibble⟩ := nibble_ff _ hhigh
  rw [byte_of_data hdata]
  refine ⟨htype, ?_⟩
  have hlen : ((f.byte 0 &&& 0x0F).toNat <<< 8) ||| (f.byte 1).toNat = msg.length := by
    rw [byte_of_data hdata, byte_one_of_data hdata, hnibble, UInt8.toNat_ofNat',
      ← Nat.shiftLeft_add_eq_or_of_lt (Nat.mod_lt _ (by decide)), Nat.shiftLeft_eq,
      Nat.shiftRight_eq_div_pow]
    omega
  rw [ffLength]
  simp only [hlen]
  rw [if_neg (by omega)]
  omega

/-! ## Sender and receiver between frames -/

/-- The sender has sent `k` consecutive frames of the message. -/
structure Sent (c : IsoTpConfig) (msg : Bytes) (k : ℕ) (s : SendCtx) : Prop where
  data : s.data = msg.drop (pos c msg k)
  remLen : s.remLen = msg.length - pos c msg k
  sn : s.sn = (k + 1) % 16
  listed : s.listed = true

/-- The receiver has received `j` consecutive frames of the message. -/
structure Received (c : IsoTpConfig) (msg : Bytes) (j : ℕ) (r : RecvCtx) : Prop where
  buffer : r.buffer = msg.take (pos c msg j)
  remLen : r.remLen = msg.length - pos c msg j
  snExpected : r.snExpected = (j + 1) % 16

/-- `send_ff` queues the first frame. -/
theorem sendFf_spec (stale : Bytes) (n : Network) (hdata : n.sctx.data = msg)
    (hrem : n.sctx.remLen = msg.length) (hlisted : n.sctx.listed = true)
    (hlen : canMaxDlen c - 2 ≤ msg.length) (hmax : msg.length ≤ 4095) :
    ∃ f s, sendFf c stale n =
        { n with sctx := s, toReceiver := n.toReceiver ++ [f], txCb := n.txCb + 1 } ∧
      IsFf c msg f ∧ Sent c msg 0 s ∧ s.taking = n.sctx.taking ∧ s.work = n.sctx.work := by
  have hle : ¬ msg.length > 0xFFF := by omega
  have hpos := pos_zero (c := c) hlen
  refine ⟨_, _, rfl, ⟨stale.drop (canMaxDlen c - 2 + 1 + 1), ?_, rfl⟩, ⟨?_, ?_, ?_, hlisted⟩,
    rfl, rfl⟩
  · simp [hrem, hle, hdata, Nat.min_eq_left hlen, frameOf]
  · simp [SendCtx.advance, hrem, hle, hdata, Nat.min_eq_left hlen, hpos]
  · simp [SendCtx.advance, hrem, hle, Nat.min_eq_left hlen, hpos]
  · rfl

/-- `send_cf` queues the next consecutive frame. -/
theorem sendCf_spec (stale : Bytes) (n : Network) (h : Sent c msg k n.sctx) :
    ∃ f s, sendCf c stale n =
        { n with sctx := s, toReceiver := n.toReceiver ++ [f], txCb := n.txCb + 1 } ∧
      IsCf c msg k f ∧ Sent c msg (k + 1) s ∧ s.bs = n.sctx.bs - 1 ∧ s.timer = n.sctx.timer ∧
      s.state = n.sctx.state ∧ s.taking = n.sctx.taking := by
  obtain ⟨hdata, hrem, hsn, hlisted⟩ := h
  have hlen : min n.sctx.remLen (canMaxDlen c - 1) = (payload c msg k).length := by
    rw [length_payload, hrem]
  have htake : n.sctx.data.take (payload c msg k).length = payload c msg k := by
    rw [hdata, payload, List.take_eq_take_iff]
    simp
  refine ⟨_, _, rfl, ⟨stale.drop ((payload c msg k).length + 1), ?_, ?_⟩, ⟨?_, ?_, ?_, hlisted⟩,
    rfl, rfl, rfl, rfl⟩
  · simp [frameOf, hlen, htake, hsn]
  · simp [frameOf, hlen]
  · simp [SendCtx.advance, hlen, hdata, pos_succ]
  · simp only [SendCtx.advance, List.length_cons, List.length_nil, Nat.zero_add, hrem, pos_succ]
    omega
  · simp only [SendCtx.advance, hsn]
    omega

/-- The receiver takes the first bytes of the message from the first frame. -/
theorem processFfSf_of_isFf (hc : DlcTable c) (h : IsFf c msg f)
    (hlen : canMaxDlen c - 1 ≤ msg.length) (hmax : msg.length ≤ 4095) (hr : r.buffer = []) :
    ∃ r', r.processFfSf c f = r' ∧ Received c msg 0 r' ∧ r'.state = .processFf := by
  have hd : 8 ≤ canMaxDlen c := by rcases canMaxDlen_eq c with ⟨hd, -⟩ | ⟨hd, -⟩ <;> omega
  obtain ⟨htype, hff⟩ := ffLength_of_isFf h (by omega) hmax
  obtain ⟨junk, hdata, hdlc⟩ := h
  have hpos : pos c msg 0 = canMaxDlen c - 2 := pos_zero (by omega)
  have htake : ((f.data.drop 2).take (canMaxDlen c - 2)) = msg.take (canMaxDlen c - 2) := by
    rw [hdata]
    exact List.take_left' (by simp; omega)
  have hsub : toUint12 ((msg.length : ℤ) - ((canMaxDlen c - 2 : ℕ) : ℤ)) =
      msg.length - (canMaxDlen c - 2) := toUint12_sub (by omega) (by omega)
  refine ⟨_, rfl, ⟨?_, ?_, ?_⟩, ?_⟩ <;>
    simp [RecvCtx.processFfSf, htype, hdlc, hc.first, RecvCtx.add, hff, hsub, hr, htake, hpos]

/-- The receiver takes the payload from a consecutive frame. -/
theorem processCf_of_isCf (hc : DlcTable c) (h : IsCf c msg j f) (hmax : msg.length ≤ 4095)
    (hr : Received c msg j r) :
    ∃ r₁, Received c msg (j + 1) r₁ ∧ r₁.bs = r.bs ∧ r₁.state = r.state ∧ r₁.work = r.work ∧
      r.processCf c f =
        if r₁.remLen = 0 then { r₁ with state := .recycle, work := true }
        else if c.bs ≠ 0 then
          if r.bs - 1 = 0 then { r₁ with bs := c.bs, state := .tryAlloc }
          else { r₁ with bs := r.bs - 1 }
        else r₁ := by
  obtain ⟨hbuffer, hrem, hsn⟩ := hr
  obtain ⟨junk, hdata, hdlc⟩ := h
  obtain ⟨htype, hnibble⟩ := nibble_cf ((j + 1) % 16) (Nat.mod_lt _ (by decide))
  have hlen : (payload c msg j).length = min (msg.length - pos c msg j) (canMaxDlen c - 1) :=
    length_payload
  -- the length code covers the payload, and does not matter beyond a full frame
  have hadd : toUint32 (min (r.remLen : ℤ) (c.dlcToBytes f.dlc - 1)) = (payload c msg j).length := by
    have hd : 8 ≤ canMaxDlen c := by rcases canMaxDlen_eq c with ⟨hd, -⟩ | ⟨hd, -⟩ <;> omega
    have hle := hc.le_dlc ((payload c msg j).length + 1) (by omega)
    have hge := hc.dlc_le ((payload c msg j).length + 1) (by omega)
    rw [← toUint32_natCast (n := (payload c msg j).length) (by omega), hdlc, hrem]
    congr 1
    omega
  have hsub : toUint12 ((r.remLen : ℤ) - ((payload c msg j).length : ℕ)) =
      r.remLen - (payload c msg j).length := toUint12_sub (by omega) (by omega)
  have htake : (f.data.drop 1).take (payload c msg j).length = payload c msg j := by
    rw [hdata]
    exact List.take_left
  have hbyte := byte_of_data hdata
  refine ⟨{ r with
    snExpected := (j + 1 + 1) % 16
    buffer := r.buffer ++ payload c msg j
    remLen := r.remLen - (payload c msg j).length }, ⟨?_, ?_, rfl⟩, rfl, rfl, rfl, ?_⟩
  · rw [hbuffer, take_pos_succ]
  · simp only [hrem, pos_succ]
    omega
  · have hsn' : ((j + 1) % 16 + 1) % 16 = (j + 1 + 1) % 16 := by omega
    simp only [RecvCtx.processCf, hbyte, htype, hnibble, ne_eq, not_true_eq_false, if_false, hsn,
      RecvCtx.add, hadd, hsub, htake, hsn']

/-! ## The single frame -/

/-- `isotp_fast_send` queues a single frame for a message that fits. -/
theorem fastSend_of_le (stale : Bytes) (hpos : 0 < msg.length)
    (hlen : msg.length ≤ canMaxDlen c - sfLenByte c) :
    ∃ f, fastSend c stale msg =
      some
        { sctx := { data := [], remLen := 0, bs := c.bs, stmin := c.stmin }
          toReceiver := [f]
          singleCb := 1 } ∧ IsSf c msg f := by
  rw [fastSend]
  dsimp only
  rw [if_pos hlen]
  refine ⟨_, rfl, ?_⟩
  rcases canMaxDlen_eq c with ⟨hd, hs, hfd⟩ | ⟨hd, hs, hfd⟩
  · by_cases hlong : msg.length > 7
    · -- the length is in the second byte
      refine ⟨[typeSf, UInt8.ofNat msg.length], stale.drop (msg.length + 1 + 1), ?_, ?_, ?_, ?_, ?_⟩
      · simp [frameOf, hfd, hlong]
      · simp [frameOf, hfd, hlong]
      · simp
        omega
      · simp [frameOf, hfd, hlong, CanFrame.byte]
        decide
      · have : (UInt8.ofNat msg.length).toNat = msg.length := by
          rw [UInt8.toNat_ofNat']
          omega
        simp [sfLength, frameOf, hfd, hlong, CanFrame.byte, this]
        decide
    · obtain ⟨htype, hnibble, -⟩ := nibble_sf msg.length (by omega)
      refine ⟨[typeSf ||| UInt8.ofNat msg.length], stale.drop (msg.length + 1), ?_, ?_, ?_, ?_, ?_⟩
      · simp [frameOf, hfd, hlong]
      · simp [frameOf, hfd, hlong]
      · simp
        omega
      · simp [frameOf, hfd, hlong, CanFrame.byte, htype]
      · have : msg ≠ [] := List.ne_nil_of_length_pos hpos
        simp [sfLength, frameOf, hfd, hlong, CanFrame.byte, hnibble, this]
  · obtain ⟨-, -, htype, hnibble⟩ := nibble_sf msg.length (by omega)
    refine ⟨[UInt8.ofNat msg.length], stale.drop (msg.length + 1), ?_, ?_, ?_, ?_, ?_⟩
    · simp [frameOf, hfd]
    · simp [frameOf, hfd]
    · simp
      omega
    · simp [frameOf, hfd, CanFrame.byte, htype]
    · simp [sfLength, frameOf, hfd, CanFrame.byte, hnibble]

/-- The receiver takes the message from a single frame. -/
theorem processFfSf_of_isSf (hc : DlcTable c) (h : IsSf c msg f) (hr : r.buffer = []) :
    (r.processFfSf c f).buffer = msg ∧ (r.processFfSf c f).state = .processSf := by
  obtain ⟨header, junk, hdata, hdlc, hle, htype, hlen⟩ := h
  have hne : ¬ typeSf = typeFf := by decide
  have hmin : min msg.length (canMaxDlen c - header.length) = msg.length := by omega
  have hfits : ¬ msg.length > c.dlcToBytes f.dlc := by
    have := hc.le_dlc _ hle
    rw [hdlc]
    omega
  have htake : (f.data.drop header.length).take msg.length = msg := by
    rw [hdata, List.drop_left, List.take_left]
  simp [RecvCtx.processFfSf, hne, htype, hlen, hmin, hfits, RecvCtx.add, htake, hr]

end ThingSet.IsoTp
