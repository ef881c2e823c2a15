import ThingSet.BinaryDecoder
import ThingSet.Zcbor.Skip

/-!
# Items that are read as a whole

A decoder reads an item by entering its lists and maps. Each of them takes one of the backups of zcbor, and two of
the states that a decoder has are no backups.

* `readItem`: the calls that read an item.
* `run_readItem`: an item that nests within the backups that are left is read, whatever is behind it.
-/

namespace Cbor.Item

/-- At most `k` lists and maps are within each other. -/
def NestsWithin : ℕ → Item → Prop
  | _, primitive _ => True
  | k, list _ _ element => 0 < k ∧ ∀ i, (element i).NestsWithin (k - 1)
  | k, map _ _ key value => 0 < k ∧ (∀ i, (key i).NestsWithin (k - 1)) ∧ ∀ i, (value i).NestsWithin (k - 1)

end Cbor.Item

namespace ThingSet

open Interaction Prog Cbor

/-- `a && b && ...`. -/
def decodeAll : List (Decoding Bool) → Decoding Bool
  | [] => pure true
  | p :: ps => do
    let ok ← p
    if ok then decodeAll ps else pure false

/-- An item is read: a primitive one is skipped, and the elements of a list or a map are read one after the other. -/
def readItem : Item → Decoding Bool
  | .primitive _ => decode .skip
  | .list _ size element => decodeAll
      [decode .listStart, decodeAll ((List.finRange size).map fun i => readItem (element i)), decode .listEnd]
  | .map _ size key value => decodeAll
      [decode .mapStart,
        decodeAll ((List.finRange size).map fun i => decodeAll [readItem (key i), readItem (value i)]),
        decode .mapEnd]

namespace ZcborDecode

/-- A container of a major type is entered at its head, if a backup is left. -/
def Enters (f : ZcborState → Bool × ZcborState) (major perEntry : ℕ) : Prop :=
  ∀ s head n rest, IsHead head major n → s.elemCount ≠ 0 → s.backups.length + 2 < s.depth →
    s.remaining = head ++ rest →
      (f s).1 = true ∧ s.Advances head.length (f s).2 ∧ (f s).2.elemCount = perEntry * n ∧
        (f s).2.indefinite = false ∧
          ∃ b, (f s).2.backups = b :: s.backups ∧ b.elemCount + 1 = s.elemCount ∧ b.indefinite = s.indefinite

/-- A container is left where no element is to come. -/
def Leaves (f : ZcborState → Bool × ZcborState) : Prop :=
  ∀ s b backups, s.backups = b :: backups → s.indefinite = false → s.elemCount = 0 →
    (f s).1 = true ∧ s.Advances 0 (f s).2 ∧ (f s).2.elemCount = b.elemCount ∧
      (f s).2.indefinite = b.indefinite ∧ (f s).2.backups = backups

/-- What the decoding functions make of the items of a message. -/
structure ItemLaws (Z : ZcborDecode) : Prop where
  uint32 : ∀ s n rest, n < 2 ^ 32 → s.elemCount ≠ 0 → s.remaining = writeHead 0 n ++ rest →
    (Z.uint32Decode s).1 = some n ∧ s.Advances (writeHead 0 n).length (Z.uint32Decode s).2 ∧
      (Z.uint32Decode s).2.elemCount + 1 = s.elemCount ∧ (Z.uint32Decode s).2.indefinite = s.indefinite ∧
        (Z.uint32Decode s).2.backups = s.backups
  /-- Where no element is to come there is no number, and no string. -/
  uint32_end : ∀ s, s.elemCount = 0 → Z.uint32Decode s = (none, s)
  tstr_end : ∀ s, s.elemCount = 0 → Z.tstrDecode s = (none, s)
  anySkip : ∀ s (x : Item) max rest, x.WellFormed max → s.elemCount ≠ 0 → s.remaining = x.bytes ++ rest →
    (Z.anySkip s).1 = true ∧ s.Advances x.bytes.length (Z.anySkip s).2 ∧
      (Z.anySkip s).2.elemCount + 1 = s.elemCount ∧ (Z.anySkip s).2.indefinite = s.indefinite ∧
        (Z.anySkip s).2.backups = s.backups
  listStart : Enters Z.listStartDecode 4 1
  listEnd : Leaves Z.listEndDecode
  mapStart : Enters Z.mapStartDecode 5 2
  mapEnd : Leaves Z.mapEndDecode

end ZcborDecode

/-! ## Reading -/

/-- Some items of `n` bytes have been read. -/
structure ZcborState.Reads (s : ZcborState) (n items : ℕ) (s' : ZcborState) : Prop extends s.Advances n s' where
  elemCount : s'.elemCount + items = s.elemCount
  indefinite : s'.indefinite = s.indefinite
  backups : s'.backups = s.backups

section Read

variable {s s' s'' : ZcborState} {a rest : Bytes} {m n i j : ℕ}

/-- What is behind some bytes. -/
theorem ZcborState.Advances.remaining (h : s.Advances a.length s') (hs : s.remaining = a ++ rest) :
    s'.remaining = rest := by
  have hdrop := congrArg (List.drop a.length) hs
  rw [List.drop_left, ZcborState.remaining, List.drop_drop] at hdrop
  rw [ZcborState.remaining, h.memory, h.payloadEnd, h.payload, hdrop]

theorem ZcborState.Reads.refl (s : ZcborState) : s.Reads 0 0 s := ⟨⟨rfl, rfl, rfl, rfl⟩, rfl, rfl, rfl⟩

theorem ZcborState.Reads.trans (h : s.Reads m i s') (h' : s'.Reads n j s'') : s.Reads (m + n) (i + j) s'' where
  memory := h'.memory.trans h.memory
  payload := by rw [h'.payload, h.payload, Nat.add_assoc]
  payloadEnd := h'.payloadEnd.trans h.payloadEnd
  depth := h'.depth.trans h.depth
  elemCount := by
    have := h.elemCount
    have := h'.elemCount
    omega
  indefinite := h'.indefinite.trans h.indefinite
  backups := h'.backups.trans h.backups

variable {o : BinaryDecoderOptions} {max k : ℕ}

theorem run_decodeAll_cons {p : Decoding Bool} {ps : List (Decoding Bool)}
    (hp : run (binaryDecoder o) p s = (true, s')) :
    run (binaryDecoder o) (decodeAll (p :: ps)) s = run (binaryDecoder o) (decodeAll ps) s' := by
  rw [decodeAll, run_bind, hp]
  rfl

/-- Programs that each read some items. -/
theorem run_decodeAll {ι : Type} (is : List ι) {p : ι → Decoding Bool} (bytes : ι → Bytes) (items : ℕ)
    {backups : List ZcborBackup} {depth : ℕ}
    (hp : ∀ i ∈ is, ∀ (s : ZcborState) (rest : Bytes), s.backups = backups → s.depth = depth → items ≤ s.elemCount →
      s.remaining = bytes i ++ rest →
        ∃ s', run (binaryDecoder o) (p i) s = (true, s') ∧ s.Reads (bytes i).length items s')
    (hbackups : s.backups = backups) (hdepth : s.depth = depth) (hcount : is.length * items ≤ s.elemCount)
    (hs : s.remaining = is.flatMap bytes ++ rest) :
    ∃ s', run (binaryDecoder o) (decodeAll (is.map p)) s = (true, s') ∧
      s.Reads (is.flatMap bytes).length (is.length * items) s' := by
  induction is generalizing s with
  | nil =>
    refine ⟨s, rfl, ?_⟩
    rw [List.length_nil, Nat.zero_mul]
    exact .refl s
  | cons i is ih =>
    rw [List.length_cons, Nat.succ_mul] at hcount
    rw [List.flatMap_cons, List.append_assoc] at hs
    obtain ⟨s₁, hrun₁, h₁⟩ := hp i List.mem_cons_self s _ hbackups hdepth (by omega) hs
    have hcount₁ := h₁.elemCount
    obtain ⟨s₂, hrun₂, h₂⟩ := ih (fun j hj => hp j (List.mem_cons_of_mem i hj)) (s := s₁)
      (h₁.backups.trans hbackups) (h₁.depth.trans hdepth) (by omega) (h₁.toAdvances.remaining hs)
    refine ⟨s₂, ?_, ?_⟩
    · rw [List.map_cons, run_decodeAll_cons hrun₁, hrun₂]
    · have h := h₁.trans h₂
      rw [← List.length_append, ← List.flatMap_cons, Nat.add_comm items, ← Nat.succ_mul] at h
      exact h

/-- Between its start and its end, a container has its items to come. -/
theorem ZcborDecode.Enters.spec {f g : ZcborState → Bool × ZcborState} {major perEntry n : ℕ} {head content : Bytes}
    (hf : ZcborDecode.Enters f major perEntry) (hg : ZcborDecode.Leaves g) (hhead : IsHead head major n)
    (hcount : s.elemCount ≠ 0) (hdepth : s.backups.length + 2 < s.depth)
    (hs : s.remaining = head ++ (content ++ rest)) :
    ∃ s₁, f s = (true, s₁) ∧ s₁.backups.length = s.backups.length + 1 ∧ s₁.depth = s.depth ∧
      s₁.elemCount = perEntry * n ∧ s₁.remaining = content ++ rest ∧
        ∀ s₂, s₁.Reads content.length (perEntry * n) s₂ →
          ∃ s', g s₂ = (true, s') ∧ s.Reads (head ++ content).length 1 s' := by
  obtain ⟨hok, hadvances, hcount₁, hindefinite, b, hbackups, hb, hbindefinite⟩ := hf s head n _ hhead hcount hdepth hs
  refine ⟨(f s).2, Prod.ext hok rfl, by rw [hbackups, List.length_cons], hadvances.depth, hcount₁,
    hadvances.remaining hs, fun s₂ hreads => ?_⟩
  have hcount₂ : s₂.elemCount = 0 := by
    have := hreads.elemCount
    omega
  obtain ⟨hok', hadvances', hcount', hindefinite', hbackups'⟩ := hg s₂ b s.backups (hreads.backups.trans hbackups)
    (hreads.indefinite.trans hindefinite) hcount₂
  refine ⟨(g s₂).2, Prod.ext hok' rfl, ⟨?_, ?_, ?_, ?_⟩, ?_, hindefinite'.trans hbindefinite, hbackups'⟩
  · rw [hadvances'.memory, hreads.memory, hadvances.memory]
  · rw [hadvances'.payload, hreads.payload, hadvances.payload, List.length_append]
    omega
  · rw [hadvances'.payloadEnd, hreads.payloadEnd, hadvances.payloadEnd]
  · rw [hadvances'.depth, hreads.depth, hadvances.depth]
  · rw [hcount', hb]

/-- A container is entered, its items are read, and it is left. -/
theorem run_container {f g : ZcborState → Bool × ZcborState} {opened body closed : Decoding Bool}
    {major perEntry n : ℕ} {head content : Bytes}
    (hopened : ∀ s, run (binaryDecoder o) opened s = f s) (hclosed : ∀ s, run (binaryDecoder o) closed s = g s)
    (hf : ZcborDecode.Enters f major perEntry) (hg : ZcborDecode.Leaves g) (hhead : IsHead head major n)
    (hcount : s.elemCount ≠ 0) (hdepth : s.backups.length + 2 < s.depth)
    (hs : s.remaining = head ++ (content ++ rest))
    (hbody : ∀ s₁ : ZcborState, s₁.backups.length = s.backups.length + 1 → s₁.depth = s.depth →
      s₁.elemCount = perEntry * n → s₁.remaining = content ++ rest →
        ∃ s₂, run (binaryDecoder o) body s₁ = (true, s₂) ∧ s₁.Reads content.length (perEntry * n) s₂) :
    ∃ s', run (binaryDecoder o) (decodeAll [opened, body, closed]) s = (true, s') ∧
      s.Reads (head ++ content).length 1 s' := by
  obtain ⟨s₁, hstart, hbackups, hdepth₁, hcount₁, hs₁, hleave⟩ := hf.spec hg hhead hcount hdepth hs
  obtain ⟨s₂, hrun, hreads⟩ := hbody s₁ hbackups hdepth₁ hcount₁ hs₁
  obtain ⟨s', hstop, hreads'⟩ := hleave s₂ hreads
  refine ⟨s', ?_, hreads'⟩
  rw [run_decodeAll_cons ((hopened s).trans hstart), run_decodeAll_cons hrun,
    run_decodeAll_cons ((hclosed s₂).trans hstop)]
  rfl

/-- **An item that nests within the backups that are left is read.** -/
theorem run_readItem (hZ : o.zcbor.ItemLaws) {x : Item} (hx : x.WellFormed max) (hnest : x.NestsWithin k)
    (hdepth : s.backups.length + 2 + k ≤ s.depth) (hcount : s.elemCount ≠ 0) (hs : s.remaining = x.bytes ++ rest) :
    ∃ s', run (binaryDecoder o) (readItem x) s = (true, s') ∧ s.Reads x.bytes.length 1 s' := by
  induction x generalizing k s rest with
  | primitive bs =>
    obtain ⟨hok, hadvances, hcount', hindefinite, hbackups⟩ := hZ.anySkip s (.primitive bs) max rest hx hcount hs
    exact ⟨_, Prod.ext hok rfl, hadvances, hcount', hindefinite, hbackups⟩
  | list head size element ih =>
    obtain ⟨-, hhead, helement⟩ := hx
    obtain ⟨hk, hnest⟩ := hnest
    rw [Item.bytes, List.append_assoc] at hs
    refine run_container (fun _ => rfl) (fun _ => rfl) hZ.listStart
      hZ.listEnd hhead hcount (by omega) hs fun s₁ hbackups₁ hdepth₁ hcount₁ hs₁ => ?_
    have hall := run_decodeAll (o := o) (List.finRange size) (p := fun i => readItem (element i))
      (fun i => (element i).bytes) 1 (fun i _ s rest hb hd hc hs =>
        ih i (helement i) (hnest i) (by rw [hb, hd]; omega) (by omega) hs) rfl rfl
      (by rw [List.length_finRange, hcount₁]; omega) hs₁
    rw [List.length_finRange, Nat.mul_comm] at hall
    exact hall
  | map head size key value ihk ihv =>
    obtain ⟨-, hhead, hkey, hvalue⟩ := hx
    obtain ⟨hk, hnestk, hnestv⟩ := hnest
    rw [Item.bytes, List.append_assoc] at hs
    refine run_container (fun _ => rfl) (fun _ => rfl) hZ.mapStart
      hZ.mapEnd hhead hcount (by omega) hs fun s₁ hbackups₁ hdepth₁ hcount₁ hs₁ => ?_
    have hall := run_decodeAll (o := o) (List.finRange size)
      (p := fun i => decodeAll [readItem (key i), readItem (value i)])
      (fun i => (key i).bytes ++ (value i).bytes) 2 (fun i _ s rest hb hd hc hs => by
        rw [List.append_assoc] at hs
        obtain ⟨s₂, hrun₂, h₂⟩ := ihk i (hkey i) (hnestk i) (by rw [hb, hd]; omega) (by omega) hs
        have hcount₂ := h₂.elemCount
        obtain ⟨s₃, hrun₃, h₃⟩ := ihv i (hvalue i) (hnestv i) (by rw [h₂.backups, h₂.depth, hb, hd]; omega)
          (by omega) (h₂.toAdvances.remaining hs)
        refine ⟨s₃, ?_, ?_⟩
        · rw [run_decodeAll_cons hrun₂, run_decodeAll_cons hrun₃]
          rfl
        · rw [List.length_append]
          exact h₂.trans h₃) rfl rfl
      (by rw [List.length_finRange, hcount₁]; omega) hs₁
    rw [List.length_finRange, Nat.mul_comm] at hall
    exact hall

end Read

/-! ## The reference functions -/

namespace ZcborReference

theorem enters_start {major perEntry : ℕ} : ZcborDecode.Enters (start major perEntry) major perEntry := by
  intro s head n rest hhead hcount hdepth hs
  have hstart : start major perEntry s = (true, { s with
      payload := s.payload + head.length, payloadBak := s.payload, elemCount := perEntry * n, indefinite := false
      backups := ⟨s.payload + head.length, s.payload, s.elemCount - 1, s.indefinite⟩ :: s.backups }) := by
    rw [start, enter_head hhead hcount hs]
    dsimp only
    rw [if_pos ⟨rfl, by omega⟩]
    rfl
  rw [hstart]
  exact ⟨rfl, ⟨rfl, rfl, rfl, rfl⟩, rfl, rfl, _, rfl, Nat.sub_add_cancel (Nat.one_le_iff_ne_zero.2 hcount), rfl⟩

theorem leaves_stop : ZcborDecode.Leaves stop := by
  intro s b backups hbackups hindefinite hcount
  have hstop : stop s = (true, { s with elemCount := b.elemCount, indefinite := b.indefinite, backups := backups }) := by
    rw [stop, hbackups]
    dsimp only
    rw [hindefinite, if_neg Bool.false_ne_true, if_pos hcount]
  rw [hstop]
  exact ⟨rfl, ⟨rfl, rfl, rfl, rfl⟩, rfl, rfl, rfl⟩

end ZcborReference

open ZcborReference in
theorem zcborReference_itemLaws : zcborReference.ItemLaws where
  uint32 s n rest hn hcount hs := by
    have hscalar : zcborReference.uint32Decode s = (some n, { s with
        payload := s.payload + (writeHead 0 n).length, payloadBak := s.payload, elemCount := s.elemCount - 1 }) := by
      change scalar (uint 32) s = _
      rw [scalar, enter_head (isHead_writeHead (by omega) (by omega)) hcount hs]
      simp only [uint, if_pos hn]
    rw [hscalar]
    exact ⟨rfl, ⟨rfl, rfl, rfl, rfl⟩, Nat.sub_add_cancel (Nat.one_le_iff_ne_zero.2 hcount), rfl, rfl⟩
  uint32_end s hcount := by
    change scalar (uint 32) s = _
    rw [scalar, enter_of_elemCount hcount]
  tstr_end s hcount := by
    change string 3 s = _
    rw [string, enter_of_elemCount hcount]
  anySkip := zcborReference_skipLaws.anySkip
  listStart := enters_start
  listEnd := leaves_stop
  mapStart := enters_start
  mapEnd := leaves_stop

/-- A container is entered as long as a backup is left. -/
def limited (f : ZcborState → Bool × ZcborState) (s : ZcborState) : Bool × ZcborState :=
  if s.backups.length + 2 < s.depth then f s else (false, s)

/-- The reference functions with as many backups as zcbor has: two of the states are none. -/
def zcborStates : ZcborDecode :=
  { zcborReference with
    listStartDecode := limited zcborReference.listStartDecode
    mapStartDecode := limited zcborReference.mapStartDecode }

theorem enters_limited {f : ZcborState → Bool × ZcborState} {major perEntry : ℕ}
    (hf : ZcborDecode.Enters f major perEntry) : ZcborDecode.Enters (limited f) major perEntry := by
  intro s head n rest hhead hcount hdepth hs
  rw [limited, if_pos hdepth]
  exact hf s head n rest hhead hcount hdepth hs

theorem zcborStates_itemLaws : zcborStates.ItemLaws where
  uint32 := zcborReference_itemLaws.uint32
  uint32_end := zcborReference_itemLaws.uint32_end
  tstr_end := zcborReference_itemLaws.tstr_end
  anySkip := zcborReference_itemLaws.anySkip
  listStart := enters_limited zcborReference_itemLaws.listStart
  listEnd := zcborReference_itemLaws.listEnd
  mapStart := enters_limited zcborReference_itemLaws.mapStart
  mapEnd := zcborReference_itemLaws.mapEnd

end ThingSet
