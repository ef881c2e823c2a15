import ThingSet.Evolution.Reading
import ThingSet.Records

/-!
# A value of one version read by another

* `SchemaType.RoundTrips`: the codecs of the leaves of a value round-trip, and its containers nest within a depth.
* `encode_decode`: the value of a sender is merged into the value of a receiver of a related type.
-/

namespace ThingSet

open Interaction Prog Cbor

/-- A value round-trips: the encoder appends an item, and the decoder reads the item as the value. -/
def LeafCodec.RoundTrips (E : ZcborEncode) (o : BinaryDecoderOptions) (k : ℕ) (c : LeafCodec) (v : c.Value) : Prop :=
  ∃ x : Item, x.IsWhole ∧ Puts E k (c.encode v) x.bytes 1 ∧ ∀ old, ReadsInto o k x (c.decode old) (· = v)

/-- The leaves of a value round-trip within `k` containers: the elements of an array, and the record members of a
structure. -/
def SchemaType.RoundTrips (E : ZcborEncode) (o : BinaryDecoderOptions) : ℕ → (t : SchemaType) → t.Value → Prop
  | k, leaf c, v => c.RoundTrips E o k v
  | k, array element size _, f => 0 < k ∧ ∀ i < size, element.RoundTrips E o (k - 1) (f i)
  | k, record _ keys field, r => 0 < k ∧ ∀ i ∈ keys.members, (field i).RoundTrips E o (k - 1) (r i)

variable {E : ZcborEncode} {o : BinaryDecoderOptions} {k : ℕ}

/-! ## Arrays -/

section Array

variable {T : Type} {size : ℕ} {x : ℕ → Item}

/-- The item of an array. -/
def listOf (size : ℕ) (x : ℕ → Item) : Item := .list (writeHead 4 size) size fun i => x i

theorem bytes_listOf : (listOf size x).bytes = writeHead 4 size ++ (List.range' 0 size).flatMap fun i => (x i).bytes := by
  rw [listOf, Item.bytes, ← List.range_eq_range', ← List.map_coe_finRange_eq_range, List.flatMap_map]

/-- A list is read into an array of its size. -/
theorem readsInto_array {elem : T → Decoding (Decoded T)} {goal : ℕ → T → T → Prop} {f : ℕ → T}
    {result : (ℕ → T) → Prop} (hZ : o.zcbor.ItemLaws) (hsize : size < 2 ^ 32) (hk : 0 < k)
    (hread : ∀ i < size, ∀ old, ReadsInto o (k - 1) (x i) (elem old) (goal i old))
    (hresult : ∀ g, (∀ i < size, goal i (f i) (g i)) → (∀ i, size ≤ i → g i = f i) → result g) :
    ReadsInto o k (listOf size x) (do
      let (ok, a) ← decodeArray elem size ⟨f, []⟩
      pure ⟨ok, some a.value⟩) result := by
  intro s rest hcount hdepth hs
  rw [bytes_listOf, List.append_assoc] at hs
  obtain ⟨s₁, hstart, hbackups₁, hdepth₁, hcount₁, hs₁, hleave⟩ := ZcborDecode.Enters.spec hZ.listStart hZ.listEnd
    (isHead_writeHead (by decide) (Nat.lt_of_lt_of_le hsize (by decide))) hcount (by omega) hs
  obtain ⟨a, s₂, hrun, hin, hout, hreads⟩ := run_decodeElements_items size 0 ⟨f, []⟩
    (fun i _ hi => hread i (by omega)) (by rw [hbackups₁, hdepth₁]; omega) (by omega) hs₁
  rw [Nat.one_mul] at hleave
  obtain ⟨s', hstop, hreads'⟩ := hleave s₂ hreads
  have hstart' : run (binaryDecoder o) (decode .listStart) s = (true, s₁) := hstart
  have hensure : run (binaryDecoder o) (decode (.ensureListSize size)) s₁ = (some size, s₁) := by
    change BinaryDecoder.ensureListSize o size s₁ = _
    rw [BinaryDecoder.ensureListSize, if_neg (by omega), hcount₁, Nat.one_mul]
  have hstop' : run (binaryDecoder o) (decode .listEnd) s₂ = (true, s') := hstop
  refine ⟨a.value, s', ?_, hresult a.value (fun i hi => hin i (Nat.zero_le i) (by omega)) fun i hi =>
    hout i (.inr (by omega)), ?_⟩
  · rw [run_bind, decodeArray, run_bind, hstart']
    dsimp only
    rw [Bool.not_true, if_neg Bool.false_ne_true, run_bind, hensure]
    dsimp only
    rw [run_bind, hrun]
    dsimp only
    rw [Bool.not_true, if_neg Bool.false_ne_true, run_bind, hstop']
    rfl
  · rw [bytes_listOf]
    exact hreads'

end Array

/-! ## Structures -/

namespace MemberKeys

variable {size : ℕ} (keys : MemberKeys size)

theorem mem_members {i : Fin size} : i ∈ keys.members ↔ (keys.key i).isSome := by
  simp [members]

theorem nodup_members : keys.members.Nodup := (List.nodup_finRange size).filter _

variable {keys}

theorem mem_members_of_sameId {i : Fin size} {q : Option MemberKey} (h : SameId (keys.key i) q) : i ∈ keys.members := by
  obtain ⟨a, ha, -⟩ := h
  rw [mem_members, ha]
  rfl

theorem id_lt (i : Fin size) : keys.id i < 2 ^ 16 := by
  unfold id
  cases keys.key i with
  | none => exact Nat.two_pow_pos 16
  | some p => exact p.id.toNat_lt

/-- There are no more record members than ids. -/
theorem length_members_le : keys.members.length ≤ 2 ^ 16 := by
  have hnodup : (keys.members.map keys.id).Nodup := by
    refine List.Nodup.map_on (fun i hi j hj heq => keys.unique i j ?_) keys.nodup_members
    obtain ⟨p, hp⟩ := Option.isSome_iff_exists.1 (keys.mem_members.1 hi)
    obtain ⟨q, hq⟩ := Option.isSome_iff_exists.1 (keys.mem_members.1 hj)
    refine ⟨p, hp, q, hq, UInt16.toNat_inj.1 ?_⟩
    rw [id, id, hp, hq] at heq
    exact heq
  have hsubset : keys.members.map keys.id ⊆ List.range (2 ^ 16) := by
    intro n hn
    obtain ⟨i, -, rfl⟩ := List.mem_map.1 hn
    exact List.mem_range.2 (id_lt i)
  have hle := (List.subperm_of_subset hnodup hsubset).length_le
  rwa [List.length_map, List.length_range] at hle

end MemberKeys

section Structure

variable {m n : ℕ} {keys : MemberKeys m} {keys' : MemberKeys n} {x : Fin m → Item}

/-- The item of a structure. -/
def mapOf (keys : MemberKeys m) (x : Fin m → Item) : Item :=
  .map (writeHead 5 keys.members.length) keys.members.length (fun j => .primitive (writeInt (keys.id (keys.members.get j))))
    fun j => x (keys.members.get j)

theorem bytes_mapOf : (mapOf keys x).bytes =
    writeHead 5 keys.members.length ++ keys.members.flatMap fun i => writeInt (keys.id i) ++ (x i).bytes := by
  have hmembers := List.flatMap_map keys.members.get (fun i => writeInt (keys.id i) ++ (x i).bytes)
    (List.finRange keys.members.length)
  rw [List.map_get_finRange] at hmembers
  rw [hmembers]
  rfl

theorem isWhole_mapOf (hx : ∀ i ∈ keys.members, (x i).IsWhole) : (mapOf keys x).IsWhole := by
  have hlen := keys.length_members_le
  refine Item.isWhole_map (by omega) (fun j => Item.isWhole_number ?_) fun j => hx _ (List.get_mem _ j)
  exact Nat.lt_of_lt_of_le (MemberKeys.id_lt _) (by decide)

/-- A structure is appended as the map of its record members. -/
theorem puts_encodeStructure {value : Fin m → Encoding Bool} (hE : E.ValueLaws) (hk : 0 < k)
    (h : ∀ i ∈ keys.members, Puts E (k - 1) (value i) (x i).bytes 1) :
    Puts E k (encodeStructure keys value) (mapOf keys x).bytes 1 := by
  intro s hdepth hroom
  have hlen := keys.length_members_le
  rw [bytes_mapOf] at hroom ⊢
  obtain ⟨s₁, hstart, hdepth₁, hroom₁, hstop⟩ := hE.map.spec (by omega) hk hdepth hroom
  have hmembers : run (binaryEncoder E) (encodeMembers keys.id keys.name value keys.members) s₁ = _ :=
    run_encodeMembers keys.members hE.toIntegerLaws (fun i _ => Nat.lt_of_lt_of_le (keys.id_lt i) (by decide)) h hdepth₁
      hroom₁
  have hstart' : run (binaryEncoder E) (encode (.mapStart (some keys.members.length))) s = (true, s₁) := hstart
  rw [encodeStructure, encodeFields, run_bind, hstart']
  dsimp only
  rw [Bool.not_true, if_neg Bool.false_ne_true, run_bind, hmembers]
  exact hstop

/-- A map is read into a structure. -/
theorem readsInto_structure {V : Fin n → Type} {member : (j : Fin n) → V j → Decoding (Decoded (V j))}
    {goal : Fin m → (j : Fin n) → V j → V j → Prop} {r : (j : Fin n) → V j} {result : ((j : Fin n) → V j) → Prop}
    (hZ : o.zcbor.ItemLaws) (hk : 0 < k) (hx : ∀ i ∈ keys.members, (x i).IsWhole)
    (hread : ∀ i ∈ keys.members, ∀ j, SameId (keys.key i) (keys'.key j) →
      ∀ old, ReadsInto o (k - 1) (x i) (member j old) (goal i j old))
    (hresult : ∀ r', (∀ i j, SameId (keys.key i) (keys'.key j) → goal i j (r j) (r' j)) →
      (∀ j, (∀ i, ¬ SameId (keys.key i) (keys'.key j)) → r' j = r j) → result r') :
    ReadsInto o k (mapOf keys x) (do
      let (ok, r) ← decodeStructure keys' member r
      pure ⟨ok, some r⟩) result := by
  intro s rest hcount hdepth hs
  have hlen := keys.length_members_le
  rw [bytes_mapOf, List.append_assoc] at hs
  obtain ⟨s₁, hstart, hbackups₁, hdepth₁, hcount₁, hs₁, hleave⟩ := ZcborDecode.Enters.spec hZ.mapStart hZ.mapEnd
    (isHead_writeHead (by decide) (by omega)) hcount (by omega) hs
  obtain ⟨r', s₂, hrun, hreads, hr'⟩ := run_fields (k := k - 1) (r := r) hZ keys.members keys.nodup_members
    (fun i => keys.mem_members.1) hx hread {} rfl sizeMax (by rw [sizeMax]; omega)
    (by rw [hbackups₁, hdepth₁]; omega) hcount₁ hs₁
  obtain ⟨s', hstop, hreads'⟩ := hleave s₂ hreads
  have hstart' : run (binaryDecoder o) (decode .mapStart) s = (true, s₁) := hstart
  refine ⟨r', s', ?_, hresult r' (fun i j hsame => (hr' j).1 i (MemberKeys.mem_members_of_sameId hsame) hsame)
    fun j hnone => (hr' j).2 fun i _ => hnone i, ?_⟩
  · rw [run_bind, decodeStructure, decodeMap, run_bind, hstart']
    dsimp only
    rw [if_pos rfl, hrun, hstop]
    rfl
  · rw [bytes_mapOf]
    exact hreads'

end Structure

/-! ## Values -/

/-- A value is encoded as an item, which every related type reads. -/
theorem exists_item (hE : E.ValueLaws) (hZ : o.zcbor.ItemLaws) (a : SchemaType) (v : a.Value)
    (hv : a.RoundTrips E o k v) :
    ∃ x : Item, x.IsWhole ∧ Puts E k (a.encode v) x.bytes 1 ∧
      ∀ b, Related a b → ∀ old : b.Value, ReadsInto o k x (b.decode old) (Merged a b v old) := by
  induction a generalizing k with
  | leaf c =>
    obtain ⟨x, hx, hputs, hreads⟩ := hv
    refine ⟨x, hx, hputs, fun b hb old => ?_⟩
    cases hb
    intro s rest hcount hdepth hs
    obtain ⟨new, s', hrun, rfl, hread⟩ := hreads old s rest hcount hdepth hs
    exact ⟨new, s', hrun, .leaf c new old, hread⟩
  | array element size fits ih =>
    obtain ⟨hk, hv⟩ := hv
    choose! x hx hputs hreads using fun i hi => ih (v i) (hv i hi)
    refine ⟨listOf size x, Item.isWhole_list (Nat.lt_of_lt_of_le fits (by decide)) fun i => hx i i.isLt, ?_,
      fun b hb old => ?_⟩
    · exact puts_encodeArray hE fits hk fun i => hputs i i.isLt
    · cases hb with
      | array _ hab =>
        exact readsInto_array hZ fits hk (fun i hi => hreads i hi _ hab) fun g hin hout => .array fits hin hout
  | record size keys field ih =>
    obtain ⟨hk, hv⟩ := hv
    choose! x hx hputs hreads using fun i hi => ih i (v i) (hv i hi)
    refine ⟨mapOf keys x, isWhole_mapOf hx, puts_encodeStructure hE hk hputs, fun b hb old => ?_⟩
    cases hb with
    | record hfields =>
      exact readsInto_structure hZ hk hx
        (fun i hi j hsame => hreads i hi _ (hfields i j hsame)) fun r' hsame hnone => .record hsame hnone

/-- **A receiver takes over the members that it has in common with the sender, and keeps the rest.** -/
theorem encode_decode (hE : E.ValueLaws) (hZ : o.zcbor.ItemLaws) {a b : SchemaType} (hab : Related a b) (v : a.Value)
    (hv : a.RoundTrips E o k v) :
    ∃ bytes : Bytes,
      (∀ s : ZcborEncodeState, s.backups.length + 2 + k ≤ s.depth → bytes.length ≤ s.room →
        run (binaryEncoder E) (a.encode v) s = (true, s.append bytes)) ∧
      ∀ (old : b.Value) (s : ZcborState) (rest : Bytes), s.elemCount ≠ 0 → s.backups.length + 2 + k ≤ s.depth →
        s.remaining = bytes ++ rest →
          ∃ new s', run (binaryDecoder o) (b.decode old) s = (⟨true, some new⟩, s') ∧ Merged a b v old new ∧
            s'.remaining = rest := by
  obtain ⟨x, -, hputs, hreads⟩ := exists_item hE hZ a v hv
  refine ⟨x.bytes, hputs, fun old s rest hcount hdepth hs => ?_⟩
  obtain ⟨new, s', hrun, hmerged, hread⟩ := hreads b hab old s rest hcount hdepth hs
  exact ⟨new, s', hrun, hmerged, hread.toAdvances.remaining hs⟩

/-! ### An array of records of which one member is dropped -/

/-- `uint32_t`. -/
def uint32Codec : LeafCodec where
  Value := ℕ
  encode n := encode (.uint .w32 n)
  decode := decodeScalar (.uint .w32) rfl

theorem uint32Codec_roundTrips (hE : E.IntegerLaws) (hZ : o.zcbor.ItemLaws) {n : ℕ} (hn : n < 2 ^ 32) :
    uint32Codec.RoundTrips E o k n := by
  refine ⟨.primitive (writeInt n), Item.isWhole_number (by omega), fun s _ hroom => hE.uint32 n s hn hroom, ?_⟩
  intro old s rest hcount _ hs
  obtain ⟨hvalue, hadvances, hcount', hindefinite, hbackups⟩ := hZ.uint32 s n rest hn hcount hs
  have hrun : run (binaryDecoder o) (decode (.uint .w32)) s = (some n, (o.zcbor.uint32Decode s).2) := Prod.ext hvalue rfl
  refine ⟨n, _, ?_, rfl, hadvances, hcount', hindefinite, hbackups⟩
  change run (binaryDecoder o) (decodeScalar (.uint .w32) rfl old) s = _
  unfold decodeScalar
  rw [run_bind, hrun]
  rfl

/-- The fields `voltage`, `current` and `error`. -/
def simpleKeys : MemberKeys 3 where
  key := ![some ⟨0x601, "voltage".toUTF8.toList⟩, some ⟨0x602, "current".toUTF8.toList⟩,
    some ⟨0x603, "error".toUTF8.toList⟩]
  unique := by decide

/-- The fields `error`, a plain one, and `voltage`. -/
def simplerKeys : MemberKeys 3 where
  key := ![some ⟨0x603, "error".toUTF8.toList⟩, none, some ⟨0x601, "voltage".toUTF8.toList⟩]
  unique := by decide

def simplesKeys : MemberKeys 1 where
  key := ![some ⟨0x610, "simples".toUTF8.toList⟩]
  unique := by decide

/-- A structure with an array of a structure. -/
def simplesOf (keys : MemberKeys 3) : SchemaType :=
  .record 1 simplesKeys fun _ => .array (.record 3 keys fun _ => .leaf uint32Codec) 1 (by decide)

theorem related_simplesOf (keys keys' : MemberKeys 3) : Related (simplesOf keys) (simplesOf keys') :=
  .record fun _ _ _ => .array _ (.record fun _ _ _ => .leaf _)

/-- 24 volts, 10 amperes and the error 1. -/
def simples : (simplesOf simpleKeys).Value := fun _ _ => (![24, 10, 1] : Fin 3 → ℕ)

theorem simples_roundTrips (hE : E.IntegerLaws) (hZ : o.zcbor.ItemLaws) :
    (simplesOf simpleKeys).RoundTrips E o 3 simples := by
  have hlt : ∀ i : Fin 3, (![24, 10, 1] : Fin 3 → ℕ) i < 2 ^ 32 := by decide
  exact ⟨by decide, fun _ _ => ⟨by decide, fun _ _ => ⟨by decide, fun i _ => uint32Codec_roundTrips hE hZ (hlt i)⟩⟩⟩

theorem merged_leaf {c : LeafCodec} {v old new : c.Value} (h : Merged (.leaf c) (.leaf c) v old new) : new = v := by
  cases h
  rfl

/-- The error and the voltage are taken over, and the plain field is kept. -/
theorem simples_merged {old new : (simplesOf simplerKeys).Value}
    (h : Merged (simplesOf simpleKeys) (simplesOf simplerKeys) simples old new) :
    new 0 0 0 = (1 : ℕ) ∧ new 0 0 1 = old 0 0 1 ∧ new 0 0 2 = (24 : ℕ) := by
  cases h with
  | record hsimples _ =>
    have h := hsimples 0 0 (by decide)
    cases h with
    | array _ hin _ =>
      have h := hin 0 (by decide)
      cases h with
      | record hfields hother =>
        exact ⟨merged_leaf (hfields 2 0 (by decide)), hother 1 (by decide), merged_leaf (hfields 0 2 (by decide))⟩

theorem simples_decode :
    ∃ bytes : Bytes,
      (∀ s : ZcborEncodeState, s.backups.length + 2 + 3 ≤ s.depth → bytes.length ≤ s.room →
        run (binaryEncoder zcborEncodeStates) ((simplesOf simpleKeys).encode simples) s = (true, s.append bytes)) ∧
      ∀ (old : (simplesOf simplerKeys).Value) (s : ZcborState) (rest : Bytes), s.elemCount ≠ 0 →
        s.backups.length + 2 + 3 ≤ s.depth → s.remaining = bytes ++ rest →
          ∃ new s', run (binaryDecoder ⟨zcborStates, false, false⟩) ((simplesOf simplerKeys).decode old) s =
              (⟨true, some new⟩, s') ∧
            new 0 0 0 = (1 : ℕ) ∧ new 0 0 1 = old 0 0 1 ∧ new 0 0 2 = (24 : ℕ) := by
  obtain ⟨bytes, hencode, hdecode⟩ := encode_decode zcborEncodeStates_fullLaws.toValueLaws zcborStates_itemLaws
    (related_simplesOf simpleKeys simplerKeys) simples
    (simples_roundTrips (o := ⟨zcborStates, false, false⟩) zcborEncodeStates_fullLaws.toIntegerLaws zcborStates_itemLaws)
  refine ⟨bytes, hencode, fun old s rest hcount hdepth hs => ?_⟩
  obtain ⟨new, s', hrun, hmerged, -⟩ := hdecode old s rest hcount hdepth hs
  exact ⟨new, s', hrun, simples_merged hmerged⟩

end ThingSet
