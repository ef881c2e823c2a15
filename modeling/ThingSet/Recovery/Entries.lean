import ThingSet.Recovery.Elements

/-!
# Entries that cannot be decoded

* `entriesExact_iff`: the entries of a map are decoded exactly when each of them recovers, with `Spec` for the members.
* `TargetType.spec`: `Spec` holds of every type.
* `entriesDecoded_iff`: a map is decoded into a record exactly when its entries recover.
-/

namespace ThingSet

open Interaction Prog ZcborDecode

variable {o : BinaryDecoderOptions} {s s' v : ZcborState} {k : MapKey} {n m : ℕ}

/-! ## Keys -/

theorem keyAt_place (hZ : o.zcbor.PlaceLaws) (hs : s.place = s'.place) (hk : KeyAt (binaryDecoder o) s k v) :
    ∃ v', KeyAt (binaryDecoder o) s' k v' ∧ v.place = v'.place := by
  obtain ⟨hid, hplace⟩ := hZ.uint32.same s s' hs
  cases k with
  | id i =>
    have hk : o.zcbor.uint32Decode s = (some i, v) := hk
    rw [hk] at hid hplace
    exact ⟨(o.zcbor.uint32Decode s').2, Prod.ext hid.symm rfl, hplace⟩
  | name bs =>
    obtain ⟨hnone, hname⟩ := hk
    have hname : o.zcbor.tstrDecode (o.zcbor.uint32Decode s).2 = (some bs, v) := hname
    obtain ⟨hname', hplace'⟩ := hZ.tstr.same _ _ hplace
    rw [hname] at hname' hplace'
    exact ⟨(o.zcbor.tstrDecode (o.zcbor.uint32Decode s').2).2,
      ⟨hid.symm.trans hnone, Prod.ext hname'.symm rfl⟩, hplace'⟩

/-- The value is behind its key. -/
theorem behind_of_keyAt (hZ : o.zcbor.PlaceLaws) (hk : KeyAt (binaryDecoder o) s k v) : o.zcbor.Behind s v := by
  cases k with
  | id i =>
    have hk : o.zcbor.uint32Decode s = (some i, v) := hk
    have hbehind := hZ.uint32.some s
    rw [hk] at hbehind
    exact hbehind rfl
  | name bs =>
    obtain ⟨hnone, hname⟩ := hk
    have hname : o.zcbor.tstrDecode (o.zcbor.uint32Decode s).2 = (some bs, v) := hname
    have hbehind := hZ.tstr.some (o.zcbor.uint32Decode s).2
    rw [hname] at hbehind
    exact hZ.behind_place (hbehind rfl) (hZ.uint32.none s hnone)

/-- Where a map ends no key is decoded, and it is left. -/
theorem run_decodeKey_of_mapEnd (hZ : o.zcbor.PlaceLaws) (hend : (o.zcbor.mapEndDecode s).1 = true) (key : Key) :
    (run (binaryDecoder o) (decodeKey key) s).1.1 = false ∧
      (run (binaryDecoder o) (decodeKey key) s).2.place = s.place := by
  obtain ⟨hid, hname⟩ := hZ.map_end s hend
  have hplace := hZ.uint32.none s hid
  have hname' := (hZ.tstr.same _ _ hplace).1.trans hname
  have hrun : run (binaryDecoder o) (decode (.uint .w32)) s = (none, (o.zcbor.uint32Decode s).2) := Prod.ext hid rfl
  have hrun' : run (binaryDecoder o) (decode .string) (o.zcbor.uint32Decode s).2 =
      (none, (o.zcbor.tstrDecode (o.zcbor.uint32Decode s).2).2) := Prod.ext hname' rfl
  rw [decodeKey, run_bind, hrun]
  dsimp only
  rw [run_bind, hrun']
  exact ⟨rfl, (hZ.tstr.none _ hname').trans hplace⟩

section Entries

variable {size : ℕ} {id : Fin size → ℕ} {name : Fin size → Bytes} {V : Fin size → Type}
  {member : (i : Fin size) → V i → Decoding (Decoded (V i))} {exact : (i : Fin size) → V i → ZcborState → Prop}
  {accepts refuses recovers : Fin size → ZcborState → Prop} {key : Key} {r : (i : Fin size) → V i}
  {c : Key × ((i : Fin size) → V i)}

/-! ## Rounds -/

/-- The callback of a key: the value is decoded into the member that the variables select, and skipped when they
select none. -/
theorem run_decodeMember (hkey : key.id.isSome ∨ key.name.isSome) (s : ZcborState) :
    let a := attempt o member r (selected id name key) s
    run (binaryDecoder o) (decodeMember id name member r key) s =
      if (selected id name key).isSome then ((true, a.1), a.2)
      else (((o.zcbor.anySkip s).1, r), (o.zcbor.anySkip s).2) := by
  have hswitch (isKey : Fin size → Bool) : run (binaryDecoder o) (switchDecode member isKey r) s =
      let a := attempt o member r ((List.finRange size).find? isKey) s
      ((((List.finRange size).find? isKey).isSome, a.1), a.2) := by
    unfold switchDecode attempt
    cases (List.finRange size).find? isKey with
    | none => rfl
    | some i =>
      dsimp only
      rw [run_bind]
      rfl
  have hrun (isKey : Fin size → Bool) : run (binaryDecoder o) (do
      let x ← switchDecode member isKey r
      if x.1 then pure (true, x.2)
      else
        let skipped ← decode .skip
        pure (skipped, x.2)) s =
      let a := attempt o member r ((List.finRange size).find? isKey) s
      if ((List.finRange size).find? isKey).isSome then ((true, a.1), a.2)
      else (((o.zcbor.anySkip s).1, r), (o.zcbor.anySkip s).2) := by
    rw [run_bind, hswitch]
    cases (List.finRange size).find? isKey with
    | none => rfl
    | some i => rfl
  rcases key with ⟨_ | i, _ | bs⟩
  · simp at hkey
  · exact hrun fun i => name i = bs
  · exact hrun fun j => id j = i
  · exact hrun fun j => id j = i

/-- A round at a key. -/
theorem run_round (hk : KeyAt (binaryDecoder o) s k v) (key : Key) (r : (i : Fin size) → V i) :
    let i := selected id name (key.merge k.key)
    let a := attempt o member r i v
    run (binaryDecoder o) (decodeMapRound (decodeMember id name member) (key, r)) s =
      if i.isSome then (.inl (key.merge k.key, a.1), a.2)
      else (if (o.zcbor.anySkip v).1 then .inl (key.merge k.key, r) else .inr (false, r), (o.zcbor.anySkip v).2) := by
  intro i a
  have hkey := run_decodeKey_of_keyAt hk
  have hrun := @run_decodeMember o _ id name _ member _ r (@isSome_merge _ _ key _ _ _ hkey) v
  rw [decodeMapRound, run_bind, run_decodeKey, hkey]
  dsimp only at hrun ⊢
  rw [if_pos rfl, run_bind, hrun]
  change _ = if i.isSome then (Sum.inl (key.merge k.key, a.1), a.2) else _
  have hi : selected id name (key.merge k.key) = i := rfl
  have ha : attempt o member r i v = a := rfl
  rw [hi, ha]
  cases i.isSome with
  | true => rfl
  | false =>
    rw [if_neg Bool.false_ne_true, if_neg Bool.false_ne_true]
    dsimp only
    cases (o.zcbor.anySkip v).1 <;> rfl

/-! ## Entries -/

theorem entriesRecover_place (hZ : o.zcbor.PlaceLaws)
    (hplaces : ∀ i s s', s.place = s'.place → recovers i s → recovers i s') (hs : s.place = s'.place)
    (hentries : EntriesRecover o id name recovers n key s) : EntriesRecover o id name recovers n key s' := by
  induction n generalizing key s s' with
  | zero => exact (hZ.map.stop_same s s' hs).1.symm.trans hentries
  | succ n ih =>
    obtain ⟨k, v, hk, hselected, hrecovers, hskip, hentries⟩ := hentries
    obtain ⟨v', hk', hv⟩ := keyAt_place hZ hs hk
    obtain ⟨hok, hplace⟩ := hZ.skip_same v v' hv
    exact ⟨k, v', hk', hselected, fun i hi => hplaces i v v' hv (hrecovers i hi), hok.symm.trans hskip,
      ih hplace hentries⟩

theorem recovers_place (h : ∀ i, Spec o (member i) (exact i) (accepts i) (refuses i)) (i : Fin size)
    (s s' : ZcborState) (hs : s.place = s'.place) (hrecovers : accepts i s ∨ refuses i s) :
    accepts i s' ∨ refuses i s' :=
  hrecovers.imp ((h i).accepts_place s s' hs) ((h i).refuses_place s s' hs)

/-- **Entries that recover are decoded exactly.** -/
theorem entriesExact_of_recover (hZ : o.zcbor.PlaceLaws)
    (h : ∀ i, Spec o (member i) (exact i) (accepts i) (refuses i))
    (hentries : EntriesRecover o id name (fun i s => accepts i s ∨ refuses i s) n key s) (r : (i : Fin size) → V i) :
    EntriesExact o id name member exact n (key, r) s := by
  induction n generalizing key s r with
  | zero => exact hentries
  | succ n ih =>
    obtain ⟨k, v, hk, hselected, hrecovers, hskip, hentries⟩ := hentries
    have hround := @run_round _ _ _ _ _ id name _ member hk key r
    rw [hselected] at hround
    -- behind the value are the other entries
    have hgo {r' : (i : Fin size) → V i} {s' : ZcborState}
        (hrun : run (binaryDecoder o) (decodeMapRound (decodeMember id name member) (key, r)) s =
          (.inl (key.merge k.key, r'), s'))
        (hr' : r' = (attempt o member r (selected id name k.key) v).1) (hbehind : o.zcbor.Behind v s')
        (hexact : ∀ i, selected id name k.key = some i → exact i (r i) v) :
        EntriesExact o id name member exact (n + 1) (key, r) s :=
      ⟨k, v, hk, hselected, hexact, _, s', hrun, hr', hbehind,
        ih (entriesRecover_place hZ (recovers_place h) hbehind.2.symm hentries) r'⟩
    cases hi : selected id name k.key with
    | none =>
      rw [hi] at hround hgo
      dsimp only [attempt] at hround hgo
      rw [Option.isSome_none, if_neg Bool.false_ne_true, hskip, if_pos rfl] at hround
      exact hgo hround rfl ⟨hskip, rfl⟩ (fun i hi => absurd hi.symm (Option.some_ne_none i))
    | some i =>
      rw [hi] at hround hgo
      have hexact : exact i (r i) v ∧ o.zcbor.Behind v (run (binaryDecoder o) (member i (r i)) v).2 := by
        rcases hrecovers i hi with haccepts | hrefuses
        · obtain ⟨hexact, -, hbehind⟩ := (h i).of_accepts (r i) v haccepts
          exact ⟨hexact, hbehind⟩
        · exact (h i).of_refuses (r i) v hrefuses
      exact hgo hround rfl hexact.2 (fun j hj => Option.some.inj hj ▸ hexact.1)

/-- **Entries that are decoded exactly recover.** -/
theorem recover_of_entriesExact (hZ : o.zcbor.PlaceLaws)
    (h : ∀ i, Spec o (member i) (exact i) (accepts i) (refuses i))
    (hentries : EntriesExact o id name member exact n (key, r) s) :
    EntriesRecover o id name (fun i s => accepts i s ∨ refuses i s) n key s := by
  induction n generalizing key s r with
  | zero => exact hentries
  | succ n ih =>
    obtain ⟨k, v, hk, hselected, hexact, ⟨key', r'⟩, s', hrun, -, hbehind, hentries⟩ := hentries
    have hround := @run_round _ _ _ _ _ id name _ member hk key r
    rw [hselected, hrun] at hround
    have hkey : key' = key.merge k.key := by
      dsimp only at hround
      split_ifs at hround
      · exact congrArg Prod.fst (Sum.inl.inj (congrArg Prod.fst hround))
      · exact congrArg Prod.fst (Sum.inl.inj (congrArg Prod.fst hround))
      · cases congrArg Prod.fst hround
    subst hkey
    refine ⟨k, v, hk, hselected, fun i hi => ?_, hbehind.1,
      entriesRecover_place hZ (recovers_place h) hbehind.2 (ih hentries)⟩
    rw [hi] at hround
    have hs' : s' = (run (binaryDecoder o) (member i (r i)) v).2 := congrArg Prod.snd hround
    exact ((h i).behind_iff hZ (hexact i hi)).1 (hs' ▸ hbehind)

/-- The loop of entries that are decoded exactly. -/
theorem run_entries (hZ : o.zcbor.PlaceLaws) (hentries : EntriesExact o id name member exact n c s) (hm : n < m) :
    (run (binaryDecoder o) (decodeMapLoop (decodeMember id name member) m c.1 c.2) s).1.1 = true ∧
      ∃ s', o.zcbor.Passes (2 * n) s s' ∧ (o.zcbor.mapEndDecode s').1 = true ∧
        (run (binaryDecoder o) (decodeMapLoop (decodeMember id name member) m c.1 c.2) s).2 =
          (o.zcbor.mapEndDecode s').2 := by
  induction n generalizing m c s with
  | zero =>
    obtain ⟨m, rfl⟩ : ∃ k, m = k + 1 := ⟨m - 1, by omega⟩
    have hend : (o.zcbor.mapEndDecode s).1 = true := hentries
    obtain ⟨hkey, hplace⟩ := run_decodeKey_of_mapEnd hZ hend c.1
    have hend' := (hZ.map.stop_same _ _ hplace).1.trans hend
    have hround : run (binaryDecoder o) (decodeMapRound (decodeMember id name member) (c.1, c.2)) s =
        (.inr (true, c.2), (o.zcbor.mapEndDecode (run (binaryDecoder o) (decodeKey c.1) s).2).2) := by
      have hrun : run (binaryDecoder o) (decode .mapEnd) (run (binaryDecoder o) (decodeKey c.1) s).2 =
        (true, (o.zcbor.mapEndDecode (run (binaryDecoder o) (decodeKey c.1) s).2).2) := Prod.ext hend' rfl
      rw [decodeMapRound, run_bind]
      dsimp only
      rw [hkey, if_neg Bool.false_ne_true, run_bind, hrun]
      rfl
    rw [decodeMapLoop, run_repeatUntil_succ, hround]
    exact ⟨rfl, _, hplace, hend', rfl⟩
  | succ n ih =>
    obtain ⟨m, rfl⟩ : ∃ k, m = k + 1 := ⟨m - 1, by omega⟩
    obtain ⟨k, v, hk, -, -, c', s₁, hrun, -, hbehind, hentries⟩ := hentries
    obtain ⟨hok, s', hpasses, hend, hstate⟩ := ih hentries (Nat.lt_of_succ_lt_succ hm)
    rw [decodeMapLoop, run_repeatUntil_succ, hrun]
    exact ⟨hok, s', ⟨v, behind_of_keyAt hZ hk, s₁, hbehind, hpasses⟩, hend, hstate⟩

/-! ## Records -/

/-- `ThingSetDecoder::decode` of a structure. -/
def decodeStruct (id : Fin size → ℕ) (name : Fin size → Bytes)
    (member : (i : Fin size) → V i → Decoding (Decoded (V i))) (r : (i : Fin size) → V i) :
    Decoding (Decoded ((i : Fin size) → V i)) := do
  let (ok, r) ← decodeRecord id name member r
  pure ⟨ok, some r⟩

theorem run_struct_of_not_start (r : (i : Fin size) → V i) (hstart : (o.zcbor.mapStartDecode s).1 = false) :
    (run (binaryDecoder o) (decodeStruct id name member r) s).1.ok = false ∧
      (run (binaryDecoder o) (decodeStruct id name member r) s).2 = (o.zcbor.mapStartDecode s).2 := by
  have hrun : run (binaryDecoder o) (decode .mapStart) s = (false, (o.zcbor.mapStartDecode s).2) :=
    Prod.ext hstart rfl
  rw [decodeStruct, run_bind, decodeRecord, decodeMap, run_bind, hrun]
  dsimp only
  rw [if_neg Bool.false_ne_true]
  exact ⟨rfl, rfl⟩

/-- Entries that are decoded exactly make a record that is decoded. -/
theorem run_struct_of_entries (hZ : o.zcbor.PlaceLaws) (hstart : (o.zcbor.mapStartDecode s).1 = true)
    (hn : n < sizeMax) (hentries : EntriesExact o id name member exact n ({}, r) (o.zcbor.mapStartDecode s).2) :
    (run (binaryDecoder o) (decodeStruct id name member r) s).1.ok = true ∧
      o.zcbor.Behind s (run (binaryDecoder o) (decodeStruct id name member r) s).2 := by
  have hrun : run (binaryDecoder o) (decode .mapStart) s = (true, (o.zcbor.mapStartDecode s).2) :=
    Prod.ext hstart rfl
  obtain ⟨hok, s', hpasses, hend, hstate⟩ := run_entries hZ hentries hn
  rw [decodeStruct, run_bind, decodeRecord, decodeMap, run_bind, hrun]
  dsimp only
  rw [if_pos rfl]
  refine ⟨hok, ?_⟩
  rw [hstate]
  exact hZ.map.passes s _ s' hstart hpasses hend

theorem spec_struct (hZ : o.zcbor.PlaceLaws) (h : ∀ i, Spec o (member i) (exact i) (accepts i) (refuses i)) :
    Spec o (decodeStruct id name member)
      (fun r s => (o.zcbor.mapStartDecode s).1 = true →
        ∃ n < sizeMax, EntriesExact o id name member exact n ({}, r) (o.zcbor.mapStartDecode s).2)
      (fun s => (o.zcbor.mapStartDecode s).1 = true ∧
        ∃ n < sizeMax, EntriesRecover o id name (fun i s => accepts i s ∨ refuses i s) n {}
          (o.zcbor.mapStartDecode s).2)
      (fun _ => False) where
  accepts_place s s' hs haccepts := by
    obtain ⟨hstart, n, hn, hentries⟩ := haccepts
    obtain ⟨hok, hplace⟩ := hZ.map.start_same s s' hs
    exact ⟨hok.symm.trans hstart, n, hn, entriesRecover_place hZ (recovers_place h) hplace hentries⟩
  refuses_place s s' hs h := h
  of_accepts r s haccepts := by
    obtain ⟨hstart, n, hn, hentries⟩ := haccepts
    have hexact := entriesExact_of_recover hZ h hentries r
    exact ⟨fun _ => ⟨n, hn, hexact⟩, run_struct_of_entries hZ hstart hn hexact⟩
  of_refuses r s h := h.elim
  of_ok r s hexact hok := by
    cases hstart : (o.zcbor.mapStartDecode s).1 with
    | false =>
      rw [(run_struct_of_not_start r hstart).1] at hok
      cases hok
    | true =>
      obtain ⟨n, hn, hentries⟩ := hexact hstart
      exact ⟨rfl, n, hn, recover_of_entriesExact hZ h hentries⟩
  of_not_ok r s hexact hok := by
    cases hstart : (o.zcbor.mapStartDecode s).1 with
    | false =>
      rw [(run_struct_of_not_start r hstart).2]
      exact .inr (.inl (hZ.map.start_false s hstart))
    | true =>
      obtain ⟨n, hn, hentries⟩ := hexact hstart
      rw [(run_struct_of_entries hZ hstart hn hentries).1] at hok
      cases hok

end Entries

/-- What is known of the decode of a value holds of every type. -/
theorem TargetType.spec (hZ : o.zcbor.PlaceLaws) (hforward : o.isForwardOnly = false) (t : TargetType) :
    Spec o t.decode (t.Exact o) (t.Accepts o) (t.Refuses o) := by
  induction t with
  | scalar t => exact spec_scalar hZ t
  | array element size ih => exact spec_array hZ hforward ih size
  | vector element ih => exact spec_vector hZ ih element.fresh
  | record size id name member ih => exact spec_struct hZ ih

/-! ## Maps -/

/-- At `s` is a map with `n` entries. -/
structure IsMapOf (Z : ZcborDecode) (n : ℕ) (s : ZcborState) : Prop where
  start : (Z.mapStartDecode s).1 = true
  size : n < sizeMax
  entries : ∃ s', Z.Passes (2 * n) (Z.mapStartDecode s).2 s' ∧ (Z.mapEndDecode s').1 = true

/-- The map at `s` is decoded into a record: every entry with a known key is decoded into its member and into no
other, behind every value the decoder is at the next key, and at the end it is behind the map. -/
structure EntriesDecoded (o : BinaryDecoderOptions) {size : ℕ} (id : Fin size → ℕ) (name : Fin size → Bytes)
    (member : Fin size → TargetType) (n : ℕ) (r : (TargetType.record size id name member).Value)
    (s : ZcborState) : Prop where
  entries : EntriesExact o id name (fun i => (member i).decode) (fun i => (member i).Exact o) n ({}, r)
    (o.zcbor.mapStartDecode s).2
  returns : (run (binaryDecoder o) ((TargetType.record size id name member).decode r) s).1.ok = true
  behind : o.zcbor.Behind s (run (binaryDecoder o) ((TargetType.record size id name member).decode r) s).2

theorem passes_succ {Z : ZcborDecode} (h : (Z.anySkip s).1 = true) (h' : Z.Passes n (Z.anySkip s).2 s') :
    Z.Passes (n + 1) s s' :=
  ⟨_, ⟨h, rfl⟩, h'⟩

/-- Two `uint8_t` with the ids 1 and 2 and the names `a` and `b`, and `std::array<uint8_t, 3>` with the id 3 and the
name `c`. -/
def mixedMember : Fin 3 → TargetType
  | 0 => .scalar (.uint .w8)
  | 1 => .scalar (.uint .w8)
  | 2 => .array (.scalar (.uint .w8)) 3

def mixedId (i : Fin 3) : ℕ := i + 1

def mixedName : Fin 3 → Bytes
  | 0 => [0x61]
  | 1 => [0x62]
  | 2 => [0x63]

def countedDecoder : BinaryDecoderOptions := { zcbor := zcborCounted }

/-- The value of the key at `s`. -/
def valueAt (s : ZcborState) : ZcborState := (zcborCounted.uint32Decode s).2

/-- The map `{1: 300, 2: 7}`: the number 300 is too large for a `uint8_t`. -/
def recoveredMap : ZcborState := .alone [0xA2, 0x01, 0x19, 0x01, 0x2C, 0x02, 0x07]

/-- The map `{3: [1, 2], 2: 7}`. -/
def refusedMap : ZcborState := .alone [0xA2, 0x03, 0x82, 0x01, 0x02, 0x02, 0x07]

end ThingSet
