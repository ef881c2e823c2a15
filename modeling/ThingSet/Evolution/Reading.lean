import ThingSet.Evolution.Schema
import ThingSet.MapKeys
import ThingSet.Zcbor.Nesting

/-!
# Items that are read into values

* `ReadsInto`: an item is read and stored, whatever is behind it.
* `run_decodeElements_items`: the items of a list are read into the elements of an array.
* `run_decodeField`: the value behind an id is read into the member with that id. If there is none, it is skipped.
* `run_fields`: the loop over the keys of a map.
-/

namespace ThingSet

open Interaction Prog Cbor

/-- Where `k` containers within each other can be entered, a program reads an item and stores a value. -/
def ReadsInto {T : Type} (o : BinaryDecoderOptions) (k : ℕ) (x : Item) (p : Decoding (Decoded T))
    (result : T → Prop) : Prop :=
  ∀ (s : ZcborState) (rest : Bytes), s.elemCount ≠ 0 → s.backups.length + 2 + k ≤ s.depth →
    s.remaining = x.bytes ++ rest →
      ∃ new s', run (binaryDecoder o) p s = (⟨true, some new⟩, s') ∧ result new ∧ s.Reads x.bytes.length 1 s'

theorem SameId.trans_left {p p' q : Option MemberKey} (h : SameId p q) (h' : SameId p' q) : SameId p p' := by
  obtain ⟨a, ha, b, hb, hab⟩ := h
  obtain ⟨a', ha', b', hb', hab'⟩ := h'
  obtain rfl := Option.some.inj (hb.symm.trans hb')
  exact ⟨a, ha, a', ha', hab.trans hab'.symm⟩

theorem SameId.trans_right {p q q' : Option MemberKey} (h : SameId p q) (h' : SameId p q') : SameId q q' := by
  obtain ⟨a, ha, b, hb, hab⟩ := h
  obtain ⟨a', ha', b', hb', hab'⟩ := h'
  obtain rfl := Option.some.inj (ha.symm.trans ha')
  exact ⟨b, hb, b', hb', hab.symm.trans hab'⟩

variable {o : BinaryDecoderOptions} {k : ℕ} {s s' : ZcborState} {rest : Bytes}

/-! ## Elements -/

/-- The items of a list are read into the elements of an array. -/
theorem run_decodeElements_items {T : Type} {elem : T → Decoding (Decoded T)} {x : ℕ → Item}
    {goal : ℕ → T → T → Prop} (n i : ℕ) (a : ArrayMemory T)
    (hread : ∀ j, i ≤ j → j < i + n → ∀ old, ReadsInto o k (x j) (elem old) (goal j old))
    (hdepth : s.backups.length + 2 + k ≤ s.depth) (hcount : n ≤ s.elemCount)
    (hs : s.remaining = (List.range' i n).flatMap (fun j => (x j).bytes) ++ rest) :
    ∃ a' s', run (binaryDecoder o) (decodeElements elem n i a) s = ((true, a'), s') ∧
      (∀ j, i ≤ j → j < i + n → goal j (a.value j) (a'.value j)) ∧
      (∀ j, j < i ∨ i + n ≤ j → a'.value j = a.value j) ∧
      s.Reads ((List.range' i n).flatMap fun j => (x j).bytes).length n s' := by
  induction n generalizing i a s with
  | zero =>
    refine ⟨a, s, rfl, fun j hle hlt => ?_, fun _ _ => rfl, .refl s⟩
    omega
  | succ n ih =>
    rw [List.range'_succ, List.flatMap_cons, List.append_assoc] at hs
    obtain ⟨new, s₁, hrun₁, hnew, h₁⟩ := hread i (Nat.le_refl i) (by omega) (a.value i) s _ (by omega) hdepth hs
    have hcount₁ := h₁.elemCount
    obtain ⟨a', s₂, hrun₂, hin, hout, h₂⟩ := ih (s := s₁) (i + 1) (a.store i (some new))
      (fun j hle hlt => hread j (by omega) (by omega)) (by rw [h₁.backups, h₁.depth]; exact hdepth) (by omega)
      (h₁.toAdvances.remaining hs)
    refine ⟨a', s₂, ?_, fun j hle hlt => ?_, fun j hj => ?_, ?_⟩
    · rw [run_decodeElements_succ, hrun₁]
      exact hrun₂
    · rcases Nat.eq_or_lt_of_le hle with rfl | hlt'
      · rw [hout i (.inl (Nat.lt_succ_self i)), ArrayMemory.store]
        simpa using hnew
      · have hgoal := hin j hlt' (by omega)
        rw [ArrayMemory.store] at hgoal
        simpa [show j ≠ i by omega] using hgoal
    · rw [hout j (by omega), ArrayMemory.store]
      simp [show j ≠ i by omega]
    · rw [List.range'_succ, List.flatMap_cons, List.length_append, Nat.add_comm n]
      exact h₁.trans h₂

/-! ## Members -/

/-- The id of a member is read as a key. -/
theorem run_decodeKey_id (hZ : o.zcbor.ItemLaws) {n : ℕ} (hn : n < 2 ^ 32) (hcount : s.elemCount ≠ 0)
    (hs : s.remaining = writeInt n ++ rest) :
    ∃ s', run (binaryDecoder o) (decodeKey {}) s = ((true, { id := some n }), s') ∧
      s.Reads (writeInt n).length 1 s' := by
  obtain ⟨hid, hadvances, hcount', hindefinite, hbackups⟩ := hZ.uint32 s n rest hn hcount hs
  have hkey : KeyAt (binaryDecoder o) s (.id n) (o.zcbor.uint32Decode s).2 := Prod.ext hid rfl
  exact ⟨_, run_decodeKey_of_keyAt hkey, hadvances, hcount', hindefinite, hbackups⟩

section Field

variable {m n : ℕ} {keys : MemberKeys m} {keys' : MemberKeys n} {V : Fin n → Type}
  {member : (j : Fin n) → V j → Decoding (Decoded (V j))} {r : (j : Fin n) → V j}

theorem find?_eq_some_of_unique {f : Fin n → Bool} {j : Fin n} (hj : f j = true) (hunique : ∀ i, f i = true → i = j) :
    (List.finRange n).find? f = some j := by
  cases hfind : (List.finRange n).find? f with
  | none => exact absurd hj (List.find?_eq_none.1 hfind j (List.mem_finRange j))
  | some i => rw [hunique i (List.find?_some hfind)]

/-- The comparison of `switchDecode`. -/
theorem any_id_iff {q : Option MemberKey} {a : MemberKey} (hp : q = some a) {q' : Option MemberKey} :
    (q'.any fun b => b.id.toNat = a.id.toNat) = true ↔ SameId q q' := by
  rw [Option.any_eq_true]
  constructor
  · rintro ⟨b, hb, hid⟩
    exact ⟨a, hp, b, hb, (UInt16.toNat_inj.1 (of_decide_eq_true hid)).symm⟩
  · rintro ⟨a', ha', b, hb, hid⟩
    obtain rfl := Option.some.inj (hp.symm.trans ha')
    exact ⟨b, hb, decide_eq_true (congrArg UInt16.toNat hid.symm)⟩

/-- **The value behind an id is read into the member with that id, and skipped if there is none.** -/
theorem run_decodeField (hZ : o.zcbor.ItemLaws) {i : Fin m} {x : Item} {goal : (j : Fin n) → V j → V j → Prop}
    (hi : (keys.key i).isSome) (hx : x.IsWhole)
    (hread : ∀ j, SameId (keys.key i) (keys'.key j) → ∀ old, ReadsInto o k x (member j old) (goal j old))
    (hcount : s.elemCount ≠ 0) (hdepth : s.backups.length + 2 + k ≤ s.depth) (hs : s.remaining = x.bytes ++ rest) :
    ∃ r' s', run (binaryDecoder o) (decodeField keys' member r { id := some (keys.id i) }) s = ((true, r'), s') ∧
      s.Reads x.bytes.length 1 s' ∧ ∀ j, (SameId (keys.key i) (keys'.key j) → goal j (r j) (r' j)) ∧
        (¬ SameId (keys.key i) (keys'.key j) → r' j = r j) := by
  obtain ⟨p, hp⟩ := Option.isSome_iff_exists.1 hi
  have hid : keys.id i = p.id.toNat := by rw [MemberKeys.id, hp, Option.elim_some]
  unfold decodeField decodeByKey
  dsimp only
  rw [hid, switchDecode, run_bind]
  by_cases hsame : ∃ j, SameId (keys.key i) (keys'.key j)
  · obtain ⟨j, hj⟩ := hsame
    have hfind := find?_eq_some_of_unique ((any_id_iff hp).2 hj)
      fun j' hj' => keys'.unique j' j (((any_id_iff hp).1 hj').trans_right hj)
    obtain ⟨new, s', hrun, hgoal, hreads⟩ := hread j hj (r j) s rest hcount hdepth hs
    refine ⟨Function.update r j new, s', ?_, hreads, fun j' => ⟨fun hj' => ?_, fun hj' => ?_⟩⟩
    · rw [hfind]
      dsimp only
      rw [run_bind, hrun]
      rfl
    · obtain rfl := keys'.unique j j' (hj.trans_right hj')
      rw [Function.update_self]
      exact hgoal
    · rw [Function.update_of_ne]
      rintro rfl
      exact hj' hj
  · have hfind : ((List.finRange n).find? fun j => (keys'.key j).any fun q => q.id.toNat = p.id.toNat) = none :=
      List.find?_eq_none.2 fun j _ hj => hsame ⟨j, (any_id_iff hp).1 hj⟩
    obtain ⟨max, hmax⟩ := hx
    obtain ⟨hok, hadvances, hcount', hindefinite, hbackups⟩ := hZ.anySkip s x max rest hmax hcount hs
    have hskip : run (binaryDecoder o) (decode .skip) s = (true, (o.zcbor.anySkip s).2) := Prod.ext hok rfl
    refine ⟨r, (o.zcbor.anySkip s).2, ?_, ⟨hadvances, hcount', hindefinite, hbackups⟩,
      fun j => ⟨fun hj => absurd ⟨j, hj⟩ hsame, fun _ => rfl⟩⟩
    rw [hfind]
    dsimp only
    rw [run_pure]
    dsimp only
    rw [if_neg Bool.false_ne_true, run_bind, hskip]
    rfl

/-- The loop at the end of a map. -/
theorem run_decodeMapLoop_stop {γ : Type} (callback : γ → Key → Decoding (Bool × γ)) (hZ : o.zcbor.ItemLaws)
    (hcount : s.elemCount = 0) (bound : ℕ) (key : Key) (c : γ) :
    run (binaryDecoder o) (decodeMapLoop callback (bound + 1) key c) s =
      (((o.zcbor.mapEndDecode s).1, c), (o.zcbor.mapEndDecode s).2) := by
  have hid : run (binaryDecoder o) (decode (.uint .w32)) s = (none, s) := hZ.uint32_end s hcount
  have hname : run (binaryDecoder o) (decode .string) s = (none, s) := hZ.tstr_end s hcount
  have hkey : run (binaryDecoder o) (decodeKey key) s = ((false, key), s) := by
    unfold decodeKey
    rw [run_bind, hid]
    dsimp only
    rw [run_bind, hname]
    rfl
  rw [decodeMapLoop, run_repeatUntil_succ]
  unfold decodeMapRound
  rw [run_bind, hkey]
  rfl

/-- **The values of a map are read into the members with their ids, up to its end.** -/
theorem run_fields (hZ : o.zcbor.ItemLaws) {x : Fin m → Item} {goal : Fin m → (j : Fin n) → V j → V j → Prop}
    (is : List (Fin m)) (hnodup : is.Nodup) (hmember : ∀ i ∈ is, (keys.key i).isSome) (hx : ∀ i ∈ is, (x i).IsWhole)
    (hread : ∀ i ∈ is, ∀ j, SameId (keys.key i) (keys'.key j) → ∀ old, ReadsInto o k (x i) (member j old) (goal i j old))
    (key : Key) (hname : key.name = none) (bound : ℕ) (hbound : is.length < bound)
    (hdepth : s.backups.length + 2 + k ≤ s.depth) (hcount : s.elemCount = 2 * is.length)
    (hs : s.remaining = is.flatMap (fun i => writeInt (keys.id i) ++ (x i).bytes) ++ rest) :
    ∃ r' s', run (binaryDecoder o) (decodeMapLoop (decodeField keys' member) bound key r) s =
        (((o.zcbor.mapEndDecode s').1, r'), (o.zcbor.mapEndDecode s').2) ∧
      s.Reads (is.flatMap fun i => writeInt (keys.id i) ++ (x i).bytes).length (2 * is.length) s' ∧
      ∀ j, (∀ i ∈ is, SameId (keys.key i) (keys'.key j) → goal i j (r j) (r' j)) ∧
        ((∀ i ∈ is, ¬ SameId (keys.key i) (keys'.key j)) → r' j = r j) := by
  obtain ⟨bound, rfl⟩ : ∃ b, bound = b + 1 := ⟨bound - 1, by omega⟩
  induction is generalizing s r key bound with
  | nil =>
    refine ⟨r, s, run_decodeMapLoop_stop _ hZ hcount bound key r, .refl s, fun j => ⟨fun i hi => ?_, fun _ => rfl⟩⟩
    cases hi
  | cons i is ih =>
    rw [List.length_cons] at hcount hbound
    rw [List.flatMap_cons, List.append_assoc, List.append_assoc] at hs
    obtain ⟨hi, hnodup⟩ := List.nodup_cons.1 hnodup
    have hid : keys.id i < 2 ^ 32 := by
      unfold MemberKeys.id
      cases keys.key i with
      | none => exact Nat.two_pow_pos 32
      | some p => exact Nat.lt_of_lt_of_le p.id.toNat_lt (by decide)
    obtain ⟨s₁, hkey, h₁⟩ := run_decodeKey_id hZ hid (by omega) hs
    have hcount₁ := h₁.elemCount
    obtain ⟨r₁, s₂, hfield, h₂, hr₁⟩ := run_decodeField (r := r) hZ (hmember i List.mem_cons_self)
      (hx i List.mem_cons_self) (hread i List.mem_cons_self) (by omega) (by rw [h₁.backups, h₁.depth]; exact hdepth)
      (h₁.toAdvances.remaining hs)
    have hcount₂ := h₂.elemCount
    have hmerge : key.merge { id := some (keys.id i) } = { id := some (keys.id i) } := by
      rw [Key.merge, hname]
      rfl
    obtain ⟨bound, rfl⟩ : ∃ b, bound = b + 1 := ⟨bound - 1, by omega⟩
    obtain ⟨r', s₃, hloop, h₃, hr'⟩ := ih (s := s₂) (r := r₁) hnodup (fun j hj => hmember j (List.mem_cons_of_mem i hj))
      (fun j hj => hx j (List.mem_cons_of_mem i hj)) (fun j hj => hread j (List.mem_cons_of_mem i hj))
      { id := some (keys.id i) } rfl (by rw [h₂.backups, h₂.depth, h₁.backups, h₁.depth]; exact hdepth) (by omega)
      (h₂.toAdvances.remaining (h₁.toAdvances.remaining hs)) bound (by omega)
    refine ⟨r', s₃, ?_, ?_, fun j => ⟨fun i' hi' hsame => ?_, fun hnone => ?_⟩⟩
    · rw [run_decodeMapLoop_of_key _ hkey, hmerge, hfield]
      exact hloop
    · rw [List.flatMap_cons, List.length_append, List.length_append, List.length_cons,
        show 2 * (is.length + 1) = 1 + 1 + 2 * is.length by omega]
      exact (h₁.trans h₂).trans h₃
    · -- the id of `j` is that of one member on the other side, whose value comes once
      rcases List.mem_cons.1 hi' with rfl | hi'
      · rw [(hr' j).2 fun i hmem hother => hi (keys.unique i i' (hother.trans_left hsame) ▸ hmem)]
        exact (hr₁ j).1 hsame
      · have hkeep : r₁ j = r j := (hr₁ j).2 fun hother => hi (keys.unique i' i (hsame.trans_left hother) ▸ hi')
        rw [← hkeep]
        exact (hr' j).1 i' hi' hsame
    · rw [(hr' j).2 fun i' hi' => hnone i' (List.mem_cons_of_mem i hi')]
      exact (hr₁ j).2 (hnone i List.mem_cons_self)

end Field

end ThingSet
