import ThingSet.Zcbor.Nesting

/-!
# Places in a message

Where a decoder is in a message: its state without `payload_bak`, which is only read behind the start of a list.

* `ZcborDecode.Behind`: behind the element at the payload, which is where `zcbor_any_skip` goes to.
* `ZcborDecode.PlaceLaws`: a scalar that is not decoded leaves the payload where it is, and one that is decoded goes
  behind it; a container is passed by entering it, skipping its elements and leaving it.
* `Lost`: a decoder that has read nothing, or entered a container and not left it, is not behind the element.
* `zcborCounted_placeLaws`: the reference functions, with containers of definite length.
-/

namespace ThingSet

namespace ZcborState

/-- Where a decoder is. -/
def place (s : ZcborState) : ZcborState := { s with payloadBak := 0 }

variable {s s' : ZcborState}

theorem place_eq_iff : s.place = s'.place ↔ s.memory = s'.memory ∧ s.payload = s'.payload ∧
    s.payloadEnd = s'.payloadEnd ∧ s.elemCount = s'.elemCount ∧ s.indefinite = s'.indefinite ∧
      s.backups = s'.backups ∧ s.depth = s'.depth := by
  simp [place]

theorem payload_of_place (h : s.place = s'.place) : s.payload = s'.payload := (place_eq_iff.1 h).2.1

theorem elemCount_of_place (h : s.place = s'.place) : s.elemCount = s'.elemCount := (place_eq_iff.1 h).2.2.2.1

theorem backups_of_place (h : s.place = s'.place) : s.backups = s'.backups := (place_eq_iff.1 h).2.2.2.2.2.1

end ZcborState

/-- A function that does the same at the same place. -/
def SameAt {α : Type} (f : ZcborState → α × ZcborState) : Prop :=
  ∀ s s', s.place = s'.place → (f s).1 = (f s').1 ∧ (f s).2.place = (f s').2.place

namespace ZcborDecode

variable (Z : ZcborDecode)

/-- `s'` is behind the element at `s`. -/
def Behind (s s' : ZcborState) : Prop := (Z.anySkip s).1 = true ∧ s'.place = (Z.anySkip s).2.place

/-- `s'` is behind `n` elements. -/
def Passes : ℕ → ZcborState → ZcborState → Prop
  | 0, s, s' => s'.place = s.place
  | n + 1, s, s' => ∃ s₁, Z.Behind s s₁ ∧ Passes n s₁ s'

/-- A function that decodes a scalar. -/
structure Scalar {α : Type} (f : ZcborState → Option α × ZcborState) : Prop where
  same : SameAt f
  none : ∀ s, (f s).1 = none → (f s).2.place = s.place
  some : ∀ s, (f s).1.isSome → Z.Behind s (f s).2

/-- The functions that enter and leave a container. -/
structure Container (start stop : ZcborState → Bool × ZcborState) : Prop where
  start_same : SameAt start
  start_false : ∀ s, (start s).1 = false → (start s).2.place = s.place
  start_true : ∀ s, (start s).1 = true → s.backups.length < (start s).2.backups.length
  stop_same : SameAt stop
  stop_false : ∀ s, (stop s).1 = false → (stop s).2.place = s.place
  passes : ∀ s n s', (start s).1 = true → Z.Passes n (start s).2 s' → (stop s').1 = true → Z.Behind s (stop s').2

/-- What the decoding functions do at the places of a message. -/
structure PlaceLaws : Prop where
  tstr : Z.Scalar Z.tstrDecode
  float16_32 : Z.Scalar Z.float16_32Decode
  float64 : Z.Scalar Z.float64Decode
  bool : Z.Scalar Z.boolDecode
  uint32 : Z.Scalar Z.uint32Decode
  uint64 : Z.Scalar Z.uint64Decode
  int32 : Z.Scalar Z.int32Decode
  int64 : Z.Scalar Z.int64Decode
  skip_same : SameAt Z.anySkip
  skip_next : ∀ s, (Z.anySkip s).1 = true → s.payload < (Z.anySkip s).2.payload ∧
    (Z.anySkip s).2.elemCount + 1 = s.elemCount ∧ (Z.anySkip s).2.backups = s.backups
  list : Z.Container Z.listStartDecode Z.listEndDecode
  map : Z.Container Z.mapStartDecode Z.mapEndDecode
  /-- `elem_count` is a `size_t`. -/
  list_count : ∀ s, (Z.listStartDecode s).1 = true → (Z.listStartDecode s).2.elemCount < sizeMax
  /-- The backup of a list has the payload behind its head, and `payload_bak` in front of it. -/
  list_restore : ∀ s, (Z.listStartDecode s).1 = true →
    let b := Z.restoreBackup (Z.listStartDecode s).2
    ({ b with payload := b.payloadBak, elemCount := b.elemCount + 1 } : ZcborState).place = s.place
  /-- At the end of a map there is no key. -/
  map_end : ∀ s, (Z.mapEndDecode s).1 = true → (Z.uint32Decode s).1 = none ∧ (Z.tstrDecode s).1 = none

variable {Z} {s s' s'' : ZcborState}

/-! ## Behind an element -/

theorem PlaceLaws.behind_place (hZ : Z.PlaceLaws) (h : Z.Behind s s'') (hs : s.place = s'.place) :
    Z.Behind s' s'' := by
  obtain ⟨hok, hplace⟩ := hZ.skip_same s s' hs
  exact ⟨hok.symm.trans h.1, h.2.trans hplace⟩

theorem PlaceLaws.backups_of_behind (hZ : Z.PlaceLaws) (h : Z.Behind s s') : s'.backups = s.backups :=
  (ZcborState.backups_of_place h.2).trans (hZ.skip_next s h.1).2.2

theorem PlaceLaws.payload_of_behind (hZ : Z.PlaceLaws) (h : Z.Behind s s') : s.payload < s'.payload := by
  rw [ZcborState.payload_of_place h.2]
  exact (hZ.skip_next s h.1).1

theorem PlaceLaws.elemCount_of_behind (hZ : Z.PlaceLaws) (h : Z.Behind s s') : s'.elemCount + 1 = s.elemCount := by
  rw [ZcborState.elemCount_of_place h.2]
  exact (hZ.skip_next s h.1).2.1

/-- Nothing is read, or a container is entered and not left. -/
def Lost (s s' : ZcborState) : Prop := s'.place = s.place ∨ s.backups.length < s'.backups.length

/-- That is not behind the element. -/
theorem PlaceLaws.not_behind_of_lost (hZ : Z.PlaceLaws) (h : Lost s s') : ¬ Z.Behind s s' := by
  intro hbehind
  rcases h with h | h
  · have hpayload := hZ.payload_of_behind hbehind
    rw [ZcborState.payload_of_place h] at hpayload
    exact lt_irrefl _ hpayload
  · rw [hZ.backups_of_behind hbehind] at h
    exact lt_irrefl _ h

end ZcborDecode

/-! ## The reference functions -/

namespace ZcborReference

open Cbor ZcborDecode

variable {fuel fuel' items n major perEntry : ℕ} {l rest : List UInt8} {s s' : ZcborState}

/-- States at the same place differ in `payload_bak`. -/
theorem exists_of_place (h : s.place = s'.place) : ∃ x, s' = { s with payloadBak := x } := by
  obtain ⟨hmemory, hpayload, hpayloadEnd, hcount, hindefinite, hbackups, hdepth⟩ := ZcborState.place_eq_iff.1 h
  exact ⟨s'.payloadBak, by rw [hmemory, hpayload, hpayloadEnd, hcount, hindefinite, hbackups, hdepth]⟩

/-- With more rounds than bytes their number does not show. -/
theorem itemsLength_congr (h : l.length < fuel) (h' : l.length < fuel') :
    itemsLength fuel items l = itemsLength fuel' items l := by
  induction fuel generalizing fuel' items l with
  | zero => cases h
  | succ fuel ih =>
    obtain ⟨fuel', rfl⟩ : ∃ k, fuel' = k + 1 := ⟨fuel' - 1, by omega⟩
    cases items with
    | zero => rfl
    | succ items =>
      cases hread : readHead l with
      | none => rw [itemsLength_of_readHead_eq_none hread, itemsLength_of_readHead_eq_none hread]
      | some r =>
        obtain ⟨⟨major, argument⟩, rest⟩ := r
        have hlt := length_lt_of_readHead hread
        have hrest (items : ℕ) : itemsLength fuel items rest = itemsLength fuel' items rest := ih (by omega) (by omega)
        have hbody : bodyLength fuel major argument rest = bodyLength fuel' major argument rest := by
          unfold bodyLength
          split
          · rfl
          · rfl
          · exact hrest _
          · exact hrest _
          · rfl
          · rfl
        rw [itemsLength_of_readHead hread, itemsLength_of_readHead hread, hbody]
        refine congrArg _ (funext fun k => congrArg _ (ih ?_ ?_))
        · rw [List.length_drop]
          omega
        · rw [List.length_drop]
          omega

/-- One item. -/
theorem itemsLength_one {argument : Option ℕ} (hread : readHead l = some (⟨major, argument⟩, rest))
    (hfuel : l.length ≤ fuel) :
    itemsLength (fuel + 1) 1 l =
      (bodyLength fuel major argument rest).map (l.length - rest.length + ·) := by
  have hlt := length_lt_of_readHead hread
  obtain ⟨fuel, rfl⟩ : ∃ k, fuel = k + 1 := ⟨fuel - 1, by omega⟩
  rw [itemsLength_of_readHead hread]
  cases bodyLength (fuel + 1) major argument rest <;> rfl

/-- The items of a row are passed one after the other. -/
theorem itemsLength_add {k : ℕ} (hone : itemsLength (l.length + 1) 1 l = some k) (hfuel : l.length < fuel) :
    itemsLength fuel (items + 1) l = (itemsLength fuel items (l.drop k)).map (k + ·) := by
  obtain ⟨fuel, rfl⟩ : ∃ m, fuel = m + 1 := ⟨fuel - 1, by omega⟩
  cases hread : readHead l with
  | none =>
    rw [itemsLength_of_readHead_eq_none hread] at hone
    cases hone
  | some r =>
    obtain ⟨⟨major, argument⟩, rest⟩ := r
    have hlt := length_lt_of_readHead hread
    rw [itemsLength_congr (Nat.lt_succ_self _) hfuel, itemsLength_one hread (by omega)] at hone
    rw [itemsLength_of_readHead hread]
    cases hbody : bodyLength fuel major argument rest with
    | none =>
      rw [hbody] at hone
      cases hone
    | some m =>
      rw [hbody] at hone
      obtain rfl := Option.some.inj hone
      have hdrop : l.drop (l.length - rest.length + m) = rest.drop m := by
        rw [← List.drop_drop, ← List.suffix_iff_eq_drop.1 (readHead_suffix hread)]
      rw [Option.bind_some, hdrop, @itemsLength_congr _ (fuel + 1) _ _ (by rw [List.length_drop]; omega)
        (by rw [List.length_drop]; omega)]

/-- The number of bytes that `zcbor_any_skip` skips. -/
def skipLength (s : ZcborState) : Option ℕ := itemsLength (s.remaining.length + 1) 1 s.remaining

theorem anySkip_eq_true_iff : (anySkip s).1 = true ↔ s.elemCount ≠ 0 ∧ ∃ k, skipLength s = some k := by
  unfold anySkip skipLength
  split
  · rename_i hcount
    exact iff_of_false Bool.false_ne_true fun h => h.1 hcount
  · rename_i hcount
    cases itemsLength (s.remaining.length + 1) 1 s.remaining with
    | none => exact iff_of_false Bool.false_ne_true (by rintro ⟨-, k, hk⟩; cases hk)
    | some k => exact iff_of_true rfl ⟨hcount, k, rfl⟩

theorem anySkip_of_length {k : ℕ} (hcount : s.elemCount ≠ 0) (hk : skipLength s = some k) :
    anySkip s = (true, { s with payload := s.payload + k, elemCount := s.elemCount - 1 }) := by
  unfold skipLength at hk
  rw [anySkip, if_neg hcount, hk]

theorem skipLength_pos {k : ℕ} (hk : skipLength s = some k) : 0 < k := by
  unfold skipLength at hk
  cases hread : readHead s.remaining with
  | none =>
    rw [itemsLength_of_readHead_eq_none hread] at hk
    cases hk
  | some r =>
    obtain ⟨⟨major, argument⟩, rest⟩ := r
    have hlt := length_lt_of_readHead hread
    rw [itemsLength_one hread le_rfl] at hk
    obtain ⟨m, -, rfl⟩ := Option.map_eq_some_iff.1 hk
    omega

theorem sameAt_anySkip : SameAt anySkip := by
  intro s s' h
  obtain ⟨x, rfl⟩ := exists_of_place h
  unfold anySkip
  dsimp only [ZcborState.remaining]
  split
  · exact ⟨rfl, rfl⟩
  · split
    · exact ⟨rfl, rfl⟩
    · exact ⟨rfl, rfl⟩

/-- A scalar or a string is behind its head. -/
theorem behind_of_length {Z : ZcborDecode} (hZ : Z.anySkip = anySkip) {k : ℕ} (hcount : s.elemCount ≠ 0)
    (hk : skipLength s = some k)
    (hs' : s'.place = ({ s with payload := s.payload + k, elemCount := s.elemCount - 1 } : ZcborState).place) :
    Z.Behind s s' := by
  rw [Behind, hZ, anySkip_of_length hcount hk]
  exact ⟨rfl, hs'⟩

/-- What it means that an item is entered. -/
theorem enter_eq_some {h : Head} (henter : enter s = some (h, s')) :
    s.elemCount ≠ 0 ∧ ∃ rest, readHead s.remaining = some (h, rest) ∧ s'.remaining = rest ∧
      s' = { s with payload := s.payload + (s.remaining.length - rest.length), payloadBak := s.payload,
                    elemCount := s.elemCount - 1 } := by
  unfold enter at henter
  split at henter
  · cases henter
  · rename_i hcount
    split at henter
    · cases henter
    · rename_i head rest hread
      obtain ⟨rfl, rfl⟩ := Prod.mk.inj (Option.some.inj henter)
      have hrest : s.remaining.drop (s.remaining.length - rest.length) = rest :=
        (List.suffix_iff_eq_drop.1 (readHead_suffix hread)).symm
      exact ⟨hcount, rest, hread, (remaining_skip s _).trans hrest, rfl⟩

theorem enter_payloadBak (s : ZcborState) (x : ℕ) : enter { s with payloadBak := x } = enter s := rfl

/-- A number or a simple value. -/
theorem scalar_of_head {Z : ZcborDecode} (hZ : Z.anySkip = anySkip) {α : Type} {g : Head → Option α}
    (hg : ∀ h a, g h = some a → (h.major = 0 ∨ h.major = 1 ∨ h.major = 7) ∧ h.argument.isSome) :
    Z.Scalar (scalar g) where
  same s s' h := by
    obtain ⟨x, rfl⟩ := exists_of_place h
    unfold scalar
    rw [enter_payloadBak s x]
    cases enter s with
    | none => exact ⟨rfl, rfl⟩
    | some r =>
      rcases r with ⟨head, s'⟩
      dsimp only
      cases g head <;> exact ⟨rfl, rfl⟩
  none s hnone := by
    unfold scalar at hnone ⊢
    cases henter : enter s with
    | none => rfl
    | some r =>
      rcases r with ⟨head, s'⟩
      rw [henter] at hnone
      dsimp only at hnone ⊢
      cases hg' : g head with
      | none => rfl
      | some a =>
        rw [hg'] at hnone
        cases hnone
  some s hsome := by
    unfold scalar at hsome ⊢
    cases henter : enter s with
    | none =>
      rw [henter] at hsome
      cases hsome
    | some r =>
      rcases r with ⟨head, s'⟩
      rw [henter] at hsome
      dsimp only at hsome ⊢
      cases hg' : g head with
      | none =>
        rw [hg'] at hsome
        cases hsome
      | some a =>
        obtain ⟨hmajor, hargument⟩ := hg head a hg'
        obtain ⟨hcount, rest, hread, -, rfl⟩ := enter_eq_some henter
        obtain ⟨n, hn⟩ := Option.isSome_iff_exists.1 hargument
        obtain ⟨major, argument⟩ := head
        dsimp only at hmajor hn
        subst hn
        refine behind_of_length hZ (k := s.remaining.length - rest.length) hcount ?_ rfl
        rw [skipLength, itemsLength_one hread le_rfl]
        rcases hmajor with rfl | rfl | rfl <;> rfl

theorem uint_head (bits : ℕ) (h : Head) (n : ℕ) (hn : uint bits h = some n) :
    (h.major = 0 ∨ h.major = 1 ∨ h.major = 7) ∧ h.argument.isSome := by
  unfold uint at hn
  split at hn
  · exact ⟨.inl rfl, rfl⟩
  · cases hn

theorem int_head (bits : ℕ) (h : Head) (i : ℤ) (hi : int bits h = some i) :
    (h.major = 0 ∨ h.major = 1 ∨ h.major = 7) ∧ h.argument.isSome := by
  unfold int at hi
  split at hi
  · exact ⟨.inl rfl, rfl⟩
  · exact ⟨.inr (.inl rfl), rfl⟩
  · cases hi

/-- A string of characters or bytes. -/
theorem scalar_of_string {Z : ZcborDecode} (hZ : Z.anySkip = anySkip) (hmajor : major = 2 ∨ major = 3) :
    Z.Scalar (string major) where
  same s s' h := by
    obtain ⟨x, rfl⟩ := exists_of_place h
    unfold string
    rw [enter_payloadBak s x]
    cases enter s with
    | none => exact ⟨rfl, rfl⟩
    | some r =>
      rcases r with ⟨⟨major', _ | n⟩, s'⟩
      · exact ⟨rfl, rfl⟩
      · dsimp only
        split <;> exact ⟨rfl, rfl⟩
  none s hnone := by
    unfold string at hnone ⊢
    cases henter : enter s with
    | none => rfl
    | some r =>
      rcases r with ⟨⟨major', _ | n⟩, s'⟩
      · rfl
      · rw [henter] at hnone
        dsimp only at hnone ⊢
        split at hnone
        · cases hnone
        · rename_i h
          rw [if_neg h]
  some s hsome := by
    unfold string at hsome ⊢
    cases henter : enter s with
    | none =>
      rw [henter] at hsome
      cases hsome
    | some r =>
      rcases r with ⟨⟨major', _ | n⟩, s'⟩
      · rw [henter] at hsome
        cases hsome
      · rw [henter] at hsome
        dsimp only at hsome ⊢
        split at hsome
        · rename_i h
          obtain ⟨rfl, hlen⟩ := h
          obtain ⟨hcount, rest, hread, hrest, hs'⟩ := enter_eq_some henter
          rw [if_pos ⟨rfl, hlen⟩, hs']
          rw [hrest] at hlen
          refine behind_of_length hZ (k := s.remaining.length - rest.length + n) hcount ?_ ?_
          · rw [skipLength, itemsLength_one hread le_rfl]
            rcases hmajor with rfl | rfl
            · rw [show bodyLength s.remaining.length 2 (some n) rest = some n from if_pos hlen]
              rfl
            · rw [show bodyLength s.remaining.length 3 (some n) rest = some n from if_pos hlen]
              rfl
          · rw [← Nat.add_assoc]
            rfl
        · cases hsome

/-- Elements that are passed one after the other. -/
theorem items_of_passes {Z : ZcborDecode} (hZ : Z.anySkip = anySkip) (h : Z.Passes n s s') :
    ∃ k count, itemsLength (s.remaining.length + 1) n s.remaining = some k ∧ count + n = s.elemCount ∧
      s'.place = ({ s with payload := s.payload + k, elemCount := count } : ZcborState).place := by
  induction n generalizing s with
  | zero => exact ⟨0, s.elemCount, rfl, rfl, h⟩
  | succ n ih =>
    obtain ⟨s₁, ⟨hok, hplace⟩, h⟩ := h
    rw [hZ] at hok hplace
    obtain ⟨hcount, k, hk⟩ := anySkip_eq_true_iff.1 hok
    rw [anySkip_of_length hcount hk] at hplace
    obtain ⟨x, rfl⟩ := exists_of_place hplace.symm
    obtain ⟨m, count, hm, hcount', hplace'⟩ := ih h
    have hremaining : s.remaining.drop k = ({ s with
        payload := s.payload + k, elemCount := s.elemCount - 1, payloadBak := x } : ZcborState).remaining :=
      (remaining_skip s k).symm
    refine ⟨k + m, count, ?_, ?_, ?_⟩
    · rw [itemsLength_add hk (Nat.lt_succ_self _), hremaining]
      rw [@itemsLength_congr _ (s.remaining.length + 1) _ _ (Nat.lt_succ_self _)
        (by rw [← hremaining, List.length_drop]; omega)] at hm
      rw [hm]
      rfl
    · dsimp only at hcount'
      omega
    · rw [hplace', ← Nat.add_assoc]
      rfl

/-- A container is entered if it has a count. -/
def counted (f : ZcborState → Bool × ZcborState) (s : ZcborState) : Bool × ZcborState :=
  if (f s).2.indefinite ∨ sizeMax ≤ (f s).2.elemCount then (false, s) else f s

/-- A container that is entered. -/
theorem counted_start_eq_true (h : (counted (limited (start major perEntry)) s).1 = true) :
    s.elemCount ≠ 0 ∧ ∃ n rest b, readHead s.remaining = some (⟨major, some n⟩, rest) ∧ perEntry * n < sizeMax ∧
      b.payloadBak = s.payload ∧ b.elemCount + 1 = s.elemCount ∧ b.indefinite = s.indefinite ∧
        counted (limited (start major perEntry)) s = (true, { s with
          payload := s.payload + (s.remaining.length - rest.length), payloadBak := s.payload, elemCount := perEntry * n
          indefinite := false, backups := b :: s.backups }) := by
  unfold counted at h ⊢
  split at h
  · cases h
  · rename_i hcount
    rw [if_neg hcount]
    obtain ⟨hdefinite, hsize⟩ := not_or.1 hcount
    unfold limited at h hdefinite hsize ⊢
    split at h
    · rename_i hdepth
      rw [if_pos hdepth] at hdefinite hsize ⊢
      unfold start at h hdefinite hsize ⊢
      cases henter : enter s with
      | none =>
        rw [henter] at h
        cases h
      | some r =>
        obtain ⟨⟨major', argument⟩, s'⟩ := r
        rw [henter] at h hdefinite hsize
        dsimp only at h hdefinite hsize ⊢
        split at h
        · rename_i hmajor
          rw [if_pos hmajor] at hdefinite hsize ⊢
          obtain ⟨rfl, -⟩ := hmajor
          obtain ⟨hne, rest, hread, -, rfl⟩ := enter_eq_some henter
          cases argument with
          | none => exact absurd rfl hdefinite
          | some n => exact ⟨hne, n, rest, _, hread, Nat.not_le.1 hsize, rfl, Nat.sub_add_cancel (by omega), rfl, rfl⟩
        · cases h
    · cases h

theorem sameAt_start (major perEntry : ℕ) : SameAt (start major perEntry) := by
  intro s s' h
  obtain ⟨x, rfl⟩ := exists_of_place h
  unfold start
  rw [enter_payloadBak s x]
  cases enter s with
  | none => exact ⟨rfl, rfl⟩
  | some r =>
    rcases r with ⟨head, s'⟩
    dsimp only
    split <;> exact ⟨rfl, rfl⟩

theorem sameAt_limited {f : ZcborState → Bool × ZcborState} (hf : SameAt f) : SameAt (limited f) := by
  intro s s' h
  obtain ⟨x, rfl⟩ := exists_of_place h
  unfold limited
  dsimp only
  split
  · exact hf _ _ h
  · exact ⟨rfl, rfl⟩

theorem sameAt_counted {f : ZcborState → Bool × ZcborState} (hf : SameAt f) : SameAt (counted f) := by
  intro s s' h
  obtain ⟨hok, hplace⟩ := hf s s' h
  obtain ⟨-, -, -, hcount, hindefinite, -⟩ := ZcborState.place_eq_iff.1 hplace
  unfold counted
  rw [hcount, hindefinite]
  split
  · exact ⟨rfl, h⟩
  · exact ⟨hok, hplace⟩

theorem sameAt_stop : SameAt stop := by
  intro s s' h
  obtain ⟨x, rfl⟩ := exists_of_place h
  rcases s with ⟨memory, payload, payloadEnd, payloadBak, elemCount, indefinite, _ | ⟨b, backups⟩, depth⟩
  · exact ⟨rfl, rfl⟩
  · unfold stop
    dsimp only [ZcborState.remaining]
    split
    · split <;> exact ⟨rfl, rfl⟩
    · split <;> exact ⟨rfl, rfl⟩

/-- A container that is not entered. -/
theorem counted_start_eq_false (h : (counted (limited (start major perEntry)) s).1 = false) :
    (counted (limited (start major perEntry)) s).2.place = s.place := by
  unfold counted at h ⊢
  split
  · rfl
  · rename_i hcount
    rw [if_neg hcount] at h
    unfold limited at h ⊢
    split
    · rename_i hdepth
      rw [if_pos hdepth] at h
      unfold start at h ⊢
      cases henter : enter s with
      | none => rfl
      | some r =>
        rw [henter] at h
        dsimp only at h ⊢
        split
        · rename_i hmajor
          rw [if_pos hmajor] at h
          cases h
        · rfl
    · rfl

/-- The containers of the reference functions that have a count. -/
theorem container_counted {Z : ZcborDecode} (hZ : Z.anySkip = anySkip)
    (hbody : ∀ fuel n rest, bodyLength fuel major (some n) rest = itemsLength fuel (perEntry * n) rest) :
    Z.Container (counted (limited (start major perEntry))) stop where
  start_same := sameAt_counted (sameAt_limited (sameAt_start major perEntry))
  start_false s h := counted_start_eq_false h
  start_true s h := by
    obtain ⟨-, n, rest, b, -, -, -, -, -, hstart⟩ := counted_start_eq_true h
    rw [hstart]
    exact Nat.lt_succ_self _
  stop_same := sameAt_stop
  stop_false s h := by
    unfold stop at h ⊢
    cases hbackups : s.backups with
    | nil => rfl
    | cons b backups =>
      rw [hbackups] at h
      dsimp only at h ⊢
      split at h
      · rename_i hindefinite
        rw [if_pos hindefinite]
        split at h
        · cases h
        · rfl
      · rename_i hdefinite
        rw [if_neg hdefinite]
        split at h
        · cases h
        · rename_i hcount
          rw [if_neg hcount]
  passes s n s' h hpasses hend := by
    obtain ⟨hcount, size, rest, b, hread, -, -, hb, hindefinite, hstart⟩ := counted_start_eq_true h
    rw [hstart] at hpasses
    obtain ⟨k, count, hk, hcount', hplace⟩ := items_of_passes hZ hpasses
    obtain ⟨x, rfl⟩ := exists_of_place hplace.symm
    have hremaining : ({ s with
        payload := s.payload + (s.remaining.length - rest.length), payloadBak := s.payload, elemCount := perEntry * size
        indefinite := false, backups := b :: s.backups } : ZcborState).remaining = rest :=
      (remaining_skip s _).trans (List.suffix_iff_eq_drop.1 (readHead_suffix hread)).symm
    rw [hremaining] at hk
    unfold stop at hend ⊢
    dsimp only at hcount' hend ⊢
    rw [if_neg Bool.false_ne_true] at hend ⊢
    split at hend
    · rename_i hzero
      rw [if_pos hzero]
      have hlt := length_lt_of_readHead hread
      refine behind_of_length hZ (k := s.remaining.length - rest.length + k) hcount ?_ ?_
      · rw [skipLength, itemsLength_one hread le_rfl, hbody,
          @itemsLength_congr _ (rest.length + 1) _ _ hlt (Nat.lt_succ_self _), ← hcount', hzero, Nat.zero_add, hk]
        rfl
      · rw [ZcborState.place_eq_iff]
        exact ⟨rfl, by dsimp only; omega, rfl, by dsimp only; omega, hindefinite, rfl, rfl⟩
    · cases hend

/-- At the end of a container is no number, and no string. -/
theorem enter_of_stop (h : (stop s).1 = true) {head : Head} (henter : enter s = some (head, s')) : head.major = 7 := by
  obtain ⟨hcount, rest, hread, -, -⟩ := enter_eq_some henter
  unfold stop at h
  split at h
  · cases h
  · dsimp only at h
    split at h
    · split at h
      · rename_i hbreak
        rw [hbreak] at hread
        exact (congrArg (Head.major ∘ Prod.fst) (Option.some.inj hread)).symm
      · cases h
    · cases h

theorem map_end_of_stop (h : (stop s).1 = true) : (scalar (uint 32) s).1 = none ∧ (string 3 s).1 = none := by
  unfold scalar string
  cases henter : enter s with
  | none => exact ⟨rfl, rfl⟩
  | some r =>
    obtain ⟨⟨major, argument⟩, s'⟩ := r
    have hmajor : major = 7 := enter_of_stop h henter
    subst hmajor
    cases argument with
    | none => exact ⟨rfl, rfl⟩
    | some n => exact ⟨rfl, by dsimp only; rw [if_neg fun h => absurd h.1 (by decide)]⟩

end ZcborReference

open ZcborReference in
/-- The reference functions with as many backups as zcbor has, on containers that have a count. -/
def zcborCounted : ZcborDecode :=
  { zcborStates with
    listStartDecode := counted zcborStates.listStartDecode
    mapStartDecode := counted zcborStates.mapStartDecode }

open ZcborReference in
theorem zcborCounted_placeLaws : zcborCounted.PlaceLaws where
  tstr := scalar_of_string rfl (.inr rfl)
  float16_32 := ⟨fun _ _ h => ⟨rfl, h⟩, fun _ _ => rfl, fun _ h => absurd h Bool.false_ne_true⟩
  float64 := ⟨fun _ _ h => ⟨rfl, h⟩, fun _ _ => rfl, fun _ h => absurd h Bool.false_ne_true⟩
  bool := scalar_of_head rfl fun h a ha => by
    unfold ZcborReference.bool at ha
    split at ha
    · exact ⟨.inr (.inr rfl), rfl⟩
    · exact ⟨.inr (.inr rfl), rfl⟩
    · cases ha
  uint32 := scalar_of_head rfl (uint_head 32)
  uint64 := scalar_of_head rfl (uint_head 64)
  int32 := scalar_of_head rfl (int_head 32)
  int64 := scalar_of_head rfl (int_head 64)
  skip_same := sameAt_anySkip
  skip_next s h := by
    obtain ⟨hcount, k, hk⟩ := anySkip_eq_true_iff.1 h
    have hpos := skipLength_pos hk
    change s.payload < (anySkip s).2.payload ∧ (anySkip s).2.elemCount + 1 = s.elemCount ∧
      (anySkip s).2.backups = s.backups
    rw [anySkip_of_length hcount hk]
    exact ⟨Nat.lt_add_of_pos_right hpos, Nat.sub_add_cancel (Nat.one_le_iff_ne_zero.2 hcount), rfl⟩
  list := container_counted rfl fun fuel n rest => by rw [Nat.one_mul]; rfl
  map := container_counted rfl fun fuel n rest => rfl
  list_count s h := by
    obtain ⟨-, n, rest, b, -, hsize, -, -, -, hstart⟩ := counted_start_eq_true h
    change (counted (limited (start 4 1)) s).2.elemCount < sizeMax
    rw [hstart]
    exact hsize
  list_restore s h := by
    obtain ⟨-, n, rest, b, -, -, hpayload, hcount, hindefinite, hstart⟩ := counted_start_eq_true h
    intro b'
    have hb' : b' = restoreBackup (counted (limited (start 4 1)) s).2 := rfl
    rw [hstart] at hb'
    rw [hb']
    exact ZcborState.place_eq_iff.2 ⟨rfl, hpayload, rfl, hcount, hindefinite, rfl, rfl⟩
  map_end s h := map_end_of_stop h

end ThingSet
