import ThingSet.Zcbor.Decode

/-!
# Reference functions for the zcbor decoder

An executable instance of `ZcborDecode` that follows the documented behaviour of zcbor on
definite and indefinite containers, integers, strings, booleans and null: the properties that
results assume of zcbor hold of it, and it evaluates the model on concrete messages. A call that
fails leaves the state as it was.
-/

namespace ThingSet

namespace ZcborReference

open ZcborState

/-- Enter the data item at the payload: its head, and the state past the head with one element
less to come. -/
def enter (s : ZcborState) : Option (Cbor.Head × ZcborState) :=
  if s.elemCount = 0 then none
  else
    match Cbor.readHead s.remaining with
    | none => none
    | some (h, rest) =>
      some (h, { s with
        payload := s.payload + (s.remaining.length - rest.length)
        payloadBak := s.payload
        elemCount := s.elemCount - 1 })

/-- A scalar is decoded from its head, or the call fails and the state stays. -/
def scalar {α : Type} (f : Cbor.Head → Option α) (s : ZcborState) : Option α × ZcborState :=
  match enter s with
  | none => (none, s)
  | some (h, s') =>
    match f h with
    | none => (none, s)
    | some a => (some a, s')

/-- A string of major type `major`: its head, then that many bytes. -/
def string (major : ℕ) (s : ZcborState) : Option Bytes × ZcborState :=
  match enter s with
  | none => (none, s)
  | some (h, s') =>
    match h.argument with
    | none => (none, s)
    | some n =>
      if h.major = major ∧ n ≤ s'.remaining.length then
        (some (s'.remaining.take n), { s' with payload := s'.payload + n })
      else (none, s)

/-- An unsigned integer of `bits` bits. -/
def uint (bits : ℕ) : Cbor.Head → Option ℕ
  | ⟨0, some n⟩ => if n < 2 ^ bits then some n else none
  | _ => none

/-- A signed integer of `bits` bits. -/
def int (bits : ℕ) : Cbor.Head → Option ℤ
  | ⟨0, some n⟩ => if n < 2 ^ (bits - 1) then some n else none
  | ⟨1, some n⟩ => if n < 2 ^ (bits - 1) then some (-1 - n) else none
  | _ => none

/-- A boolean. -/
def bool : Cbor.Head → Option Bool
  | ⟨7, some 20⟩ => some false
  | ⟨7, some 21⟩ => some true
  | _ => none

/-- Null. -/
def nil : Cbor.Head → Option Unit
  | ⟨7, some 22⟩ => some ()
  | _ => none

/-- The `elem_count` of containers without a count. -/
def indefiniteCount : ℕ := sizeMax - 16

/-- Enter a container of major type `major` with `perEntry` elements for each entry. -/
def start (major perEntry : ℕ) (s : ZcborState) : Bool × ZcborState :=
  match enter s with
  | none => (false, s)
  | some (h, s') =>
    if h.major = major ∧ s.backups.length < s.depth then
      (true, { s' with
        backups := ⟨s'.payload, s'.payloadBak, s'.elemCount, s'.indefinite⟩ :: s'.backups
        elemCount := match h.argument with
          | some n => perEntry * n
          | none => indefiniteCount
        indefinite := h.argument.isNone })
    else (false, s)

/-- Leave a container: at its break byte, or with no element to come. -/
def stop (s : ZcborState) : Bool × ZcborState :=
  match s.backups with
  | [] => (false, s)
  | b :: backups =>
    let s' := { s with elemCount := b.elemCount, indefinite := b.indefinite, backups := backups }
    if s.indefinite then
      match s.remaining with
      | 0xFF :: _ => (true, { s' with payload := s.payload + 1 })
      | _ => (false, s)
    else if s.elemCount = 0 then (true, s') else (false, s)

/-- The length of `items` data items in a row at the head of a list of bytes, none of them of
indefinite length. -/
def itemsLength : ℕ → ℕ → Bytes → Option ℕ
  | 0, _, _ => none
  | _, 0, _ => some 0
  | fuel + 1, items + 1, l =>
    match Cbor.readHead l with
    | none => none
    | some (⟨major, argument⟩, rest) =>
      let head := l.length - rest.length
      let body : Option ℕ :=
        match major, argument with
        | 2, some n | 3, some n => if n ≤ rest.length then some n else none
        | 4, some n => itemsLength fuel n rest
        | 5, some n => itemsLength fuel (2 * n) rest
        | _, some _ => some 0
        | _, none => none
      match body with
      | none => none
      | some n =>
        match itemsLength fuel items (rest.drop n) with
        | none => none
        | some m => some (head + n + m)

/-- `zcbor_any_skip`. -/
def anySkip (s : ZcborState) : Bool × ZcborState :=
  if s.elemCount = 0 then (false, s)
  else
    match itemsLength (s.remaining.length + 1) 1 s.remaining with
    | none => (false, s)
    | some n => (true, { s with payload := s.payload + n, elemCount := s.elemCount - 1 })

/-- `zcbor_process_backup` with the flags `RESTORE` and `CONSUME`. -/
def restoreBackup (s : ZcborState) : ZcborState :=
  match s.backups with
  | [] => s
  | b :: backups =>
    { s with payload := b.payload, payloadBak := b.payloadBak, elemCount := b.elemCount,
             indefinite := b.indefinite, backups := backups }

end ZcborReference

open ZcborReference in
/-- The reference functions. Floating-point numbers are refused. -/
def zcborReference : ZcborDecode where
  indefiniteCount := ZcborReference.indefiniteCount
  tstrDecode := string 3
  bstrDecode := string 2
  float16_32Decode s := (none, s)
  float64Decode s := (none, s)
  boolDecode := scalar bool
  uint32Decode := scalar (uint 32)
  uint64Decode := scalar (uint 64)
  int32Decode := scalar (int 32)
  int64Decode := scalar (int 64)
  nilExpect s := let r := scalar nil s; (r.1.isSome, r.2)
  listStartDecode := start 4 1
  listEndDecode := stop
  mapStartDecode := start 5 2
  mapEndDecode := stop
  anySkip := anySkip
  restoreBackup := restoreBackup

theorem zcborReference_listStartSetsCount : zcborReference.ListStartSetsCount := by
  intro s s' h
  simp only [zcborReference, ZcborReference.start, ZcborReference.enter] at h
  split at h
  · simp at h
  · rename_i h' s'' henter
    split at henter
    · simp at henter
    · rcases hhead : Cbor.readHead s.remaining with _ | ⟨⟨major, argument⟩, rest⟩
      · simp [hhead] at henter
      · simp only [hhead, Option.some.injEq, Prod.mk.injEq] at henter
        obtain ⟨rfl, rfl⟩ := henter
        split at h
        · rename_i hc
          obtain ⟨hmajor, -⟩ := hc
          simp only at hmajor
          subst hmajor
          obtain ⟨-, rfl⟩ := Prod.mk.inj h
          cases argument <;> simp [ZcborDecode.listCount, hhead, zcborReference]
        · simp at h

/-! ## Nothing is read past the end -/

namespace ZcborReference

open ZcborState ZcborDecode

variable {α : Type} {s t : ZcborState}

/-- The same changes to states that agree. -/
theorem Agree.update (h : Agree s t) (payload payloadBak elemCount : ℕ) (indefinite : Bool)
    (backups : List ZcborBackup) :
    Agree
      { s with payload := payload, payloadBak := payloadBak, elemCount := elemCount,
               indefinite := indefinite, backups := backups }
      { t with payload := payload, payloadBak := payloadBak, elemCount := elemCount,
               indefinite := indefinite, backups := backups } :=
  ⟨h.memory, rfl, h.payloadEnd, rfl, rfl, rfl, rfl, h.depth⟩

theorem enter_agree (h : Agree s t) :
    (enter s = none ∧ enter t = none) ∨
      ∃ head s' t', enter s = some (head, s') ∧ enter t = some (head, t') ∧ Agree s' t' := by
  simp only [enter, ← h.elemCount, ← h.remaining]
  split
  · exact .inl ⟨rfl, rfl⟩
  · split
    · exact .inl ⟨rfl, rfl⟩
    · rename_i head rest _
      refine .inr ⟨head, _, _, rfl, rfl, ?_⟩
      rw [h.payload]
      simpa only [h.indefinite, h.backups] using Agree.update h _ t.payload _ t.indefinite t.backups

theorem scalar_respects (f : Cbor.Head → Option α) : Respects (scalar f) := by
  intro s t h
  rcases enter_agree h with ⟨hs, ht⟩ | ⟨head, s', t', hs, ht, h'⟩
  · simp only [scalar, hs, ht]
    exact ⟨trivial, h⟩
  · simp only [scalar, hs, ht]
    split
    · exact ⟨rfl, h⟩
    · exact ⟨rfl, h'⟩

theorem string_respects (major : ℕ) : Respects (string major) := by
  intro s t h
  rcases enter_agree h with ⟨hs, ht⟩ | ⟨⟨_, _ | n⟩, s', t', hs, ht, h'⟩
  · simp only [string, hs, ht]
    exact ⟨trivial, h⟩
  · simp only [string, hs, ht]
    exact ⟨trivial, h⟩
  · simp only [string, hs, ht, ← h'.remaining]
    split
    · refine ⟨rfl, ?_⟩
      rw [h'.payload]
      simpa only [h'.payloadBak, h'.elemCount, h'.indefinite, h'.backups] using
        Agree.update h' (t'.payload + n) t'.payloadBak t'.elemCount t'.indefinite t'.backups
    · exact ⟨rfl, h⟩

theorem start_respects (major perEntry : ℕ) : Respects (start major perEntry) := by
  intro s t h
  rcases enter_agree h with ⟨hs, ht⟩ | ⟨head, s', t', hs, ht, h'⟩
  · simp only [start, hs, ht]
    exact ⟨trivial, h⟩
  · simp only [start, hs, ht, ← h.backups, ← h.depth]
    split
    · refine ⟨rfl, ?_⟩
      simpa only [h'.payload, h'.payloadBak, h'.elemCount, h'.indefinite, h'.backups] using
        Agree.update h' t'.payload t'.payloadBak _ _ _
    · exact ⟨rfl, h⟩

theorem stop_respects : Respects stop := by
  intro s t h
  simp only [stop, ← h.backups, ← h.elemCount, ← h.indefinite, ← h.remaining]
  split
  · exact ⟨rfl, h⟩
  · rename_i b backups _
    split
    · split
      · refine ⟨rfl, ?_⟩
        rw [h.payload]
        simpa only [h.payloadBak] using
          Agree.update h (t.payload + 1) t.payloadBak b.elemCount b.indefinite backups
      · exact ⟨rfl, h⟩
    · split
      · refine ⟨rfl, ?_⟩
        simpa only [h.payload, h.payloadBak] using
          Agree.update h t.payload t.payloadBak b.elemCount b.indefinite backups
      · exact ⟨rfl, h⟩

theorem anySkip_respects : Respects anySkip := by
  intro s t h
  simp only [anySkip, ← h.elemCount, ← h.remaining]
  split
  · exact ⟨rfl, h⟩
  · split
    · exact ⟨rfl, h⟩
    · rename_i n _
      refine ⟨rfl, ?_⟩
      rw [h.payload]
      simpa only [h.payloadBak, h.indefinite, h.backups] using
        Agree.update h (t.payload + n) t.payloadBak (s.elemCount - 1) t.indefinite t.backups

theorem restoreBackup_respects : Respects fun s => ((), restoreBackup s) := by
  intro s t h
  refine ⟨rfl, ?_⟩
  simp only [restoreBackup, ← h.backups]
  split
  · exact h
  · exact Agree.update h _ _ _ _ _

end ZcborReference

open ZcborReference in
theorem zcborReference_readsBelowEnd : zcborReference.ReadsBelowEnd where
  tstrDecode := string_respects 3
  bstrDecode := string_respects 2
  float16_32Decode _ _ h := ⟨rfl, h⟩
  float64Decode _ _ h := ⟨rfl, h⟩
  boolDecode := scalar_respects bool
  uint32Decode := scalar_respects (uint 32)
  uint64Decode := scalar_respects (uint 64)
  int32Decode := scalar_respects (int 32)
  int64Decode := scalar_respects (int 64)
  nilExpect s t h :=
    ⟨congrArg Option.isSome (scalar_respects nil s t h).1, (scalar_respects nil s t h).2⟩
  listStartDecode := start_respects 4 1
  listEndDecode := stop_respects
  mapStartDecode := start_respects 5 2
  mapEndDecode := stop_respects
  anySkip := anySkip_respects
  restoreBackup := restoreBackup_respects

/-! ## Numbers and maps -/

namespace ZcborReference

open ZcborState

variable {s : ZcborState} {rest : Bytes} {major n elements opened : ℕ}

/-- The head of an item that has been encoded. -/
theorem enter_writeHead (hm : major < 8) (hn : n < 2 ^ 64)
    (h : s.Left (Cbor.writeHead major n ++ rest) (elements + 1) opened) :
    ∃ s', enter s = some (⟨major, some n⟩, s') ∧ s'.Left rest elements opened := by
  have hlen : s.remaining.length = (Cbor.writeHead major n).length + rest.length := by
    rw [h.remaining, List.length_append]
  have hremaining : (s.memory.take s.payloadEnd).drop
      (s.payload + (Cbor.writeHead major n).length) = rest := by
    rw [← List.drop_drop]
    exact (congrArg (List.drop _) h.remaining).trans (List.drop_left)
  refine ⟨{ s with
    payload := s.payload + (s.remaining.length - rest.length), payloadBak := s.payload
    elemCount := s.elemCount - 1 }, ?_, ?_, ?_, h.indefinite, h.backups, h.depth⟩
  · rw [enter, if_neg (by rw [h.elemCount]; omega)]
    simp only [h.remaining, Cbor.readHead_writeHead hm hn]
  · rw [hlen, Nat.add_sub_cancel]
    exact hremaining
  · simp only [h.elemCount, Nat.add_sub_cancel]

theorem enter_end (h : s.Left rest 0 opened) : enter s = none := by
  rw [enter, if_pos h.elemCount]

end ZcborReference

open ZcborReference in
theorem zcborReference_lawful : zcborReference.Lawful where
  uint32 s n rest elements opened hn h := by
    obtain ⟨s', hs', h'⟩ := enter_writeHead (by decide) (by omega) h
    have huint : uint 32 ⟨0, some n⟩ = some n := if_pos hn
    exact ⟨s', by simp only [zcborReference, scalar, hs', huint], h'⟩
  uint32_end s rest opened h := ⟨s, by simp [zcborReference, scalar, enter_end h], h⟩
  tstr s n rest elements opened hn h := by
    obtain ⟨s', hs', h'⟩ := enter_writeHead (by decide) (by omega) h
    exact ⟨s, by simp [zcborReference, string, hs'], h⟩
  tstr_end s rest opened h := ⟨s, by simp [zcborReference, string, enter_end h], h⟩
  map s n rest elements opened hn hopened h := by
    obtain ⟨s', hs', h'⟩ := enter_writeHead (by decide) (by omega) h
    have hdepth : s.backups.length < s.depth := by rw [h.backups, h.depth]; omega
    refine ⟨{ s' with
      backups := ⟨s'.payload, s'.payloadBak, s'.elemCount, s'.indefinite⟩ :: s'.backups
      elemCount := 2 * n, indefinite := false }, ?_, h'.remaining, rfl, rfl, ?_, h'.depth⟩
    · simp [zcborReference, start, hs', hdepth]
    · simp [h'.backups]
  map_end s rest opened h := by
    obtain ⟨b, backups, hb⟩ : ∃ b backups, s.backups = b :: backups :=
      List.exists_cons_of_length_eq_add_one h.backups
    simp [zcborReference, stop, hb, h.indefinite, h.elemCount]

open ZcborReference in
/-- The head of a short string is in one byte. -/
theorem enter_tstr {s : ZcborState} {header : UInt8} {rest : Bytes} (h : s.remaining = header :: rest)
    (hmajor : header.toNat / 32 = 3) (hinfo : header.toNat % 32 ≤ 23) :
    enter s = none ∨ ∃ s', enter s = some (⟨3, some (header.toNat % 32)⟩, s') ∧ s'.remaining = rest := by
  rw [enter]
  split
  · exact .inl rfl
  · right
    have hhead : Cbor.readHead (header :: rest) = some (⟨3, some (header.toNat % 32)⟩, rest) := by
      rw [Cbor.readHead]
      simp only [hmajor, if_pos (show header.toNat % 32 < 24 by omega)]
    rw [h, hhead]
    refine ⟨_, rfl, ?_⟩
    change (s.memory.take s.payloadEnd).drop (s.payload + ((header :: rest).length - rest.length)) = rest
    rw [← List.drop_drop, show (s.memory.take s.payloadEnd).drop s.payload = header :: rest from h,
      List.length_cons, Nat.add_sub_cancel_left, List.drop_succ_cons, List.drop_zero]

open ZcborReference in
theorem zcborReference_stringLaws : zcborReference.StringLaws where
  tstr s bs rest elements opened hbs h := by
    obtain ⟨s', hs', h'⟩ := enter_writeHead (by decide) hbs h
    have hlen : bs.length ≤ s'.remaining.length := by
      rw [h'.remaining, List.length_append]
      omega
    have htake : s'.remaining.take bs.length = bs := by rw [h'.remaining, List.take_left]
    refine ⟨{ s' with payload := s'.payload + bs.length }, ?_, ?_, h'.elemCount, h'.indefinite,
      h'.backups, h'.depth⟩
    · simp only [zcborReference, string, hs', true_and, if_pos hlen, htake]
    · change (s'.memory.take s'.payloadEnd).drop (s'.payload + bs.length) = rest
      rw [← List.drop_drop]
      exact (congrArg (List.drop _) h'.remaining).trans List.drop_left
  tstr_nothing s h := by
    have henter : enter s = none := by simp [enter, h, Cbor.readHead]
    simp [zcborReference, string, henter]
  uint32_nothing s h := by
    have henter : enter s = none := by simp [enter, h, Cbor.readHead]
    simp [zcborReference, scalar, henter]
  tstr_short s header rest h hmajor hinfo hshort := by
    rcases enter_tstr h hmajor hinfo with henter | ⟨s', henter, hs'⟩
    · simp only [zcborReference, string, henter]
    · simp only [zcborReference, string, henter, hs', true_and, if_neg (Nat.not_le.2 hshort)]
  uint32_tstr s header rest h hmajor hinfo := by
    rcases enter_tstr h hmajor hinfo with henter | ⟨s', henter, -⟩
    · simp only [zcborReference, scalar, henter]
    · simp only [zcborReference, scalar, henter, uint]

/-! ## Integers -/

namespace ZcborReference

variable {s : ZcborState} {n : ℤ}

/-- Where an integer is encoded, a scalar of any type is decoded from its head. -/
theorem scalar_writeInt {α : Type} (f : Cbor.Head → Option α) (h : s.EncodesInt n) :
    (scalar f s).1 = f (Cbor.intHead n) := by
  obtain ⟨rest, hrest⟩ := h.remaining
  unfold scalar enter
  rw [if_neg h.elemCount]
  simp only [hrest, Cbor.readHead_writeInt h.wire]
  cases f (Cbor.intHead n) <;> rfl

theorem uint_writeInt (bits : ℕ) (h : s.EncodesInt n) :
    (scalar (uint bits) s).1 = if 0 ≤ n ∧ n < 2 ^ bits then some n.toNat else none := by
  rw [scalar_writeInt (uint bits) h]
  cases n with
  | ofNat n =>
    have hn : (n : ℤ) < 2 ^ bits ↔ n < 2 ^ bits := by exact_mod_cast Iff.rfl
    simp [Cbor.intHead, uint, hn]
  | negSucc n =>
    have hneg : ¬ (0 ≤ Int.negSucc n) := by omega
    simp [Cbor.intHead, uint, hneg]

theorem int_writeInt (bits : ℕ) (h : s.EncodesInt n) :
    (scalar (int (bits + 1)) s).1 = if -2 ^ bits ≤ n ∧ n < 2 ^ bits then some n else none := by
  rw [scalar_writeInt (int (bits + 1)) h]
  have hpos : (0 : ℤ) < 2 ^ bits := by positivity
  cases n with
  | ofNat n =>
    have hn : (n : ℤ) < 2 ^ bits ↔ n < 2 ^ bits := by exact_mod_cast Iff.rfl
    have hlo : -2 ^ bits ≤ (n : ℤ) := by omega
    simp [Cbor.intHead, int, hn, hlo]
  | negSucc n =>
    have hn : -2 ^ bits ≤ Int.negSucc n ↔ n < 2 ^ bits := by
      rw [Int.negSucc_eq, neg_le_neg_iff, Int.add_one_le_iff]
      exact_mod_cast Iff.rfl
    have hhi : Int.negSucc n < 2 ^ bits := by omega
    have hval : -1 - (n : ℤ) = Int.negSucc n := by omega
    simp [Cbor.intHead, int, hn, hhi, hval]

end ZcborReference

open ZcborReference in
theorem zcborReference_integerLaws : zcborReference.IntegerLaws where
  uint32 _ _ := uint_writeInt 32
  uint64 _ _ := uint_writeInt 64
  int32 _ _ := int_writeInt 31
  int64 _ _ := int_writeInt 63

/-! ## Items and lists -/

namespace ZcborReference

open ZcborState ZcborDecode

variable {α : Type} {s : ZcborState}

theorem remaining_alone (bytes : Bytes) : (alone bytes).remaining = bytes := by
  unfold alone new ZcborState.remaining
  rw [Nat.zero_add, List.take_length, List.drop_zero]

/-- What `enter` does is decided by the bytes that are left, where there is an item to come. -/
theorem enter_item (hs : s.elemCount ≠ 0) :
    (enter s = none ∧ enter (alone s.remaining) = none) ∨
      ∃ head s' t', enter s = some (head, s') ∧ enter (alone s.remaining) = some (head, t') ∧
        s'.remaining = t'.remaining ∧ s'.elemCount + 1 = s.elemCount ∧ s'.indefinite = s.indefinite ∧
        s'.backups = s.backups ∧ s'.depth = s.depth := by
  have hone : (alone s.remaining).elemCount ≠ 0 := Nat.one_ne_zero
  unfold enter
  rw [if_neg hs, if_neg hone, remaining_alone]
  cases Cbor.readHead s.remaining with
  | none => exact .inl ⟨rfl, rfl⟩
  | some r =>
    refine .inr ⟨_, _, _, rfl, rfl, ?_, Nat.sub_add_cancel (Nat.one_le_iff_ne_zero.2 hs), rfl, rfl, rfl⟩
    have halone : ((alone s.remaining).memory.take (alone s.remaining).payloadEnd).drop
        ((alone s.remaining).payload + (s.remaining.length - r.2.length)) =
          s.remaining.drop (s.remaining.length - r.2.length) := by
      rw [← List.drop_drop]
      exact congrArg (List.drop _) (remaining_alone s.remaining)
    exact (List.drop_drop ..).symm.trans halone.symm

theorem enter_of_elemCount (hs : s.elemCount = 0) : enter s = none := if_pos hs

theorem scalar_decodesItem (f : Cbor.Head → Option α) : DecodesItem (scalar f) where
  end_none s hs := by rw [scalar, enter_of_elemCount hs]
  result s hs := by
    unfold scalar
    rcases enter_item hs with ⟨hnone, hnone'⟩ | ⟨head, s', t', hsome, hsome', -⟩
    · rw [hnone, hnone']
    · rw [hsome, hsome']
      dsimp only
      cases f head <;> rfl
  next s v hv := by
    by_cases hs : s.elemCount = 0
    · rw [scalar, enter_of_elemCount hs] at hv
      exact absurd hv nofun
    · unfold scalar at hv ⊢
      rcases enter_item hs with ⟨hnone, -⟩ | ⟨head, s', t', hsome, hsome', hnext⟩
      · rw [hnone] at hv
        exact absurd hv nofun
      · rw [hsome] at hv
        rw [hsome, hsome']
        dsimp only at hv ⊢
        cases hf : f head with
        | none => simp [hf] at hv
        | some a => exact ⟨hnext.1, hnext.2.1, hnext.2.2.1, hnext.2.2.2.1⟩

theorem remaining_skip (s : ZcborState) (n : ℕ) :
    ({ s with payload := s.payload + n } : ZcborState).remaining = s.remaining.drop n :=
  (List.drop_drop ..).symm

theorem string_decodesItem (major : ℕ) : DecodesItem (string major) where
  end_none s hs := by rw [string, enter_of_elemCount hs]
  result s hs := by
    unfold string
    rcases enter_item hs with ⟨hnone, hnone'⟩ | ⟨head, s', t', hsome, hsome', hremaining, -⟩
    · rw [hnone, hnone']
    · rw [hsome, hsome']
      dsimp only
      cases head.argument with
      | none => rfl
      | some n =>
        dsimp only
        rw [hremaining]
        split <;> rfl
  next s v hv := by
    by_cases hs : s.elemCount = 0
    · rw [string, enter_of_elemCount hs] at hv
      exact absurd hv nofun
    · unfold string at hv ⊢
      rcases enter_item hs with ⟨hnone, -⟩ | ⟨head, s', t', hsome, hsome', hremaining, hnext⟩
      · rw [hnone] at hv
        exact absurd hv nofun
      · rw [hsome] at hv
        rw [hsome, hsome']
        dsimp only at hv ⊢
        cases harg : head.argument with
        | none => simp [harg] at hv
        | some n =>
          by_cases hc : head.major = major ∧ n ≤ s'.remaining.length
          · dsimp only
            rw [← hremaining, if_pos hc, if_pos hc]
            refine ⟨?_, hnext.1, hnext.2.1, hnext.2.2.1⟩
            rw [remaining_skip, remaining_skip, hremaining]
          · simp [harg, hc] at hv

end ZcborReference

open ZcborReference in
theorem zcborReference_listLaws : zcborReference.ListLaws where
  tstr := string_decodesItem 3
  float16_32 := ⟨fun _ _ => rfl, fun _ _ => rfl, fun _ _ h => absurd h nofun⟩
  float64 := ⟨fun _ _ => rfl, fun _ _ => rfl, fun _ _ h => absurd h nofun⟩
  bool := scalar_decodesItem bool
  uint32 := scalar_decodesItem (uint 32)
  uint64 := scalar_decodesItem (uint 64)
  int32 := scalar_decodesItem (int 32)
  int64 := scalar_decodesItem (int 64)
  start s argument rest hcount hdepth hhead := by
    have hrest : s.remaining.drop (s.remaining.length - rest.length) = rest :=
      (List.suffix_iff_eq_drop.1 (Cbor.readHead_suffix hhead)).symm
    have henter : enter s = some (⟨4, argument⟩, { s with
        payload := s.payload + (s.remaining.length - rest.length), payloadBak := s.payload
        elemCount := s.elemCount - 1 }) := by
      rw [enter, if_neg hcount, hhead]
    have hremaining := (remaining_skip s (s.remaining.length - rest.length)).trans hrest
    have hstart : zcborReference.listStartDecode s = start 4 1 s := rfl
    rw [hstart, start, henter]
    dsimp only
    rw [if_pos ⟨rfl, by omega⟩]
    refine ⟨rfl, hremaining, ?_, rfl, List.cons_ne_nil _ _⟩
    cases argument with
    | none => rfl
    | some n => exact Nat.one_mul n
  start_other s h := by
    simp only [zcborReference, start, enter]
    split
    · rfl
    · rename_i head s' henter
      split at henter
      · exact absurd henter nofun
      · split at henter
        · exact absurd henter nofun
        · rename_i head' rest hhead
          obtain ⟨rfl, -⟩ := Prod.mk.inj (Option.some.inj henter)
          rw [if_neg fun hc => h head'.argument rest (by rw [hhead, ← hc.1])]
  stop s hbackups hindefinite := by
    obtain ⟨b, backups, hb⟩ := List.exists_cons_of_ne_nil hbackups
    simp only [zcborReference, stop, hb, hindefinite]
    by_cases hzero : s.elemCount = 0 <;> simp [hzero]
  stop_indefinite s hbackups hindefinite := by
    obtain ⟨b, backups, hb⟩ := List.exists_cons_of_ne_nil hbackups
    simp only [zcborReference, stop, hb, hindefinite]
    rcases s.remaining with _ | ⟨c, rest⟩
    · simp
    · by_cases hc : c = 0xFF
      · simp [hc]
      · simp [hc]

end ThingSet
