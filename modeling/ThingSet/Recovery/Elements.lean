import ThingSet.Recovery.Basic

/-!
# Lists that cannot be decoded

* `Spec`: what is known of the decode of a value.
* `spec_scalar`, `spec_array`, `spec_vector`: it holds of numbers and strings, and of a list when it holds of its
  elements. A list that is too short is wound back; one with an element that is not decoded is left half-way.
-/

namespace ThingSet

open Interaction Prog ZcborDecode

/-- What is known of the decode of a value: where it is accepted, or read and refused, it goes behind the value;
otherwise, as long as the maps on the way are decoded exactly, it gets lost. -/
structure Spec (o : BinaryDecoderOptions) {T : Type} (dec : T → Decoding (Decoded T)) (exact : T → ZcborState → Prop)
    (accepts refuses : ZcborState → Prop) : Prop where
  accepts_place : ∀ s s', s.place = s'.place → accepts s → accepts s'
  refuses_place : ∀ s s', s.place = s'.place → refuses s → refuses s'
  of_accepts : ∀ v s, accepts s →
    exact v s ∧ (run (binaryDecoder o) (dec v) s).1.ok = true ∧ o.zcbor.Behind s (run (binaryDecoder o) (dec v) s).2
  of_refuses : ∀ v s, refuses s → exact v s ∧ o.zcbor.Behind s (run (binaryDecoder o) (dec v) s).2
  of_ok : ∀ v s, exact v s → (run (binaryDecoder o) (dec v) s).1.ok = true → accepts s
  of_not_ok : ∀ v s, exact v s → (run (binaryDecoder o) (dec v) s).1.ok = false →
    refuses s ∨ Lost s (run (binaryDecoder o) (dec v) s).2

variable {o : BinaryDecoderOptions} {T : Type} {dec : T → Decoding (Decoded T)} {exact : T → ZcborState → Prop}
  {accepts refuses : ZcborState → Prop} {s s' : ZcborState} {n i : ℕ} {a : ArrayMemory T} {fresh v : T}

/-- The decode goes behind the value where this is accepted or refused, and only there. -/
theorem Spec.behind_iff (hZ : o.zcbor.PlaceLaws) (h : Spec o dec exact accepts refuses) (hexact : exact v s) :
    o.zcbor.Behind s (run (binaryDecoder o) (dec v) s).2 ↔ accepts s ∨ refuses s := by
  constructor
  · intro hbehind
    cases hok : (run (binaryDecoder o) (dec v) s).1.ok with
    | true => exact .inl (h.of_ok v s hexact hok)
    | false => exact .inr ((h.of_not_ok v s hexact hok).resolve_right fun hlost => hZ.not_behind_of_lost hlost hbehind)
  · rintro (haccepts | hrefuses)
    · exact (h.of_accepts v s haccepts).2.2
    · exact (h.of_refuses v s hrefuses).2

/-- No container that was open is closed. -/
theorem Spec.backups_le (hZ : o.zcbor.PlaceLaws) (h : Spec o dec exact accepts refuses) (hexact : exact v s) :
    s.backups.length ≤ (run (binaryDecoder o) (dec v) s).2.backups.length := by
  cases hok : (run (binaryDecoder o) (dec v) s).1.ok with
  | true =>
    obtain ⟨-, -, hbehind⟩ := h.of_accepts v s (h.of_ok v s hexact hok)
    rw [hZ.backups_of_behind hbehind]
  | false =>
    rcases h.of_not_ok v s hexact hok with hrefuses | hplace | hlt
    · rw [hZ.backups_of_behind (h.of_refuses v s hrefuses).2]
    · rw [ZcborState.backups_of_place hplace]
    · exact hlt.le

/-! ## Scalars -/

theorem spec_scalar (hZ : o.zcbor.PlaceLaws) (t : ScalarType) :
    Spec o t.decode (fun _ _ => True) (fun s => t.Reads o.zcbor s ∧ ¬ t.Refuses o.zcbor s)
      (fun s => t.Refuses o.zcbor s) where
  accepts_place s s' hs h :=
    ⟨(scalar_place hZ t hs).1.1 h.1, fun hrefuses => h.2 ((scalar_place hZ t hs).2.2 hrefuses)⟩
  refuses_place s s' hs h := (scalar_place hZ t hs).2.1 h
  of_accepts v s h :=
    have hends := run_scalar hZ t v s
    ⟨trivial, hends.ok_iff.2 h, hends.behind h.1⟩
  of_refuses v s h :=
    have hends := run_scalar hZ t v s
    ⟨trivial, hends.behind (hends.reads_of_refuses h)⟩
  of_ok v s _ hok := (run_scalar hZ t v s).ok_iff.1 hok
  of_not_ok v s _ hok := by
    have hends := run_scalar hZ t v s
    by_cases hrefuses : t.Refuses o.zcbor s
    · exact .inl hrefuses
    · refine .inr (.inl (hends.stays fun hreads => ?_))
      rw [hends.ok_iff.2 ⟨hreads, hrefuses⟩] at hok
      cases hok

/-! ## Elements -/

theorem elementsAccepted_place (hZ : o.zcbor.PlaceLaws) (h : Spec o dec exact accepts refuses)
    (hs : s.place = s'.place) (helements : ElementsAccepted o accepts n s) : ElementsAccepted o accepts n s' := by
  induction n generalizing s s' with
  | zero => exact (hZ.list.stop_same s s' hs).1.symm.trans helements
  | succ n ih => exact ⟨h.accepts_place s s' hs helements.1, ih (hZ.skip_same s s' hs).2 helements.2⟩

/-- Behind an element that is accepted are the others. -/
theorem elementsAccepted_behind (hZ : o.zcbor.PlaceLaws) (h : Spec o dec exact accepts refuses)
    (hbehind : o.zcbor.Behind s s') : ElementsAccepted o accepts n (o.zcbor.anySkip s).2 ↔
      ElementsAccepted o accepts n s' :=
  ⟨elementsAccepted_place hZ h hbehind.2.symm, elementsAccepted_place hZ h hbehind.2⟩

/-- Elements that are accepted are decoded into an array. -/
theorem run_elements_of_accepted (hZ : o.zcbor.PlaceLaws) (h : Spec o dec exact accepts refuses)
    (helements : ElementsAccepted o accepts n s) (i : ℕ) (a : ArrayMemory T) :
    ElementsExact o dec exact n i a s ∧ (run (binaryDecoder o) (decodeElements dec n i a) s).1.1 = true ∧
      o.zcbor.Passes n s (run (binaryDecoder o) (decodeElements dec n i a) s).2 ∧
        (o.zcbor.listEndDecode (run (binaryDecoder o) (decodeElements dec n i a) s).2).1 = true := by
  induction n generalizing s i a with
  | zero => exact ⟨trivial, rfl, rfl, helements⟩
  | succ n ih =>
    obtain ⟨haccepts, helements⟩ := helements
    obtain ⟨hexact, hok, hbehind⟩ := h.of_accepts (a.value i) s haccepts
    obtain ⟨hexact', hok', hpasses, hend⟩ := ih ((elementsAccepted_behind hZ h hbehind).1 helements) (i + 1)
      (a.store i (run (binaryDecoder o) (dec (a.value i)) s).1.stored)
    rw [run_decodeElements_succ]
    dsimp only
    rw [if_pos hok]
    exact ⟨⟨hexact, fun _ => hexact'⟩, hok', ⟨_, hbehind, hpasses⟩, hend⟩

/-- Elements that are decoded into an array have been accepted. -/
theorem accepted_of_elements (hZ : o.zcbor.PlaceLaws) (h : Spec o dec exact accepts refuses)
    (hexact : ElementsExact o dec exact n i a s)
    (hok : (run (binaryDecoder o) (decodeElements dec n i a) s).1.1 = true)
    (hend : (o.zcbor.listEndDecode (run (binaryDecoder o) (decodeElements dec n i a) s).2).1 = true) :
    ElementsAccepted o accepts n s := by
  induction n generalizing s i a with
  | zero => exact hend
  | succ n ih =>
    obtain ⟨hexact, hrest⟩ := hexact
    rw [run_decodeElements_succ] at hok hend
    dsimp only at hok hend
    cases hd : (run (binaryDecoder o) (dec (a.value i)) s).1.ok with
    | false =>
      rw [hd, if_neg Bool.false_ne_true] at hok
      cases hok
    | true =>
      rw [hd, if_pos rfl] at hok hend
      have haccepts := h.of_ok _ s hexact hd
      obtain ⟨-, -, hbehind⟩ := h.of_accepts (a.value i) s haccepts
      exact ⟨haccepts, (elementsAccepted_behind hZ h hbehind).2 (ih (hrest hd) hok hend)⟩

/-- The list stays open. -/
theorem backups_le_of_elements (hZ : o.zcbor.PlaceLaws) (h : Spec o dec exact accepts refuses)
    (hexact : ElementsExact o dec exact n i a s) :
    s.backups.length ≤ (run (binaryDecoder o) (decodeElements dec n i a) s).2.backups.length := by
  induction n generalizing s i a with
  | zero => exact le_rfl
  | succ n ih =>
    have hle := h.backups_le hZ hexact.1
    rw [run_decodeElements_succ]
    dsimp only
    split
    · rename_i hok
      exact hle.trans (ih (hexact.2 hok))
    · exact hle

/-! ## Arrays -/

section Array

variable {size : ℕ} {f : ℕ → T}

/-- What is not a list that can be entered. -/
theorem run_array_of_not_start (hstart : (o.zcbor.listStartDecode s).1 = false) :
    run (binaryDecoder o) (decodeArray dec size a) s = ((false, a), (o.zcbor.listStartDecode s).2) := by
  have hrun : run (binaryDecoder o) (decode .listStart) s = (false, (o.zcbor.listStartDecode s).2) :=
    Prod.ext hstart rfl
  rw [decodeArray, run_bind, hrun]
  rfl

/-- A list that is too short is wound back. -/
theorem run_array_of_tooShort (hZ : o.zcbor.PlaceLaws) (hforward : o.isForwardOnly = false)
    (hstart : (o.zcbor.listStartDecode s).1 = true) (hshort : TargetType.TooShort o size s) :
    (run (binaryDecoder o) (decodeArray dec size a) s).1.1 = false ∧
      (run (binaryDecoder o) (decodeArray dec size a) s).2.place = s.place := by
  have hrun : run (binaryDecoder o) (decode .listStart) s = (true, (o.zcbor.listStartDecode s).2) :=
    Prod.ext hstart rfl
  have hsize : run (binaryDecoder o) (decode (.ensureListSize size)) (o.zcbor.listStartDecode s).2 =
      BinaryDecoder.ensureListSize o size (o.zcbor.listStartDecode s).2 := rfl
  have hshort : (o.zcbor.listStartDecode s).2.elemCount < size ∧ !o.allowUndersizedArrays :=
    ⟨hshort.1, by rw [hshort.2]; rfl⟩
  rw [decodeArray, run_bind, hrun]
  dsimp only
  rw [if_neg (by decide), run_bind, hsize, BinaryDecoder.ensureListSize, if_pos hshort, hforward]
  exact ⟨rfl, hZ.list_restore s hstart⟩

/-- A list that is not goes on with its elements. -/
theorem run_array_of_start (hstart : (o.zcbor.listStartDecode s).1 = true)
    (hshort : ¬ TargetType.TooShort o size s) :
    let r := run (binaryDecoder o) (decodeElements dec (o.zcbor.listStartDecode s).2.elemCount 0 a)
      (o.zcbor.listStartDecode s).2
    (run (binaryDecoder o) (decodeArray dec size a) s).1.1 = (r.1.1 && (o.zcbor.listEndDecode r.2).1) ∧
      (run (binaryDecoder o) (decodeArray dec size a) s).2 = if r.1.1 then (o.zcbor.listEndDecode r.2).2 else r.2 := by
  intro r
  have hrun : run (binaryDecoder o) (decode .listStart) s = (true, (o.zcbor.listStartDecode s).2) :=
    Prod.ext hstart rfl
  have hnot : ¬ ((o.zcbor.listStartDecode s).2.elemCount < size ∧ !o.allowUndersizedArrays) :=
    fun h => hshort ⟨h.1, by simpa using h.2⟩
  have hsize : run (binaryDecoder o) (decode (.ensureListSize size)) (o.zcbor.listStartDecode s).2 =
      (some (o.zcbor.listStartDecode s).2.elemCount, (o.zcbor.listStartDecode s).2) := by
    change BinaryDecoder.ensureListSize o size _ = _
    rw [BinaryDecoder.ensureListSize, if_neg hnot]
  have hr : run (binaryDecoder o) (decodeElements dec (o.zcbor.listStartDecode s).2.elemCount 0 a)
      (o.zcbor.listStartDecode s).2 = r := rfl
  rw [decodeArray, run_bind, hrun]
  dsimp only
  rw [if_neg (by decide), run_bind, hsize]
  dsimp only
  rw [run_bind, hr]
  rcases r with ⟨⟨_ | _, a'⟩, s'⟩
  · exact ⟨rfl, rfl⟩
  · exact ⟨rfl, rfl⟩

/-- What is behind the elements of a list. -/
theorem backups_of_listEnd (hZ : o.zcbor.PlaceLaws) (hend : (o.zcbor.listEndDecode s).1 = false) :
    (o.zcbor.listEndDecode s).2.backups = s.backups :=
  ZcborState.backups_of_place (hZ.list.stop_false s hend)

theorem listStart_place (hZ : o.zcbor.PlaceLaws) (hs : s.place = s'.place) :
    ((o.zcbor.listStartDecode s).1 = true ↔ (o.zcbor.listStartDecode s').1 = true) ∧
      (o.zcbor.listStartDecode s).2.place = (o.zcbor.listStartDecode s').2.place ∧
        (o.zcbor.listStartDecode s).2.elemCount = (o.zcbor.listStartDecode s').2.elemCount := by
  obtain ⟨hok, hplace⟩ := hZ.list.start_same s s' hs
  exact ⟨by rw [hok], hplace, ZcborState.elemCount_of_place hplace⟩

theorem listElements_place (hZ : o.zcbor.PlaceLaws) (h : Spec o dec exact accepts refuses) (hs : s.place = s'.place)
    (helements : ElementsAccepted o accepts (o.zcbor.listStartDecode s).2.elemCount (o.zcbor.listStartDecode s).2) :
    ElementsAccepted o accepts (o.zcbor.listStartDecode s').2.elemCount (o.zcbor.listStartDecode s').2 := by
  obtain ⟨-, hplace, hcount⟩ := listStart_place hZ hs
  rw [← hcount]
  exact elementsAccepted_place hZ h hplace helements

theorem tooShort_place (hZ : o.zcbor.PlaceLaws) (hs : s.place = s'.place) (hshort : TargetType.TooShort o size s) :
    TargetType.TooShort o size s' := by
  obtain ⟨-, -, hcount⟩ := listStart_place hZ hs
  exact ⟨hcount ▸ hshort.1, hshort.2⟩

/-- `ThingSetDecoder::decode(std::array<T, size> *)`. -/
def decodeStdArray (dec : T → Decoding (Decoded T)) (size : ℕ) (f : ℕ → T) : Decoding (Decoded (ℕ → T)) := do
  let (ok, a) ← decodeArray dec size ⟨f, []⟩
  pure ⟨ok, some a.value⟩

theorem run_stdArray (dec : T → Decoding (Decoded T)) (size : ℕ) (f : ℕ → T) (s : ZcborState) :
    (run (binaryDecoder o) (decodeStdArray dec size f) s).1.ok =
        (run (binaryDecoder o) (decodeArray dec size ⟨f, []⟩) s).1.1 ∧
      (run (binaryDecoder o) (decodeStdArray dec size f) s).2 =
        (run (binaryDecoder o) (decodeArray dec size ⟨f, []⟩) s).2 := by
  rw [decodeStdArray, run_bind]
  exact ⟨rfl, rfl⟩

theorem spec_array (hZ : o.zcbor.PlaceLaws) (hforward : o.isForwardOnly = false)
    (h : Spec o dec exact accepts refuses) (size : ℕ) :
    Spec o (decodeStdArray dec size)
      (fun f s => (o.zcbor.listStartDecode s).1 = true → ¬ TargetType.TooShort o size s →
        ElementsExact o dec exact (o.zcbor.listStartDecode s).2.elemCount 0 ⟨f, []⟩ (o.zcbor.listStartDecode s).2)
      (fun s => (o.zcbor.listStartDecode s).1 = true ∧ ¬ TargetType.TooShort o size s ∧
        ElementsAccepted o accepts (o.zcbor.listStartDecode s).2.elemCount (o.zcbor.listStartDecode s).2)
      (fun _ => False) where
  accepts_place s s' hs haccepts := by
    obtain ⟨hstart, hshort, helements⟩ := haccepts
    exact ⟨(listStart_place hZ hs).1.1 hstart, fun h => hshort (tooShort_place hZ hs.symm h),
      listElements_place hZ h hs helements⟩
  refuses_place s s' hs h := h
  of_accepts f s haccepts := by
    obtain ⟨hstart, hshort, helements⟩ := haccepts
    obtain ⟨hexact, hok, hpasses, hend⟩ := run_elements_of_accepted hZ h helements 0 ⟨f, []⟩
    obtain ⟨hrun, hstate⟩ := @run_array_of_start _ _ dec _ ⟨f, []⟩ _ hstart hshort
    rw [(run_stdArray dec size f s).1, (run_stdArray dec size f s).2, hrun, hstate, hok, hend, if_pos rfl]
    exact ⟨fun _ _ => hexact, rfl, hZ.list.passes s _ _ hstart hpasses hend⟩
  of_refuses f s h := h.elim
  of_ok f s hexact hok := by
    rw [(run_stdArray dec size f s).1] at hok
    cases hstart : (o.zcbor.listStartDecode s).1 with
    | false =>
      rw [run_array_of_not_start hstart] at hok
      cases hok
    | true =>
      by_cases hshort : TargetType.TooShort o size s
      · rw [(run_array_of_tooShort hZ hforward hstart hshort).1] at hok
        cases hok
      · rw [(run_array_of_start hstart hshort).1, Bool.and_eq_true] at hok
        exact ⟨rfl, hshort, accepted_of_elements hZ h (hexact hstart hshort) hok.1 hok.2⟩
  of_not_ok f s hexact hok := by
    rw [(run_stdArray dec size f s).1] at hok
    rw [(run_stdArray dec size f s).2]
    refine .inr ?_
    cases hstart : (o.zcbor.listStartDecode s).1 with
    | false =>
      rw [run_array_of_not_start hstart]
      exact .inl (hZ.list.start_false s hstart)
    | true =>
      by_cases hshort : TargetType.TooShort o size s
      · exact .inl (run_array_of_tooShort hZ hforward hstart hshort).2
      · have hopen := hZ.list.start_true s hstart
        have hle := backups_le_of_elements hZ h (hexact hstart hshort)
        obtain ⟨hrun, hstate⟩ := @run_array_of_start _ _ dec _ ⟨f, []⟩ _ hstart hshort
        rw [hrun] at hok
        rw [hstate]
        refine .inr (hopen.trans_le ?_)
        split
        · rename_i hall
          rw [hall, Bool.true_and] at hok
          rw [backups_of_listEnd hZ hok]
          exact hle
        · exact hle

end Array

/-! ## Vectors -/

section Vector

variable {m : ℕ} {list : List T} {c : ℕ × List T}

/-- The callback of `decode(std::vector<T> *)`. -/
def pushElement (dec : T → Decoding (Decoded T)) (fresh : T) (_ : ℕ) (list : List T) : Decoding (Bool × List T) := do
  let d ← dec fresh
  pure (d.ok, if d.ok then list ++ [d.value fresh] else list)

variable (o dec fresh) in
/-- The loop of `decodeList`. -/
def vectorLoop (m : ℕ) (c : ℕ × List T) (s : ZcborState) : (Bool × List T) × ZcborState :=
  run (binaryDecoder o)
    (repeatUntil (fun c : ℕ × List T => (false, c.2)) (decodeListRound (pushElement dec fresh)) m c) s

/-- At the end of a list it is left. -/
theorem vectorLoop_of_end (hcount : s.elemCount = 0) :
    vectorLoop o dec fresh (m + 1) c s = (((o.zcbor.listEndDecode s).1, c.2), (o.zcbor.listEndDecode s).2) := by
  have hmore : run (binaryDecoder o) (decode .isInList) s = (false, s) :=
    Prod.ext (decide_eq_false (not_not_intro hcount)) rfl
  rw [vectorLoop, run_repeatUntil_succ, decodeListRound, run_bind, hmore]
  rfl

/-- An element is put behind what the vector has. -/
theorem vectorLoop_of_element (hcount : s.elemCount ≠ 0) :
    let d := run (binaryDecoder o) (dec fresh) s
    vectorLoop o dec fresh (m + 1) c s =
      if d.1.ok then vectorLoop o dec fresh m (c.1 + 1, c.2 ++ [d.1.value fresh]) d.2 else ((false, c.2), d.2) := by
  intro d
  have hmore : run (binaryDecoder o) (decode .isInList) s = (true, s) := Prod.ext (decide_eq_true hcount) rfl
  have hd : run (binaryDecoder o) (dec fresh) s = d := rfl
  rw [vectorLoop, run_repeatUntil_succ, decodeListRound, run_bind, hmore]
  dsimp only
  rw [if_pos rfl, run_bind, pushElement, run_bind, hd]
  rcases d with ⟨⟨_ | _, stored⟩, s'⟩ <;> rfl

theorem run_vector_of_accepted (hZ : o.zcbor.PlaceLaws) (h : Spec o dec exact accepts refuses)
    (helements : ElementsAccepted o accepts n s) (hcount : s.elemCount = n) (hm : n < m) (c : ℕ × List T) :
    FreshExact o dec exact fresh n s ∧ (vectorLoop o dec fresh m c s).1.1 = true ∧
      ∃ s', o.zcbor.Passes n s s' ∧ (o.zcbor.listEndDecode s').1 = true ∧
        (vectorLoop o dec fresh m c s).2 = (o.zcbor.listEndDecode s').2 := by
  induction n generalizing s m c with
  | zero =>
    obtain ⟨m, rfl⟩ : ∃ k, m = k + 1 := ⟨m - 1, by omega⟩
    rw [vectorLoop_of_end hcount]
    exact ⟨trivial, helements, s, rfl, helements, rfl⟩
  | succ n ih =>
    obtain ⟨m, rfl⟩ : ∃ k, m = k + 1 := ⟨m - 1, by omega⟩
    obtain ⟨haccepts, helements⟩ := helements
    obtain ⟨hexact, hok, hbehind⟩ := h.of_accepts fresh s haccepts
    have hcount' := hZ.elemCount_of_behind hbehind
    obtain ⟨hexact', hok', s', hpasses, hend, hstate⟩ := ih ((elementsAccepted_behind hZ h hbehind).1 helements)
      (by omega) (by omega : n < m) _
    rw [vectorLoop_of_element (by omega)]
    rw [if_pos hok]
    exact ⟨⟨hexact, fun _ => hexact'⟩, hok', s', ⟨_, hbehind, hpasses⟩, hend, hstate⟩

theorem accepted_of_vector (hZ : o.zcbor.PlaceLaws) (h : Spec o dec exact accepts refuses)
    (hexact : FreshExact o dec exact fresh n s) (hcount : s.elemCount = n) (hm : n < m)
    (hok : (vectorLoop o dec fresh m c s).1.1 = true) : ElementsAccepted o accepts n s := by
  induction n generalizing s m c with
  | zero =>
    obtain ⟨m, rfl⟩ : ∃ k, m = k + 1 := ⟨m - 1, by omega⟩
    rw [vectorLoop_of_end hcount] at hok
    exact hok
  | succ n ih =>
    obtain ⟨m, rfl⟩ : ∃ k, m = k + 1 := ⟨m - 1, by omega⟩
    obtain ⟨hexact, hrest⟩ := hexact
    rw [vectorLoop_of_element (by omega)] at hok
    split at hok
    · rename_i hd
      have haccepts := h.of_ok fresh s hexact hd
      obtain ⟨-, -, hbehind⟩ := h.of_accepts fresh s haccepts
      have hcount' := hZ.elemCount_of_behind hbehind
      exact ⟨haccepts, (elementsAccepted_behind hZ h hbehind).2 (ih (hrest hd) (by omega) (by omega) hok)⟩
    · cases hok

theorem backups_le_of_vector (hZ : o.zcbor.PlaceLaws) (h : Spec o dec exact accepts refuses)
    (hexact : FreshExact o dec exact fresh n s) (hcount : s.elemCount = n) (hm : n < m)
    (hok : (vectorLoop o dec fresh m c s).1.1 = false) :
    s.backups.length ≤ (vectorLoop o dec fresh m c s).2.backups.length := by
  induction n generalizing s m c with
  | zero =>
    obtain ⟨m, rfl⟩ : ∃ k, m = k + 1 := ⟨m - 1, by omega⟩
    rw [vectorLoop_of_end hcount] at hok ⊢
    rw [backups_of_listEnd hZ hok]
  | succ n ih =>
    obtain ⟨m, rfl⟩ : ∃ k, m = k + 1 := ⟨m - 1, by omega⟩
    obtain ⟨hexact, hrest⟩ := hexact
    have hle := h.backups_le hZ hexact
    rw [vectorLoop_of_element (by omega)] at hok ⊢
    split at hok
    · rename_i hd
      obtain ⟨-, -, hbehind⟩ := h.of_accepts fresh s (h.of_ok fresh s hexact hd)
      have hcount' := hZ.elemCount_of_behind hbehind
      rw [if_pos hd]
      exact hle.trans (ih (hrest hd) (by omega) (by omega) hok)
    · rename_i hd
      rw [if_neg hd]
      exact hle

/-- `ThingSetDecoder::decode(std::vector<T> *)`. -/
def decodeStdVector (dec : T → Decoding (Decoded T)) (fresh : T) (list : List T) : Decoding (Decoded (List T)) := do
  let (ok, list) ← decodeVector dec fresh list
  pure ⟨ok, some list⟩

theorem run_stdVector_of_not_start (list : List T) (hstart : (o.zcbor.listStartDecode s).1 = false) :
    (run (binaryDecoder o) (decodeStdVector dec fresh list) s).1.ok = false ∧
      (run (binaryDecoder o) (decodeStdVector dec fresh list) s).2 = (o.zcbor.listStartDecode s).2 := by
  have hrun : run (binaryDecoder o) (decode .listStart) s = (false, (o.zcbor.listStartDecode s).2) :=
    Prod.ext hstart rfl
  rw [decodeStdVector, run_bind, decodeVector, decodeList, run_bind, hrun]
  dsimp only
  rw [if_neg Bool.false_ne_true]
  exact ⟨rfl, rfl⟩

theorem run_stdVector_of_start (list : List T) (hstart : (o.zcbor.listStartDecode s).1 = true) :
    let r := vectorLoop o dec fresh sizeMax (0, list) (o.zcbor.listStartDecode s).2
    (run (binaryDecoder o) (decodeStdVector dec fresh list) s).1.ok = r.1.1 ∧
      (run (binaryDecoder o) (decodeStdVector dec fresh list) s).2 = r.2 := by
  have hrun : run (binaryDecoder o) (decode .listStart) s = (true, (o.zcbor.listStartDecode s).2) :=
    Prod.ext hstart rfl
  rw [decodeStdVector, run_bind, decodeVector, decodeList, run_bind, hrun]
  dsimp only
  rw [if_pos rfl]
  exact ⟨rfl, rfl⟩

theorem spec_vector (hZ : o.zcbor.PlaceLaws) (h : Spec o dec exact accepts refuses) (fresh : T) :
    Spec o (decodeStdVector dec fresh)
      (fun _ s => (o.zcbor.listStartDecode s).1 = true →
        FreshExact o dec exact fresh (o.zcbor.listStartDecode s).2.elemCount (o.zcbor.listStartDecode s).2)
      (fun s => (o.zcbor.listStartDecode s).1 = true ∧
        ElementsAccepted o accepts (o.zcbor.listStartDecode s).2.elemCount (o.zcbor.listStartDecode s).2)
      (fun _ => False) where
  accepts_place s s' hs haccepts :=
    ⟨(listStart_place hZ hs).1.1 haccepts.1, listElements_place hZ h hs haccepts.2⟩
  refuses_place s s' hs h := h
  of_accepts list s haccepts := by
    obtain ⟨hstart, helements⟩ := haccepts
    obtain ⟨hexact, hok, s', hpasses, hend, hstate⟩ := run_vector_of_accepted hZ h helements rfl
      (hZ.list_count s hstart) (0, list)
    obtain ⟨hrun, hrun'⟩ := @run_stdVector_of_start _ _ dec _ fresh list hstart
    rw [hrun, hrun', hok, hstate]
    exact ⟨fun _ => hexact, rfl, hZ.list.passes s _ _ hstart hpasses hend⟩
  of_refuses list s h := h.elim
  of_ok list s hexact hok := by
    cases hstart : (o.zcbor.listStartDecode s).1 with
    | false =>
      rw [(run_stdVector_of_not_start list hstart).1] at hok
      cases hok
    | true =>
      rw [(run_stdVector_of_start list hstart).1] at hok
      exact ⟨rfl, accepted_of_vector hZ h (hexact hstart) rfl (hZ.list_count s hstart) hok⟩
  of_not_ok list s hexact hok := by
    refine .inr ?_
    cases hstart : (o.zcbor.listStartDecode s).1 with
    | false =>
      rw [(run_stdVector_of_not_start list hstart).2]
      exact .inl (hZ.list.start_false s hstart)
    | true =>
      obtain ⟨hrun, hrun'⟩ := @run_stdVector_of_start _ _ dec _ fresh list hstart
      rw [hrun] at hok
      rw [hrun']
      exact .inr ((hZ.list.start_true s hstart).trans_le
        (backups_le_of_vector hZ h (hexact hstart) rfl (hZ.list_count s hstart) hok))

end Vector

end ThingSet
