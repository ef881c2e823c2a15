import ThingSet.Siblings.Binary
import ThingSet.Streaming.Skip

/-!
# The next sibling in a stream

`skip` of the streaming decoder passes neither a map nor what is not within its window, and `skipUntil` does not look
at what it returns. Where an element is not passed, the loop stays in front of it, or goes on among the elements of a
list that it does not leave.

* `ZcborDecode.ListElementLaws`: what `zcbor` does with lists.
* `StreamReader.Passes`: the elements that `skip` passes.
* `skipsUntil_stream_iff`: the decoder finds the sibling if it passes all elements in front of it.
-/

namespace ThingSet

open Interaction Prog ZcborDecode

/-- The bytes of the head of a list of `n` elements: it is entered where a backup is left, and nothing happens where
none is, or where the head is cut off. -/
structure ZcborDecode.Opens (Z : ZcborDecode) (head : Bytes) (n : ℕ) : Prop where
  start : ∀ s rest, s.elemCount ≠ 0 → s.backups.length + 2 < s.depth → s.remaining = head ++ rest →
    (Z.listStartDecode s).1 = true ∧ s.Advances head.length (Z.listStartDecode s).2 ∧
      (Z.listStartDecode s).2.elemCount = n ∧ (Z.listStartDecode s).2.indefinite = false ∧
        ∃ b, (Z.listStartDecode s).2.backups = b :: s.backups ∧ b.elemCount + 1 = s.elemCount
  full : ∀ s rest, ¬ s.backups.length + 2 < s.depth → s.remaining = head ++ rest → Z.listStartDecode s = (false, s)
  short : ∀ s, s.remaining <+: head → s.remaining ≠ head → Z.listStartDecode s = (false, s)

/-- What the functions make of lists, where all are of definite length. -/
structure ZcborDecode.ListElementLaws (Z : ZcborDecode) : Prop where
  list : ∀ e, Z.IsElement e → nodeType e = .list →
    ∃ (head : Bytes) (es : List Bytes), e = head ++ es.flatten ∧ Z.Opens head es.length ∧ ∀ x ∈ es, Z.IsElement x
  other : ∀ s, s.remaining ≠ [] → BinaryDecoder.peekType s ≠ .list → Z.listStartDecode s = (false, s)
  listEnd : ∀ s b backups, s.backups = b :: backups → s.indefinite = false → s.elemCount = 0 →
    (Z.listEndDecode s).1 = true ∧ s.Advances 0 (Z.listEndDecode s).2 ∧
      (Z.listEndDecode s).2.elemCount = b.elemCount ∧ (Z.listEndDecode s).2.backups = backups
  skip_backups : ∀ s, (Z.anySkip s).2.backups = s.backups
  start_true : ∀ s, (Z.listStartDecode s).1 = true → s.backups.length < (Z.listStartDecode s).2.backups.length
  start_false : ∀ s, (Z.listStartDecode s).1 = false → (Z.listStartDecode s).2.backups = s.backups
  stop_backups : ∀ s, s.backups.length ≤ (Z.listEndDecode s).2.backups.length + 1

namespace StreamReader

variable {ρ : Type} (R : StreamReader ρ) (Z : ZcborDecode)

/-- `StreamingThingSetBinaryDecoder`. -/
def streamDecoder : Decoder (StreamReadState ρ)
  | .skip, s => R.skip Z s
  | o, s => R.windowDecoder Z o s

/-- Each element is within the window where it starts. -/
def WithinEach : ℕ → List Bytes → Prop
  | _, [] => True
  | a, x :: xs => a + x.length ≤ R.windowEnd a ∧ WithinEach (a + x.length) xs

/-- An element that `skip` passes: it is no map, and within the window where it starts. A list is entered, so `zcbor`
needs a backup for it, and its head and its elements have to be within the windows where they start. -/
def Passes (entered : Prop) (a : ℕ) (e : Bytes) : Prop :=
  match nodeType e with
  | .map => False
  | .list => entered ∧ ∃ (head : Bytes) (es : List Bytes), e = head ++ es.flatten ∧ Z.Opens head es.length ∧
      (∀ x ∈ es, Z.IsElement x) ∧ a + head.length ≤ R.windowEnd a ∧ R.WithinEach (a + head.length) es
  | _ => a + e.length ≤ R.windowEnd a

/-- Elements that `skip` passes one after the other. -/
def PassesEach (entered : Prop) : ℕ → List Bytes → Prop
  | _, [] => True
  | a, x :: xs => R.Passes Z entered a x ∧ PassesEach entered (a + x.length) xs

variable {R Z} {unread : ρ → Bytes} {T rest e head : Bytes} {es : List Bytes} {a k n elements depth : ℕ}
  {backups : List ZcborBackup} {s s' : StreamReadState ρ} {sought : EncodedNodeType}

/-! ## Elements -/

theorem ensureLength_of_le (h : s.zcbor.payload ≤ R.dataSize) : R.ensureLength s = s :=
  if_neg (Nat.not_lt.2 h)

theorem backups_ensureLength (s : StreamReadState ρ) : (R.ensureLength s).zcbor.backups = s.zcbor.backups := by
  unfold ensureLength
  dsimp only
  split <;> rfl

/-- What the window has of some bytes: all of them, or they are cut off. -/
theorem remaining_cases (h : R.InWindow unread T k s) (hT : T.drop (k * R.dataSize + s.zcbor.payload) = e ++ rest) :
    (s.zcbor.payload + e.length ≤ 2 * R.dataSize ∧ ∃ rest', s.zcbor.remaining = e ++ rest') ∨
      (2 * R.dataSize < s.zcbor.payload + e.length ∧ s.zcbor.remaining <+: e ∧ s.zcbor.remaining ≠ e) := by
  by_cases hle : s.zcbor.payload + e.length ≤ 2 * R.dataSize
  · exact .inl ⟨hle, remaining_of_le h hT hle⟩
  · exact .inr ⟨Nat.not_le.1 hle, remaining_of_lt h hT (Nat.not_le.1 hle)⟩

/-- An element is skipped when it is within the window where it starts, and else nothing is. -/
theorem skip_element (hread : R.ReadsNext unread) (he : Z.IsElement e)
    (h : R.Elements unread T a (elements + 1) backups depth s) (hT : T.drop a = e ++ rest) :
    let r := run (R.windowDecoder Z) (decode .skip) s
    (a + e.length ≤ R.windowEnd a → r.1 = true ∧ R.Elements unread T (a + e.length) elements backups depth r.2 ∧
        r.2.zcbor.indefinite = s.zcbor.indefinite) ∧
      (¬ a + e.length ≤ R.windowEnd a → r = (false, R.ensureLength s)) := by
  obtain ⟨k, hk, ha, hle, hend, ⟨-, helem, hbackups, hdepth⟩, hindefinite⟩ := getState_spec hread h
  have hrun : run (R.windowDecoder Z) (decode .skip) s = ((Z.anySkip (R.ensureLength s).zcbor).1,
      { R.ensureLength s with zcbor := (Z.anySkip (R.ensureLength s).zcbor).2 }) := rfl
  rw [← ha] at hT
  dsimp only
  rw [hrun, hend, Nat.add_mul]
  rcases remaining_cases hk hT with ⟨hpayload, rest', hremaining⟩ | ⟨hpayload, hcut, hne⟩
  · obtain ⟨hok, hreads⟩ := he.skip _ rest' (by rw [helem]; exact Nat.succ_ne_zero _) hremaining
    refine ⟨fun _ => ⟨hok, ⟨⟨k, hk.advance hreads.toAdvances hpayload, ?_⟩, ?_, ?_, ?_⟩, ?_⟩, fun hnot => ?_⟩
    · dsimp only
      rw [hreads.payload]
      omega
    · have hcount := hreads.elemCount
      dsimp only
      omega
    · exact hreads.backups.trans hbackups
    · exact hreads.depth.trans hdepth
    · exact hreads.indefinite.trans hindefinite
    · omega
  · refine ⟨fun hfits => by omega, fun _ => ?_⟩
    rw [he.short _ hcut hne]

/-- What `peekType` looks at is the element. -/
theorem peekType_element (hread : R.ReadsNext unread) (hne : e ≠ [])
    (h : R.Elements unread T a elements backups depth s) (hT : T.drop a = e ++ rest) :
    run (R.windowDecoder Z) (decode .peekType) s = (nodeType e, R.ensureLength s) ∧
      (R.ensureLength s).zcbor.remaining ≠ [] ∧ BinaryDecoder.peekType (R.ensureLength s).zcbor = nodeType e := by
  obtain ⟨k, hk, ha, hle, -, -, -⟩ := getState_spec hread h
  have hpos := dataSize_pos (R := R)
  cases e with
  | nil => exact absurd rfl hne
  | cons b e =>
    rw [← ha] at hT
    have hfirst : T.drop (k * R.dataSize + (R.ensureLength s).zcbor.payload) = [b] ++ (e ++ rest) := hT
    obtain ⟨rest', hremaining⟩ := remaining_of_le hk hfirst (by rw [List.length_singleton]; omega)
    have htype : BinaryDecoder.peekType (R.ensureLength s).zcbor = nodeType (b :: e) :=
      peekType_of_head (ZcborState.getD_payload hremaining) rfl
    refine ⟨Prod.ext htype rfl, ?_, htype⟩
    rw [hremaining]
    exact List.cons_ne_nil b rest'

/-! ## Lists -/

/-- The loop on the elements of a list: it leaves the list when each element is within the window where it starts. -/
theorem skip_eachElement (hZ : Z.ListElementLaws) (hread : R.ReadsNext unread) (hes : ∀ x ∈ es, Z.IsElement x)
    {b : ZcborBackup} (bound i : ℕ) (hbound : es.length < bound)
    (h : R.Elements unread T a es.length (b :: backups) depth s) (hindefinite : s.zcbor.indefinite = false)
    (hT : T.drop a = es.flatten ++ rest) :
    let r := run (R.windowDecoder Z)
      (repeatUntil (fun c : ℕ × Unit => (false, c.2)) (decodeListRound skipElement) bound (i, ())) s
    (R.WithinEach a es → R.Elements unread T (a + es.flatten.length) b.elemCount backups depth r.2) ∧
      (¬ R.WithinEach a es → r.2.zcbor.backups = b :: backups) := by
  induction es generalizing bound i a s with
  | nil =>
    obtain ⟨bound, rfl⟩ : ∃ m, bound = m + 1 := ⟨bound - 1, by omega⟩
    obtain ⟨k, hk, ha, hle, -, ⟨-, helem, hbackups, hdepth⟩, hindefinite'⟩ := getState_spec hread h
    have hrun : run (R.windowDecoder Z) (decode .listEnd) s = ((Z.listEndDecode (R.ensureLength s).zcbor).1,
        { R.ensureLength s with zcbor := (Z.listEndDecode (R.ensureLength s).zcbor).2 }) := rfl
    obtain ⟨-, hadvances, hcount, hbackups'⟩ := hZ.listEnd _ b backups hbackups (hindefinite'.trans hindefinite) helem
    rw [run_repeatUntil_succ, run_round_of_zero i h.elemCount, hrun]
    dsimp only
    refine ⟨fun _ => ⟨⟨k, hk.advance hadvances (by omega), ?_⟩, hcount, hbackups', ?_⟩, fun hnot => absurd trivial hnot⟩
    · dsimp only
      rw [hadvances.payload]
      exact ha
    · exact hadvances.depth.trans hdepth
  | cons x es ih =>
    obtain ⟨bound, rfl⟩ : ∃ m, bound = m + 1 := ⟨bound - 1, by omega⟩
    rw [List.flatten_cons, List.append_assoc] at hT
    rw [List.length_cons] at h hbound
    obtain ⟨hpass, hstay⟩ := skip_element hread (hes x List.mem_cons_self) h hT
    have hne : s.zcbor.elemCount ≠ 0 := by
      rw [h.elemCount]
      exact Nat.succ_ne_zero _
    rw [run_repeatUntil_succ, run_round_of_ne i hne]
    by_cases hfits : a + x.length ≤ R.windowEnd a
    · obtain ⟨hok, helements, hindefinite'⟩ := hpass hfits
      have hT' : T.drop (a + x.length) = es.flatten ++ rest := by
        rw [← List.drop_drop, hT, List.drop_left]
      obtain ⟨hin, hout⟩ := ih (fun y hy => hes y (List.mem_cons_of_mem x hy)) bound (i + 1) (by omega) helements
        (hindefinite'.trans hindefinite) hT'
      rw [hok]
      dsimp only
      refine ⟨fun hwithin => ?_, fun hnot => hout fun hwithin => hnot ⟨hfits, hwithin⟩⟩
      rw [List.flatten_cons, List.length_append, ← Nat.add_assoc]
      exact hin hwithin.2
    · rw [hstay hfits]
      exact ⟨fun hwithin => absurd hwithin.1 hfits, fun _ => (backups_ensureLength s).trans h.backups⟩

theorem length_le_flatten (hes : ∀ x ∈ es, Z.IsElement x) : es.length ≤ es.flatten.length := by
  induction es with
  | nil => exact Nat.le_refl 0
  | cons x es ih =>
    have hpos := List.length_pos_iff.2 (hes x List.mem_cons_self).ne_nil
    have hlen := ih fun y hy => hes y (List.mem_cons_of_mem x hy)
    rw [List.flatten_cons, List.length_append, List.length_cons]
    omega

/-- A list, in a stream whose positions are of type `size_t`: it is passed, or not entered, or not left. -/
theorem skip_listElement (hZ : Z.ListElementLaws) (hread : R.ReadsNext unread) (hsize : T.length < sizeMax)
    (hes : ∀ x ∈ es, Z.IsElement x) (hhead : Z.Opens head es.length)
    (h : R.Elements unread T a (elements + 1) backups depth s) (hT : T.drop a = head ++ es.flatten ++ rest) :
    let r := run (R.windowDecoder Z) (decodeList skipElement ()) s
    (backups.length + 2 < depth ∧ a + head.length ≤ R.windowEnd a ∧ R.WithinEach (a + head.length) es →
      R.Elements unread T (a + (head ++ es.flatten).length) elements backups depth r.2) ∧
    (¬ (backups.length + 2 < depth ∧ a + head.length ≤ R.windowEnd a ∧ R.WithinEach (a + head.length) es) →
      r.2 = R.ensureLength s ∨ backups.length < r.2.zcbor.backups.length) := by
  obtain ⟨k, hk, ha, hle, hend, ⟨-, helem, hbackups, hdepth⟩, -⟩ := getState_spec hread h
  rw [List.append_assoc] at hT
  have hT' : T.drop (a + head.length) = es.flatten ++ rest := by
    rw [← List.drop_drop, hT, List.drop_left]
  have hlength : es.length < sizeMax := by
    have hflat := length_le_flatten hes
    have hTlen := congrArg List.length hT
    rw [List.length_drop, List.length_append, List.length_append] at hTlen
    omega
  have hstart : run (R.windowDecoder Z) (decode .listStart) s = ((Z.listStartDecode (R.ensureLength s).zcbor).1,
      { R.ensureLength s with zcbor := (Z.listStartDecode (R.ensureLength s).zcbor).2 }) := rfl
  have hrefused (hlist : Z.listStartDecode (R.ensureLength s).zcbor = (false, (R.ensureLength s).zcbor)) :
      run (R.windowDecoder Z) (decodeList skipElement ()) s = ((false, ()), R.ensureLength s) := by
    rw [hlist] at hstart
    rw [decodeList, run_bind, hstart]
    rfl
  rw [← ha] at hT
  dsimp only
  rw [hend, Nat.add_mul, List.length_append, ← Nat.add_assoc]
  rcases remaining_cases hk hT with ⟨hpayload, rest', hremaining⟩ | ⟨hpayload, hcut, hne⟩
  · by_cases hentered : backups.length + 2 < depth
    · obtain ⟨hok, hadvances, hcount, hindefinite, b, hb, hbcount⟩ := hhead.start _ rest'
        (by rw [helem]; exact Nat.succ_ne_zero _) (by rw [hbackups, hdepth]; exact hentered) hremaining
      rw [hok] at hstart
      have h₁ : R.Elements unread T (a + head.length) es.length (b :: backups) depth
          { R.ensureLength s with zcbor := (Z.listStartDecode (R.ensureLength s).zcbor).2 } := by
        refine ⟨⟨k, hk.advance hadvances hpayload, ?_⟩, hcount, ?_, hadvances.depth.trans hdepth⟩
        · dsimp only
          rw [hadvances.payload]
          omega
        · rw [← hbackups]
          exact hb
      obtain ⟨hin, hout⟩ := skip_eachElement hZ hread hes sizeMax 0 hlength h₁ hindefinite hT'
      obtain rfl : b.elemCount = elements := by
        rw [helem] at hbcount
        exact Nat.succ.inj hbcount
      rw [decodeList, run_bind, hstart]
      refine ⟨fun hwithin => hin hwithin.2.2, fun hnot => .inr ?_⟩
      have hlist := congrArg List.length (hout fun hwithin => hnot ⟨hentered, by omega, hwithin⟩)
      exact lt_of_lt_of_eq (Nat.lt_succ_self _) hlist.symm
    · rw [hrefused (hhead.full _ rest' (by rw [hbackups, hdepth]; exact hentered) hremaining)]
      exact ⟨fun hwithin => absurd hwithin.1 hentered, fun _ => .inl rfl⟩
  · rw [hrefused (hhead.short _ hcut hne)]
    exact ⟨fun hwithin => by have := hwithin.2.1; omega, fun _ => .inl rfl⟩

/-! ## Where an element is not passed -/

theorem backups_skip (hZ : Z.ListElementLaws) (s : StreamReadState ρ) :
    (run (R.windowDecoder Z) (decode .skip) s).2.zcbor.backups = s.zcbor.backups :=
  (hZ.skip_backups _).trans (backups_ensureLength s)

theorem backups_listEnd (hZ : Z.ListElementLaws) (s : StreamReadState ρ) :
    s.zcbor.backups.length ≤ (run (R.windowDecoder Z) (decode .listEnd) s).2.zcbor.backups.length + 1 := by
  rw [← backups_ensureLength (R := R) s]
  exact hZ.stop_backups _

/-- The loop on the elements of a list leaves no list but this one. -/
theorem backups_loop (hZ : Z.ListElementLaws) (bound i : ℕ) (s : StreamReadState ρ) :
    s.zcbor.backups.length ≤ (run (R.windowDecoder Z)
      (repeatUntil (fun c : ℕ × Unit => (false, c.2)) (decodeListRound skipElement) bound (i, ())) s).2.zcbor.backups.length + 1 := by
  induction bound generalizing i s with
  | zero => exact Nat.le_succ _
  | succ bound ih =>
    rw [run_repeatUntil_succ]
    by_cases hcount : s.zcbor.elemCount = 0
    · rw [run_round_of_zero i hcount]
      exact backups_listEnd hZ s
    · rw [run_round_of_ne i hcount]
      have hskip := backups_skip (R := R) hZ s
      generalize run (R.windowDecoder Z) (decode .skip) s = r at hskip ⊢
      obtain ⟨ok, s'⟩ := r
      rw [← hskip]
      cases ok with
      | false => exact Nat.le_succ _
      | true => exact ih (i + 1) s'

theorem backups_skipEntries (hZ : Z.ListElementLaws) (n : ℕ) (s : StreamReadState ρ) :
    s.zcbor.backups.length ≤ (R.skipEntries Z n s).2.zcbor.backups.length + 1 := by
  induction n generalizing s with
  | zero => exact backups_listEnd hZ s
  | succ n ih =>
    rw [skipEntries]
    have hkey := backups_skip (R := R) hZ s
    generalize run (R.windowDecoder Z) (decode .skip) s = r at hkey ⊢
    obtain ⟨key, s₁⟩ := r
    rw [← hkey]
    cases key with
    | false => exact Nat.le_succ _
    | true =>
      have hvalue := backups_skip (R := R) hZ s₁
      dsimp only
      rw [Bool.not_true, if_neg Bool.false_ne_true]
      generalize run (R.windowDecoder Z) (decode .skip) s₁ = r at hvalue ⊢
      obtain ⟨value, s₂⟩ := r
      rw [← hvalue]
      cases value with
      | false => exact Nat.le_succ _
      | true => exact ih s₂

/-- `skip` leaves no list that it has not entered. -/
theorem backups_le_skip (hZ : Z.ListElementLaws) (s : StreamReadState ρ) :
    s.zcbor.backups.length ≤ (R.skip Z s).2.zcbor.backups.length := by
  have hstart (s : StreamReadState ρ) : run (R.windowDecoder Z) (decode .listStart) s =
      ((Z.listStartDecode (R.ensureLength s).zcbor).1,
        { R.ensureLength s with zcbor := (Z.listStartDecode (R.ensureLength s).zcbor).2 }) := rfl
  have hpeek : run (R.windowDecoder Z) (decode .peekType) s =
      (BinaryDecoder.peekType (R.ensureLength s).zcbor, R.ensureLength s) := rfl
  rw [skip, hpeek, ← backups_ensureLength (R := R) s, ← backups_ensureLength (R := R) (R.ensureLength s)]
  cases BinaryDecoder.peekType (R.ensureLength s).zcbor with
  | list =>
    dsimp only
    rw [decodeList, run_bind, hstart]
    cases hok : (Z.listStartDecode (R.ensureLength (R.ensureLength s)).zcbor).1 with
    | false => exact Nat.le_of_eq (congrArg List.length (hZ.start_false _ hok)).symm
    | true =>
      have hloop := backups_loop (R := R) hZ sizeMax 0 { R.ensureLength (R.ensureLength s) with
        zcbor := (Z.listStartDecode (R.ensureLength (R.ensureLength s)).zcbor).2 }
      exact Nat.le_of_lt_succ ((hZ.start_true _ hok).trans_le hloop)
  | map =>
    dsimp only
    rw [hstart]
    cases hok : (Z.listStartDecode (R.ensureLength (R.ensureLength s)).zcbor).1 with
    | false => exact Nat.le_of_eq (congrArg List.length (hZ.start_false _ hok)).symm
    | true =>
      refine Nat.le_of_lt_succ ((hZ.start_true _ hok).trans_le ?_)
      refine le_trans (Nat.le_of_eq ?_) (backups_skipEntries hZ _ _)
      rw [backups_ensureLength]
  | _ =>
    refine Nat.le_of_eq (congrArg List.length ?_)
    exact (backups_ensureLength _).trans (backups_skip hZ (R.ensureLength s)).symm

/-- `skip` on an element: it is passed, or the decoder stays in front of it, or in it. -/
theorem skip_cases (hZ : Z.ListElementLaws) (hread : R.ReadsNext unread) (hsize : T.length < sizeMax)
    (he : Z.IsElement e) (h : R.Elements unread T a (elements + 1) backups depth s) (hT : T.drop a = e ++ rest) :
    (R.Passes Z (backups.length + 2 < depth) a e →
      R.Elements unread T (a + e.length) elements backups depth (R.skip Z s).2) ∧
    (¬ R.Passes Z (backups.length + 2 < depth) a e →
      (R.skip Z s).2 = R.ensureLength s ∨ backups.length < (R.skip Z s).2.zcbor.backups.length) := by
  obtain ⟨k, -, -, hle, -, h₁, -⟩ := getState_spec hread h
  have hstable : R.ensureLength (R.ensureLength s) = R.ensureLength s := ensureLength_of_le hle
  obtain ⟨hpeek, hne, htype⟩ := peekType_element (Z := Z) hread he.ne_nil h hT
  have hscalar (hother : nodeType e ≠ .map) (hother' : nodeType e ≠ .list)
      (hskip : R.skip Z s = run (R.windowDecoder Z) (decode .skip) (R.ensureLength s)) :
      (R.Passes Z (backups.length + 2 < depth) a e →
        R.Elements unread T (a + e.length) elements backups depth (R.skip Z s).2) ∧
      (¬ R.Passes Z (backups.length + 2 < depth) a e →
        (R.skip Z s).2 = R.ensureLength s ∨ backups.length < (R.skip Z s).2.zcbor.backups.length) := by
    have hiff : R.Passes Z (backups.length + 2 < depth) a e ↔ a + e.length ≤ R.windowEnd a := by
      unfold Passes
      split
      · exact absurd ‹_› hother
      · exact absurd ‹_› hother'
      · exact Iff.rfl
    obtain ⟨hpass, hstay⟩ := skip_element hread he h₁ hT
    rw [hiff, hskip]
    refine ⟨fun hfits => (hpass hfits).2.1, fun hnot => .inl ?_⟩
    rw [hstay hnot, hstable]
  cases hnode : nodeType e with
  | map =>
    have hrefused : Z.listStartDecode (R.ensureLength s).zcbor = (false, (R.ensureLength s).zcbor) :=
      hZ.other _ hne (by rw [htype, hnode]; decide)
    have hstart : run (R.windowDecoder Z) (decode .listStart) (R.ensureLength s) = (false, R.ensureLength s) := by
      change ((Z.listStartDecode (R.ensureLength (R.ensureLength s)).zcbor).1,
        ({ R.ensureLength (R.ensureLength s) with
            zcbor := (Z.listStartDecode (R.ensureLength (R.ensureLength s)).zcbor).2 } : StreamReadState ρ)) = _
      rw [hstable, hrefused]
    have hskip : (R.skip Z s).2 = R.ensureLength s := by
      rw [skip, hpeek, hnode]
      dsimp only
      rw [hstart]
      rfl
    refine ⟨fun hpasses => ?_, fun _ => .inl hskip⟩
    rw [Passes, hnode] at hpasses
    exact hpasses.elim
  | list =>
    have hskip : (R.skip Z s).2 = (run (R.windowDecoder Z) (decodeList skipElement ()) (R.ensureLength s)).2 := by
      rw [skip, hpeek, hnode]
    rw [hskip]
    constructor
    · intro hpasses
      rw [Passes, hnode] at hpasses
      obtain ⟨hentered, head, es, rfl, hhead, hes, hfits, hwithin⟩ := hpasses
      exact (skip_listElement hZ hread hsize hes hhead h₁ hT).1 ⟨hentered, hfits, hwithin⟩
    · intro hnot
      obtain ⟨head, es, rfl, hhead, hes⟩ := hZ.list e he hnode
      have hlist := (skip_listElement hZ hread hsize hes hhead h₁ hT).2 fun hin => hnot (by
        rw [Passes, hnode]
        exact ⟨hin.1, head, es, rfl, hhead, hes, hin.2⟩)
      rw [hstable] at hlist
      exact hlist
  | _ => exact hscalar (by rw [hnode]; decide) (by rw [hnode]; decide) (by rw [skip, hpeek, hnode])

/-! ## The loop -/

/-- `peekType` looks at a byte of the stream. -/
def WithinStream (R : StreamReader ρ) (unread : ρ → Bytes) (T : Bytes) (s : StreamReadState ρ) : Prop :=
  ∃ a < T.length, R.At unread T a s

theorem withinStream_of_element (he : e ≠ []) (h : R.Elements unread T a elements backups depth s)
    (hT : T.drop a = e ++ rest) : R.WithinStream unread T s := by
  refine ⟨a, ?_, h.position⟩
  have hpos := List.length_pos_iff.2 he
  have hlen := congrArg List.length hT
  rw [List.length_drop, List.length_append] at hlen
  omega

/-- A round in front of an element of another type. -/
theorem run_round_of_element (hread : R.ReadsNext unread) (hne : e ≠ [])
    (h : R.Elements unread T a elements backups depth s) (hT : T.drop a = e ++ rest) (htype : nodeType e ≠ sought) :
    run (R.streamDecoder Z) (skipUntilRound sought) s = (none, (R.skip Z (R.ensureLength s)).2) :=
  run_skipUntilRound_ne (h := R.streamDecoder Z) (peekType_element hread hne h hT).1 htype

/-- Where all elements in front of it are passed, the sibling is reached. -/
theorem ends_of_passesEach (hZ : Z.ListElementLaws) (hread : R.ReadsNext unread) (hsize : T.length < sizeMax)
    (h : R.Elements unread T a elements backups depth s) (hnext : Z.NextSibling sought elements (T.drop a) es)
    (hpasses : R.PassesEach Z (backups.length + 2 < depth) a es) :
    ∃ s', Ends (R.streamDecoder Z) (skipUntilRound sought) (R.WithinStream unread T) s true s' ∧
      R.Elements unread T (a + es.flatten.length) (elements - es.length) backups depth s' := by
  induction es generalizing a elements s with
  | nil =>
    obtain ⟨-, -, e, he, htype, rest, hrest⟩ := hnext
    have hT : T.drop a = e ++ rest := hrest.symm
    obtain ⟨-, -, -, -, -, h₁, -⟩ := getState_spec hread h
    have hpeek := (peekType_element (Z := Z) hread he.ne_nil h hT).1
    rw [htype] at hpeek
    exact ⟨_, (ends_of_some (run_skipUntilRound_eq (h := R.streamDecoder Z) hpeek)).2
      ⟨withinStream_of_element he.ne_nil h hT, rfl, rfl⟩, h₁⟩
  | cons x es ih =>
    obtain ⟨hx, htype⟩ := hnext.2.1 x List.mem_cons_self
    obtain ⟨rest, hT⟩ := hnext.head
    obtain ⟨n, rfl⟩ : ∃ n, elements = n + 1 := ⟨elements - 1, by have := hnext.1; omega⟩
    obtain ⟨-, -, -, -, -, h₁, -⟩ := getState_spec hread h
    have h₂ := (skip_cases hZ hread hsize hx h₁ hT).1 hpasses.1
    rw [hT] at hnext
    have hrest : T.drop (a + x.length) = rest := by
      rw [← List.drop_drop, hT, List.drop_left]
    obtain ⟨s', hends, hs'⟩ := ih h₂ (by rw [hrest]; exact hnext.tail) hpasses.2
    refine ⟨s', (ends_of_none (run_round_of_element hread hx.ne_nil h hT htype)).2
      ⟨withinStream_of_element hx.ne_nil h hT, hends⟩, ?_⟩
    rw [List.flatten_cons, List.length_append, List.length_cons, ← Nat.add_assoc, Nat.add_sub_add_right]
    exact hs'

/-- Where one is not passed, the loop does not end, or it ends in a list. -/
theorem passesEach_of_ends (hZ : Z.ListElementLaws) (hread : R.ReadsNext unread) (hsize : T.length < sizeMax)
    (h : R.Elements unread T a elements backups depth s) (hnext : Z.NextSibling sought elements (T.drop a) es)
    (hends : Ends (R.streamDecoder Z) (skipUntilRound sought) (R.WithinStream unread T) s true s')
    (hbackups : s'.zcbor.backups = backups) : R.PassesEach Z (backups.length + 2 < depth) a es := by
  induction es generalizing a elements s with
  | nil => trivial
  | cons x es ih =>
    obtain ⟨hx, htype⟩ := hnext.2.1 x List.mem_cons_self
    obtain ⟨rest, hT⟩ := hnext.head
    obtain ⟨n, rfl⟩ : ∃ n, elements = n + 1 := ⟨elements - 1, by have := hnext.1; omega⟩
    obtain ⟨k, -, -, hle, -, h₁, -⟩ := getState_spec hread h
    have hstable : R.ensureLength (R.ensureLength s) = R.ensureLength s := ensureLength_of_le hle
    obtain ⟨hpass, hstay⟩ := skip_cases hZ hread hsize hx h₁ hT
    have hends' := ((ends_of_none (run_round_of_element hread hx.ne_nil h hT htype)).1 hends).2
    by_cases hpasses : R.Passes Z (backups.length + 2 < depth) a x
    · rw [hT] at hnext
      have hrest : T.drop (a + x.length) = rest := by
        rw [← List.drop_drop, hT, List.drop_left]
      exact ⟨hpasses, ih (hpass hpasses) (by rw [hrest]; exact hnext.tail) hends'⟩
    · rcases hstay hpasses with hsame | hdeep
      · -- the next round is in front of the same element
        rw [hstable] at hsame
        have hround := run_round_of_element (Z := Z) hread hx.ne_nil h₁ hT htype
        rw [hstable, hsame] at hround
        rw [hsame] at hends'
        exact absurd hends' (not_ends_of_fixed hround)
      · -- the list that the decoder is in is never left
        have hinside := hends'.invariant (P := fun x => backups.length < x.zcbor.backups.length) ?_ hdeep
        · rw [hbackups] at hinside
          exact absurd hinside (Nat.lt_irrefl _)
        · intro x hdeep
          have hpeek : run (R.streamDecoder Z) (decode .peekType) x =
              (BinaryDecoder.peekType (R.ensureLength x).zcbor, R.ensureLength x) := rfl
          rw [← backups_ensureLength (R := R) x] at hdeep
          by_cases heq : BinaryDecoder.peekType (R.ensureLength x).zcbor = sought
          · rw [heq] at hpeek
            rw [run_skipUntilRound_eq hpeek]
            exact hdeep
          · rw [run_skipUntilRound_ne hpeek heq]
            exact hdeep.trans_le (backups_le_skip hZ (R.ensureLength x))

end StreamReader

open StreamReader in
/-- **The streaming decoder skips to the next sibling of a type exactly if one is left and it passes all elements in
front of it.** -/
theorem skipsUntil_stream_iff {ρ : Type} {R : StreamReader ρ} {Z : ZcborDecode} {unread : ρ → Bytes} {T : Bytes}
    {a elements depth : ℕ} {backups : List ZcborBackup} {s : StreamReadState ρ} (sought : EncodedNodeType)
    (hZ : Z.ListElementLaws) (hread : R.ReadsNext unread) (hsize : T.length < sizeMax)
    (h : R.Elements unread T a elements backups depth s) :
    SkipsUntil (R.streamDecoder Z) sought (R.WithinStream unread T) (Z.NextSibling sought elements (T.drop a))
        (fun es => R.Elements unread T (a + es.flatten.length) (elements - es.length) backups depth) s ↔
      ∃ es, Z.NextSibling sought elements (T.drop a) es ∧ R.PassesEach Z (backups.length + 2 < depth) a es := by
  refine skipsUntil_iff_ends.trans ⟨?_, ?_⟩
  · rintro ⟨-, s', hends, es, hes, hs'⟩
    exact ⟨es, hes, passesEach_of_ends hZ hread hsize h hes hends hs'.backups⟩
  · rintro ⟨es, hes, hpasses⟩
    obtain ⟨s', hends, hs'⟩ := ends_of_passesEach hZ hread hsize h hes hpasses
    exact ⟨⟨es, hes⟩, s', hends, es, hes, hs'⟩

end ThingSet
