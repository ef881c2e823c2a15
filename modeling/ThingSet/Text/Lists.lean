import ThingSet.Text.RoundTrip

/-!
# Lists that are read back

The decode of a list returns false as soon as that of an element does, and a member of a record that it belongs to
still counts as decoded. So where all of a value is known to be read, it is readable.

* `Known`: what is known of the value that a decode leaves.
* `ReadsReadable`: a value that is read is readable.
* `readsReadable_array`: it is so of a list if it is of its elements.
-/

namespace ThingSet

open Interaction Prog TextDecoderState TextDecoder

variable {o : TextDecoderOptions}

/-! ## The cursors move forward -/

section

variable {s : TextDecoderState} (hs : s.parser.tokens ≠ []) (i q : ℕ)
include hs

/-- A token is taken, or nothing is changed. -/
theorem exists_expectType_seek (type : JsmnType) :
    (∃ tok q', expectType type (s.seek i q) = (some tok, s.seek (i + 1) q')) ∨
      expectType type (s.seek i q) = (none, s.seek i q) := by
  by_cases htype : (s.token i).type = type
  · exact .inl ⟨_, _, expectType_seek hs htype⟩
  · exact .inr (expectType_seek_ne hs htype)

theorem exists_decodePrimitive_seek {α : Type} (parseFunc : Bytes → α × ℕ) :
    ∃ i' q', i ≤ i' ∧ (decodePrimitive parseFunc (s.seek i q)).2 = s.seek i' q' := by
  rw [decodePrimitive]
  rcases exists_expectType_seek hs i q .primitive with ⟨tok, q', hrun⟩ | hrun
  · rw [hrun]
    exact ⟨i + 1, _, Nat.le_succ i, rfl⟩
  · rw [hrun]
    exact ⟨i, q, Nat.le_refl i, rfl⟩

/-- A call moves the cursors, that of the tokens forward. -/
theorem exists_textDecoder_seek (op : DecodeOp) :
    ∃ i' q', i ≤ i' ∧ (textDecoder o op (s.seek i q)).2 = s.seek i' q' := by
  have hexpect (type : JsmnType) {t : TextDecoderState} (ht : t = (expectType type (s.seek i q)).2) :
      ∃ i' q', i ≤ i' ∧ t = s.seek i' q' := by
    subst ht
    rcases exists_expectType_seek hs i q type with ⟨tok, q', hrun⟩ | hrun
    · exact ⟨i + 1, q', Nat.le_succ i, by rw [hrun]⟩
    · exact ⟨i, q, Nat.le_refl i, by rw [hrun]⟩
  cases op with
  | string =>
    refine hexpect .string ?_
    change (TextDecoder.string (s.seek i q)).2 = _
    rw [TextDecoder.string]
    split <;> rename_i hrun <;> rw [hrun]
  | chars size =>
    refine hexpect .string ?_
    change (TextDecoder.chars size (s.seek i q)).2 = _
    rw [TextDecoder.chars]
    split <;> rename_i hrun <;> rw [hrun]
  | bool =>
    refine hexpect .primitive ?_
    change (TextDecoder.bool (s.seek i q)).2 = _
    rw [TextDecoder.bool]
    split <;> rename_i hrun <;> rw [hrun]
  | null =>
    refine hexpect .primitive ?_
    change (TextDecoder.null (s.seek i q)).2 = _
    rw [TextDecoder.null]
    split <;> rename_i hrun <;> rw [hrun]
  | float | double | uint _ | int _ => exact exists_decodePrimitive_seek hs i q _
  | listStart | mapStart => exact hexpect _ rfl
  | listEnd | mapEnd =>
    change ∃ i' q', i ≤ i' ∧ (stop _ (s.seek i q)).2 = s.seek i' q'
    rw [stop]
    split
    · exact ⟨i, q + 1, Nat.le_refl i, rfl⟩
    · exact ⟨i, q, Nat.le_refl i, rfl⟩
  | peekType =>
    have hget : (s.seek i q).getTokens = s.seek i q := getTokens_of_tokens hs
    change ∃ i' q', i ≤ i' ∧ (peekType (s.seek i q)).2 = s.seek i' q'
    rw [peekType, hget]
    refine ⟨i, q, Nat.le_refl i, ?_⟩
    split <;> rfl
  | skip =>
    change ∃ i' q', i ≤ i' ∧ (skip (s.seek i q)).2 = s.seek i' q'
    rw [skip_seek hs]
    exact ⟨i + 1, _, Nat.le_succ i, rfl⟩
  | bytes _ | isInMap | isInList | ensureListSize _ => exact ⟨i, q, Nat.le_refl i, rfl⟩

/-- What a program decodes moves the cursors, that of the tokens forward. -/
theorem exists_run_seek {α : Type} (p : Decoding α) :
    ∃ i' q', i ≤ i' ∧ run (textDecoder o) p (s.seek i q) =
      ((run (textDecoder o) p (s.seek i q)).1, s.seek i' q') := by
  obtain ⟨i', q', hi, hrun⟩ := run_invariant (h := textDecoder o) (P := fun t => ∃ i' q', i ≤ i' ∧ t = s.seek i' q')
    (fun op t ht => by
      obtain ⟨j, r, hj, rfl⟩ := ht
      obtain ⟨i', q', hi, hop⟩ := exists_textDecoder_seek (o := o) hs j r op
      exact ⟨i', q', Nat.le_trans hj hi, hop⟩) p ⟨i, q, Nat.le_refl i, rfl⟩
  exact ⟨i', q', hi, Prod.ext rfl hrun⟩

end

/-! ## What is known of a decode -/

namespace ValueType

/-- The types that no record is in. -/
def NoRecord : ValueType → Prop
  | array element _ => element.NoRecord
  | record .. => False
  | _ => True

theorem not_endsInRecord : ∀ (t : ValueType), t.NoRecord → ¬ t.EndsInRecord
  | array element _, h => fun hends => not_endsInRecord element h hends.2
  | uint _, _ | int _, _ | bool, _ | string, _ => id

/-- The types of numbers, strings and lists of them. -/
def Flat : ValueType → Prop
  | array element _ => element.Flat
  | record .. | bool => False
  | _ => True

theorem not_endsInRecord_of_flat : ∀ (t : ValueType), t.Flat → ¬ t.EndsInRecord
  | array element _, h => fun hends => not_endsInRecord_of_flat element h hends.2
  | uint _, _ | int _, _ | string, _ => id

/-- The types of records. -/
def IsRecord : ValueType → Prop
  | record .. => True
  | _ => False

/-- The types where no list or record is empty, the names of a record are distinct, and the elements of a list are
records, or no records and booleans are in them. -/
def Regular : ValueType → Prop
  | array element size => 0 < size ∧ element.Regular ∧ (element.Flat ∨ element.IsRecord)
  | record size _ name member => 0 < size ∧ Function.Injective name ∧ ∀ i, (member i).Regular
  | _ => True

/-- Two values differ everywhere. -/
def Unlike : (t : ValueType) → t.Value → t.Value → Prop
  | uint _, m, n => m ≠ n
  | int _, i, j => i ≠ j
  | bool, b, c => b ≠ c
  | string, s, s' => s ≠ s'
  | array element size, f, g => ∀ i < size, element.Unlike (f i) (g i)
  | record _ _ _ member, r, r' => ∀ i, (member i).Unlike (r i) (r' i)

theorem not_same_of_unlike : ∀ {t : ValueType} {v v' : t.Value}, t.Regular → t.Unlike v v' → ¬ t.Same v v'
  | uint _, _, _, _, h | int _, _, _, _, h | bool, _, _, _, h | string, _, _, _, h => h
  | array _ _, _, _, ⟨hsize, helement, _⟩, h => fun hsame =>
    not_same_of_unlike helement (h 0 hsize) (hsame 0 hsize)
  | record _ _ _ _, _, _, ⟨hsize, _, hmember⟩, h => fun hsame =>
    not_same_of_unlike (hmember ⟨0, hsize⟩) (h ⟨0, hsize⟩) (hsame ⟨0, hsize⟩)

theorem exists_unlike : ∀ (t : ValueType) (v : t.Value), ∃ v', t.Unlike v v'
  | uint _, (n : ℕ) => ⟨n + 1, (Nat.lt_succ_self n).ne⟩
  | int _, (n : ℤ) => ⟨n + 1, (Int.lt_succ n).ne⟩
  | bool, b => ⟨!b, fun h => Bool.not_ne_self b h.symm⟩
  | string, s => ⟨0 :: s, fun h => List.cons_ne_self 0 s h.symm⟩
  | array element _, f => ⟨fun i => (exists_unlike element (f i)).choose, fun i _ =>
      (exists_unlike element (f i)).choose_spec⟩
  | record _ _ _ member, r => ⟨fun i => (exists_unlike (member i) (r i)).choose, fun i =>
      (exists_unlike (member i) (r i)).choose_spec⟩

/-- What is known of the value `v'` that the decode of `v` leaves where `old` was: either the decode has returned true
and there are no records, or all of `v` has been stored. -/
def Known (s : TextDecoderState) (t : ValueType) (tested : Bool) (v old v' : t.Value) : Prop :=
  tested = true ∧ t.NoRecord ∨
    t.Regular ∧ (∀ k, maxTokens ≤ k → ¬ s.KeyAt k) ∧ t.Unlike v old ∧ t.Same v v'

theorem Known.tested {s : TextDecoderState} {t : ValueType} {tested : Bool} {v old v' : t.Value}
    (h : t.Known s tested v old v') : t.Known s true v old v' :=
  h.imp_left fun h => ⟨rfl, h.2⟩

/-- A value that is read is readable, where the text goes on with `follows` and `closing` is found. -/
def ReadsReadable (o : TextDecoderOptions) (t : ValueType) : Prop :=
  ∀ (v old : t.Value) {tested : Bool} {closing follows rest : Bytes} {s : TextDecoderState} {i p q i' q' : ℕ}
    {d : Decoded t.Value},
    t.Valid v → 0x22 ∉ closing → closing.length ≤ follows.length → s.parser.tokens ≠ [] →
    s.HasTokens i ((t.piece v).tokens p) → s.textAt p = (t.piece v).text ++ rest →
    p + (t.piece v).text.length ≤ sizeMax → follows <+: rest → (t.IsInteger → isDigit (rest.headD 0) = false) →
    (t.EndsInRecord → ¬ s.KeyAt (i + ((t.piece v).tokens p).length) ∧
      (tested = false → closing.head? = some 0x7D)) →
    run (textDecoder o) (t.decode old) (s.seek i q) = (d, s.seek i' q') → (tested = true → d.ok = true) →
    t.Known s tested v old (d.value old) → closing <+: s.textAt q' →
    t.Readable tested closing follows v

end ValueType

/-! ## Scalars -/

/-- A prefix without a character ends before it. -/
theorem prefix_of_prefix_append {c : UInt8} {l a rest : Bytes} (hl : c ∉ l) (h : l <+: a ++ c :: rest) : l <+: a := by
  induction l generalizing a with
  | nil => exact List.nil_prefix
  | cons d l ih =>
    cases a with
    | nil => exact absurd ((List.cons_prefix_cons.1 h).1 ▸ List.mem_cons_self) hl
    | cons e a =>
      obtain ⟨hd, htail⟩ := List.cons_prefix_cons.1 h
      exact List.cons_prefix_cons.2 ⟨hd, ih (fun hc => hl (List.mem_cons_of_mem _ hc)) htail⟩

theorem readsReadable_uint (w : IntWidth) : (ValueType.uint w).ReadsReadable o := by
  intro n old tested closing follows rest s i p q i' q' d hvalid _ hlen hs htokens htext hpos hfollows hdigit _ hrun
    _ _ hbehind
  rw [uint_seek w hvalid hs htokens htext hpos (hdigit trivial)] at hrun
  obtain rfl : p + (decimal n).length = q' := congrArg (fun x => x.2.bufferElemPtr) hrun
  rw [textAt_add (decimal n) htext] at hbehind
  exact List.prefix_of_prefix_length_le hbehind hfollows hlen

theorem readsReadable_int (w : IntWidth) : (ValueType.int w).ReadsReadable o := by
  intro n old tested closing follows rest s i p q i' q' d hvalid _ hlen hs htokens htext hpos hfollows hdigit _ hrun
    _ _ hbehind
  rw [int_seek w hvalid hs htokens htext hpos (hdigit trivial)] at hrun
  obtain rfl : p + (signedDecimal n).length = q' := congrArg (fun x => x.2.bufferElemPtr) hrun
  rw [textAt_add (signedDecimal n) htext] at hbehind
  exact List.prefix_of_prefix_length_le hbehind hfollows hlen

theorem readsReadable_string : ValueType.string.ReadsReadable o := by
  intro value old tested closing follows rest s i p q i' q' d _ hquote _ hs htokens htext hpos _ _ _ hrun _ _ hbehind
  obtain ⟨hstring, htext'⟩ := string_seek (o := o) (q := q) hs htokens htext hpos
  rw [ValueType.decode, decodeScalar, run_bind, hstring] at hrun
  obtain rfl : p + 1 = q' := congrArg (fun x => x.2.bufferElemPtr) hrun
  rw [htext'] at hbehind
  exact prefix_of_prefix_append hquote hbehind

/-- A boolean is not read: its text is a digit. -/
theorem bool_seek {b old : Bool} {rest : Bytes} {s : TextDecoderState} {i p q : ℕ} (hs : s.parser.tokens ≠ [])
    (htokens : s.HasTokens i ((ValueType.bool.piece b).tokens p))
    (htext : s.textAt p = (ValueType.bool.piece b).text ++ rest)
    (hpos : p + (ValueType.bool.piece b).text.length ≤ sizeMax) :
    run (textDecoder o) (ValueType.bool.decode old) (s.seek i q) = (⟨false, none⟩, s.seek (i + 1) p) := by
  have htext' : s.textAt p = (if b then [0x31] else [0x30]) ++ rest := htext
  have hp : toSize (p : ℤ) = p := toSize_position (Nat.le_trans (Nat.le_add_right _ _) hpos)
  have hbool : run (textDecoder o) (decode .bool) (s.seek i q) = (none, s.seek (i + 1) p) := by
    change TextDecoder.bool (s.seek i q) = _
    rw [TextDecoder.bool, expectType_seek hs (by rw [htokens.head]), htokens.head]
    simp only [reduceCtorEq, or_self, if_false, Int.add_zero, hp, textAt_seek]
    change (if isLiteral trueLiteral (s.textAt p) then some true
      else if isLiteral falseLiteral (s.textAt p) then some false else none, _) = _
    rw [htext']
    cases b <;> rfl
  rw [ValueType.decode, decodeScalar, run_bind, hbool]
  rfl

theorem readsReadable_bool : ValueType.bool.ReadsReadable o := by
  intro b old tested closing follows rest s i p q i' q' d _ _ _ hs htokens htext hpos _ _ _ hrun hok hknown _
  rw [bool_seek hs htokens htext hpos] at hrun
  obtain rfl : ⟨false, none⟩ = d := congrArg Prod.fst hrun
  rcases hknown with ⟨htested, -⟩ | ⟨hregular, -, hunlike, hsame⟩
  · exact absurd (hok htested) (by decide)
  · exact ValueType.not_same_of_unlike hregular hunlike hsame

/-! ## Lists -/

section Elements

variable {element : ValueType} {f : ℕ → element.Value}

/-- The elements before those that are decoded are left. -/
theorem always_decodeElements (elem : element.Value → Decoding (Decoded element.Value)) (m : ℕ) :
    ∀ (j : ℕ) (a : ArrayMemory element.Value),
      Always (fun r => ∀ k < j, r.2.value k = a.value k) (decodeElements elem m j a) := by
  induction m with
  | zero => exact fun j a k _ => rfl
  | succ m ih =>
    intro j a
    refine always_bind_of_forall fun d => ?_
    cases hok : d.ok with
    | false => exact fun k hk => (store_value a j d k).trans (if_neg (Nat.ne_of_lt hk))
    | true =>
      exact (ih (j + 1) (a.store j d.stored)).mono fun r hr k hk =>
        (hr k (by omega)).trans ((store_value a j d k).trans (if_neg (Nat.ne_of_lt hk)))

/-- When all elements of a list are read, they are readable. -/
theorem readable_of_decodeElements (helement : element.ReadsReadable o) {tested : Bool} {closing follows : Bytes}
    (hquote : 0x22 ∉ closing) (hlen : closing.length ≤ follows.length) {s : TextDecoderState}
    (hs : s.parser.tokens ≠ []) (m : ℕ) :
    ∀ {j i p q i' q' : ℕ} {rest : Bytes} (a : ArrayMemory element.Value) {ok : Bool} {a' : ArrayMemory element.Value},
    (∀ k, j ≤ k → k < j + m → element.Valid (f k)) → s.HasTokens i ((elements f j m).tokens p) →
    s.textAt p = (elements f j m).text ++ rest → p + (elements f j m).text.length ≤ sizeMax →
    0x5D :: follows <+: rest →
    (0 < m → element.EndsInRecord → ¬ s.KeyAt (i + ((elements f j m).tokens p).length) ∧
      (tested = false → closing.head? = some 0x7D)) →
    run (textDecoder o) (decodeElements element.decode m j a) (s.seek i q) = ((ok, a'), s.seek i' q') →
    (∀ k, j ≤ k → k < j + m → element.Known s tested (f k) (a.value k) (a'.value k)) →
    (ok = true ∧ 0x5D :: closing <+: s.textAt q' ∨ tested = false ∧ closing <+: s.textAt q') →
    ∀ k, j ≤ k → k < j + m → if k + 1 = j + m then
        element.Readable true (0x5D :: closing) (0x5D :: follows) (f k) ∨
          tested = false ∧ element.Readable false closing (0x5D :: follows) (f k)
      else element.Readable true [] [] (f k) := by
  induction m with
  | zero =>
    intro j i p q i' q' rest a ok a' _ _ _ _ _ _ _ _ _ k hj hk
    exact absurd hk (by omega)
  | succ m ih =>
    intro j i p q i' q' rest a ok a' hvalid htokens htext hpos hrest hend hrun hknown hclosing
    have hvalidj := hvalid j (Nat.le_refl _) (by omega)
    have hknownj := hknown j (Nat.le_refl _) (by omega)
    obtain ⟨i₁, q₁, -, hfirst⟩ := exists_run_seek (o := o) hs i q (element.decode (a.value j))
    generalize (run (textDecoder o) (element.decode (a.value j)) (s.seek i q)).1 = d at hfirst
    rw [decodeElements, run_bind, hfirst] at hrun
    dsimp only at hrun
    cases m with
    | zero =>
      intro k hj hk
      obtain rfl : k = j := by omega
      rw [if_pos (by omega)]
      have hresult : ((d.ok, a.store k d.stored), s.seek i₁ q₁) = ((ok, a'), s.seek i' q') := by
        rw [← hrun]
        cases d.ok <;> rfl
      obtain rfl : d.ok = ok := congrArg (fun x => x.1.1) hresult
      obtain rfl : a.store k d.stored = a' := congrArg (fun x => x.1.2) hresult
      obtain rfl : q₁ = q' := congrArg (fun x => x.2.bufferElemPtr) hresult
      rw [store_value, if_pos rfl] at hknownj
      have hdigit : element.IsInteger → isDigit (rest.headD 0) = false := fun _ => by
        obtain ⟨rest', rfl⟩ := hrest
        rfl
      rcases hclosing with ⟨hok, hclosing⟩ | ⟨htested, hclosing⟩
      · refine .inl (helement (f k) (a.value k) hvalidj ?_ ?_ hs htokens htext hpos hrest hdigit ?_ hfirst
          (fun _ => hok) hknownj.tested hclosing)
        · exact List.not_mem_cons_of_ne_of_not_mem (by decide) hquote
        · exact Nat.succ_le_succ hlen
        · exact fun hends => ⟨(hend (by omega) hends).1, fun h => absurd h (by decide)⟩
      · subst htested
        refine .inr ⟨rfl, helement (f k) (a.value k) hvalidj hquote ?_ hs htokens htext hpos hrest hdigit
          (hend (by omega)) hfirst (fun h => absurd h (by decide)) hknownj hclosing⟩
        exact Nat.le_succ_of_le hlen
    | succ m =>
      have hframe := (always_decodeElements element.decode (m + 1) (j + 1) (a.store j d.stored)).run
        (textDecoder o) (s.seek i₁ q₁)
      cases hok : d.ok with
      | false =>
        rw [hok, if_neg Bool.false_ne_true] at hrun
        obtain rfl : a.store j d.stored = a' := congrArg (fun x => x.1.2) hrun
        obtain rfl : false = ok := congrArg (fun x => x.1.1) hrun
        rcases hclosing with ⟨h, -⟩ | ⟨rfl, -⟩
        · exact absurd h (by decide)
        rcases hknown (j + 1) (by omega) (by omega) with ⟨h, -⟩ | ⟨hregular, -, hunlike, hsame⟩
        · exact absurd h (by decide)
        rw [store_value, if_neg (Nat.succ_ne_self j)] at hsame
        exact absurd hsame (ValueType.not_same_of_unlike hregular hunlike)
      | true =>
        rw [hok, if_pos rfl] at hrun
        rw [hrun] at hframe
        rw [hframe j (Nat.lt_succ_self j), store_value, if_pos rfl] at hknownj
        rw [elements_succ_succ] at htokens htext hpos hend
        simp only [List.append_assoc, List.cons_append, List.length_append, List.length_cons] at htext hpos hend
        have hnext : element.EndsInRecord → ¬ s.KeyAt (i + ((element.piece (f j)).tokens p).length) := by
          intro hends
          obtain ⟨toks, htoks⟩ := elements_tokens f (j + 1) m (p + (element.piece (f j)).text.length + 1)
          have hnext := htokens.right
          rw [htoks] at hnext
          exact not_keyAt_first hends.bracketed hnext.left
        have hread : element.Readable true [] [] (f j) := helement (f j) (a.value j) hvalidj List.not_mem_nil
          (Nat.le_refl _) hs htokens.left htext (by omega) List.nil_prefix (fun _ => rfl)
          (fun hends => ⟨hnext hends, fun h => absurd h (by decide)⟩) hfirst (fun _ => hok) hknownj.tested
          List.nil_prefix
        obtain ⟨ok₂, v₂, q₂, hrun₂, -, -, -⟩ := decodes element (f j) (a.value j) q hvalidj hread
          (fun h => absurd h (by decide)) hs htokens.left htext (by omega) List.nil_prefix (fun _ => rfl) hnext
        obtain rfl : i₁ = i + ((element.piece (f j)).tokens p).length :=
          congrArg (fun x => x.2.tokenIndex) (hfirst.symm.trans hrun₂)
        have hothers := ih (a.store j d.stored) (fun k hj hk => hvalid k (by omega) (by omega)) htokens.right
          (textAt_succ (textAt_add _ htext)) (by omega) hrest (fun _ hends => by
            rw [Nat.add_assoc]
            exact hend (by omega) hends) hrun (fun k hj hk => by
            rw [store_value, if_neg (by omega)]
            exact hknown k (by omega) (by omega)) hclosing
        intro k hj hk
        rcases Nat.eq_or_lt_of_le hj with rfl | hj
        · rwa [if_neg (by omega)]
        · have hreadk := hothers k hj (by omega)
          rwa [show j + 1 + (m + 1) = j + (m + 1 + 1) by omega] at hreadk

theorem readsReadable_array (helement : element.ReadsReadable o) (size : ℕ) :
    (ValueType.array element size).ReadsReadable o := by
  intro f old tested closing follows rest s i p q i' q' d hvalid hquote hlen hs htokens htext hpos hfollows _ hend hrun
    hok hknown hclosing
  rw [piece_array] at htokens htext hpos hend
  simp only [List.append_assoc, List.cons_append, List.nil_append, List.length_append, List.length_cons,
    List.length_nil, Nat.zero_add] at htext hpos hend
  obtain ⟨i₁, q₁, -, helements⟩ := exists_run_seek (o := o) hs (i + 1) (p + 1)
    (decodeElements element.decode size 0 ⟨old, []⟩)
  rcases hresult : (run (textDecoder o) (decodeElements element.decode size 0 ⟨old, []⟩)
    (s.seek (i + 1) (p + 1))).1 with ⟨ok, a⟩
  rw [hresult] at helements
  rw [run_array (start_seek (.inl rfl) hs htokens.head (by omega)) helements] at hrun
  have hstored : d.value old = a.value := by
    have hd : d = (if ok then (⟨(stop 0x5D (s.seek i₁ q₁)).1, some a.value⟩, (stop 0x5D (s.seek i₁ q₁)).2)
      else (⟨false, some a.value⟩, s.seek i₁ q₁) : Decoded (ℕ → element.Value) × TextDecoderState).1 := by rw [hrun]
    rw [hd]
    cases ok <;> rfl
  have hend' : ok = true ∧ 0x5D :: closing <+: s.textAt q₁ ∨ tested = false ∧ closing <+: s.textAt q₁ := by
    cases ok with
    | false =>
      obtain rfl : ⟨false, some a.value⟩ = d := congrArg Prod.fst hrun
      obtain rfl : q₁ = q' := congrArg (fun x => x.2.bufferElemPtr) hrun
      exact .inr ⟨Bool.eq_false_of_not_eq_true fun h => Bool.false_ne_true (hok h), hclosing⟩
    | true =>
      rw [if_pos rfl] at hrun
      rcases stop_seek_cases (c := 0x5D) (by decide) s i₁ q₁ with ⟨hstop, htext'⟩ | ⟨hstop, -⟩
      · rw [hstop] at hrun
        obtain rfl : q₁ + 1 = q' := congrArg (fun x => x.2.bufferElemPtr) hrun
        refine .inl ⟨rfl, ?_⟩
        rw [htext']
        exact List.cons_prefix_cons.2 ⟨rfl, hclosing⟩
      · rw [hstop] at hrun
        obtain rfl : ⟨false, some a.value⟩ = d := congrArg Prod.fst hrun
        obtain rfl : q₁ = q' := congrArg (fun x => x.2.bufferElemPtr) hrun
        exact .inr ⟨Bool.eq_false_of_not_eq_true fun h => Bool.false_ne_true (hok h), hclosing⟩
  rw [hstored] at hknown
  refine ⟨fun hsize => ?_, fun k hk => ?_⟩
  · subst hsize
    obtain rfl : p + 1 = q₁ := congrArg (fun x => x.2.bufferElemPtr) helements
    obtain rfl : true = ok := congrArg (fun x => x.1.1) helements
    rw [textAt_succ htext] at hend'
    rcases hend' with ⟨-, h⟩ | ⟨rfl, -⟩
    · exact List.prefix_of_prefix_length_le (List.cons_prefix_cons.1 h).2 hfollows hlen
    · rcases hknown with ⟨h, -⟩ | ⟨hregular, -⟩
      · exact absurd h (by decide)
      · exact absurd hregular.1 (Nat.lt_irrefl 0)
  · have hread := readable_of_decodeElements helement hquote hlen hs size (j := 0) ⟨old, []⟩
      (fun k _ hk => hvalid k (by omega)) htokens.tail (textAt_succ htext) (by omega)
      ((List.prefix_cons_inj _).2 hfollows) (fun hsize hends => by
        rw [Nat.add_assoc, Nat.add_comm 1]
        exact hend ⟨hsize, hends⟩) helements (fun k _ hk => ?_) hend' k (Nat.zero_le k) (by omega)
    · rwa [Nat.zero_add] at hread
    · rcases hknown with ⟨htested, hno⟩ | ⟨hregular, hkeys, hunlike, hsame⟩
      · exact .inl ⟨htested, hno⟩
      · exact .inr ⟨hregular.2.1, hkeys, hunlike k (by omega), hsame k (by omega)⟩

end Elements

end ThingSet
