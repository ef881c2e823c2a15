import ThingSet.Text.Lists

/-!
# Records that are read back

The loop of a record goes on as long as there are keys, and takes those behind the end of its map as well. So behind
a record that is a member of another one nothing is left for the members that follow it.

* `exists_decodeMapLoop`: the loop ends at a token that is no key.
* `exists_decode`: the decode of a value ends behind it, or at a token that is no key.
* `readsReadable_record`: a record that is read is readable if it is so of its members.
* `readable_roundTrips`: when a value is read back.
-/

namespace ThingSet

open Interaction Prog TextDecoderState TextDecoder

variable {o : TextDecoderOptions}

/-! ## The end of the loop -/

section Loop

variable {s : TextDecoderState} (hs : s.parser.tokens ≠ [])
include hs

/-- A key is decoded, as an id or as a name. -/
theorem exists_decodeKey {i : ℕ} (q : ℕ) (key : Key) (hkey : s.KeyAt i) :
    ∃ key' q', (key'.id.isSome ∨ key'.name.isSome) ∧
      run (textDecoder o) (decodeKey key) (s.seek i q) = ((true, key'), s.seek (i + 1) q') := by
  by_cases hprimitive : (s.token i).type = .primitive
  · obtain ⟨n, q', hid⟩ : ∃ n q', run (textDecoder o) (decode (.uint .w32)) (s.seek i q) =
        (some n, s.seek (i + 1) q') := by
      change ∃ n q', decodePrimitive (unsigned .w32) (s.seek i q) = (some n, s.seek (i + 1) q')
      rw [decodePrimitive, expectType_seek hs hprimitive]
      exact ⟨_, _, rfl⟩
    refine ⟨{ key with id := some n }, q', .inl rfl, ?_⟩
    rw [decodeKey, run_bind, hid]
    rfl
  · have hstring := hkey.resolve_right hprimitive
    have hid : run (textDecoder o) (decode (.uint .w32)) (s.seek i q) = (none, s.seek i q) := by
      change decodePrimitive (unsigned .w32) (s.seek i q) = _
      rw [decodePrimitive, expectType_seek_ne hs hprimitive]
    obtain ⟨n, q', hname⟩ : ∃ n q', run (textDecoder o) (decode .string) (s.seek i q) =
        (some n, s.seek (i + 1) q') := by
      change ∃ n q', TextDecoder.string (s.seek i q) = (some n, s.seek (i + 1) q')
      rw [TextDecoder.string, expectType_seek hs hstring]
      exact ⟨_, _, rfl⟩
    refine ⟨{ key with name := some n }, q', .inr rfl, ?_⟩
    rw [decodeKey, run_bind, hid]
    dsimp only
    rw [run_bind, hname]
    rfl

variable {size : ℕ} (id : Fin size → ℕ) (name : Fin size → Bytes) {member : Fin size → ValueType}

/-- The callback on a key returns true: it is that of a member, or a token is skipped. -/
theorem exists_decodeMember (i q : ℕ) (r : (k : Fin size) → (member k).Value) {key : Key}
    (hkey : key.id.isSome ∨ key.name.isSome) :
    ∃ r' i' q', i ≤ i' ∧ run (textDecoder o) (decodeMember id name (fun k => (member k).decode) r key) (s.seek i q) =
      ((true, r'), s.seek i' q') := by
  obtain ⟨i', q', hi, hrun⟩ := exists_run_seek (o := o) hs i q
    (decodeMember id name (fun k => (member k).decode) r key)
  have htrue : (run (textDecoder o) (decodeMember id name (fun k => (member k).decode) r key) (s.seek i q)).1.1 =
      true := by
    rw [decodeMember, decodeByKey]
    cases hid : key.id with
    | some k =>
      dsimp only
      rw [run_bind]
      rcases run (textDecoder o) (switchDecode (fun k => (member k).decode) (fun j => decide (id j = k)) r)
        (s.seek i q) with ⟨⟨found, r'⟩, s'⟩
      cases found <;> rfl
    | none =>
      cases hname : key.name with
      | some n =>
        dsimp only
        rw [run_bind]
        rcases run (textDecoder o) (switchDecode (fun k => (member k).decode) (fun j => decide (name j = n)) r)
          (s.seek i q) with ⟨⟨found, r'⟩, s'⟩
        cases found <;> rfl
      | none =>
        rw [hid, hname] at hkey
        exact absurd hkey (by decide)
  rw [← htrue]
  exact ⟨_, i', q', hi, hrun⟩

/-- **The loop ends at a token that is no key.** -/
theorem exists_decodeMapLoop (hkeys : ∀ k, maxTokens ≤ k → ¬ s.KeyAt k) (n : ℕ) :
    ∀ (i q : ℕ) (key : Key) (r : (k : Fin size) → (member k).Value), maxTokens < n + i →
      ∃ d i' q', run (textDecoder o) (decodeMapLoop (decodeMember id name fun k => (member k).decode) n key r)
        (s.seek i q) = (d, s.seek i' q') ∧ ¬ s.KeyAt i' := by
  induction n with
  | zero =>
    intro i q key r hbound
    exact ⟨_, i, q, rfl, hkeys i (by omega)⟩
  | succ n ih =>
    intro i q key r hbound
    by_cases hkey : s.KeyAt i
    · obtain ⟨key', q₁, hsome, hdecode⟩ := exists_decodeKey (o := o) hs q key hkey
      obtain ⟨r', i₂, q₂, hi, hmember⟩ := exists_decodeMember (o := o) hs id name (i + 1) q₁ r hsome
      obtain ⟨d, i', q', hloop, hend⟩ := ih i₂ q₂ key' r' (by omega)
      refine ⟨d, i', q', ?_, hend⟩
      have hround : run (textDecoder o) (decodeMapRound (decodeMember id name fun k => (member k).decode) (key, r))
          (s.seek i q) = (.inl (key', r'), s.seek i₂ q₂) := by
        rw [decodeMapRound, run_bind, hdecode]
        simp only [if_true, run_bind, hmember]
        rfl
      rw [run_decodeMapLoop_of_round hround]
      exact hloop
    · rw [run_decodeMapLoop_end _ n key r hs hkey]
      rcases stop_seek_cases (c := 0x7D) (by decide) s i q with ⟨hstop, -⟩ | ⟨hstop, -⟩
      · exact ⟨_, i, q + 1, by rw [hstop], hkey⟩
      · exact ⟨_, i, q, by rw [hstop], hkey⟩

end Loop

/-! ## Where a decode ends -/

/-- Elements whose decode ends at a token that is no key. -/
theorem exists_decodeElements_notKey {element : ValueType}
    {s : TextDecoderState}
    (helement : ∀ old i q, ¬ s.KeyAt i → ∃ d i' q',
      run (textDecoder o) (element.decode old) (s.seek i q) = (d, s.seek i' q') ∧ ¬ s.KeyAt i') (m : ℕ) :
    ∀ (j i q : ℕ) (a : ArrayMemory element.Value), ¬ s.KeyAt i →
      ∃ r i' q', run (textDecoder o) (decodeElements element.decode m j a) (s.seek i q) = (r, s.seek i' q') ∧
        ¬ s.KeyAt i' := by
  induction m with
  | zero => exact fun j i q a hkey => ⟨_, i, q, rfl, hkey⟩
  | succ m ih =>
    intro j i q a hkey
    obtain ⟨d, i₁, q₁, hrun, hkey₁⟩ := helement (a.value j) i q hkey
    rw [decodeElements, run_bind, hrun]
    dsimp only
    cases d.ok with
    | false => exact ⟨_, i₁, q₁, rfl, hkey₁⟩
    | true => exact ih (j + 1) i₁ q₁ (a.store j d.stored) hkey₁

/-- Elements whose decode ends behind them, or fails at a token that is no key. -/
theorem exists_decodeElements_flat {s : TextDecoderState} {element : ValueType} {f : ℕ → element.Value}
    (helement : ∀ v old {i p : ℕ} q, s.HasTokens i ((element.piece v).tokens p) → ∃ d i' q',
      run (textDecoder o) (element.decode old) (s.seek i q) = (d, s.seek i' q') ∧
        (i' = i + ((element.piece v).tokens p).length ∧ (d.ok = true ∨ element.Bracketed) ∨
          d.ok = false ∧ ¬ s.KeyAt i')) (m : ℕ) :
    ∀ (j : ℕ) {i p : ℕ} (q : ℕ) (a : ArrayMemory element.Value), s.HasTokens i ((elements f j m).tokens p) →
      ∃ r i' q', run (textDecoder o) (decodeElements element.decode m j a) (s.seek i q) = (r, s.seek i' q') ∧
        (i' = i + ((elements f j m).tokens p).length ∨ r.1 = false ∧ ¬ s.KeyAt i') := by
  induction m with
  | zero => exact fun j i p q a _ => ⟨_, i, q, rfl, .inl rfl⟩
  | succ m ih =>
    intro j i p q a htokens
    rw [decodeElements, run_bind]
    cases m with
    | zero =>
      obtain ⟨d, i₁, q₁, hrun, hend⟩ := helement (f j) (a.value j) q htokens
      rw [hrun]
      refine ⟨(d.ok, a.store j d.stored), i₁, q₁, ?_, hend.imp_left And.left⟩
      dsimp only
      cases d.ok <;> rfl
    | succ m =>
      rw [elements_succ_succ] at htokens
      obtain ⟨d, i₁, q₁, hrun, hend⟩ := helement (f j) (a.value j) q htokens.left
      rw [hrun]
      dsimp only
      cases hok : d.ok with
      | false =>
        refine ⟨_, i₁, q₁, rfl, .inr ⟨rfl, ?_⟩⟩
        rcases hend with ⟨rfl, h | hbracketed⟩ | ⟨-, hkey⟩
        · exact absurd (hok.symm.trans h) (by decide)
        · obtain ⟨toks, htoks⟩ := elements_tokens f (j + 1) m (p + (element.piece (f j)).text.length + 1)
          have hnext := htokens.right
          rw [htoks] at hnext
          exact not_keyAt_first hbracketed hnext.left
        · exact hkey
      | true =>
        rcases hend with ⟨rfl, -⟩ | ⟨h, -⟩
        · obtain ⟨r, i', q', hrun', hend'⟩ := ih (j + 1) q₁ (a.store j d.stored) htokens.right
          refine ⟨r, i', q', hrun', ?_⟩
          rw [elements_succ_succ, List.length_append, ← Nat.add_assoc]
          exact hend'
        · exact absurd (hok.symm.trans h) (by decide)

section Ends

variable {s : TextDecoderState} (hs : s.parser.tokens ≠ [])
include hs

theorem exists_start {type : JsmnType} {i : ℕ} (q : ℕ) (htype : (s.token i).type = type) :
    ∃ q', start type (s.seek i q) = (true, s.seek (i + 1) q') := by
  rw [start, expectType_seek hs htype]
  exact ⟨_, rfl⟩

/-- The decode of a record, at a token that is no key, ends at one. -/
theorem exists_decode_record (hkeys : ∀ k, maxTokens ≤ k → ¬ s.KeyAt k) {size : ℕ} {id : Fin size → ℕ}
    {name : Fin size → Bytes} {member : Fin size → ValueType} (old : (k : Fin size) → (member k).Value) (i q : ℕ)
    (hkey : ¬ s.KeyAt i) :
    ∃ d i' q', run (textDecoder o) ((ValueType.record size id name member).decode old) (s.seek i q) =
      (d, s.seek i' q') ∧ ¬ s.KeyAt i' := by
  by_cases htype : (s.token i).type = .object
  · obtain ⟨q₁, hstart⟩ := exists_start hs q htype
    obtain ⟨⟨ok, w⟩, i', q', hloop, hend⟩ := exists_decodeMapLoop (o := o) hs id name hkeys sizeMax
      (i + 1) q₁ {} old (by
        unfold maxTokens sizeMax
        omega)
    exact ⟨_, i', q', run_record hstart hloop, hend⟩
  · have hstart : run (textDecoder o) (decode .mapStart) (s.seek i q) = (false, s.seek i q) := by
      change start .object (s.seek i q) = _
      rw [start, expectType_seek_ne hs htype]
      rfl
    refine ⟨⟨false, some old⟩, i, q, ?_, hkey⟩
    rw [ValueType.decode, run_bind, decodeRecord, decodeMap, run_bind, hstart]
    rfl

/-- The decode of a list, at its token, ends where that of its elements ends. -/
theorem exists_decode_array {element : ValueType} (size : ℕ) {i : ℕ} (q : ℕ) (old : ℕ → element.Value)
    (htype : (s.token i).type = .array) {P : Bool → ℕ → Prop}
    (helements : ∀ q, ∃ r i' q', run (textDecoder o) (decodeElements element.decode size 0 ⟨old, []⟩)
      (s.seek (i + 1) q) = (r, s.seek i' q') ∧ (P r.1 i')) :
    ∃ (d : Decoded (ℕ → element.Value)) (i' q' : ℕ) (ok : Bool),
      run (textDecoder o) ((ValueType.array element size).decode old) (s.seek i q) = (d, s.seek i' q') ∧
        P ok i' ∧ (ok = false → d.ok = false) := by
  obtain ⟨q₁, hstart⟩ := exists_start hs q htype
  obtain ⟨⟨ok, a⟩, i', q', hrun, hP⟩ := helements q₁
  rw [run_array hstart hrun]
  cases ok with
  | false => exact ⟨_, i', q', false, rfl, hP, fun _ => rfl⟩
  | true =>
    rcases stop_seek_cases (c := 0x5D) (by decide) s i' q' with ⟨hstop, -⟩ | ⟨hstop, -⟩
    · rw [hstop]
      exact ⟨_, i', q' + 1, true, rfl, hP, fun h => absurd h (by decide)⟩
    · rw [hstop]
      exact ⟨_, i', q', true, rfl, hP, fun h => absurd h (by decide)⟩

/-- The decode of numbers, strings and lists of them ends behind the value, or fails at a token that is no key. -/
theorem exists_decode_flat : ∀ (t : ValueType), t.Flat → ∀ (v old : t.Value) {i p : ℕ} (q : ℕ),
    s.HasTokens i ((t.piece v).tokens p) → ∃ d i' q', run (textDecoder o) (t.decode old) (s.seek i q) =
        (d, s.seek i' q') ∧ (i' = i + ((t.piece v).tokens p).length ∧ (d.ok = true ∨ t.Bracketed) ∨
          d.ok = false ∧ ¬ s.KeyAt i')
  | .uint w, _, v, old, i, p, q, htokens => by
    have hop : ∃ n q', run (textDecoder o) (decode (.uint w)) (s.seek i q) = (some n, s.seek (i + 1) q') := by
      change ∃ n q', decodePrimitive (unsigned w) (s.seek i q) = (some n, s.seek (i + 1) q')
      rw [decodePrimitive, expectType_seek hs (by rw [htokens.head])]
      exact ⟨_, _, rfl⟩
    obtain ⟨n, q', hop⟩ := hop
    rw [ValueType.decode, decodeScalar, run_bind, hop]
    exact ⟨_, i + 1, q', rfl, .inl ⟨rfl, .inl rfl⟩⟩
  | .int w, _, v, old, i, p, q, htokens => by
    have hop : ∃ n q', run (textDecoder o) (decode (.int w)) (s.seek i q) = (some n, s.seek (i + 1) q') := by
      change ∃ n q', decodePrimitive (signed w) (s.seek i q) = (some n, s.seek (i + 1) q')
      rw [decodePrimitive, expectType_seek hs (by rw [htokens.head])]
      exact ⟨_, _, rfl⟩
    obtain ⟨n, q', hop⟩ := hop
    rw [ValueType.decode, decodeScalar, run_bind, hop]
    exact ⟨_, i + 1, q', rfl, .inl ⟨rfl, .inl rfl⟩⟩
  | .string, _, v, old, i, p, q, htokens => by
    have hop : ∃ n q', run (textDecoder o) (decode .string) (s.seek i q) = (some n, s.seek (i + 1) q') := by
      change ∃ n q', TextDecoder.string (s.seek i q) = (some n, s.seek (i + 1) q')
      rw [TextDecoder.string, expectType_seek hs (by rw [htokens.head])]
      exact ⟨_, _, rfl⟩
    obtain ⟨n, q', hop⟩ := hop
    rw [ValueType.decode, decodeScalar, run_bind, hop]
    exact ⟨_, i + 1, q', rfl, .inl ⟨rfl, .inl rfl⟩⟩
  | .array element size, hflat, f, old, i, p, q, htokens => by
    rw [piece_array] at htokens ⊢
    obtain ⟨d, i', q', ok, hrun, hend, hok⟩ := exists_decode_array (o := o) hs size q old
      (by rw [htokens.head]) (P := fun ok i' => i' = i + 1 + ((elements f 0 size).tokens (p + 1)).length ∨
        ok = false ∧ ¬ s.KeyAt i') fun q =>
        exists_decodeElements_flat (o := o) (fun v old _ _ q => exists_decode_flat element hflat v old q) size 0 q
          ⟨old, []⟩ htokens.tail
    refine ⟨d, i', q', hrun, ?_⟩
    rcases hend with rfl | ⟨rfl, hkey⟩
    · refine .inl ⟨?_, .inr trivial⟩
      rw [List.length_cons]
      omega
    · exact .inr ⟨hok rfl, hkey⟩

/-- **The decode of a value ends behind it, or at a token that is no key.** If the value ends with a record, it is the
latter. -/
theorem exists_decode (hkeys : ∀ k, maxTokens ≤ k → ¬ s.KeyAt k) (t : ValueType) (hregular : t.Regular)
    (v old : t.Value) {i p : ℕ} (q : ℕ) (htokens : s.HasTokens i ((t.piece v).tokens p)) :
    ∃ d i' q', run (textDecoder o) (t.decode old) (s.seek i q) = (d, s.seek i' q') ∧
      (¬ t.EndsInRecord ∧ i' = i + ((t.piece v).tokens p).length ∨ ¬ s.KeyAt i') := by
  have hflat (hflat : t.Flat) : ∃ d i' q', run (textDecoder o) (t.decode old) (s.seek i q) = (d, s.seek i' q') ∧
      (¬ t.EndsInRecord ∧ i' = i + ((t.piece v).tokens p).length ∨ ¬ s.KeyAt i') := by
    obtain ⟨d, i', q', hrun, hend⟩ := exists_decode_flat (o := o) hs t hflat v old q htokens
    exact ⟨d, i', q', hrun, hend.imp (fun h => ⟨t.not_endsInRecord_of_flat hflat, h.1⟩) And.right⟩
  cases t with
  | uint w | int w | string => exact hflat trivial
  | bool =>
    obtain ⟨r, q', hop⟩ : ∃ r q', run (textDecoder o) (decode .bool) (s.seek i q) = (r, s.seek (i + 1) q') := by
      change ∃ r q', TextDecoder.bool (s.seek i q) = (r, s.seek (i + 1) q')
      rw [TextDecoder.bool, expectType_seek hs (by rw [htokens.head])]
      exact ⟨_, _, rfl⟩
    rw [ValueType.decode, decodeScalar, run_bind, hop]
    exact ⟨_, i + 1, q', rfl, .inl ⟨id, rfl⟩⟩
  | record size id name member =>
    obtain ⟨d, i', q', hrun, hend⟩ := exists_decode_record (o := o) hs hkeys old i q
      (not_keyAt_first (t := .record size id name member) trivial htokens)
    exact ⟨d, i', q', hrun, .inr hend⟩
  | array element size =>
    obtain ⟨hsize, -, hflat' | hrecord⟩ := hregular
    · exact hflat hflat'
    · cases element with
      | uint _ | int _ | bool | string | array _ _ => exact absurd hrecord id
      | record size' id name member =>
        rw [piece_array] at htokens
        obtain ⟨m, rfl⟩ : ∃ m, size = m + 1 := ⟨size - 1, by omega⟩
        obtain ⟨toks, htoks⟩ := elements_tokens v 0 m (p + 1)
        have hfirst := htokens.tail
        rw [htoks] at hfirst
        obtain ⟨d, i', q', ok, hrun, hend, -⟩ := exists_decode_array (o := o) hs (m + 1) q old
          (by rw [htokens.head]) (P := fun _ i' => ¬ s.KeyAt i') fun q =>
          exists_decodeElements_notKey (exists_decode_record (o := o) hs hkeys) (m + 1) 0 (i + 1) q ⟨old, []⟩
            (not_keyAt_first (t := .record size' id name member) trivial hfirst.left)
        exact ⟨d, i', q', hrun, .inr hend⟩

end Ends

/-! ## Records -/

section Records

variable {size : ℕ} {id : Fin size → ℕ} {name : Fin size → Bytes} {member : Fin size → ValueType}
  {r : (i : Fin size) → (member i).Value}

/-- When all members of a record are read, they are readable. -/
theorem readable_of_decodeMapLoop (id : Fin size → ℕ) (hmember : ∀ k, (member k).ReadsReadable o)
    (hname : Function.Injective name) (hregular : ∀ k, (member k).Regular) (hvalid : ∀ k, (member k).Valid (r k))
    {closing follows : Bytes} (hquote : 0x22 ∉ closing) (hlen : closing.length ≤ follows.length)
    {s : TextDecoderState} (hs : s.parser.tokens ≠ []) (hkeys : ∀ k, maxTokens ≤ k → ¬ s.KeyAt k)
    (is : List (Fin size)) : ∀ {k : Fin size} {i p q n i' q' : ℕ} {rest : Bytes} (key : Key)
    {old w : (k : Fin size) → (member k).Value} {ok : Bool}, key.id = none → (k :: is).Nodup → (k :: is).length < n →
    (∀ j ∈ k :: is, (member j).Unlike (r j) (old j)) → s.HasTokens i ((members r name (k :: is)).tokens p) →
    s.textAt p = (members r name (k :: is)).text ++ rest →
    p + (members r name (k :: is)).text.length ≤ sizeMax → 0x7D :: follows <+: rest →
    ¬ s.KeyAt (i + ((members r name (k :: is)).tokens p).length) →
    run (textDecoder o) (decodeMapLoop (decodeMember id name fun i => (member i).decode) n key old) (s.seek i q) =
      ((ok, w), s.seek i' q') →
    (∀ j ∈ k :: is, (member j).Same (r j) (w j)) → (ok = true ∨ closing.head? = some 0x7D) →
    closing <+: s.textAt q' →
    (∀ j ∉ k :: is, w j = old j) ∧ ∀ j ∈ k :: is, if (k :: is).getLast? = some j then
        (member j).Readable false (0x7D :: closing) (0x7D :: follows) (r j)
      else (member j).Readable false [] [] (r j) ∧ ¬ (member j).EndsInRecord := by
  induction is with
  | nil =>
    intro k i p q n i' q' rest key old w ok hid hnodup hbound hunlike htokens htext hpos hrest hend hrun hsame hok
      hclosing
    obtain ⟨n, rfl⟩ : ∃ m, n = m + 2 := ⟨n - 2, by rw [List.length_singleton] at hbound; omega⟩
    have hpiece : members r name [k] = Piece.pair (name k) ((member k).piece (r k)) := rfl
    rw [hpiece] at htokens htext hpos hend
    obtain ⟨hround, p', htokens', hvalue, hpos', hcount⟩ :=
      decodeMapRound_seek (o := o) id q hname k old key hid hs htokens htext hpos
    obtain ⟨d, i₁, q₁, hdecode, hends⟩ :=
      exists_decode (o := o) hs hkeys (member k) (hregular k) (r k) (old k) (p + 1) htokens'
    rw [hcount] at hend
    have hkey : ¬ s.KeyAt i₁ := by
      rcases hends with ⟨-, rfl⟩ | hends
      · exact hend
      · exact hends
    rw [hdecode] at hround
    rw [run_decodeMapLoop_of_round hround, run_decodeMapLoop_end _ n _ _ hs hkey] at hrun
    obtain rfl : Function.update old k (d.value (old k)) = w := congrArg (fun x => x.1.2) hrun
    have hbrace : 0x7D :: closing <+: s.textAt q₁ := by
      rcases stop_seek_cases (c := 0x7D) (by decide) s i₁ q₁ with ⟨hstop, htext'⟩ | ⟨hstop, hne⟩
      · rw [hstop] at hrun
        obtain rfl : q₁ + 1 = q' := congrArg (fun x => x.2.bufferElemPtr) hrun
        rw [htext']
        exact List.cons_prefix_cons.2 ⟨rfl, hclosing⟩
      · rw [hstop] at hrun
        obtain rfl : false = ok := congrArg (fun x => x.1.1) hrun
        obtain rfl : q₁ = q' := congrArg (fun x => x.2.bufferElemPtr) hrun
        obtain ⟨closing', rfl⟩ := List.head?_eq_some_iff.1 (hok.resolve_left (by decide))
        exact absurd hclosing (hne closing')
    have hsamek := hsame k List.mem_cons_self
    rw [Function.update_self] at hsamek
    refine ⟨fun j hj => Function.update_of_ne (List.ne_of_not_mem_cons hj) _ _, fun j hj => ?_⟩
    obtain rfl := List.mem_singleton.1 hj
    rw [List.getLast?_singleton, if_pos rfl]
    refine hmember j (r j) (old j) (hvalid j) ?_ ?_ hs htokens' hvalue hpos' hrest ?_ ?_ hdecode ?_ ?_ hbrace
    · exact List.not_mem_cons_of_ne_of_not_mem (by decide) hquote
    · exact Nat.succ_le_succ hlen
    · intro _
      obtain ⟨rest', rfl⟩ := hrest
      rfl
    · exact fun _ => ⟨hend, fun _ => rfl⟩
    · exact fun h => absurd h (by decide)
    · exact .inr ⟨hregular j, hkeys, hunlike j List.mem_cons_self, hsamek⟩
  | cons k' is ih =>
    intro k i p q n i' q' rest key old w ok hid hnodup hbound hunlike htokens htext hpos hrest hend hrun hsame hok
      hclosing
    obtain ⟨n, rfl⟩ : ∃ m, n = m + 2 := ⟨n - 2, by simp only [List.length_cons] at hbound; omega⟩
    obtain ⟨hk, hnodup'⟩ := List.nodup_cons.1 hnodup
    have hk' : k' ≠ k := fun h => hk (h ▸ List.mem_cons_self)
    rw [members_cons_cons] at htokens htext hpos hend
    simp only [List.append_assoc, List.cons_append, List.length_append, List.length_cons] at htext hpos hend
    obtain ⟨hround, p', htokens', hvalue, hpos', hcount⟩ :=
      decodeMapRound_seek (o := o) id q hname k old key hid hs htokens.left htext (by omega)
    obtain ⟨d, i₁, q₁, hdecode, hends⟩ :=
      exists_decode (o := o) hs hkeys (member k) (hregular k) (r k) (old k) (p + 1) htokens'
    rw [hdecode] at hround
    rw [run_decodeMapLoop_of_round hround] at hrun
    rcases hends with ⟨hends, rfl⟩ | hkey
    · rw [← Nat.add_assoc, hcount] at hend
      have hne : ∀ j ∈ k' :: is, j ≠ k := fun j hj h => hk (h ▸ hj)
      obtain ⟨hframe, hothers⟩ := ih { key with name := some (name k) } hid hnodup'
        (Nat.lt_of_succ_lt_succ hbound) (fun j hj => by
          rw [Function.update_of_ne (hne j hj)]
          exact hunlike j (List.mem_cons_of_mem _ hj))
        (by rw [← hcount]; exact htokens.right) (textAt_succ (textAt_add _ htext)) (by omega) hrest hend hrun
        (fun j hj => hsame j (List.mem_cons_of_mem _ hj)) hok hclosing
      have hsamek := hsame k List.mem_cons_self
      rw [hframe k hk, Function.update_self] at hsamek
      have hread : (member k).Readable false [] [] (r k) := by
        refine hmember k (r k) (old k) (hvalid k) List.not_mem_nil (Nat.le_refl _) hs htokens' hvalue hpos'
          List.nil_prefix (fun _ => rfl) (fun h => absurd h hends) hdecode ?_ ?_ List.nil_prefix
        · exact fun h => absurd h (by decide)
        · exact .inr ⟨hregular k, hkeys, hunlike k List.mem_cons_self, hsamek⟩
      have hlast : (k :: k' :: is).getLast? = (k' :: is).getLast? := List.getLast?_cons_cons
      refine ⟨fun j hj => ?_, fun j hj => ?_⟩
      · rw [hframe j fun h => hj (List.mem_cons_of_mem _ h)]
        exact Function.update_of_ne (List.ne_of_not_mem_cons hj) _ _
      · rw [hlast]
        rcases List.mem_cons.1 hj with rfl | hj
        · rw [if_neg fun h => hk (List.mem_of_getLast? h)]
          exact ⟨hread, hends⟩
        · exact hothers j hj
    · rw [run_decodeMapLoop_end _ n _ _ hs hkey] at hrun
      obtain rfl : Function.update old k (d.value (old k)) = w := congrArg (fun x => x.1.2) hrun
      have hsamek' := hsame k' (List.mem_cons_of_mem _ List.mem_cons_self)
      rw [Function.update_of_ne hk'] at hsamek'
      have hunlikek' := hunlike k' (List.mem_cons_of_mem _ List.mem_cons_self)
      exact absurd hsamek' (ValueType.not_same_of_unlike (hregular k') hunlikek')

theorem readsReadable_record (hmember : ∀ k, (member k).ReadsReadable o) :
    (ValueType.record size id name member).ReadsReadable o := by
  intro r old tested closing follows rest s i p q i' q' d hvalid hquote hlen hs htokens htext hpos hfollows _ hend hrun
    hok hknown hclosing
  rcases hknown with ⟨-, hno⟩ | ⟨hregular, hkeys, hunlike, hsame⟩
  · exact absurd hno fun h => h
  obtain ⟨hsize, hname, hregular⟩ := hregular
  have hpiece : (ValueType.record size id name member).piece r =
      ⟨0x7B :: (members r name (List.finRange size)).text ++ [0x7D], fun p =>
        ⟨.object, p, (p + (members r name (List.finRange size)).text.length + 2 : ℕ)⟩ ::
          (members r name (List.finRange size)).tokens (p + 1)⟩ := rfl
  rw [hpiece] at htokens htext hpos hend
  simp only [List.append_assoc, List.cons_append, List.nil_append, List.length_append, List.length_cons,
    List.length_nil, Nat.zero_add] at htext hpos hend
  obtain ⟨hkey, hhead⟩ := hend trivial
  obtain ⟨i₁, q₁, -, hloop⟩ := exists_run_seek (o := o) hs (i + 1) (p + 1)
    (decodeMapLoop (decodeMember id name fun k => (member k).decode) sizeMax {} old)
  rcases hresult : (run (textDecoder o) (decodeMapLoop (decodeMember id name fun k => (member k).decode) sizeMax {} old)
    (s.seek (i + 1) (p + 1))).1 with ⟨ok, w⟩
  rw [hresult] at hloop
  rw [run_record (start_seek (.inr rfl) hs htokens.head (by omega)) hloop] at hrun
  obtain rfl : ⟨ok, some w⟩ = d := congrArg Prod.fst hrun
  obtain rfl : q₁ = q' := congrArg (fun x => x.2.bufferElemPtr) hrun
  obtain ⟨k, is, his⟩ : ∃ k is, List.finRange size = k :: is := by
    refine List.exists_cons_of_ne_nil fun h => ?_
    have hlength := congrArg List.length h
    rw [List.length_finRange, List.length_nil] at hlength
    omega
  have hnodup := List.nodup_finRange size
  have hbound := length_le_members r name (List.finRange size)
  have htokens' := htokens.tail
  have htext' := textAt_succ htext
  have hkey' : ¬ s.KeyAt (i + 1 + ((members r name (List.finRange size)).tokens (p + 1)).length) := by
    rwa [Nat.add_assoc, Nat.add_comm 1]
  rw [his] at hnodup hbound htokens' htext' hpos hkey'
  refine ⟨fun h => absurd h (Nat.pos_iff_ne_zero.1 hsize), hname, fun j => ?_⟩
  have hread := (readable_of_decodeMapLoop id hmember hname hregular (fun k => (hvalid k).2) hquote hlen hs hkeys is
    {} rfl hnodup (by omega) (fun j _ => hunlike j) htokens' htext' (by omega)
    ((List.prefix_cons_inj _).2 hfollows) hkey' hloop (fun j _ => hsame j) ?_ hclosing).2 j
    (his ▸ List.mem_finRange j)
  · rw [← his] at hread
    simp only [getLast?_finRange] at hread
    exact hread
  · cases tested with
    | true => exact .inl (hok rfl)
    | false => exact .inr (hhead rfl)

end Records

/-- **What is read is readable.** -/
theorem readsReadable : ∀ t : ValueType, t.ReadsReadable o
  | .uint w => readsReadable_uint w
  | .int w => readsReadable_int w
  | .bool => readsReadable_bool
  | .string => readsReadable_string
  | .array element size => readsReadable_array (readsReadable element) size
  | .record _ _ _ member => readsReadable_record fun k => readsReadable (member k)

/-! ## When a value is read back -/

variable {E : TextEncoderConfig} {t : ValueType} {v : t.Value} {buffer : Bytes} {tokens : ℕ → JsmnTok}

/-- The tokens that the array holds behind those of the text are no keys. -/
def NoKeysBehind (t : ValueType) (v : t.Value) (tokens : ℕ → JsmnTok) : Prop :=
  ∀ k, ((t.piece v).tokens 0).length ≤ k → (tokens k).type ≠ .string ∧ (tokens k).type ≠ .primitive

theorem readable_of_roundTrips (ht : t.NoRecord ∨ t.Regular ∧ NoKeysBehind t v tokens) (hvalid : t.Valid v)
    (hfits : Fits t v buffer) (h : RoundTrips E o t v buffer tokens) : t.Readable true [] [] v := by
  obtain ⟨s, hs⟩ : ∃ s, Encoded E t v buffer tokens s := exists_encoded hvalid hfits
  obtain ⟨old, hunlike⟩ := t.exists_unlike v
  rw [RoundTrips, hs.encode] at h
  obtain ⟨hok, hsame⟩ := h.2 old
  have htoken : ∀ k, ((t.piece v).tokens 0).length ≤ k → (s.toDecoder tokens).getTokens.token k = tokens k := by
    intro k hk
    rw [token, hs.parsed, hs.memory, List.getD_eq_getElem?_getD, List.getElem?_eq_none hk]
    rfl
  have hkeys (hno : NoKeysBehind t v tokens) (k : ℕ) (hk : ((t.piece v).tokens 0).length ≤ k) :
      ¬ (s.toDecoder tokens).getTokens.KeyAt k := by
    rw [KeyAt, htoken k hk]
    exact fun h => h.elim (hno k hk).1 (hno k hk).2
  rw [run_decode_getTokens hs.tokens_ne_nil, ← hs.seek] at hok hsame
  obtain ⟨i', q', -, hrun⟩ := exists_run_seek (o := o) hs.tokens_ne_nil 0 0 (t.decode old)
  refine readsReadable t v old hvalid List.not_mem_nil (Nat.le_refl _) hs.tokens_ne_nil hs.hasTokens hs.text
    hfits.position_le List.nil_prefix hs.integer (fun hends => ⟨?_, fun h => absurd h (by decide)⟩) hrun (fun _ => hok)
    ?_ List.nil_prefix
  · rcases ht with hno | ⟨-, hno⟩
    · exact absurd hends (t.not_endsInRecord hno)
    · exact hkeys hno _ (Nat.le_of_eq (Nat.zero_add _).symm)
  · rcases ht with hno | ⟨hregular, hno⟩
    · exact .inl ⟨rfl, hno⟩
    · exact .inr ⟨hregular, fun k hk => hkeys hno k (Nat.le_trans hfits.tokens hk), hunlike, hsame⟩

/-- **When a value is read back.** A readable value is read back from the text that the encoder writes, if no
token that the array holds behind those of the text is taken for a key of a record at its end. A value without records,
or one of a regular type where no token behind the text is taken for a key, is read back only if it is readable. -/
theorem readable_roundTrips (E : TextEncoderConfig) (o : TextDecoderOptions) (t : ValueType) (v : t.Value)
    (buffer : Bytes) (tokens : ℕ → JsmnTok) (hvalid : t.Valid v) (hfits : Fits t v buffer) :
    (t.Readable true [] [] v ∧ (t.EndsInRecord → (tokens ((t.piece v).tokens 0).length).type ≠ .string ∧
        (tokens ((t.piece v).tokens 0).length).type ≠ .primitive) → RoundTrips E o t v buffer tokens) ∧
      (t.NoRecord ∨ t.Regular ∧ NoKeysBehind t v tokens →
        (RoundTrips E o t v buffer tokens ↔ t.Readable true [] [] v)) := by
  refine ⟨fun h => roundTrips_of_readable hvalid hfits h.1 h.2, fun ht => ⟨fun h => ?_, fun h => ?_⟩⟩
  · exact readable_of_roundTrips ht hvalid hfits h
  · refine roundTrips_of_readable hvalid hfits h fun hends => ?_
    rcases ht with hno | ⟨-, hno⟩
    · exact absurd hends (t.not_endsInRecord hno)
    · exact hno _ (Nat.le_refl _)

/-! ## Some values -/

/-- A record `{"x":n,"l":[i]}`. -/
def numbers : ValueType :=
  .record 2 (fun i => 0x601 + i) (fun i => if i = 0 then [0x78] else [0x6C])
    (fun i => if i = 0 then .uint .w8 else .array (.int .w16) 1)

/-- A record `{"r":{"x":n},"y":n}`. -/
def nested : ValueType :=
  .record 2 (fun i => 0x603 + i) (fun i => if i = 0 then [0x72] else [0x79])
    (fun i => if i = 0 then .record 1 (fun _ => 0x605) (fun _ => [0x78]) (fun _ => .uint .w8) else .uint .w8)

/-- The value `{"x":7,"l":[-5]}`. -/
def numbersValue : numbers.Value
  | 0 => (7 : ℕ)
  | 1 => fun _ => (-5 : ℤ)

/-- The value `{"r":{"x":1},"y":2}`. -/
def nestedValue : nested.Value
  | 0 => fun _ => (1 : ℕ)
  | 1 => (2 : ℕ)

/-- The array of tokens as memory that has been zeroed. -/
def noToken (_ : ℕ) : JsmnTok := ⟨.undefined, 0, 0⟩

example : (numbers.piece numbersValue).text =
    [0x7B, 0x22, 0x78, 0x22, 0x3A, 0x37, 0x2C, 0x22, 0x6C, 0x22, 0x3A, 0x5B, 0x2D, 0x35, 0x5D, 0x7D] := by
  decide +kernel

theorem numbers_roundTrips :
    RoundTrips noFloats noFloatOptions numbers numbersValue (List.replicate 32 0) noToken := by
  have hvalid : numbers.Valid numbersValue
    | 0 => ⟨by unfold Piece.Plain; decide +kernel, show (7 : ℕ) < 2 ^ 8 by decide⟩
    | 1 => ⟨by unfold Piece.Plain; decide +kernel, fun _ _ => show -2 ^ 15 ≤ (-5 : ℤ) ∧ (-5 : ℤ) < 2 ^ 15 by decide⟩
  have hfits : Fits numbers numbersValue (List.replicate 32 0) := ⟨by decide +kernel, by decide, by decide +kernel⟩
  have hread : numbers.Readable true [] [] numbersValue :=
    ⟨fun h => absurd h (by decide), by unfold Function.Injective; decide, fun
      | 0 => ⟨List.nil_prefix, id⟩
      | 1 => ⟨fun h => absurd h (by decide), fun i hi => by
        obtain rfl : i = 0 := by omega
        exact .inl (List.prefix_refl _)⟩⟩
  exact (readable_roundTrips noFloats noFloatOptions numbers numbersValue (List.replicate 32 0) noToken hvalid
    hfits).1 ⟨hread, fun _ => ⟨nofun, nofun⟩⟩

/-- The boolean `true`, the list `["a"]` and the record `{"r":{"x":1},"y":2}` are not read back. -/
theorem values_not_roundTrip :
    ¬ RoundTrips noFloats noFloatOptions .bool true (List.replicate 32 0) noToken ∧
      ¬ RoundTrips noFloats noFloatOptions (.array .string 1) (fun _ => [0x61]) (List.replicate 32 0) noToken ∧
      ¬ RoundTrips noFloats noFloatOptions nested nestedValue (List.replicate 32 0) noToken := by
  refine ⟨fun h => ?_, fun h => ?_, fun h => ?_⟩
  · exact absurd (h.ok true) (by decide +kernel)
  · exact absurd (h.ok fun _ => []) (by decide +kernel)
  · exact absurd (h.ok nestedValue) (by decide +kernel)

end ThingSet
