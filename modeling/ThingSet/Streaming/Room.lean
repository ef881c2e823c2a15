import ThingSet.Streaming.Frames
import ThingSet.Streaming.Items

/-!
# Reports that find room

The frames of a report are sent while its items are encoded. At most one chunk leaves the buffer before an item; an
item that does not fit behind what is left then is not encoded, and the report ends there: its first frames have been
sent, no last one follows, and the message number stays as it is.

* `FindRoom`: the items of a report fit into the buffer of the encoder, one after the other.
* `publish_iff`: a report is published, when all its frames are sent, exactly when its items find room.
* `frames_iff_findsRoom`: the frames of successive reports are those of complete reports exactly when the items of all
  of them find room.
-/

namespace ThingSet

open Transition

/-! ## Room -/

/-- How many bytes are in the buffer of two messages of `size` bytes, and behind which byte it ends, when a chunk of
`dataSize` bytes has left it. Nothing leaves it when there are no more. -/
def behindChunk (size dataSize b e : ℕ) : ℕ × ℕ := if dataSize < b then (b - dataSize, 2 * size) else (b, e)

/-- Items of these lengths find room behind `b` bytes in a buffer that ends behind `e`. -/
def FindRoom (size dataSize : ℕ) : List ℕ → ℕ → ℕ → Prop
  | [], _, _ => True
  | n :: ns, b, e =>
    let c := behindChunk size dataSize b e
    c.1 + n ≤ c.2 ∧ FindRoom size dataSize ns (c.1 + n) c.2

instance decidableFindRoom (size dataSize : ℕ) : (ns : List ℕ) → (b e : ℕ) → Decidable (FindRoom size dataSize ns b e)
  | [], _, _ => isTrue trivial
  | _ :: ns, _, _ =>
    have := decidableFindRoom size dataSize ns
    inferInstanceAs (Decidable (_ ∧ _))

/-- The calls that a binary encoder makes a call of zcbor for. -/
def EncodeOp.isItem : EncodeOp → Bool
  | .listSeparator | .keyValuePairSeparator | .encodeKeysAsIds | .renderGroupAsOutline | .renderedListLength _
  | .truncationMarker => false
  | .string _ | .float _ | .double _ | .bool _ | .uint _ _ | .int _ _ | .null | .preamble | .listStart _ | .listEnd _
  | .mapStart _ | .mapEnd _ | .bytes _ => true

/-- The items of a report find room in messages of `size` bytes, and its containers nest within `backups`. -/
structure ReportItems.FindsRoom (item : EncodeOp → Bytes) (backups size headerSize : ℕ) (report : ReportItems) :
    Prop where
  room : FindRoom size (size - headerSize) ((report.calls.filter (·.isItem)).map fun o => (item o).length) 1
    (2 * size - headerSize)
  nests : (nesting backups report.calls 0).isSome

/-- An item is encoded exactly when there is room for it, and a container is started or ended exactly when there can be
`backups` of them. -/
structure ZcborStreamEncode.FillsBuffer (Z : ZcborStreamEncode) (item : EncodeOp → Bytes) (backups : ℕ) : Prop
    extends Z.AppendsItems item where
  ok_iff : ∀ o f z, Z.call o = some f → z.depth = streamDepth + 2 → ((f z).1 = true ↔
    (item o).length ≤ z.room ∧ (nestedAfter backups o z.backups.length).isSome)
  kept : ∀ o f z, Z.call o = some f → z.depth = streamDepth + 2 → (f z).1 = true →
    nestedAfter backups o z.backups.length = some (f z).2.backups.length ∧ (f z).2.depth = z.depth ∧
      (f z).2.capacity = z.capacity

namespace StreamingEncoder

variable {ω : Type} {C : StreamingEncoder ω} {Z : ZcborStreamEncode} {item : EncodeOp → Bytes} {backups : ℕ}
  {s : StreamingEncodeState ω} {b e d : ℕ} {calls : List EncodeOp} {o : EncodeOp}

/-- `write` returns true for every chunk that can be in the buffer. -/
def TakesChunks (C : StreamingEncoder ω) : Prop := ∀ payload flushing exportedLength out,
  payload.length ≤ C.size + C.headerSize → (C.write payload flushing exportedLength out).1 = true

/-- There are `b` bytes in the buffer, which ends behind `e`, and `d` containers are open. -/
structure Filled (C : StreamingEncoder ω) (b e d : ℕ) (s : StreamingEncodeState ω) : Prop where
  output : s.zcbor.output.length = b
  capacity : s.zcbor.capacity = e
  depth : s.zcbor.depth = streamDepth + 2
  backups : s.zcbor.backups.length = d
  length_le : b ≤ e
  capacity_le : e ≤ 2 * C.size

theorem call_eq_none_iff : Z.call o = none ↔ o.isItem = false := by
  cases o <;> simp [ZcborStreamEncode.call, EncodeOp.isItem]

theorem filled_new (htype : C.reportType.isSome) (elementCount : ℕ) (out : ω) :
    C.Filled 1 (2 * C.size - C.headerSize) 0 (C.new elementCount out) := by
  obtain ⟨type, htype⟩ := Option.isSome_iff_exists.1 htype
  have hlt := C.headerSize_lt
  refine ⟨?_, rfl, rfl, rfl, by omega, Nat.sub_le _ _⟩
  simp only [new, htype, Option.toList_some, List.length_singleton]

/-- A chunk leaves the buffer when there is more in it. -/
theorem filled_writeIfNecessary (hC : C.TakesChunks) (h : C.Filled b e d s) :
    (C.writeIfNecessary s).1 = true ∧ C.Filled (behindChunk C.size C.dataSize b e).1
      (behindChunk C.size C.dataSize b e).2 d (C.writeIfNecessary s).2 := by
  obtain ⟨houtput, hcapacity, hdepth, hbackups, hle, hsize⟩ := h
  have hdata : C.dataSize ≤ C.size + C.headerSize := by
    unfold dataSize
    omega
  have hwrite := hC (s.zcbor.output.take C.dataSize) false s.exportedLength s.out
    ((List.length_take_le _ _).trans hdata)
  unfold writeIfNecessary behindChunk
  dsimp only
  rw [houtput]
  split
  · rw [hwrite]
    refine ⟨rfl, ?_, ?_, hdepth, hbackups, ?_, le_rfl⟩
    · simp only [ZcborEncodeState.updateState, Bool.not_true, Bool.false_eq_true, if_false, List.length_drop, houtput]
    · simp only [ZcborEncodeState.updateState, Bool.not_true, Bool.false_eq_true, if_false, List.length_drop, houtput]
      omega
    · dsimp only
      omega
  · exact ⟨rfl, houtput, hcapacity, hdepth, hbackups, hle, hsize⟩

/-- An item that zcbor is called for. -/
theorem filled_call (hZ : Z.FillsBuffer item backups) (h : C.Filled b e d s)
    {f : ZcborEncodeState → Bool × ZcborEncodeState} (hcall : Z.call o = some f) :
    ((f s.zcbor).1 = true ↔ b + (item o).length ≤ e ∧ (nestedAfter backups o d).isSome) ∧
      ((f s.zcbor).1 = true → ∃ d', nestedAfter backups o d = some d' ∧
        C.Filled (b + (item o).length) e d' { s with zcbor := (f s.zcbor).2 }) := by
  obtain ⟨rfl, rfl, hdepth, rfl, hle, hsize⟩ := h
  have hiff : (f s.zcbor).1 = true ↔ s.zcbor.output.length + (item o).length ≤ s.zcbor.capacity ∧
      (nestedAfter backups o s.zcbor.backups.length).isSome := by
    rw [hZ.ok_iff o f s.zcbor hcall hdepth, ZcborEncodeState.room, Nat.le_sub_iff_add_le' hle]
  refine ⟨hiff, fun hok => ?_⟩
  obtain ⟨hnested, hdepth', hcapacity⟩ := hZ.kept o f s.zcbor hcall hdepth hok
  have happend := hZ.append o f s.zcbor _ hcall (Prod.ext hok rfl)
  refine ⟨_, hnested, ?_, hcapacity, hdepth'.trans hdepth, rfl, (hiff.1 hok).1, hsize⟩
  rw [happend, List.length_append]

/-- A call is made for an item that finds room. -/
theorem filled_encode (hC : C.TakesChunks) (hZ : Z.FillsBuffer item backups) (h : C.Filled b e d s)
    (ho : o.isItem = true) :
    let c := behindChunk C.size C.dataSize b e
    ((C.encode Z o s).1 = true ↔ c.1 + (item o).length ≤ c.2 ∧ (nestedAfter backups o d).isSome) ∧
      ((C.encode Z o s).1 = true → ∃ d', nestedAfter backups o d = some d' ∧
        C.Filled (c.1 + (item o).length) c.2 d' (C.encode Z o s).2) := by
  obtain ⟨f, hcall⟩ : ∃ f, Z.call o = some f := by
    rw [← Option.ne_none_iff_exists', Ne, call_eq_none_iff, ho]
    exact Bool.noConfusion
  obtain ⟨hwrite, hfilled⟩ := filled_writeIfNecessary hC h
  rw [encode, hcall]
  dsimp only
  rw [hwrite, if_pos rfl]
  exact filled_call hZ hfilled hcall

/-- **Every call is made exactly when its items find room and its containers nest.** -/
theorem encodeAll_iff (calls : List EncodeOp) (hC : C.TakesChunks) (hZ : Z.FillsBuffer item backups)
    (h : C.Filled b e d s) :
    ((C.encodeAll Z calls s).1 = true ↔
      FindRoom C.size C.dataSize ((calls.filter (·.isItem)).map fun o => (item o).length) b e ∧
        (nesting backups calls d).isSome) ∧
      ((C.encodeAll Z calls s).1 = true → ∃ b e d, C.Filled b e d (C.encodeAll Z calls s).2) := by
  induction calls generalizing b e d s with
  | nil => exact ⟨iff_of_true rfl ⟨trivial, rfl⟩, fun _ => ⟨b, e, d, h⟩⟩
  | cons o calls ih =>
    rw [encodeAll]
    cases ho : o.isItem with
    | false =>
      have hcall := (call_eq_none_iff (Z := Z)).2 ho
      have hencode : C.encode Z o s = (true, s) := by rw [encode, hcall]
      rw [hencode, List.filter_cons_of_neg (by rw [ho]; exact Bool.false_ne_true), nesting,
        nestedAfter_of_call_eq_none hcall]
      exact ih h
    | true =>
      obtain ⟨hiff, hnext⟩ := filled_encode hC hZ h ho
      rw [List.filter_cons_of_pos ho, List.map_cons, FindRoom, nesting]
      rcases hencode : C.encode Z o s with ⟨_ | _, s'⟩
      · rw [hencode] at hiff
        refine ⟨iff_of_false Bool.false_ne_true fun hroom => Bool.false_ne_true (hiff.2 ⟨hroom.1.1, ?_⟩),
          fun hok => absurd hok Bool.false_ne_true⟩
        obtain ⟨d', hd'⟩ := Option.isSome_iff_exists.1 hroom.2
        obtain ⟨d₁, hd₁, -⟩ := Option.bind_eq_some_iff.1 hd'
        exact Option.isSome_of_eq_some hd₁
      · rw [hencode] at hiff hnext
        obtain ⟨d', hd', hfilled⟩ := hnext rfl
        obtain ⟨hiff', hfilled'⟩ := ih hfilled
        rw [hd', Option.bind_some]
        refine ⟨hiff'.trans ?_, hfilled'⟩
        exact ⟨fun hroom => ⟨⟨(hiff.1 rfl).1, hroom.1⟩, hroom.2⟩, fun hroom => ⟨hroom.1.2, hroom.2⟩⟩

/-- What is left is written. -/
theorem flush_of_filled (hC : C.TakesChunks) (h : C.Filled b e d s) : (C.flush s).1 = true := by
  have hlast {b e : ℕ} {s' : StreamingEncodeState ω} (h : C.Filled b e d s') (hb : b ≤ C.size + C.headerSize) :
      (C.writeLast s').1 = true :=
    hC _ _ _ _ (h.output.trans_le hb)
  have hlt := C.headerSize_lt
  have hlen := h.length_le.trans h.capacity_le
  unfold flush
  split
  · rename_i hmore
    obtain ⟨hwrite, hfilled⟩ := filled_writeIfNecessary hC h
    rw [h.output] at hmore
    rw [behindChunk, if_pos hmore] at hfilled
    have hrest := hlast hfilled (by unfold dataSize; dsimp only; omega)
    rcases hchunk : C.writeIfNecessary s with ⟨ok, s'⟩
    rw [hchunk] at hwrite hrest
    obtain rfl : ok = true := hwrite
    exact hrest
  · rename_i hmore
    rw [h.output] at hmore
    unfold dataSize at hmore
    exact hlast h (by omega)

/-- **A report whose frames are all sent is published exactly when its items find room.** -/
theorem publish_iff (hC : C.TakesChunks) (htype : C.reportType.isSome) (hZ : Z.FillsBuffer item backups)
    (report : ReportItems) (out : ω) :
    (C.publish Z report out).1 = true ↔ report.FindsRoom item backups C.size C.headerSize := by
  obtain ⟨hiff, hfilled⟩ := encodeAll_iff report.calls hC hZ (filled_new htype report.elementCount out)
  have hroom : report.FindsRoom item backups C.size C.headerSize ↔
      (C.encodeAll Z report.calls (C.new report.elementCount out)).1 = true :=
    ⟨fun h => hiff.2 ⟨h.room, h.nests⟩, fun h => ⟨(hiff.1 h).1, (hiff.1 h).2⟩⟩
  rw [hroom, publish]
  rcases hall : C.encodeAll Z report.calls (C.new report.elementCount out) with ⟨_ | _, s⟩
  · rfl
  · rw [hall] at hfilled
    obtain ⟨b, e, d, hs⟩ := hfilled rfl
    exact iff_of_true (flush_of_filled hC hs) rfl

end StreamingEncoder

/-! ## The ends of reports -/

/-- The frame is the last one of a report. -/
def Header.endsReport (h : Header) : Bool := h.type = some .single ∨ h.type = some .last

/-- How many reports end in these frames. -/
def endedReports (headers : List Header) : ℕ := headers.countP Header.endsReport

theorem endedReports_append (headers headers' : List Header) :
    endedReports (headers ++ headers') = endedReports headers + endedReports headers' := List.countP_append

theorem endedReports_openHeaders (k m : ℕ) : endedReports (openHeaders k m) = 0 := by
  induction k with
  | zero => rfl
  | succ k ih =>
    rw [openHeaders_succ, endedReports_append, ih]
    cases k <;> rfl

theorem endedReports_reportHeaders {n : ℕ} (hn : 0 < n) (m : ℕ) : endedReports (reportHeaders n m) = 1 := by
  obtain ⟨k, rfl⟩ := Nat.exists_eq_succ_of_ne_zero hn.ne'
  rw [reportHeaders_succ, endedReports_append, endedReports_openHeaders]
  cases k <;> rfl

theorem endedReports_headersOf (modulus : ℕ) {ns : List ℕ} (hns : ∀ n ∈ ns, 0 < n) (m : ℕ) :
    endedReports (headersOf modulus m ns) = ns.length := by
  induction ns generalizing m with
  | nil => rfl
  | cons n ns ih =>
    obtain ⟨hn, hns⟩ := List.forall_mem_cons.1 hns
    rw [headersOf, endedReports_append, endedReports_reportHeaders hn, ih hns, List.length_cons, Nat.add_comm]

namespace StreamingEncoder

variable {ω : Type} {C : StreamingEncoder ω} {Z : ZcborStreamEncode} {item : EncodeOp → Bytes} {backups modulus : ℕ}
  {renew : ω → ω} {log : ω → List Header} {seq number : ω → UInt8} {s : StreamingEncodeState ω} {out : ω}

section Out

variable {P : ω → Prop} (hP : ∀ payload e o o', P o → C.write payload false e o = (true, o') → P o')
include hP

theorem out_writeIfNecessary (hok : (C.writeIfNecessary s).1 = true) (hs : P s.out) :
    P (C.writeIfNecessary s).2.out := by
  unfold writeIfNecessary at hok ⊢
  dsimp only at hok ⊢
  split
  · rename_i hmore
    rw [if_pos hmore] at hok
    split
    · rename_i hnot
      rw [if_pos hnot] at hok
      cases hok
    · rename_i hnot
      exact hP _ _ _ _ hs (Prod.ext (by simpa using hnot) rfl)
  · exact hs

/-- The frames of a report that is not published are no last ones. -/
theorem out_encodeAll (hC : C.TakesChunks) (hZ : Z.FillsBuffer item backups) {b e d : ℕ} (h : C.Filled b e d s)
    (hs : P s.out) (calls : List EncodeOp) : P (C.encodeAll Z calls s).2.out := by
  induction calls generalizing s b e d with
  | nil => exact hs
  | cons o calls ih =>
    rw [encodeAll]
    have hout : P (C.encode Z o s).2.out := by
      rw [encode]
      cases hcall : Z.call o with
      | none => exact hs
      | some f =>
        have hwrite := (filled_writeIfNecessary hC h).1
        have hchunk := out_writeIfNecessary hP hwrite hs
        dsimp only
        rw [hwrite, if_pos rfl]
        exact hchunk
    rcases hencode : C.encode Z o s with ⟨_ | _, s'⟩
    · rw [hencode] at hout
      exact hout
    · rw [hencode] at hout
      suffices hfilled : ∃ b e d, C.Filled b e d s' by
        obtain ⟨b, e, d, hfilled⟩ := hfilled
        exact ih hfilled hout
      obtain ⟨-, hall⟩ := encodeAll_iff [o] hC hZ h
      rw [encodeAll, hencode] at hall
      exact hall rfl

end Out

variable (hlabelled : C.Labelled modulus renew log seq number) (hC : C.TakesChunks) (htype : C.reportType.isSome)
  (hZ : Z.FillsBuffer item backups)
include hlabelled hC htype hZ

/-- A report ends when it is published. -/
theorem endedReports_publish (report : ReportItems) (out : ω) :
    endedReports (log (C.publish Z report (renew out)).2) =
      (if (C.publish Z report (renew out)).1 then 1 else 0) + endedReports (log out) := by
  rcases hpublish : C.publish Z report (renew out) with ⟨_ | _, out'⟩
  · have hP : ∀ payload e o o', endedReports (log o) = endedReports (log out) →
        C.write payload false e o = (true, o') → endedReports (log o') = endedReports (log out) := by
      intro payload e o o' ho hwrite
      rw [(hlabelled.write _ _ _ _ _ hwrite).1, endedReports_append, ho, MessageType.ofWrite]
      by_cases he : e = 0 <;> simp [he, endedReports, Header.endsReport]
    have hnew := filled_new htype report.elementCount (renew out)
    have hall := out_encodeAll hP hC hZ hnew (congrArg endedReports (hlabelled.renew out).1) report.calls
    obtain ⟨-, hfilled⟩ := encodeAll_iff report.calls hC hZ hnew
    rw [publish] at hpublish
    rw [if_neg Bool.false_ne_true, Nat.zero_add]
    rcases hencode : C.encodeAll Z report.calls (C.new report.elementCount (renew out)) with ⟨_ | _, s⟩
    · rw [hencode] at hpublish hall
      obtain rfl : s.out = out' := congrArg Prod.snd hpublish
      exact hall
    · rw [hencode] at hpublish hfilled
      obtain ⟨b, e, d, hs⟩ := hfilled rfl
      have hflush : (C.flush s).1 = false := congrArg Prod.fst hpublish
      exact absurd (hflush.symm.trans (flush_of_filled hC hs)) Bool.false_ne_true
  · obtain ⟨n, hn, hlog, -⟩ := hlabelled.publish hpublish
    rw [hlog, endedReports_append, endedReports_reportHeaders hn, if_pos rfl, Nat.add_comm]

theorem endedReports_publishAll (reports : List ReportItems) (out : ω) :
    endedReports (log (runCalls (fun report o => C.publish Z report (renew o)) reports out).2) =
      (runCalls (fun report o => C.publish Z report (renew o)) reports out).1.countP id + endedReports (log out) := by
  induction reports generalizing out with
  | nil => exact (Nat.zero_add _).symm
  | cons report reports ih =>
    rw [runCalls]
    dsimp only
    rw [ih, endedReports_publish hlabelled hC htype hZ, List.countP_cons, id, Nat.add_assoc]

omit hlabelled in
theorem publishAll_iff (reports : List ReportItems) (out : ω) :
    (∀ r ∈ (runCalls (fun report o => C.publish Z report (renew o)) reports out).1, r = true) ↔
      ∀ report ∈ reports, report.FindsRoom item backups C.size C.headerSize := by
  induction reports generalizing out with
  | nil => exact iff_of_true (fun _ hr => absurd hr List.not_mem_nil) fun _ hr => absurd hr List.not_mem_nil
  | cons report reports ih =>
    rw [runCalls, List.forall_mem_cons, List.forall_mem_cons, publish_iff hC htype hZ, ih]

/-- **The frames of successive reports are those of complete ones exactly when the items of all of them find room.** -/
theorem frames_iff (hmodulus : modulus ∣ 256) (reports : List ReportItems) {out : ω} {m : ℕ}
    (hm : (number out).toNat = m % 256) :
    (∃ ns : List ℕ, ns.length = reports.length ∧ (∀ n ∈ ns, 0 < n) ∧
      log (runCalls (fun report o => C.publish Z report (renew o)) reports out).2 =
        log out ++ headersOf modulus m ns) ↔
      ∀ report ∈ reports, report.FindsRoom item backups C.size C.headerSize := by
  rw [← publishAll_iff hC htype hZ reports out]
  constructor
  · rintro ⟨ns, hlength, hns, hlog⟩
    -- every report ends, so every one is published
    have hended := endedReports_publishAll hlabelled hC htype hZ reports out
    rw [hlog, endedReports_append, endedReports_headersOf modulus hns, hlength, Nat.add_comm] at hended
    refine List.countP_eq_length.1 ((Nat.add_right_cancel hended).symm.trans ?_)
    exact (length_runCalls reports out).symm
  · exact fun h => hlabelled.publishAll hmodulus h hm

end StreamingEncoder

theorem udp_takesChunks {τ : Type} (enhanced : Bool) {send : Bytes → τ → Bool × τ}
    (hsend : ∀ x t, (send x t).1 = true) : (streamingUdpEncoder enhanced (logged send)).TakesChunks := by
  intro payload flushing e out _
  rw [udp_write]
  exact hsend _ _

theorem can_takesChunks {τ : Type} (size : ℕ) (size_pos : 0 < size) (enhanced flagInId : Bool)
    (nodeAddress : List (BitVec 32 × Bytes) × τ → UInt8) {send : BitVec 32 × Bytes → τ → Bool × τ}
    (hsend : ∀ x t, (send x t).1 = true) :
    (streamingCanEncoder size size_pos enhanced
      (CanTransport.publish nodeAddress (doPublish size flagInId (logged send)))).TakesChunks := by
  intro payload flushing e out hle
  have hfits : ¬ payload.length > size := Nat.not_lt.2 hle
  simp only [streamingCanEncoder, CanTransport.publish, doPublish, if_neg hfits, logged]
  exact hsend _ _

/-! ## Successive reports -/

/-! ## The reference functions -/

namespace ZcborEncodeReference

variable {z : ZcborEncodeState} {bs : Bytes} {major max d : ℕ}

theorem put_fills : ((put bs z).1 = true ↔ bs.length ≤ z.room ∧ (some z.backups.length).isSome) ∧
    ((put bs z).1 = true → some z.backups.length = some (put bs z).2.backups.length ∧ (put bs z).2.depth = z.depth ∧
      (put bs z).2.capacity = z.capacity) := by
  rw [put]
  split
  · rename_i hroom
    exact ⟨iff_of_true rfl ⟨hroom, rfl⟩, fun _ => ⟨rfl, rfl, rfl⟩⟩
  · rename_i hroom
    exact ⟨iff_of_false Bool.false_ne_true fun h => hroom h.1, fun h => absurd h Bool.false_ne_true⟩

theorem start_fills (hdepth : z.depth = d) : ((start major max z).1 = true ↔
      (Cbor.writeHead major max).length ≤ z.room ∧
        (if z.backups.length < d then some (z.backups.length + 1) else none).isSome) ∧
    ((start major max z).1 = true →
      (if z.backups.length < d then some (z.backups.length + 1) else none) = some (start major max z).2.backups.length ∧
        (start major max z).2.depth = z.depth ∧ (start major max z).2.capacity = z.capacity) := by
  subst hdepth
  rw [start]
  split
  · rename_i h
    rw [if_pos h.1]
    exact ⟨iff_of_true rfl ⟨h.2, rfl⟩, fun _ => ⟨rfl, rfl, rfl⟩⟩
  · rename_i h
    refine ⟨iff_of_false Bool.false_ne_true fun hfits => h ⟨?_, hfits.1⟩, fun h => absurd h Bool.false_ne_true⟩
    by_contra hfull
    rw [if_neg hfull] at hfits
    exact absurd hfits.2 Bool.false_ne_true

theorem processBackup_fills : ((zcborStreamReference.processBackup z).1 = true ↔
      ([] : Bytes).length ≤ z.room ∧ (if 0 < z.backups.length then some (z.backups.length - 1) else none).isSome) ∧
    ((zcborStreamReference.processBackup z).1 = true →
      (if 0 < z.backups.length then some (z.backups.length - 1) else none) =
          some (zcborStreamReference.processBackup z).2.backups.length ∧
        (zcborStreamReference.processBackup z).2.depth = z.depth ∧
        (zcborStreamReference.processBackup z).2.capacity = z.capacity) := by
  obtain ⟨output, capacity, elemCount, _ | ⟨b, backups⟩, depth⟩ := z
  · exact ⟨iff_of_false Bool.false_ne_true fun h => Bool.false_ne_true h.2, fun h => absurd h Bool.false_ne_true⟩
  · exact ⟨iff_of_true rfl ⟨Nat.zero_le _, rfl⟩, fun _ => ⟨rfl, rfl, rfl⟩⟩

end ZcborEncodeReference

open ZcborEncodeReference in
theorem zcborStreamReference_fills {o : EncodeOp} {f : ZcborEncodeState → Bool × ZcborEncodeState}
    {z : ZcborEncodeState} (hf : zcborStreamReference.call o = some f) (hdepth : z.depth = streamDepth + 2) :
    ((f z).1 = true ↔
      (itemReference o).length ≤ z.room ∧ (nestedAfter (streamDepth + 2) o z.backups.length).isSome) ∧
    ((f z).1 = true → nestedAfter (streamDepth + 2) o z.backups.length = some (f z).2.backups.length ∧
      (f z).2.depth = z.depth ∧ (f z).2.capacity = z.capacity) := by
  cases o with
  | string | float | double | bool | null | preamble | bytes =>
    obtain rfl := Option.some.inj hf
    exact put_fills
  | uint w | int w =>
    obtain rfl := Option.some.inj hf
    cases w <;> exact put_fills
  | listStart | mapStart =>
    obtain rfl := Option.some.inj hf
    exact start_fills hdepth
  | listEnd | mapEnd =>
    obtain rfl := Option.some.inj hf
    exact processBackup_fills
  | _ => cases hf

theorem zcborStreamReference_fillsBuffer : zcborStreamReference.FillsBuffer itemReference (streamDepth + 2) where
  toAppendsItems := zcborStreamReference_appendsItems
  ok_iff _ _ _ hf hdepth := (zcborStreamReference_fills hf hdepth).1
  kept _ _ _ hf hdepth := (zcborStreamReference_fills hf hdepth).2

/-- A report of eleven bytes and one of three. -/
def twoReports : List ReportItems := [⟨2, [.uint .w32 0, .bytes [0, 1, 2, 3, 4, 5, 6, 7]]⟩, ⟨2, [.uint .w32 0, .null]⟩]

theorem frameSize_pos : 0 < 8 := by decide

/-- They are published over CAN, in frames of eight bytes. -/
def publishedFrames (reports : List ReportItems) (messageNumber : UInt8) : List Header :=
  (runCalls (fun report o => (streamingCanEncoder 8 frameSize_pos false (CanTransport.publish
    (fun _ => 0x11) (doPublish 8 true (logged fun _ (t : Unit) => (true, t))))).publish
      zcborStreamReference report (0, o.2)) reports (0, ⟨messageNumber, ([], ())⟩)).2.2.bus.1.map (canHeader ·.1)

/-- A report with a byte string that does not fit behind the eleven bytes before it, and one of three bytes. -/
def longReport : List ReportItems :=
  [⟨2, [.uint .w32 0, .bytes (List.replicate 8 0), .bytes (List.replicate 20 0)]⟩, ⟨2, [.uint .w32 0, .null]⟩]

end ThingSet
