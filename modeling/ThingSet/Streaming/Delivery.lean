import ThingSet.Streaming.Listener

/-!
# The delivery of reports

Reports are published one after the other by each of several senders, through a streaming encoder and a transport, and
heard by a subscriber. A send may fail: the report is then given up, and what was sent of it stays incomplete.

* `Sends`: what a transport makes of the calls of `write`.
* `publish_sending`: the messages of one publication, whether or not it succeeds.
* `callbacks_of_publish`: the callbacks of the subscriber are, for each sender, the publications that succeed.
* `delivered_of_publish`: what the decoders of the callbacks decode, over CAN and UDP.
-/

namespace ThingSet

open Transition

/-! ## Messages -/

/-- A message as it is received: its memory goes on behind it, and it may be padded unless its length is `exact`, like
a CAN FD frame to the next length that there is. -/
structure Arrives (C : StreamingDecoder) (exact : Prop) (m m' : Message) : Prop where
  type : m'.type = m.type
  data : ∃ pad rest, m'.data = m.data ++ (pad ++ rest) ∧ m'.length = m.length + pad.length
  length_le : ¬ exact → m'.length ≤ C.size
  length_eq : exact → m'.length = m.length

/-- `write` hands over the messages of `log`: one for each call that succeeds, with its payload and its type, and none
for a call that fails. -/
structure StreamingEncoder.Sends {ω : Type} (E : StreamingEncoder ω) (C : StreamingDecoder) (renew : ω → ω)
    (log : ω → List Message) : Prop where
  renew : ∀ o, log (renew o) = log o
  sent : ∀ payload flushing e o o', E.write payload flushing e o = (true, o') →
    ∃ m, log o' = log o ++ [m] ∧ C.Carries payload m ∧ m.data.length = m.length ∧
      m.type = some (.ofWrite flushing e)
  failed : ∀ payload flushing e o o', E.write payload flushing e o = (false, o') → log o' = log o

/-- What a transport hands over is recorded, where sending it succeeds. -/
def loggedIfSent {α τ : Type} (send : α → τ → Bool × τ) (x : α) (o : List α × τ) : Bool × (List α × τ) :=
  let (sent, t) := send x o.2
  (sent, (if sent then o.1 ++ [x] else o.1, t))

namespace StreamingDecoder

variable {C : StreamingDecoder} {exact : Prop} {c : Bytes} {ms : List Message} {m m' : Message}

/-- The messages of a report that has not ended, or none. -/
def Begun (ms : List Message) : Prop := ms = [] ∨ Opens ms

/-- One more message, of the type that `write` gives it. -/
theorem Begun.concat (h : Begun ms) {e : ℕ} (he : e = 0 ↔ ms = []) (hm : m.type = some (.ofWrite false e)) :
    Opens (ms ++ [m]) := by
  rw [MessageType.ofWrite] at hm
  rcases h with rfl | ⟨m₀, rest, rfl, hfirst, hrest⟩
  · rw [if_pos (he.2 rfl)] at hm
    exact ⟨m, [], rfl, hm, fun _ h => absurd h List.not_mem_nil⟩
  · rw [if_neg (fun h => by simpa using he.1 h)] at hm
    refine ⟨m₀, rest ++ [m], rfl, hfirst, fun m' hm' => ?_⟩
    rcases List.mem_append.1 hm' with hm' | hm'
    · exact hrest m' hm'
    · rw [List.mem_singleton.1 hm']
      exact hm

/-- The last message. -/
theorem Begun.isReport (h : Begun ms) {e : ℕ} (he : e = 0 ↔ ms = []) (hm : m.type = some (.ofWrite true e)) :
    IsReport (ms ++ [m]) := by
  rw [MessageType.ofWrite] at hm
  rcases h with rfl | hopens
  · rw [if_pos (he.2 rfl)] at hm
    exact .inl ⟨m, rfl, hm⟩
  · have hne : ms ≠ [] := by
      obtain ⟨m₀, rest, rfl, -⟩ := hopens
      exact List.cons_ne_nil m₀ rest
    rw [if_neg (fun h => hne (he.1 h))] at hm
    exact .inr ⟨ms, m, rfl, hopens, hm⟩

/-- Only the last message of a report ends it. -/
theorem IsReport.framed {chunks : List Bytes} (h : IsReport ms) (hms : List.Forall₂ C.Carries chunks ms) :
    C.Framed chunks ms := by
  refine ⟨hms, ?_, ?_⟩
  · rcases h with ⟨m, rfl, -⟩ | ⟨init, m, rfl, ⟨m₀, rest, rfl, hfirst, hrest⟩, -⟩
    · exact fun _ h => absurd h List.not_mem_nil
    · rw [List.dropLast_concat]
      intro m' hm'
      rcases List.mem_cons.1 hm' with rfl | hm'
      · rw [hfirst]
        exact ⟨by decide, by decide⟩
      · rw [hrest m' hm']
        exact ⟨by decide, by decide⟩
  · rcases h with ⟨m, rfl, hm⟩ | ⟨init, m, rfl, -, hm⟩
    · intro m' hm'
      rw [← Option.some.inj hm']
      exact .inl hm
    · rw [List.getLast?_concat]
      intro m' hm'
      rw [← Option.some.inj hm']
      exact .inr hm

/-- What a message carries when it arrives. -/
theorem Carries.of_arrives (h : C.Carries c m) (hc : c.length ≤ C.dataSize) (hlength : m.data.length = m.length)
    (harrives : Arrives C exact m m') :
    ∃ pad, C.Carries (c ++ pad) m' ∧ (c ++ pad).length ≤ C.dataSize ∧ (exact → pad = []) := by
  obtain ⟨-, ⟨pad, rest, hdata, hlen⟩, hle, hexact⟩ := harrives
  have hpad : exact → pad = [] := fun h => List.eq_nil_of_length_eq_zero (by have := hexact h; omega)
  have hcarried := h.length
  have hdrop : m.data.drop C.headerSize = c := by
    rw [← h.data, List.take_of_length_le]
    rw [List.length_drop]
    omega
  refine ⟨pad, ⟨by rw [List.length_append]; omega, ?_⟩, ?_, hpad⟩
  · rw [hdata, List.drop_append_of_le_length (by omega), hdrop, ← List.append_assoc, List.take_left]
  · by_cases h : exact
    · rwa [hpad h, List.append_nil]
    · have hsize := dataSize_add (C := C)
      have hlength := hle h
      rw [List.length_append]
      omega

/-- The messages of a report that has been cut into chunks: at most the last one is padded. -/
theorem carries_of_arrives {chunks : List Bytes} {ms' : List Message} (hcut : Chunked C.dataSize chunks)
    (hms : List.Forall₂ C.Carries chunks ms) (hwhole : ∀ m ∈ ms, m.data.length = m.length)
    (harrives : List.Forall₂ (Arrives C exact) ms ms') :
    ∃ chunks' pad, List.Forall₂ C.Carries chunks' ms' ∧ chunks'.flatten = chunks.flatten ++ pad ∧
      Chunked C.dataSize chunks' ∧ lastLength chunks ≤ lastLength chunks' ∧ (exact → pad = []) := by
  induction hms generalizing ms' with
  | nil =>
    cases harrives
    exact ⟨[], [], .nil, rfl, hcut, Nat.le_refl _, fun _ => rfl⟩
  | @cons c m chunks ms hc hcs ih =>
    obtain ⟨m', rest, harrive, hrest, rfl⟩ := List.forall₂_cons_left_iff.1 harrives
    obtain ⟨pad, hcarries, hle, hexact⟩ := hc.of_arrives (hcut.length_le List.mem_cons_self)
      (hwhole m List.mem_cons_self) harrive
    cases chunks with
    | nil =>
      cases hcs
      cases hrest
      refine ⟨[c ++ pad], pad, .cons hcarries .nil, by simp, ⟨by simp, ?_⟩, by simp [lastLength], hexact⟩
      simpa using hle
    | cons d chunks =>
      have hfull := hcut.length_head (List.cons_ne_nil d chunks)
      obtain rfl : pad = [] := by
        rw [List.length_append] at hle
        exact List.eq_nil_of_length_eq_zero (by omega)
      obtain ⟨chunks', pad, hcarries', hflatten, hcut', hlast, hexact⟩ :=
        ih hcut.tail (fun m hm => hwhole m (List.mem_cons_of_mem _ hm)) hrest
      have hne : chunks' ≠ [] := by
        rintro rfl
        cases hcarries'
        cases hrest
        cases hcs
      rw [List.append_nil] at hcarries
      refine ⟨c :: chunks', pad, .cons hcarries hcarries', ?_, hcut'.cons hne hfull, ?_, hexact⟩
      · rw [List.flatten_cons, hflatten, List.flatten_cons (l := c), List.append_assoc]
      · rwa [lastLength_cons hne, lastLength_cons (List.cons_ne_nil d chunks)]

/-- The types of the messages. -/
theorem types_of_arrives {ms' : List Message} (h : List.Forall₂ (Arrives C exact) ms ms') :
    ms'.map (·.type) = ms.map (·.type) := by
  induction h with
  | nil => rfl
  | cons hm _ ih => rw [List.map_cons, List.map_cons, hm.type, ih]

theorem opens_iff : Opens ms ↔ ∃ n, ms.map (·.type) = some .first :: List.replicate n (some .consecutive) := by
  constructor
  · rintro ⟨m, rest, rfl, hfirst, hrest⟩
    refine ⟨rest.length, ?_⟩
    rw [List.map_cons, hfirst, List.map_eq_replicate_iff.2 hrest]
  · rintro ⟨n, h⟩
    obtain ⟨m, rest, rfl, hfirst, hrest⟩ := List.map_eq_cons_iff.1 h
    refine ⟨m, rest, rfl, hfirst, fun m' hm' => ?_⟩
    exact List.eq_of_mem_replicate (hrest ▸ List.mem_map_of_mem hm')

/-- Whether messages begin a report is said by their types. -/
theorem Begun.of_types {ms' : List Message} (h : Begun ms) (htypes : ms'.map (·.type) = ms.map (·.type)) :
    Begun ms' := by
  rcases h with rfl | h
  · exact .inl (List.map_eq_nil_iff.1 htypes)
  · exact .inr (opens_iff.2 (htypes ▸ opens_iff.1 h))

/-- Whether they are a report, too. -/
theorem IsReport.of_types {ms' : List Message} (h : IsReport ms) (htypes : ms'.map (·.type) = ms.map (·.type)) :
    IsReport ms' := by
  rcases h with ⟨m, rfl, hm⟩ | ⟨init, m, rfl, hopens, hm⟩
  · obtain ⟨m', rfl, hm'⟩ := List.map_eq_singleton_iff.1 htypes
    exact .inl ⟨m', rfl, hm'.trans hm⟩
  · rw [List.map_append] at htypes
    obtain ⟨init', last', rfl, hinit, hlast⟩ := List.map_eq_append_iff.1 htypes
    obtain ⟨m', rfl, hm'⟩ := List.map_eq_singleton_iff.1 hlast
    exact .inr ⟨init', m', rfl, opens_iff.2 (hinit ▸ opens_iff.1 hopens), hm'.trans hm⟩

end StreamingDecoder

/-! ## A publication -/

namespace StreamingEncoder

open StreamingDecoder

variable {ω : Type} {E : StreamingEncoder ω} {C : StreamingDecoder} {Z : ZcborStreamEncode} {renew : ω → ω}
  {log : ω → List Message} {item : EncodeOp → Bytes} {before ms : List Message} {bs : Bytes}
  {s s' : StreamingEncodeState ω} {ok : Bool}

/-- What has been handed over of a report so far. -/
structure Emitted (C : StreamingDecoder) (log : ω → List Message) (before ms : List Message)
    (s : StreamingEncodeState ω) : Prop where
  log_eq : log s.out = before ++ ms
  carries : List.Forall₂ C.Carries s.chunks ms
  whole : ∀ m ∈ ms, m.data.length = m.length
  begun : Begun ms
  exported : s.exportedLength = 0 ↔ ms = []

/-- The report is not complete. -/
def Incomplete (log : ω → List Message) (before : List Message) (o : ω) : Prop :=
  ∃ ms, log o = before ++ ms ∧ Begun ms

/-- After a call that succeeds `P` holds, and after one that fails the report is not complete. -/
def Progress (log : ω → List Message) (before : List Message) (P : StreamingEncodeState ω → Prop)
    (r : Bool × StreamingEncodeState ω) : Prop :=
  (r.1 = true → P r.2) ∧ (r.1 = false → Incomplete log before r.2.out)

theorem Emitted.incomplete (h : Emitted C log before ms s) : Incomplete log before s.out := ⟨ms, h.log_eq, h.begun⟩

theorem emitted_writeIfNecessary (hE : E.Sends C renew log) (h : Emitted C log before ms s) :
    Progress log before (fun s' => ∃ ms, Emitted C log before ms s') (E.writeIfNecessary s) := by
  rw [writeIfNecessary]
  dsimp only
  split
  · rcases hwrite : E.write (s.zcbor.output.take E.dataSize) false s.exportedLength s.out with ⟨written, o⟩
    simp only [hwrite]
    cases written with
    | false =>
      refine ⟨fun hok => Bool.noConfusion hok, fun _ => ⟨ms, ?_, h.begun⟩⟩
      exact (hE.failed _ _ _ _ _ hwrite).trans h.log_eq
    | true =>
      obtain ⟨m, hlog, hcarries, hwhole, htype⟩ := hE.sent _ _ _ _ _ hwrite
      have hpos := dataSize_pos (C := E)
      refine ⟨fun _ => ⟨ms ++ [m], ?_, ?_, ?_, .inr (h.begun.concat h.exported htype), ?_⟩, fun hok => Bool.noConfusion hok⟩
      · exact hlog.trans (by rw [h.log_eq, List.append_assoc])
      · exact List.rel_append h.carries (.cons hcarries .nil)
      · simpa [or_imp, forall_and] using ⟨h.whole, hwhole⟩
      · simp
        omega
  · exact ⟨fun _ => ⟨ms, h⟩, fun hok => Bool.noConfusion hok⟩

theorem emitted_encode (hE : E.Sends C renew log) (h : Emitted C log before ms s) (o : EncodeOp) :
    Progress log before (fun s' => ∃ ms, Emitted C log before ms s') (E.encode Z o s) := by
  rw [encode]
  split
  · exact ⟨fun _ => ⟨ms, h⟩, fun hok => Bool.noConfusion hok⟩
  · rename_i f _
    have hwrite := emitted_writeIfNecessary hE h
    rcases hw : E.writeIfNecessary s with ⟨ok, s₁⟩
    rw [hw] at hwrite
    cases ok with
    | false => exact ⟨fun hok => Bool.noConfusion hok, fun _ => hwrite.2 rfl⟩
    | true =>
      obtain ⟨ms₁, h₁⟩ := hwrite.1 rfl
      exact ⟨fun _ => ⟨ms₁, h₁.log_eq, h₁.carries, h₁.whole, h₁.begun, h₁.exported⟩, fun _ => h₁.incomplete⟩

/-- Items have been encoded, and a report ends with one of their bytes. -/
structure Sofar (E : StreamingEncoder ω) (C : StreamingDecoder) (log : ω → List Message) (before : List Message)
    (bs : Bytes) (s : StreamingEncodeState ω) : Prop where
  emitted : ∃ ms, Emitted C log before ms s
  encoded : E.Encoded bs s
  output_pos : 0 < s.zcbor.output.length

/-- A new encoder of a transport. -/
theorem sofar_new (hE : E.Sends C renew log) (htype : E.reportType.isSome) (elementCount : ℕ) (out : ω) :
    Sofar E C log (log out) E.reportType.toList (E.new elementCount (renew out)) := by
  refine ⟨⟨[], ?_, .nil, fun _ h => absurd h List.not_mem_nil, .inl rfl, by simp [new]⟩, encoded_new _ _, ?_⟩
  · rw [List.append_nil]
    exact hE.renew out
  · obtain ⟨type, htype⟩ := Option.isSome_iff_exists.1 htype
    simp [new, htype]

theorem progress_encode (hE : E.Sends C renew log) (hZ : Z.AppendsItems item) (h : Sofar E C log before bs s)
    {o : EncodeOp} (ho : (item o).length ≤ E.dataSize) :
    Progress log before (Sofar E C log before (bs ++ item o)) (E.encode Z o s) := by
  obtain ⟨ms, hemitted⟩ := h.emitted
  obtain ⟨hok, hfail⟩ := emitted_encode (Z := Z) hE hemitted o
  refine ⟨fun htrue => ?_, hfail⟩
  have heq : E.encode Z o s = (true, (E.encode Z o s).2) := Prod.ext htrue rfl
  exact ⟨hok htrue, encoded_encode hZ h.encoded ho heq, output_pos_encode hZ h.output_pos heq⟩

theorem progress_encodeAll (hE : E.Sends C renew log) (hZ : Z.AppendsItems item) {calls : List EncodeOp}
    (hcalls : ∀ o ∈ calls, (item o).length ≤ E.dataSize) (h : Sofar E C log before bs s) :
    Progress log before (Sofar E C log before (bs ++ calls.flatMap item)) (E.encodeAll Z calls s) := by
  induction calls generalizing bs s with
  | nil =>
    refine ⟨fun _ => ?_, fun hok => Bool.noConfusion hok⟩
    rw [List.flatMap_nil, List.append_nil]
    exact h
  | cons o calls ih =>
    have hstep := progress_encode hE hZ h (hcalls o List.mem_cons_self)
    rw [encodeAll]
    rcases hcall : E.encode Z o s with ⟨ok, s₁⟩
    rw [hcall] at hstep
    cases ok with
    | false => exact ⟨fun hok => Bool.noConfusion hok, fun _ => hstep.2 rfl⟩
    | true =>
      rw [List.flatMap_cons, ← List.append_assoc]
      exact ih (fun o' ho' => hcalls o' (List.mem_cons_of_mem o ho')) (hstep.1 rfl)

/-- The messages of a whole report. -/
structure SentReport (C : StreamingDecoder) (payload : Bytes) (ms : List Message) : Prop where
  isReport : IsReport ms
  whole : ∀ m ∈ ms, m.data.length = m.length
  cut : ∃ chunks, List.Forall₂ C.Carries chunks ms ∧ chunks.flatten = payload ∧ C.Report chunks

theorem sent_writeLast (hE : E.Sends C renew log) (hsize : E.dataSize = C.dataSize) (h : Sofar E C log before bs s)
    (hlen : s.zcbor.output.length ≤ E.dataSize) :
    Progress log before (fun s' => ∃ ms, log s'.out = before ++ ms ∧ SentReport C bs ms) (E.writeLast s) := by
  obtain ⟨ms, hemitted⟩ := h.emitted
  obtain ⟨hflatten, hcut⟩ := chunks_writeLast h.encoded hlen
  rcases hwrite : E.write s.zcbor.output true s.exportedLength s.out with ⟨written, o⟩
  simp only [writeLast, hwrite] at hflatten hcut ⊢
  cases written with
  | false =>
    exact ⟨fun hok => Bool.noConfusion hok,
      fun _ => ⟨ms, (hE.failed _ _ _ _ _ hwrite).trans hemitted.log_eq, hemitted.begun⟩⟩
  | true =>
    obtain ⟨m, hlog, hcarries, hwhole, htype⟩ := hE.sent _ _ _ _ _ hwrite
    refine ⟨fun _ => ⟨ms ++ [m], ?_, hemitted.begun.isReport hemitted.exported htype, ?_, ?_⟩,
      fun hok => Bool.noConfusion hok⟩
    · exact hlog.trans (by rw [hemitted.log_eq, List.append_assoc])
    · simpa [or_imp, forall_and] using ⟨hemitted.whole, hwhole⟩
    · refine ⟨_, List.rel_append hemitted.carries (.cons hcarries .nil), hflatten, hsize ▸ hcut, ?_⟩
      rw [StreamingDecoder.lastLength, List.getLast?_concat]
      exact h.output_pos

theorem sent_flush (hE : E.Sends C renew log) (hsize : E.dataSize = C.dataSize) (h : Sofar E C log before bs s) :
    Progress log before (fun s' => ∃ ms, log s'.out = before ++ ms ∧ SentReport C bs ms) (E.flush s) := by
  rw [flush]
  split
  · obtain ⟨ms, hemitted⟩ := h.emitted
    have hwrite := emitted_writeIfNecessary hE hemitted
    rcases hw : E.writeIfNecessary s with ⟨ok, s₁⟩
    rw [hw] at hwrite
    cases ok with
    | false => exact ⟨fun hok => Bool.noConfusion hok, fun _ => hwrite.2 rfl⟩
    | true =>
      obtain ⟨hencoded, hlen⟩ := encoded_writeIfNecessary h.encoded hw
      exact sent_writeLast hE hsize ⟨hwrite.1 rfl, hencoded, output_pos_writeIfNecessary h.output_pos hw⟩ hlen
  · rename_i hlen
    exact sent_writeLast hE hsize h (Nat.not_lt.1 hlen)

/-- **A publication hands over the messages of the whole report if it succeeds, and else those of an incomplete one,
or none.** -/
theorem publish_sending (hE : E.Sends C renew log) (hsize : E.dataSize = C.dataSize) (htype : E.reportType.isSome)
    (hZ : Z.AppendsItems item) {report : ReportItems} (hcalls : ∀ o ∈ report.calls, (item o).length ≤ E.dataSize)
    (out : ω) :
    ∃ ms, log (E.publish Z report (renew out)).2 = log out ++ ms ∧
      ((E.publish Z report (renew out)).1 = true →
        SentReport C (E.reportType.toList ++ report.calls.flatMap item) ms) ∧
      ((E.publish Z report (renew out)).1 = false → Begun ms) := by
  have hall := progress_encodeAll hE hZ hcalls (sofar_new hE htype report.elementCount out)
  rw [publish]
  rcases hencode : E.encodeAll Z report.calls (E.new report.elementCount (renew out)) with ⟨ok, s⟩
  rw [hencode] at hall
  cases ok with
  | false =>
    obtain ⟨ms, hlog, hbegun⟩ := hall.2 rfl
    exact ⟨ms, hlog, fun hok => Bool.noConfusion hok, fun _ => hbegun⟩
  | true =>
    have hflush := sent_flush hE hsize (hall.1 rfl)
    dsimp only
    rcases hf : E.flush s with ⟨ok, s'⟩
    rw [hf] at hflush
    cases ok with
    | false =>
      obtain ⟨ms, hlog, hbegun⟩ := hflush.2 rfl
      exact ⟨ms, hlog, fun hok => Bool.noConfusion hok, fun _ => hbegun⟩
    | true =>
      obtain ⟨ms, hlog, hsent⟩ := hflush.1 rfl
      exact ⟨ms, hlog, fun _ => hsent, fun hok => Bool.noConfusion hok⟩

/-! ## Publications one after the other -/

/-- A publication: the report, whether it succeeds, and the messages that are handed over. -/
structure Sending where
  report : ReportItems
  ok : Bool
  messages : List Message

/-- What a publication hands over. -/
def Sending.Valid (E : StreamingEncoder ω) (C : StreamingDecoder) (item : EncodeOp → Bytes) (p : Sending) : Prop :=
  (p.ok = true → SentReport C (E.reportType.toList ++ p.report.calls.flatMap item) p.messages) ∧
    (p.ok = false → Begun p.messages)

theorem publishAll_sendings (hE : E.Sends C renew log) (hsize : E.dataSize = C.dataSize) (htype : E.reportType.isSome)
    (hZ : Z.AppendsItems item) {reports : List ReportItems}
    (hcalls : ∀ r ∈ reports, ∀ o ∈ r.calls, (item o).length ≤ E.dataSize) (out : ω) :
    let run := runCalls (fun report o => E.publish Z report (renew o)) reports out
    ∃ ps : List Sending, ps.map (·.report) = reports ∧ ps.map (·.ok) = run.1 ∧
      log run.2 = log out ++ ps.flatMap (·.messages) ∧ ∀ p ∈ ps, p.Valid E C item := by
  induction reports generalizing out with
  | nil => exact ⟨[], rfl, rfl, (List.append_nil _).symm, fun _ h => absurd h List.not_mem_nil⟩
  | cons report reports ih =>
    obtain ⟨ms, hlog, hvalid⟩ := publish_sending hE hsize htype hZ (hcalls report List.mem_cons_self) out
    obtain ⟨ps, hreports, hresults, hlogs, hps⟩ :=
      ih (fun r hr => hcalls r (List.mem_cons_of_mem report hr)) (E.publish Z report (renew out)).2
    refine ⟨⟨report, (E.publish Z report (renew out)).1, ms⟩ :: ps, ?_, ?_, ?_, ?_⟩
    · rw [List.map_cons, hreports]
    · rw [List.map_cons, hresults]
      rfl
    · rw [List.flatMap_cons, ← List.append_assoc, ← hlog]
      exact hlogs
    · intro p hp
      rcases List.mem_cons.1 hp with rfl | hp
      · exact hvalid
      · exact hps p hp

end StreamingEncoder

/-! ## The subscriber -/

namespace StreamingDecoder

open StreamingEncoder

variable {K I ω : Type} {C : StreamingDecoder} {E : StreamingEncoder ω} {item : EncodeOp → Bytes} {exact : Prop}
  {p : Sending} {ps : List Sending} {as : List (Arrival K I)}

/-- The decoder that a callback is called with has received the payload. -/
structure Delivered (C : StreamingDecoder) (exact : Prop) (payload : Bytes) (s : StreamingDecodeState) : Prop where
  received : ∃ chunks ms stale pad, C.Report chunks ∧ C.Framed chunks ms ∧ stale.length = 2 * C.size ∧
    s = C.receiveAll ms (C.new stale) ∧ chunks.flatten = payload ++ pad ∧ (exact → pad = [])

/-- The messages of one publication arrive. -/
theorem run_sending (hp : p.Valid E C item)
    (has : List.Forall₂ (Arrives C exact) p.messages (as.map (·.message)))
    (hstale : ∀ a ∈ as, a.stale.length = 2 * C.size) (decoder : Option StreamingDecodeState) :
    List.Forall₂ (fun p cb => Delivered C exact (E.reportType.toList ++ p.report.calls.flatMap item) cb.decoder)
      ([p].filter (·.ok)) ((runCalls C.handleOne as decoder).1.filterMap id) := by
  have htypes := types_of_arrives has
  cases hok : p.ok with
  | false =>
    rw [List.filter_cons_of_neg (by rw [hok]; exact Bool.false_ne_true), List.filter_nil]
    have hnone : (runCalls C.handleOne as decoder).1 = List.replicate as.length none := by
      rcases (hp.2 hok).of_types htypes with hnil | hopens
      · rw [List.map_eq_nil_iff.1 hnil]
        rfl
      · rw [run_opens hopens]
    rw [hnone, List.filterMap_replicate_of_none rfl]
    exact .nil
  | true =>
    obtain ⟨hreport, hwhole, chunks, hcarries, hflatten, hcut, hlast⟩ := hp.1 hok
    have hreport' := hreport.of_types htypes
    obtain ⟨chunks', pad, hcarries', hflatten', hcut', hlast', hexact⟩ :=
      carries_of_arrives hcut hcarries hwhole has
    have hvalid : Emission.Valid (⟨as, true⟩ : Emission K I) := hreport'
    rw [run_emission hvalid, List.filter_cons_of_pos hok, List.filter_nil]
    have hne : as ≠ [] := by
      rintro rfl
      rcases hreport' with ⟨m, hm, -⟩ | ⟨init, m, hm, -⟩
      · cases hm
      · simp at hm
    obtain ⟨a, ha⟩ := List.getLast?_isSome.2 hne |> Option.isSome_iff_exists.1
    have hcallback : ((⟨as, true⟩ : Emission K I).outcomes C).filterMap id =
        [⟨a.identifier, (⟨as, true⟩ : Emission K I).decoder C⟩] := by
      simp [Emission.outcomes, ha, List.filterMap_append, List.filterMap_replicate_of_none]
    rw [hcallback]
    refine .cons ⟨chunks', _, _, pad, ⟨hcut', by omega⟩, hreport'.framed hcarries', ?_, rfl, ?_, hexact⟩ .nil
    · cases as with
      | nil => exact absurd rfl hne
      | cons b as => exact hstale b List.mem_cons_self
    · rw [hflatten', hflatten]

/-- The messages of publications arrive one after the other. -/
theorem run_sendings (hps : ∀ p ∈ ps, p.Valid E C item)
    (has : List.Forall₂ (Arrives C exact) (ps.flatMap (·.messages)) (as.map (·.message)))
    (hstale : ∀ a ∈ as, a.stale.length = 2 * C.size) (decoder : Option StreamingDecodeState) :
    List.Forall₂ (fun p cb => Delivered C exact (E.reportType.toList ++ p.report.calls.flatMap item) cb.decoder)
      (ps.filter (·.ok)) ((runCalls C.handleOne as decoder).1.filterMap id) := by
  induction ps generalizing as decoder with
  | nil =>
    have hnil : as.map (·.message) = [] := List.forall₂_nil_left_iff.1 has
    rw [List.map_eq_nil_iff.1 hnil]
    exact .nil
  | cons p ps ih =>
    -- the messages of the first publication, and those of the others
    have hfirst := List.forall₂_take p.messages.length has
    have hrest := List.forall₂_drop p.messages.length has
    rw [List.flatMap_cons, List.take_left, ← List.map_take] at hfirst
    rw [List.flatMap_cons, List.drop_left, ← List.map_drop] at hrest
    have hone := run_sending (hps p List.mem_cons_self) hfirst (fun a ha => hstale a (List.mem_of_mem_take ha)) decoder
    have hothers := ih (fun q hq => hps q (List.mem_cons_of_mem p hq)) hrest
      (fun a ha => hstale a (List.mem_of_mem_drop ha)) (runCalls C.handleOne (as.take p.messages.length) decoder).2
    rw [← List.take_append_drop p.messages.length as, runCalls_append, List.filterMap_append,
      ← List.singleton_append, List.filter_append]
    exact List.rel_append hone hothers

/-- The reports of the publications that succeed. -/
def succeeded (reports : List ReportItems) (results : List Bool) : List ReportItems :=
  ((reports.zip results).filter (·.2)).map (·.1)

theorem succeeded_sendings (ps : List Sending) :
    succeeded (ps.map (·.report)) (ps.map (·.ok)) = (ps.filter (·.ok)).map (·.report) := by
  rw [succeeded, List.zip_map', List.filter_map, List.map_map]
  rfl

/-- The callbacks of a sender. -/
def callbacksOf [DecidableEq K] (C : StreamingDecoder) (arrivals : List (Arrival K I))
    (decoders : K → Option StreamingDecodeState) (k : K) : List (Callback I) :=
  (resultsOf Arrival.key k arrivals (runCalls C.listen arrivals decoders).1).filterMap id

/-- **In any interleaving of what several senders hand over, the callback of the subscriber is called for each sender
once for each of its publications that succeed, in their order, with a decoder that has received the report.** A
publication that fails is given up by the sender, and what it left is dropped by the subscriber. -/
theorem callbacks_of_publish [DecidableEq K] {Z : ZcborStreamEncode} {renew : ω → ω} {log : ω → List Message}
    (hE : E.Sends C renew log) (hsize : E.dataSize = C.dataSize) (htype : E.reportType.isSome)
    (hZ : Z.AppendsItems item) {reports : List ReportItems}
    (hcalls : ∀ r ∈ reports, ∀ o ∈ r.calls, (item o).length ≤ E.dataSize) {out : ω}
    {arrivals : List (Arrival K I)} (hstale : ∀ a ∈ arrivals, a.stale.length = 2 * C.size)
    (decoders : K → Option StreamingDecodeState) (k : K)
    (harrive : ∃ sent, log (runCalls (fun report o => E.publish Z report (renew o)) reports out).2 =
        log out ++ sent ∧
      List.Forall₂ (Arrives C exact) sent ((arrivals.filter fun a => a.key = k).map (·.message))) :
    List.Forall₂ (fun r cb => Delivered C exact (E.reportType.toList ++ r.calls.flatMap item) cb.decoder)
      (succeeded reports
        (runCalls (fun report o => E.publish Z report (renew o)) reports out).1)
      (callbacksOf C arrivals decoders k) := by
  obtain ⟨ps, hreports, hresults, hlog, hps⟩ := publishAll_sendings hE hsize htype hZ hcalls out
  obtain ⟨sent, hsent, hmessages⟩ := harrive
  obtain rfl : sent = ps.flatMap (·.messages) := List.append_cancel_left (hsent.symm.trans hlog)
  have hrun := run_sendings hps hmessages (fun a ha => hstale a (List.mem_of_mem_filter ha)) (decoders k)
  rw [callbacksOf, listen, (runCalls_keyed arrivals decoders k).1, ← hresults, ← hreports, succeeded_sendings]
  exact List.forall₂_map_left_iff.2 hrun

/-! ## What is decoded -/

variable {chunks : List Bytes} {items payload : Bytes} {s : StreamingDecodeState} {type : UInt8}

/-- The length of a report. -/
theorem Report.length_eq (h : C.Report chunks) : ∃ k, chunks.length = k + 1 ∧ lastLength chunks ≤ C.dataSize ∧
    chunks.flatten.length = k * C.dataSize + lastLength chunks := by
  obtain ⟨hcut, hlast⟩ := h
  induction chunks with
  | nil => exact absurd hlast (lt_irrefl 0)
  | cons c chunks ih =>
    cases chunks with
    | nil => exact ⟨0, rfl, hcut.length_le List.mem_cons_self, by simp [lastLength]⟩
    | cons d chunks =>
      rw [lastLength_cons (List.cons_ne_nil d chunks)] at hlast ⊢
      obtain ⟨k, hk, hle, hlength⟩ := ih hcut.tail hlast
      refine ⟨k + 1, by rw [List.length_cons, hk], hle, ?_⟩
      rw [List.flatten_cons, List.length_append, hlength, hcut.length_head (List.cons_ne_nil d chunks), Nat.succ_mul]
      omega

/-- Whether nothing is lost of a report depends on its length. -/
theorem Report.good_iff (h : C.Report chunks) (hlength : chunks.flatten.length = items.length + 1) :
    (chunks.length ≤ 2 ∨ 2 * C.headerSize < lastLength chunks) ↔
      items.length < 2 * C.dataSize ∨ 2 * C.headerSize ≤ items.length % C.dataSize := by
  obtain ⟨k, hk, hle, htotal⟩ := h.length_eq
  have hlast := h.last
  have hitems : items.length = k * C.dataSize + (lastLength chunks - 1) := by omega
  have hmod : items.length % C.dataSize = lastLength chunks - 1 := by
    rw [hitems, Nat.mul_comm, Nat.mul_add_mod, Nat.mod_eq_of_lt (by omega)]
  have htwo : chunks.length ≤ 2 ↔ items.length < 2 * C.dataSize := by
    constructor
    · intro hlen
      have hk1 : k * C.dataSize ≤ 1 * C.dataSize := Nat.mul_le_mul_right _ (by omega)
      omega
    · intro hlt
      by_contra hlen
      have hk2 : 2 * C.dataSize ≤ k * C.dataSize := Nat.mul_le_mul_right _ (by omega)
      omega
  rw [htwo, hmod]
  omega

/-- Items do not depend on what is behind them. -/
theorem itemsOf_append {ns : List ℕ} {bs rest : Bytes} (h : ns.sum ≤ bs.length) :
    itemsOf ns (bs ++ rest) = itemsOf ns bs := by
  induction ns generalizing bs with
  | nil => rfl
  | cons n ns ih =>
    rw [List.sum_cons] at h
    have hdrop : ns.sum ≤ (bs.drop n).length := by
      rw [List.length_drop]
      omega
    rw [itemsOf, itemsOf, List.take_append_of_le_length (by omega), List.drop_append_of_le_length (by omega), ih hdrop]

/-- Decode calls for items of these sizes consume the report. -/
def DecodesAll (C : StreamingDecoder) (items : Bytes) (s : StreamingDecodeState) : Prop :=
  ∀ ns : List ℕ, (∀ n ∈ ns, n ≤ C.dataSize) → ns.sum ≤ items.length → (runCalls C.decode ns s).1 = itemsOf ns items

/-- Behind the type of the report, decode calls consume it when the class has no header, padded or not. -/
theorem Delivered.decodes (h : Delivered C exact (type :: items) s) (hheader : C.headerSize = 0) :
    C.DecodesAll items s := by
  obtain ⟨chunks, ms, stale, pad, hreport, hframed, hstale, rfl, hflatten, -⟩ := h
  intro ns hns hsum
  have hgood : chunks.length ≤ 2 ∨ 2 * C.headerSize < lastLength chunks := .inr (by rw [hheader]; exact hreport.last)
  rw [(decode_iff hreport hframed hstale).2 hgood ns hns ?_, hflatten, List.cons_append, List.drop_one, List.tail_cons,
    itemsOf_append hsum]
  rw [hflatten, List.length_append, List.length_cons]
  omega

/-- What is not padded is consumed exactly when nothing is lost. -/
theorem Delivered.decodes_iff (h : Delivered C exact (type :: items) s) (hexact : exact) :
    C.DecodesAll items s ↔ items.length < 2 * C.dataSize ∨ 2 * C.headerSize ≤ items.length % C.dataSize := by
  obtain ⟨chunks, ms, stale, pad, hreport, hframed, hstale, rfl, hflatten, hpad⟩ := h
  obtain rfl := hpad hexact
  rw [List.append_nil] at hflatten
  have hlength : chunks.flatten.length = items.length + 1 := by rw [hflatten, List.length_cons]
  rw [← hreport.good_iff hlength, ← decode_iff hreport hframed hstale, hflatten, List.drop_one, List.tail_cons,
    List.length_cons]
  simp only [DecodesAll, Nat.lt_succ_iff]

end StreamingDecoder

/-! ## UDP and CAN -/

/-- A datagram as it is received. -/
def UdpArrives (datagram : Bytes) (m : Message) : Prop :=
  ∃ rest, m = ⟨messageTypeOf (datagram.headD 0), datagram ++ rest, datagram.length⟩

/-- A frame for CAN as it is received. -/
def CanArrives (size : ℕ) (frame : BitVec 32 × Bytes) (m : Message) : Prop :=
  ∃ pad rest, m = ⟨(canHeader frame.1).type, frame.2 ++ (pad ++ rest), frame.2.length + pad.length⟩ ∧
    m.length ≤ size

theorem arrives_of_udpArrives {sent : List Bytes} {ms : List Message} (h : List.Forall₂ UdpArrives sent ms) :
    List.Forall₂ (Arrives udpDecoder True)
      (sent.map fun datagram => udpMessage datagram datagram.length) ms := by
  refine List.forall₂_map_left_iff.2 (h.imp fun datagram m hm => ?_)
  obtain ⟨rest, rfl⟩ := hm
  exact ⟨rfl, ⟨[], rest, rfl, rfl⟩, fun hnot => absurd trivial hnot, fun _ => rfl⟩

theorem arrives_of_canArrives {size : ℕ} (size_pos : 0 < size) (size_lt : 2 * size < 2 ^ 63)
    {sent : List (BitVec 32 × Bytes)} {ms : List Message} (h : List.Forall₂ (CanArrives size) sent ms) :
    List.Forall₂ (Arrives (canDecoder size size_pos size_lt) False)
      (sent.map fun frame => ⟨(canHeader frame.1).type, frame.2, frame.2.length⟩) ms := by
  refine List.forall₂_map_left_iff.2 (h.imp fun frame m hm => ?_)
  obtain ⟨pad, rest, rfl, hle⟩ := hm
  exact ⟨rfl, ⟨pad, rest, rfl, rfl⟩, fun _ => hle, fun hfalse => hfalse.elim⟩

theorem udp_sends {τ : Type} (enhanced : Bool) (send : Bytes → τ → Bool × τ) :
    (streamingUdpEncoder enhanced (loggedIfSent send)).Sends udpDecoder (fun o => { o with sequenceNumber := 0 })
      (fun o => o.socket.1.map fun datagram => udpMessage datagram datagram.length) where
  renew _ := rfl
  sent payload flushing e o o' h := by
    obtain ⟨hok, rfl⟩ := Prod.mk.inj ((udp_write enhanced (loggedIfSent send) payload flushing e o).symm.trans h)
    refine ⟨udpMessage (((MessageType.ofWrite flushing e).code ||| (o.sequenceNumber &&& 0x0F)) :: o.messageNumber ::
      payload) (payload.length + 2), ?_, ⟨Nat.add_comm _ _, ?_⟩, rfl, ?_⟩
    · have hsent : (send _ o.socket.2).1 = true := hok
      simp [loggedIfSent, hsent]
    · simp [udpMessage, udpDecoder]
    · exact (header_byte _ _).1
  failed payload flushing e o o' h := by
    obtain ⟨hok, rfl⟩ := Prod.mk.inj ((udp_write enhanced (loggedIfSent send) payload flushing e o).symm.trans h)
    have hsent : (send _ o.socket.2).1 = false := hok
    simp [loggedIfSent, hsent]

theorem can_sends {τ : Type} (size : ℕ) (size_pos : 0 < size) (size_lt : 2 * size < 2 ^ 63) (enhanced flagInId : Bool)
    (nodeAddress : List (BitVec 32 × Bytes) × τ → UInt8) (send : BitVec 32 × Bytes → τ → Bool × τ) :
    (streamingCanEncoder size size_pos enhanced
      (CanTransport.publish nodeAddress (doPublish size flagInId (loggedIfSent send)))).Sends
        (canDecoder size size_pos size_lt) (fun o => (0, o.2))
        (fun o => o.2.bus.1.map fun frame => ⟨(canHeader frame.1).type, frame.2, frame.2.length⟩) where
  renew _ := rfl
  sent payload flushing e o o' h := by
    simp only [streamingCanEncoder, CanTransport.publish, doPublish] at h
    split at h
    · cases (Prod.mk.inj h).1
    · obtain ⟨hok, rfl⟩ := Prod.mk.inj h
      refine ⟨⟨some (MessageType.ofWrite flushing e), payload, payload.length⟩, ?_, ⟨?_, ?_⟩, rfl, rfl⟩
      · simp only [loggedIfSent] at hok ⊢
        simp [hok, canHeader_wire]
      · simp [canDecoder]
      · simp [canDecoder]
  failed payload flushing e o o' h := by
    simp only [streamingCanEncoder, CanTransport.publish, doPublish] at h
    split at h
    · obtain ⟨-, rfl⟩ := Prod.mk.inj h
      rfl
    · obtain ⟨hok, rfl⟩ := Prod.mk.inj h
      simp only [loggedIfSent] at hok ⊢
      simp [hok]

/-- **Whatever sends fail, and however the messages of a sender interleave with those of others, a subscriber is called
back for the sender once for each of its publications that succeed, in their order. Over CAN decode calls then consume
exactly the items of the report, also when frames are padded; over UDP they do exactly when these have fewer than 1020
bytes or leave at least four for the last datagram.** -/
theorem delivered_of_publish {K I : Type} [DecidableEq K] {Z : ZcborStreamEncode} {item : EncodeOp → Bytes}
    (hZ : Z.AppendsItems item) (enhanced : Bool) (reports : List ReportItems) (arrivals : List (Arrival K I))
    (decoders : K → Option StreamingDecodeState) (k : K) :
    (∀ (τ : Type) (send : Bytes → τ → Bool × τ) (out : UdpOut (List Bytes × τ)),
      let run := runCalls (fun report o => (streamingUdpEncoder enhanced (loggedIfSent send)).publish Z report
        { o with sequenceNumber := 0 }) reports out
      (∀ r ∈ reports, ∀ o ∈ r.calls, (item o).length ≤ 510) → (∀ a ∈ arrivals, a.stale.length = 1024) →
      (∃ sent, run.2.socket.1 = out.socket.1 ++ sent ∧
        List.Forall₂ UdpArrives sent ((arrivals.filter fun a => a.key = k).map (·.message))) →
      List.Forall₂ (fun r cb => udpDecoder.DecodesAll (r.calls.flatMap item) cb.decoder ↔
          (r.calls.flatMap item).length < 1020 ∨ 4 ≤ (r.calls.flatMap item).length % 510)
        (StreamingDecoder.succeeded reports run.1) (udpDecoder.callbacksOf arrivals decoders k)) ∧
    ∀ (τ : Type) (size : ℕ) (size_pos : 0 < size) (size_lt : 2 * size < 2 ^ 63) (flagInId : Bool)
      (nodeAddress : List (BitVec 32 × Bytes) × τ → UInt8) (send : BitVec 32 × Bytes → τ → Bool × τ)
      (out : UInt8 × CanTransport (List (BitVec 32 × Bytes) × τ)),
      let run := runCalls (fun report o => (streamingCanEncoder size size_pos enhanced
        (CanTransport.publish nodeAddress (doPublish size flagInId (loggedIfSent send)))).publish Z report
          (0, o.2)) reports out
      (∀ r ∈ reports, ∀ o ∈ r.calls, (item o).length ≤ size) → (∀ a ∈ arrivals, a.stale.length = 2 * size) →
      (∃ sent, run.2.2.bus.1 = out.2.bus.1 ++ sent ∧
        List.Forall₂ (CanArrives size) sent ((arrivals.filter fun a => a.key = k).map (·.message))) →
      List.Forall₂ (fun r cb => (canDecoder size size_pos size_lt).DecodesAll (r.calls.flatMap item) cb.decoder)
        (StreamingDecoder.succeeded reports run.1) ((canDecoder size size_pos size_lt).callbacksOf arrivals decoders k) := by
  constructor
  · rintro τ send out run hcalls hstale ⟨sent, hsent, harrive⟩
    have hlog := congrArg (List.map fun datagram => udpMessage datagram datagram.length) hsent
    rw [List.map_append] at hlog
    have h := StreamingDecoder.callbacks_of_publish (udp_sends enhanced send) rfl rfl hZ hcalls hstale decoders k
      ⟨_, hlog, arrives_of_udpArrives harrive⟩
    exact h.imp fun r cb hcb => hcb.decodes_iff trivial
  · rintro τ size size_pos size_lt flagInId nodeAddress send out run hcalls hstale ⟨sent, hsent, harrive⟩
    have hlog := congrArg (List.map fun frame : BitVec 32 × Bytes =>
      (⟨(canHeader frame.1).type, frame.2, frame.2.length⟩ : Message)) hsent
    rw [List.map_append] at hlog
    have h := StreamingDecoder.callbacks_of_publish
      (can_sends size size_pos size_lt enhanced flagInId nodeAddress send) rfl rfl hZ hcalls hstale decoders k
      ⟨_, hlog, arrives_of_canArrives size_pos size_lt harrive⟩
    exact h.imp fun r cb hcb => hcb.decodes rfl

/-- A report of ten bytes is published twice, and then one of three. -/
def threeReports : List ReportItems :=
  List.replicate 2 ⟨2, [.uint .w32 0, .bytes [0, 1, 2, 3, 4, 5, 6]]⟩ ++ [⟨2, [.uint .w32 0, .null]⟩]

/-- The fourth frame is not sent. -/
def fourthFails (_ : BitVec 32 × Bytes) (n : ℕ) : Bool × ℕ := (n ≠ 3, n + 1)

/-- What is sent, in frames of eight bytes. -/
def threeReportsRun : List Bool × (UInt8 × CanTransport (List (BitVec 32 × Bytes) × ℕ)) :=
  runCalls (fun report o => (streamingCanEncoder 8 eight_pos false (CanTransport.publish (fun _ => 0x11)
    (doPublish 8 true (loggedIfSent fourthFails)))).publish zcborStreamReference report (0, o.2)) threeReports
      (0, ⟨4, ([], 0)⟩)

/-- A frame of sender `true` or `false`. -/
def frameArrival (key : Bool) (type : MessageType) (data : Bytes) (length : ℕ) : Arrival Bool Unit where
  key := key
  identifier := ()
  message := ⟨some type, data, length⟩
  stale := List.replicate 16 0

/-- The frames of the sender, one of them padded, among frames of another one. -/
def threeReportsArrivals : List (Arrival Bool Unit) :=
  [frameArrival true .first [0x1F, 0, 0x47, 0, 1, 2, 3, 4] 8, frameArrival false .single [0x1F, 0, 0xF6] 3,
    frameArrival true .last [5, 6, 0, 0xAA] 3, frameArrival false .consecutive [1, 2, 3] 3,
    frameArrival true .first [0x1F, 0, 0x47, 0, 1, 2, 3, 4] 8, frameArrival true .single [0x1F, 0, 0xF6, 0xAA] 3]

/-- The second publication fails after its first frame; the other two are decoded. -/
theorem threeReports_delivered : threeReportsRun.1 = [true, false, true] ∧
    List.Forall₂ (fun r cb => canDecoderEight.DecodesAll (r.calls.flatMap itemReference) cb.decoder)
      (StreamingDecoder.succeeded threeReports [true, false, true])
      (canDecoderEight.callbacksOf threeReportsArrivals (fun _ => none) true) := by
  have hresults : threeReportsRun.1 = [true, false, true] := by decide +kernel
  have hsent : threeReportsRun.2.2.bus.1 = [] ++ [(2634022929#32, [0x1F, 0, 0x47, 0, 1, 2, 3, 4]),
      (2634031377#32, [5, 6]), (2634039313#32, [0x1F, 0, 0x47, 0, 1, 2, 3, 4]),
      (2634067985#32, [0x1F, 0, 0xF6])] := by decide +kernel
  refine ⟨hresults, ?_⟩
  rw [← hresults]
  refine (delivered_of_publish zcborStreamReference_appendsItems false threeReports threeReportsArrivals
    (fun _ => none) true).2 ℕ 8 eight_pos twice_eight_lt true (fun _ => 0x11) fourthFails (0, ⟨4, ([], 0)⟩)
      (by decide +kernel) (by decide +kernel) ⟨_, hsent, ?_⟩
  refine .cons ⟨[], [], ?_, ?_⟩ (.cons ⟨[0], [0xAA], ?_, ?_⟩ (.cons ⟨[], [], ?_, ?_⟩ (.cons ⟨[], [0xAA], ?_, ?_⟩ .nil)))
  all_goals first | rfl | decide

end ThingSet
