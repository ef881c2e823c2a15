import ThingSet.Persistence.Save

/-!
# The items of a stream

A program that encodes makes calls; when none of them fails it is known what they return, and so which they are.
If every item fits into a chunk and the containers nest within the states of zcbor, an encoder whose chunks are all
accepted does not fail.

* `nesting`: how deep the containers are after some calls.
* `Carried`: what a program encodes can be carried by a streaming encoder.
* `run_of_carried`: it is, and the chunks are what the program encodes.
-/

namespace ThingSet

open Interaction Prog

/-- What the virtual functions of a streaming encoder return when none of them fails. -/
def binaryAnswer : (o : EncodeOp) → o.Result
  | .renderedListLength size => size
  | .renderGroupAsOutline => false
  | .string _ | .float _ | .double _ | .bool _ | .uint _ _ | .int _ _ | .null | .preamble | .listStart _
  | .listEnd _ | .mapStart _ | .mapEnd _ | .bytes _ | .listSeparator | .keyValuePairSeparator | .encodeKeysAsIds
  | .truncationMarker => true

/-- The bytes of what a program encodes. -/
def bytesOf (p : Encoding Bool) : Bytes := (trace binaryAnswer p).2.flatMap itemReference

/-! ## Nesting -/

/-- How many containers are open after a call, of at most `depth`. -/
def nestedAfter (depth : ℕ) : EncodeOp → ℕ → Option ℕ
  | .listStart _, d | .mapStart _, d => if d < depth then some (d + 1) else none
  | .listEnd _, d | .mapEnd _, d => if 0 < d then some (d - 1) else none
  | _, d => some d

/-- How many containers are open after some calls. -/
def nesting (depth : ℕ) : List EncodeOp → ℕ → Option ℕ
  | [], d => some d
  | o :: os, d => (nestedAfter depth o d).bind (nesting depth os)

theorem nesting_append (depth : ℕ) (os os' : List EncodeOp) (d : ℕ) :
    nesting depth (os ++ os') d = (nesting depth os d).bind (nesting depth os') := by
  induction os generalizing d with
  | nil => rfl
  | cons o os ih =>
    rw [List.cons_append, nesting, nesting, Option.bind_assoc]
    congr 1
    funext d'
    exact ih d'

/-- The containers that a streaming encoder can have open: two of the states of zcbor are no backups. -/
def streamDepth : ℕ := 6

/-- In a buffer with room an item is encoded, and a container is started or ended where containers can be. -/
def ZcborStreamEncode.AcceptsItems (Z : ZcborStreamEncode) : Prop :=
  ∀ o f z d, Z.call o = some f → (itemReference o).length ≤ z.room →
    nestedAfter (z.depth - 2) o z.backups.length = some d →
      (f z).1 = true ∧ (f z).2.backups.length = d ∧ (f z).2.depth = z.depth ∧ (f z).2.capacity = z.capacity

namespace StreamingEncoder

variable {ω : Type} {C : StreamingEncoder ω} {Z : ZcborStreamEncode} {s : StreamingEncodeState ω} {total : Bytes}
  {os : List EncodeOp} {o : EncodeOp}

/-- `write` returns true for every chunk, that is, for what fits behind the header of a message. -/
def AcceptsChunks (C : StreamingEncoder ω) : Prop := ∀ payload flushing exportedLength out,
  payload.length ≤ C.dataSize → (C.write payload flushing exportedLength out).1 = true

theorem Accepts.chunks (hC : C.Accepts) : C.AcceptsChunks := fun payload flushing exportedLength out _ =>
  hC payload flushing exportedLength out

/-! ## The calls to come -/

/-- The calls `os` are to come, every one can be carried, and after them `total` is encoded. -/
structure Upcoming (C : StreamingEncoder ω) (total : Bytes) (os : List EncodeOp) (s : StreamingEncodeState ω) :
    Prop where
  encoded : ∃ bs, C.Encoded bs s ∧ bs ++ os.flatMap itemReference = total
  capacity : 2 * C.size - C.headerSize ≤ s.zcbor.capacity
  depth : s.zcbor.depth = streamDepth + 2
  items : ∀ o ∈ os, (itemReference o).length ≤ C.dataSize
  nests : ∃ d, nesting streamDepth os s.zcbor.backups.length = some d

/-- A chunk that is written leaves the containers as they are, and the buffer as long. -/
theorem writeIfNecessary_of_upcoming (hC : C.AcceptsChunks) (h : 2 * C.size - C.headerSize ≤ s.zcbor.capacity) :
    ∃ s₁, C.writeIfNecessary s = (true, s₁) ∧ s₁.zcbor.depth = s.zcbor.depth ∧
      s₁.zcbor.backups = s.zcbor.backups ∧ 2 * C.size - C.headerSize ≤ s₁.zcbor.capacity := by
  have hwrite := hC (s.zcbor.output.take C.dataSize) false s.exportedLength s.out (List.length_take_le _ _)
  unfold writeIfNecessary
  dsimp only
  split
  · rw [hwrite]
    refine ⟨_, rfl, rfl, rfl, ?_⟩
    dsimp only [ZcborEncodeState.updateState]
    rw [List.length_drop]
    omega
  · exact ⟨s, rfl, rfl, rfl, h⟩

/-- A call that makes no call of zcbor starts and ends nothing. -/
theorem nestedAfter_of_call_eq_none (ho : Z.call o = none) (depth d : ℕ) : nestedAfter depth o d = some d := by
  cases o <;> first | rfl | cases ho

theorem encode_of_upcoming (hC : C.AcceptsChunks) (hZ : Z.AppendsItems itemReference) (haccepts : Z.AcceptsItems)
    (h : C.Upcoming total (o :: os) s) : (C.encode Z o s).1 = true ∧ C.Upcoming total os (C.encode Z o s).2 := by
  obtain ⟨⟨bs, hencoded, htotal⟩, hcapacity, hdepth, hitems, d', hnests⟩ := h
  have hfits := hitems o List.mem_cons_self
  obtain ⟨d, hafter, hnests⟩ := Option.bind_eq_some_iff.1 hnests
  suffices hs : ∃ s', C.encode Z o s = (true, s') ∧ s'.zcbor.backups.length = d ∧
      s'.zcbor.depth = s.zcbor.depth ∧ 2 * C.size - C.headerSize ≤ s'.zcbor.capacity by
    obtain ⟨s', hs', hd, hdepth', hcapacity'⟩ := hs
    rw [hs']
    refine ⟨rfl, ⟨bs ++ itemReference o, encoded_encode hZ hencoded hfits hs', ?_⟩, hcapacity', ?_, ?_, d', ?_⟩
    · rwa [List.flatMap_cons, ← List.append_assoc] at htotal
    · rw [hdepth', hdepth]
    · exact fun o' ho' => hitems o' (List.mem_cons_of_mem o ho')
    · rwa [hd]
  unfold encode
  cases hcall : Z.call o with
  | none =>
    refine ⟨s, rfl, ?_, rfl, hcapacity⟩
    rw [nestedAfter_of_call_eq_none hcall] at hafter
    exact Option.some.inj hafter
  | some f =>
    obtain ⟨s₁, hwrite, hdepth₁, hbackups₁, hcapacity₁⟩ := writeIfNecessary_of_upcoming hC hcapacity
    have hlen := (encoded_writeIfNecessary hencoded hwrite).2
    have hroom : (itemReference o).length ≤ s₁.zcbor.room := by
      have hlt := C.headerSize_lt
      unfold dataSize at hfits hlen
      unfold ZcborEncodeState.room
      omega
    have hafter₁ : nestedAfter (s₁.zcbor.depth - 2) o s₁.zcbor.backups.length = some d := by
      rw [hdepth₁, hdepth, hbackups₁]
      exact hafter
    obtain ⟨hok, hd, hdepth', hcapacity'⟩ := haccepts o f s₁.zcbor d hcall hroom hafter₁
    dsimp only
    rw [hwrite, if_pos rfl]
    exact ⟨_, by rw [hok], hd, hdepth'.trans hdepth₁, hcapacity₁.trans_eq hcapacity'.symm⟩

/-- The virtual functions return what is expected of them. -/
theorem toEncoder_of_upcoming (hC : C.AcceptsChunks) (hZ : Z.AppendsItems itemReference) (haccepts : Z.AcceptsItems)
    (o : EncodeOp) (os : List EncodeOp) (s : StreamingEncodeState ω) (h : C.Upcoming total (o :: os) s) :
    (C.toEncoder Z o s).1 = binaryAnswer o ∧ C.Upcoming total os (C.toEncoder Z o s).2 := by
  obtain ⟨hok, hnext⟩ := encode_of_upcoming hC hZ haccepts h
  rw [toEncoder_snd]
  refine ⟨?_, hnext⟩
  cases o <;> first | exact hok | rfl

/-- What is left at the end is flushed. -/
theorem flush_of_upcoming (hC : C.AcceptsChunks) (h : C.Upcoming total [] s) :
    (C.flush s).1 = true ∧ (C.flush s).2.chunks.flatten = total := by
  obtain ⟨⟨bs, hencoded, htotal⟩, hcapacity, -, -, -⟩ := h
  have hlast : ∀ s', s'.zcbor.output.length ≤ C.dataSize → (C.writeLast s').1 = true := fun s' hlen => hC _ _ _ _ hlen
  have hok : (C.flush s).1 = true := by
    unfold flush
    obtain ⟨s₁, hwrite, -, -, -⟩ := writeIfNecessary_of_upcoming hC hcapacity
    rw [hwrite]
    split
    · exact hlast s₁ (encoded_writeIfNecessary hencoded hwrite).2
    · rename_i hlen
      exact hlast s (Nat.not_lt.1 hlen)
  refine ⟨hok, ?_⟩
  rw [(chunks_flush hencoded (Prod.ext hok rfl)).1, ← htotal, List.flatMap_nil, List.append_nil]

end StreamingEncoder

/-! ## Programs -/

/-- What `p` encodes can be carried in chunks of `size` bytes, from `d` open containers to `d'`. -/
structure Carried (size d d' : ℕ) (p : Encoding Bool) : Prop where
  ok : (trace binaryAnswer p).1 = true
  items : ∀ o ∈ (trace binaryAnswer p).2, (itemReference o).length ≤ size
  nests : nesting streamDepth (trace binaryAnswer p).2 d = some d'

section Carried

variable {size d d' d'' : ℕ} {p : Encoding Bool} {ps qs : List (Encoding Bool)}

/-- A single call. -/
theorem carried_call {o : EncodeOp} (htrace : trace binaryAnswer p = (true, [o]))
    (hitem : (itemReference o).length ≤ size) (hnests : nestedAfter streamDepth o d = some d') :
    Carried size d d' p := by
  refine ⟨congrArg Prod.fst htrace, ?_, ?_⟩
  · rw [htrace]
    intro o' ho'
    rwa [List.mem_singleton.1 ho']
  · rw [htrace, nesting, hnests]
    rfl

theorem trace_encodeAll_cons (hok : (trace binaryAnswer p).1 = true) :
    trace binaryAnswer (encodeAll (p :: ps)) =
      ((trace binaryAnswer (encodeAll ps)).1, (trace binaryAnswer p).2 ++ (trace binaryAnswer (encodeAll ps)).2) := by
  rw [encodeAll, trace_bind, hok, if_pos rfl]

theorem Carried.cons (hp : Carried size d d' p) (hps : Carried size d' d'' (encodeAll ps)) :
    Carried size d d'' (encodeAll (p :: ps)) := by
  have htrace : trace binaryAnswer (encodeAll (p :: ps)) = _ := trace_encodeAll_cons hp.ok
  refine ⟨by rw [htrace]; exact hps.ok, ?_, ?_⟩
  · rw [htrace]
    intro o ho
    exact (List.mem_append.1 ho).elim (hp.items o) (hps.items o)
  · rw [htrace, nesting_append, hp.nests]
    exact hps.nests

theorem carried_encodeAll_append (hps : ∀ p ∈ ps, Carried size d d p) (hqs : Carried size d d' (encodeAll qs)) :
    Carried size d d' (encodeAll (ps ++ qs)) := by
  induction ps with
  | nil => exact hqs
  | cons p ps ih =>
    exact (hps p List.mem_cons_self).cons (ih fun q hq => hps q (List.mem_cons_of_mem p hq))

theorem carried_nil : Carried size d d (encodeAll []) := ⟨rfl, fun _ ho => absurd ho List.not_mem_nil, rfl⟩

theorem bytesOf_call {o : EncodeOp} (htrace : trace binaryAnswer p = (true, [o])) : bytesOf p = itemReference o := by
  rw [bytesOf, htrace, List.flatMap_singleton]

theorem bytesOf_encodeAll_cons (hp : (trace binaryAnswer p).1 = true) :
    bytesOf (encodeAll (p :: ps)) = bytesOf p ++ bytesOf (encodeAll ps) := by
  unfold bytesOf
  rw [trace_encodeAll_cons hp, List.flatMap_append]

theorem bytesOf_encodeAll_append (hps : ∀ p ∈ ps, (trace binaryAnswer p).1 = true) :
    bytesOf (encodeAll (ps ++ qs)) = ps.flatMap bytesOf ++ bytesOf (encodeAll qs) := by
  induction ps with
  | nil => rfl
  | cons p ps ih =>
    rw [List.cons_append, bytesOf_encodeAll_cons (hps p List.mem_cons_self), List.flatMap_cons, List.append_assoc,
      ih fun q hq => hps q (List.mem_cons_of_mem p hq)]

end Carried

namespace StreamingEncoder

variable {ω : Type} {C : StreamingEncoder ω} {Z : ZcborStreamEncode} {p : Encoding Bool} {d : ℕ}

/-- **What can be carried is encoded, and after a flush the chunks are what the program encodes.** -/
theorem run_of_carried (hC : C.Accepts) (hZ : Z.AppendsItems itemReference) (haccepts : Z.AcceptsItems)
    (hp : Carried C.dataSize 0 d p) (elementCount : ℕ) (out : ω) :
    let r := run (C.toEncoder Z) p (C.new elementCount out)
    r.1 = true ∧ (C.flush r.2).1 = true ∧
      (C.flush r.2).2.chunks.flatten = C.reportType.toList ++ bytesOf p := by
  have hnew : C.Upcoming (C.reportType.toList ++ bytesOf p) ((trace binaryAnswer p).2 ++ [])
      (C.new elementCount out) := by
    rw [List.append_nil]
    exact ⟨⟨_, encoded_new elementCount out, rfl⟩, le_rfl, rfl, hp.items, d, hp.nests⟩
  obtain ⟨hok, hend⟩ := run_of_trace (toEncoder_of_upcoming hC.chunks hZ haccepts) p [] hnew
  exact ⟨hok.trans hp.ok, flush_of_upcoming hC.chunks hend⟩

end StreamingEncoder

/-! ## The reference functions -/

namespace ZcborEncodeReference

variable {z : ZcborEncodeState} {bs : Bytes} {major max d : ℕ}

theorem put_accepts (hroom : bs.length ≤ z.room) (hd : z.backups.length = d) :
    (put bs z).1 = true ∧ (put bs z).2.backups.length = d ∧ (put bs z).2.depth = z.depth ∧
      (put bs z).2.capacity = z.capacity := by
  rw [put, if_pos hroom]
  exact ⟨rfl, hd, rfl, rfl⟩

theorem start_accepts (hroom : (Cbor.writeHead major max).length ≤ z.room)
    (hd : (if z.backups.length < z.depth - 2 then some (z.backups.length + 1) else none) = some d) :
    (start major max z).1 = true ∧ (start major max z).2.backups.length = d ∧
      (start major max z).2.depth = z.depth ∧ (start major max z).2.capacity = z.capacity := by
  split at hd
  · rw [start, if_pos ⟨by omega, hroom⟩]
    exact ⟨rfl, Option.some.inj hd, rfl, rfl⟩
  · cases hd

theorem processBackup_accepts
    (hd : (if 0 < z.backups.length then some (z.backups.length - 1) else none) = some d) :
    (zcborStreamReference.processBackup z).1 = true ∧ (zcborStreamReference.processBackup z).2.backups.length = d ∧
      (zcborStreamReference.processBackup z).2.depth = z.depth ∧
      (zcborStreamReference.processBackup z).2.capacity = z.capacity := by
  obtain ⟨output, capacity, elemCount, _ | ⟨b, backups⟩, depth⟩ := z
  · cases hd
  · exact ⟨rfl, Option.some.inj hd, rfl, rfl⟩

end ZcborEncodeReference

open ZcborEncodeReference in
theorem zcborStreamReference_acceptsItems : zcborStreamReference.AcceptsItems := by
  intro o f z d hf hroom hd
  cases o with
  | string | float | double | bool | null | preamble | bytes =>
    obtain rfl := Option.some.inj hf
    exact put_accepts hroom (Option.some.inj hd)
  | uint w | int w =>
    obtain rfl := Option.some.inj hf
    cases w <;> exact put_accepts hroom (Option.some.inj hd)
  | listStart | mapStart =>
    obtain rfl := Option.some.inj hf
    exact start_accepts hroom hd
  | listEnd | mapEnd =>
    obtain rfl := Option.some.inj hf
    exact processBackup_accepts hd
  | _ => cases hf

end ThingSet
