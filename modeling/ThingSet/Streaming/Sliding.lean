import ThingSet.Siblings.Streaming
import ThingSet.Zcbor.Nesting

/-!
# A window that slides over a stream

A streaming decoder decodes from a window of two chunks. A plain decoder has the whole stream in memory. As long as no
call looks at more bytes than a chunk carries, the two give the same results, whatever the program: the window slides
only between calls.

* `Needs`: a call looks at some bytes at most.
* `StreamReader.Slides`: what a derived class has to keep.
* `run_streamDecoder`: the streaming decoder simulates the plain one.
-/

namespace ThingSet

open Interaction Prog Cbor

/-! ## What a call looks at -/

/-- Two states that differ at most in where they have their payload. -/
structure ZcborState.Similar (s t : ZcborState) : Prop where
  elemCount : t.elemCount = s.elemCount
  indefinite : t.indefinite = s.indefinite
  depth : t.depth = s.depth
  backups : t.backups.map (fun b => (b.elemCount, b.indefinite)) = s.backups.map fun b => (b.elemCount, b.indefinite)

/-- A call consumes at most `w` bytes and looks at no others: it gives the same wherever these bytes are. -/
def Needs {α : Type} (f : ZcborState → α × ZcborState) (w : ℕ) (s : ZcborState) : Prop :=
  ∃ n ≤ w, n ≤ s.remaining.length ∧ ∀ t, s.Similar t → s.remaining.take w <+: t.remaining →
    (f t).1 = (f s).1 ∧ t.Advances n (f t).2 ∧ (f s).2.Similar (f t).2

/-- A call that a window of chunks of `w` bytes can serve. The streaming decoder has a `skip` of its own. -/
def Servable (o : BinaryDecoderOptions) (w : ℕ) (op : DecodeOp) (s : ZcborState) : Prop :=
  op ≠ .skip ∧ (op = .isInMap ∨ op = .isInList ∨ Needs (binaryDecoder o op) w s)

section Needs

variable {α : Type} {f : ZcborState → α × ZcborState} {s s' t t' : ZcborState} {head rest bs : Bytes} {w n major : ℕ}

theorem ZcborState.Similar.refl (s : ZcborState) : s.Similar s := ⟨rfl, rfl, rfl, rfl⟩

theorem ZcborState.Similar.length_backups (h : s.Similar t) : t.backups.length = s.backups.length := by
  have := congrArg List.length h.backups
  rwa [List.length_map, List.length_map] at this

/-- What is behind the bytes that a call consumes. -/
theorem ZcborState.Advances.remaining_drop (h : s.Advances n s') : s'.remaining = s.remaining.drop n := by
  rw [ZcborState.remaining, ZcborState.remaining, h.memory, h.payloadEnd, h.payload, List.drop_drop]

/-- Bytes that a call looks at are also where they are followed by something else. -/
theorem remaining_of_prefix (hs : s.remaining = bs ++ rest) (hbs : bs.length ≤ w)
    (ht : s.remaining.take w <+: t.remaining) : ∃ rest', t.remaining = bs ++ rest' := by
  have hprefix : bs <+: s.remaining.take w := List.prefix_take_iff.2 ⟨⟨rest, hs.symm⟩, hbs⟩
  obtain ⟨rest', hrest⟩ := hprefix.trans ht
  exact ⟨rest', hrest.symm⟩

/-- A call that reads an item, wherever it is. -/
theorem needs_of_item {r : α} (hs : s.remaining = bs ++ rest) (hbs : bs.length ≤ w)
    (hitem : ∀ t rest', s.Similar t → t.remaining = bs ++ rest' → (f t).1 = r ∧ t.Reads bs.length 1 (f t).2) :
    Needs f w s := by
  obtain ⟨hr, hreads⟩ := hitem s rest (.refl s) hs
  refine ⟨bs.length, hbs, by rw [hs, List.length_append]; omega, fun t ht hprefix => ?_⟩
  obtain ⟨rest', hrest⟩ := remaining_of_prefix hs hbs hprefix
  obtain ⟨hr', hreads'⟩ := hitem t rest' ht hrest
  refine ⟨hr'.trans hr.symm, hreads'.toAdvances, ?_, ?_, ?_, ?_⟩
  · have := hreads.elemCount
    have := hreads'.elemCount
    have := ht.elemCount
    omega
  · rw [hreads'.indefinite, hreads.indefinite, ht.indefinite]
  · rw [hreads'.depth, hreads.depth, ht.depth]
  · rw [hreads'.backups, hreads.backups, ht.backups]

/-- A head that enters a container. -/
theorem needs_of_enters {f : ZcborState → Bool × ZcborState} {perEntry : ℕ} (hf : ZcborDecode.Enters f major perEntry)
    (hhead : IsHead head major n) (hne : s.elemCount ≠ 0) (hdepth : s.backups.length + 2 < s.depth)
    (hs : s.remaining = head ++ rest) (hw : head.length ≤ w) : Needs f w s := by
  obtain ⟨hok, hadvances, hcount, hindefinite, b, hbackups, hb, hbi⟩ := hf s head n rest hhead hne hdepth hs
  refine ⟨head.length, hw, by rw [hs, List.length_append]; omega, fun t ht hprefix => ?_⟩
  obtain ⟨rest', hrest⟩ := remaining_of_prefix hs hw hprefix
  obtain ⟨hok', hadvances', hcount', hindefinite', b', hbackups', hb', hbi'⟩ := hf t head n rest' hhead
    (by rwa [ht.elemCount]) (by rwa [ht.length_backups, ht.depth]) hrest
  refine ⟨hok'.trans hok.symm, hadvances', hcount'.trans hcount.symm, hindefinite'.trans hindefinite.symm, ?_, ?_⟩
  · rw [hadvances'.depth, hadvances.depth, ht.depth]
  · have hcounts : b'.elemCount = b.elemCount := by
      have := ht.elemCount
      omega
    rw [hbackups', hbackups, List.map_cons, List.map_cons, ht.backups, hcounts, hbi', hbi, ht.indefinite]

/-- The end of a container. -/
theorem needs_of_leaves {f : ZcborState → Bool × ZcborState} (hf : ZcborDecode.Leaves f) {b : ZcborBackup}
    {backups : List ZcborBackup} (hbackups : s.backups = b :: backups) (hindefinite : s.indefinite = false)
    (hcount : s.elemCount = 0) : Needs f w s := by
  obtain ⟨hok, hadvances, helem, hind, hrest⟩ := hf s b backups hbackups hindefinite hcount
  refine ⟨0, Nat.zero_le w, Nat.zero_le _, fun t ht _ => ?_⟩
  have hmap := ht.backups
  rw [hbackups, List.map_cons] at hmap
  obtain ⟨b', backups', hbackups', hb', hmap'⟩ := List.map_eq_cons_iff.1 hmap
  obtain ⟨hcounts, hinds⟩ := Prod.mk.inj hb'
  obtain ⟨hok', hadvances', helem', hind', hrest'⟩ := hf t b' backups' hbackups' (ht.indefinite.trans hindefinite)
    (ht.elemCount.trans hcount)
  refine ⟨hok'.trans hok.symm, hadvances', ?_, ?_, ?_, ?_⟩
  · rw [helem', helem, hcounts]
  · rw [hind', hind, hinds]
  · rw [hadvances'.depth, hadvances.depth, ht.depth]
  · rw [hrest', hrest, hmap']

end Needs

/-! ## The window -/

namespace StreamReader

variable {ρ : Type} {R : StreamReader ρ} {Z : ZcborDecode} {T : Bytes} {W : ℕ → StreamReadState ρ → Prop} {k : ℕ}
  {s : ZcborState} {z : StreamReadState ρ}

/-- What a derived class has to keep for the window to slide over the stream `T`: `W k` holds when the window has the
chunks `k` and `k + 1`. -/
structure Slides (R : StreamReader ρ) (T : Bytes) (W : ℕ → StreamReadState ρ → Prop) : Prop where
  holds : ∀ k z, W k z → (T.drop (k * R.dataSize)).take (2 * R.dataSize) <+: z.zcbor.memory
  payload_le : ∀ k z, W k z → z.zcbor.payload ≤ min (2 * R.dataSize) (T.length - k * R.dataSize)
  payloadEnd_ge : ∀ k z, W k z → min (2 * R.dataSize) (T.length - k * R.dataSize) ≤ z.zcbor.payloadEnd
  slide : ∀ k z, W k z → R.dataSize < z.zcbor.payload →
    W (k + 1) (R.ensureLength z) ∧ (R.ensureLength z).zcbor.payload = z.zcbor.payload - R.dataSize
  move : ∀ k z n zcbor, W k z → z.zcbor.Advances n zcbor →
    z.zcbor.payload + n ≤ min (2 * R.dataSize) (T.length - k * R.dataSize) → W k { z with zcbor := zcbor }

/-- The plain decoder has left what is left of the stream from the payload in the window on. -/
def Simulates (R : StreamReader ρ) (T : Bytes) (W : ℕ → StreamReadState ρ → Prop) (s : ZcborState)
    (z : StreamReadState ρ) : Prop :=
  s.Similar z.zcbor ∧ ∃ k, W k z ∧ s.remaining = T.drop (k * R.dataSize + z.zcbor.payload)

/-- Sliding the window changes only where the payload is. -/
theorem ensureLength_similar (R : StreamReader ρ) (z : StreamReadState ρ) : z.zcbor.Similar (R.ensureLength z).zcbor := by
  unfold ensureLength
  dsimp only
  split
  · exact ⟨rfl, rfl, rfl, rfl⟩
  · exact .refl z.zcbor

/-- After `ensureLength` the payload is in the first chunk. -/
theorem simulates_ensureLength (hW : R.Slides T W) (h : R.Simulates T W s z) :
    R.Simulates T W s (R.ensureLength z) ∧ (R.ensureLength z).zcbor.payload ≤ R.dataSize := by
  obtain ⟨hsimilar, k, hk, hremaining⟩ := h
  have hle := hW.payload_le k z hk
  by_cases hlt : R.dataSize < z.zcbor.payload
  · obtain ⟨hslide, hpayload⟩ := hW.slide k z hk hlt
    have hensure := ensureLength_similar R z
    refine ⟨⟨⟨?_, ?_, ?_, ?_⟩, k + 1, hslide, ?_⟩, by omega⟩
    · rw [hensure.elemCount, hsimilar.elemCount]
    · rw [hensure.indefinite, hsimilar.indefinite]
    · rw [hensure.depth, hsimilar.depth]
    · rw [hensure.backups, hsimilar.backups]
    · rw [hremaining, hpayload, Nat.succ_mul]
      congr 1
      omega
  · rw [ensureLength_of_le (Nat.not_lt.1 hlt)]
    exact ⟨⟨hsimilar, k, hk, hremaining⟩, Nat.not_lt.1 hlt⟩

/-- The window has the bytes that a call looks at. -/
theorem prefix_of_simulates (hW : R.Slides T W) (hk : W k z) (hpayload : z.zcbor.payload ≤ R.dataSize)
    (hremaining : s.remaining = T.drop (k * R.dataSize + z.zcbor.payload)) :
    s.remaining.take R.dataSize <+: z.zcbor.remaining := by
  have hholds := hW.holds k z hk
  have hend := hW.payloadEnd_ge k z hk
  have hwindow : (T.drop (k * R.dataSize)).take (2 * R.dataSize) <+: z.zcbor.memory.take z.zcbor.payloadEnd := by
    refine List.prefix_take_iff.2 ⟨hholds, ?_⟩
    rw [List.length_take, List.length_drop]
    exact hend
  obtain ⟨tail, htail⟩ := hwindow
  have hwithin : z.zcbor.payload ≤ ((T.drop (k * R.dataSize)).take (2 * R.dataSize)).length := by
    rw [List.length_take, List.length_drop]
    exact hW.payload_le k z hk
  have hz : z.zcbor.remaining = ((T.drop (k * R.dataSize)).drop z.zcbor.payload).take
      (2 * R.dataSize - z.zcbor.payload) ++ tail := by
    rw [ZcborState.remaining, ← htail, List.drop_append_of_le_length hwithin, List.drop_take]
  rw [hz, hremaining, ← List.drop_drop]
  exact (List.take_prefix_take_left (by omega)).trans (List.prefix_append _ _)

/-- The plain decoder with the same options. -/
def plain (Z : ZcborDecode) : Decoder ZcborState := binaryDecoder (options Z)

/-- A call that can be served. -/
theorem simulates_step (hW : R.Slides T W) {op : DecodeOp} (h : R.Simulates T W s z)
    (hop : Servable (options Z) R.dataSize op s) :
    (plain Z op s).1 = (R.streamDecoder Z op z).1 ∧ R.Simulates T W (plain Z op s).2 (R.streamDecoder Z op z).2 := by
  obtain ⟨hskip, hop⟩ := hop
  have hstream : R.streamDecoder Z op z = R.windowDecoder Z op z := by
    cases op <;> first | rfl | exact absurd rfl hskip
  rw [hstream]
  rcases hop with rfl | rfl | ⟨n, hn, hle, hcall⟩
  · refine ⟨?_, h⟩
    change decide (s.elemCount ≠ 0) = decide (z.zcbor.elemCount ≠ 0)
    rw [h.1.elemCount]
  · refine ⟨?_, h⟩
    change decide (s.elemCount ≠ 0) = decide (z.zcbor.elemCount ≠ 0)
    rw [h.1.elemCount]
  · by_cases hconst : op = .isInMap ∨ op = .isInList
    · -- these read the state as it is
      rcases hconst with rfl | rfl <;>
        exact ⟨by change decide (s.elemCount ≠ 0) = decide (z.zcbor.elemCount ≠ 0); rw [h.1.elemCount], h⟩
    · have hwindow : R.windowDecoder Z op z = ((plain Z op (R.ensureLength z).zcbor).1,
          { R.ensureLength z with zcbor := (plain Z op (R.ensureLength z).zcbor).2 }) := by
        rw [windowDecoder, if_neg hconst]
        rfl
      obtain ⟨⟨hsimilar, k, hk, hremaining⟩, hpayload⟩ := simulates_ensureLength hW h
      obtain ⟨hresult, hadvances, hsimilar'⟩ := hcall _ hsimilar (prefix_of_simulates hW hk hpayload hremaining)
      have hplain := (hcall s (.refl s) (List.take_prefix _ _)).2.1
      have hbound := hW.payload_le k _ hk
      have hfits : (R.ensureLength z).zcbor.payload + n ≤ min (2 * R.dataSize) (T.length - k * R.dataSize) := by
        rw [hremaining, List.length_drop] at hle
        omega
      rw [hwindow]
      refine ⟨hresult.symm, hsimilar', k, hW.move k _ n _ hk hadvances hfits, ?_⟩
      change (binaryDecoder (options Z) op s).2.remaining =
        T.drop (k * R.dataSize + (binaryDecoder (options Z) op (R.ensureLength z).zcbor).2.payload)
      rw [hplain.remaining_drop, hremaining, List.drop_drop, hadvances.payload, Nat.add_assoc]

/-- **A program whose calls all look at no more bytes than a chunk carries gives the same result on the streaming decoder
as on a plain decoder with the whole stream in memory.** -/
theorem run_streamDecoder {α : Type} (hW : R.Slides T W) {p : Decoding α} (h : R.Simulates T W s z)
    (hp : EachCall (plain Z) (Servable (options Z) R.dataSize) p s) :
    (run (plain Z) p s).1 = (run (R.streamDecoder Z) p z).1 ∧
      R.Simulates T W (run (plain Z) p s).2 (run (R.streamDecoder Z) p z).2 :=
  run_sim_of_eachCall (fun _ _ _ h hop => simulates_step hW h hop) hp h

end StreamReader

end ThingSet
