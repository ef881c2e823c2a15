import ThingSet.Foundations.Keyed
import ThingSet.Streaming.DecoderBounds
import ThingSet.Streaming.Frames
import ThingSet.Streaming.Window

/-!
# The subscription listener

`SubscriptionListener::handle` has a decoder for each sender. The first frame of a report, or a single
frame, replaces it; other frames are queued in it, whatever their sequence and message numbers are. When
the last frame of a report has come, the callback is called with the decoder.

* `callbacks_of_interleaving`: when the frames of each sender come in order, the callback is called once
  for each report, with what was received of it.
* `queued_of_ordered`: when a frame that is queued follows the frame before it, the decoder has the
  payload of one report.
-/

namespace ThingSet

open Transition

/-- A frame that arrives: its sender and identifier, the memory of a decoder that is constructed for it,
and what the callback, if it is called, does with the decoder. -/
structure Arrival (K I : Type) where
  key : K
  identifier : I
  message : Message
  stale : Bytes
  callback : StreamingDecodeState → StreamingDecodeState := id

/-- A call of the callback. -/
structure Callback (I : Type) where
  identifier : I
  decoder : StreamingDecodeState

namespace StreamingDecoder

variable {K I : Type} (C : StreamingDecoder)

/-- `SubscriptionListener::handle` for the decoder of the sender, if there is one. -/
def handleOne (a : Arrival K I) (decoder : Option StreamingDecodeState) :
    Option (Callback I) × Option StreamingDecodeState :=
  let decoder :=
    if a.message.type = some .first ∨ a.message.type = some .single then some (C.new a.stale)
    else decoder
  match decoder with
  | none => (none, none)
  | some s =>
    let (complete, s) := C.enqueue a.message s
    if complete then (some ⟨a.identifier, s⟩, some (a.callback s)) else (none, some s)

section Map

variable [DecidableEq K]

/-- `SubscriptionListener::handle`. -/
def listen : Arrival K I → (K → Option StreamingDecodeState) →
    Option (Callback I) × (K → Option StreamingDecodeState) := keyed Arrival.key C.handleOne

/-- Up to the callback. -/
theorem listen_eq_handle (a : Arrival K I) (decoders : K → Option StreamingDecodeState)
    (ha : a.callback = id) : (C.listen a decoders).2 = C.handle a.key a.message a.stale decoders := by
  rw [listen, keyed, handle, decoderFor]
  dsimp only [handleOne]
  generalize hdecoder : (if a.message.type = some .first ∨ a.message.type = some .single then
    some (C.new a.stale) else decoders a.key) = decoder
  cases decoder with
  | none =>
    split at hdecoder
    · cases hdecoder
    · dsimp only
      rw [← hdecoder, Function.update_eq_self]
  | some s =>
    rw [ha]
    dsimp only
    split <;> rfl

end Map

/-! ## Reports -/

/-- A report that is cut short before its last frame. -/
def Opens (ms : List Message) : Prop :=
  ∃ m rest, ms = m :: rest ∧ m.type = some .first ∧ ∀ m' ∈ rest, m'.type = some .consecutive

/-- All frames of a report. -/
def IsReport (ms : List Message) : Prop :=
  (∃ m, ms = [m] ∧ m.type = some .single) ∨
    ∃ init m, ms = init ++ [m] ∧ Opens init ∧ m.type = some .last

end StreamingDecoder

/-- What a sender emits of a report. -/
structure Emission (K I : Type) where
  frames : List (Arrival K I)
  complete : Bool

namespace Emission

variable {K I : Type} (C : StreamingDecoder) (r : Emission K I)

/-- The frames, as they are received. -/
def messages : List Message := r.frames.map (·.message)

/-- The frames are those of a report, or of one that is cut short. -/
def Valid : Prop :=
  if r.complete then StreamingDecoder.IsReport r.messages else StreamingDecoder.Opens r.messages

/-- The decoder that was constructed for the report and was fed with its frames. -/
def decoder : StreamingDecodeState :=
  C.receiveAll r.messages (C.new ((r.frames.head?.map (·.stale)).getD []))

/-- The callbacks when the frames arrive one after the other: one at the last frame of a report. -/
def outcomes : List (Option (Callback I)) :=
  if r.complete then
    List.replicate (r.frames.length - 1) none ++
      [r.frames.getLast?.map fun a => ⟨a.identifier, r.decoder C⟩]
  else List.replicate r.frames.length none

end Emission

namespace StreamingDecoder

variable {K I : Type} {C : StreamingDecoder} {as : List (Arrival K I)} {a : Arrival K I}
  {s : StreamingDecodeState}

/-- Frames in the middle of a report are queued. -/
theorem run_consecutive (h : ∀ a ∈ as, a.message.type = some .consecutive) (s : StreamingDecodeState) :
    runCalls C.handleOne as (some s) =
      (List.replicate as.length none, some (C.receiveAll (as.map (·.message)) s)) := by
  induction as generalizing s with
  | nil => rfl
  | cons a as ih =>
    have ha := h a List.mem_cons_self
    have hone : C.handleOne a (some s) = (none, some (C.enqueue a.message s).2) := by
      simp [handleOne, ha, enqueue]
    simp only [runCalls, hone, ih fun a' ha' => h a' (List.mem_cons_of_mem a ha')]
    rfl

/-- A report that is cut short leaves its frames in a new decoder. -/
theorem run_opens (h : Opens (as.map (·.message))) (decoder : Option StreamingDecodeState) :
    runCalls C.handleOne as decoder =
      (List.replicate as.length none,
        some (C.receiveAll (as.map (·.message)) (C.new ((as.head?.map (·.stale)).getD [])))) := by
  obtain ⟨m, rest, hmap, hfirst, hrest⟩ := h
  obtain ⟨a, as, rfl, rfl, rfl⟩ := List.map_eq_cons_iff.1 hmap
  have hone : C.handleOne a decoder = (none, some (C.enqueue a.message (C.new a.stale)).2) := by
    simp [handleOne, hfirst, enqueue]
  simp only [runCalls, hone, run_consecutive fun a' ha' => hrest _ (List.mem_map_of_mem ha')]
  rfl

/-- The frame that completes a report. -/
theorem handleOne_last (h : a.message.type = some .last) (s : StreamingDecodeState) :
    C.handleOne a (some s) =
      (some ⟨a.identifier, (C.enqueue a.message s).2⟩, some (a.callback (C.enqueue a.message s).2)) := by
  simp [handleOne, h, enqueue]

/-- What a sender emits, whatever came before. -/
theorem run_emission {r : Emission K I} (h : r.Valid) (decoder : Option StreamingDecodeState) :
    (runCalls C.handleOne r.frames decoder).1 = r.outcomes C := by
  rw [Emission.Valid] at h
  rw [Emission.outcomes]
  split at h
  · rename_i hcomplete
    rw [if_pos hcomplete]
    rcases h with ⟨m, hmap, hsingle⟩ | ⟨init, m, hmap, hopens, hlast⟩
    · obtain ⟨a, ha, rfl⟩ := List.map_eq_singleton_iff.1 hmap
      simp [Emission.decoder, Emission.messages, ha, runCalls, handleOne, hsingle, enqueue, receiveAll]
    · obtain ⟨as, bs, hframes, rfl, hbs⟩ := List.map_eq_append_iff.1 hmap
      obtain ⟨a, rfl, rfl⟩ := List.map_eq_singleton_iff.1 hbs
      have hhead : as.head? = r.frames.head? := by
        obtain ⟨m, rest, hmap, -⟩ := hopens
        obtain ⟨a', as', rfl, -⟩ := List.map_eq_cons_iff.1 hmap
        rw [hframes]
        rfl
      rw [Emission.decoder, Emission.messages, hframes, runCalls_append, run_opens hopens]
      simp only [runCalls, handleOne_last hlast, List.length_append, List.length_singleton,
        Nat.add_sub_cancel, List.getLast?_concat, Option.map_some, List.map_append, List.map_singleton,
        receiveAll, List.foldl_append, hhead, hframes]
      rfl
  · rename_i hcomplete
    rw [if_neg hcomplete, run_opens h]

/-- What a sender emits of its reports, one after the other. -/
theorem run_emissions {rs : List (Emission K I)} (h : ∀ r ∈ rs, r.Valid)
    (decoder : Option StreamingDecodeState) :
    (runCalls C.handleOne (rs.flatMap (·.frames)) decoder).1 = rs.flatMap (·.outcomes C) := by
  induction rs generalizing decoder with
  | nil => rfl
  | cons r rs ih =>
    rw [List.flatMap_cons, List.flatMap_cons, runCalls_append]
    simp only [run_emission (h r List.mem_cons_self),
      ih fun r' hr' => h r' (List.mem_cons_of_mem r hr')]

/-- **In any interleaving of frames that each sender emits in order, the callback is called for a sender
exactly at the last frame of each of its reports, with the identifier of that frame and a decoder that was
fed with the frames of the report**, and not for reports that are cut short. -/
theorem callbacks_of_interleaving [DecidableEq K] (arrivals : List (Arrival K I))
    (reports : K → List (Emission K I)) (hreports : ∀ k, ∀ r ∈ reports k, r.Valid)
    (horder : ∀ k, (arrivals.filter fun a => a.key = k) = (reports k).flatMap (·.frames))
    (decoders : K → Option StreamingDecodeState) (k : K) :
    resultsOf Arrival.key k arrivals (runCalls C.listen arrivals decoders).1 =
      (reports k).flatMap (·.outcomes C) := by
  rw [listen, (runCalls_keyed arrivals decoders k).1, horder k]
  exact run_emissions (hreports k) (decoders k)

end StreamingDecoder

/-- A frame of sender `true`, or of sender `false`. -/
def arrivalOf (key : Bool) (message : Message) : Arrival Bool Bool := ⟨key, key, message, [], id⟩

/-- A report that fits a frame. -/
def singleFrame : Message := ⟨some .single, [0x1F, 0, 1, 2], 4⟩

/-- What the senders emit. -/
def twoSenders : Bool → List (Emission Bool Bool)
  | true => [⟨[arrivalOf true firstFrame], false⟩, ⟨[arrivalOf true firstFrame, arrivalOf true lastFrame], true⟩]
  | false => [⟨[arrivalOf false singleFrame], true⟩]

/-- A report is cut short, and the next one is interleaved with a report of another sender. -/
theorem twoSenders_callbacks :
    resultsOf Arrival.key true
        [arrivalOf true firstFrame, arrivalOf true firstFrame, arrivalOf false singleFrame,
          arrivalOf true lastFrame]
        (runCalls canDecoderEight.listen
          [arrivalOf true firstFrame, arrivalOf true firstFrame, arrivalOf false singleFrame,
            arrivalOf true lastFrame] fun _ => none).1 =
      [none, none,
        some ⟨true, canDecoderEight.receiveAll [firstFrame, lastFrame] (canDecoderEight.new [])⟩] := by
  refine (StreamingDecoder.callbacks_of_interleaving _ twoSenders ?_ ?_ _ true).trans rfl
  · have hopens : StreamingDecoder.Opens [firstFrame] := ⟨firstFrame, [], rfl, rfl, nofun⟩
    intro k r hr
    cases k with
    | true =>
      rcases List.mem_cons.1 hr with rfl | hr
      · exact hopens
      · obtain rfl := List.mem_singleton.1 hr
        exact .inr ⟨[firstFrame], lastFrame, rfl, hopens, rfl⟩
    | false =>
      obtain rfl := List.mem_singleton.1 hr
      exact .inl ⟨singleFrame, rfl, rfl⟩
  · intro k
    cases k <;> rfl

/-! ## Frames in any order -/

/-- A frame of one of the reports of a sender, given by their payloads. The type in its header is the one
that was sent. -/
structure Received (reports : List (List Bytes)) (I : Type) extends Arrival Unit I where
  report : Fin reports.length
  index : Fin (reports.get report).length
  type_eq : message.type = some (.ofIndex (reports.get report).length index)

/-- The listener, for one sender: the decoder, which frame came before, and the calls of the callback. -/
structure Listening (I : Type) where
  decoder : Option StreamingDecodeState := none
  previous : Option (ℕ × ℕ) := none
  callbacks : List (Callback I) := []

namespace StreamingDecoder

variable {I : Type} {C : StreamingDecoder} {reports : List (List Bytes)} {chunks cs : List Bytes}
  {ms : List Message} {pos : ℕ} {L L' : Listening I} {a : Received reports I}

/-- A frame is handled. -/
def hear (C : StreamingDecoder) (L : Listening I) (a : Received reports I) : Option (Listening I) :=
  let (callback, decoder) := C.handleOne a.toArrival L.decoder
  some {
    decoder := decoder
    previous := some (a.report, a.index)
    callbacks := L.callbacks ++ callback.toList }

instance decidableCarries (c : Bytes) (m : Message) : Decidable (C.Carries c m) :=
  decidable_of_iff (m.length = C.headerSize + c.length ∧ (m.data.drop C.headerSize).take c.length = c)
    ⟨fun h => ⟨h.1, h.2⟩, fun h => ⟨h.1, h.2⟩⟩

/-- A frame that is queued has arrived whole; it begins a report, or the frame that came before is the
one before it in the same report. -/
def Ordered (C : StreamingDecoder) (L : Listening I) (a : Received reports I) : Prop :=
  a.index.val = 0 ∨ L.decoder.isSome = true →
    C.Carries ((reports.get a.report).get a.index) a.message ∧
      ((reports.get a.report).get a.index).length ≤ C.dataSize ∧
      (a.index.val ≠ 0 → L.previous = some (a.report.val, a.index.val - 1))

instance decidableOrdered (L : Listening I) (a : Received reports I) : Decidable (C.Ordered L a) :=
  inferInstanceAs (Decidable (_ → _))

/-- The payload bytes in the window and in the queue. -/
def queued (C : StreamingDecoder) (s : StreamingDecodeState) : Bytes :=
  s.buffer.take s.received ++
    s.queue.flatMap fun m => (m.data.drop C.headerSize).take (m.length - C.headerSize)

/-- Where the window ends in a queue of complete messages. -/
theorem exists_takes (pos : ℕ) (hms : ∀ m ∈ ms, C.Complete m) (hpos : pos ≤ 2 * C.size) :
    ∃ pre post, C.Takes pos ms pre post := by
  induction ms generalizing pos with
  | nil => exact ⟨[], [], rfl, nofun, hpos, nofun⟩
  | cons m ms ih =>
    have hm := hms m List.mem_cons_self
    by_cases hfits : pos + C.received m ≤ 2 * C.size
    · obtain ⟨pre, post, htakes⟩ := ih _ (fun m' hm' => hms m' (List.mem_cons_of_mem m hm')) hfits
      exact ⟨m :: pre, post, takes_cons hm htakes⟩
    · refine ⟨[], m :: ms, rfl, nofun, hpos, fun m' hm' => ?_⟩
      obtain rfl := Option.mem_some_iff.1 hm'
      exact ⟨hm, not_le.1 hfits⟩

/-- The payloads of messages that carry chunks. -/
theorem flatMap_of_carries (h : List.Forall₂ C.Carries cs ms) :
    (ms.flatMap fun m => (m.data.drop C.headerSize).take (m.length - C.headerSize)) = cs.flatten := by
  induction h with
  | nil => rfl
  | cons hc _ ih => rw [List.flatMap_cons, List.flatten_cons, ih, hc.length, Nat.add_sub_cancel_left, hc.data]

/-- A decoder that was fed with a report has its payload. -/
theorem queued_receiveAll (hcarries : List.Forall₂ C.Carries chunks (ms ++ [m]))
    (hle : ∀ c ∈ chunks, c.length ≤ C.dataSize)
    (hms : ∀ m ∈ ms, m.type ≠ some .single ∧ m.type ≠ some .last)
    (hm : m.type = some .single ∨ m.type = some .last) (stale : Bytes) :
    C.queued (C.enqueue m (C.receiveAll ms (C.new stale))).2 = chunks.flatten := by
  have hcomplete : ∀ m' ∈ ms ++ [m], C.Complete m' := by
    intro m' hm'
    obtain ⟨i, hi, rfl⟩ := List.getElem_of_mem hm'
    have hlength := hcarries.length_eq
    exact (hcarries.get (i := i) (by omega) hi).complete (hle _ (List.getElem_mem _))
  obtain ⟨pre, post, htakes⟩ := exists_takes 0 hcomplete (Nat.zero_le _)
  obtain ⟨copies, hread, -⟩ := read_of_takes (s := { C.new stale with queue := ms ++ [m] }) htakes
  rw [← htakes.append] at hcarries
  have hpre := List.forall₂_take_append chunks pre post hcarries
  have hpost := List.forall₂_drop_append chunks pre post hcarries
  have hlepre : ∀ c ∈ chunks.take pre.length, c.length ≤ C.dataSize :=
    fun c hc => hle c (List.mem_of_mem_take hc)
  have hcopy := copyAll_of_carries hpre hlepre _ _ (Nat.zero_le stale.length)
  have hcarried := carried_of_carries hpre hlepre
  have hreceived : (if pre = [] then 0 else max 0 (0 + C.carried pre)) =
      (chunks.take pre.length).flatten.length := by
    split
    · rename_i hnil
      rw [← hcarried, hnil, carried_nil]
    · rw [Nat.zero_add, Nat.zero_max, hcarried]
  rw [receiveAll_inner hms, enqueue, if_pos hm]
  dsimp only [new] at hread ⊢
  simp only [List.nil_append, hread]
  rw [queued]
  dsimp only
  rw [hreceived, hcopy, flatMap_of_carries hpost, List.take_zero, List.nil_append, List.take_left,
    ← List.flatten_append, List.take_append_drop]

/-- The decoder of an incomplete report was fed with its first frames. -/
structure Fed (C : StreamingDecoder) (chunks : List Bytes) (k : ℕ) (s : StreamingDecodeState) : Prop where
  fed : ∃ ms stale, List.Forall₂ C.Carries (chunks.take k) ms ∧
    (∀ m ∈ ms, m.type ≠ some .single ∧ m.type ≠ some .last) ∧ s = C.receiveAll ms (C.new stale)
  length_le : ∀ c ∈ chunks.take k, c.length ≤ C.dataSize

/-- The callbacks had a report each, and a decoder that is not complete has what came so far. -/
structure Hears (C : StreamingDecoder) (reports : List (List Bytes)) (L : Listening I) : Prop where
  callbacks : ∀ cb ∈ L.callbacks, ∃ chunks ∈ reports, C.queued cb.decoder = chunks.flatten
  decoder : ∀ s, L.decoder = some s → ∃ (i : Fin reports.length) (j : ℕ),
    L.previous = some (i.val, j) ∧ (j + 1 < (reports.get i).length → C.Fed (reports.get i) (j + 1) s)

theorem fed_new (chunks : List Bytes) (stale : Bytes) : C.Fed chunks 0 (C.new stale) :=
  ⟨⟨[], stale, .nil, nofun, rfl⟩, nofun⟩

/-- Only the last frame of a report completes it. -/
theorem ofIndex_complete {n j : ℕ} :
    some (MessageType.ofIndex n j) = some .single ∨ some (MessageType.ofIndex n j) = some .last ↔
      j + 1 = n := by
  rw [MessageType.ofIndex]
  split
  · rename_i hlast
    by_cases hj : j = 0 <;> simp [hj, ← hlast]
  · rename_i hlast
    by_cases hj : j = 0 <;> simp [hj]
    · subst hj
      exact hlast
    · exact hlast

variable {j : ℕ} {s : StreamingDecodeState} {m : Message}

/-- The next frame of a report is queued. -/
theorem Fed.enqueue (h : C.Fed chunks j s) (hj : j < chunks.length) (hcarries : C.Carries chunks[j] m)
    (hle : chunks[j].length ≤ C.dataSize) (htype : m.type = some (.ofIndex chunks.length j)) :
    (j + 1 < chunks.length → C.enqueue m s = (false, (C.enqueue m s).2) ∧
        C.Fed chunks (j + 1) (C.enqueue m s).2) ∧
      (j + 1 = chunks.length → C.enqueue m s = (true, (C.enqueue m s).2) ∧
        C.queued (C.enqueue m s).2 = chunks.flatten) := by
  obtain ⟨⟨ms, stale, hms, hinner, rfl⟩, hlength⟩ := h
  have hall : List.Forall₂ C.Carries (chunks.take (j + 1)) (ms ++ [m]) := by
    rw [List.take_succ_eq_append_getElem hj]
    exact List.rel_append hms (.cons hcarries .nil)
  have hlengths : ∀ c ∈ chunks.take (j + 1), c.length ≤ C.dataSize := by
    rw [List.take_succ_eq_append_getElem hj]
    intro c hc
    rcases List.mem_append.1 hc with hc | hc
    · exact hlength c hc
    · exact List.mem_singleton.1 hc ▸ hle
  have hcomplete : m.type = some .single ∨ m.type = some .last ↔ j + 1 = chunks.length := by
    rw [htype]
    exact ofIndex_complete
  constructor
  · intro hlt
    have hne : ¬ (m.type = some .single ∨ m.type = some .last) := by
      rw [hcomplete]
      omega
    have henqueue : C.enqueue m (C.receiveAll ms (C.new stale)) =
        (false, C.receiveAll (ms ++ [m]) (C.new stale)) := by
      rw [receiveAll, receiveAll, List.foldl_append, StreamingDecoder.enqueue, if_neg hne]
      simp only [List.foldl_cons, List.foldl_nil, StreamingDecoder.enqueue, if_neg hne]
    rw [henqueue]
    refine ⟨rfl, ⟨ms ++ [m], stale, hall, fun m' hm' => ?_, rfl⟩, hlengths⟩
    rcases List.mem_append.1 hm' with hm' | hm'
    · exact hinner m' hm'
    · exact List.mem_singleton.1 hm' ▸ not_or.1 hne
  · intro heq
    rw [List.take_of_length_le heq.ge] at hall hlengths
    refine ⟨?_, queued_receiveAll hall hlengths hinner (hcomplete.2 heq) stale⟩
    rw [StreamingDecoder.enqueue, if_pos (hcomplete.2 heq)]

/-- A frame that is queued goes to a decoder that has the frames before it. -/
theorem hears_hear (h : C.Hears reports L) (hordered : C.Ordered L a) (hL : C.hear L a = some L') :
    C.Hears reports L' := by
  obtain rfl := Option.some.inj hL
  have hfirst : (a.message.type = some .first ∨ a.message.type = some .single) ↔ a.index.val = 0 := by
    rw [a.type_eq, MessageType.ofIndex]
    split <;> by_cases hj : a.index.val = 0 <;> simp [hj]
  -- the decoder that takes the frame
  have hdecoder : ∀ s, (if a.message.type = some .first ∨ a.message.type = some .single then
      some (C.new a.stale) else L.decoder) = some s →
        (a.index.val = 0 ∨ L.decoder.isSome = true) ∧ C.Fed (reports.get a.report) a.index s := by
    intro s hs
    split at hs
    · rename_i hj
      rw [hfirst] at hj
      obtain rfl := Option.some.inj hs
      exact ⟨.inl hj, hj ▸ fed_new _ _⟩
    · rename_i hj
      rw [hfirst] at hj
      have hsome : a.index.val = 0 ∨ L.decoder.isSome = true := .inr (by rw [hs]; rfl)
      obtain ⟨-, -, hprevious⟩ := hordered hsome
      obtain ⟨i, j, hij, hfed⟩ := h.decoder s hs
      obtain ⟨hi, hj'⟩ := Prod.mk.inj (Option.some.inj (hij.symm.trans (hprevious hj)))
      obtain rfl := Fin.ext hi
      have hlt := a.index.isLt
      have hnext : a.index.val = j + 1 := by omega
      exact ⟨hsome, hnext ▸ hfed (by omega)⟩
  dsimp only [handleOne]
  generalize (if a.message.type = some .first ∨ a.message.type = some .single then
    some (C.new a.stale) else L.decoder) = decoder at hdecoder ⊢
  cases decoder with
  | none => exact ⟨by simpa using h.callbacks, fun _ hnone => by cases hnone⟩
  | some s =>
    obtain ⟨hqueued, hfed⟩ := hdecoder s rfl
    obtain ⟨hcarries, hle, -⟩ := hordered hqueued
    have hlt := a.index.isLt
    obtain ⟨hinner, hlast⟩ := hfed.enqueue hlt hcarries hle a.type_eq
    rcases Nat.lt_or_ge (a.index.val + 1) (reports.get a.report).length with hj | hj
    · obtain ⟨henqueue, hfed⟩ := hinner hj
      dsimp only
      rw [henqueue]
      refine ⟨by simpa using h.callbacks, fun s' hs' => ⟨a.report, a.index, rfl, fun _ => ?_⟩⟩
      exact Option.some.inj hs' ▸ hfed
    · obtain ⟨henqueue, hpayload⟩ := hlast (by omega)
      dsimp only
      rw [henqueue]
      refine ⟨fun cb hcb => ?_, fun s' _ => ⟨a.report, a.index, rfl, fun hmore => by omega⟩⟩
      rcases List.mem_append.1 hcb with hcb | hcb
      · exact h.callbacks cb hcb
      · obtain rfl := List.mem_singleton.1 hcb
        exact ⟨_, List.get_mem reports a.report, hpayload⟩

/-- **Where every frame that is queued follows the frame before it, the callback is called with the
payload of one report.** -/
theorem queued_of_ordered {arrivals : List (Received reports I)}
    (hordered : Meets C.hear C.Ordered {} arrivals) (hrun : runFrom C.hear {} arrivals = some L) :
    ∀ cb ∈ L.callbacks, ∃ chunks ∈ reports, C.queued cb.decoder = chunks.flatten :=
  (runFrom_invariant_of_meets (P := C.Hears reports) (fun _ _ _ h hg hL => hears_hear h hg hL)
    ⟨by simp, by simp⟩ hordered hrun).callbacks

end StreamingDecoder

/-- A frame of the reports, as it was sent. -/
def sentFrame (reports : List (List Bytes)) (i : Fin reports.length) (j : Fin (reports.get i).length) :
    Received reports Unit where
  key := ()
  identifier := ()
  message := ⟨some (.ofIndex _ j), (reports.get i).get j, ((reports.get i).get j).length⟩
  stale := []
  report := i
  index := j
  type_eq := rfl

/-- Two reports of three frames. -/
def reportPair : List (List Bytes) :=
  [[[0x1F, 0, 1, 2, 3, 4, 5, 6], [7, 8, 9, 10, 11, 12, 13, 14], [15, 16]],
    [[0x1F, 0, 21, 22, 23, 24, 25, 26], [27, 28, 29, 30, 31, 32, 33, 34], [35, 36]]]

/-- The frames of the first and of the second report. -/
def framesOfFirst (j : Fin 3) : Received reportPair Unit := sentFrame reportPair (⟨0, Nat.two_pos⟩ : Fin 2) j
def framesOfSecond (j : Fin 3) : Received reportPair Unit := sentFrame reportPair (⟨1, Nat.one_lt_two⟩ : Fin 2) j

/-- The frames of the second report follow those of the first, of which the last is lost. -/
theorem reportPair_queued : ∃ L,
    runFrom canDecoderEight.hear {}
        [framesOfFirst 0, framesOfFirst 1, framesOfSecond 0, framesOfSecond 1, framesOfSecond 2] =
      some L ∧
      ∀ cb ∈ L.callbacks, ∃ chunks ∈ reportPair, canDecoderEight.queued cb.decoder = chunks.flatten := by
  have hordered : Meets canDecoderEight.hear canDecoderEight.Ordered {}
      [framesOfFirst 0, framesOfFirst 1, framesOfSecond 0, framesOfSecond 1, framesOfSecond 2] := by
    decide +kernel
  exact ⟨_, rfl, StreamingDecoder.queued_of_ordered hordered rfl⟩

/-- The callback is called, with the payload of no report. -/
def Mixes (arrivals : List (Received reportPair Unit)) : Prop :=
  ∃ L, runFrom canDecoderEight.hear {} arrivals = some L ∧ ∃ cb ∈ L.callbacks, ∀ chunks ∈ reportPair,
    canDecoderEight.queued cb.decoder ≠ chunks.flatten

/-- A frame in the middle is lost, a frame comes twice, or the last frame of a report and the first one
of the next are lost. -/
theorem reportPair_mixed :
    Mixes [framesOfFirst 0, framesOfFirst 2] ∧
      Mixes [framesOfFirst 0, framesOfFirst 1, framesOfFirst 1, framesOfFirst 2] ∧
      Mixes [framesOfFirst 0, framesOfFirst 1, framesOfSecond 1, framesOfSecond 2] := by
  refine ⟨⟨_, rfl, _, List.mem_singleton.2 rfl, ?_⟩, ⟨_, rfl, _, List.mem_singleton.2 rfl, ?_⟩,
    ⟨_, rfl, _, List.mem_singleton.2 rfl, ?_⟩⟩
  all_goals decide +kernel

end ThingSet
