import ThingSet.Streaming.Decoder
import Mathlib.Data.List.Forall2
import Mathlib.Data.List.Infix

/-!
# What a streaming decoder consumes

A report is cut into messages that are full but for the last one. The window holds the payloads of
two messages, and when there are at most `2 * headerSize` bytes left of the report, also these. But
a refill moves no more than the second payload.

`decode_iff`: decode calls for items no larger than a message consume the report byte by byte,
exactly when it has at most two messages or the last one carries more than `2 * headerSize` bytes.
-/

namespace ThingSet

open Transition

namespace StreamingDecoder

variable {C : StreamingDecoder} {chunks cs : List Bytes} {ms : List Message} {c : Bytes} {m : Message}
  {s s' : StreamingDecodeState} {k n pos : ℕ}

/-! ## A report in messages -/

/-- The message carries the payload `c`. -/
structure Carries (C : StreamingDecoder) (c : Bytes) (m : Message) : Prop where
  length : m.length = C.headerSize + c.length
  data : (m.data.drop C.headerSize).take c.length = c

/-- The messages of a report that is cut into `chunks`: only the last one ends it. -/
structure Framed (C : StreamingDecoder) (chunks : List Bytes) (ms : List Message) : Prop where
  carries : List.Forall₂ C.Carries chunks ms
  inner : ∀ m ∈ ms.dropLast, m.type ≠ some .single ∧ m.type ≠ some .last
  last : ∀ m ∈ ms.getLast?, m.type = some .single ∨ m.type = some .last

/-- The messages are queued one after the other. -/
def receiveAll (C : StreamingDecoder) (ms : List Message) (s : StreamingDecodeState) :
    StreamingDecodeState := ms.foldl (fun s m => (C.enqueue m s).2) s

/-- What decode calls for items of these sizes consume of a sequence of bytes. -/
def itemsOf : List ℕ → Bytes → List (Option Bytes)
  | [], _ => []
  | n :: ns, bs => some (bs.take n) :: itemsOf ns (bs.drop n)

theorem none_notMem_itemsOf {ns : List ℕ} {bs : Bytes} : none ∉ itemsOf ns bs := by
  induction ns generalizing bs with
  | nil => exact List.not_mem_nil
  | cons n ns ih => simpa [itemsOf] using ih

theorem dataSize_add : C.dataSize + C.headerSize = C.size := by
  have := C.header_lt
  simp only [dataSize]
  omega

theorem Carries.complete (h : C.Carries c m) (hc : c.length ≤ C.dataSize) : C.Complete m := by
  have hdata := dataSize_add (C := C)
  have hlength := h.length
  exact ⟨by omega, by omega⟩

theorem Carries.received_eq (h : C.Carries c m) (hc : c.length ≤ C.dataSize) :
    C.received m = c.length := by
  rw [(h.complete hc).received_eq, h.length, Nat.add_sub_cancel_left]

/-- What messages carry. -/
theorem carried_of_carries (h : List.Forall₂ C.Carries cs ms)
    (hcs : ∀ c ∈ cs, c.length ≤ C.dataSize) : C.carried ms = cs.flatten.length := by
  induction h with
  | nil => rfl
  | cons hc _ ih =>
    rw [carried_cons, hc.received_eq (hcs _ List.mem_cons_self),
      ih fun c hc => hcs c (List.mem_cons_of_mem _ hc), List.flatten_cons, List.length_append]

/-- The payloads are copied one behind the other. -/
theorem copyAll_of_carries (h : List.Forall₂ C.Carries cs ms)
    (hcs : ∀ c ∈ cs, c.length ≤ C.dataSize) (pos : ℕ) (buffer : Bytes) (hpos : pos ≤ buffer.length) :
    C.copyAll pos ms buffer =
      buffer.take pos ++ cs.flatten ++ buffer.drop (pos + cs.flatten.length) := by
  induction h generalizing pos buffer with
  | nil => simp [copyAll]
  | @cons c m cs ms hc _ ih =>
    have hreceived := hc.received_eq (hcs _ List.mem_cons_self)
    have htake : (buffer.take pos).length = pos := List.length_take_of_le hpos
    have hcopy : memcpy buffer pos (m.data.drop C.headerSize) c.length =
        (buffer.take pos ++ c) ++ buffer.drop (pos + c.length) := by rw [memcpy, hc.data]
    have hlen : (buffer.take pos ++ c).length = pos + c.length := by rw [List.length_append, htake]
    rw [copyAll, hreceived, hcopy, ih (fun c hc => hcs c (List.mem_cons_of_mem _ hc)) _ _
      (by rw [List.length_append, hlen]; omega), ← hlen, List.take_left, hlen,
      List.drop_append, List.drop_eq_nil_of_le (by omega), List.nil_append, hlen, List.drop_drop,
      List.flatten_cons, List.length_append]
    simp only [List.append_assoc]
    congr 4
    omega

/-! ## The messages that a refill brings -/

/-- The length of the last payload. -/
def lastLength (chunks : List Bytes) : ℕ := (chunks.getLast?.getD []).length

/-- Two messages are left, and both are copied since the last one is short. -/
def Both (C : StreamingDecoder) (chunks : List Bytes) : Prop :=
  chunks.length = 2 ∧ lastLength chunks ≤ 2 * C.headerSize

instance : Decidable (C.Both chunks) := instDecidableAnd

/-- The number of messages that a refill brings. -/
def refilled (C : StreamingDecoder) (chunks : List Bytes) : ℕ := if C.Both chunks then 2 else 1

theorem lastLength_cons (hne : chunks ≠ []) : lastLength (c :: chunks) = lastLength chunks := by
  cases chunks with
  | nil => exact absurd rfl hne
  | cons d chunks => rw [lastLength, List.getLast?_cons_cons, ← lastLength]

/-- Chunks in front do not change the last one. -/
theorem lastLength_drop (hk : k < chunks.length) :
    lastLength (chunks.drop k) = lastLength chunks := by
  induction k generalizing chunks with
  | zero => rw [List.drop_zero]
  | succ k ih =>
    cases chunks with
    | nil => cases hk
    | cons c chunks =>
      have hk : k < chunks.length := Nat.lt_of_succ_lt_succ hk
      rw [List.drop_succ_cons, ih hk, lastLength_cons (List.ne_nil_of_length_pos (by omega))]

theorem lastLength_le (chunks : List Bytes) : lastLength chunks ≤ chunks.flatten.length := by
  induction chunks with
  | nil => exact Nat.le_refl 0
  | cons c chunks ih =>
    rw [List.flatten_cons, List.length_append]
    cases chunks with
    | nil => exact Nat.le_add_right _ _
    | cons d chunks =>
      rw [lastLength_cons (List.cons_ne_nil d chunks)]
      omega

theorem complete_of_carries (h : List.Forall₂ C.Carries cs ms)
    (hcs : ∀ c ∈ cs, c.length ≤ C.dataSize) : ∀ m ∈ ms, C.Complete m := by
  induction h with
  | nil => exact fun m hm => absurd hm List.not_mem_nil
  | cons hc _ ih =>
    intro m hm
    rcases List.mem_cons.1 hm with rfl | hm
    · exact hc.complete (hcs _ List.mem_cons_self)
    · exact ih (fun c hc => hcs c (List.mem_cons_of_mem _ hc)) m hm

/-- Messages that fit, and one that does not. -/
theorem takes_of_carries {pre : List Message} (post : List Message) (h : List.Forall₂ C.Carries cs pre)
    (hcs : ∀ c ∈ cs, c.length ≤ C.dataSize) (hfits : pos + cs.flatten.length ≤ 2 * C.size)
    (hnext : ∀ m ∈ post.head?, ∃ d, C.Carries d m ∧ d.length ≤ C.dataSize ∧
      2 * C.size < pos + cs.flatten.length + d.length) :
    C.Takes pos (pre ++ post) pre post := by
  have hcarried := carried_of_carries h hcs
  refine ⟨rfl, complete_of_carries h hcs, by omega, fun m hm => ?_⟩
  obtain ⟨d, hd, hle, hlt⟩ := hnext m hm
  exact ⟨hd.complete hle, by rw [hd.received_eq hle]; omega⟩

/-- A refill takes one message, or two if the second is the last one and short. -/
theorem takes_refilled (hcut : Chunked C.dataSize chunks) (h : List.Forall₂ C.Carries chunks ms) :
    C.Takes C.dataSize ms (ms.take (C.refilled chunks)) (ms.drop (C.refilled chunks)) := by
  have hdata := dataSize_add (C := C)
  have hheader := C.header_lt
  have hle : ∀ c ∈ chunks, c.length ≤ C.dataSize := fun c => hcut.length_le
  cases h with
  | nil =>
    exact takes_of_carries [] .nil hle (by simp; omega) (by simp)
  | @cons c m cs ms hc hcs =>
    cases hcs with
    | nil =>
      have hone : C.refilled [c] = 1 := if_neg fun hboth => absurd hboth.1 (by simp)
      have hclen := hle c List.mem_cons_self
      rw [hone]
      exact takes_of_carries [] (.cons hc .nil) hle (by simp; omega) (by simp)
    | @cons d m' cs ms hd hcs =>
      have hclen := hcut.length_head (List.cons_ne_nil d cs)
      have hdlen := hle d (by simp)
      by_cases hboth : C.Both (c :: d :: cs)
      · obtain ⟨htwo, hlast⟩ := hboth
        obtain rfl : cs = [] := List.eq_nil_of_length_eq_zero (by simpa using htwo)
        cases hcs
        rw [show C.refilled [c, d] = 2 from if_pos ⟨htwo, hlast⟩]
        have hd2 : d.length ≤ 2 * C.headerSize := hlast
        exact takes_of_carries [] (.cons hc (.cons hd .nil)) hle (by simp; omega) (by simp)
      · have hdshort : 2 * C.headerSize < d.length := by
          by_contra hshort
          rcases cs with _ | ⟨e, cs⟩
          · exact hboth ⟨rfl, Nat.not_lt.1 hshort⟩
          · have hfull := hcut.tail.length_head (List.cons_ne_nil e cs)
            omega
        rw [show C.refilled (c :: d :: cs) = 1 from if_neg hboth]
        refine takes_of_carries _ (.cons hc .nil) (by simpa using hclen.le) (by simp; omega)
          fun x hx => ⟨d, ?_, hdlen, by simp; omega⟩
        obtain rfl : m' = x := by simpa using hx
        exact hd

/-! ## The window -/

/-- The payloads that the window holds after `k` refills. -/
def held (chunks : List Bytes) (k : ℕ) : Bytes := ((chunks.drop k).take 2).flatten

/-- The number of messages that have left the queue after `k` refills. -/
def taken (C : StreamingDecoder) (chunks : List Bytes) (k : ℕ) : ℕ :=
  k + 1 + C.refilled (chunks.drop (k + 1))

/-- The decoder after `k` refills: two payloads are in the window. -/
structure Window (C : StreamingDecoder) (chunks : List Bytes) (ms : List Message) (k : ℕ)
    (s : StreamingDecodeState) : Prop where
  holds : held chunks k <+: s.buffer
  length : s.buffer.length = 2 * C.size
  payload_le : s.payload ≤ (held chunks k).length
  payloadEnd_ge : (held chunks k).length ≤ s.payloadEnd
  queue : s.queue = ms.drop (C.taken chunks k)

/-- The next refill finds the queue empty, but for what the last message brought the window does not
hold. -/
def Lost (C : StreamingDecoder) (chunks : List Bytes) (k : ℕ) : Prop := C.Both (chunks.drop (k + 1))

theorem held_eq (hcut : Chunked C.dataSize chunks) (k : ℕ) :
    held chunks k = (chunks.flatten.drop (k * C.dataSize)).take (2 * C.dataSize) := by
  rw [held, ← (hcut.drop k).take_flatten, ← hcut.drop_flatten]

/-- Behind the moved payload `b` comes the next one. -/
theorem holds_refill {b : Bytes} (z tail : Bytes) {rest : List Bytes} {d t : ℕ} (hb : b.length ≤ d)
    (hfull : rest ≠ [] → b.length = d) (ht : 0 < t) :
    b ++ (rest.take 1).flatten <+: (b ++ z).take d ++ (rest.take t).flatten ++ tail := by
  cases rest with
  | nil =>
    rw [List.take_nil, List.take_nil, List.flatten_nil, List.append_nil, List.append_nil]
    exact (List.prefix_take_iff.2 ⟨List.prefix_append b z, hb⟩).trans (List.prefix_append _ _)
  | cons c rest =>
    obtain ⟨t, rfl⟩ := Nat.exists_eq_succ_of_ne_zero ht.ne'
    rw [List.take_left' (hfull (List.cons_ne_nil c rest)), List.take_succ_cons, List.take_succ_cons,
      List.take_zero, List.flatten_cons, List.flatten_cons, List.flatten_nil, List.append_nil]
    exact ⟨(rest.take t).flatten ++ tail, by simp only [List.append_assoc]⟩

theorem refilled_pos (C : StreamingDecoder) (chunks : List Bytes) : 0 < C.refilled chunks := by
  rw [refilled]
  split <;> omega

/-- A refill moves the second payload to the start and brings the next. -/
theorem window_ensureLength (hcut : Chunked C.dataSize chunks)
    (hms : List.Forall₂ C.Carries chunks ms) (hw : C.Window chunks ms k s)
    (hlost : ¬ C.Lost chunks k) (hlt : C.dataSize < s.payload) :
    C.Window chunks ms (k + 1) (C.ensureLength s) ∧
      (C.ensureLength s).payload = s.payload - C.dataSize := by
  have hdata := dataSize_add (C := C)
  have hheader := C.header_lt
  obtain ⟨hholds, hlength, hpayload, -, hqueue⟩ := hw
  -- there is more than one payload in the window
  obtain ⟨a, b, rest, hdrop⟩ : ∃ a b rest, chunks.drop k = a :: b :: rest := by
    rcases hdrop : chunks.drop k with _ | ⟨a, _ | ⟨b, rest⟩⟩
    · simp [held, hdrop] at hpayload
      omega
    · have ha := (hcut.drop k).length_le (c := a) (by simp [hdrop])
      simp [held, hdrop] at hpayload
      omega
    · exact ⟨a, b, rest, rfl⟩
  have hcut' : Chunked C.dataSize (a :: b :: rest) := hdrop ▸ hcut.drop k
  have ha := hcut'.length_head (List.cons_ne_nil b rest)
  have hb := hcut'.tail.length_le (c := b) List.mem_cons_self
  have hdrop₁ : chunks.drop (k + 1) = b :: rest := by
    rw [← List.drop_drop, hdrop, List.drop_one, List.tail_cons]
  have hdrop₂ : chunks.drop (k + 2) = rest := by
    rw [← List.drop_drop, hdrop, List.drop_succ_cons, List.drop_one, List.tail_cons]
  have hheld : held chunks k = a ++ b := by simp [held, hdrop]
  have hheld₁ : held chunks (k + 1) = b ++ (rest.take 1).flatten := by simp [held, hdrop₁]
  obtain ⟨z, hz⟩ := hholds
  rw [hheld, List.append_assoc] at hz
  have hbz : C.dataSize + (b ++ z).length = 2 * C.size := by
    rw [← hlength, ← hz, @List.length_append _ a, ha]
  have hmove : memcpy s.buffer 0 (s.buffer.drop C.dataSize) C.dataSize =
      (b ++ z).take C.dataSize ++ (b ++ z) := by
    rw [memcpy, ← hz, List.drop_left' ha, List.take_zero, List.nil_append, Nat.zero_add,
      List.drop_left' ha]
  have hmoved : ((b ++ z).take C.dataSize).length = C.dataSize := List.length_take_of_le (by omega)
  -- the messages that come next
  have hone : C.refilled (chunks.drop (k + 1)) = 1 := if_neg hlost
  have hqueue₂ : s.queue = ms.drop (k + 2) := by rw [hqueue, taken, hone]
  have hrest : List.Forall₂ C.Carries rest s.queue := by
    rw [hqueue₂, ← hdrop₂]
    exact List.forall₂_drop (k + 2) hms
  have htakes := takes_refilled hcut'.tail.tail hrest
  have hle : ∀ c ∈ rest.take (C.refilled rest), c.length ≤ C.dataSize := fun c hc =>
    hcut'.tail.tail.length_le (List.mem_of_mem_take hc)
  have hcarried := carried_of_carries (List.forall₂_take (C.refilled rest) hrest) hle
  have hfits := htakes.fits
  obtain ⟨copies, hread, -⟩ := read_of_takes (s := { s with
    buffer := memcpy s.buffer 0 (s.buffer.drop C.dataSize) C.dataSize
    decodedLength := s.decodedLength + C.dataSize }) htakes
  have hcopy := copyAll_of_carries (List.forall₂_take (C.refilled rest) hrest) hle C.dataSize
    (memcpy s.buffer 0 (s.buffer.drop C.dataSize) C.dataSize)
    (by rw [hmove, List.length_append, hmoved]; omega)
  rw [hmove, List.take_left' hmoved] at hcopy
  have hholds₁ := holds_refill z (((b ++ z).take C.dataSize ++ (b ++ z)).drop
    (C.dataSize + (rest.take (C.refilled rest)).flatten.length)) hb hcut'.tail.length_head
    (refilled_pos C rest)
  have hensure : (C.ensureLength s).buffer = (b ++ z).take C.dataSize ++
      (rest.take (C.refilled rest)).flatten ++ ((b ++ z).take C.dataSize ++ (b ++ z)).drop
        (C.dataSize + (rest.take (C.refilled rest)).flatten.length) ∧
      (C.ensureLength s).payload = s.payload - C.dataSize ∧
      (C.ensureLength s).queue = s.queue.drop (C.refilled rest) ∧
      (C.ensureLength s).payloadEnd = C.dataSize + (if s.queue = [] then 0
        else C.dataSize + (rest.take (C.refilled rest)).flatten.length) := by
    simp only [ensureLength, if_pos hlt, hread]
    rw [hmove, hcopy, hcarried]
    exact ⟨rfl, trivial, trivial, rfl⟩
  obtain ⟨hbuffer, hpay, hqueue', hend⟩ := hensure
  refine ⟨⟨?_, ?_, ?_, ?_, ?_⟩, hpay⟩
  · rw [hheld₁, hbuffer]
    exact hholds₁
  · rw [hbuffer]
    rw [List.length_append] at hbz
    simp only [List.length_append, List.length_drop, hmoved]
    omega
  · rw [hheld₁, hpay, List.length_append]
    rw [hheld, List.length_append] at hpayload
    omega
  · have hnil : s.queue = [] ↔ rest = [] := by
      rw [← List.length_eq_zero_iff, ← hrest.length_eq, List.length_eq_zero_iff]
    rw [hheld₁, hend, List.length_append]
    cases rest with
    | nil => simpa [hnil] using hb
    | cons c rest =>
      have hclen := hcut'.tail.tail.length_le (c := c) List.mem_cons_self
      simp only [List.take_succ_cons, List.take_zero, List.flatten_cons, List.flatten_nil,
        List.append_nil, hnil, reduceCtorEq, if_false]
      omega
  · rw [hqueue', hqueue₂, List.drop_drop, taken, hdrop₂]

/-- What a decode call consumes when its refill, if any, loses nothing. -/
theorem decode_of_window (hcut : Chunked C.dataSize chunks)
    (hms : List.Forall₂ C.Carries chunks ms) (hw : C.Window chunks ms k s)
    (hlost : C.dataSize < s.payload → ¬ C.Lost chunks k) {n : ℕ} (hn : n ≤ C.dataSize)
    (hend : k * C.dataSize + s.payload + n ≤ chunks.flatten.length) :
    ∃ k' s', C.decode n s =
        (some ((chunks.flatten.drop (k * C.dataSize + s.payload)).take n), s') ∧
      C.Window chunks ms k' s' ∧ k' * C.dataSize + s'.payload = k * C.dataSize + s.payload + n ∧
      k' = if C.dataSize < s.payload then k + 1 else k := by
  -- the window after `ensureLength`
  obtain ⟨k', hw', hpos, hk', hle⟩ : ∃ k', C.Window chunks ms k' (C.ensureLength s) ∧
      k' * C.dataSize + (C.ensureLength s).payload = k * C.dataSize + s.payload ∧
      (k' = if C.dataSize < s.payload then k + 1 else k) ∧
      (C.ensureLength s).payload ≤ C.dataSize := by
    by_cases hlt : C.dataSize < s.payload
    · obtain ⟨hw', hpayload⟩ := window_ensureLength hcut hms hw (hlost hlt) hlt
      have hle := hw.payload_le
      rw [held_eq hcut, List.length_take] at hle
      have hk : (k + 1) * C.dataSize = k * C.dataSize + C.dataSize := Nat.succ_mul k _
      exact ⟨k + 1, hw', by omega, (if_pos hlt).symm, by omega⟩
    · rw [ensureLength, if_neg hlt]
      exact ⟨k, hw, rfl, (if_neg hlt).symm, Nat.not_lt.1 hlt⟩
  have hheld := held_eq hcut k'
  have hlen := congrArg List.length hheld
  rw [List.length_take, List.length_drop] at hlen
  have hfits : (C.ensureLength s).payload + n ≤ (held chunks k').length := by omega
  refine ⟨k', { C.ensureLength s with payload := (C.ensureLength s).payload + n }, ?_, ?_, ?_, hk'⟩
  · rw [decode]
    simp only [if_pos (hfits.trans hw'.payloadEnd_ge), Prod.mk.injEq, Option.some.injEq, and_true]
    obtain ⟨tail, htail⟩ := hw'.holds
    rw [← htail, List.drop_append_of_le_length (by omega),
      List.take_append_of_le_length (by rw [List.length_drop]; omega), hheld, List.drop_take,
      List.drop_drop, hpos, List.take_take, min_eq_left (by omega)]
  · exact ⟨hw'.holds, hw'.length, hfits, hw'.payloadEnd_ge, hw'.queue⟩
  · dsimp only
    omega

/-- When no refill loses anything, decode calls consume the report. -/
theorem decodes_of_window (hcut : Chunked C.dataSize chunks)
    (hms : List.Forall₂ C.Carries chunks ms) (hlost : ∀ k, ¬ C.Lost chunks k) {ns : List ℕ}
    (hns : ∀ n ∈ ns, n ≤ C.dataSize) (hw : C.Window chunks ms k s)
    (hend : k * C.dataSize + s.payload + ns.sum ≤ chunks.flatten.length) :
    (runCalls C.decode ns s).1 = itemsOf ns (chunks.flatten.drop (k * C.dataSize + s.payload)) := by
  induction ns generalizing k s with
  | nil => rfl
  | cons n ns ih =>
    rw [List.sum_cons] at hend
    obtain ⟨k', s', hdecode, hw', hpos, -⟩ := decode_of_window hcut hms hw (fun _ => hlost k)
      (hns n List.mem_cons_self) (by omega)
    have htail := ih (fun n hn => hns n (List.mem_cons_of_mem _ hn)) hw' (by omega)
    simp only [runCalls, hdecode, itemsOf, htail, hpos, List.drop_drop]

/-! ## A refill that loses the last message -/

/-- After the refill there is nothing behind the first payload of the window. -/
theorem ensureLength_of_lost (hms : List.Forall₂ C.Carries chunks ms) (hw : C.Window chunks ms k s)
    (hlost : C.Lost chunks k) (hlt : C.dataSize < s.payload) :
    (C.ensureLength s).payload = s.payload - C.dataSize ∧
      (C.ensureLength s).payloadEnd = C.dataSize := by
  have hqueue : s.queue = [] := by
    have htwo : chunks.length - (k + 1) = 2 := by simpa using hlost.1
    rw [hw.queue, taken, show C.refilled (chunks.drop (k + 1)) = 2 from if_pos hlost,
      List.drop_eq_nil_iff, ← hms.length_eq]
    omega
  simp only [ensureLength, if_pos hlt, read, hqueue, if_true, Nat.add_zero, and_self]

/-- Decode calls of one byte cannot go past the first payload of the window. -/
theorem none_of_end {m : ℕ} (hpayload : s.payload ≤ C.dataSize) (hend : s.payloadEnd = C.dataSize)
    (hm : C.dataSize < s.payload + m) :
    none ∈ (runCalls C.decode (List.replicate m 1) s).1 := by
  induction m generalizing s with
  | zero => omega
  | succ m ih =>
    have hensure : C.ensureLength s = s := if_neg (Nat.not_lt.2 hpayload)
    by_cases hfits : s.payload + 1 ≤ s.payloadEnd
    · have htail := ih (s := { s with payload := s.payload + 1 }) (by dsimp only; omega) hend
        (by dsimp only; omega)
      simp only [List.replicate_succ, runCalls, decode, hensure, if_pos hfits]
      exact List.mem_cons_of_mem _ htail
    · simp only [List.replicate_succ, runCalls, decode, hensure, if_neg hfits]
      exact List.mem_cons_self

/-- Before a refill that loses the last message, decode calls of one byte do not reach the end. -/
theorem none_of_lost (hcut : Chunked C.dataSize chunks) (hms : List.Forall₂ C.Carries chunks ms)
    {l : ℕ} (hlost : C.Lost chunks l) (hlong : (l + 2) * C.dataSize < chunks.flatten.length)
    (hkl : k ≤ l) {m : ℕ} (hw : C.Window chunks ms k s)
    (hend : k * C.dataSize + s.payload + m = chunks.flatten.length) :
    none ∈ (runCalls C.decode (List.replicate m 1) s).1 := by
  have hdata : 0 < C.dataSize := by
    have := C.header_lt
    simp only [dataSize]
    omega
  have hl : (l + 2) * C.dataSize = l * C.dataSize + 2 * C.dataSize := Nat.add_mul l 2 _
  induction m generalizing k s with
  | zero =>
    have hle := hw.payload_le
    rw [held_eq hcut, List.length_take] at hle
    have hmul : k * C.dataSize ≤ l * C.dataSize := Nat.mul_le_mul_right _ hkl
    omega
  | succ m ih =>
    have hlast : C.dataSize < s.payload → C.Lost chunks k → k = l := by
      rintro - hk
      have htwo : chunks.length - (k + 1) = 2 := by simpa using hk.1
      have htwo' : chunks.length - (l + 1) = 2 := by simpa using hlost.1
      omega
    by_cases hnow : C.dataSize < s.payload ∧ k = l
    · obtain ⟨hlt, rfl⟩ := hnow
      obtain ⟨hpayload, hpayloadEnd⟩ := ensureLength_of_lost hms hw hlost hlt
      have hle := hw.payload_le
      rw [held_eq hcut, List.length_take] at hle
      have hagain : C.ensureLength (C.ensureLength s) = C.ensureLength s :=
        if_neg (by omega)
      have hnone := none_of_end (s := C.ensureLength s) (m := m + 1) (by omega) hpayloadEnd
        (by omega)
      simpa only [List.replicate_succ, runCalls, decode, hagain] using hnone
    · obtain ⟨k', s', hdecode, hw', hpos, hk'⟩ := decode_of_window hcut hms hw
        (fun hlt hk => hnow ⟨hlt, hlast hlt hk⟩) (n := 1) (by omega) (by omega)
      have hk'l : k' ≤ l := by
        rw [hk']
        split
        · rename_i hlt
          have hne : k ≠ l := fun hk => hnow ⟨hlt, hk⟩
          omega
        · exact hkl
      have htail := ih hk'l hw' (by omega)
      simp only [List.replicate_succ, runCalls, hdecode]
      exact List.mem_cons_of_mem _ htail

/-! ## A report that is received -/

/-- A report as an encoder cuts it: the last message is not empty. -/
structure Report (C : StreamingDecoder) (chunks : List Bytes) : Prop where
  cut : Chunked C.dataSize chunks
  last : 0 < lastLength chunks

/-- What the encoder of the same size makes of calls that succeed is a report. -/
theorem report_of_encode {ω : Type} {E : StreamingEncoder ω} {Z : ZcborStreamEncode}
    {item : EncodeOp → Bytes} {e : StreamingEncodeState ω} (hsize : E.dataSize = C.dataSize)
    (hZ : Z.AppendsItems item) (htype : E.reportType.isSome) (elementCount : ℕ) (out : ω)
    (calls : List EncodeOp) (hcalls : ∀ o ∈ calls, (item o).length ≤ E.dataSize)
    (hok : ∀ r ∈ (runCalls (E.encode Z) calls (E.new elementCount out)).1, r = true)
    (hflush : E.flush (runCalls (E.encode Z) calls (E.new elementCount out)).2 = (true, e)) :
    C.Report e.chunks := by
  obtain ⟨c, hc, hpos⟩ := E.getLast_of_encode hZ htype elementCount out calls hok hflush
  refine ⟨hsize ▸ (E.chunks_flush
    (E.encoded_runCalls hZ (E.encoded_new elementCount out) hcalls hok) hflush).2, ?_⟩
  rw [lastLength, hc]
  exact hpos

/-- While the report is incomplete its messages are queued. -/
theorem receiveAll_inner (h : ∀ m ∈ ms, m.type ≠ some .single ∧ m.type ≠ some .last)
    (s : StreamingDecodeState) : C.receiveAll ms s = { s with queue := s.queue ++ ms } := by
  induction ms generalizing s with
  | nil => simp [receiveAll]
  | cons m ms ih =>
    obtain ⟨hsingle, hlast⟩ := h m List.mem_cons_self
    rw [receiveAll, List.foldl_cons, ← receiveAll, ih fun m hm => h m (List.mem_cons_of_mem _ hm)]
    simp only [enqueue, hsingle, hlast, or_self, if_false, List.append_assoc, List.singleton_append]

/-- One more message in front that fits. -/
theorem takes_cons {pre post : List Message} (hm : C.Complete m)
    (h : C.Takes (pos + C.received m) ms pre post) : C.Takes pos (m :: ms) (m :: pre) post := by
  obtain ⟨rfl, hcomplete, hfits, hnext⟩ := h
  refine ⟨rfl, ?_, ?_, fun x hx => ?_⟩
  · simpa using ⟨hm, hcomplete⟩
  · rwa [carried_cons, ← Nat.add_assoc]
  · rw [carried_cons, ← Nat.add_assoc]
    exact hnext x hx

/-- The first messages of a report: two, or three if the last of these is short. -/
theorem takes_first (hcut : Chunked C.dataSize chunks) (h : List.Forall₂ C.Carries chunks ms) :
    C.Takes 0 ms (ms.take (C.taken chunks 0)) (ms.drop (C.taken chunks 0)) := by
  cases h with
  | nil => exact takes_of_carries [] .nil (by simp) (by simp) (by simp)
  | @cons c m cs ms hc hcs =>
    have hclen := hcut.length_le (c := c) List.mem_cons_self
    have hreceived := hc.received_eq hclen
    have htaken : C.taken (c :: cs) 0 = C.refilled cs + 1 := Nat.add_comm _ _
    rw [htaken, List.take_succ_cons, List.drop_succ_cons]
    apply takes_cons (hc.complete hclen)
    rw [Nat.zero_add, hreceived]
    cases hcs with
    | nil =>
      have hdata := dataSize_add (C := C)
      simpa using takes_of_carries [] (C := C) .nil (by simp)
        (by simp; omega) (by simp)
    | cons hd hcs =>
      rw [hcut.length_head (List.cons_ne_nil _ _)]
      exact takes_refilled hcut.tail (.cons hd hcs)

/-- When the report is complete, its first messages are in the window. -/
theorem window_receiveAll (hreport : C.Report chunks) (hms : C.Framed chunks ms) {stale : Bytes}
    (hstale : stale.length = 2 * C.size) :
    C.Window chunks ms 0 (C.receiveAll ms (C.new stale)) ∧
      (C.receiveAll ms (C.new stale)).payload = 1 := by
  obtain ⟨hcut, hlast⟩ := hreport
  obtain ⟨hcarries, hinner, hend⟩ := hms
  have hdata := dataSize_add (C := C)
  have hheader := C.header_lt
  have hne : chunks ≠ [] := by
    rintro rfl
    exact absurd hlast (lt_irrefl 0)
  have hms : ms ≠ [] := by
    rintro rfl
    exact hne (List.forall₂_nil_right_iff.1 hcarries)
  -- the last message completes the report
  have hreceive : C.receiveAll ms (C.new stale) =
      (C.enqueue (ms.getLast hms) { C.new stale with queue := ms.dropLast }).2 := by
    conv_lhs => rw [← List.dropLast_append_getLast hms]
    rw [receiveAll, List.foldl_append]
    change (C.enqueue (ms.getLast hms) (C.receiveAll ms.dropLast (C.new stale))).2 = _
    rw [receiveAll_inner hinner]
    rfl
  have htakes := takes_first hcut hcarries
  obtain ⟨copies, hread, -⟩ := read_of_takes (s := { C.new stale with queue := ms }) htakes
  have hle : ∀ c ∈ chunks.take (C.taken chunks 0), c.length ≤ C.dataSize := fun c hc =>
    hcut.length_le (List.mem_of_mem_take hc)
  have hcopy := copyAll_of_carries (List.forall₂_take (C.taken chunks 0) hcarries) hle 0 _
    (Nat.zero_le stale.length)
  have hcarried := carried_of_carries (List.forall₂_take (C.taken chunks 0) hcarries) hle
  have hfits := htakes.fits
  have hheld : (held chunks 0).length ≤ 2 * C.dataSize := by
    rw [held_eq hcut]
    exact List.length_take_le _ _
  have hheldpos : 0 < (held chunks 0).length := by
    have hle := lastLength_le chunks
    rw [held_eq hcut, List.length_take, Nat.zero_mul, List.drop_zero]
    omega
  rw [hreceive, enqueue, if_pos (hend _ (by rw [List.getLast?_eq_getLast_of_ne_nil hms]; rfl))]
  simp only [List.dropLast_append_getLast hms, hread]
  refine ⟨⟨?_, ?_, hheldpos, ?_, rfl⟩, trivial⟩
  · dsimp only [new]
    rw [hcopy, List.take_zero, List.nil_append, held, List.drop_zero]
    have htwo : 2 ≤ C.taken chunks 0 := by
      have := refilled_pos C (chunks.drop (0 + 1))
      rw [taken]
      omega
    exact (List.IsPrefix.flatten (List.take_prefix_take_left htwo)).trans (List.prefix_append _ _)
  · dsimp only [new]
    rw [hcopy]
    simp only [List.take_zero, List.nil_append, List.length_append, List.length_drop]
    omega
  · dsimp only
    omega

/-- Only a report of three messages or more with a short last one is lost in part. -/
theorem not_lost (hne : chunks.length ≤ 2 ∨ 2 * C.headerSize < lastLength chunks) (k : ℕ) :
    ¬ C.Lost chunks k := by
  rintro ⟨htwo, hshort⟩
  have hlength : chunks.length - (k + 1) = 2 := by simpa using htwo
  rw [lastLength_drop (by omega)] at hshort
  omega

/-- **Decode calls for items no larger than a message consume a report byte by byte, exactly when
it has at most two messages or the last one carries more than `2 * headerSize` bytes.** -/
theorem decode_iff (hreport : C.Report chunks) (hms : C.Framed chunks ms) {stale : Bytes}
    (hstale : stale.length = 2 * C.size) :
    (∀ ns : List ℕ, (∀ n ∈ ns, n ≤ C.dataSize) → ns.sum < chunks.flatten.length →
      (runCalls C.decode ns (C.receiveAll ms (C.new stale))).1 =
        itemsOf ns (chunks.flatten.drop 1)) ↔
    chunks.length ≤ 2 ∨ 2 * C.headerSize < lastLength chunks := by
  obtain ⟨hcut, hpos⟩ := hreport
  obtain ⟨hw, hpayload⟩ := window_receiveAll ⟨hcut, hpos⟩ hms hstale
  constructor
  · intro h
    by_contra hnot
    rw [not_or, Nat.not_le, Nat.not_lt] at hnot
    obtain ⟨hlength, hshort⟩ := hnot
    obtain ⟨l, hl⟩ : ∃ l, chunks.length = l + 3 := ⟨chunks.length - 3, by omega⟩
    have hlost : C.Lost chunks l :=
      ⟨by rw [List.length_drop]; omega, by rwa [lastLength_drop (by omega)]⟩
    -- the last message is behind `l + 2` full ones
    have hlong : (l + 2) * C.dataSize < chunks.flatten.length := by
      have hdrop := congrArg List.length (hcut.drop_flatten (l + 2))
      have hle := lastLength_le (chunks.drop (l + 2))
      rw [List.length_drop] at hdrop
      rw [lastLength_drop (by omega)] at hle
      omega
    have hle := lastLength_le chunks
    have hnone := none_of_lost hcut hms.carries hlost hlong (Nat.zero_le l)
      (m := chunks.flatten.length - 1) hw (by omega)
    have hdata : 1 ≤ C.dataSize := by
      have := C.header_lt
      simp only [dataSize]
      omega
    rw [h _ (fun n hn => by rw [List.eq_of_mem_replicate hn]; exact hdata)
      (by rw [List.sum_replicate_nat]; omega)] at hnone
    exact none_notMem_itemsOf hnone
  · intro hgood ns hns hsum
    rw [decodes_of_window hcut hms.carries (not_lost hgood) hns hw (by omega), hpayload,
      Nat.zero_mul, Nat.zero_add]

end StreamingDecoder

/-! ## Reports -/

/-- A decoder of CAN frames of two bytes. -/
def canDecoderTwo : StreamingDecoder := canDecoder 2 (Nat.succ_pos 1) (by decide)

/-- Frames of two bytes, the last one of one byte. -/
def threeFrames : List Message :=
  [⟨some .first, [0x1F, 1], 2⟩, ⟨some .consecutive, [2, 3], 2⟩, ⟨some .last, [4, 0], 1⟩]

/-- All that the frames carry is consumed. -/
theorem threeFrames_decode :
    (runCalls canDecoderTwo.decode [1, 2, 1]
      (canDecoderTwo.receiveAll threeFrames (canDecoderTwo.new [0, 0, 0, 0]))).1 =
        [some [1], some [2, 3], some [4]] := by
  have hreport : canDecoderTwo.Report [[0x1F, 1], [2, 3], [4]] :=
    ⟨⟨by decide, by decide⟩, by decide⟩
  have hframed : canDecoderTwo.Framed [[0x1F, 1], [2, 3], [4]] threeFrames :=
    ⟨.cons ⟨rfl, rfl⟩ (.cons ⟨rfl, rfl⟩ (.cons ⟨rfl, rfl⟩ .nil)), by decide, by decide⟩
  exact (StreamingDecoder.decode_iff hreport hframed (show [0, 0, 0, 0].length = 4 from rfl)).2
    (.inr (by decide)) [1, 2, 1] (by decide) (by decide)

/-- A datagram with a payload behind its header. -/
def datagram (type sequenceNumber : UInt8) (payload : Bytes) : Message :=
  udpMessage ((type ||| sequenceNumber) :: 0 :: payload) (2 + payload.length)

/-- A report of two byte strings and a number: two full datagrams, and a last one of one byte. -/
def byteStrings : List Bytes :=
  [0x1F :: 0x59 :: 0x01 :: 0xFA :: List.replicate 506 0xAA,
    0x59 :: 0x01 :: 0xFB :: List.replicate 507 0xBB, [0x05]]

/-- Their datagrams. -/
def byteStringDatagrams : List Message :=
  List.zipWith₃ datagram [0x00, 0x10, 0x20] [0, 1, 2] byteStrings

/-- The two byte strings are consumed, but the number is not there. -/
theorem byteStrings_lost :
    udpDecoder.Report byteStrings ∧ udpDecoder.Framed byteStrings byteStringDatagrams ∧
      (runCalls udpDecoder.decode [509, 510, 1]
        (udpDecoder.receiveAll byteStringDatagrams (udpDecoder.new (List.replicate 1024 0)))).1 ≠
          StreamingDecoder.itemsOf [509, 510, 1] (byteStrings.flatten.drop 1) := by
  refine ⟨⟨⟨?_, ?_⟩, ?_⟩, ⟨.cons ⟨?_, ?_⟩ (.cons ⟨?_, ?_⟩ (.cons ⟨?_, ?_⟩ .nil)), ?_, ?_⟩, ?_⟩
  all_goals decide +kernel

end ThingSet
