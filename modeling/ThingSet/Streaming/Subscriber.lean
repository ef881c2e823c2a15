import ThingSet.Evolution.Reading
import ThingSet.Persistence.Load
import ThingSet.Server.Publish
import ThingSet.Streaming.Subscription

/-!
# ThingSetListener

`ThingSetListener::subscribe` decodes a report into the nodes of its own registry: for each pair the node with the id
is looked up and decoded, and the subscriber is told the id. At the first id without a node that can be decoded it
leaves the rest of the report. Access rights play no role.

* `Registry.subscribe`: what is done with a report.
* `ReadsBack`: a value that is encoded on one side is decoded on the other.
* `replicated_of_publish`: the values of a publication are taken over by the subscriber, up to the first id that it
  leaves the report at.
-/

namespace ThingSet

open Interaction Prog Cbor StreamReader Transition

/-! ## The listener -/

section

variable {ι V A : Type} [DecidableEq ι]

/-- The callback of `decodeMap` in `subscribe`. The second component has the ids that the callback of the subscriber
is called with. -/
def Registry.subscribeEntry (R : Registry ι V A) (c : World ι V A × List ℕ) (id : ℕ) :
    Decoding (Bool × (World ι V A × List ℕ)) :=
  match R.findById id with
  | none => pure (false, c)
  | some node =>
    if (R.node node).kind.tryCastTo .decodable then do
      let (decoded, w) ← R.decodeNode c.1 node
      if decoded then pure (true, (w, c.2 ++ [id])) else pure (false, (w, c.2))
    else pure (false, c)

/-- `ThingSetListener::subscribe`: what is done with the decoder of a report. -/
def Registry.subscribe (R : Registry ι V A) (w : World ι V A) : Decoding (World ι V A × List ℕ) := do
  match ← decode (.uint .w16) with
  | none => pure (w, [])
  | some _ =>
    let (_, c) ← decodeMapById R.subscribeEntry (w, [])
    pure c

end

/-! ## Values -/

/-- What is decoded from `bytes`, wherever these are, is the value `v`. The calls look at no more than `width` bytes,
and `k` containers can be entered. -/
def ReadsBack {T : Type} (Z : ZcborDecode) (width k : ℕ) (bytes : Bytes) (p : T → Decoding (Decoded T)) (v : T) : Prop :=
  ∀ (old : T) (s : ZcborState) (rest : Bytes), s.elemCount ≠ 0 → s.backups.length + 2 + k ≤ s.depth →
    s.remaining = bytes ++ rest →
      ∃ s', run (plain Z) (p old) s = (⟨true, some v⟩, s') ∧ s.Reads bytes.length 1 s' ∧
        EachCall (plain Z) (Servable (options Z) width) (p old) s

variable {Z : ZcborDecode} {width k n : ℕ} {s s' : ZcborState} {rest bytes : Bytes}

theorem uint8_eq_narrowUInt (Z : ZcborDecode) (s : ZcborState) :
    plain Z (.uint .w8) s = BinaryDecoder.narrowUInt (options Z) 255 s := rfl

theorem uint16_eq_narrowUInt (Z : ZcborDecode) (s : ZcborState) :
    plain Z (.uint .w16) s = BinaryDecoder.narrowUInt (options Z) 65535 s := rfl

/-- A number that is decoded as one of 8 or 16 bits: it is less than the largest of these. -/
theorem narrow_spec (hZ : Z.ItemLaws) {w : IntWidth} {max : ℕ}
    (hw : ∀ s, plain Z (.uint w) s = BinaryDecoder.narrowUInt (options Z) max s) (hn : n < 2 ^ 32) (hwidth : 5 ≤ width)
    (hcount : s.elemCount ≠ 0) (hs : s.remaining = writeHead 0 n ++ rest) :
    ∃ s', run (plain Z) (decode (.uint w)) s = (if n < max then some n else none, s') ∧
      s.Reads (writeHead 0 n).length 1 s' ∧
        EachCall (plain Z) (Servable (options Z) width) (decode (.uint w)) s := by
  have hread (t : ZcborState) (rest : Bytes) (hcount : t.elemCount ≠ 0) (ht : t.remaining = writeHead 0 n ++ rest) :
      (plain Z (.uint w) t).1 = (if n < max then some n else none) ∧
        t.Reads (writeHead 0 n).length 1 (plain Z (.uint w) t).2 := by
    obtain ⟨hvalue, hadvances, hcount', hindefinite, hbackups⟩ := hZ.uint32 t n rest hn hcount ht
    have hdecode : Z.uint32Decode t = (some n, (Z.uint32Decode t).2) := Prod.ext hvalue rfl
    rw [hw, BinaryDecoder.narrowUInt, show (options Z).zcbor = Z from rfl, hdecode]
    exact ⟨rfl, hadvances, hcount', hindefinite, hbackups⟩
  obtain ⟨hresult, hreads⟩ := hread s rest hcount hs
  refine ⟨(plain Z (.uint w) s).2, Prod.ext hresult rfl, hreads, ⟨by simp, .inr (.inr ?_)⟩, trivial⟩
  have hlen := ThingSetPersistence.length_writeHead_le_five 0 hn
  exact needs_of_item hs (hlen.trans hwidth) fun t rest' hsimilar ht => hread t rest' (by rwa [hsimilar.elemCount]) ht

/-- A `uint8_t` is read back, unless it is 255. -/
theorem readsBack_uint8 (hZ : Z.ItemLaws) (hwidth : 5 ≤ width) (hn : n < 255) :
    ReadsBack Z width k (bytesOf (codecUInt8.encode n)) codecUInt8.decode n := by
  intro old s rest hcount hdepth hs
  have hbytes : bytesOf (codecUInt8.encode n) = writeHead 0 n := bytesOf_call (o := .uint .w8 n) rfl
  rw [hbytes] at hs ⊢
  obtain ⟨s', hrun, hreads, heach⟩ := narrow_spec hZ (uint8_eq_narrowUInt Z) (by omega) hwidth hcount hs
  rw [if_pos hn] at hrun
  refine ⟨s', ?_, hreads, ?_⟩
  · change run (plain Z) (decodeScalar (.uint .w8) rfl old) s = _
    unfold decodeScalar
    rw [run_bind, hrun]
    rfl
  · change EachCall (plain Z) (Servable (options Z) width) (decodeScalar (.uint .w8) rfl old) s
    unfold decodeScalar
    rw [eachCall_bind]
    exact ⟨heach, trivial⟩

theorem servable_ensureListSize (size : ℕ) (s : ZcborState) : Servable (options Z) width (.ensureListSize size) s := by
  refine ⟨by simp, .inr (.inr ⟨0, Nat.zero_le _, Nat.zero_le _, fun t ht _ => ?_⟩)⟩
  have hcall (s : ZcborState) : binaryDecoder (options Z) (.ensureListSize size) s =
      (if s.elemCount < size then none else some s.elemCount, s) := by
    change BinaryDecoder.ensureListSize (options Z) size s = _
    unfold BinaryDecoder.ensureListSize
    split_ifs <;> simp_all [options]
  rw [hcall, hcall, ht.elemCount]
  exact ⟨rfl, (ZcborState.Reads.refl t).toAdvances, ht⟩

/-- A container that is entered and left: both calls can be served. -/
theorem servable_container {f g : ZcborState → Bool × ZcborState} {major perEntry : ℕ} {head content : Bytes}
    (hf : ZcborDecode.Enters f major perEntry) (hg : ZcborDecode.Leaves g) (hhead : IsHead head major n)
    (hwidth : head.length ≤ width) (hcount : s.elemCount ≠ 0) (hdepth : s.backups.length + 2 < s.depth)
    (hs : s.remaining = head ++ (content ++ rest)) :
    Needs f width s ∧ ∃ s₁, f s = (true, s₁) ∧ s₁.backups.length = s.backups.length + 1 ∧ s₁.depth = s.depth ∧
      s₁.elemCount = perEntry * n ∧ s₁.remaining = content ++ rest ∧
        ∀ s₂, s₁.Reads content.length (perEntry * n) s₂ →
          Needs g width s₂ ∧ ∃ s', g s₂ = (true, s') ∧ s.Reads (head ++ content).length 1 s' := by
  obtain ⟨s₁, hstart, hbackups₁, hdepth₁, hcount₁, hs₁, hleave⟩ := hf.spec hg hhead hcount hdepth hs
  refine ⟨needs_of_enters hf hhead hcount hdepth hs hwidth, s₁, hstart, hbackups₁, hdepth₁, hcount₁, hs₁, fun s₂ h₂ => ?_⟩
  obtain ⟨-, -, -, hindefinite, b, hbackups, -⟩ := hf s head n _ hhead hcount hdepth hs
  rw [hstart] at hindefinite hbackups
  have hcount₂ := h₂.elemCount
  refine ⟨needs_of_leaves hg (h₂.backups.trans hbackups) (h₂.indefinite.trans hindefinite) (by omega), hleave s₂ h₂⟩

/-- The elements of a list are read back one after the other. -/
theorem readsBack_elements {T : Type} {elem : T → Decoding (Decoded T)} {bytes : ℕ → Bytes} {v : ℕ → T} (n i : ℕ)
    (a : ArrayMemory T) (hread : ∀ j, i ≤ j → j < i + n → ReadsBack Z width k (bytes j) elem (v j))
    (hdepth : s.backups.length + 2 + k ≤ s.depth) (hcount : n ≤ s.elemCount)
    (hs : s.remaining = (List.range' i n).flatMap bytes ++ rest) :
    ∃ a' s', run (plain Z) (decodeElements elem n i a) s = ((true, a'), s') ∧
      (∀ j, a'.value j = if i ≤ j ∧ j < i + n then v j else a.value j) ∧
      s.Reads ((List.range' i n).flatMap bytes).length n s' ∧
      EachCall (plain Z) (Servable (options Z) width) (decodeElements elem n i a) s := by
  induction n generalizing i a s with
  | zero =>
    refine ⟨a, s, rfl, fun j => ?_, .refl s, trivial⟩
    rw [if_neg (by omega)]
  | succ n ih =>
    rw [List.range'_succ, List.flatMap_cons, List.append_assoc] at hs
    obtain ⟨s₁, hrun₁, h₁, heach₁⟩ := hread i (Nat.le_refl i) (by omega) (a.value i) s _ (by omega) hdepth hs
    have hcount₁ := h₁.elemCount
    obtain ⟨a', s₂, hrun₂, hvalues, h₂, heach₂⟩ := ih (s := s₁) (i + 1) (a.store i (some (v i)))
      (fun j hle hlt => hread j (by omega) (by omega)) (by rw [h₁.backups, h₁.depth]; exact hdepth) (by omega)
      (h₁.toAdvances.remaining hs)
    refine ⟨a', s₂, ?_, fun j => ?_, ?_, ?_⟩
    · rw [run_decodeElements_succ]
      dsimp only
      rw [hrun₁, if_pos rfl]
      exact hrun₂
    · rw [hvalues, ArrayMemory.store]
      by_cases hj : j = i
      · subst hj
        rw [if_neg (by omega), if_pos (by omega)]
        exact if_pos rfl
      · by_cases hin : i + 1 ≤ j ∧ j < i + 1 + n
        · rw [if_pos hin, if_pos (by omega)]
        · rw [if_neg hin, if_neg (by omega)]
          exact if_neg hj
    · rw [List.range'_succ, List.flatMap_cons, List.length_append, Nat.add_comm n]
      exact h₁.trans h₂
    · rw [decodeElements, eachCall_bind, hrun₁]
      exact ⟨heach₁, heach₂⟩

/-- A list is read back into an array of its size. -/
theorem readsBack_array {T : Type} {elem : T → Decoding (Decoded T)} {bytes : ℕ → Bytes} {v : ℕ → T} {size : ℕ}
    (hZ : Z.ItemLaws) (hsize : size < 2 ^ 32) (hwidth : 5 ≤ width) (hk : 0 < k)
    (hread : ∀ i < size, ReadsBack Z width (k - 1) (bytes i) elem (v i)) (a : ArrayMemory T) (hcount : s.elemCount ≠ 0)
    (hdepth : s.backups.length + 2 + k ≤ s.depth)
    (hs : s.remaining = (writeHead 4 size ++ (List.range size).flatMap bytes) ++ rest) :
    ∃ a' s', run (plain Z) (decodeArray elem size a) s = ((true, a'), s') ∧
      (∀ i, a'.value i = if i < size then v i else a.value i) ∧
      s.Reads (writeHead 4 size ++ (List.range size).flatMap bytes).length 1 s' ∧
      EachCall (plain Z) (Servable (options Z) width) (decodeArray elem size a) s := by
  rw [List.range_eq_range'] at hs ⊢
  rw [List.append_assoc] at hs
  have hhead : IsHead (writeHead 4 size) 4 size := isHead_writeHead (by decide) (by omega)
  have hlen := ThingSetPersistence.length_writeHead_le_five 4 hsize
  obtain ⟨hstartServed, s₁, hstart, hbackups₁, hdepth₁, hcount₁, hs₁, hleave⟩ := servable_container hZ.listStart
    hZ.listEnd hhead (hlen.trans hwidth) hcount (by omega) hs
  rw [Nat.one_mul] at hcount₁ hleave
  obtain ⟨a', s₂, hrun, hvalues, hreads, heach⟩ := readsBack_elements (s := s₁) size 0 a
    (fun i _ hi => hread i (by omega)) (by rw [hbackups₁, hdepth₁]; omega) (by omega) hs₁
  obtain ⟨hstopServed, s', hstop, hreads'⟩ := hleave s₂ hreads
  have hstart' : run (plain Z) (decode .listStart) s = (true, s₁) := hstart
  have hensure : run (plain Z) (decode (.ensureListSize size)) s₁ = (some size, s₁) := by
    change BinaryDecoder.ensureListSize (options Z) size s₁ = _
    rw [BinaryDecoder.ensureListSize, if_neg (by omega), hcount₁]
  have hstop' : run (plain Z) (decode .listEnd) s₂ = (true, s') := hstop
  refine ⟨a', s', ?_, fun i => ?_, hreads', ?_⟩
  · rw [decodeArray, run_bind, hstart']
    dsimp only
    rw [Bool.not_true, if_neg Bool.false_ne_true, run_bind, hensure]
    dsimp only
    rw [run_bind, hrun]
    dsimp only
    rw [Bool.not_true, if_neg Bool.false_ne_true, run_bind, hstop']
    rfl
  · rw [hvalues, Nat.zero_add]
    simp only [Nat.zero_le, true_and]
  · rw [decodeArray, eachCall_bind, hstart']
    refine ⟨⟨⟨by simp, .inr (.inr hstartServed)⟩, trivial⟩, ?_⟩
    dsimp only
    rw [Bool.not_true, if_neg Bool.false_ne_true, eachCall_bind, hensure]
    refine ⟨⟨servable_ensureListSize size s₁, trivial⟩, ?_⟩
    dsimp only
    rw [eachCall_bind, hrun]
    refine ⟨heach, ?_⟩
    dsimp only
    rw [Bool.not_true, if_neg Bool.false_ne_true, eachCall_bind]
    exact ⟨⟨⟨by simp, .inr (.inr hstopServed)⟩, trivial⟩, trivial⟩

/-! ## What an array encodes -/

theorem trace_separated (p : Encoding Bool) :
    trace binaryAnswer (encodeAll [p, encode .listSeparator]) =
      ((trace binaryAnswer p).1, (trace binaryAnswer p).2 ++ if (trace binaryAnswer p).1 then [.listSeparator] else []) := by
  rw [encodeAll, trace_bind]
  cases (trace binaryAnswer p).1 <;> rfl

/-- The loop of an array returns true when all elements do, and then it encodes their bytes. -/
theorem trace_encodeElements {ps : List (Encoding Bool)} {result : Bool}
    (h : (trace binaryAnswer (encodeElements ps result)).1 = true) :
    result = true ∧ (trace binaryAnswer (encodeElements ps result)).2.flatMap itemReference = ps.flatMap bytesOf := by
  induction ps generalizing result with
  | nil => exact ⟨h, rfl⟩
  | cons p ps ih =>
    have htrace : trace binaryAnswer (encodeElements (p :: ps) result) = _ := trace_bind _ _
    rw [htrace, trace_separated] at h
    obtain ⟨hand, hbytes⟩ := ih h
    rw [Bool.and_eq_true] at hand
    refine ⟨hand.1, ?_⟩
    have hseparator : [EncodeOp.listSeparator].flatMap itemReference = [] := rfl
    rw [htrace, trace_separated, List.flatMap_append, hbytes, hand.2, if_pos rfl, List.flatMap_append, hseparator,
      List.append_nil, List.flatMap_cons, bytesOf]

/-- The bytes of an array. -/
theorem bytesOf_encodeArray {element : ℕ → Encoding Bool} {size : ℕ}
    (h : (trace binaryAnswer (encodeArray element size)).1 = true) :
    bytesOf (encodeArray element size) = writeHead 4 size ++ (List.range size).flatMap fun i => bytesOf (element i) := by
  have htrace : trace binaryAnswer (encodeArray element size) =
      let r := trace binaryAnswer (encodeElements ((List.range size).map element) true)
      (r.1, .renderedListLength size :: .listStart (some size) ::
        (r.2 ++ if r.1 then [.listEnd (some size)] else [])) := by
    have hlength : trace binaryAnswer (encode (.renderedListLength size)) = (size, [.renderedListLength size]) := rfl
    have hstart : trace binaryAnswer (encode (.listStart (some size))) = (true, [.listStart (some size)]) := rfl
    unfold encodeArray
    rw [trace_bind, hlength]
    dsimp only
    rw [trace_bind, hstart]
    dsimp only
    rw [trace_bind, if_neg (lt_irrefl size), trace_bind, trace_pure]
    dsimp only
    cases (trace binaryAnswer (encodeElements ((List.range size).map element) true)).1 <;> rfl
  rw [htrace] at h
  dsimp only at h
  have hbytes := (trace_encodeElements h).2
  have hend : [EncodeOp.listEnd (some size)].flatMap itemReference = [] := rfl
  rw [bytesOf, htrace]
  dsimp only
  rw [h, if_pos rfl, List.flatMap_cons, List.flatMap_cons, List.flatMap_append, hbytes, hend, List.append_nil,
    List.flatMap_map]
  rfl

/-! ## Nodes -/

section Nodes

variable {ι ι' V A A' : Type} [DecidableEq ι'] {P : ThingSetPersistence ι V A} {R : Registry ι' V A'}
  {w : World ι V A} {node : ι} {node' : ι'}

/-- What a node of the subscriber decodes is what the node of the publisher encodes: both have a value, or both an array
of records of the same size. -/
inductive Matches (Z : ZcborDecode) (width : ℕ) (w : World ι V A) (node : ι) : NodeKind ι V A → NodeKind ι' V A' → Prop
  | property {c c' : Codec V} :
    ReadsBack Z width 5 (bytesOf (c.encode (w.values node))) c'.decode (w.values node) →
      Matches Z width w node (.property c) (.property c')
  | recordArray {c c' : Codec V} {size : ℕ} {hsize hsize' : size ≤ sizeMax} : size < 2 ^ 32 →
    (∀ i < size, ReadsBack Z width 4 (bytesOf (c.encode (w.elements node i))) c'.decode (w.elements node i)) →
      Matches Z width w node (.recordArray c size hsize) (.recordArray c' size hsize')

/-- A node of the subscriber has got what a node of the publisher has. -/
def Registry.takeOver (R : Registry ι' V A') (w : World ι V A) (node : ι) (w' : World ι' V A') (node' : ι') :
    World ι' V A' :=
  match (R.node node').kind with
  | .property _ => w'.setValue node' (w.values node)
  | .recordArray _ size _ =>
    w'.setElements node' fun i => if i < size then w.elements node i else w'.elements node' i
  | _ => w'

/-- What a node encodes is decoded into the node that matches it. -/
theorem run_decodeNode_of_matches (hZ : Z.ItemLaws) (hwidth : 5 ≤ width)
    (hmatches : Matches Z width w node (P.registry.node node).kind (R.node node').kind)
    (hok : (trace binaryAnswer (P.registry.encodeNode w sizeMax node)).1 = true) (w' : World ι' V A')
    (hcount : s.elemCount ≠ 0) (hdepth : s.backups.length + 2 + 5 ≤ s.depth)
    (hs : s.remaining = bytesOf (P.registry.encodeNode w sizeMax node) ++ rest) :
    ∃ s', run (plain Z) (R.decodeNode w' node') s = ((true, R.takeOver w node w' node'), s') ∧
      s.Reads (bytesOf (P.registry.encodeNode w sizeMax node)).length 1 s' ∧
        EachCall (plain Z) (Servable (options Z) width) (R.decodeNode w' node') s := by
  obtain ⟨fuel, hfuel⟩ : ∃ fuel, sizeMax = fuel + 1 := ⟨sizeMax - 1, rfl⟩
  rw [hfuel] at hok hs ⊢
  unfold Registry.encodeNode at hok hs ⊢
  unfold Registry.decodeNode Registry.takeOver
  generalize (P.registry.node node).kind = kind at hmatches hok hs ⊢
  generalize (R.node node').kind = kind' at hmatches ⊢
  cases hmatches with
  | property hread =>
    obtain ⟨s', hrun, hreads, heach⟩ := hread (w'.values node') s rest hcount hdepth hs
    refine ⟨s', ?_, hreads, ?_⟩
    · dsimp only
      rw [run_bind, hrun]
      rfl
    · dsimp only
      rw [eachCall_bind]
      exact ⟨heach, trivial⟩
  | @recordArray c c' size _ _ hsize hread =>
    dsimp only at hok hs ⊢
    rw [bytesOf_encodeArray hok] at hs ⊢
    obtain ⟨a', s', hrun, hvalues, hreads, heach⟩ := readsBack_array hZ hsize hwidth (by decide) hread
      ⟨w'.elements node', []⟩ hcount hdepth hs
    refine ⟨s', ?_, hreads, ?_⟩
    · rw [run_bind, hrun]
      have helements : a'.value = fun i => if i < size then w.elements node i else w'.elements node' i := by
        funext i
        exact hvalues i
      rw [← helements]
      rfl
    · rw [eachCall_bind]
      exact ⟨heach, trivial⟩

/-- The node of the subscriber that a value is decoded into, if there is one. An id of 65535 is not decoded. -/
def Registry.target (R : Registry ι' V A') (id : ℕ) : Option ι' :=
  if id < 65535 then (R.findById id).filter fun node' => (R.node node').kind.tryCastTo .decodable else none

/-- What the subscriber takes over of the nodes of a publication, up to the first that it has no node for. -/
def Registry.takeOverAll (R : Registry ι' V A') (registry : Registry ι V A) (w : World ι V A) :
    List ι → World ι' V A' × List ℕ → World ι' V A' × List ℕ
  | [], c => c
  | node :: nodes, c =>
    match R.target (registry.node node).id with
    | none => c
    | some node' =>
      takeOverAll R registry w nodes (R.takeOver w node c.1 node', c.2 ++ [(registry.node node).id])

/-- The nodes of a publication can be taken over: what they encode is decoded by the nodes with their ids. -/
def Understood (Z : ZcborDecode) (width : ℕ) (registry : Registry ι V A) (w : World ι V A) (R : Registry ι' V A')
    (node : ι) : Prop :=
  (trace binaryAnswer (registry.encodeNode w sizeMax node)).1 = true ∧
    ∀ node' ∈ R.target (registry.node node).id, Matches Z width w node (registry.node node).kind (R.node node').kind

section Entry

variable {c : World ι' V A' × List ℕ} (hZ : Z.ItemLaws) (hwidth : 5 ≤ width) (hcount : s.elemCount ≠ 0)
  (hs : s.remaining = P.pairOf w node ++ rest)

include hZ hwidth hcount hs

/-- The subscriber leaves a report at a node that it has none for. -/
theorem run_round_of_none (htarget : R.target (P.registry.node node).id = none) :
    ∃ s', run (plain Z) (decodeMapByIdRound R.subscribeEntry c) s = (.inr (false, c), s') ∧
      EachCall (plain Z) (Servable (options Z) width) (decodeMapByIdRound R.subscribeEntry c) s := by
  have hid_lt : (P.registry.node node).id < 2 ^ 32 := (P.registry.node node).id_lt.trans (by decide)
  rw [ThingSetPersistence.pairOf, List.append_assoc] at hs
  obtain ⟨s₁, hkey, -, heach⟩ := narrow_spec hZ (uint16_eq_narrowUInt Z) hid_lt hwidth hcount hs
  have hinMap : run (plain Z) (decode .isInMap) s = (true, s) := Prod.ext (decide_eq_true hcount) rfl
  have hserved : EachCall (plain Z) (Servable (options Z) width) (decode .isInMap) s := ⟨⟨by simp, .inl rfl⟩, trivial⟩
  unfold decodeMapByIdRound
  rw [run_bind, eachCall_bind, hinMap]
  dsimp only
  rw [if_pos rfl, run_bind, eachCall_bind, hkey]
  by_cases hid : (P.registry.node node).id < 65535
  · rw [if_pos hid]
    rw [Registry.target, if_pos hid] at htarget
    have hentry : R.subscribeEntry c (P.registry.node node).id = pure (false, c) := by
      unfold Registry.subscribeEntry
      cases hfind : R.findById (P.registry.node node).id with
      | none => rfl
      | some node' =>
        rw [hfind] at htarget
        have hnot : ¬ (R.node node').kind.tryCastTo .decodable = true := by
          intro hdecodable
          rw [Option.filter_some, if_pos hdecodable] at htarget
          cases htarget
        dsimp only
        rw [if_neg hnot]
    dsimp only
    rw [hentry]
    exact ⟨s₁, rfl, hserved, heach, trivial⟩
  · rw [if_neg hid]
    exact ⟨s₁, rfl, hserved, heach, trivial⟩

/-- The value of a node is taken over by the node with its id. -/
theorem run_round_of_some (htarget : R.target (P.registry.node node).id = some node')
    (hnode : Understood Z width P.registry w R node) (hdepth : s.backups.length + 2 + 5 ≤ s.depth)
    (hcount₂ : 2 ≤ s.elemCount) :
    ∃ s', run (plain Z) (decodeMapByIdRound R.subscribeEntry c) s =
        (.inl (R.takeOver w node c.1 node', c.2 ++ [(P.registry.node node).id]), s') ∧
      s.Reads (P.pairOf w node).length 2 s' ∧
      EachCall (plain Z) (Servable (options Z) width) (decodeMapByIdRound R.subscribeEntry c) s := by
  have hid_lt : (P.registry.node node).id < 2 ^ 32 := (P.registry.node node).id_lt.trans (by decide)
  rw [ThingSetPersistence.pairOf, List.append_assoc] at hs
  obtain ⟨s₁, hkey, hreads₁, heach⟩ := narrow_spec hZ (uint16_eq_narrowUInt Z) hid_lt hwidth hcount hs
  have hid : (P.registry.node node).id < 65535 := by
    by_contra hid
    rw [Registry.target, if_neg hid] at htarget
    cases htarget
  have hfilter := htarget
  rw [Registry.target, if_pos hid, Option.filter_eq_some_iff] at hfilter
  obtain ⟨hfind, hdecodable⟩ := hfilter
  have hcount₁ := hreads₁.elemCount
  obtain ⟨s₂, hdecode, hreads₂, heach₂⟩ := run_decodeNode_of_matches (s := s₁) hZ hwidth (hnode.2 node' htarget) hnode.1
    c.1 (by omega) (by rw [hreads₁.backups, hreads₁.depth]; exact hdepth) (hreads₁.toAdvances.remaining hs)
  have hinMap : run (plain Z) (decode .isInMap) s = (true, s) := Prod.ext (decide_eq_true hcount) rfl
  have hserved : EachCall (plain Z) (Servable (options Z) width) (decode .isInMap) s := ⟨⟨by simp, .inl rfl⟩, trivial⟩
  refine ⟨s₂, ?_, ?_, ?_⟩
  · unfold decodeMapByIdRound Registry.subscribeEntry
    rw [run_bind, hinMap]
    dsimp only
    rw [if_pos rfl, run_bind, hkey, if_pos hid]
    dsimp only
    rw [hfind]
    dsimp only
    rw [if_pos hdecodable, run_bind, run_bind, hdecode]
    rfl
  · rw [ThingSetPersistence.pairOf, List.length_append]
    exact hreads₁.trans hreads₂
  · unfold decodeMapByIdRound Registry.subscribeEntry
    rw [eachCall_bind, hinMap]
    refine ⟨hserved, ?_⟩
    dsimp only
    rw [if_pos rfl, eachCall_bind, hkey, if_pos hid]
    refine ⟨heach, ?_⟩
    dsimp only
    rw [hfind]
    dsimp only
    rw [if_pos hdecodable, eachCall_bind, eachCall_bind, run_bind, hdecode]
    exact ⟨⟨heach₂, trivial⟩, trivial⟩

end Entry

/-- The subscriber has nodes for all nodes of a publication. -/
def Registry.hasAll (R : Registry ι' V A') (registry : Registry ι V A) (nodes : List ι) : Bool :=
  nodes.all fun node => (R.target (registry.node node).id).isSome

/-- The pairs of a map are taken over, up to the first that the subscriber has no node for. -/
theorem run_subscribeEntries (hZ : Z.ItemLaws) (hwidth : 5 ≤ width) (nodes : List ι)
    (hnodes : ∀ node ∈ nodes, Understood Z width P.registry w R node) (bound : ℕ) (hbound : nodes.length < bound)
    (c : World ι' V A' × List ℕ) {b : ZcborBackup} {backups : List ZcborBackup} (hbackups : s.backups = b :: backups)
    (hindefinite : s.indefinite = false) (hdepth : backups.length + 1 + 2 + 5 ≤ s.depth)
    (hcount : s.elemCount = 2 * nodes.length) (hs : s.remaining = nodes.flatMap (P.pairOf w) ++ rest) :
    let p := repeatUntil (fun c => (false, c)) (decodeMapByIdRound R.subscribeEntry) bound c
    (run (plain Z) p s).1 = (R.hasAll P.registry nodes, R.takeOverAll P.registry w nodes c) ∧
      (R.hasAll P.registry nodes = true → (run (plain Z) p s).2.remaining = rest) ∧
      EachCall (plain Z) (Servable (options Z) width) p s := by
  obtain ⟨bound, rfl⟩ : ∃ m, bound = m + 1 := ⟨bound - 1, by omega⟩
  dsimp only
  induction nodes generalizing s c bound with
  | nil =>
    obtain ⟨hended, hadvances, -⟩ := hZ.mapEnd s b backups hbackups hindefinite hcount
    have hinMap : run (plain Z) (decode .isInMap) s = (false, s) := Prod.ext (decide_eq_false (not_not.2 hcount)) rfl
    have hserved : EachCall (plain Z) (Servable (options Z) width) (decode .isInMap) s := ⟨⟨by simp, .inl rfl⟩, trivial⟩
    have hend : Servable (options Z) width .mapEnd s :=
      ⟨by simp, .inr (.inr (needs_of_leaves hZ.mapEnd hbackups hindefinite hcount))⟩
    have hround : run (plain Z) (decodeMapByIdRound R.subscribeEntry c) s =
        (.inr ((Z.mapEndDecode s).1, c), (Z.mapEndDecode s).2) := by
      unfold decodeMapByIdRound
      rw [run_bind, hinMap]
      rfl
    rw [hended] at hround
    refine ⟨?_, fun _ => ?_, ?_⟩
    · rw [run_repeatUntil_succ, hround]
      rfl
    · rw [run_repeatUntil_succ, hround]
      dsimp only
      rw [hadvances.remaining_drop, hs]
      rfl
    · rw [repeatUntil, eachCall_bind, hround]
      refine ⟨?_, trivial⟩
      unfold decodeMapByIdRound
      rw [eachCall_bind, hinMap]
      exact ⟨hserved, hend, trivial⟩
  | cons node nodes ih =>
    rw [List.flatMap_cons, List.append_assoc] at hs
    rw [List.length_cons] at hcount hbound
    have hnode := hnodes node List.mem_cons_self
    cases htarget : R.target (P.registry.node node).id with
    | none =>
      obtain ⟨s₁, hround, heach⟩ := run_round_of_none (c := c) hZ hwidth (by omega) hs htarget
      have hnotAll : R.hasAll P.registry (node :: nodes) = false := by
        rw [Registry.hasAll, List.all_cons, htarget]
        rfl
      refine ⟨?_, fun hall => absurd hall (by rw [hnotAll]; exact Bool.false_ne_true), ?_⟩
      · rw [run_repeatUntil_succ, hround, hnotAll, Registry.takeOverAll, htarget]
      · rw [repeatUntil, eachCall_bind, hround]
        exact ⟨heach, trivial⟩
    | some node' =>
      have hdepth' : s.backups.length + 2 + 5 ≤ s.depth := by
        rw [hbackups, List.length_cons]
        exact hdepth
      obtain ⟨s₁, hround, hreads, heach⟩ := run_round_of_some (c := c) hZ hwidth (by omega) hs htarget hnode hdepth'
        (by omega)
      obtain ⟨bound, rfl⟩ : ∃ m, bound = m + 1 := ⟨bound - 1, by omega⟩
      have hcount₁ := hreads.elemCount
      obtain ⟨hrun, hremaining, heach'⟩ := ih (s := s₁) (fun n hn => hnodes n (List.mem_cons_of_mem node hn))
        (R.takeOver w node c.1 node', c.2 ++ [(P.registry.node node).id]) (hreads.backups.trans hbackups)
        (hreads.indefinite.trans hindefinite) (by rw [hreads.depth]; exact hdepth) (by omega)
        (hreads.toAdvances.remaining hs) bound (by omega)
      have hrest : R.hasAll P.registry (node :: nodes) = R.hasAll P.registry nodes := by
        rw [Registry.hasAll, List.all_cons, htarget]
        rfl
      rw [hrest]
      refine ⟨?_, fun hall => ?_, ?_⟩
      · rw [run_repeatUntil_succ, hround, Registry.takeOverAll, htarget]
        exact hrun
      · rw [run_repeatUntil_succ, hround]
        exact hremaining hall
      · rw [repeatUntil, eachCall_bind, hround]
        exact ⟨heach, heach'⟩

/-- A map from the ids of nodes to what they encode. -/
theorem run_decodeNodes (hZ : Z.ItemLaws) (hwidth : 5 ≤ width) (nodes : List ι)
    (hnodes : ∀ node ∈ nodes, Understood Z width P.registry w R node) (hlength : nodes.length < 2 ^ 32)
    (c : World ι' V A' × List ℕ) (hcount : s.elemCount ≠ 0) (hdepth : s.backups.length + 2 + 6 ≤ s.depth)
    (hs : s.remaining = writeHead 5 nodes.length ++ (nodes.flatMap (P.pairOf w) ++ rest)) :
    (run (plain Z) (decodeMapById R.subscribeEntry c) s).1 =
        (R.hasAll P.registry nodes, R.takeOverAll P.registry w nodes c) ∧
      (R.hasAll P.registry nodes = true → (run (plain Z) (decodeMapById R.subscribeEntry c) s).2.remaining = rest) ∧
      EachCall (plain Z) (Servable (options Z) width) (decodeMapById R.subscribeEntry c) s := by
  have hhead : IsHead (writeHead 5 nodes.length) 5 nodes.length := isHead_writeHead (by decide) (by omega)
  have hlen := ThingSetPersistence.length_writeHead_le_five 5 hlength
  obtain ⟨hserved, s₁, hstart, -, hdepth₁, hcount₁, hs₁, -⟩ := servable_container (g := Z.mapEndDecode) hZ.mapStart
    hZ.mapEnd hhead (hlen.trans hwidth) hcount (by omega) hs
  obtain ⟨-, -, -, hindefinite, b, hbackups, -⟩ := hZ.mapStart s _ _ _ hhead hcount (by omega) hs
  rw [hstart] at hindefinite hbackups
  obtain ⟨hrun, hremaining, heach⟩ := run_subscribeEntries (s := s₁) hZ hwidth nodes hnodes sizeMax
    (by rw [sizeMax]; omega) c hbackups hindefinite (by rw [hdepth₁]; omega) hcount₁ hs₁
  have hstart' : run (plain Z) (decode .mapStart) s = (true, s₁) := hstart
  rw [decodeMapById, run_bind, eachCall_bind, hstart']
  dsimp only
  rw [if_pos rfl]
  exact ⟨hrun, hremaining, ⟨⟨by simp, .inr (.inr hserved)⟩, trivial⟩, heach⟩

/-- What is done with a report, given what it has of the nodes of a subset. -/
theorem run_subscribe (hZ : Z.ItemLaws) (hwidth : 5 ≤ width) {subset : UInt32} {nodes : List ι}
    (hnodes : ∀ node ∈ nodes, Understood Z width P.registry w R node) (hlength : nodes.length < 2 ^ 32)
    (w' : World ι' V A') (hbackups : s.backups = []) (hdepth : s.depth = 8) (hcount : s.elemCount = 2)
    (hs : s.remaining =
      writeHead 0 subset.toNat ++ (writeHead 5 nodes.length ++ nodes.flatMap (P.pairOf w)) ++ rest) :
    (run (plain Z) (R.subscribe w') s).1 =
        (if subset.toNat < 65535 then R.takeOverAll P.registry w nodes (w', []) else (w', [])) ∧
      EachCall (plain Z) (Servable (options Z) width) (R.subscribe w') s := by
  rw [List.append_assoc, List.append_assoc] at hs
  obtain ⟨s₁, hsubset, hreads₁, heach₁⟩ := narrow_spec hZ (uint16_eq_narrowUInt Z) subset.toNat_lt hwidth (by omega) hs
  have hcount₁ := hreads₁.elemCount
  have hdepth₁ : s₁.backups.length + 2 + 6 ≤ s₁.depth := by
    rw [hreads₁.backups, hreads₁.depth, hbackups, hdepth]
    decide
  obtain ⟨hrun, -, heach⟩ := run_decodeNodes (s := s₁) hZ hwidth nodes hnodes hlength (w', []) (by omega) hdepth₁
    (hreads₁.toAdvances.remaining hs)
  unfold Registry.subscribe
  rw [run_bind, eachCall_bind, hsubset]
  by_cases hsmall : subset.toNat < 65535
  · rw [if_pos hsmall, if_pos hsmall]
    dsimp only
    rw [run_bind, eachCall_bind, hrun]
    exact ⟨rfl, heach₁, heach, trivial⟩
  · rw [if_neg hsmall, if_neg hsmall]
    exact ⟨rfl, heach₁, trivial⟩

end Nodes

/-! ## Publications -/

section Publications

open StreamingEncoder StreamingDecoder

variable {ω K I : Type} {E : StreamingEncoder ω} {C : StreamingDecoder} {Ze : ZcborStreamEncode} {renew : ω → ω}
  {log : ω → List Message}

/-- What can be carried is sent as one report, where chunks are accepted. -/
theorem sent_of_carried (hE : E.Sends C renew log) (haccepts : E.AcceptsChunks) (hsize : E.dataSize = C.dataSize)
    (htype : E.reportType.isSome) (hZ : Ze.AppendsItems itemReference) (hitems : Ze.AcceptsItems) {d : ℕ}
    {p : Encoding Bool} (hp : Carried E.dataSize 0 d p) (elementCount : ℕ) (out : ω) :
    let r := run (E.toEncoder Ze) p (E.new elementCount (renew out))
    r.1 = true ∧ (E.flush r.2).1 = true ∧
      ∃ ms, log (E.flush r.2).2.out = log out ++ ms ∧ SentReport C (E.reportType.toList ++ bytesOf p) ms := by
  obtain ⟨total, htotal⟩ : ∃ total, total = E.reportType.toList ++ bytesOf p := ⟨_, rfl⟩
  let Q : List EncodeOp → StreamingEncodeState ω → Prop := fun os s =>
    E.Upcoming total os s ∧ ∃ bs, Sofar E C log (log out) bs s ∧ bs ++ os.flatMap itemReference = total
  have hnew : Q ((trace binaryAnswer p).2 ++ []) (E.new elementCount (renew out)) := by
    rw [List.append_nil]
    exact ⟨⟨⟨_, encoded_new elementCount (renew out), htotal.symm⟩, le_rfl, rfl, hp.items, d, hp.nests⟩,
      E.reportType.toList, sofar_new hE htype elementCount out, htotal.symm⟩
  have hstep : ∀ o os s, Q (o :: os) s → (E.toEncoder Ze o s).1 = binaryAnswer o ∧ Q os (E.toEncoder Ze o s).2 := by
    rintro o os s ⟨hupcoming, bs, hsofar, hbs⟩
    obtain ⟨hanswer, hnext⟩ := toEncoder_of_upcoming haccepts hZ hitems o os s hupcoming
    have hok := (encode_of_upcoming haccepts hZ hitems hupcoming).1
    have hprogress := (progress_encode hE hZ hsofar (hupcoming.items o List.mem_cons_self)).1 hok
    refine ⟨hanswer, hnext, bs ++ itemReference o, ?_, ?_⟩
    · rw [toEncoder_snd]
      exact hprogress
    · rw [List.append_assoc, ← List.flatMap_cons]
      exact hbs
  obtain ⟨hok, hupcoming, bs, hsofar, hbs⟩ := run_of_trace hstep p [] hnew
  have hflush := (flush_of_upcoming haccepts hupcoming).1
  obtain ⟨ms, hlog, hsent⟩ := (sent_flush hE hsize hsofar).1 hflush
  rw [List.flatMap_nil, List.append_nil] at hbs
  rw [hbs, htotal] at hsent
  exact ⟨hok.trans hp.ok, hflush, ms, hlog, hsent⟩

variable {ι V A : Type} (P : ThingSetPersistence ι V A)

/-- `ThingSetServer::publish` of a subset, with the values that the nodes have. -/
def ThingSetPersistence.publishOn (E : StreamingEncoder ω) (Ze : ZcborStreamEncode) (renew : ω → ω)
    (pub : World ι V A × UInt32) (out : ω) : Bool × ω :=
  ((P.publish E Ze pub.1 pub.2 (renew out)).1, (P.publish E Ze pub.1 pub.2 (renew out)).2.out)

variable {P}

/-- Publications one after the other. -/
theorem publishAll_sent (hE : E.Sends C renew log) (haccepts : E.AcceptsChunks) (hsize : E.dataSize = C.dataSize)
    (htype : E.reportType.isSome) (hZ : Ze.AppendsItems itemReference) (hitems : Ze.AcceptsItems)
    {pubs : List (World ι V A × UInt32)} (hpubs : ∀ pub ∈ pubs, P.Carries E.dataSize pub.1 pub.2 ∧
      ∀ node ∈ P.nodesInSubset pub.2, P.Encodable node) (out : ω) :
    let published := runCalls (P.publishOn E Ze renew) pubs out
    (∀ ok ∈ published.1, ok = true) ∧ ∃ ps : List Sending, log published.2 = log out ++ ps.flatMap (·.messages) ∧
      ps.map (·.report.calls) = pubs.map (fun pub => (trace binaryAnswer (P.encodeReport pub.1 pub.2)).2) ∧
        ∀ p ∈ ps, p.ok = true ∧ p.Valid E C itemReference := by
  induction pubs generalizing out with
  | nil =>
    exact ⟨fun _ h => absurd h List.not_mem_nil, [], (List.append_nil _).symm, rfl, fun _ h => absurd h List.not_mem_nil⟩
  | cons pub pubs ih =>
    obtain ⟨hcarries, hencodable⟩ := hpubs pub List.mem_cons_self
    obtain ⟨hok, hflush, ms, hlog, hsent⟩ := sent_of_carried hE haccepts hsize htype hZ hitems
      (ThingSetPersistence.carried_encodeReport hcarries hencodable) 2 out
    have hpublish : P.publish E Ze pub.1 pub.2 (renew out) = _ :=
      ThingSetPersistence.publish_eq.trans (if_pos hok)
    obtain ⟨hall, ps, hlogs, hcalls, hps⟩ := ih (fun q hq => hpubs q (List.mem_cons_of_mem pub hq))
      (P.publishOn E Ze renew pub out).2
    refine ⟨?_, ⟨⟨2, (trace binaryAnswer (P.encodeReport pub.1 pub.2)).2⟩, true, ms⟩ :: ps, ?_, ?_, ?_⟩
    · intro ok hmem
      rcases List.mem_cons.1 hmem with rfl | hmem
      · exact (congrArg Prod.fst hpublish).trans hflush
      · exact hall ok hmem
    · rw [List.flatMap_cons, ← List.append_assoc]
      have hone : log (P.publishOn E Ze renew pub out).2 = log out ++ ms := by
        rw [← hlog, ThingSetPersistence.publishOn, hpublish]
      rw [← hone]
      exact hlogs
    · rw [List.map_cons, List.map_cons, hcalls]
    · intro p hp
      rcases List.mem_cons.1 hp with rfl | hp
      · exact ⟨rfl, fun _ => hsent, fun hfalse => Bool.noConfusion hfalse⟩
      · exact hps p hp

variable {ι' A' : Type} [DecidableEq ι'] [DecidableEq K] {R : Registry ι' V A'} {exact : Prop}

/-- A publication that a subscriber can take over: its nodes can be encoded, and decoded by the nodes with their ids.
Where messages have headers, its report is of a length of which nothing is lost. -/
structure Replicable (Zd : ZcborDecode) (C : StreamingDecoder) (P : ThingSetPersistence ι V A) (R : Registry ι' V A')
    (exact : Prop) (pub : World ι V A × UInt32) : Prop where
  carries : P.Carries C.dataSize pub.1 pub.2
  encodable : ∀ node ∈ P.nodesInSubset pub.2, P.Encodable node
  decodable : ∀ node ∈ P.nodesInSubset pub.2, ∀ node' ∈ R.target (P.registry.node node).id,
    Matches Zd C.dataSize pub.1 node (P.registry.node node).kind (R.node node').kind
  length : C.headerSize = 0 ∨ exact ∧ ((bytesOf (P.encodeReport pub.1 pub.2)).length < 2 * C.dataSize ∨
    2 * C.headerSize ≤ (bytesOf (P.encodeReport pub.1 pub.2)).length % C.dataSize)

/-- The subscriber has taken a publication over, whatever its nodes had. -/
def TakenOver (Zd : ZcborDecode) (C : StreamingDecoder) (P : ThingSetPersistence ι V A) (R : Registry ι' V A')
    (pub : World ι V A × UInt32) (s : StreamingDecodeState) : Prop :=
  ∀ w' : World ι' V A', (run (C.reader.streamDecoder Zd) (R.subscribe w') (toStream s)).1 =
    if pub.2.toNat < 65535 then R.takeOverAll P.registry pub.1 (P.nodesInSubset pub.2) (w', []) else (w', [])

end Publications

/-! ## UDP and CAN -/

theorem udp_acceptsChunks {τ : Type} (enhanced : Bool) {send : Bytes → τ → Bool × τ} (hsend : ∀ x t, (send x t).1 = true) :
    (streamingUdpEncoder enhanced (loggedIfSent send)).AcceptsChunks := by
  intro payload flushing e out _
  rw [udp_write]
  exact hsend _ _

theorem can_acceptsChunks {τ : Type} (size : ℕ) (size_pos : 0 < size) (enhanced flagInId : Bool)
    (nodeAddress : List (BitVec 32 × Bytes) × τ → UInt8) {send : BitVec 32 × Bytes → τ → Bool × τ}
    (hsend : ∀ x t, (send x t).1 = true) :
    (streamingCanEncoder size size_pos enhanced
      (CanTransport.publish nodeAddress (doPublish size flagInId (loggedIfSent send)))).AcceptsChunks := by
  intro payload flushing e out hle
  have hfits : ¬ payload.length > size := Nat.not_lt.2 hle
  simp only [streamingCanEncoder, CanTransport.publish, doPublish, if_neg hfits, loggedIfSent]
  exact hsend _ _

/-- The nodes of a registry with two properties, `a` and `b` with the ids 34 and 35. -/
def twoPropertiesNode : SmallNode → Node SmallNode ℕ Unit
  | .b => .ofIds [0x62] 35 0 0x77 (.property codecUInt8)
  | n => onePropertyNode n

/-- A publisher with both of them in the subset 1. -/
def twoProperties : ThingSetPersistence SmallNode ℕ Unit where
  registry := { persistedProperty.registry with
    node := twoPropertiesNode
    nodeMap := bucketsOf twoPropertiesNode [.root, .metadata, .a, .b] }
  subsets n := if n = .a ∨ n = .b then persisted else 0

/-- Every frame is sent. -/
def noneFails (_ : BitVec 32 × Bytes) (n : ℕ) : Bool × ℕ := (true, n + 1)

/-- A publication in frames of eight bytes. -/
def twoPropertiesRun : List Bool × (UInt8 × CanTransport (List (BitVec 32 × Bytes) × ℕ)) :=
  runCalls (twoProperties.publishOn (streamingCanEncoder 8 eight_pos false (CanTransport.publish (fun _ => 0x11)
    (doPublish 8 true (loggedIfSent noneFails)))) zcborStreamReference fun o => (0, o.2)) [(sevens, persisted)]
      (0, ⟨4, ([], 0)⟩)

/-- Both frames, the second one padded, with one of another sender between them. -/
def twoPropertiesArrivals : List (Arrival Bool Unit) :=
  [frameArrival true .first [0x1F, 0x01, 0xA2, 0x18, 0x22, 0x07, 0x18, 0x23] 8,
    frameArrival false .single [0x1F, 0x01, 0xA0] 3, frameArrival true .last [0x07, 0, 0xAA] 2]

theorem twoProperties_nodes : twoProperties.nodesInSubset persisted = [.a, .b] := by decide +kernel

theorem twoProperties_carries {size : ℕ} (hsize : 5 ≤ size) : twoProperties.Carries size sevens persisted := by
  refine ⟨hsize, by decide +kernel, by decide +kernel, ?_⟩
  rw [twoProperties_nodes]
  intro node hnode _
  have hitem : (itemReference (.uint .w8 7)).length ≤ size := (show 1 ≤ 5 by decide).trans hsize
  rcases List.mem_pair.1 hnode with rfl | rfl
  · exact carried_call (o := .uint .w8 7) (by decide +kernel) hitem rfl
  · exact carried_call (o := .uint .w8 7) (by decide +kernel) hitem rfl

theorem sevens_matches {size : ℕ} (hsize : 5 ≤ size) (node : SmallNode) :
    Matches zcborStates size sevens node (.property codecUInt8) (.property codecUInt8 : NodeKind SmallNode ℕ Unit) :=
  .property (readsBack_uint8 zcborStates_itemLaws hsize (show 7 < 255 by decide))

/-- A program with the property `a` only. -/
theorem twoProperties_matches {size : ℕ} (hsize : 5 ≤ size) :
    ∀ node ∈ [SmallNode.a, .b], ∀ node' ∈ persistedProperty.registry.target (twoProperties.registry.node node).id,
      Matches zcborStates size sevens node (twoProperties.registry.node node).kind
        (persistedProperty.registry.node node').kind := by
  intro node hnode node' hnode'
  rcases List.mem_pair.1 hnode with rfl | rfl
  · obtain rfl : node' = .a := by
      revert hnode'
      cases node' <;> decide +kernel
    exact sevens_matches hsize .a
  · exfalso
    revert hnode'
    cases node' <;> decide +kernel

theorem twoProperties_replicable :
    Replicable zcborStates canDecoderEight twoProperties persistedProperty.registry False (sevens, persisted) := by
  refine ⟨twoProperties_carries (by decide), by rw [twoProperties_nodes]; decide, ?_, .inl rfl⟩
  rw [twoProperties_nodes]
  exact twoProperties_matches (by decide)

end ThingSet
