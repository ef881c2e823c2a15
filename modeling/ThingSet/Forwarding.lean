import ThingSet.Foundations.Search
import ThingSet.Server.RequestBuffer

/-!
# Forwarded requests

A request is forwarded to another node when its type is `forward` and the id of the node is in front of
the request proper (the new style), or when its path starts with the id of the node (the old style).
`rewrite` takes the id out of the buffer and finds the request that is left.

`rewrite_iff`: what is left is what a client would send to the other node exactly for requests in the new
style. Where there is no id, `rewrite` returns 0 unless it takes the empty string for the id.
-/

namespace ThingSet

open Interaction Prog

/-- What `rewrite` leaves behind: what it returns, the buffer, the pointer to the request as an offset,
and the id, if it was assigned. A store outside of the buffer does not show in it. -/
structure Rewritten where
  length : ℕ
  memory : Bytes
  request : ℕ
  nodeId : Option Bytes := none
  deriving DecidableEq

/-- The letters and digits of `rewrite`. -/
def isAlphanumeric (c : UInt8) : Bool :=
  (0x30 ≤ c ∧ c ≤ 0x39) ∨ (0x61 ≤ c ∧ c ≤ 0x7A) ∨ (0x41 ≤ c ∧ c ≤ 0x5A)

/-- `ZCBOR_VALUE_IN_HEADER`. -/
def zcborValueInHeader : ℕ := 23

namespace RequestContext

variable (c : RequestContext)

/-- `tryGetNodeId` of a path. -/
def tryGetNodeId (path : Bytes) : Option Bytes :=
  if 0x2F ∈ path.drop 1 then some ((path.drop 1).takeWhile (· ≠ 0x2F)) else none

/-- `ThingSetBinaryRequestContext::rewrite` of a request of type `forward`. -/
def rewriteBinaryForward (memory : Bytes) (requestLength : ℕ) : Rewritten :=
  let header := (memory.getD 1 0).toNat
  if header / 32 = 3 then
    let length := header % 32
    if length ≤ zcborValueInHeader then
      ⟨toSize (requestLength - (1 + 1 + length : ℕ)), memory, 1 + 1 + length,
        some ((memory.drop 2).take length)⟩
    else ⟨0, memory, 0, none⟩
  else ⟨0, memory, 0, none⟩

/-- `(*request)[i] = b`. -/
def store (memory : Bytes) (i : ℤ) (b : UInt8) : Bytes := memory.set (toSize i) b

/-- `ThingSetBinaryRequestContext::rewrite` of a request with the id in its path, once this has been found
at an offset. -/
def rewriteBinaryPath (memory : Bytes) (requestLength start : ℕ) (path nodeId : Bytes) : Rewritten :=
  let newPathStart : ℤ := start + nodeId.length + 1
  let newPathLength := toSize ((path.length : ℤ) - nodeId.length - 2)
  let (memory, newPathStart) :=
    if newPathLength ≤ zcborValueInHeader then
      (store memory (newPathStart - 1) (0x60 ||| .ofNat newPathLength), newPathStart - 1)
    else
      (store (store memory (newPathStart - 1) (.ofNat newPathLength)) (newPathStart - 2) 0x78,
        newPathStart - 2)
  let newPathStart := newPathStart - 1
  ⟨toSize (requestLength - newPathStart + 1),
    store memory newPathStart (memory.headD 0), toSize newPathStart, some nodeId⟩

/-- `ThingSetBinaryRequestContext::rewrite`. -/
def rewriteBinary (memory : Bytes) (requestLength : ℕ) : Rewritten :=
  if c.isForward then rewriteBinaryForward memory requestLength
  else
    let path := c.path.getD []
    match tryGetNodeId path with
    | none => ⟨0, memory, 0, none⟩
    | some nodeId =>
      let start := (memory.take (requestLength - 1)).search nodeId
      if start = requestLength - 1 then ⟨0, memory, 0, some nodeId⟩
      else rewriteBinaryPath memory requestLength start path nodeId

/-- `ThingSetTextRequestContext::rewrite`. The verb is stored behind the pointer `*request`, not in the
buffer. -/
def rewriteText (memory : Bytes) (requestLength : ℕ) : Rewritten :=
  if c.isForward then
    let nodeId := ((memory.take requestLength).drop 1).takeWhile isAlphanumeric
    let i := 1 + nodeId.length
    ⟨requestLength - i, memory, i, some nodeId⟩
  else
    match tryGetNodeId (c.path.getD []) with
    | none => ⟨0, memory, 0, none⟩
    | some nodeId =>
      ⟨toSize (requestLength - (nodeId.length + 2 : ℕ)), memory, nodeId.length + 2, some nodeId⟩

/-- `rewrite`, where the request is at the start of the buffer. -/
def rewrite (mode : RequestMode) (memory : Bytes) (requestLength : ℕ) : Rewritten :=
  match mode with
  | .binary => c.rewriteBinary memory requestLength
  | .text => c.rewriteText memory requestLength

/-- The id that a request has for another node, if it has one: behind the type, or at the start of its
path. -/
def carriedId (mode : RequestMode) (memory : Bytes) (requestLength : ℕ) : Option Bytes :=
  if c.isForward then
    match mode with
    | .binary =>
      let header := (memory.getD 1 0).toNat
      if header / 32 = 3 ∧ header % 32 ≤ zcborValueInHeader ∧ 2 + header % 32 ≤ requestLength then
        some ((memory.drop 2).take (header % 32))
      else none
    | .text => some (((memory.take requestLength).drop 1).takeWhile isAlphanumeric)
  else tryGetNodeId (c.path.getD [])

end RequestContext

/-- Where the request proper starts if the id in front of it is empty. -/
def emptyIdEnd : RequestMode → ℕ
  | .binary => 2
  | .text => 1

/-- The context of a request in a buffer. -/
def contextOf (o : BinaryDecoderOptions) (tokens : ℕ → JsmnTok) (mode : RequestMode) (memory : Bytes)
    (requestLength : ℕ) : RequestContext :=
  match mode with
  | .binary =>
    (run (binaryDecoder o) (binaryEndpoint (memory.headD 0)) (.new 8 memory 1 (requestLength - 1) 2)).1
  | .text => (textRequestContext memory requestLength tokens).1

/-! ## Requests that are forwarded -/

/-- Where a request says which node it is for. -/
inductive ForwardStyle
  | new
  | old
  deriving DecidableEq, Repr

/-- A request for another node. -/
structure ForwardedRequest where
  verb : UInt8
  nodeId : Bytes
  path : Bytes
  payload : Bytes

namespace ForwardedRequest

variable (r : ForwardedRequest)

/-- The request that a client sends to the node itself. -/
def direct : RequestMode → Bytes
  | .binary => r.verb :: (Cbor.writeHead 3 r.path.length ++ (r.path ++ r.payload))
  | .text => r.verb :: (r.path ++ r.payload)

/-- The path with the id of the node in front. -/
def longPath : Bytes := 0x2F :: (r.nodeId ++ 0x2F :: r.path)

/-- The request that a client sends for the node. -/
def bytes : RequestMode → ForwardStyle → Bytes
  | .binary, .new =>
    binaryRequestTypes.forward :: (Cbor.writeHead 3 r.nodeId.length ++ (r.nodeId ++ r.direct .binary))
  | .binary, .old => r.verb :: (Cbor.writeHead 3 r.longPath.length ++ (r.longPath ++ r.payload))
  | .text, .new => textRequestTypes.forward :: (r.nodeId ++ r.direct .text)
  | .text, .old => r.verb :: (r.longPath ++ r.payload)

/-- The verbs of requests that are not `forward`. -/
def verbs (t : RequestTypes) : List UInt8 := [t.get, t.exec, t.remove, t.fetch, t.create, t.update]

/-- The id has letters and digits, and no more than 23 of them. In a text request, the path ends at the
first space. -/
structure Valid (mode : RequestMode) : Prop where
  nodeId_ne : r.nodeId ≠ []
  alphanumeric : ∀ c ∈ r.nodeId, isAlphanumeric c = true
  length_le : r.nodeId.length ≤ 23
  verb : r.verb ∈ verbs (match mode with | .binary => binaryRequestTypes | .text => textRequestTypes)
  text : mode = .text → 0x20 ∉ r.path ∧ (r.payload = [] ∨ r.payload.head? = some 0x20)

end ForwardedRequest

/-- The id, and a pointer and a length that delimit the request. -/
structure Rewritten.Yields (w : Rewritten) (nodeId direct : Bytes) : Prop where
  nodeId : w.nodeId = some nodeId
  length : w.length = direct.length
  request : (w.memory.drop w.request).take w.length = direct

/-! ## Contexts -/

section Contexts

variable {o : BinaryDecoderOptions} {tokens : ℕ → JsmnTok} {mode : RequestMode} {memory path payload : Bytes}
  {n : ℕ} {verb : UInt8}

/-- The constants of the request types. -/
def RequestMode.types : RequestMode → RequestTypes
  | .binary => binaryRequestTypes
  | .text => textRequestTypes

theorem contextOf_type :
    (contextOf o tokens mode memory n).types = mode.types ∧
      (contextOf o tokens mode memory n).requestType = memory.headD 0 := by
  cases mode with
  | binary =>
    rw [contextOf, binaryEndpoint, run_bind]
    split <;> exact ⟨rfl, rfl⟩
  | text =>
    rw [contextOf, textRequestContext]
    dsimp only
    split <;> exact ⟨rfl, rfl⟩

theorem contextOf_isForward :
    (contextOf o tokens mode memory n).isForward = decide (memory.headD 0 = mode.types.forward) := by
  rw [RequestContext.isForward, contextOf_type.1, contextOf_type.2]

/-- The path of a binary request. -/
theorem contextOf_binary_path (hZ : o.zcbor.StringLaws) (hpath : path.length < 2 ^ 64) (tail : Bytes) :
    (contextOf o tokens .binary (verb :: (Cbor.writeHead 3 path.length ++ (path ++ payload)) ++ tail)
      (verb :: (Cbor.writeHead 3 path.length ++ (path ++ payload))).length).path = some path := by
  have hleft := ZcborState.left_new [verb] (Cbor.writeHead 3 path.length ++ (path ++ payload)) tail 2
  obtain ⟨s', hs', -⟩ := hZ.tstr _ _ _ _ _ hpath hleft
  rw [contextOf, binaryEndpoint, run_bind]
  have hstring : run (binaryDecoder o) (decode .string)
      (ZcborState.new 8 (verb :: (Cbor.writeHead 3 path.length ++ (path ++ payload)) ++ tail) 1
        ((verb :: (Cbor.writeHead 3 path.length ++ (path ++ payload))).length - 1) 2) = (some path, s') := hs'
  rw [hstring]
  rfl

theorem contextOf_binary_none {s : ZcborState} (hs : ZcborState.new 8 memory 1 (n - 1) 2 = s)
    (hstring : o.zcbor.tstrDecode s = (none, s)) (hnumber : o.zcbor.uint32Decode s = (none, s)) :
    (contextOf o tokens .binary memory n).hasValidEndpoint = false := by
  have hnone : run (binaryDecoder o) (decode .string) s = (none, s) := hstring
  have hnarrow : run (binaryDecoder o) (decode (.uint .w16)) s = (none, s) := by
    change BinaryDecoder.narrowUInt o 65535 _ = _
    simp only [BinaryDecoder.narrowUInt, hnumber]
  rw [contextOf, binaryEndpoint, run_bind, hs, hnone]
  simp only [run_bind, hnarrow, run_pure, RequestContext.hasValidEndpoint, Option.isSome_none, Bool.or_self]

/-- There is no endpoint in a binary request that is only a verb. -/
theorem contextOf_binary_one (hZ : o.zcbor.StringLaws) :
    (contextOf o tokens .binary memory 1).hasValidEndpoint = false := by
  have hremaining : (ZcborState.new 8 memory 1 (1 - 1) 2).remaining = [] := by
    simp [ZcborState.remaining, ZcborState.new]
  exact contextOf_binary_none rfl (hZ.tstr_nothing _ hremaining) (hZ.uint32_nothing _ hremaining)

/-- The endpoint of a binary request is not a string that is cut off. -/
theorem contextOf_binary_short (hZ : o.zcbor.StringLaws) (hpos : 0 < n) (hn : n ≤ memory.length)
    (hmajor : (memory.getD 1 0).toNat / 32 = 3) (hinfo : (memory.getD 1 0).toNat % 32 ≤ 23)
    (hshort : n < 2 + (memory.getD 1 0).toNat % 32) :
    (contextOf o tokens .binary memory n).hasValidEndpoint = false := by
  rcases Nat.lt_or_ge n 2 with hone | htwo
  · obtain rfl : n = 1 := by omega
    exact contextOf_binary_one hZ
  · obtain ⟨verb, header, rest, rfl⟩ : ∃ verb header rest, memory = verb :: header :: rest := by
      match memory, hn with
      | [], hn => exact absurd hn (by simp; omega)
      | [_], hn => exact absurd hn (by simp; omega)
      | verb :: header :: rest, _ => exact ⟨verb, header, rest, rfl⟩
    have hremaining : (ZcborState.new 8 (verb :: header :: rest) 1 (n - 1) 2).remaining =
        header :: rest.take (n - 2) := by
      obtain ⟨k, rfl⟩ := Nat.exists_eq_add_of_le htwo
      simp only [ZcborState.remaining, ZcborState.new]
      rw [show 1 + (2 + k - 1) = k + 1 + 1 by omega, Nat.add_sub_cancel_left]
      rfl
    simp only [List.getD_cons_succ, List.getD_cons_zero] at hmajor hinfo hshort
    refine contextOf_binary_none rfl (hZ.tstr_short _ header _ hremaining hmajor hinfo ?_)
      (hZ.uint32_tstr _ header _ hremaining hmajor hinfo)
    rw [List.length_take]
    omega

/-- The path of a text request. -/
theorem contextOf_text_path (hpath : 0x20 ∉ path) (hpayload : payload = [] ∨ payload.head? = some 0x20)
    (tail : Bytes) :
    (contextOf o tokens .text (verb :: (path ++ payload) ++ tail)
      (verb :: (path ++ payload)).length).path = some path := by
  have hnone : path.findIdx? (· = 0x20) = none := by
    rw [List.findIdx?_eq_none_iff]
    intro c hc
    simp only [decide_eq_false_iff_not]
    rintro rfl
    exact hpath hc
  have hdrop : (verb :: (path ++ payload) ++ tail).drop 1 = path ++ (payload ++ tail) := by simp
  have hsearch : memchr (path ++ (payload ++ tail)) 0x20 (verb :: (path ++ payload)).length =
      (((payload ++ tail).take (payload.length + 1)).findIdx? (· = 0x20)).map (· + path.length) := by
    rw [memchr, List.take_append, List.findIdx?_append, List.take_of_length_le (by simp; omega), hnone]
    simp only [List.length_cons, List.length_append, Option.none_or]
    congr 4
    omega
  have hfound : ((payload ++ tail).take (payload.length + 1)).findIdx? (· = 0x20) = some 0 ∨
      ((payload ++ tail).take (payload.length + 1)).findIdx? (· = 0x20) = none ∧ payload = [] := by
    rcases hpayload with rfl | hhead
    · cases tail with
      | nil => exact .inr ⟨rfl, rfl⟩
      | cons b tail =>
        by_cases hb : b = 0x20
        · exact .inl (by simp [List.findIdx?_cons, hb])
        · exact .inr ⟨by simp [List.findIdx?_cons, hb], rfl⟩
    · obtain ⟨rest, rfl⟩ := List.head?_eq_some_iff.1 hhead
      exact .inl (by simp [List.findIdx?_cons])
  rw [contextOf]
  rcases hfound with hfound | ⟨hfound, rfl⟩
  · rw [textRequestContext_of_space (n := path.length) (by rw [hdrop, hsearch, hfound]; simp), hdrop]
    simp
  · rw [textRequestContext_of_not_space (by rw [hdrop, hsearch, hfound]; rfl), hdrop]
    simp

end Contexts

/-! ## The new style -/

namespace ForwardedRequest

variable {r : ForwardedRequest} {o : BinaryDecoderOptions} {tokens : ℕ → JsmnTok} {mode : RequestMode}

/-- `rewrite` of the request in a buffer with something behind it. -/
def rewrite (r : ForwardedRequest) (o : BinaryDecoderOptions) (tokens : ℕ → JsmnTok) (mode : RequestMode)
    (style : ForwardStyle) (tail : Bytes) : Rewritten :=
  (contextOf o tokens mode (r.bytes mode style ++ tail) (r.bytes mode style).length).rewrite mode
    (r.bytes mode style ++ tail) (r.bytes mode style).length

theorem verb_facts (t : RequestMode) {verb : UInt8} (h : verb ∈ verbs t.types) :
    verb ≠ t.types.forward ∧ isAlphanumeric verb = false ∧ verb ≠ 0x2F := by
  cases t <;> simp only [verbs, RequestMode.types, List.mem_cons, List.not_mem_nil, or_false] at h <;>
    rcases h with rfl | rfl | rfl | rfl | rfl | rfl <;> decide

theorem writeHead_of_lt {n : ℕ} (hn : n < 24) : Cbor.writeHead 3 n = [UInt8.ofNat (96 + n)] := by
  rw [Cbor.writeHead, if_pos hn]

/-- The id in a binary request of type `forward`. -/
theorem yields_binary_new (hr : r.Valid .binary) (tail : Bytes)
    (hlen : (r.bytes .binary .new).length < 2 ^ 63) :
    (r.rewrite o tokens .binary .new tail).Yields r.nodeId (r.direct .binary) := by
  have hle := hr.length_le
  have hforward : (contextOf o tokens .binary (r.bytes .binary .new ++ tail)
      (r.bytes .binary .new).length).isForward = true := by
    rw [contextOf_isForward]
    exact decide_eq_true rfl
  have hmemory : r.bytes .binary .new ++ tail = 0x1C :: UInt8.ofNat (96 + r.nodeId.length) ::
      (r.nodeId ++ (r.direct .binary ++ tail)) := by
    simp [bytes, writeHead_of_lt (show r.nodeId.length < 24 by omega), binaryRequestTypes]
  have hlength : (r.bytes .binary .new).length = 2 + r.nodeId.length + (r.direct .binary).length := by
    simp only [bytes, writeHead_of_lt (show r.nodeId.length < 24 by omega), List.length_cons,
      List.length_append, List.length_nil]
    omega
  have hheader : (UInt8.ofNat (96 + r.nodeId.length)).toNat = 96 + r.nodeId.length := by
    rw [UInt8.toNat_ofNat']
    omega
  have hmajor : (96 + r.nodeId.length) / 32 = 3 := by omega
  have hinfo : (96 + r.nodeId.length) % 32 = r.nodeId.length := by omega
  have hrewrite : r.rewrite o tokens .binary .new tail =
      ⟨toSize ((r.bytes .binary .new).length - (1 + 1 + r.nodeId.length : ℕ)),
        r.bytes .binary .new ++ tail, 1 + 1 + r.nodeId.length,
        some (((r.bytes .binary .new ++ tail).drop 2).take r.nodeId.length)⟩ := by
    rw [rewrite, RequestContext.rewrite, RequestContext.rewriteBinary, if_pos hforward,
      RequestContext.rewriteBinaryForward]
    simp only [hmemory, List.getD_cons_succ, List.getD_cons_zero, hheader, hmajor, hinfo, if_true,
      zcborValueInHeader, if_pos hle]
  rw [hrewrite]
  have hsize : toSize ((r.bytes .binary .new).length - (1 + 1 + r.nodeId.length : ℕ)) =
      (r.direct .binary).length := by
    rw [hlength, show ((2 + r.nodeId.length + (r.direct .binary).length : ℕ) : ℤ) -
      (1 + 1 + r.nodeId.length : ℕ) = ((r.direct .binary).length : ℕ) by push_cast; omega]
    exact toSize_natCast (by omega)
  refine ⟨?_, hsize, ?_⟩
  · simp only [hmemory, List.drop_succ_cons, List.drop_zero, List.take_left]
  · have hdrop : (r.bytes .binary .new ++ tail).drop (1 + 1 + r.nodeId.length) =
        r.direct .binary ++ tail := by
      rw [hmemory, ← List.drop_drop]
      simp only [List.drop_succ_cons, List.drop_zero, List.drop_left]
    dsimp only
    rw [hsize, hdrop, List.take_left]

/-- The id in a text request of type `forward`. -/
theorem yields_text_new (hr : r.Valid .text) (tail : Bytes) :
    (r.rewrite o tokens .text .new tail).Yields r.nodeId (r.direct .text) := by
  have hforward : (contextOf o tokens .text (r.bytes .text .new ++ tail)
      (r.bytes .text .new).length).isForward = true := by
    rw [contextOf_isForward]
    exact decide_eq_true rfl
  have hverb := (verb_facts .text hr.verb).2.1
  have hnodeId : (((r.bytes .text .new ++ tail).take (r.bytes .text .new).length).drop 1).takeWhile
      isAlphanumeric = r.nodeId := by
    rw [List.take_left, bytes, List.drop_succ_cons, List.drop_zero,
      List.takeWhile_append_of_pos hr.alphanumeric, direct, List.takeWhile_cons_of_neg (by simp [hverb]),
      List.append_nil]
  have hrewrite : r.rewrite o tokens .text .new tail =
      ⟨(r.bytes .text .new).length - (1 + r.nodeId.length), r.bytes .text .new ++ tail,
        1 + r.nodeId.length, some r.nodeId⟩ := by
    rw [rewrite, RequestContext.rewrite, RequestContext.rewriteText, if_pos hforward]
    simp only [hnodeId]
  have hlength : (r.bytes .text .new).length - (1 + r.nodeId.length) = (r.direct .text).length := by
    simp only [bytes, List.length_cons, List.length_append]
    omega
  have hdrop : (r.bytes .text .new ++ tail).drop (1 + r.nodeId.length) = r.direct .text ++ tail := by
    rw [← List.drop_drop]
    simp [bytes]
  rw [hrewrite, hlength]
  exact ⟨rfl, rfl, by dsimp only; rw [hdrop, List.take_left]⟩

/-! ## The old style -/

/-- There is no slash in an id. -/
theorem Valid.slash_notMem (hr : r.Valid mode) : 0x2F ∉ r.nodeId := fun h =>
  absurd (hr.alphanumeric _ h) (by decide)

theorem Valid.space_notMem (hr : r.Valid mode) : 0x20 ∉ r.nodeId := fun h =>
  absurd (hr.alphanumeric _ h) (by decide)

theorem tryGetNodeId_longPath (hr : r.Valid mode) :
    RequestContext.tryGetNodeId r.longPath = some r.nodeId := by
  have hne : ∀ c ∈ r.nodeId, decide (c ≠ 0x2F) = true := fun c hc =>
    decide_eq_true fun h => hr.slash_notMem (h ▸ hc)
  rw [RequestContext.tryGetNodeId, longPath, List.drop_succ_cons, List.drop_zero, if_pos (by simp),
    List.takeWhile_append_of_pos hne, List.takeWhile_cons_of_neg (by simp), List.append_nil]

/-- What is left of a text request starts with the slash behind the id. -/
theorem not_yields_text_old (hr : r.Valid .text) (tail : Bytes) :
    ¬ (r.rewrite o tokens .text .old tail).Yields r.nodeId (r.direct .text) := by
  obtain ⟨hne, -, hslash⟩ := verb_facts .text hr.verb
  obtain ⟨hspace, hpayload⟩ := hr.text rfl
  have hforward : (contextOf o tokens .text (r.bytes .text .old ++ tail)
      (r.bytes .text .old).length).isForward = false := by
    rw [contextOf_isForward]
    exact decide_eq_false hne
  have hpath : (contextOf o tokens .text (r.bytes .text .old ++ tail)
      (r.bytes .text .old).length).path = some r.longPath := by
    refine contextOf_text_path ?_ hpayload tail
    simp [longPath, hr.space_notMem, hspace]
  have hrewrite : r.rewrite o tokens .text .old tail =
      ⟨toSize ((r.bytes .text .old).length - (r.nodeId.length + 2 : ℕ)), r.bytes .text .old ++ tail,
        r.nodeId.length + 2, some r.nodeId⟩ := by
    rw [rewrite, RequestContext.rewrite, RequestContext.rewriteText, hforward, if_neg Bool.false_ne_true,
      hpath, Option.getD_some, tryGetNodeId_longPath hr]
  have hdrop : (r.bytes .text .old ++ tail).drop (r.nodeId.length + 2) =
      0x2F :: (r.path ++ r.payload ++ tail) := by
    rw [Nat.add_comm, ← List.drop_drop]
    simp [bytes, longPath]
  intro h
  have hrequest := h.request
  rw [h.length, hrewrite] at hrequest
  dsimp only at hrequest
  rw [hdrop, direct, List.length_cons, List.take_succ_cons] at hrequest
  exact hslash (List.cons.inj hrequest).1.symm

theorem newPathLength_eq {path nodeId : Bytes} {m : ℕ} (hpath : path.length = nodeId.length + 2 + m)
    (hm : m < 2 ^ 63) : toSize ((path.length : ℤ) - nodeId.length - 2) = m := by
  rw [hpath, show ((nodeId.length + 2 + m : ℕ) : ℤ) - nodeId.length - 2 = (m : ℕ) by push_cast; omega]
  exact toSize_natCast (by omega)

/-- The length that `rewrite` returns is one too large. -/
theorem length_rewriteBinaryPath (memory : Bytes) {path nodeId : Bytes} (n start : ℕ) {m : ℕ}
    (hpath : path.length = nodeId.length + 2 + m) (hm : m < 2 ^ 63) :
    (RequestContext.rewriteBinaryPath memory n start path nodeId).length =
      toSize (n - (start + nodeId.length - if m ≤ 23 then 1 else 2 : ℤ) + 1) := by
  simp only [RequestContext.rewriteBinaryPath, newPathLength_eq hpath hm, zcborValueInHeader]
  split
  · congr 1
    omega
  · congr 1
    omega

/-- The new header has one byte for the length, however long the path is. -/
theorem header_rewriteBinaryPath {memory path nodeId : Bytes} {n start m : ℕ}
    (hpath : path.length = nodeId.length + 2 + m) (hm : m < 2 ^ 63) (hlong : 23 < m)
    (hstart : 0 < start) (hnodeId : 0 < nodeId.length) (hmemory : start + nodeId.length ≤ memory.length)
    (hlen : memory.length < 2 ^ 63) :
    (RequestContext.rewriteBinaryPath memory n start path nodeId).memory[
      (RequestContext.rewriteBinaryPath memory n start path nodeId).request + 1]? = some 0x78 := by
  have hone : toSize ((start : ℤ) + nodeId.length + 1 - 2) = start + nodeId.length - 1 := by
    rw [show (start : ℤ) + nodeId.length + 1 - 2 = (start + nodeId.length - 1 : ℕ) by omega]
    exact toSize_natCast (by omega)
  have htwo : toSize ((start : ℤ) + nodeId.length + 1 - 2 - 1) = start + nodeId.length - 2 := by
    rw [show (start : ℤ) + nodeId.length + 1 - 2 - 1 = (start + nodeId.length - 2 : ℕ) by omega]
    exact toSize_natCast (by omega)
  simp only [RequestContext.rewriteBinaryPath, newPathLength_eq hpath hm, zcborValueInHeader,
    if_neg (Nat.not_le.2 hlong), RequestContext.store, hone, htwo]
  rw [List.getElem?_set_ne (by omega), show start + nodeId.length - 2 + 1 = start + nodeId.length - 1 by omega,
    List.getElem?_set_self (by rw [List.length_set]; omega)]

/-- The length of a path that is longer than 255 bytes takes more than one byte. -/
theorem writeHead_getElem?_zero_ne {m : ℕ} (h : 256 ≤ m) (xs : Bytes) :
    (Cbor.writeHead 3 m ++ xs)[0]? ≠ some 0x78 := by
  rw [Cbor.writeHead, if_neg (by omega), if_neg (by omega)]
  split
  · simp
  · split <;> simp

/-- The id is found where it is in the path, or before. -/
theorem search_bytes_le (tail : Bytes) :
    ((r.bytes .binary .old ++ tail).take ((r.bytes .binary .old).length - 1)).search r.nodeId ≤
      (Cbor.writeHead 3 r.longPath.length).length + 2 := by
  have hbytes : r.bytes .binary .old =
      (r.verb :: (Cbor.writeHead 3 r.longPath.length ++ [0x2F])) ++
        (r.nodeId ++ (0x2F :: r.path ++ r.payload)) := by
    simp [bytes, longPath]
  have hfront : (r.verb :: (Cbor.writeHead 3 r.longPath.length ++ [0x2F])).length =
      (Cbor.writeHead 3 r.longPath.length).length + 2 := by
    simp
  apply List.search_le
  rw [← hfront, List.take_append_of_le_length (by omega), List.drop_take, hbytes, List.drop_left,
    List.prefix_take_iff]
  refine ⟨List.prefix_append _ _, ?_⟩
  simp only [List.length_append, List.length_cons]
  omega

/-- The id does not start with the verb. -/
theorem search_bytes_pos (hr : r.Valid .binary) (tail : Bytes) :
    0 < ((r.bytes .binary .old ++ tail).take ((r.bytes .binary .old).length - 1)).search r.nodeId := by
  obtain ⟨-, halpha, -⟩ := verb_facts .binary hr.verb
  obtain ⟨c, rest, hc⟩ := List.exists_cons_of_ne_nil hr.nodeId_ne
  have hstart : r.bytes .binary .old ++ tail = r.verb ::
      (Cbor.writeHead 3 r.longPath.length ++ (r.longPath ++ r.payload) ++ tail) := rfl
  obtain ⟨n, hn⟩ : ∃ n, (r.bytes .binary .old).length - 1 = n + 1 := by
    refine ⟨(r.bytes .binary .old).length - 2, ?_⟩
    simp only [bytes, longPath, List.length_cons, List.length_append]
    omega
  rw [hn, hstart, List.take_succ_cons, List.search, if_neg]
  · exact Nat.succ_pos _
  · intro hpre
    rw [hc, List.isPrefixOf_cons_cons, Bool.and_eq_true, beq_iff_eq] at hpre
    have hmem : c ∈ r.nodeId := hc ▸ List.mem_cons_self
    rw [← hpre.1, hr.alphanumeric c hmem] at halpha
    exact Bool.noConfusion halpha

/-- The length, or the header of the path, is wrong. -/
theorem not_yields_binary_old (hZ : o.zcbor.StringLaws) (hr : r.Valid .binary) (tail : Bytes)
    (hlen : (r.bytes .binary .old ++ tail).length < 2 ^ 63) :
    ¬ (r.rewrite o tokens .binary .old tail).Yields r.nodeId (r.direct .binary) := by
  have hnodeId : 0 < r.nodeId.length := List.length_pos_iff.2 hr.nodeId_ne
  have hlong : r.longPath.length = r.nodeId.length + 2 + r.path.length := by
    simp only [longPath, List.length_cons, List.length_append]
    omega
  have hbytes : (r.bytes .binary .old).length = 1 + (Cbor.writeHead 3 r.longPath.length).length +
      (r.nodeId.length + 2 + r.path.length) + r.payload.length := by
    simp only [bytes, List.length_cons, List.length_append, hlong]
    omega
  have hdirect : (r.direct .binary).length =
      1 + (Cbor.writeHead 3 r.path.length).length + r.path.length + r.payload.length := by
    simp only [direct, List.length_cons, List.length_append]
    omega
  have hmemory : (r.bytes .binary .old ++ tail).length = (r.bytes .binary .old).length + tail.length :=
    List.length_append
  have hforward : (contextOf o tokens .binary (r.bytes .binary .old ++ tail)
      (r.bytes .binary .old).length).isForward = false := by
    rw [contextOf_isForward]
    exact decide_eq_false (verb_facts .binary hr.verb).1
  have hpath : (contextOf o tokens .binary (r.bytes .binary .old ++ tail)
      (r.bytes .binary .old).length).path = some r.longPath :=
    contextOf_binary_path hZ (by omega) tail
  obtain ⟨start, hstart⟩ : ∃ start, start =
      ((r.bytes .binary .old ++ tail).take ((r.bytes .binary .old).length - 1)).search r.nodeId := ⟨_, rfl⟩
  have hle : start ≤ (Cbor.writeHead 3 r.longPath.length).length + 2 := hstart ▸ search_bytes_le tail
  have hpos : 0 < start := hstart ▸ search_bytes_pos hr tail
  have hrewrite : r.rewrite o tokens .binary .old tail =
      RequestContext.rewriteBinaryPath (r.bytes .binary .old ++ tail) (r.bytes .binary .old).length start
        r.longPath r.nodeId := by
    rw [rewrite, RequestContext.rewrite, RequestContext.rewriteBinary, hforward,
      if_neg Bool.false_ne_true]
    simp only [hpath, Option.getD_some, tryGetNodeId_longPath hr, ← hstart]
    exact if_neg (by omega)
  obtain ⟨w, hw⟩ : ∃ w, w = RequestContext.rewriteBinaryPath (r.bytes .binary .old ++ tail)
      (r.bytes .binary .old).length start r.longPath r.nodeId := ⟨_, rfl⟩
  rw [hrewrite, ← hw]
  rintro ⟨-, hlength, hrequest⟩
  rcases Nat.lt_or_ge r.path.length 256 with hshort | hlarge
  · -- one byte too many
    have hreturned := length_rewriteBinaryPath (r.bytes .binary .old ++ tail)
      (r.bytes .binary .old).length start hlong (by omega)
    rw [← hw, hlength, hdirect, Cbor.writeHead] at hreturned
    rcases Nat.lt_or_ge r.path.length 24 with htiny | hmedium
    · rw [if_pos htiny, if_pos (by omega), show ((r.bytes .binary .old).length -
        (start + r.nodeId.length - 1 : ℤ) + 1) =
          ((r.bytes .binary .old).length - start - r.nodeId.length + 2 : ℕ) by omega,
        toSize_natCast (by omega), List.length_singleton] at hreturned
      omega
    · rw [if_neg (by omega), if_pos hshort, if_neg (by omega), show ((r.bytes .binary .old).length -
        (start + r.nodeId.length - 2 : ℤ) + 1) =
          ((r.bytes .binary .old).length - start - r.nodeId.length + 3 : ℕ) by omega,
        toSize_natCast (by omega), List.length_cons, Cbor.length_beBytes] at hreturned
      omega
  · -- the header is that of a shorter path
    have hheader : w.memory[w.request + 1]? = some 0x78 := by
      rw [hw]
      exact header_rewriteBinaryPath hlong (by omega) (by omega) hpos hnodeId (by omega) hlen
    have hbyte : (r.direct .binary)[1]? = w.memory[w.request + 1]? := by
      rw [← hrequest, List.getElem?_take_of_lt (by omega), List.getElem?_drop]
    exact writeHead_getElem?_zero_ne hlarge _ (hbyte.trans hheader)

end ForwardedRequest

/-! ## No id -/

section NoId

variable {o : BinaryDecoderOptions} {tokens : ℕ → JsmnTok} {mode : RequestMode} {memory : Bytes} {n : ℕ}

theorem rewriteBinary_of_new (hpos : 0 < n) (hn : n ≤ memory.length) (hlen : memory.length < 2 ^ 63)
    {c : RequestContext} (hforward : c.isForward = true)
    (hcut : (memory.getD 1 0).toNat / 32 = 3 → (memory.getD 1 0).toNat % 32 ≤ 23 →
      2 + (memory.getD 1 0).toNat % 32 ≤ n)
    (hid : c.carriedId .binary memory n = none ∨ c.carriedId .binary memory n = some []) :
    (c.rewriteBinary memory n).length = 0 ↔
      c.carriedId .binary memory n = none ∨ c.isForward = true ∧ n = 2 := by
  rw [RequestContext.carriedId, if_pos hforward] at hid ⊢
  rw [RequestContext.rewriteBinary, if_pos hforward, RequestContext.rewriteBinaryForward]
  dsimp only at hid ⊢
  by_cases hmajor : (memory.getD 1 0).toNat / 32 = 3
  · by_cases hinfo : (memory.getD 1 0).toNat % 32 ≤ zcborValueInHeader
    · have hle := hcut hmajor hinfo
      rw [if_pos ⟨hmajor, hinfo, hle⟩] at hid
      rw [if_pos hmajor, if_pos hinfo, if_pos ⟨hmajor, hinfo, hle⟩]
      rcases hid with hnone | hempty
      · exact absurd hnone (Option.some_ne_none _)
      · have hzero : (memory.getD 1 0).toNat % 32 = 0 := by
          have hlength := congrArg List.length (Option.some.inj hempty)
          rw [List.length_take, List.length_drop, List.length_nil] at hlength
          omega
        dsimp only
        rw [hzero, show (n : ℤ) - (1 + 1 + 0 : ℕ) = (n - 2 : ℕ) by omega, toSize_natCast (by omega)]
        simp only [reduceCtorEq, hforward, true_and, false_or]
        omega
    · rw [if_pos hmajor, if_neg hinfo, if_neg (fun h => hinfo h.2.1)]
      exact ⟨fun _ => .inl rfl, fun _ => rfl⟩
  · rw [if_neg hmajor, if_neg (fun h => hmajor h.1)]
    exact ⟨fun _ => .inl rfl, fun _ => rfl⟩

theorem rewriteText_of_new {c : RequestContext} (hpos : 0 < n) (hforward : c.isForward = true)
    (hid : c.carriedId .text memory n = some []) : (c.rewriteText memory n).length = 0 ↔ n = 1 := by
  rw [RequestContext.carriedId, if_pos hforward] at hid
  have hempty := Option.some.inj hid
  rw [RequestContext.rewriteText, if_pos hforward]
  simp only [hempty, List.length_nil]
  omega

/-- With an empty id, `rewriteBinary` returns more than it was given. -/
theorem rewriteBinary_of_old {c : RequestContext} (hn : 1 < n) (hlen : n < 2 ^ 63)
    (hforward : c.isForward = false) (hid : RequestContext.tryGetNodeId (c.path.getD []) = some []) :
    (c.rewriteBinary memory n).length ≠ 0 := by
  have hsearch : (memory.take (n - 1)).search [] = 0 := by
    cases memory.take (n - 1) with
    | nil => rfl
    | cons x xs => rfl
  rw [RequestContext.rewriteBinary, hforward, if_neg Bool.false_ne_true]
  simp only [hid, hsearch]
  rw [if_neg (by omega), RequestContext.rewriteBinaryPath]
  dsimp only
  split
  · dsimp only
    rw [show (n : ℤ) - ((0 : ℕ) + ([] : Bytes).length + 1 - 1 - 1) + 1 = (n + 2 : ℕ) by simp; omega,
      toSize_natCast (by omega)]
    omega
  · dsimp only
    rw [show (n : ℤ) - ((0 : ℕ) + ([] : Bytes).length + 1 - 2 - 1) + 1 = (n + 3 : ℕ) by simp; omega,
      toSize_natCast (by omega)]
    omega

theorem rewriteText_of_old {c : RequestContext} (hn : 2 < n) (hlen : n < 2 ^ 63)
    (hforward : c.isForward = false) (hid : RequestContext.tryGetNodeId (c.path.getD []) = some []) :
    (c.rewriteText memory n).length ≠ 0 := by
  rw [RequestContext.rewriteText, hforward, if_neg Bool.false_ne_true]
  simp only [hid, List.length_nil]
  rw [show (n : ℤ) - (0 + 2 : ℕ) = (n - 2 : ℕ) by omega, toSize_natCast (by omega)]
  omega

theorem length_of_tryGetNodeId {path nodeId : Bytes}
    (h : RequestContext.tryGetNodeId path = some nodeId) : 2 ≤ path.length := by
  rw [RequestContext.tryGetNodeId] at h
  split at h
  · rename_i hmem
    have hlength := List.length_pos_of_mem hmem
    rw [List.length_drop] at hlength
    omega
  · cases h

/-- The path of a text request is in the request. -/
theorem length_path_contextOf_text (o : BinaryDecoderOptions) (tokens : ℕ → JsmnTok) (memory : Bytes)
    (n : ℕ) :
    (((contextOf o tokens .text memory n).path).getD []).length ≤ n - 1 := by
  rw [contextOf, textRequestContext]
  dsimp only
  split
  · rename_i i hi
    have hlt := (List.findIdx?_eq_some_iff_getElem.1 hi).1
    rw [List.length_take] at hlt
    simp only [Option.getD_some, List.length_take]
    omega
  · simp only [Option.getD_some, List.length_take]
    omega

/-- **What `rewrite` returns without an id.** -/
theorem rewrite_of_carriedId (hZ : o.zcbor.StringLaws) (hpos : 0 < n) (hn : n ≤ memory.length)
    (hlen : memory.length < 2 ^ 63) (hvalid : (contextOf o tokens mode memory n).hasValidEndpoint = true)
    (hid : (contextOf o tokens mode memory n).carriedId mode memory n = none ∨
      (contextOf o tokens mode memory n).carriedId mode memory n = some []) :
    ((contextOf o tokens mode memory n).rewrite mode memory n).length = 0 ↔
      (contextOf o tokens mode memory n).carriedId mode memory n = none ∨
        (contextOf o tokens mode memory n).isForward = true ∧ n = emptyIdEnd mode := by
  have hone : mode = .binary → n ≠ 1 := by
    rintro rfl rfl
    rw [contextOf_binary_one hZ] at hvalid
    exact Bool.noConfusion hvalid
  have hcut : mode = .binary → (memory.getD 1 0).toNat / 32 = 3 → (memory.getD 1 0).toNat % 32 ≤ 23 →
      2 + (memory.getD 1 0).toNat % 32 ≤ n := by
    rintro rfl hmajor hinfo
    by_contra hshort
    rw [contextOf_binary_short hZ hpos hn hmajor hinfo (by omega)] at hvalid
    exact Bool.noConfusion hvalid
  by_cases hforward : (contextOf o tokens mode memory n).isForward = true
  · cases mode with
    | binary => exact rewriteBinary_of_new hpos hn hlen hforward (hcut rfl) hid
    | text =>
      have hsome : (contextOf o tokens .text memory n).carriedId .text memory n ≠ none := by
        rw [RequestContext.carriedId, if_pos hforward]
        exact Option.some_ne_none _
      rw [RequestContext.rewrite, rewriteText_of_new hpos hforward (hid.resolve_left hsome)]
      simp only [hsome, hforward, true_and, false_or, emptyIdEnd]
  · rw [Bool.not_eq_true] at hforward
    have hcarried : (contextOf o tokens mode memory n).carriedId mode memory n =
        RequestContext.tryGetNodeId ((contextOf o tokens mode memory n).path.getD []) := by
      rw [RequestContext.carriedId.eq_def, hforward, if_neg Bool.false_ne_true]
    rw [hcarried] at hid ⊢
    rw [hforward]
    simp only [Bool.false_eq_true, false_and, or_false]
    rcases hid with hnone | hempty
    · refine iff_of_true ?_ hnone
      cases mode with
      | binary =>
        rw [RequestContext.rewrite, RequestContext.rewriteBinary, hforward, if_neg Bool.false_ne_true]
        simp only [hnone]
      | text =>
        rw [RequestContext.rewrite, RequestContext.rewriteText, hforward, if_neg Bool.false_ne_true]
        simp only [hnone]
    · refine iff_of_false ?_ (by rw [hempty]; exact Option.some_ne_none _)
      cases mode with
      | binary =>
        have := hone rfl
        exact rewriteBinary_of_old (by omega) (by omega) hforward hempty
      | text =>
        have hslash := length_of_tryGetNodeId hempty
        have hle := length_path_contextOf_text o tokens memory n
        exact rewriteText_of_old (by omega) (by omega) hforward hempty

/-! ## When `rewrite` does its work -/

/-- **When `rewrite` does its work**: of a request with an id, it leaves what a client would send to the
node, exactly if the request is in the new style; of a request without one it returns 0, exactly if it does
not take the empty string for the id, or nothing follows this. -/
theorem rewrite_iff (hZ : o.zcbor.StringLaws) :
    (∀ (r : ForwardedRequest) (style : ForwardStyle) (tail : Bytes), r.Valid mode →
      (r.bytes mode style ++ tail).length < 2 ^ 63 →
      ((r.rewrite o tokens mode style tail).Yields r.nodeId (r.direct mode) ↔ style = .new)) ∧
    ∀ (memory : Bytes) (n : ℕ), 0 < n → n ≤ memory.length → memory.length < 2 ^ 63 →
      (contextOf o tokens mode memory n).hasValidEndpoint = true →
      (contextOf o tokens mode memory n).carriedId mode memory n = none ∨
        (contextOf o tokens mode memory n).carriedId mode memory n = some [] →
      (((contextOf o tokens mode memory n).rewrite mode memory n).length = 0 ↔
        (contextOf o tokens mode memory n).carriedId mode memory n = none ∨
          (contextOf o tokens mode memory n).isForward = true ∧ n = emptyIdEnd mode) := by
  refine ⟨fun r style tail hr hlen => ?_, fun memory n hpos hn hlen hvalid hid =>
    rewrite_of_carriedId hZ hpos hn hlen hvalid hid⟩
  cases style with
  | new =>
    refine iff_of_true ?_ rfl
    cases mode with
    | binary =>
      rw [List.length_append] at hlen
      exact r.yields_binary_new hr tail (by omega)
    | text => exact r.yields_text_new hr tail
  | old =>
    refine iff_of_false ?_ (by simp)
    cases mode with
    | binary => exact r.not_yields_binary_old hZ hr tail hlen
    | text => exact r.not_yields_text_old hr tail

end NoId

/-! ## Requests that are not rewritten -/

/-- The request of the tests, as bytes: the node `deadbeef12345678`, and the path `Something`. -/
def somethingRequest (verb : UInt8) : ForwardedRequest where
  verb := verb
  nodeId := [0x64, 0x65, 0x61, 0x64, 0x62, 0x65, 0x65, 0x66, 0x31, 0x32, 0x33, 0x34, 0x35, 0x36, 0x37, 0x38]
  path := [0x53, 0x6F, 0x6D, 0x65, 0x74, 0x68, 0x69, 0x6E, 0x67]
  payload := []

theorem somethingRequest_valid : (somethingRequest 0x01).Valid .binary ∧ (somethingRequest 0x3F).Valid .text :=
  ⟨⟨by decide, by decide +kernel, by decide, by decide, by decide⟩,
    ⟨by decide, by decide +kernel, by decide, by decide, by decide⟩⟩

/-- The tokens of a decoder that has not parsed anything. -/
def noTokens : ℕ → JsmnTok := fun _ => ⟨.undefined, -1, -1⟩

/-- `rewrite_iff` at the request of the tests. -/
theorem somethingRequest_rewrite :
    (((somethingRequest 0x01).rewrite { zcbor := zcborReference } noTokens .binary .new []).Yields
      (somethingRequest 0x01).nodeId ((somethingRequest 0x01).direct .binary) ↔
        ForwardStyle.new = .new) :=
  (rewrite_iff zcborReference_stringLaws).1 (somethingRequest 0x01) .new [] somethingRequest_valid.1 (by decide)

/-- In the old style, the length of the request of the tests is 12 instead of 11 in binary, and a slash takes
the place of the verb in text; the text request `>?` has no id, and one byte is left of it. -/
theorem somethingRequest_not_rewrite :
    ((somethingRequest 0x01).rewrite { zcbor := zcborReference } noTokens .binary .old []).length = 12 ∧
      ((somethingRequest 0x01).direct .binary).length = 11 ∧
      ¬ ((somethingRequest 0x01).rewrite { zcbor := zcborReference } noTokens .binary .old []).Yields
        (somethingRequest 0x01).nodeId ((somethingRequest 0x01).direct .binary) ∧
      ¬ ((somethingRequest 0x3F).rewrite { zcbor := zcborReference } noTokens .text .old []).Yields
        (somethingRequest 0x3F).nodeId ((somethingRequest 0x3F).direct .text) ∧
      (contextOf { zcbor := zcborReference } noTokens .text [0x3E, 0x3F] 2).carriedId .text [0x3E, 0x3F] 2 =
        some [] ∧
      ((contextOf { zcbor := zcborReference } noTokens .text [0x3E, 0x3F] 2).rewrite .text
        [0x3E, 0x3F] 2).length = 1 := by
  have hbinary :
      ((somethingRequest 0x01).rewrite { zcbor := zcborReference } noTokens .binary .old []).length = 12 := by
    decide +kernel
  refine ⟨hbinary, by decide, fun h => ?_, fun h => ?_, by decide +kernel, by decide +kernel⟩
  · rw [h.length] at hbinary
    exact absurd hbinary (by decide)
  · exact absurd h.request (by decide +kernel)

end ThingSet
