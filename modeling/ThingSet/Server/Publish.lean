import ThingSet.Streaming.Items

/-!
# Publishing a subset

`ThingSetServer::publish` counts the nodes of a subset for the header of a map and encodes them one after the other.
Saving leaves out the nodes that are not encodable; publishing counts them, and gives up at the first one.

* `Published`: the report is what it is meant to be.
* `published_iff_encodable`: it is, when all nodes of the subset are encodable, and only then.
-/

namespace ThingSet

open Interaction Prog

namespace ThingSetPersistence

variable {ι V A ω : Type} (P : ThingSetPersistence ι V A)

/-- Whether a node is encodable. -/
def Encodable (n : ι) : Prop := (P.registry.node n).kind.tryCastTo .encodable = true

instance (n : ι) : Decidable (P.Encodable n) := inferInstanceAs (Decidable (_ = true))

/-- The loop of `publish` on a node of the subset. -/
def encodeNodeOf (w : World ι V A) (n : ι) : Encoding Bool :=
  if P.Encodable n then
    encodeAll [encode (.uint .w16 (P.registry.node n).id), P.registry.encodeNode w sizeMax n]
  else pure false

/-- What `publish` encodes. -/
def encodeReport (w : World ι V A) (subset : UInt32) : Encoding Bool :=
  encodeAll (encode (.uint .w32 subset.toNat) ::
    encode (.mapStart (some (P.nodesInSubset subset).length)) ::
    ((P.nodesInSubset subset).map (P.encodeNodeOf w) ++ [encode (.mapEnd none)]))

/-- `ThingSetServer::publish`, with the publishing encoder of its transport. -/
def publish (C : StreamingEncoder ω) (Z : ZcborStreamEncode) (w : World ι V A) (subset : UInt32) (out : ω) :
    Bool × StreamingEncodeState ω :=
  let (ok, s) := run (C.toEncoder Z) (P.encodeReport w subset) (C.new 2 out)
  if ok then C.flush s else (false, s)

/-- The id and the value of a node, as they are encoded. -/
def pairOf (w : World ι V A) (n : ι) : Bytes :=
  Cbor.writeHead 0 (P.registry.node n).id ++ bytesOf (P.registry.encodeNode w sizeMax n)

/-- `publish` returns true, and the report is the id of the subset and a map with as many pairs as its header says,
one for each encodable node whose mask contains all bits of the subset. -/
def Published (C : StreamingEncoder ω) (Z : ZcborStreamEncode) (w : World ι V A) (subset : UInt32) (out : ω) : Prop :=
  (P.publish C Z w subset out).1 = true ∧ ∃ nodes : List ι, nodes.Nodup ∧
    (∀ n, n ∈ nodes ↔ n ∈ P.registry.nodes ∧ P.Encodable n ∧ P.subsets n &&& subset = subset) ∧
    (P.publish C Z w subset out).2.chunks.flatten = C.reportType.toList ++
      (Cbor.writeHead 0 subset.toNat ++ (Cbor.writeHead 5 nodes.length ++ nodes.flatMap (P.pairOf w)))

/-- The encodable values of a subset can be encoded for chunks of `size` bytes, in which there is room for the header
of a map, and every node is registered once. -/
structure Carries (size : ℕ) (w : World ι V A) (subset : UInt32) : Prop where
  size_le : 5 ≤ size
  nodes_lt : P.registry.nodes.length < 2 ^ 32
  nodup : P.registry.nodes.Nodup
  values : ∀ n ∈ P.nodesInSubset subset, P.Encodable n → Carried size 1 1 (P.registry.encodeNode w sizeMax n)

variable {P} {C : StreamingEncoder ω} {Z : ZcborStreamEncode} {w : World ι V A} {subset : UInt32} {out : ω}

theorem publish_eq : P.publish C Z w subset out =
    if (run (C.toEncoder Z) (P.encodeReport w subset) (C.new 2 out)).1 then
      C.flush (run (C.toEncoder Z) (P.encodeReport w subset) (C.new 2 out)).2
    else (false, (run (C.toEncoder Z) (P.encodeReport w subset) (C.new 2 out)).2) := rfl

theorem mem_nodesInSubset {n : ι} :
    n ∈ P.nodesInSubset subset ↔ n ∈ P.registry.nodes ∧ P.subsets n &&& subset = subset := by
  rw [nodesInSubset, List.mem_filter, decide_eq_true_iff]

/-! ## A node that is not encodable -/

theorem always_encodeAll_eq_false {p : Encoding Bool} {ps : List (Encoding Bool)} (hp : p ∈ ps)
    (h : Always (· = false) p) : Always (· = false) (encodeAll ps) := by
  induction ps with
  | nil => exact absurd hp List.not_mem_nil
  | cons q ps ih =>
    rcases List.mem_cons.1 hp with rfl | hp
    · refine h.bind fun ok hok => ?_
      rw [hok]
      rfl
    · refine always_bind_of_forall fun ok => ?_
      cases ok with
      | false => rfl
      | true => exact ih hp

/-- `publish` gives up at a node that is not encodable. -/
theorem encodable_of_publish (h : (P.publish C Z w subset out).1 = true) :
    ∀ n ∈ P.nodesInSubset subset, P.Encodable n := by
  intro n hn
  by_contra hencodable
  have hnode : P.encodeNodeOf w n = pure false := if_neg hencodable
  have hmem : pure false ∈ encode (.uint .w32 subset.toNat) ::
      encode (.mapStart (some (P.nodesInSubset subset).length)) ::
      ((P.nodesInSubset subset).map (P.encodeNodeOf w) ++ [encode (.mapEnd none)]) := by
    rw [← hnode]
    exact List.mem_cons_of_mem _ (List.mem_cons_of_mem _ (List.mem_append_left _ (List.mem_map_of_mem hn)))
  have hfalse := (always_encodeAll_eq_false hmem rfl).run (C.toEncoder Z) (C.new 2 out)
  rw [publish_eq, encodeReport, hfalse, if_neg Bool.false_ne_true] at h
  exact Bool.false_ne_true h

/-! ## Encodable nodes -/

theorem length_writeHead_le_five {n : ℕ} (major : ℕ) (hn : n < 2 ^ 32) : (Cbor.writeHead major n).length ≤ 5 := by
  unfold Cbor.writeHead
  split_ifs <;> simp; omega

section

variable {size : ℕ} (h : P.Carries size w subset)

include h

/-- The pair of an encodable node can be carried. -/
theorem carried_encodeNodeOf {n : ι} (hn : n ∈ P.nodesInSubset subset) (hencodable : P.Encodable n) :
    Carried size 1 1 (P.encodeNodeOf w n) := by
  rw [encodeNodeOf, if_pos hencodable]
  have hid := Cbor.length_writeHead_le 0 (P.registry.node n).id_lt
  exact (carried_call rfl (by exact hid.trans (by have := h.size_le; omega)) rfl).cons
    ((h.values n hn hencodable).cons carried_nil)

theorem carried_encodeReport (hall : ∀ n ∈ P.nodesInSubset subset, P.Encodable n) :
    Carried size 0 0 (P.encodeReport w subset) := by
  have hsubset : (Cbor.writeHead 0 subset.toNat).length ≤ 5 := length_writeHead_le_five 0 subset.toNat_lt
  have hlen : (P.nodesInSubset subset).length < 2 ^ 32 := (List.length_filter_le _ _).trans_lt h.nodes_lt
  have hmap := length_writeHead_le_five 5 hlen
  refine (carried_call rfl (hsubset.trans h.size_le) rfl).cons ((carried_call rfl (hmap.trans h.size_le) rfl).cons ?_)
  refine carried_encodeAll_append (d := 1) (fun p hp => ?_) ((carried_call rfl (Nat.zero_le _) rfl).cons carried_nil)
  obtain ⟨n, hn, rfl⟩ := List.mem_map.1 hp
  exact carried_encodeNodeOf h hn (hall n hn)

theorem bytesOf_encodeNodeOf {n : ι} (hn : n ∈ P.nodesInSubset subset) (hencodable : P.Encodable n) :
    bytesOf (P.encodeNodeOf w n) = P.pairOf w n := by
  rw [encodeNodeOf, if_pos hencodable, bytesOf_encodeAll_cons rfl, bytesOf_call rfl,
    bytesOf_encodeAll_cons (h.values n hn hencodable).ok]
  exact congrArg _ (List.append_nil _)

theorem bytesOf_encodeReport (hall : ∀ n ∈ P.nodesInSubset subset, P.Encodable n) :
    bytesOf (P.encodeReport w subset) = Cbor.writeHead 0 subset.toNat ++
      (Cbor.writeHead 5 (P.nodesInSubset subset).length ++ (P.nodesInSubset subset).flatMap (P.pairOf w)) := by
  have hok : ∀ p ∈ (P.nodesInSubset subset).map (P.encodeNodeOf w), (trace binaryAnswer p).1 = true := by
    intro p hp
    obtain ⟨n, hn, rfl⟩ := List.mem_map.1 hp
    exact (carried_encodeNodeOf h hn (hall n hn)).ok
  have hpairs : ((P.nodesInSubset subset).map (P.encodeNodeOf w)).flatMap bytesOf =
      (P.nodesInSubset subset).flatMap (P.pairOf w) := by
    rw [List.flatMap_map]
    exact List.flatMap_congr fun n hn => bytesOf_encodeNodeOf h hn (hall n hn)
  have hend : bytesOf (encodeAll [encode (.mapEnd none)]) = [] := rfl
  rw [encodeReport, bytesOf_encodeAll_cons rfl, bytesOf_encodeAll_cons rfl, bytesOf_encodeAll_append hok, hpairs, hend,
    List.append_nil, bytesOf_call rfl, bytesOf_call rfl]
  rfl

end

/-- **If one node of a subset is not encodable, `publish` does not succeed, and if all are and their values can be
encoded, the report is what it is meant to be.** -/
theorem published_iff_encodable (hC : C.Accepts) (hZ : Z.AppendsItems itemReference) (haccepts : Z.AcceptsItems) :
    (P.Published C Z w subset out → ∀ n ∈ P.nodesInSubset subset, P.Encodable n) ∧
      (P.Carries C.dataSize w subset → (∀ n ∈ P.nodesInSubset subset, P.Encodable n) →
        P.Published C Z w subset out) := by
  refine ⟨fun h => encodable_of_publish h.1, fun h hall => ?_⟩
  obtain ⟨hok, hflush, hchunks⟩ := StreamingEncoder.run_of_carried hC hZ haccepts (carried_encodeReport h hall) 2 out
  rw [bytesOf_encodeReport h hall] at hchunks
  rw [Published, publish_eq, if_pos hok]
  refine ⟨hflush, P.nodesInSubset subset, h.nodup.filter _, fun n => ?_, hchunks⟩
  rw [mem_nodesInSubset]
  constructor
  · rintro ⟨hn, hsubset⟩
    exact ⟨hn, hall n (mem_nodesInSubset.2 ⟨hn, hsubset⟩), hsubset⟩
  · rintro ⟨hn, -, hsubset⟩
    exact ⟨hn, hsubset⟩

end ThingSetPersistence

/-! ## A property and the proxy of a record member -/

/-- Reports in CAN FD frames, all of which are sent. -/
def canReport : StreamingEncoder (UInt8 × Unit) :=
  streamingCanEncoder 64 (Nat.succ_pos 63) false fun _ _ _ t => (true, t)

/-- The world in which every value is 7. -/
def sevens : World SmallNode ℕ Unit := ⟨fun _ => 7, fun _ _ => 7, fun _ => [], ()⟩

/-- The report of the subset 1, `1F 01 A1 18 22 07`. -/
theorem persistedProperty_published :
    persistedProperty.Published canReport zcborStreamReference sevens persisted (0, ()) := by
  have hcarries : persistedProperty.Carries 64 sevens persisted := by
    refine ⟨by decide, by decide +kernel, by decide +kernel, fun n hn _ => ?_⟩
    obtain rfl : n = .a := by
      revert hn
      cases n <;> decide +kernel
    exact carried_call (o := .uint .w8 7) (by decide +kernel) (by decide) rfl
  exact (ThingSetPersistence.published_iff_encodable (fun _ _ _ _ => rfl) zcborStreamReference_appendsItems
    zcborStreamReference_acceptsItems).2 hcarries (by decide +kernel)

/-- The nodes of a registry with that property and the proxy of a record member. -/
def memberProxyNode : SmallNode → Node SmallNode ℕ Unit
  | .b => .ofIds [0x62] 35 0 0x77 .recordMemberProxy
  | n => onePropertyNode n

/-- The registry: the property and the record member are in the subset 1. -/
def withMemberProxy : ThingSetPersistence SmallNode ℕ Unit where
  registry := { persistedProperty.registry with
    node := memberProxyNode
    nodeMap := bucketsOf memberProxyNode [.root, .metadata, .a, .b] }
  subsets n := if n = .a ∨ n = .b then persisted else 0

/-- **Nothing is published of a subset with a record member, nor of the subset 0**, which has the node `_Metadata`. -/
theorem withMemberProxy_not_published :
    ¬ withMemberProxy.Published canReport zcborStreamReference sevens persisted (0, ()) ∧
      ¬ persistedProperty.Published canReport zcborStreamReference sevens 0 (0, ()) := by
  refine ⟨fun h => ?_, fun h => ?_⟩
  · exact absurd h.1 (by decide +kernel)
  · exact absurd h.1 (by decide +kernel)

end ThingSet
