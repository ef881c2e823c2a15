import ThingSet.Registry.Buckets
import Mathlib.Tactic.FinCases

/-!
# Record members by id and parent

Record members share the lookup buckets with the ordinary nodes, under the effective id that
`calculateId` makes of their id and their parent's. It takes the parent's id modulo 255, so it is
not injective; and the lookup by id and parent first looks the parent up by its raw id, which only
finds ordinary nodes.

`registerAll_iff` says for which sets of nodes no registration is rejected and every member is
found under its parent (`Distinguishable`).
-/

namespace ThingSet

open Chain IntrusiveLinkedList

/-- An ordinary node that `findById(id, parentId)` accepts as the parent. -/
structure NodeInfo.IsRecordArray (n : NodeInfo) : Prop where
  ordinary : n.recordMember = false
  hasChildren : n.hasChildren = true
  record : n.record = true

namespace ThingSetRegistry

variable {ι : Type} [DecidableEq ι] [Fintype ι] {N : Nodes ι} {r r' : ThingSetRegistry ι}
  {ns : List ι} {n m : ι}

/-! ## Lookup by id and parent -/

omit [DecidableEq ι] in
theorem Buckets.search_recordMember (h : Buckets N r ns) (id parentId : ℕ) :
    search r.list (fun n => (N.info n).id == id && (N.info n).parentId == parentId) (rounds ι)
        (r.nodeMap (bucketOf (calculateId id parentId))).head =
      some (ns.find? fun n => (N.info n).recordMember &&
        ((N.info n).id == id && (N.info n).parentId == parentId)) := by
  have hpath := (h.holds (bucketOf (calculateId id parentId))).path
  rw [search_of_path _ hpath hpath.length_lt, List.find?_filter]
  congr 2
  funext n
  by_cases heq : (N.info n).id = id ∧ (N.info n).parentId = parentId
  · obtain ⟨rfl, rfl⟩ := heq
    by_cases hm : (N.info n).recordMember = true
    · simp [hm, effectiveId, NodeInfo.effectiveId]
    · have hm : (N.info n).recordMember = false := by simpa using hm
      -- an ordinary node is in the bucket of its raw id, which is another one
      have hb : bucketOf (effectiveId N n) ≠
          bucketOf (calculateId (N.info n).id (N.info n).parentId) := by
        simp only [effectiveId, NodeInfo.effectiveId_of_ordinary hm, bucketOf, calculateId, ne_eq,
          Fin.mk.injEq]
        omega
      simp [hm, hb]
  · have : ((N.info n).id == id && (N.info n).parentId == parentId) = false := by simpa using heq
    simp [this]

omit [DecidableEq ι] in
/-- `findById(id, parentId)` finds the member with that id and that parent, if the parent is an
ordinary record array. -/
theorem Buckets.findByIdAndParent_eq_some_iff (h : Buckets N r ns) (id parentId : ℕ) (m : ι) :
    r.findByIdAndParent N id parentId = some (some m) ↔
      (∃ p ∈ ns, (N.info p).IsRecordArray ∧ (N.info p).id = parentId) ∧
        m ∈ ns ∧ (N.info m).recordMember = true ∧ (N.info m).id = id ∧
          (N.info m).parentId = parentId := by
  have hfind : ∀ m, (ns.find? fun n => (N.info n).recordMember &&
      ((N.info n).id == id && (N.info n).parentId == parentId)) = some m ↔
        m ∈ ns ∧ (N.info m).recordMember = true ∧ (N.info m).id = id ∧
          (N.info m).parentId = parentId := fun m => by
    rw [find?_eq_some_iff_of_unique]
    · simp
    · intro n hn m hm hfn hfm
      simp only [Bool.and_eq_true, beq_iff_eq] at hfn hfm
      refine h.eq_of_effectiveId hn hm ?_
      rw [effectiveId, effectiveId, NodeInfo.effectiveId_of_recordMember hfn.1,
        NodeInfo.effectiveId_of_recordMember hfm.1, hfn.2.1, hfn.2.2, hfm.2.1, hfm.2.2]
  rw [← hfind m, findByIdAndParent, findParentById]
  rcases hp : r.findById N parentId with _ | _ | p
  · simp [h.findById_eq] at hp
  · have hnone := (h.findById_eq_none_iff parentId).1 hp
    simp only [Option.map_some, Option.filter_none, Option.bind_eq_bind, Option.bind_some,
      Option.some.injEq, reduceCtorEq, false_iff, not_and]
    rintro ⟨q, hmem, hq, hid⟩
    exact absurd hid (hnone q hmem hq.ordinary)
  · obtain ⟨hmem, hord, hid⟩ := (h.findById_eq_some_iff parentId p).1 hp
    have hparent : (∃ p ∈ ns, (N.info p).IsRecordArray ∧ (N.info p).id = parentId) ↔
        (N.info p).hasChildren = true ∧ (N.info p).record = true := by
      constructor
      · rintro ⟨q, hq, hrec, rfl⟩
        have := (h.findById_eq_some_iff _ q).2 ⟨hq, hrec.ordinary, rfl⟩
        obtain rfl : p = q := by simpa [hp] using this
        exact ⟨hrec.hasChildren, hrec.record⟩
      · rintro ⟨hchildren, hrecord⟩
        exact ⟨p, hmem, ⟨hord, hchildren, hrecord⟩, hid⟩
    rw [hparent]
    by_cases hchildren : (N.info p).hasChildren = true
    · by_cases hrecord : (N.info p).record = true
      · simp [hchildren, hrecord, h.search_recordMember, Option.filter_some]
      · simp [hchildren, hrecord, Option.filter_some]
    · simp [hchildren, Option.filter_some]

/-! ## Registering a set of nodes -/

/-- Register the nodes of a list, in its order. -/
def registerAll (N : Nodes ι) (ns : List ι) : Option (ThingSetRegistry ι) :=
  (initial N).run N (ns.map .registerNode)

theorem run_registerNode (h : Buckets N r ns) (ms : List ι)
    (hnodup : ((ns ++ ms).map (effectiveId N)).Nodup) :
    ∃ r', r.run N (ms.map .registerNode) = some r' ∧ Buckets N r' (ns ++ ms) := by
  induction ms generalizing r ns with
  | nil => exact ⟨r, rfl, by simpa using h⟩
  | cons m ms ih =>
    have hm : effectiveId N m ∉ ns.map (effectiveId N) := by
      simp only [List.map_append, List.map_cons, List.nodup_append, List.mem_cons] at hnodup
      exact fun hmem => hnodup.2.2 _ hmem _ (.inl rfl) rfl
    obtain ⟨r₁, hr₁, h₁⟩ := registerNode_buckets h m
    rw [register, if_neg hm] at h₁
    obtain ⟨r', hr', h'⟩ := ih h₁ (by simpa using hnodup)
    refine ⟨r', ?_, by simpa using h'⟩
    rw [List.map_cons, run, call, hr₁, Option.bind_some, hr']

/-- When no registration of a set of nodes is rejected and each of its members is found. -/
structure Distinguishable (N : Nodes ι) (ns : List ι) : Prop where
  /-- No two members have the same id and parent ids that are equal modulo 255. -/
  members : ∀ n ∈ ns, ∀ m ∈ ns, (N.info n).recordMember = true → (N.info m).recordMember = true →
    (N.info n).id = (N.info m).id → (N.info n).parentId % 255 = (N.info m).parentId % 255 → n = m
  /-- No ordinary node has the id after that of a member whose parent id is a multiple of 255. -/
  ordinary : ∀ m ∈ ns, (N.info m).recordMember = true → (N.info m).parentId % 255 = 0 →
    ∀ n ∈ N.rootNode :: N.metadataNode :: ns, (N.info n).recordMember = false →
      (N.info n).id ≠ (N.info m).id + 1
  /-- No ordinary node has the id of the root or the metadata node. -/
  builtin : ∀ n ∈ ns, (N.info n).recordMember = false → (N.info n).id ≠ 0 ∧ (N.info n).id ≠ 25
  /-- The parent of every member is an ordinary record array. -/
  parents : ∀ m ∈ ns, (N.info m).recordMember = true →
    ∃ p ∈ ns, (N.info p).IsRecordArray ∧ (N.info p).id = (N.info m).parentId

omit [DecidableEq ι] [Fintype ι] in
/-- Nodes that are distinguishable and whose ids are distinct have distinct effective ids. -/
theorem Distinguishable.effectiveId_nodup (h : Distinguishable N ns) (hns : ns.Nodup)
    (hordinary : ∀ n ∈ ns, ∀ m ∈ ns, (N.info n).recordMember = false →
      (N.info m).recordMember = false → (N.info n).id = (N.info m).id → n = m) :
    ((N.rootNode :: N.metadataNode :: ns).map (effectiveId N)).Nodup := by
  have hne : N.rootNode ≠ N.metadataNode := fun heq => by
    have := congrArg NodeInfo.id (N.rootNode_info.symm.trans (heq ▸ N.metadataNode_info))
    simp at this
  -- an ordinary node and a member
  have hmixed : ∀ n ∈ N.rootNode :: N.metadataNode :: ns, ∀ m ∈ ns,
      (N.info n).recordMember = false → (N.info m).recordMember = true →
        effectiveId N n ≠ effectiveId N m := fun n hn m hm hno hmm heq => by
    rw [effectiveId, effectiveId, NodeInfo.effectiveId_of_ordinary hno,
      NodeInfo.effectiveId_of_recordMember hmm] at heq
    have hlt := (N.info n).id_lt
    exact h.ordinary m hm hmm (by omega) n hn hno (by omega)
  have hns' : (ns.map (effectiveId N)).Nodup := by
    refine hns.map_on fun n hn m hm heq => ?_
    rcases hnm : (N.info n).recordMember <;> rcases hmm : (N.info m).recordMember
    · rw [effectiveId, effectiveId, NodeInfo.effectiveId_of_ordinary hnm,
        NodeInfo.effectiveId_of_ordinary hmm] at heq
      exact hordinary n hn m hm hnm hmm heq
    · exact absurd heq (hmixed n (by simp [hn]) m hm hnm hmm)
    · exact absurd heq.symm (hmixed m (by simp [hm]) n hn hmm hnm)
    · rw [effectiveId, effectiveId, NodeInfo.effectiveId_of_recordMember hnm,
        NodeInfo.effectiveId_of_recordMember hmm] at heq
      have hn_lt := (N.info n).id_lt
      have hm_lt := (N.info m).id_lt
      exact h.members n hn m hm hnm hmm (by omega) (by omega)
  have hrootId : effectiveId N N.rootNode = 0 := by rw [effectiveId, N.rootNode_info]; rfl
  have hmetadataId : effectiveId N N.metadataNode = 25 := by
    rw [effectiveId, N.metadataNode_info]; rfl
  -- a built-in node and another one
  have hbuiltin : ∀ n ∈ ns, effectiveId N n ≠ 0 ∧ effectiveId N n ≠ 25 := fun n hn => by
    rcases hnm : (N.info n).recordMember
    · rw [effectiveId, NodeInfo.effectiveId_of_ordinary hnm]
      exact h.builtin n hn hnm
    · have hr := hmixed N.rootNode (by simp) n hn (by rw [N.rootNode_info]) hnm
      have hm := hmixed N.metadataNode (by simp) n hn (by rw [N.metadataNode_info]) hnm
      rw [hrootId] at hr
      rw [hmetadataId] at hm
      exact ⟨hr.symm, hm.symm⟩
  simp only [List.map_cons, hrootId, hmetadataId, List.nodup_cons, List.mem_cons, List.mem_map,
    not_or, not_exists, not_and]
  exact ⟨⟨by decide, fun n hn => (hbuiltin n hn).1⟩, fun n hn => (hbuiltin n hn).2, hns'⟩

omit [DecidableEq ι] [Fintype ι] in
/-- Nodes with distinct effective ids, all of whose members have a parent, are distinguishable. -/
theorem distinguishable_of_nodup (hroot : N.rootNode ∉ ns) (hmetadata : N.metadataNode ∉ ns)
    (hnodup : ((N.rootNode :: N.metadataNode :: ns).map (effectiveId N)).Nodup)
    (hparents : ∀ m ∈ ns, (N.info m).recordMember = true →
      ∃ p ∈ ns, (N.info p).IsRecordArray ∧ (N.info p).id = (N.info m).parentId) :
    Distinguishable N ns := by
  have hinj := List.inj_on_of_nodup_map hnodup
  refine ⟨fun n hn m hm hnm hmm hid hparent => ?_, fun m hm hmm hzero n hn hno hid => ?_,
    fun n hn hno => ⟨fun hid => ?_, fun hid => ?_⟩, hparents⟩
  · refine hinj (by simp [hn]) (by simp [hm]) ?_
    rw [effectiveId, effectiveId, NodeInfo.effectiveId_of_recordMember hnm,
      NodeInfo.effectiveId_of_recordMember hmm, hid, hparent]
  · have heq : n = m := hinj hn (by simp [hm]) (by
      rw [effectiveId, effectiveId, NodeInfo.effectiveId_of_ordinary hno,
        NodeInfo.effectiveId_of_recordMember hmm, hzero, hid]
      omega)
    rw [heq, hmm] at hno
    exact absurd hno (by decide)
  · have heq : n = N.rootNode := hinj (by simp [hn]) (by simp) (by
      rw [effectiveId, effectiveId, NodeInfo.effectiveId_of_ordinary hno, N.rootNode_info, hid]
      rfl)
    exact hroot (heq ▸ hn)
  · have heq : n = N.metadataNode := hinj (by simp [hn]) (by simp) (by
      rw [effectiveId, effectiveId, NodeInfo.effectiveId_of_ordinary hno, N.metadataNode_info, hid]
      rfl)
    exact hmetadata (heq ▸ hn)

/-- **A set of nodes with distinct ids can be registered, and each of its members found, exactly
when it is distinguishable.** The ordinary nodes have distinct ids; the nodes are registered in the order of
`ns`, none of them is rejected, and `findById(id, parentId)` finds every member. -/
theorem registerAll_iff (N : Nodes ι) (ns : List ι) (hns : ns.Nodup)
    (hroot : N.rootNode ∉ ns) (hmetadata : N.metadataNode ∉ ns)
    (hordinary : ∀ n ∈ ns, ∀ m ∈ ns, (N.info n).recordMember = false →
      (N.info m).recordMember = false → (N.info n).id = (N.info m).id → n = m) :
    (∃ r, registerAll N ns = some r ∧ Buckets N r (N.rootNode :: N.metadataNode :: ns) ∧
      ∀ m ∈ ns, (N.info m).recordMember = true →
        r.findByIdAndParent N (N.info m).id (N.info m).parentId = some (some m)) ↔
    Distinguishable N ns := by
  constructor
  · rintro ⟨r, -, hb, hfind⟩
    refine distinguishable_of_nodup hroot hmetadata hb.nodup fun m hm hmm => ?_
    obtain ⟨⟨p, hp, hrec, hid⟩, -⟩ := (hb.findByIdAndParent_eq_some_iff _ _ m).1 (hfind m hm hmm)
    refine ⟨p, ?_, hrec, hid⟩
    -- neither the root nor the metadata node is a record array
    simp only [List.mem_cons] at hp
    rcases hp with rfl | rfl | hp
    · simpa [N.rootNode_info] using hrec.record
    · simpa [N.metadataNode_info] using hrec.record
    · exact hp
  · intro h
    obtain ⟨r, hr, hb⟩ := run_registerNode buckets_initial ns
      (h.effectiveId_nodup hns hordinary)
    refine ⟨r, hr, hb, fun m hm hmm => (hb.findByIdAndParent_eq_some_iff _ _ m).2 ⟨?_, ?_⟩⟩
    · obtain ⟨p, hp, hrec⟩ := h.parents m hm hmm
      exact ⟨p, by simp [hp], hrec⟩
    · exact ⟨by simp [hm], hmm, rfl, rfl⟩

/-- Two record arrays, with the ids 1 and `id`, and a member with id 7 of each. -/
def twoArrays (id : UInt16) : Nodes SmallNode where
  info
    | .root => (NodeInfo.ofIds 0 0).withChildren
    | .metadata => (NodeInfo.ofIds 25 0).withChildren
    | .a => (NodeInfo.ofIds 1 0).asRecord
    | .b => (NodeInfo.ofIds id 0).asRecord
    | .c => (NodeInfo.ofIds 7 1).asRecordMember
    | .d => (NodeInfo.ofIds 7 id).asRecordMember
  rootNode := .root
  metadataNode := .metadata
  rootNode_info := rfl
  metadataNode_info := rfl

/-- Arrays with the ids 1 and 2 are told apart. -/
theorem registerAll_adjacentArrays :
    ∃ r, registerAll (twoArrays 2) [.a, .b, .c, .d] = some r ∧
      r.findByIdAndParent (twoArrays 2) 7 2 = some (some .d) := by
  have hdist : Distinguishable (twoArrays 2) [.a, .b, .c, .d] :=
    ⟨by decide, by decide, by decide, fun m hm hmm => by
      fin_cases hm
      · exact absurd hmm (by decide)
      · exact absurd hmm (by decide)
      · exact ⟨.a, by decide, ⟨rfl, rfl, rfl⟩, rfl⟩
      · exact ⟨.b, by decide, ⟨rfl, rfl, rfl⟩, rfl⟩⟩
  obtain ⟨r, hr, -, hfind⟩ := (registerAll_iff (twoArrays 2) [.a, .b, .c, .d] (by decide)
    (by decide) (by decide) (by decide)).2 hdist
  exact ⟨r, hr, hfind .d (by decide) rfl⟩

/-- Arrays with the ids 1 and 256 are not: the member of the second is rejected, and the lookup of
it fails. -/
theorem registerAll_arraysModulo255 :
    ¬ ∃ r, registerAll (twoArrays 256) [.a, .b, .c, .d] = some r ∧
      Buckets (twoArrays 256) r [.root, .metadata, .a, .b, .c, .d] ∧
        ∀ m ∈ [.a, .b, .c, .d], ((twoArrays 256).info m).recordMember = true →
          r.findByIdAndParent (twoArrays 256) ((twoArrays 256).info m).id
            ((twoArrays 256).info m).parentId = some (some m) := by
  rintro ⟨r, -, hb, -⟩
  exact absurd hb.nodup (by decide)

end ThingSetRegistry

end ThingSet
