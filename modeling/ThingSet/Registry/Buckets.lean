import ThingSet.Registry.Basic

/-!
# The lookup buckets

The abstract registry is the list of the registered nodes in the order of their registration: a
node whose effective id is taken is left out, and unregistering erases the node. `Buckets r ns`
says that the buckets of `r` hold the nodes of `ns`, each in the bucket of its effective id.

* `registerNode_buckets`, `unregisterNode_buckets`: the pointer registry follows the abstract one.
* `run_buckets`: so it does over every run, from the registry's own constructor on.
* `Buckets.findById`: a lookup by raw id finds the ordinary node with that id, if there is one,
  and never a record member.
-/

namespace ThingSet

open Chain IntrusiveLinkedList

/-- A call to the registry. -/
inductive RegistryCall (ι : Type)
  | registerNode (node : ι)
  | unregisterNode (node : ι)

namespace ThingSetRegistry

variable {ι : Type} (N : Nodes ι)

/-- The effective id of a node. -/
abbrev effectiveId (n : ι) : ℕ := (N.info n).effectiveId

/-- The buckets of `r` hold the nodes of `ns`, whose effective ids are distinct, and no link leaves
from any other node. -/
structure Buckets (r : ThingSetRegistry ι) (ns : List ι) : Prop where
  holds : ∀ b, Holds r.list (r.nodeMap b) (ns.filter fun n => bucketOf (effectiveId N n) = b)
  free : ∀ n ∉ ns, r.list n = none
  nodup : (ns.map (effectiveId N)).Nodup

variable {N} {r r' : ThingSetRegistry ι} {ns : List ι} {n m : ι}

theorem Buckets.congr (h : Buckets N r ns) (hlist : r'.list = r.list)
    (hmap : r'.nodeMap = r.nodeMap) : Buckets N r' ns :=
  ⟨by rw [hlist, hmap]; exact h.holds, by rw [hlist]; exact h.free, h.nodup⟩

theorem Buckets.nodes_nodup (h : Buckets N r ns) : ns.Nodup := h.nodup.of_map _

/-- The registered node with a given effective id is the only one. -/
theorem Buckets.eq_of_effectiveId (h : Buckets N r ns) (hn : n ∈ ns) (hm : m ∈ ns)
    (heq : effectiveId N n = effectiveId N m) : n = m :=
  List.inj_on_of_nodup_map h.nodup hn hm heq

theorem buckets_empty : Buckets N (empty : ThingSetRegistry ι) [] :=
  ⟨fun _ => holds_nil _, fun _ _ => rfl, .nil⟩

variable [DecidableEq ι]

/-! ## The abstract registry -/

section Abstract

variable (N)

/-- Register a node, unless its effective id is taken. -/
def register (ns : List ι) (n : ι) : List ι :=
  if effectiveId N n ∈ ns.map (effectiveId N) then ns else ns ++ [n]

/-- The registered nodes after a call. -/
def registeredAfter (ns : List ι) : RegistryCall ι → List ι
  | .registerNode n => register N ns n
  | .unregisterNode n => ns.erase n

/-- The registered nodes after a sequence of calls. -/
def registered (calls : List (RegistryCall ι)) : List ι :=
  calls.foldl (registeredAfter N) [N.rootNode, N.metadataNode]

end Abstract

/-! ## The pointer registry -/

section Run

variable (N) [Fintype ι]

/-- Serve a call. -/
def call (r : ThingSetRegistry ι) : RegistryCall ι → Option (ThingSetRegistry ι)
  | .registerNode n => r.registerNode N n
  | .unregisterNode n => r.unregisterNode N n

/-- Serve a sequence of calls. -/
def run (r : ThingSetRegistry ι) : List (RegistryCall ι) → Option (ThingSetRegistry ι)
  | [] => some r
  | c :: calls => (r.call N c).bind fun r => run r calls

end Run

theorem Buckets.pushNode (h : Buckets N r ns) (hn : effectiveId N n ∉ ns.map (effectiveId N)) :
    Buckets N (r.pushNode (bucketOf (effectiveId N n)) n) (ns ++ [n]) := by
  have hmem : n ∉ ns := fun hmem => hn (List.mem_map_of_mem hmem)
  have hfree := h.free n hmem
  refine ⟨fun b => ?_, fun m hm => ?_, ?_⟩
  · by_cases hb : bucketOf (effectiveId N n) = b
    · subst hb
      simp only [ThingSetRegistry.pushNode, Function.update_self, List.filter_append]
      have hpush := pushBack_holds (h.holds (bucketOf (effectiveId N n)))
        (fun hmem' => hmem (List.mem_filter.1 hmem').1) hfree
      simpa using hpush
    · simp only [ThingSetRegistry.pushNode, Function.update_of_ne (Ne.symm hb), List.filter_append]
      simp only [hb, decide_false, List.filter_cons, Bool.false_eq_true, if_false, List.filter_nil,
        List.append_nil]
      refine (h.holds b).congr fun i hi => (pushBack_next (h.holds _) fun hi' => ?_).symm
      simp only [List.mem_filter, decide_eq_true_eq] at hi hi'
      exact hb (hi'.2.symm.trans hi.2)
  · simp only [List.mem_append, List.mem_singleton, not_or] at hm
    exact (pushBack_next (h.holds _) fun hm' => hm.1 (List.mem_filter.1 hm').1).trans
      (h.free m hm.1)
  · rw [List.map_append, List.map_cons, List.map_nil, List.nodup_append]
    refine ⟨h.nodup, by simp, ?_⟩
    rintro i hi j hj rfl
    rw [List.mem_singleton] at hj
    exact hn (hj ▸ hi)

/-- The constructor registers the root and the metadata node. -/
theorem buckets_initial : Buckets N (initial N) [N.rootNode, N.metadataNode] := by
  have hroot : effectiveId N N.rootNode = 0 := by rw [effectiveId, N.rootNode_info]; rfl
  have hmeta : effectiveId N N.metadataNode = 25 := by rw [effectiveId, N.metadataNode_info]; rfl
  have h₁ := (buckets_empty (N := N)).pushNode (n := N.rootNode) (by simp)
  have h₂ := h₁.pushNode (n := N.metadataNode) (by simp [hroot, hmeta])
  rw [hroot, hmeta] at h₂
  rw [initial, N.rootNode_info, N.metadataNode_info]
  exact h₂

theorem foldl_addChild_list (ms : List ι) (r : ThingSetRegistry ι) (p : ι) :
    (ms.foldl (fun r n => r.addChild p n) r).list = r.list ∧
      (ms.foldl (fun r n => r.addChild p n) r).nodeMap = r.nodeMap := by
  induction ms generalizing r with
  | nil => exact ⟨rfl, rfl⟩
  | cons m ms ih => exact ih (r.addChild p m)

variable [Fintype ι]

/-! ## Lookup -/

omit [DecidableEq ι] [Fintype ι] in
/-- A search for the one element that `f` accepts finds it. -/
theorem find?_eq_some_iff_of_unique {f : ι → Bool}
    (h : ∀ n ∈ ns, ∀ m ∈ ns, f n = true → f m = true → n = m) :
    ns.find? f = some n ↔ n ∈ ns ∧ f n = true := by
  constructor
  · exact fun hfind => ⟨List.mem_of_find?_eq_some hfind, List.find?_some hfind⟩
  · rintro ⟨hmem, hf⟩
    rcases hfind : ns.find? f with _ | m
    · exact absurd hf (List.find?_eq_none.1 hfind n hmem)
    · rw [h m (List.mem_of_find?_eq_some hfind) n hmem (List.find?_some hfind) hf]

omit [DecidableEq ι] in
theorem Buckets.findById_eq (h : Buckets N r ns) (id : ℕ) :
    r.findById N id =
      some (ns.find? fun n => !(N.info n).recordMember && (N.info n).id == id) := by
  have hpath := (h.holds (bucketOf id)).path
  rw [findById, findByIdInNodeList, search_of_path _ hpath hpath.length_lt, List.find?_filter]
  congr 2
  funext n
  by_cases hid : (N.info n).id = id
  · subst hid
    by_cases hm : (N.info n).recordMember = true
    · have hb : bucketOf (effectiveId N n) ≠ bucketOf (N.info n).id := fun hb => by
        simp [NodeInfo.recordMember_of_bucketOf hb] at hm
      simp [hm, hb]
    · have hm : (N.info n).recordMember = false := by simpa using hm
      simp [hm, effectiveId, NodeInfo.effectiveId_of_ordinary hm]
  · simp [hid]

omit [DecidableEq ι] in
/-- A lookup by raw id finds the ordinary node with that id and nothing else. -/
theorem Buckets.findById_eq_some_iff (h : Buckets N r ns) (id : ℕ) (n : ι) :
    r.findById N id = some (some n) ↔
      n ∈ ns ∧ (N.info n).recordMember = false ∧ (N.info n).id = id := by
  rw [h.findById_eq, Option.some.injEq, find?_eq_some_iff_of_unique]
  · simp
  · intro n hn m hm hfn hfm
    simp only [Bool.and_eq_true, Bool.not_eq_true', beq_iff_eq] at hfn hfm
    refine h.eq_of_effectiveId hn hm ?_
    rw [effectiveId, effectiveId, NodeInfo.effectiveId_of_ordinary hfn.1,
      NodeInfo.effectiveId_of_ordinary hfm.1, hfn.2, hfm.2]

omit [DecidableEq ι] in
/-- A lookup by raw id fails when no ordinary node has that id. -/
theorem Buckets.findById_eq_none_iff (h : Buckets N r ns) (id : ℕ) :
    r.findById N id = some none ↔
      ∀ n ∈ ns, (N.info n).recordMember = false → (N.info n).id ≠ id := by
  rw [h.findById_eq, Option.some.injEq, List.find?_eq_none]
  refine forall₂_congr fun n _ => ?_
  simp

/-- The parent node with a given raw id. -/
def parentById (N : Nodes ι) (ns : List ι) (id : ℕ) : Option ι :=
  (ns.find? fun n => !(N.info n).recordMember && (N.info n).id == id).filter
    fun n => (N.info n).hasChildren

omit [DecidableEq ι] in
theorem Buckets.findParentById_eq (h : Buckets N r ns) (id : ℕ) :
    r.findParentById N id = some (parentById N ns id) := by
  rw [findParentById, h.findById_eq]
  rfl

omit [DecidableEq ι] in
theorem Buckets.nodes_eq (h : Buckets N r ns) :
    r.nodes = some ((List.finRange 8).map fun b =>
      ns.filter fun n => bucketOf (effectiveId N n) = b).flatten := by
  have htraverse : (fun b => traverse r.list (rounds ι) (r.nodeMap b).head) =
      fun b => pure (ns.filter fun n => bucketOf (effectiveId N n) = b) :=
    funext fun b => traverse_eq_some_iff.2 (h.holds b).path
  rw [nodes, htraverse, List.mapM_pure]
  rfl

/-! ## The parent's half -/

/-- The parent that `registerOrUnregisterNode` links a node to, or unlinks it from. -/
def linkParent (N : Nodes ι) (ns : List ι) (n : ι) : Option ι :=
  if (N.info n).parentId = effectiveId N n then none else parentById N ns (N.info n).parentId

omit [DecidableEq ι] in
/-- The shared function does the bucket's half, then the parent's. -/
theorem registerOrUnregisterNode_eq {r₁ : ThingSetRegistry ι}
    {nodeListAction : ThingSetRegistry ι → Fin 8 → ι → Option (ThingSetRegistry ι)}
    {parentNodeAction : ThingSetRegistry ι → ι → ι → Option (ThingSetRegistry ι)}
    (hlist : nodeListAction r (bucketOf (effectiveId N n)) n = some r₁) (h₁ : Buckets N r₁ ns) :
    r.registerOrUnregisterNode N n nodeListAction parentNodeAction =
      match linkParent N ns n with
      | none => some r₁
      | some p => parentNodeAction r₁ p n := by
  simp only [registerOrUnregisterNode, hlist, Option.bind_eq_bind, Option.bind_some, linkParent]
  by_cases heq : (N.info n).parentId = effectiveId N n
  · simp [heq]
  · simp only [heq, ne_eq, not_false_eq_true, if_true, if_false, h₁.findParentById_eq,
      Option.bind_some]
    cases parentById N ns (N.info n).parentId <;> rfl

/-- The nodes that a parent adopts when it is registered, in the order of the registry's
iterator. -/
def adopted (N : Nodes ι) (ns : List ι) (n : ι) : List ι :=
  if (N.info n).hasChildren then
    ((List.finRange 8).map fun b => ns.filter fun n => bucketOf (effectiveId N n) = b).flatten.filter
      fun m => (N.info m).parentId == (N.info n).id
  else []

omit [DecidableEq ι] [Fintype ι] in
theorem mem_adopted : m ∈ adopted N ns n ↔
    (N.info n).hasChildren ∧ m ∈ ns ∧ (N.info m).parentId = (N.info n).id := by
  rw [adopted]
  split <;> rename_i h <;> simp [h]

theorem Buckets.adoptChildren_eq (h : Buckets N r ns) (n : ι) :
    r.adoptChildren N n = some ((adopted N ns n).foldl (fun r m => r.addChild n m) r) := by
  rw [adoptChildren, adopted]
  split
  · rw [h.nodes_eq]; rfl
  · rfl

/-! ## Registering -/

omit [DecidableEq ι] in
/-- A search for an effective id in its bucket is a search among all registered nodes. -/
theorem Buckets.search_effectiveId (h : Buckets N r ns) (n : ι) :
    search r.list (fun m => (N.info m).effectiveId == (N.info n).effectiveId) (rounds ι)
        (r.nodeMap (bucketOf (effectiveId N n))).head =
      some (ns.find? fun m => effectiveId N m == effectiveId N n) := by
  have hpath := (h.holds (bucketOf (effectiveId N n))).path
  rw [search_of_path _ hpath hpath.length_lt, List.find?_filter]
  congr 2
  funext m
  by_cases heq : effectiveId N m = effectiveId N n <;> simp [heq]

/-- The registry after the bucket's half of `registerNode`. -/
def afterRegisterInList (N : Nodes ι) (r : ThingSetRegistry ι) (ns : List ι) (n : ι) :
    ThingSetRegistry ι :=
  if effectiveId N n ∈ ns.map (effectiveId N) then r
  else r.pushNode (bucketOf (effectiveId N n)) n

/-- A node whose effective id is taken is left out of its bucket, any other is appended. -/
theorem Buckets.registerInList (h : Buckets N r ns) (n : ι) :
    r.registerInList N (bucketOf (effectiveId N n)) n = some (afterRegisterInList N r ns n) := by
  rw [ThingSetRegistry.registerInList, h.search_effectiveId n, afterRegisterInList]
  rcases hfind : ns.find? (fun m => effectiveId N m == effectiveId N n) with _ | m
  · have hn : effectiveId N n ∉ ns.map (effectiveId N) := by simpa using hfind
    rw [if_neg hn]
    rfl
  · have hm := List.find?_some hfind
    have hn : effectiveId N n ∈ ns.map (effectiveId N) :=
      List.mem_map.2 ⟨m, List.mem_of_find?_eq_some hfind, by simpa using hm⟩
    rw [if_pos hn]
    rfl

omit [Fintype ι] in
theorem Buckets.of_registerInList (h : Buckets N r ns) (n : ι) :
    Buckets N (afterRegisterInList N r ns n) (register N ns n) := by
  rw [afterRegisterInList, register]
  split
  · exact h
  · rename_i hn
    exact h.pushNode hn

/-- What `registerNode` does: the bucket's half, then the node becomes a child of its parent, then
other nodes become children of it. -/
theorem Buckets.registerNode_eq (h : Buckets N r ns) (n : ι) :
    r.registerNode N n =
      some ((adopted N (register N ns n) n).foldl (fun r m => r.addChild n m)
        (match linkParent N (register N ns n) n with
          | none => afterRegisterInList N r ns n
          | some p => (afterRegisterInList N r ns n).addChild p n)) := by
  have h₁ := h.of_registerInList n
  rw [registerNode, registerOrUnregisterNode_eq (h.registerInList n) h₁]
  cases linkParent N (register N ns n) n with
  | none => exact h₁.adoptChildren_eq n
  | some p =>
    have h₂ : Buckets N ((afterRegisterInList N r ns n).addChild p n)
      (register N ns n) := h₁.congr rfl rfl
    exact h₂.adoptChildren_eq n

/-- `registerNode` on the pointers ends, and it is registration in the abstract registry. -/
theorem registerNode_buckets (h : Buckets N r ns) (n : ι) :
    ∃ r', r.registerNode N n = some r' ∧ Buckets N r' (register N ns n) := by
  refine ⟨_, h.registerNode_eq n, ?_⟩
  have h₁ := h.of_registerInList n
  refine Buckets.congr ?_ (foldl_addChild_list ..).1 (foldl_addChild_list ..).2
  cases linkParent N (register N ns n) n with
  | none => exact h₁
  | some p => exact h₁.congr rfl rfl

/-! ## Unregistering -/

/-- The bucket's half of `unregisterNode` ends. -/
theorem Buckets.exists_removeNode (h : Buckets N r ns) (n : ι) :
    ∃ r₁, r.removeNode (bucketOf (effectiveId N n)) n = some r₁ ∧ Buckets N r₁ (ns.erase n) ∧
      r₁.children = r.children ∧ r₁.childrenOf = r.childrenOf := by
  have hnodup := h.nodes_nodup
  by_cases hn : n ∈ ns
  · have hmem : n ∈ ns.filter fun m => bucketOf (effectiveId N m) = bucketOf (effectiveId N n) := by
      simp [hn]
    obtain ⟨next', list', hrem, hholds, hnext, hframe⟩ := remove_holds (h.holds _) hmem
    refine ⟨{ r with
        list := next'
        nodeMap := Function.update r.nodeMap (bucketOf (effectiveId N n)) list' },
      by rw [removeNode, hrem, Option.map_some], ⟨fun b => ?_, fun m hm => ?_, ?_⟩, rfl, rfl⟩
    · rw [hnodup.erase_eq_filter, List.filter_comm, ← (hnodup.filter _).erase_eq_filter]
      by_cases hb : bucketOf (effectiveId N n) = b
      · subst hb
        simpa using hholds
      · simp only [Function.update_of_ne (Ne.symm hb)]
        rw [List.erase_of_not_mem (by simp [hb])]
        refine (h.holds b).congr fun i hi => (hframe i fun hi' => ?_).symm
        simp only [List.mem_filter, decide_eq_true_eq] at hi hi'
        exact hb (hi'.2.symm.trans hi.2)
    · by_cases hmn : m = n
      · exact hmn ▸ hnext
      · have hm' : m ∉ ns := fun hm' => hm ((List.mem_erase_of_ne hmn).2 hm')
        exact (hframe m fun hi => hm' (List.mem_filter.1 hi).1).trans (h.free m hm')
    · exact (List.Sublist.map _ List.erase_sublist).nodup h.nodup
  · have hmem : n ∉ ns.filter fun m => bucketOf (effectiveId N m) = bucketOf (effectiveId N n) :=
      fun hmem => hn (List.mem_filter.1 hmem).1
    refine ⟨r, ?_, by rwa [List.erase_of_not_mem hn], rfl, rfl⟩
    rw [removeNode, remove_of_notMem (h.holds _) hmem, Option.map_some,
      Function.update_eq_self]

/-- What `unregisterNode` does: the bucket's half, then the node is no child of its parent any
more. -/
theorem Buckets.unregisterNode_eq (h : Buckets N r ns) (n : ι) :
    ∃ r₁, Buckets N r₁ (ns.erase n) ∧ r₁.children = r.children ∧ r₁.childrenOf = r.childrenOf ∧
      r.unregisterNode N n =
        match linkParent N (ns.erase n) n with
        | none => some r₁
        | some p => r₁.removeChild p n := by
  obtain ⟨r₁, hr₁, h₁, hchildren, hchildrenOf⟩ := h.exists_removeNode n
  exact ⟨r₁, h₁, hchildren, hchildrenOf, registerOrUnregisterNode_eq hr₁ h₁⟩

/-- `unregisterNode` on the pointers erases from the abstract registry. -/
theorem unregisterNode_buckets (h : Buckets N r ns) (hr : r.unregisterNode N n = some r') :
    Buckets N r' (ns.erase n) := by
  obtain ⟨r₁, h₁, -, -, heq⟩ := h.unregisterNode_eq n
  rw [heq] at hr
  cases hp : linkParent N (ns.erase n) n with
  | none =>
    rw [hp] at hr
    exact Option.some.inj hr ▸ h₁
  | some p =>
    rw [hp] at hr
    obtain ⟨q, -, rfl⟩ := Option.map_eq_some_iff.1 hr
    exact h₁.congr rfl rfl

/-! ## Runs -/

theorem call_buckets (h : Buckets N r ns) {c : RegistryCall ι} (hr : r.call N c = some r') :
    Buckets N r' (registeredAfter N ns c) := by
  cases c with
  | registerNode n =>
    obtain ⟨r₁, hr₁, h₁⟩ := registerNode_buckets h n
    exact Option.some.inj (hr₁.symm.trans hr) ▸ h₁
  | unregisterNode n => exact unregisterNode_buckets h hr

theorem run_buckets_from (h : Buckets N r ns) {calls : List (RegistryCall ι)}
    (hr : r.run N calls = some r') : Buckets N r' (calls.foldl (registeredAfter N) ns) := by
  induction calls generalizing r ns with
  | nil => exact Option.some.inj hr ▸ h
  | cons c calls ih =>
    obtain ⟨r₁, hr₁, hr⟩ := Option.bind_eq_some_iff.1 hr
    exact ih (call_buckets h hr₁) hr

/-- After every run the buckets hold the registered nodes. -/
theorem run_buckets {calls : List (RegistryCall ι)} (hr : (initial N).run N calls = some r) :
    Buckets N r (registered N calls) :=
  run_buckets_from buckets_initial hr

/-- **After every run of registrations and unregistrations**, each bucket is an acyclic list of
exactly the registered nodes whose effective id belongs in it, the effective ids are pairwise
distinct, and a lookup by raw id finds the ordinary node with that id if there is one, and nothing
otherwise. -/
theorem lookup_of_run (calls : List (RegistryCall ι)) (r : ThingSetRegistry ι)
    (hr : (initial N).run N calls = some r) :
    (∀ b, Holds r.list (r.nodeMap b)
      ((registered N calls).filter fun n => bucketOf (effectiveId N n) = b)) ∧
    ((registered N calls).map (effectiveId N)).Nodup ∧
    (∀ id n, r.findById N id = some (some n) ↔
      n ∈ registered N calls ∧ (N.info n).recordMember = false ∧ (N.info n).id = id) ∧
    ∀ id, r.findById N id = some none ↔
      ∀ n ∈ registered N calls, (N.info n).recordMember = false → (N.info n).id ≠ id := by
  have h := run_buckets hr
  exact ⟨h.holds, h.nodup, h.findById_eq_some_iff, h.findById_eq_none_iff⟩

/-- A record array with id 5, a member of it with the same raw id, and another node with id 5. -/
def sharedIds : Nodes SmallNode where
  info
    | .root => (NodeInfo.ofIds 0 0).withChildren
    | .metadata => (NodeInfo.ofIds 25 0).withChildren
    | .a => (NodeInfo.ofIds 5 0).asRecord
    | .b => (NodeInfo.ofIds 5 5).asRecordMember
    | .c | .d => NodeInfo.ofIds 5 0
  rootNode := .root
  metadataNode := .metadata
  rootNode_info := rfl
  metadataNode_info := rfl

/-- The duplicate is rejected, and its destruction leaves the array registered. -/
def duplicateCalls : List (RegistryCall SmallNode) :=
  [.registerNode .b, .registerNode .a, .registerNode .c, .unregisterNode .c]

theorem lookup_of_duplicateCalls :
    ∃ r, (initial sharedIds).run sharedIds duplicateCalls = some r ∧
      r.findById sharedIds 5 = some (some .a) := by
  have hsome : ((initial sharedIds).run sharedIds duplicateCalls).isSome := by decide
  obtain ⟨r, hr⟩ := Option.isSome_iff_exists.1 hsome
  exact ⟨r, hr, ((lookup_of_run duplicateCalls r hr).2.2.1 5 .a).2 (by decide)⟩

end ThingSetRegistry

end ThingSet
