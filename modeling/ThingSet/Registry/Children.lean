import ThingSet.Registry.Buckets
import Mathlib.Tactic.Tauto

/-!
# Child lists

The child list of a parent is intrusive: its links are in the children and outlive the parent.
Registering a node links it to the parent it names, if that is registered, and links to it the
registered nodes that name it. `push_back` drops an object whose link is set, the parent is looked
up by its raw id only, and a rejected duplicate is linked as well, so the child lists are right
after runs whose steps stay clear of these cases (`GoodRegister`, `GoodUnregister`).

* `ChildLists` is what the pointers say, `ChildListsCorrect` what the lists should hold.
* `registerNode_children`, `unregisterNode_children`: a good call ends and keeps the child lists
  right.
-/

namespace ThingSet

open Chain IntrusiveLinkedList

namespace ThingSetRegistry

variable {ι : Type} [DecidableEq ι] {r r' : ThingSetRegistry ι} {P : ι → Prop} {L : ι → List ι}
  {n p c : ι}

/-! ## The pointers -/

/-- The child list of every parent in `P` is acyclic and holds the nodes of `L`, and no node is in
two of them. -/
structure ChildLists (r : ThingSetRegistry ι) (P : ι → Prop) (L : ι → List ι) : Prop where
  holds : ∀ p, P p → Holds r.children (r.childrenOf p) (L p)
  disjoint : ∀ p q, P p → P q → p ≠ q → ∀ c ∈ L p, c ∉ L q

omit [DecidableEq ι] in
theorem ChildLists.congr {Q : ι → Prop} (h : ChildLists r P L) (hQ : ∀ p, Q p → P p)
    (hchildren : r'.children = r.children) (hchildrenOf : r'.childrenOf = r.childrenOf) :
    ChildLists r' Q L :=
  ⟨fun p hp => by rw [hchildren, hchildrenOf]; exact h.holds p (hQ p hp),
    fun p q hp hq => h.disjoint p q (hQ p hp) (hQ q hq)⟩

/-- A node that no link leaves from and that is in no list becomes the last child. -/
theorem ChildLists.addChild (h : ChildLists r P L) (hp : P p) (hc : ∀ q, P q → c ∉ L q)
    (hnext : r.children c = none) :
    ChildLists (r.addChild p c) P (Function.update L p (L p ++ [c])) ∧
      ∀ i ∉ L p, (r.addChild p c).children i = r.children i := by
  refine ⟨⟨fun q hq => ?_, fun q q' hq hq' hne d hd hd' => ?_⟩,
    fun i hi => pushBack_next (h.holds p hp) hi⟩
  · by_cases hqp : q = p
    · subst hqp
      simp only [ThingSetRegistry.addChild, Function.update_self]
      exact pushBack_holds (h.holds q hq) (hc q hq) hnext
    · simp only [ThingSetRegistry.addChild, Function.update_of_ne hqp]
      refine (h.holds q hq).congr fun i hi => (pushBack_next (h.holds p hp) ?_).symm
      exact h.disjoint q p hq hp hqp i hi
  · -- the new child is in one list only
    have hold : ∀ q, P q → d ∈ Function.update L p (L p ++ [c]) q → d ∈ L q ∨ d = c ∧ q = p := by
      intro q hq hd
      by_cases hqp : q = p
      · subst hqp
        simpa using hd
      · rw [Function.update_of_ne hqp] at hd
        exact .inl hd
    rcases hold q hq hd with hd | ⟨hdc, hqp⟩ <;> rcases hold q' hq' hd' with hd' | ⟨hdc', hqp'⟩
    · exact h.disjoint q q' hq hq' hne d hd hd'
    · exact hc q hq (hdc' ▸ hd)
    · exact hc q' hq' (hdc ▸ hd')
    · exact hne (hqp.trans hqp'.symm)

/-- Nodes that no links leave from and that are in no list become the last children, in order. -/
theorem ChildLists.foldl_addChild (h : ChildLists r P L) (hp : P p) (cs : List ι)
    (hnodup : cs.Nodup) (hc : ∀ c ∈ cs, ∀ q, P q → c ∉ L q)
    (hnext : ∀ c ∈ cs, r.children c = none) :
    ChildLists (cs.foldl (fun r c => r.addChild p c) r) P (Function.update L p (L p ++ cs)) := by
  induction cs generalizing r L with
  | nil => simpa using h
  | cons c cs ih =>
    obtain ⟨hcs, hnodup⟩ := List.nodup_cons.1 hnodup
    obtain ⟨h', hframe⟩ := h.addChild hp (hc c (by simp)) (hnext c (by simp))
    have hnew := ih h' hnodup (fun d hd q hq => ?_) (fun d hd => ?_)
    · simpa using hnew
    · have hdc : d ≠ c := fun heq => hcs (heq ▸ hd)
      have hdL := hc d (by simp [hd])
      by_cases hqp : q = p
      · subst hqp
        simpa [hdc] using hdL q hq
      · rw [Function.update_of_ne hqp]
        exact hdL q hq
    · rw [hframe d (hc d (by simp [hd]) p hp)]
      exact hnext d (by simp [hd])

/-- Removing a child ends, and the child is in the list no more. -/
theorem ChildLists.removeChild [Fintype ι] (h : ChildLists r P L) (hp : P p) (c : ι) :
    ∃ r', r.removeChild p c = some r' ∧
      ChildLists r' P (Function.update L p ((L p).erase c)) ∧ r'.list = r.list ∧
        r'.nodeMap = r.nodeMap := by
  by_cases hc : c ∈ L p
  · obtain ⟨next', list', hrem, hholds, -, hframe⟩ := remove_holds (h.holds p hp) hc
    refine ⟨{ r with
        children := next'
        childrenOf := Function.update r.childrenOf p list' },
      by rw [ThingSetRegistry.removeChild, hrem, Option.map_some],
      ⟨fun q hq => ?_, fun q q' hq hq' hne d hd hd' => ?_⟩, rfl, rfl⟩
    · by_cases hqp : q = p
      · subst hqp
        simpa using hholds
      · simp only [Function.update_of_ne hqp]
        refine (h.holds q hq).congr fun i hi => (hframe i ?_).symm
        exact h.disjoint q p hq hp hqp i hi
    · have hold : ∀ q, d ∈ Function.update L p ((L p).erase c) q → d ∈ L q := by
        intro q hd
        by_cases hqp : q = p
        · subst hqp
          rw [Function.update_self] at hd
          exact List.mem_of_mem_erase hd
        · rwa [Function.update_of_ne hqp] at hd
      exact h.disjoint q q' hq hq' hne d (hold q hd) (hold q' hd')
  · refine ⟨r, ?_, ?_, rfl, rfl⟩
    · rw [ThingSetRegistry.removeChild, remove_of_notMem (h.holds p hp) hc, Option.map_some,
        Function.update_eq_self]
    · rwa [List.erase_of_not_mem hc, Function.update_eq_self]

/-! ## The lists as they should be -/

variable [Fintype ι] {N : Nodes ι} {ns : List ι}

/-- A node is registered when the registry's iterator visits it. -/
def IsRegistered (r : ThingSetRegistry ι) (n : ι) : Prop := ∃ ms ∈ r.nodes, n ∈ ms

instance (r : ThingSetRegistry ι) (n : ι) : Decidable (r.IsRegistered n) :=
  inferInstanceAs (Decidable (∃ ms ∈ r.nodes, n ∈ ms))

omit [DecidableEq ι] in
theorem Buckets.isRegistered_iff (h : Buckets N r ns) (n : ι) : r.IsRegistered n ↔ n ∈ ns := by
  simp [IsRegistered, h.nodes_eq, List.mem_flatten]

/-- The registered parents. -/
def IsParent (N : Nodes ι) (r : ThingSetRegistry ι) (p : ι) : Prop :=
  r.IsRegistered p ∧ (N.info p).hasChildren = true

/-- The children that a parent should have: the nodes registered with `registerNode`, other than
itself, that name its id as their parent. -/
def IsChild (N : Nodes ι) (r : ThingSetRegistry ι) (p c : ι) : Prop :=
  r.IsRegistered c ∧ c ≠ N.rootNode ∧ c ≠ N.metadataNode ∧ c ≠ p ∧
    (N.info c).parentId = (N.info p).id

instance (r : ThingSetRegistry ι) (p : ι) : Decidable (IsParent N r p) :=
  inferInstanceAs (Decidable (_ ∧ _))

instance (r : ThingSetRegistry ι) (p c : ι) : Decidable (IsChild N r p c) :=
  inferInstanceAs (Decidable (_ ∧ _ ∧ _ ∧ _ ∧ _))

/-- The child list of each registered parent is acyclic and holds exactly its children, each
once. -/
def ChildListsCorrect (N : Nodes ι) (r : ThingSetRegistry ι) : Prop :=
  ∀ p, IsParent N r p → ∃ l, Holds r.children (r.childrenOf p) l ∧ l.Nodup ∧
    ∀ c, c ∈ l ↔ IsChild N r p c

/-! ## Good calls -/

/-- The parent that a call for `n` finds is `p`. -/
def FindsParent (N : Nodes ι) (r : ThingSetRegistry ι) (n p : ι) : Prop :=
  (N.info n).parentId ≠ effectiveId N n ∧
    r.findParentById N (N.info n).parentId = some (some p)

instance (r : ThingSetRegistry ι) (n p : ι) : Decidable (FindsParent N r n p) :=
  inferInstanceAs (Decidable (_ ∧ _))

/-- The effective id of `n` is taken. -/
def IsDuplicate (N : Nodes ι) (r : ThingSetRegistry ι) (n : ι) : Prop :=
  ∃ m, r.IsRegistered m ∧ effectiveId N m = effectiveId N n

instance (r : ThingSetRegistry ι) (n : ι) : Decidable (IsDuplicate N r n) :=
  inferInstanceAs (Decidable (∃ _, _ ∧ _))

/-- A registration of a duplicate that links nothing. -/
structure GoodDuplicate (N : Nodes ι) (r : ThingSetRegistry ι) (n : ι) : Prop where
  noParent : ∀ p, ¬ FindsParent N r n p
  noChild : (N.info n).hasChildren = true → ∀ c, r.IsRegistered c →
    (N.info c).parentId ≠ (N.info n).id

/-- A registration that links every node to the one parent it names. -/
structure GoodNew (N : Nodes ι) (r : ThingSetRegistry ι) (n : ι) : Prop where
  /-- Every registered parent that the node names is the one that is found. -/
  parentFound : ∀ p, IsParent N r p → (N.info p).id = (N.info n).parentId → FindsParent N r n p
  /-- The link that the parent's list will use is not set. -/
  linkFree : ∀ p, FindsParent N r n p → r.children n = none
  /-- A parent is not its own. -/
  notOwnParent : (N.info n).hasChildren = true → (N.info n).parentId ≠ (N.info n).id
  /-- A parent starts with an empty list. -/
  listEmpty : (N.info n).hasChildren = true → r.childrenOf n = {}
  /-- The link of every node it adopts is not set. -/
  adoptedFree : (N.info n).hasChildren = true → ∀ c, r.IsRegistered c →
    (N.info c).parentId = (N.info n).id → r.children c = none
  /-- No node it adopts has another parent. -/
  adoptedOnce : (N.info n).hasChildren = true → ∀ c, r.IsRegistered c →
    (N.info c).parentId = (N.info n).id → ∀ p, IsParent N r p →
      (N.info p).id = (N.info c).parentId → p = c

/-- The calls of `registerNode` that keep the child lists right. -/
structure GoodRegister (N : Nodes ι) (r : ThingSetRegistry ι) (n : ι) : Prop where
  duplicate : IsDuplicate N r n → GoodDuplicate N r n
  new : ¬ IsDuplicate N r n → GoodNew N r n

/-- The calls of `unregisterNode` that keep the child lists right: every registered parent that
the node names is the one that is found. -/
def GoodUnregister (N : Nodes ι) (r : ThingSetRegistry ι) (n : ι) : Prop :=
  r.IsRegistered n → ∀ p, IsParent N r p → p ≠ n → (N.info p).id = (N.info n).parentId →
    FindsParent N r n p

/-! ## One call -/

/-- The parents among the nodes of `ns`. -/
def ParentIn (N : Nodes ι) (ns : List ι) (p : ι) : Prop := p ∈ ns ∧ (N.info p).hasChildren = true

/-- The children of `p` among the nodes of `ns`. -/
def ChildIn (N : Nodes ι) (ns : List ι) (p c : ι) : Prop :=
  c ∈ ns ∧ c ≠ N.rootNode ∧ c ≠ N.metadataNode ∧ c ≠ p ∧ (N.info c).parentId = (N.info p).id

/-- The state between calls: the buckets hold the registered nodes `ns`, the registry's own nodes
among them, and the child lists hold what they should. -/
structure ChildrenInv (N : Nodes ι) (r : ThingSetRegistry ι) (ns : List ι) : Prop where
  buckets : Buckets N r ns
  root : N.rootNode ∈ ns
  metadata : N.metadataNode ∈ ns
  lists : ∃ L, ChildLists r (ParentIn N ns) L ∧ ∀ p, ParentIn N ns p → ∀ c, c ∈ L p ↔ ChildIn N ns p c

omit [DecidableEq ι] in
theorem Buckets.isParent_iff (h : Buckets N r ns) (p : ι) : IsParent N r p ↔ ParentIn N ns p := by
  rw [IsParent, ParentIn, h.isRegistered_iff]

omit [DecidableEq ι] in
theorem Buckets.isDuplicate_iff (h : Buckets N r ns) (n : ι) :
    IsDuplicate N r n ↔ effectiveId N n ∈ ns.map (effectiveId N) := by
  simp [IsDuplicate, h.isRegistered_iff]

omit [DecidableEq ι] in
theorem ChildrenInv.correct (h : ChildrenInv N r ns) : ChildListsCorrect N r := by
  obtain ⟨L, hL, hmem⟩ := h.lists
  intro p hp
  have hp := (h.buckets.isParent_iff p).1 hp
  refine ⟨L p, hL.holds p hp, (hL.holds p hp).nodup, fun c => (hmem p hp c).trans ?_⟩
  rw [ChildIn, IsChild, h.buckets.isRegistered_iff]

omit [DecidableEq ι] in
theorem Buckets.findsParent_iff (h : Buckets N r ns) (n p : ι) :
    FindsParent N r n p ↔ linkParent N ns n = some p := by
  rw [FindsParent, h.findParentById_eq, Option.some.injEq, linkParent]
  split <;> simp_all

omit [DecidableEq ι] in
/-- The parent that is found is a registered, ordinary parent, and the node names it. -/
theorem Buckets.linkParent_eq_some_iff (h : Buckets N r ns) (n p : ι) :
    linkParent N ns n = some p ↔ ParentIn N ns p ∧ (N.info p).recordMember = false ∧
      (N.info p).id = (N.info n).parentId ∧ (N.info n).parentId ≠ effectiveId N n := by
  have hfind := h.findById_eq_some_iff (N.info n).parentId p
  rw [h.findById_eq, Option.some.injEq] at hfind
  rw [linkParent, parentById]
  split
  · simp_all
  · rw [Option.filter_eq_some_iff, hfind, ParentIn]
    grind

omit [DecidableEq ι] in
/-- What a node that is not a duplicate finds does not depend on its own registration. -/
theorem linkParent_append (h : Buckets N r ns) (h' : Buckets N r' (ns ++ [n])) :
    linkParent N (ns ++ [n]) n = linkParent N ns n := by
  ext p
  rw [h.linkParent_eq_some_iff, h'.linkParent_eq_some_iff]
  refine and_congr_left fun ⟨hord, hid, hne⟩ => ?_
  have hpn : p ≠ n := fun heq => hne (by
    rw [← hid, heq, effectiveId, NodeInfo.effectiveId_of_ordinary (heq ▸ hord)])
  simp [ParentIn, hpn]

omit [Fintype ι] in
/-- The children of the old parents are those they had, and the new node if they are its
parent. -/
theorem childIn_append (hroot : N.rootNode ∈ ns) (hmetadata : N.metadataNode ∈ ns) (hn : n ∉ ns)
    (hp : p ∈ ns) :
    ChildIn N (ns ++ [n]) p c ↔
      ChildIn N ns p c ∨ c = n ∧ (N.info p).id = (N.info n).parentId := by
  have hnroot : n ≠ N.rootNode := fun heq => hn (heq ▸ hroot)
  have hnmetadata : n ≠ N.metadataNode := fun heq => hn (heq ▸ hmetadata)
  have hnp : n ≠ p := fun heq => hn (heq ▸ hp)
  by_cases hcn : c = n
  · subst hcn
    simp [ChildIn, hn, hnroot, hnmetadata, hnp, eq_comm]
  · simp [ChildIn, hcn]

/-- The lists after the new node is linked to its parent, before it adopts any other. -/
theorem GoodNew.link (h : ChildrenInv N r ns) (hg : GoodNew N r n) (r₁ : ThingSetRegistry ι)
    (hn : n ∉ ns) (hchildren : r₁.children = r.children) (hchildrenOf : r₁.childrenOf = r.childrenOf)
    {L : ι → List ι} (hL : ChildLists r (ParentIn N ns) L)
    (hmem : ∀ p, ParentIn N ns p → ∀ c, c ∈ L p ↔ ChildIn N ns p c) :
    let r₂ := match linkParent N ns n with
      | none => r₁
      | some p => r₁.addChild p n
    ∃ L₂, ChildLists r₂ (ParentIn N (ns ++ [n])) L₂ ∧ L₂ n = [] ∧
      (∀ p, ParentIn N ns p → ∀ c, c ∈ L₂ p ↔ ChildIn N (ns ++ [n]) p c) ∧
      ∀ c, (∀ p, ParentIn N ns p → c ∉ L p) → r₂.children c = r.children c := by
  have hb := h.buckets
  -- the new node is a parent with an empty list
  have hold : ∀ p, ParentIn N (ns ++ [n]) p → p ≠ n → ParentIn N ns p := fun p hp hpn => by
    simpa [ParentIn, hpn] using hp
  have hL₁ : ChildLists r₁ (ParentIn N (ns ++ [n])) (Function.update L n []) := by
    refine ⟨fun p hp => ?_, fun p q hp hq hpq c hc hc' => ?_⟩
    · rw [hchildren, hchildrenOf]
      by_cases hpn : p = n
      · subst hpn
        rw [hg.listEmpty hp.2, Function.update_self]
        exact holds_nil _
      · rw [Function.update_of_ne hpn]
        exact hL.holds p (hold p hp hpn)
    · by_cases hpn : p = n
      · subst hpn
        simp at hc
      · by_cases hqn : q = n
        · subst hqn
          simp at hc'
        · rw [Function.update_of_ne hpn] at hc
          rw [Function.update_of_ne hqn] at hc'
          exact hL.disjoint p q (hold p hp hpn) (hold q hq hqn) hpq c hc hc'
  have hne : ∀ p, ParentIn N ns p → p ≠ n := fun p hp heq => hn (heq ▸ hp.1)
  have hLn : ∀ p, ParentIn N ns p → Function.update L n [] p = L p := fun p hp =>
    Function.update_of_ne (hne p hp) ..
  -- the parent that is found is the one registered parent that the node names
  have hfound : ∀ p, ParentIn N ns p → (N.info p).id = (N.info n).parentId →
      linkParent N ns n = some p := fun p hp hid =>
    (hb.findsParent_iff n p).1 (hg.parentFound p ((hb.isParent_iff p).2 hp) hid)
  rcases hlink : linkParent N ns n with _ | p
  · refine ⟨_, hL₁, Function.update_self .., fun p hp c => ?_, fun c _ => by rw [hchildren]⟩
    rw [hLn p hp, hmem p hp c, childIn_append h.root h.metadata hn hp.1]
    refine ⟨.inl, fun hc => hc.resolve_right fun ⟨_, hid⟩ => ?_⟩
    rw [hfound p hp hid] at hlink
    simp at hlink
  · obtain ⟨hp, -, hid, -⟩ := (hb.linkParent_eq_some_iff n p).1 hlink
    have hpn := hne p hp
    have hp' : ParentIn N (ns ++ [n]) p := ⟨by simp [hp.1], hp.2⟩
    have hfree : r₁.children n = none := by
      rw [hchildren]
      exact hg.linkFree p ((hb.findsParent_iff n p).2 hlink)
    have hnotMem : ∀ q, ParentIn N (ns ++ [n]) q → n ∉ Function.update L n [] q := fun q hq => by
      by_cases hqn : q = n
      · simp [hqn]
      · rw [hLn q (hold q hq hqn), hmem q (hold q hq hqn)]
        exact fun hc => hn hc.1
    obtain ⟨hL₂, hframe⟩ := hL₁.addChild hp' hnotMem hfree
    refine ⟨_, hL₂, ?_, fun q hq c => ?_, fun c hc => ?_⟩
    · rw [Function.update_of_ne (Ne.symm hpn), Function.update_self]
    · rw [childIn_append h.root h.metadata hn hq.1, ← hmem q hq c]
      by_cases hqp : q = p
      · subst hqp
        rw [Function.update_self, hLn q hq, List.mem_append, List.mem_singleton]
        simp [hid]
      · rw [Function.update_of_ne hqp, hLn q hq]
        refine ⟨.inl, fun hc => hc.resolve_right fun ⟨_, hid'⟩ => ?_⟩
        rw [hfound q hq hid'] at hlink
        exact hqp (Option.some.inj hlink)
    · rw [hframe c (by rw [hLn p hp]; exact hc p hp), hchildren]

omit [DecidableEq ι] [Fintype ι] in
theorem adopted_nodup (hns : ns.Nodup) (n : ι) : (adopted N ns n).Nodup := by
  rw [adopted]
  split
  · refine .filter _ (List.nodup_flatten.2 ⟨?_, ?_⟩)
    · simp only [List.mem_map, forall_exists_index, and_imp]
      rintro l b - rfl
      exact hns.filter _
    · refine List.pairwise_map.2 ((List.nodup_finRange 8).imp fun hne => ?_)
      intro m hm hm'
      simp only [List.mem_filter, decide_eq_true_eq] at hm hm'
      exact hne (hm.2.symm.trans hm'.2)
  · exact .nil

omit [DecidableEq ι] in
/-- No adopted node has a parent yet, and none is one of the registry's own. -/
theorem GoodNew.of_mem_adopted (h : ChildrenInv N r ns) (hg : GoodNew N r n)
    (hc : c ∈ adopted N (ns ++ [n]) n) :
    (N.info n).hasChildren = true ∧ r.children c = none ∧ ChildIn N (ns ++ [n]) n c ∧
      ∀ p, ParentIn N ns p → c ≠ p → (N.info c).parentId ≠ (N.info p).id := by
  have hb := h.buckets
  obtain ⟨hchildren, hmem, hid⟩ := mem_adopted.1 hc
  have hcn : c ≠ n := fun heq => hg.notOwnParent hchildren (heq ▸ hid)
  have hcns : c ∈ ns := by simpa [hcn] using hmem
  have hcr := (hb.isRegistered_iff c).2 hcns
  have honce : ∀ c ∈ ns, (N.info c).parentId = (N.info n).id → ∀ p, ParentIn N ns p → c ≠ p →
      (N.info c).parentId ≠ (N.info p).id := fun c hc hid p hp hcp hid' =>
    hcp (hg.adoptedOnce hchildren c ((hb.isRegistered_iff c).2 hc) hid p
      ((hb.isParent_iff p).2 hp) hid'.symm).symm
  -- a parent with the root's id would adopt the metadata node, which the root is the parent of
  have hzero : (N.info n).id ≠ 0 := fun hzero => by
    refine honce N.metadataNode h.metadata (by rw [hzero, N.metadataNode_info]) N.rootNode
      ⟨h.root, by rw [N.rootNode_info]⟩ (fun heq => ?_)
      (by rw [N.metadataNode_info, N.rootNode_info])
    have := congrArg NodeInfo.id (N.metadataNode_info.symm.trans (heq ▸ N.rootNode_info))
    simp at this
  refine ⟨hchildren, hg.adoptedFree hchildren c hcr hid, ⟨hmem, ?_, ?_, hcn, hid⟩, honce c hcns hid⟩
  · rintro rfl
    exact hzero (by rw [← hid, N.rootNode_info])
  · rintro rfl
    exact hzero (by rw [← hid, N.metadataNode_info])

/-- A new node is linked to the parent it names, and the nodes that name it to it. -/
theorem GoodNew.children (h : ChildrenInv N r ns) (hg : GoodNew N r n)
    (hn : effectiveId N n ∉ ns.map (effectiveId N)) :
    ∃ r', r.registerNode N n = some r' ∧ ChildrenInv N r' (ns ++ [n]) := by
  have hb := h.buckets
  obtain ⟨L, hL, hmem⟩ := h.lists
  obtain ⟨r', hr', hb'⟩ := registerNode_buckets hb n
  have heq := hb.registerNode_eq n
  rw [register, if_neg hn] at heq hb'
  have hpush := hb.pushNode hn
  rw [afterRegisterInList, if_neg hn, linkParent_append hb hpush] at heq
  refine ⟨r', hr', hb', by simp [h.root], by simp [h.metadata], ?_⟩
  obtain rfl := Option.some.inj (hr'.symm.trans heq)
  have hnmem : n ∉ ns := fun hmem => hn (List.mem_map_of_mem hmem)
  obtain ⟨L₂, hL₂, hempty, hmem₂, hframe⟩ := hg.link h
    (r.pushNode (bucketOf (effectiveId N n)) n) hnmem rfl rfl hL hmem
  have hold : ∀ p, ParentIn N (ns ++ [n]) p → p ≠ n → ParentIn N ns p := fun p hp hpn => by
    simpa [ParentIn, hpn] using hp
  by_cases hchildren : (N.info n).hasChildren = true
  · have hparent : ParentIn N (ns ++ [n]) n := ⟨by simp, hchildren⟩
    refine ⟨_, hL₂.foldl_addChild hparent _ (adopted_nodup hpush.nodes_nodup n) ?_ ?_, ?_⟩
    · intro c hc p hp hcp
      obtain ⟨-, -, -, honce⟩ := hg.of_mem_adopted h hc
      by_cases hpn : p = n
      · simp [hpn, hempty] at hcp
      · have hcp := (hmem₂ p (hold p hp hpn) c).1 hcp
        exact honce p (hold p hp hpn) hcp.2.2.2.1 hcp.2.2.2.2
    · intro c hc
      obtain ⟨-, hfree, -, honce⟩ := hg.of_mem_adopted h hc
      rw [hframe c fun p hp hcp => ?_, hfree]
      have hcp := (hmem p hp c).1 hcp
      exact honce p hp hcp.2.2.2.1 hcp.2.2.2.2
    · intro p hp c
      by_cases hpn : p = n
      · subst hpn
        rw [Function.update_self, hempty, List.nil_append]
        exact ⟨fun hc => (hg.of_mem_adopted h hc).2.2.1,
          fun hc => mem_adopted.2 ⟨hchildren, hc.1, hc.2.2.2.2⟩⟩
      · rw [Function.update_of_ne hpn]
        exact hmem₂ p (hold p hp hpn) c
  · refine ⟨L₂, ?_, fun p hp c => ?_⟩
    · rw [adopted, if_neg hchildren]
      exact hL₂
    · have hpn : p ≠ n := fun heq => hchildren (heq ▸ hp.2)
      exact hmem₂ p (hold p hp hpn) c

/-- A rejected duplicate that would be linked to nothing changes nothing. -/
theorem GoodDuplicate.registerNode_eq (h : Buckets N r ns) (hg : GoodDuplicate N r n)
    (hn : effectiveId N n ∈ ns.map (effectiveId N)) : r.registerNode N n = some r := by
  have heq := h.registerNode_eq n
  rw [register, if_pos hn, afterRegisterInList, if_pos hn] at heq
  have hlink : linkParent N ns n = none :=
    Option.eq_none_iff_forall_ne_some.2 fun p hp => hg.noParent p ((h.findsParent_iff n p).2 hp)
  have hadopted : adopted N ns n = [] := List.eq_nil_iff_forall_not_mem.2 fun c hc => by
    obtain ⟨hchildren, hmem, hid⟩ := mem_adopted.1 hc
    exact hg.noChild hchildren c ((h.isRegistered_iff c).2 hmem) hid
  rw [heq, hlink, hadopted]
  rfl

/-- A good registration ends and keeps the child lists right. -/
theorem registerNode_children (h : ChildrenInv N r ns) (hg : GoodRegister N r n) :
    ∃ r', r.registerNode N n = some r' ∧ ChildrenInv N r' (register N ns n) := by
  rw [register]
  split
  · rename_i hn
    exact ⟨r, (hg.duplicate ((h.buckets.isDuplicate_iff n).2 hn)).registerNode_eq h.buckets hn, h⟩
  · rename_i hn
    exact (hg.new fun hdup => hn ((h.buckets.isDuplicate_iff n).1 hdup)).children h hn

omit [Fintype ι] in
/-- The children of a parent are those it had, without the node that goes. -/
theorem childIn_erase (hns : ns.Nodup) : ChildIn N (ns.erase n) p c ↔ ChildIn N ns p c ∧ c ≠ n := by
  simp only [ChildIn, hns.mem_erase_iff]
  tauto

/-- A good unregistration ends and keeps the child lists right. -/
theorem unregisterNode_children (h : ChildrenInv N r ns) (hg : GoodUnregister N r n)
    (hroot : n ≠ N.rootNode) (hmetadata : n ≠ N.metadataNode) :
    ∃ r', r.unregisterNode N n = some r' ∧ ChildrenInv N r' (ns.erase n) := by
  have hb := h.buckets
  have hns := hb.nodes_nodup
  obtain ⟨L, hL, hmem⟩ := h.lists
  obtain ⟨r₁, h₁, hchildren, hchildrenOf, heq⟩ := hb.unregisterNode_eq n
  have hold : ∀ p, ParentIn N (ns.erase n) p → ParentIn N ns p ∧ p ≠ n := fun p hp => by
    rw [ParentIn, hns.mem_erase_iff] at hp
    exact ⟨⟨hp.1.2, hp.2⟩, hp.1.1⟩
  have hL₁ : ChildLists r₁ (ParentIn N (ns.erase n)) L :=
    hL.congr (fun p hp => (hold p hp).1) hchildren hchildrenOf
  -- the node is in no list but that of the parent that is found
  have hfound : ∀ p, ParentIn N (ns.erase n) p → n ∈ L p → linkParent N (ns.erase n) n = some p := by
    intro p hp hnp
    obtain ⟨hp', hpn⟩ := hold p hp
    obtain ⟨hnmem, -, -, -, hid⟩ := (hmem p hp' n).1 hnp
    have hfinds := hg ((hb.isRegistered_iff n).2 hnmem) p ((hb.isParent_iff p).2 hp') hpn hid.symm
    have hlink := (hb.linkParent_eq_some_iff n p).1 ((hb.findsParent_iff n p).1 hfinds)
    exact (h₁.linkParent_eq_some_iff n p).2 ⟨hp, hlink.2⟩
  have hroot' : N.rootNode ∈ ns.erase n := (List.mem_erase_of_ne hroot.symm).2 h.root
  have hmetadata' : N.metadataNode ∈ ns.erase n :=
    (List.mem_erase_of_ne hmetadata.symm).2 h.metadata
  rcases hlink : linkParent N (ns.erase n) n with _ | p
  · rw [hlink] at heq
    refine ⟨r₁, heq, h₁, hroot', hmetadata', L, hL₁, fun p hp c => ?_⟩
    rw [childIn_erase hns, ← hmem p (hold p hp).1 c]
    refine ⟨fun hc => ⟨hc, fun hcn => ?_⟩, And.left⟩
    rw [hfound p hp (hcn ▸ hc)] at hlink
    simp at hlink
  · rw [hlink] at heq
    have hp := ((h₁.linkParent_eq_some_iff n p).1 hlink).1
    obtain ⟨r', hr', hL', hlist, hmap⟩ := hL₁.removeChild hp n
    refine ⟨r', heq.trans hr', h₁.congr hlist hmap, hroot', hmetadata', _, hL', fun q hq c => ?_⟩
    rw [childIn_erase hns, ← hmem q (hold q hq).1 c]
    by_cases hqp : q = p
    · subst hqp
      rw [Function.update_self, (hL₁.holds q hq).nodup.mem_erase_iff, and_comm]
    · rw [Function.update_of_ne hqp]
      refine ⟨fun hc => ⟨hc, fun hcn => ?_⟩, And.left⟩
      rw [hfound q hq (hcn ▸ hc)] at hlink
      exact hqp (Option.some.inj hlink)

end ThingSetRegistry

end ThingSet
