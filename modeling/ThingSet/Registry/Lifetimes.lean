import ThingSet.Registry.Children

/-!
# Constructions and destructions

Nodes register themselves in their constructors and unregister in their destructors; a record
member does so through a static proxy, when the first instance comes and when the last one goes.
The events of a run are constructions and destructions in any order, parents before or after
their children.

* `step_inv`: a good event ends and keeps the child lists right.
* `childLists_of_goodRun`: the child lists in every state of a good run.
* `childLists_of_recreatedGroup`: a run that is not good.
-/

namespace ThingSet

open Chain IntrusiveLinkedList ThingSetRegistry

/-- A node is constructed or destroyed. For a record member this is an instance of it; the node
itself is the proxy, a static object. -/
inductive NodeEvent (ι : Type)
  | construct (node : ι)
  | destroy (node : ι)

/-- The registry, and for each node how many instances of it there are: `refCount` of a record
member, at most one of any other node. -/
structure Program (ι : Type) where
  registry : ThingSetRegistry ι
  refCount : ι → ℕ

namespace Program

variable {ι : Type} [DecidableEq ι] (N : Nodes ι)

/-- Before any node is constructed. -/
def initial : Program ι := ⟨.initial N, fun _ => 0⟩

/-- The registry when the constructor of a node registers it: the links and the child list of an
object are empty at first, those of a static object are as they were left. -/
def beforeRegister (s : Program ι) (n : ι) : ThingSetRegistry ι :=
  if (N.info n).recordMember then s.registry
  else
    { s.registry with
      list := Function.update s.registry.list n none
      children := Function.update s.registry.children n none
      childrenOf := Function.update s.registry.childrenOf n {} }

/-- The events that can happen: an object is constructed once, and what is destroyed was
constructed. -/
def Possible (s : Program ι) : NodeEvent ι → Prop
  | .construct n => n ≠ N.rootNode ∧ n ≠ N.metadataNode ∧
      ((N.info n).recordMember = false → s.refCount n = 0)
  | .destroy n => n ≠ N.rootNode ∧ n ≠ N.metadataNode ∧ 0 < s.refCount n

instance (s : Program ι) : (e : NodeEvent ι) → Decidable (s.Possible N e)
  | .construct _ => inferInstanceAs (Decidable (_ ∧ _ ∧ _))
  | .destroy _ => inferInstanceAs (Decidable (_ ∧ _ ∧ _))

variable [Fintype ι]

/-- The constructors and destructors: `if (refCount++ == 0)` and `if (--refCount == 0)`. -/
def step (s : Program ι) : NodeEvent ι → Option (Program ι)
  | .construct n => do
    let registry ← if s.refCount n = 0 then (s.beforeRegister N n).registerNode N n
      else some s.registry
    some ⟨registry, Function.update s.refCount n (s.refCount n + 1)⟩
  | .destroy n => do
    let registry ← if s.refCount n - 1 = 0 then s.registry.unregisterNode N n else some s.registry
    some ⟨registry, Function.update s.refCount n (s.refCount n - 1)⟩

/-- The events whose calls to the registry, if any, are good. -/
def Good (s : Program ι) : NodeEvent ι → Prop
  | .construct n => s.refCount n = 0 → GoodRegister N (s.beforeRegister N n) n
  | .destroy n => s.refCount n - 1 = 0 → GoodUnregister N s.registry n

/-- The states of the runs all of whose events are possible and meet a condition. -/
inductive Run (ok : Program ι → NodeEvent ι → Prop) : Program ι → Prop
  | initial : Run ok (initial N)
  | step {s s' : Program ι} {e : NodeEvent ι} : Run ok s → s.Possible N e → ok s e →
      s.step N e = some s' → Run ok s'

variable {N} {s s' : Program ι} {ns : List ι} {n : ι}

/-- The state between events: what is registered has been constructed. -/
structure Inv (N : Nodes ι) (s : Program ι) (ns : List ι) : Prop where
  children : ChildrenInv N s.registry ns
  constructed : ∀ n ∈ ns, n ≠ N.rootNode → n ≠ N.metadataNode → 0 < s.refCount n

omit [Fintype ι] in
theorem inv_initial : Inv N (initial N) [N.rootNode, N.metadataNode] := by
  refine ⟨⟨buckets_initial, by simp, by simp, fun _ => [], ⟨fun p _ => holds_nil _, by simp⟩, ?_⟩, ?_⟩
  · simp only [ChildIn, List.mem_cons, List.not_mem_nil, or_false, false_iff]
    tauto
  · simp only [List.mem_cons, List.not_mem_nil, or_false]
    tauto

omit [DecidableEq ι] [Fintype ι] in
theorem notMem_of_possible (h : Inv N s ns) (hp : s.Possible N (.construct n))
    (hcount : s.refCount n = 0) : n ∉ ns := fun hn => by
  have := h.constructed n hn hp.1 hp.2.1
  omega

/-- The lists of the registry and of the registered parents hold the same nodes as before. -/
structure SameLists (N : Nodes ι) (r r' : ThingSetRegistry ι) : Prop where
  nodeMap : ∀ b l, Holds r.list (r.nodeMap b) l → Holds r'.list (r'.nodeMap b) l
  childrenOf : ∀ p, IsParent N r p → ∀ l, Holds r.children (r.childrenOf p) l →
    Holds r'.children (r'.childrenOf p) l

/-- Constructing an object that is in no list disturbs none. -/
theorem beforeRegister_sameLists (h : ChildrenInv N s.registry ns) (hn : n ∉ ns) :
    SameLists N s.registry (s.beforeRegister N n) := by
  have hne : ∀ m ∈ ns, m ≠ n := fun m hm heq => hn (heq ▸ hm)
  rw [beforeRegister]
  split
  · exact ⟨fun _ _ => id, fun _ _ _ => id⟩
  · obtain ⟨L, hL, hmem⟩ := h.lists
    refine ⟨fun b l hl => hl.congr fun m hm => ?_, fun p hp l hl => ?_⟩
    · rw [hl.unique (h.buckets.holds b)] at hm
      exact (Function.update_of_ne (hne m (List.mem_filter.1 hm).1) ..).symm
    · have hp := (h.buckets.isParent_iff p).1 hp
      simp only [Function.update_of_ne (hne p hp.1)]
      refine hl.congr fun m hm => ?_
      rw [hl.unique (hL.holds p hp), hmem p hp] at hm
      exact (Function.update_of_ne (hne m hm.1) ..).symm

theorem beforeRegister_children (h : ChildrenInv N s.registry ns) (hn : n ∉ ns) :
    ChildrenInv N (s.beforeRegister N n) ns := by
  have hsame := beforeRegister_sameLists h hn
  obtain ⟨L, hL, hmem⟩ := h.lists
  refine ⟨⟨fun b => hsame.nodeMap b _ (h.buckets.holds b), fun m hm => ?_, h.buckets.nodup⟩,
    h.root, h.metadata, L, ⟨fun p hp => ?_, hL.disjoint⟩, hmem⟩
  · have hfree := h.buckets.free m hm
    rw [beforeRegister]
    split
    · exact hfree
    · by_cases hmn : m = n
      · simp [hmn]
      · simpa only [Function.update_of_ne hmn] using hfree
  · exact hsame.childrenOf p ((h.buckets.isParent_iff p).2 hp) _ (hL.holds p hp)

theorem step_construct {r' : ThingSetRegistry ι} (hcount : s.refCount n = 0)
    (hr' : (s.beforeRegister N n).registerNode N n = some r') :
    s.step N (.construct n) = some ⟨r', Function.update s.refCount n (s.refCount n + 1)⟩ := by
  simp [step, hcount, hr']

theorem step_destroy {r' : ThingSetRegistry ι} (hcount : s.refCount n - 1 = 0)
    (hr' : s.registry.unregisterNode N n = some r') :
    s.step N (.destroy n) = some ⟨r', Function.update s.refCount n (s.refCount n - 1)⟩ := by
  simp [step, hcount, hr']

/-- A good event ends and keeps the child lists right. -/
theorem step_inv (h : Inv N s ns) {e : NodeEvent ι} (hp : s.Possible N e) (hg : s.Good N e) :
    ∃ s' ns', s.step N e = some s' ∧ Inv N s' ns' := by
  cases e with
  | construct n =>
    by_cases hcount : s.refCount n = 0
    · have hn := notMem_of_possible h hp hcount
      obtain ⟨r', hr', h'⟩ :=
        registerNode_children (beforeRegister_children h.children hn) (hg hcount)
      refine ⟨_, _, step_construct hcount hr', h', fun m hm hroot hmetadata => ?_⟩
      by_cases hmn : m = n
      · simp [hmn]
      · have hm : m ∈ ns := by
          rw [register] at hm
          split at hm
          · exact hm
          · simpa [hmn] using hm
        simpa [Function.update_of_ne hmn] using h.constructed m hm hroot hmetadata
    · refine ⟨⟨s.registry, Function.update s.refCount n (s.refCount n + 1)⟩, ns,
        by simp [step, hcount], h.children, fun m hm hroot hmetadata => ?_⟩
      by_cases hmn : m = n
      · simp [hmn]
      · simpa [Function.update_of_ne hmn] using h.constructed m hm hroot hmetadata
  | destroy n =>
    by_cases hcount : s.refCount n - 1 = 0
    · obtain ⟨r', hr', h'⟩ := unregisterNode_children h.children (hg hcount) hp.1 hp.2.1
      refine ⟨_, _, step_destroy hcount hr', h', fun m hm hroot hmetadata => ?_⟩
      obtain ⟨hmn, hm⟩ := (h.children.buckets.nodes_nodup.mem_erase_iff).1 hm
      simpa [Function.update_of_ne hmn] using h.constructed m hm hroot hmetadata
    · refine ⟨⟨s.registry, Function.update s.refCount n (s.refCount n - 1)⟩, ns,
        by simp [step, hcount], h.children, fun m hm hroot hmetadata => ?_⟩
      by_cases hmn : m = n
      · subst hmn
        simp only [Function.update_self]
        omega
      · simpa [Function.update_of_ne hmn] using h.constructed m hm hroot hmetadata

theorem run_inv (h : Run N (Good N) s) : ∃ ns, Inv N s ns := by
  induction h with
  | initial => exact ⟨_, inv_initial⟩
  | step _ hp hg hstep ih =>
    obtain ⟨ns, h⟩ := ih
    obtain ⟨s', ns', hs', h'⟩ := step_inv h hp hg
    obtain rfl := Option.some.inj (hs'.symm.trans hstep)
    exact ⟨ns', h'⟩

/-- **In every state of a run of good events the child lists are right**: that of each registered
parent is acyclic and holds exactly the registered nodes other than itself that name its id as
their parent, each once. The next good event ends, and a duplicate that is rejected leaves every
list as it was. -/
theorem childLists_of_goodRun (N : Nodes ι) (s : Program ι) (h : Run N (Good N) s) :
    ChildListsCorrect N s.registry ∧
    ∀ e, s.Possible N e → s.Good N e → ∃ s', s.step N e = some s' ∧
      ∀ n, e = .construct n → s.refCount n = 0 → IsDuplicate N (s.beforeRegister N n) n →
        SameLists N s.registry s'.registry := by
  obtain ⟨ns, hinv⟩ := run_inv h
  refine ⟨hinv.children.correct, fun e hp hg => ?_⟩
  obtain ⟨s', -, hs', -⟩ := step_inv hinv hp hg
  refine ⟨s', hs', ?_⟩
  rintro n rfl hcount hdup
  have hn := notMem_of_possible hinv hp hcount
  have h' := beforeRegister_children hinv.children hn
  have heq := ((hg hcount).duplicate hdup).registerNode_eq h'.buckets
    ((h'.buckets.isDuplicate_iff n).1 hdup)
  obtain rfl := Option.some.inj (hs'.symm.trans (step_construct hcount heq))
  exact beforeRegister_sameLists hinv.children hn

/-- A group with id 1 and two nodes in it. -/
def groupOfTwo : Nodes SmallNode where
  info
    | .root => (NodeInfo.ofIds 0 0).withChildren
    | .metadata => (NodeInfo.ofIds 25 0).withChildren
    | .a => (NodeInfo.ofIds 1 0).withChildren
    | .b => NodeInfo.ofIds 2 1
    | .c => NodeInfo.ofIds 3 1
    | .d => NodeInfo.ofIds 4 0
  rootNode := .root
  metadataNode := .metadata
  rootNode_info := rfl
  metadataNode_info := rfl

/-- Serve a sequence of events, each of which is possible. -/
def steps (N : Nodes ι) (s : Program ι) : List (NodeEvent ι) → Option (Program ι)
  | [] => some s
  | e :: es => if s.Possible N e then (s.step N e).bind fun s => steps N s es else none

theorem run_of_steps {ok : Program ι → NodeEvent ι → Prop} (h : Run N ok s)
    {es : List (NodeEvent ι)} (hok : ∀ s e, ok s e) (hs : s.steps N es = some s') :
    Run N ok s' := by
  induction es generalizing s with
  | nil => exact Option.some.inj hs ▸ h
  | cons e es ih =>
    rw [steps] at hs
    split at hs
    · rename_i hp
      obtain ⟨s₁, hs₁, hs⟩ := Option.bind_eq_some_iff.1 hs
      exact ih (h.step hp (hok s e) hs₁) hs
    · simp at hs

/-- One of the children is constructed. -/
def orphan : Program SmallNode := ((initial groupOfTwo).step groupOfTwo (.construct .b)).get (by decide)

/-- Then its group is. -/
def lateGroup : Program SmallNode := (orphan.step groupOfTwo (.construct .a)).get (by decide)

/-- A group that comes after its child adopts it. -/
theorem childLists_of_lateGroup : ChildListsCorrect groupOfTwo lateGroup.registry := by
  have horphan : Run groupOfTwo (Good groupOfTwo) orphan := by
    refine .step (e := .construct .b) .initial (by decide) ?_ (Option.some_get _).symm
    exact fun _ => ⟨fun hdup => absurd hdup (by decide),
      fun _ => ⟨by decide, by decide, by decide, by decide, by decide, by decide⟩⟩
  have hgroup : Run groupOfTwo (Good groupOfTwo) lateGroup := by
    refine .step (e := .construct .a) horphan (by decide) ?_ (Option.some_get _).symm
    exact fun _ => ⟨fun hdup => absurd hdup (by decide),
      fun _ => ⟨by decide, by decide, by decide, by decide, by decide, by decide⟩⟩
  exact (childLists_of_goodRun groupOfTwo lateGroup hgroup).1

/-- The group, its children, and again the group. -/
def recreatedGroup : Program SmallNode :=
  ((initial groupOfTwo).steps groupOfTwo
    [.construct .a, .construct .b, .construct .c, .destroy .a, .construct .a]).get (by decide)

/-- A group that goes before its children and comes back: the first of them still has its old link
and is left out of the new list. -/
theorem childLists_of_recreatedGroup :
    ¬ ∀ s, Run groupOfTwo (fun _ _ => True) s → ChildListsCorrect groupOfTwo s.registry := by
  intro h
  have hrun : Run groupOfTwo (fun _ _ => True) recreatedGroup :=
    run_of_steps .initial (fun _ _ => trivial) (Option.some_get _).symm
  obtain ⟨l, hl, -, hmem⟩ := h recreatedGroup hrun .a (by decide)
  have hpath : Path recreatedGroup.registry.children (recreatedGroup.registry.childrenOf .a).head
      [.c] := @path_of_traverse _ _ _ _ 6 (by decide)
  have hb : SmallNode.b ∈ l := (hmem .b).2 (by decide)
  rw [hl.path.unique hpath] at hb
  exact absurd hb (by decide)

end Program

end ThingSet
