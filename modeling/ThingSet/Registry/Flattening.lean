import ThingSet.LinkedLists
import ThingSet.Registry.Buckets

/-!
# The registry's iterator

`FlatteningIterator` goes through the lists of an array one after the other. It has an iterator of the array, the end
of it, and an iterator of the list at the first, which has no value yet where the array is at its end.

* `flatten_yields`: it comes to the objects of the lists in order, whichever of them are empty, and neither advances
  nor dereferences the end of a list or of the array.
* `nodesInSubset_of_run`: so `nodesInSubset` enumerates the registered nodes with the bits of the mask.
-/

namespace ThingSet

open Chain Iteration IntrusiveLinkedList

/-- `FlatteningIterator`. The iterators of the array are indices. -/
structure FlatteningIterator (ι : Type) where
  outerIt : ℕ
  outerEnd : ℕ
  innerIt : ListIterator ℕ ι := {}
  deriving DecidableEq, Repr

namespace FlatteningIterator

variable {ι : Type} [DecidableEq ι] {size : ℕ} (next : ι → Option ι) (lists : Fin size → IntrusiveLinkedList ι)

/-- `*outer_it_`: nothing at the end of the array. -/
def inner (i : ℕ) : Option (Range (ListIterator ℕ ι) ι) :=
  if h : i < size then some ((lists ⟨i, h⟩).range next i) else none

/-- The loop of `advance_past_empty_inner_containers`, with a bound on its rounds. -/
def advance : ℕ → FlatteningIterator ι → Option (FlatteningIterator ι)
  | 0, _ => none
  | rounds + 1, it =>
    if it.outerIt = it.outerEnd then some it
    else
      (inner next lists it.outerIt).bind fun range =>
        if range.equal it.innerIt range.stop then
          let it := { it with outerIt := it.outerIt + 1 }
          if it.outerIt = it.outerEnd then advance rounds it
          else (inner next lists it.outerIt).bind fun range => advance rounds { it with innerIt := range.start }
        else some it

/-- `advance_past_empty_inner_containers`: one round for each list, and one to see the end. -/
def advancePastEmptyInnerContainers (it : FlatteningIterator ι) : Option (FlatteningIterator ι) :=
  advance next lists (size + 1) it

/-- The constructor. -/
def construct (first last : ℕ) : Option (FlatteningIterator ι) :=
  if first = last then some ⟨first, last, {}⟩
  else
    (inner next lists first).bind fun range =>
      advancePastEmptyInnerContainers next lists ⟨first, last, range.start⟩

/-- `operator++`. -/
def increment (it : FlatteningIterator ι) : Option (FlatteningIterator ι) :=
  (inner next lists it.outerIt).bind fun range =>
    (range.next it.innerIt).bind fun innerIt =>
      let it := { it with innerIt := innerIt }
      if range.equal innerIt range.stop then advancePastEmptyInnerContainers next lists it else some it

/-- `operator==`. -/
def equal (a b : FlatteningIterator ι) : Bool :=
  if a.outerIt ≠ b.outerIt then false
  else if a.outerIt ≠ a.outerEnd ∧ b.outerIt ≠ b.outerEnd ∧ a.innerIt ≠ b.innerIt then false
  else true

/-- `operator*`. -/
def deref (it : FlatteningIterator ι) : Option ι := it.innerIt.node

/-- `flatten(begin, end)` and `flatten(end)` on an array. -/
def flatten : Option (Range (FlatteningIterator ι) ι) :=
  (construct next lists 0 size).bind fun start =>
    (construct next lists size size).map fun stop =>
      { start := start, stop := stop, equal := equal, next := increment next lists, deref := deref }

variable {next lists} {l : Fin size → List ι} {p : Option ι} {i rounds : ℕ} {it : FlatteningIterator ι}

/-- The objects of the lists from the one at `i` on. -/
def remaining (l : Fin size → List ι) (i : ℕ) : List ι := ((List.finRange size).drop i).flatMap l

omit [DecidableEq ι] in
theorem remaining_of_lt (l : Fin size → List ι) (hi : i < size) : remaining l i = l ⟨i, hi⟩ ++ remaining l (i + 1) := by
  have hlen : i < (List.finRange size).length := by rwa [List.length_finRange]
  rw [remaining, List.drop_eq_getElem_cons hlen, List.flatMap_cons, List.getElem_finRange]
  rfl

omit [DecidableEq ι] in
theorem remaining_size (l : Fin size → List ι) : remaining l size = [] := by
  rw [remaining, List.drop_of_length_le (List.length_finRange ..).le]
  rfl

/-- The iterator is at the end of the array, or at an object of the list of its outer iterator. -/
def IsAt (next : ι → Option ι) (l : Fin size → List ι) (it : FlatteningIterator ι) (rest : List ι) : Prop :=
  it.outerEnd = size ∧
    (it.outerIt = size ∧ rest = [] ∨
      ∃ n chain, it.outerIt < size ∧ it.innerIt = ⟨some it.outerIt, some n⟩ ∧ Path next (next n) chain ∧
        rest = n :: chain ++ remaining l (it.outerIt + 1))

theorem range_equal_stop (list : IntrusiveLinkedList ι) (i : ℕ) (p : Option ι) :
    (list.range next i).equal ⟨some i, p⟩ (list.range next i).stop = decide (p = none) :=
  decide_eq_decide.2 ⟨fun h => congrArg ListIterator.node h, fun h => h ▸ rfl⟩

/-- The loop stops at the next object. -/
theorem advance_of_path (h : ∀ i, Path next (lists i).head (l i)) {chain : List ι} (hi : i < size)
    (hchain : Path next p chain) (hrounds : size - i < rounds) :
    ∃ it, advance next lists rounds ⟨i, size, ⟨some i, p⟩⟩ = some it ∧
      IsAt next l it (chain ++ remaining l (i + 1)) := by
  induction rounds generalizing i p chain with
  | zero => cases hrounds
  | succ rounds ih =>
    have hinner (i : ℕ) (hi : i < size) : inner next lists i = some ((lists ⟨i, hi⟩).range next i) := dif_pos hi
    rw [advance]
    dsimp only
    rw [if_neg (Nat.ne_of_lt hi), hinner i hi, Option.bind_some]
    cases chain with
    | nil =>
      obtain rfl := path_nil.1 hchain
      rw [if_pos ((range_equal_stop ..).trans (decide_eq_true rfl)), List.nil_append]
      by_cases hend : i + 1 = size
      · obtain ⟨rounds, rfl⟩ : ∃ k, rounds = k + 1 := ⟨rounds - 1, by omega⟩
        rw [if_pos hend, advance, if_pos hend, hend, remaining_size]
        exact ⟨_, rfl, rfl, .inl ⟨rfl, rfl⟩⟩
      · have hlt : i + 1 < size := by omega
        rw [if_neg hend, hinner (i + 1) hlt, Option.bind_some, remaining_of_lt l hlt]
        exact ih hlt (h ⟨i + 1, hlt⟩) (by omega)
    | cons n chain =>
      obtain ⟨rfl, hrest⟩ := path_cons.1 hchain
      rw [if_neg (by rw [range_equal_stop, decide_eq_true_iff]; exact Option.some_ne_none n)]
      exact ⟨_, rfl, rfl, .inr ⟨n, chain, hi, rfl, hrest, rfl⟩⟩

/-- The iterator comes to the objects that remain. -/
theorem yields_of_isAt (h : ∀ i, Path next (lists i).head (l i)) {R : Range (FlatteningIterator ι) ι}
    (hstop : R.stop = ⟨size, size, {}⟩) (hequal : R.equal = equal) (hnext : R.next = increment next lists)
    (hderef : R.deref = deref) {rest : List ι} (hit : IsAt next l it rest) : R.Yields it rest := by
  induction rest generalizing it with
  | nil =>
    obtain ⟨hend, ⟨houter, -⟩ | ⟨n, chain, -, -, -, hrest⟩⟩ := hit
    · rw [Range.Yields, hstop, hequal, equal]
      dsimp only
      rw [if_neg (not_not_intro houter), if_neg fun h => h.1 (houter.trans hend.symm)]
    · cases hrest
  | cons a rest ih =>
    obtain ⟨hend, ⟨-, hrest⟩ | ⟨n, chain, hlt, hinnerIt, hchain, hrest⟩⟩ := hit
    · cases hrest
    · obtain ⟨outerIt, outerEnd, innerIt⟩ := it
      dsimp only at hend hlt hinnerIt hrest
      subst hend hinnerIt
      rw [List.cons_append] at hrest
      obtain ⟨rfl, rfl⟩ := List.cons.inj hrest
      refine ⟨?_, by rw [hderef]; rfl, ?_⟩
      · rw [hstop, hequal, equal]
        exact if_pos (Nat.ne_of_lt hlt)
      · have hinner : inner next lists outerIt = some ((lists ⟨outerIt, hlt⟩).range next outerIt) := dif_pos hlt
        rw [hnext, increment, hinner, Option.bind_some]
        change ∃ it', (if decide ((⟨some outerIt, next a⟩ : ListIterator ℕ ι) = ⟨some outerIt, none⟩) = true then _
          else _) = some it' ∧ _
        split
        · obtain ⟨it', hadvance, hit'⟩ := advance_of_path h hlt hchain (by omega : outerEnd - outerIt < outerEnd + 1)
          exact ⟨it', hadvance, ih hit'⟩
        · rename_i hne
          refine ⟨_, rfl, ih ⟨rfl, .inr ?_⟩⟩
          cases chain with
          | nil =>
            rw [path_nil.1 hchain] at hne
            exact absurd (decide_eq_true rfl) hne
          | cons m chain =>
            obtain ⟨hm, hchain⟩ := path_cons.1 hchain
            dsimp only
            rw [hm]
            exact ⟨m, chain, hlt, rfl, hchain, rfl⟩

/-- **The iterator comes to the objects of the lists in order, whichever of them are empty.** -/
theorem flatten_yields (h : ∀ i, Path next (lists i).head (l i)) :
    ∃ R, flatten next lists = some R ∧ R.Yields R.start ((List.finRange size).flatMap l) := by
  have hstop : construct next lists size size = some ⟨size, size, {}⟩ := if_pos rfl
  have hstart : ∃ start, construct next lists 0 size = some start ∧
      IsAt next l start ((List.finRange size).flatMap l) := by
    have hall : (List.finRange size).flatMap l = remaining l 0 := rfl
    rw [construct, hall]
    split
    · rename_i hsize
      subst hsize
      exact ⟨_, rfl, rfl, .inl ⟨rfl, rfl⟩⟩
    · rename_i hsize
      have hpos : 0 < size := Nat.pos_of_ne_zero (Ne.symm hsize)
      have hinner : inner next lists 0 = some ((lists ⟨0, hpos⟩).range next 0) := dif_pos hpos
      rw [hinner, Option.bind_some, remaining_of_lt l hpos]
      exact advance_of_path h hpos (h ⟨0, hpos⟩) (by omega)
  obtain ⟨start, hconstruct, hit⟩ := hstart
  refine ⟨_, by rw [flatten, hconstruct, hstop]; rfl, ?_⟩
  exact yields_of_isAt h rfl rfl rfl rfl hit

end FlatteningIterator

namespace ThingSetRegistry

open FlatteningIterator

variable {ι : Type} [DecidableEq ι] {N : Nodes ι} {r : ThingSetRegistry ι}

/-- `nodesInSubset`: the nodes that the filter lets through, where `subsets` is what `getSubsets` returns. -/
def nodesInSubset (r : ThingSetRegistry ι) (subsets : ι → UInt32) (subset : UInt32) (rounds : ℕ) : Option (List ι) :=
  (flatten r.list r.nodeMap).bind fun range =>
    (range.elements rounds).map (List.filter fun n => subsets n &&& subset == subset)

/-- The nodes bucket by bucket. -/
def bucketByBucket (N : Nodes ι) (ns : List ι) : List ι :=
  (List.finRange 8).flatMap fun b => ns.filter fun n => bucketOf (effectiveId N n) = b

omit [DecidableEq ι] in
theorem mem_bucketByBucket {ns : List ι} {n : ι} : n ∈ bucketByBucket N ns ↔ n ∈ ns := by
  rw [bucketByBucket, List.mem_flatMap]
  constructor
  · rintro ⟨b, -, hn⟩
    exact (List.mem_filter.1 hn).1
  · intro hn
    exact ⟨bucketOf (effectiveId N n), List.mem_finRange _, List.mem_filter.2 ⟨hn, decide_eq_true rfl⟩⟩

omit [DecidableEq ι] in
theorem nodup_bucketByBucket {ns : List ι} (hns : ns.Nodup) : (bucketByBucket N ns).Nodup := by
  refine List.nodup_flatMap.2 ⟨fun b _ => hns.filter _, ?_⟩
  refine (List.nodup_finRange 8).imp fun hne n hn hn' => hne ?_
  have h := of_decide_eq_true (List.mem_filter.1 hn).2
  have h' := of_decide_eq_true (List.mem_filter.1 hn').2
  exact h.symm.trans h'

theorem Buckets.nodesInSubset (h : Buckets N r ns) [Fintype ι] (subsets : ι → UInt32) (subset : UInt32) :
    r.nodesInSubset subsets subset (rounds ι) =
      some ((bucketByBucket N ns).filter fun n => subsets n &&& subset == subset) := by
  obtain ⟨R, hR, hyields⟩ := flatten_yields fun b => (h.holds b).path
  have hlen : (bucketByBucket N ns).length < rounds ι :=
    Nat.lt_succ_of_le (nodup_bucketByBucket h.nodes_nodup).length_le_card
  rw [ThingSetRegistry.nodesInSubset, hR, Option.bind_some, hyields.elements hlen]
  rfl

/-- **A `FlatteningIterator` comes to the objects of an array of lists in order, each once, and ends; and after every
run of registrations and unregistrations `nodesInSubset` enumerates exactly the registered nodes whose mask has the
bits of the subset.** -/
theorem nodesInSubset_of_run [Fintype ι] (N : Nodes ι) :
    (∀ (size : ℕ) (next : ι → Option ι) (lists : Fin size → IntrusiveLinkedList ι) (l : Fin size → List ι),
      (∀ i, Holds next (lists i) (l i)) →
        ∃ range, flatten next lists = some range ∧ ∀ rounds > ((List.finRange size).flatMap l).length,
          range.elements rounds = some ((List.finRange size).flatMap l)) ∧
    ∀ (calls : List (RegistryCall ι)) (r : ThingSetRegistry ι), (initial N).run N calls = some r →
      ∀ (subsets : ι → UInt32) (subset : UInt32), ∃ ns, r.nodesInSubset subsets subset (rounds ι) = some ns ∧
        ns.Nodup ∧ ∀ n, n ∈ ns ↔ n ∈ registered N calls ∧ subsets n &&& subset = subset := by
  constructor
  · intro size next lists l h
    obtain ⟨R, hR, hyields⟩ := flatten_yields fun i => (h i).path
    exact ⟨R, hR, fun rounds hrounds => hyields.elements hrounds⟩
  · intro calls r hr subsets subset
    have h := run_buckets hr
    refine ⟨_, h.nodesInSubset subsets subset, (nodup_bucketByBucket h.nodes_nodup).filter _, fun n => ?_⟩
    rw [List.mem_filter, mem_bucketByBucket, beq_iff_eq]

/-- Of the nodes after these calls the root and one other have the second bit. -/
theorem nodesInSubset_of_duplicateCalls :
    ∃ r ns, (initial sharedIds).run sharedIds duplicateCalls = some r ∧
      r.nodesInSubset (fun n => if n = .root ∨ n = .b then 6 else 4) 2 (rounds SmallNode) = some ns ∧
        SmallNode.b ∈ ns ∧ SmallNode.a ∉ ns ∧
          ∃ range, flatten (fun _ : SmallNode => none) (fun i : Fin 0 => i.elim0) = some range ∧
            range.elements 1 = some [] := by
  have hsome : ((initial sharedIds).run sharedIds duplicateCalls).isSome := by decide
  obtain ⟨r, hr⟩ := Option.isSome_iff_exists.1 hsome
  obtain ⟨ns, hns, -, hmem⟩ := (nodesInSubset_of_run sharedIds).2 duplicateCalls r hr
    (fun n => if n = .root ∨ n = .b then 6 else 4) 2
  obtain ⟨R, hR, helements⟩ := (nodesInSubset_of_run sharedIds).1 0 (fun _ => none) (fun i => i.elim0)
    (fun i => i.elim0) fun i => i.elim0
  exact ⟨r, ns, hr, hns, (hmem .b).2 (by decide), fun h => absurd ((hmem .a).1 h).2 (by decide), R, hR,
    helements 1 (by decide)⟩

end ThingSetRegistry

end ThingSet
