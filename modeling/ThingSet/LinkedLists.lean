import ThingSet.Foundations.Ranges
import ThingSet.IntrusiveLinkedList

/-!
# Lists threaded through members

An object has a link for each of its members of type `IntrusiveLinkedListNode`, and a list is threaded through one of
them. The reference of a list is the list of its objects, with append and erase.

* `IntrusiveLinkedList.range`: the iterators of a list, `begin()` and `end()`.
* `Represents`: the links and the lists hold the references; an object is in one list through each member, and where
  it is in none its link is null.
* `lists_of_run`: so it is after every run of `push_back` and `remove`.
-/

namespace ThingSet

open Chain Iteration

/-! ## Iterators -/

/-- `IntrusiveLinkedListIterator`: the list, by its name, and the node. -/
structure ListIterator (κ ι : Type) where
  list : Option κ := none
  node : Option ι := none
  deriving DecidableEq, Repr

namespace IntrusiveLinkedList

variable {κ ι : Type} [DecidableEq κ] [DecidableEq ι]

/-- `begin()`, `end()` and the operators of the iterator. A null pointer is neither advanced nor dereferenced. -/
def range (next : ι → Option ι) (name : κ) (list : IntrusiveLinkedList ι) : Range (ListIterator κ ι) ι where
  start := ⟨some name, list.head⟩
  stop := ⟨some name, none⟩
  equal it it' := it = it'
  next it := it.node.map fun n => ⟨it.list, next n⟩
  deref it := it.node

/-- `count()`. -/
def count (next : ι → Option ι) (name : κ) (list : IntrusiveLinkedList ι) (rounds : ℕ) : Option ℕ :=
  (list.range next name).forEach (fun n _ => n + 1) rounds 0

variable {next : ι → Option ι} {name : κ} {list : IntrusiveLinkedList ι} {l : List ι} {p : Option ι} {rounds : ℕ}

/-- The iterator of a list comes to the objects of its chain. -/
theorem yields_of_path (h : Path next p l) : (list.range next name).Yields ⟨some name, p⟩ l := by
  induction l generalizing p with
  | nil =>
    obtain rfl := path_nil.1 h
    exact decide_eq_true rfl
  | cons i l ih =>
    obtain ⟨rfl, hrest⟩ := path_cons.1 h
    exact ⟨decide_eq_false (by rintro ⟨⟩), rfl, _, rfl, ih hrest⟩

theorem Holds.elements (h : Holds next list l) (hrounds : l.length < rounds) :
    (list.range next name).elements rounds = some l :=
  Range.Yields.elements (yields_of_path h.path) hrounds

theorem Holds.count (h : Holds next list l) (hrounds : l.length < rounds) :
    list.count next name rounds = some l.length := by
  have hfold : ∀ n : ℕ, l.foldl (fun n _ => n + 1) n = n + l.length := by
    clear h hrounds
    induction l with
    | nil => intro n; rfl
    | cons i l ih =>
      intro n
      rw [List.foldl_cons, ih, List.length_cons, Nat.add_assoc, Nat.add_comm 1]
  rw [IntrusiveLinkedList.count, Range.Yields.forEach (yields_of_path h.path) _ _ hrounds, hfold, Nat.zero_add]

omit [DecidableEq ι] in
/-- The head of a list is its first object. -/
theorem Holds.head_eq (h : Holds next list l) : list.head = l.head? := by
  have hpath := h.path
  cases l with
  | nil => exact path_nil.1 hpath
  | cons i l => exact (path_cons.1 hpath).1

omit [DecidableEq ι] in
/-- The link of the tail is null. -/
theorem Holds.next_tail (h : Holds next list l) {n : ι} (hn : list.tail = some n) : next n = none := by
  rw [h.tail, List.getLast?_eq_some_iff] at hn
  obtain ⟨l', rfl⟩ := hn
  exact h.path.next_getLast?

end IntrusiveLinkedList

/-! ## Lists and objects -/

open IntrusiveLinkedList

/-- The links of the objects, one for each member, and the lists. -/
structure LinkedLists (κ M ι : Type) where
  next : M → ι → Option ι
  list : κ → IntrusiveLinkedList ι

/-- A call of a list. -/
inductive ListCall (κ ι : Type)
  | pushBack (list : κ) (object : ι)
  | remove (list : κ) (object : ι)

/-- The list that is called. -/
def ListCall.list {κ ι : Type} : ListCall κ ι → κ
  | pushBack k _ => k
  | remove k _ => k

namespace LinkedLists

variable {κ M ι : Type} [DecidableEq κ] [DecidableEq M] [DecidableEq ι] (member : κ → M)

/-- Empty lists, and objects that have just been made. -/
def initial : LinkedLists κ M ι := ⟨fun _ _ => none, fun _ => {}⟩

/-- What an operation on a list has written. -/
def set (s : LinkedLists κ M ι) (k : κ) (next : ι → Option ι) (list : IntrusiveLinkedList ι) : LinkedLists κ M ι :=
  ⟨Function.update s.next (member k) next, Function.update s.list k list⟩

/-- `push_back` on a list. -/
def pushBack (s : LinkedLists κ M ι) (k : κ) (n : ι) : LinkedLists κ M ι :=
  let p := IntrusiveLinkedList.pushBack (s.next (member k)) (s.list k) n
  s.set member k p.1 p.2

/-- The lists that a call has not made known of: what `remove` returns, and nothing for `push_back`. -/
def refResult (l : κ → List ι) : ListCall κ ι → Option Bool
  | .pushBack _ _ => none
  | .remove k n => some (decide (n ∈ l k))

/-- The reference after a call: append and erase. -/
def refAfter (l : κ → List ι) : ListCall κ ι → κ → List ι
  | .pushBack k n => Function.update l k (l k ++ [n])
  | .remove k n => Function.update l k ((l k).erase n)

/-- The results and the reference after a sequence of calls. -/
def refRun : (κ → List ι) → List (ListCall κ ι) → List (Option Bool) × (κ → List ι)
  | l, [] => ([], l)
  | l, c :: calls =>
    let r := refRun (refAfter l c) calls
    (refResult l c :: r.1, r.2)

/-- No object is pushed that is linked through the member. -/
def Permitted : (κ → List ι) → List (ListCall κ ι) → Prop
  | _, [] => True
  | l, c :: calls =>
    (∀ k n, c = .pushBack k n → ∀ k', member k' = member k → n ∉ l k') ∧ Permitted (refAfter l c) calls

/-- The links and the lists hold the references. -/
structure Represents (s : LinkedLists κ M ι) (l : κ → List ι) : Prop where
  holds : ∀ k, Holds (s.next (member k)) (s.list k) (l k)
  /-- An object is in one list through each member. -/
  disjoint : ∀ k k' n, member k = member k' → n ∈ l k → n ∈ l k' → k = k'
  /-- Where it is in none its link is null. -/
  free : ∀ m n, (∀ k, member k = m → n ∉ l k) → s.next m n = none

variable [Fintype ι]

/-- `remove` on a list. -/
def remove (s : LinkedLists κ M ι) (k : κ) (n : ι) : Option (Bool × LinkedLists κ M ι) :=
  (IntrusiveLinkedList.remove (s.next (member k)) (s.list k) n).map fun p => (p.1, s.set member k p.2.1 p.2.2)

/-- A call, and what it returns. -/
def call (s : LinkedLists κ M ι) : ListCall κ ι → Option (Option Bool × LinkedLists κ M ι)
  | .pushBack k n => some (none, s.pushBack member k n)
  | .remove k n => (s.remove member k n).map fun p => (some p.1, p.2)

/-- A sequence of calls, and what they return. -/
def run (s : LinkedLists κ M ι) : List (ListCall κ ι) → Option (List (Option Bool) × LinkedLists κ M ι)
  | [] => some ([], s)
  | c :: calls => (s.call member c).bind fun p => (run p.2 calls).map fun q => (p.1 :: q.1, q.2)

variable {member} {s s' : LinkedLists κ M ι} {l : κ → List ι} {k : κ} {n : ι} {b : Option Bool}

omit [DecidableEq κ] [DecidableEq M] [DecidableEq ι] [Fintype ι] in
theorem represents_initial : Represents member (initial : LinkedLists κ M ι) fun _ => [] :=
  ⟨fun _ => holds_nil _, fun _ _ _ _ hn _ => absurd hn List.not_mem_nil, fun _ _ _ => rfl⟩

omit [DecidableEq ι] [Fintype ι] in
/-- An operation on one list leaves the others as they were, if it writes the links of no object in them. -/
theorem Represents.set (h : Represents member s l) {next : ι → Option ι} {list : IntrusiveLinkedList ι} {l' : List ι}
    (hholds : Holds next list l')
    (hframe : ∀ k' ≠ k, member k' = member k → ∀ i ∈ l k', s.next (member k) i = next i ∧ i ∉ l')
    (hfree : ∀ i ∉ l', (∀ k' ≠ k, member k' = member k → i ∉ l k') → next i = none) :
    Represents member (s.set member k next list) (Function.update l k l') where
  holds k' := by
    by_cases hk : k' = k
    · subst hk
      simp only [LinkedLists.set, Function.update_self]
      exact hholds
    · simp only [LinkedLists.set, Function.update_of_ne hk]
      by_cases hm : member k' = member k
      · rw [hm, Function.update_self]
        exact (hm ▸ h.holds k').congr fun i hi => (hframe k' hk hm i hi).1
      · rw [Function.update_of_ne hm]
        exact h.holds k'
  disjoint k₁ k₂ i hm h₁ h₂ := by
    by_cases hk₁ : k₁ = k
    · by_cases hk₂ : k₂ = k
      · exact hk₁.trans hk₂.symm
      · subst hk₁
        rw [Function.update_self] at h₁
        rw [Function.update_of_ne hk₂] at h₂
        exact absurd h₁ (hframe k₂ hk₂ hm.symm i h₂).2
    · by_cases hk₂ : k₂ = k
      · subst hk₂
        rw [Function.update_of_ne hk₁] at h₁
        rw [Function.update_self] at h₂
        exact absurd h₂ (hframe k₁ hk₁ hm i h₁).2
      · rw [Function.update_of_ne hk₁] at h₁
        rw [Function.update_of_ne hk₂] at h₂
        exact h.disjoint k₁ k₂ i hm h₁ h₂
  free m i hi := by
    by_cases hm : m = member k
    · subst hm
      simp only [LinkedLists.set, Function.update_self]
      refine hfree i ?_ fun k' hk' hm' => ?_
      · have hnot := hi k rfl
        rwa [Function.update_self] at hnot
      · have hnot := hi k' hm'
        rwa [Function.update_of_ne hk'] at hnot
    · simp only [LinkedLists.set, Function.update_of_ne hm]
      refine h.free m i fun k' hk' => ?_
      have hne : k' ≠ k := fun heq => hm (heq ▸ hk'.symm)
      have hnot := hi k' hk'
      rwa [Function.update_of_ne hne] at hnot

omit [Fintype ι] in
theorem Represents.pushBack (h : Represents member s l) (hn : ∀ k', member k' = member k → n ∉ l k') :
    Represents member (s.pushBack member k n) (Function.update l k (l k ++ [n])) := by
  have hnext := h.free (member k) n hn
  refine h.set (pushBack_holds (h.holds k) (hn k rfl) hnext) (fun k' hk' hm i hi => ⟨?_, ?_⟩) fun i hi hothers => ?_
  · have hik : i ∉ l k := fun hik => hk' (h.disjoint k' k i hm hi hik)
    exact (pushBack_next (h.holds k) hik).symm
  · rw [List.mem_append, List.mem_singleton]
    rintro (hik | rfl)
    · exact hk' (h.disjoint k' k i hm hi hik)
    · exact hn k' hm hi
  · rw [List.mem_append, not_or] at hi
    rw [pushBack_next (h.holds k) hi.1]
    refine h.free (member k) i fun k' hm => ?_
    by_cases hk' : k' = k
    · exact hk' ▸ hi.1
    · exact hothers k' hk' hm

/-- `remove` ends, returns whether the object was in the list, and leaves its link null. -/
theorem Represents.remove (h : Represents member s l) (k : κ) (n : ι) :
    ∃ s', s.remove member k n = some (decide (n ∈ l k), s') ∧
      Represents member s' (Function.update l k ((l k).erase n)) ∧ (n ∈ l k → s'.next (member k) n = none) := by
  by_cases hn : n ∈ l k
  · obtain ⟨next', list', hrun, hholds, hnext, hframe⟩ := remove_holds (h.holds k) hn
    refine ⟨s.set member k next' list', by rw [LinkedLists.remove, hrun, decide_eq_true hn]; rfl, ?_, fun _ => ?_⟩
    · refine h.set hholds (fun k' hk' hm i hi => ?_) fun i hi hothers => ?_
      · have hik : i ∉ l k := fun hik => hk' (h.disjoint k' k i hm hi hik)
        exact ⟨(hframe i hik).symm, fun hmem => hik (List.mem_of_mem_erase hmem)⟩
      · by_cases hin : i = n
        · exact hin ▸ hnext
        · have hik : i ∉ l k := fun hik => hi ((List.mem_erase_of_ne hin).2 hik)
          rw [hframe i hik]
          refine h.free (member k) i fun k' hm => ?_
          by_cases hk' : k' = k
          · exact hk' ▸ hik
          · exact hothers k' hk' hm
    · rw [LinkedLists.set]
      dsimp only
      rw [Function.update_self]
      exact hnext
  · refine ⟨s, ?_, ?_, fun hmem => absurd hmem hn⟩
    · rw [LinkedLists.remove, remove_of_notMem (h.holds k) hn, Option.map_some, decide_eq_false hn, LinkedLists.set,
        Function.update_eq_self, Function.update_eq_self]
    · rw [List.erase_of_not_mem hn, Function.update_eq_self]
      exact h

/-- What a call returns, and what it leaves. -/
theorem Represents.call (h : Represents member s l) {c : ListCall κ ι}
    (hc : ∀ k n, c = .pushBack k n → ∀ k', member k' = member k → n ∉ l k') :
    ∃ s', s.call member c = some (refResult l c, s') ∧ Represents member s' (refAfter l c) := by
  cases c with
  | pushBack k n => exact ⟨_, rfl, h.pushBack (hc k n rfl)⟩
  | remove k n =>
    obtain ⟨s', hrun, hs', -⟩ := h.remove k n
    exact ⟨s', by rw [LinkedLists.call, hrun]; rfl, hs'⟩

theorem Represents.run {calls : List (ListCall κ ι)} (h : Represents member s l) (hcalls : Permitted member l calls) :
    ∃ s', s.run member calls = some ((refRun l calls).1, s') ∧ Represents member s' (refRun l calls).2 := by
  induction calls generalizing s l with
  | nil => exact ⟨s, rfl, h⟩
  | cons c calls ih =>
    obtain ⟨s₁, hrun₁, h₁⟩ := h.call hcalls.1
    obtain ⟨s', hrun, hs'⟩ := ih h₁ hcalls.2
    exact ⟨s', by rw [LinkedLists.run, hrun₁, Option.bind_some, hrun]; rfl, hs'⟩

/-- A call writes no link of another member, and no other list. -/
theorem call_frame {c : ListCall κ ι} (hcall : s.call member c = some (b, s')) :
    (∀ m ≠ member c.list, s'.next m = s.next m) ∧ ∀ k ≠ c.list, s'.list k = s.list k := by
  have hset (k : κ) (next : ι → Option ι) (list : IntrusiveLinkedList ι) :
      (∀ m ≠ member k, (s.set member k next list).next m = s.next m) ∧
        ∀ k' ≠ k, (s.set member k next list).list k' = s.list k' :=
    ⟨fun m hm => Function.update_of_ne hm .., fun k' hk' => Function.update_of_ne hk' ..⟩
  cases c with
  | pushBack k n =>
    obtain ⟨-, rfl⟩ := Prod.mk.inj (Option.some.inj hcall)
    exact hset k _ _
  | remove k n =>
    obtain ⟨⟨found, s₁⟩, hrun, heq⟩ := Option.map_eq_some_iff.1 hcall
    obtain ⟨-, rfl⟩ := Prod.mk.inj heq
    obtain ⟨p, -, heq'⟩ := Option.map_eq_some_iff.1 hrun
    obtain ⟨-, rfl⟩ := Prod.mk.inj heq'
    exact hset k _ _

/-- What a list shows of its objects: the iterator comes to them, `count` counts them, the head and the tail are the
first and the last of them, and the link of the tail is null. -/
structure Shows (s : LinkedLists κ M ι) (member : κ → M) (k : κ) (l : List ι) : Prop where
  elements : ∀ rounds > l.length, ((s.list k).range (s.next (member k)) k).elements rounds = some l
  count : ∀ rounds > l.length, (s.list k).count (s.next (member k)) k rounds = some l.length
  head : (s.list k).head = l.head?
  tail : (s.list k).tail = l.getLast?
  next_tail : ∀ n, (s.list k).tail = some n → s.next (member k) n = none

omit [DecidableEq M] [Fintype ι] in
theorem Represents.shows (h : Represents member s l) (k : κ) : Shows s member k (l k) where
  elements _ hrounds := (h.holds k).elements hrounds
  count _ hrounds := (h.holds k).count hrounds
  head := (h.holds k).head_eq
  tail := (h.holds k).tail
  next_tail _ hn := (h.holds k).next_tail hn

/-- **After every run of `push_back` of objects that are not linked through the member and of `remove`** each list
shows the objects of its reference, and `remove` has returned whether the object was there. Another `remove` leaves
the link of its object null, and no call writes a list or the links of a list that is threaded through another
member. -/
theorem lists_of_run (calls : List (ListCall κ ι)) (hcalls : Permitted member (fun _ => []) calls) :
    ∃ s : LinkedLists κ M ι, initial.run member calls = some ((refRun (fun _ => []) calls).1, s) ∧
      (∀ k, Shows s member k ((refRun (fun _ => []) calls).2 k)) ∧
      (∀ k n, (∀ k', member k' = member k → n ∉ (refRun (fun _ => []) calls).2 k') → s.next (member k) n = none) ∧
      (∀ k n, ∃ s', s.remove member k n = some (decide (n ∈ (refRun (fun _ => []) calls).2 k), s') ∧
        (n ∈ (refRun (fun _ => []) calls).2 k → s'.next (member k) n = none)) ∧
      ∀ c b s', s.call member c = some (b, s') →
        (∀ m ≠ member c.list, s'.next m = s.next m) ∧ ∀ k ≠ c.list, s'.list k = s.list k := by
  obtain ⟨s, hrun, h⟩ := represents_initial.run hcalls
  refine ⟨s, hrun, h.shows, fun k n => h.free (member k) n, fun k n => ?_, fun c b s' => call_frame⟩
  obtain ⟨s', hremove, -, hnext⟩ := h.remove k n
  exact ⟨s', hremove, hnext⟩

/-- Two lists, through two members, with an object that is in both, is removed from one and pushed again. -/
def twoMembers : List (ListCall Bool (Fin 3)) :=
  [.pushBack false 0, .pushBack false 1, .pushBack true 0, .remove false 0, .remove false 2, .pushBack false 0]

theorem lists_of_twoMembers :
    ∃ s : LinkedLists Bool Bool (Fin 3),
      initial.run id twoMembers = some ([none, none, none, some true, some false, none], s) ∧
        ((s.list false).range (s.next false) false).elements 3 = some [1, 0] ∧
          ((s.list true).range (s.next true) true).elements 3 = some [0] := by
  have hpermitted : Permitted id (fun _ => []) twoMembers := by
    refine ⟨?_, ?_, ?_, ?_, ?_, ?_, trivial⟩
    all_goals rintro k n ⟨⟩
    all_goals decide
  obtain ⟨s, hrun, hshows, -⟩ := lists_of_run twoMembers hpermitted
  exact ⟨s, hrun, (hshows false).elements 3 (by decide), (hshows true).elements 3 (by decide)⟩

end LinkedLists

end ThingSet
