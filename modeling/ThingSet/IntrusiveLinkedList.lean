import ThingSet.Foundations.Chain

/-!
# The intrusive linked list

The links of an `IntrusiveLinkedList` are members of the objects in it: an object has one link for
each kind of list and can be in one list of that kind at a time. The model keeps the links of one
kind as a function from objects to objects; a list is its head and its tail.

* `pushBack_holds`: an object that no link leaves from and that is not in the list is appended.
* `remove_holds`, `remove_of_notMem`: `remove` ends on every acyclic list, and unlinks the object
  if it is there.
-/

namespace ThingSet

open Chain

/-- `IntrusiveLinkedList`. -/
structure IntrusiveLinkedList (ι : Type) where
  head : Option ι := none
  tail : Option ι := none
  deriving DecidableEq, Repr

namespace IntrusiveLinkedList

variable {ι : Type}

/-- The list is acyclic and holds the objects of `l`, in order. -/
structure Holds (next : ι → Option ι) (list : IntrusiveLinkedList ι) (l : List ι) : Prop where
  path : Path next list.head l
  tail : list.tail = l.getLast?

variable {next next' : ι → Option ι} {list : IntrusiveLinkedList ι} {l l₁ l₂ : List ι} {n : ι}

theorem Holds.nodup (h : Holds next list l) : l.Nodup := h.path.nodup

theorem Holds.congr (h : Holds next list l) (heq : ∀ i ∈ l, next i = next' i) :
    Holds next' list l :=
  ⟨h.path.congr heq, h.tail⟩

theorem Holds.unique (h₁ : Holds next list l₁) (h₂ : Holds next list l₂) : l₁ = l₂ :=
  h₁.path.unique h₂.path

theorem holds_nil (next : ι → Option ι) : Holds next {} [] := ⟨rfl, rfl⟩

/-- The tail of a list around an object of it: that object, or the last of the objects behind. -/
theorem Holds.tail_append_cons (h : Holds next list (l₁ ++ n :: l₂)) :
    l₂ = [] ∧ next n = none ∧ list.tail = some n ∨
      ∃ m, l₂.getLast? = some m ∧ m ≠ n ∧ list.tail = some m := by
  obtain ⟨hpath, htail⟩ := h
  have hnodup := hpath.nodup
  rw [List.getLast?_append, List.getLast?_cons] at htail
  rcases hm : l₂.getLast? with _ | m
  · obtain rfl := List.getLast?_eq_none_iff.1 hm
    exact .inl ⟨rfl, (Segment.next_of_append_cons hpath).2, by simpa using htail⟩
  · have hmem : m ∈ l₂ := List.mem_of_getLast? hm
    simp only [List.nodup_append, List.nodup_cons] at hnodup
    have hmn : m ≠ n := fun heq => hnodup.2.1.1 (heq ▸ hmem)
    exact .inr ⟨m, rfl, hmn, by simpa [hm] using htail⟩

/-! ## Operations -/

variable [DecidableEq ι]

/-- `IntrusiveLinkedList::push_back`: nothing happens to an object whose link is set. -/
def pushBack (next : ι → Option ι) (list : IntrusiveLinkedList ι) (node : ι) :
    (ι → Option ι) × IntrusiveLinkedList ι :=
  if (next node).isSome then (next, list)
  else
    match list.tail with
    | none => (next, ⟨some node, some node⟩)
    | some tail => (Function.update next tail (some node), ⟨list.head, some node⟩)

/-- The branch of `remove` that has found `node`, with `prev` before it. -/
def unlink (next : ι → Option ι) (list : IntrusiveLinkedList ι) (prev : Option ι) (node : ι) :
    (ι → Option ι) × IntrusiveLinkedList ι :=
  match prev with
  | none =>
    (Function.update next node none,
      ⟨next node, if list.tail = some node then next node else list.tail⟩)
  | some prev =>
    (Function.update (Function.update next prev (next node)) node none,
      ⟨list.head, if list.tail = some node then some prev else list.tail⟩)

/-- The loop of `remove`, from `test` on. -/
def removeFrom (next : ι → Option ι) (list : IntrusiveLinkedList ι) (node : ι) :
    ℕ → Option ι → Option ι → Option (Bool × (ι → Option ι) × IntrusiveLinkedList ι)
  | 0, _, _ => none
  | _ + 1, _, none => some (false, next, list)
  | fuel + 1, prev, some test =>
    if test = node then some (true, unlink next list prev node)
    else removeFrom next list node fuel (some test) (next test)

/-- `IntrusiveLinkedList::remove`; nothing when the loop does not end. -/
def remove [Fintype ι] (next : ι → Option ι) (list : IntrusiveLinkedList ι) (node : ι) :
    Option (Bool × (ι → Option ι) × IntrusiveLinkedList ι) :=
  removeFrom next list node (Fintype.card ι + 1) none list.head

/-! ## Append -/

/-- An object that no link leaves from and that is not in the list is appended. -/
theorem pushBack_holds (h : Holds next list l) (hn : n ∉ l) (hnext : next n = none) :
    Holds (pushBack next list n).1 (pushBack next list n).2 (l ++ [n]) := by
  obtain ⟨hpath, htail⟩ := h
  rcases List.eq_nil_or_concat l with rfl | ⟨l, t, rfl⟩
  · have htail : list.tail = none := by simpa using htail
    simp only [pushBack, hnext, htail, Option.isSome_none, Bool.false_eq_true, if_false]
    exact ⟨⟨rfl, hnext⟩, rfl⟩
  · rw [List.concat_eq_append] at *
    have htail : list.tail = some t := by simpa using htail
    simp only [pushBack, hnext, htail, Option.isSome_none, Bool.false_eq_true, if_false]
    exact ⟨path_snoc hpath hn hnext, by simp⟩

/-- Appending writes no link but that of an object in the list. -/
theorem pushBack_next (h : Holds next list l) {i : ι} (hi : i ∉ l) :
    (pushBack next list n).1 i = next i := by
  rw [pushBack]
  split
  · rfl
  · split
    · rfl
    · rename_i t ht
      have htl : t ∈ l := List.mem_of_getLast? (h.tail.symm.trans ht)
      have hit : i ≠ t := fun heq => hi (heq ▸ htl)
      exact Function.update_of_ne hit ..

/-! ## Remove -/

theorem unlink_holds (h : Holds next list (l₁ ++ n :: l₂)) :
    Holds (unlink next list l₁.getLast? n).1 (unlink next list l₁.getLast? n).2 (l₁ ++ l₂) := by
  have htail := h.tail_append_cons
  rcases List.eq_nil_or_concat l₁ with rfl | ⟨l₁, t, rfl⟩
  · refine ⟨@path_unlink_head _ _ list.head _ _ _ h.path, ?_⟩
    rcases htail with ⟨rfl, hnext, ht⟩ | ⟨m, hm, hmn, ht⟩
    · simp [unlink, ht, hnext]
    · simp [unlink, ht, hm, hmn]
  · simp only [List.concat_eq_append, List.append_assoc, List.singleton_append] at *
    have hprev : (l₁ ++ [t]).getLast? = some t := by simp
    refine ⟨by simpa [unlink, hprev] using path_unlink h.path, ?_⟩
    rcases htail with ⟨rfl, -, ht⟩ | ⟨m, hm, hmn, ht⟩
    · simp [unlink, ht]
    · simp [unlink, hprev, ht, hm, hmn, List.getLast?_append, List.getLast?_cons]

theorem unlink_next {i : ι} (hi : i ∉ l₁ ++ n :: l₂) :
    (unlink next list l₁.getLast? n).1 i = next i := by
  simp only [List.mem_append, List.mem_cons, not_or] at hi
  rcases ht : l₁.getLast? with _ | t
  · exact Function.update_of_ne hi.2.1 ..
  · have hit : i ≠ t := fun heq => hi.1 (heq ▸ List.mem_of_getLast? ht)
    simp only [unlink, Function.update_of_ne hi.2.1, Function.update_of_ne hit]

theorem removeFrom_of_mem {fuel : ℕ} {test : Option ι} (l₁ l' : List ι)
    (htest : Segment next test l' (some n)) (hn : n ∉ l') (hfuel : l'.length < fuel) :
    removeFrom next list n fuel l₁.getLast? test =
      some (true, unlink next list (l₁ ++ l').getLast? n) := by
  induction l' generalizing fuel l₁ test with
  | nil =>
    obtain ⟨fuel, rfl⟩ : ∃ k, fuel = k + 1 := ⟨fuel - 1, by simp at hfuel; omega⟩
    rw [segment_nil.1 htest, removeFrom, if_pos rfl, List.append_nil]
  | cons i l' ih =>
    obtain ⟨fuel, rfl⟩ : ∃ k, fuel = k + 1 := ⟨fuel - 1, by simp at hfuel; omega⟩
    obtain ⟨rfl, htest⟩ := htest
    have hin : i ≠ n := fun heq => hn (by simp [heq])
    have hprev : (l₁ ++ [i]).getLast? = some i := by simp
    rw [removeFrom, if_neg hin, ← hprev,
      ih (l₁ ++ [i]) htest (fun hmem => hn (by simp [hmem])) (by simpa using hfuel), List.append_assoc]
    rfl

theorem removeFrom_of_notMem {fuel : ℕ} {prev test : Option ι} (h : Path next test l)
    (hn : n ∉ l) (hfuel : l.length < fuel) :
    removeFrom next list n fuel prev test = some (false, next, list) := by
  induction l generalizing fuel prev test with
  | nil =>
    obtain ⟨fuel, rfl⟩ : ∃ k, fuel = k + 1 := ⟨fuel - 1, by simp at hfuel; omega⟩
    rw [path_nil.1 h, removeFrom]
  | cons i l ih =>
    obtain ⟨fuel, rfl⟩ : ∃ k, fuel = k + 1 := ⟨fuel - 1, by simp at hfuel; omega⟩
    obtain ⟨rfl, h⟩ := h
    have hin : i ≠ n := fun heq => hn (by simp [heq])
    rw [removeFrom, if_neg hin, ih h (fun hmem => hn (by simp [hmem])) (by simpa using hfuel)]

variable [Fintype ι]

/-- An object in the list is unlinked, and no link outside of the list is written. -/
theorem remove_holds (h : Holds next list l) (hn : n ∈ l) :
    ∃ next' list', remove next list n = some (true, next', list') ∧
      Holds next' list' (l.erase n) ∧ next' n = none ∧ ∀ i ∉ l, next' i = next i := by
  obtain ⟨l₁, l₂, hl₁, rfl, herase⟩ := List.exists_erase_eq hn
  have hlen := h.path.length_lt
  simp only [List.length_append, List.length_cons] at hlen
  obtain ⟨r, hseg, hrest⟩ := path_append.1 h.path
  obtain rfl := hrest.1
  have hrun : remove next list n = some (true, unlink next list l₁.getLast? n) :=
    removeFrom_of_mem [] l₁ hseg hl₁ (by omega)
  refine ⟨_, _, hrun, ?_, ?_, fun i hi => unlink_next hi⟩
  · rw [herase]
    exact unlink_holds h
  · rcases l₁.getLast? with _ | t <;> exact Function.update_self ..

theorem remove_of_notMem (h : Holds next list l) (hn : n ∉ l) :
    remove next list n = some (false, next, list) :=
  removeFrom_of_notMem h.path hn h.path.length_lt

end IntrusiveLinkedList

end ThingSet
