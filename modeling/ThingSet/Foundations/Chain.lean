import Mathlib.Data.Fintype.Card
import Mathlib.Data.Fintype.EquivFin
import Mathlib.Data.List.Nodup

/-!
# Chains of links

A heap of singly linked cells is a function `next` from each cell to the cell its link points to.
`Segment next p l q` says that the links lead from `p` through the cells of `l` to `q`, and
`Path next p l` that they end after the cells of `l`: the chain at `p` is acyclic and holds `l`.

* `Path.nodup`: no cell is on a path twice.
* `path_snoc`, `path_unlink`: what a write to one link does to a path.
* `traverse`, `search` are loops along a chain; with a round for every cell there is they end
  exactly when the chain does (`traverse_eq_some_iff`).
-/

namespace Chain

variable {ι : Type}

/-- The links lead from `p` through the cells of `l`, in order, to `q`. -/
def Segment (next : ι → Option ι) : Option ι → List ι → Option ι → Prop
  | p, [], q => p = q
  | p, i :: l, q => p = some i ∧ Segment next (next i) l q

/-- The links lead from `p` through the cells of `l`, in order, and end. -/
def Path (next : ι → Option ι) (p : Option ι) (l : List ι) : Prop := Segment next p l none

variable {next next' : ι → Option ι} {p q : Option ι} {l l₁ l₂ : List ι} {i n t : ι}

@[simp] theorem segment_nil : Segment next p [] q ↔ p = q := Iff.rfl

@[simp] theorem segment_cons :
    Segment next p (i :: l) q ↔ p = some i ∧ Segment next (next i) l q := Iff.rfl

@[simp] theorem path_nil : Path next p [] ↔ p = none := Iff.rfl

@[simp] theorem path_cons : Path next p (i :: l) ↔ p = some i ∧ Path next (next i) l := Iff.rfl

theorem segment_append :
    Segment next p (l₁ ++ l₂) q ↔ ∃ r, Segment next p l₁ r ∧ Segment next r l₂ q := by
  induction l₁ generalizing p with
  | nil => simp
  | cons i l₁ ih => simp [ih, and_assoc]

theorem path_append :
    Path next p (l₁ ++ l₂) ↔ ∃ r, Segment next p l₁ r ∧ Path next r l₂ := segment_append

/-- A segment only depends on the links of its cells. -/
theorem Segment.congr (h : Segment next p l q) (heq : ∀ i ∈ l, next i = next' i) :
    Segment next' p l q := by
  induction l generalizing p with
  | nil => exact h
  | cons i l ih =>
    refine ⟨h.1, ?_⟩
    rw [← heq i (by simp)]
    exact ih h.2 (fun j hj => heq j (by simp [hj]))

theorem Path.congr (h : Path next p l) (heq : ∀ i ∈ l, next i = next' i) : Path next' p l :=
  Segment.congr h heq

/-- A chain holds one list of cells. -/
theorem Path.unique (h₁ : Path next p l₁) (h₂ : Path next p l₂) : l₁ = l₂ := by
  induction l₁ generalizing p l₂ with
  | nil =>
    cases l₂ with
    | nil => rfl
    | cons j l₂ => simp_all
  | cons i l₁ ih =>
    cases l₂ with
    | nil => simp_all
    | cons j l₂ =>
      obtain ⟨rfl, h₁⟩ := h₁
      obtain ⟨hij, h₂⟩ := h₂
      obtain rfl := Option.some.inj hij
      rw [ih h₁ h₂]

/-- No cell is on a path twice. -/
theorem Path.nodup (h : Path next p l) : l.Nodup := by
  induction l generalizing p with
  | nil => exact .nil
  | cons i l ih =>
    refine List.nodup_cons.2 ⟨fun hi => ?_, ih h.2⟩
    -- the path from the second `i` on would be the path from the first
    obtain ⟨a, b, rfl⟩ := List.append_of_mem hi
    obtain ⟨r, -, hr⟩ := path_append.1 h.2
    obtain ⟨rfl, hb⟩ := hr
    have hlen := congrArg List.length (Path.unique hb h.2)
    simp only [List.length_append, List.length_cons] at hlen
    omega

theorem Segment.next_of_append_cons (h : Segment next p (l₁ ++ i :: l₂) q) :
    Segment next p l₁ (some i) ∧ Segment next (next i) l₂ q := by
  obtain ⟨r, h₁, rfl, h₂⟩ := segment_append.1 h
  exact ⟨h₁, h₂⟩

theorem Path.next_getLast? (h : Path next p (l ++ [t])) : next t = none :=
  (Segment.next_of_append_cons h).2

section Update

variable [DecidableEq ι]

theorem Segment.update_of_notMem (h : Segment next p l q) (hi : i ∉ l) (v : Option ι) :
    Segment (Function.update next i v) p l q := by
  refine h.congr fun j hj => ?_
  have hji : j ≠ i := fun heq => hi (heq ▸ hj)
  rw [Function.update_of_ne hji]

theorem Path.update_of_notMem (h : Path next p l) (hi : i ∉ l) (v : Option ι) :
    Path (Function.update next i v) p l :=
  Segment.update_of_notMem h hi v

/-- The last cell of a path is linked to a new one. -/
theorem path_snoc (h : Path next p (l ++ [t])) (hn : n ∉ l ++ [t]) (hnext : next n = none) :
    Path (Function.update next t (some n)) p (l ++ [t] ++ [n]) := by
  have ht : t ∉ l := by
    have := h.nodup
    simp only [List.nodup_append, List.mem_singleton] at this
    exact fun hmem => this.2.2 t hmem t rfl rfl
  have hnt : n ≠ t := fun heq => hn (by simp [heq])
  rw [List.append_assoc]
  refine path_append.2 ⟨some t, (Segment.next_of_append_cons h).1.update_of_notMem ht _, ?_⟩
  simp [Function.update_of_ne hnt, hnext]

/-- The first cell of a path is unlinked. -/
theorem path_unlink_head (h : Path next p (n :: l)) :
    Path (Function.update next n none) (next n) l :=
  h.2.update_of_notMem (List.nodup_cons.1 h.nodup).1 none

/-- A cell is unlinked from the one before it. -/
theorem path_unlink (h : Path next p (l₁ ++ t :: n :: l₂)) :
    Path (Function.update (Function.update next t (next n)) n none) p (l₁ ++ t :: l₂) := by
  have hnodup := h.nodup
  simp only [List.nodup_append, List.nodup_cons, List.mem_cons, not_or] at hnodup
  obtain ⟨-, ⟨⟨htn, htl₂⟩, hnl₂, -⟩, hdisj⟩ := hnodup
  have ht : t ∉ l₁ := fun hmem => hdisj t hmem t (.inl rfl) rfl
  have hn : n ∉ l₁ := fun hmem => hdisj n hmem n (.inr (.inl rfl)) rfl
  obtain ⟨h₁, h₂⟩ := Segment.next_of_append_cons h
  refine path_append.2 ⟨some t, (h₁.update_of_notMem ht _).update_of_notMem hn _, rfl, ?_⟩
  rw [Function.update_of_ne htn, Function.update_self]
  exact Path.update_of_notMem (Path.update_of_notMem h₂.2 htl₂ _) hnl₂ none

end Update

/-! ## Loops -/

/-- The cells of the chain at `p`, or nothing when it has `fuel` cells or more. -/
def traverse (next : ι → Option ι) : ℕ → Option ι → Option (List ι)
  | 0, _ => none
  | _ + 1, none => some []
  | fuel + 1, some i => (traverse next fuel (next i)).map (i :: ·)

/-- The first cell of the chain at `p` that `f` accepts, or nothing when none of the first `fuel`
is accepted and the chain goes on. -/
def search (next : ι → Option ι) (f : ι → Bool) : ℕ → Option ι → Option (Option ι)
  | 0, _ => none
  | _ + 1, none => some none
  | fuel + 1, some i => if f i then some (some i) else search next f fuel (next i)

theorem traverse_of_path {fuel : ℕ} (h : Path next p l) (hfuel : l.length < fuel) :
    traverse next fuel p = some l := by
  induction l generalizing p fuel with
  | nil =>
    obtain ⟨fuel, rfl⟩ : ∃ k, fuel = k + 1 := ⟨fuel - 1, by simp at hfuel; omega⟩
    rw [path_nil.1 h, traverse]
  | cons i l ih =>
    obtain ⟨fuel, rfl⟩ : ∃ k, fuel = k + 1 := ⟨fuel - 1, by simp at hfuel; omega⟩
    obtain ⟨rfl, h⟩ := h
    rw [traverse, ih h (by simpa using hfuel), Option.map_some]

theorem path_of_traverse {fuel : ℕ} (h : traverse next fuel p = some l) : Path next p l := by
  induction fuel generalizing p l with
  | zero => simp [traverse] at h
  | succ fuel ih =>
    cases p with
    | none =>
      obtain rfl : [] = l := by simpa [traverse] using h
      rfl
    | some i =>
      obtain ⟨l, hl, rfl⟩ : ∃ l', traverse next fuel (next i) = some l' ∧ i :: l' = l := by
        simpa [traverse] using h
      exact ⟨rfl, ih hl⟩

theorem search_of_path (f : ι → Bool) {fuel : ℕ} (h : Path next p l) (hfuel : l.length < fuel) :
    search next f fuel p = some (l.find? f) := by
  induction l generalizing p fuel with
  | nil =>
    obtain ⟨fuel, rfl⟩ : ∃ k, fuel = k + 1 := ⟨fuel - 1, by simp at hfuel; omega⟩
    rw [path_nil.1 h, search, List.find?_nil]
  | cons i l ih =>
    obtain ⟨fuel, rfl⟩ : ∃ k, fuel = k + 1 := ⟨fuel - 1, by simp at hfuel; omega⟩
    obtain ⟨rfl, h⟩ := h
    rw [search, List.find?_cons, ih h (by simpa using hfuel)]
    cases f i <;> rfl

section Finite

variable [Fintype ι]

/-- A path has at most as many cells as there are. -/
theorem Path.length_lt (h : Path next p l) : l.length < Fintype.card ι + 1 :=
  Nat.lt_succ_of_le h.nodup.length_le_card

/-- With a round for every cell there is, a traversal ends exactly when the chain does. -/
theorem traverse_eq_some_iff : traverse next (Fintype.card ι + 1) p = some l ↔ Path next p l :=
  ⟨path_of_traverse, fun h => traverse_of_path h h.length_lt⟩

end Finite

end Chain
