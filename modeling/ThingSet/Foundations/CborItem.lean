import Mathlib.Data.Finset.Lattice.Fold
import Mathlib.Data.Fintype.Basic
import Mathlib.Data.List.FinRange
import ThingSet.Foundations.Cbor

/-!
# CBOR data items

An item of definite length: a number, a simple value or a string, or a list or a map of items. A head may be longer
than necessary.

* `IsHead`: the bytes of a head, whatever follows.
* `readHead_of_prefix`: a head that is cut off is not read.
* `Item.WellFormed`: the bytes of an item are what their heads say, and no head or primitive item is longer than
  `max` bytes.
* `Item.IsWhole`: the same for any length.
-/

namespace Cbor

/-! ## Heads -/

/-- A head is read in the same way whatever follows. -/
theorem readHead_append {l rest : List UInt8} {h : Head} (hl : readHead l = some (h, rest)) (tail : List UInt8) :
    readHead (l ++ tail) = some (h, rest ++ tail) := by
  cases l with
  | nil => exact absurd hl (by simp [readHead])
  | cons b l =>
    have hargument : ∀ major k, readArgument major k l = some (h, rest) →
        readArgument major k (l ++ tail) = some (h, rest ++ tail) := by
      intro major k hk
      unfold readArgument at hk ⊢
      split at hk
      · cases hk
      · rename_i hlen
        have hlen : k ≤ l.length := Nat.not_lt.1 hlen
        obtain ⟨rfl, rfl⟩ := Prod.mk.inj (Option.some.inj hk)
        rw [if_neg (by rw [List.length_append]; omega), List.take_append_of_le_length hlen,
          List.drop_append_of_le_length hlen]
    unfold readHead at hl ⊢
    dsimp only [List.cons_append] at hl ⊢
    split_ifs at hl ⊢
    · obtain ⟨rfl, rfl⟩ := Prod.mk.inj (Option.some.inj hl)
      rfl
    · exact hargument _ _ hl
    · exact hargument _ _ hl
    · exact hargument _ _ hl
    · exact hargument _ _ hl
    · obtain ⟨rfl, rfl⟩ := Prod.mk.inj (Option.some.inj hl)
      rfl

/-- These bytes are a head with an argument. -/
def IsHead (head : List UInt8) (major n : ℕ) : Prop :=
  ∀ rest, readHead (head ++ rest) = some (⟨major, some n⟩, rest)

section Head

variable {head : List UInt8} {major n : ℕ}

theorem isHead_writeHead (hm : major < 8) (hn : n < 2 ^ 64) : IsHead (writeHead major n) major n :=
  fun rest => readHead_writeHead hm hn rest

theorem IsHead.length_pos (h : IsHead head major n) : 0 < head.length := by
  cases head with
  | nil => exact absurd (h []) (by simp [readHead])
  | cons b head => exact Nat.succ_pos _

/-- A head that is cut off is not read. -/
theorem readHead_of_prefix (h : IsHead head major n) {l : List UInt8} (hl : l <+: head) (hne : l ≠ head) :
    readHead l = none := by
  obtain ⟨tail, rfl⟩ := hl
  cases hread : readHead l with
  | none => rfl
  | some r =>
    have hboth := (readHead_append hread tail).symm.trans (by simpa using h [])
    have htail := (List.append_eq_nil_iff.1 (Prod.mk.inj (Option.some.inj hboth)).2).2
    rw [htail, List.append_nil] at hne
    exact absurd rfl hne

/-- The first byte of a head has the major type. -/
theorem readHead_major {b : UInt8} {l rest : List UInt8} {h : Head} (hl : readHead (b :: l) = some (h, rest)) :
    h.major = b.toNat / 32 := by
  have hargument : ∀ k, readArgument (b.toNat / 32) k l = some (h, rest) → h.major = b.toNat / 32 := by
    intro k hk
    unfold readArgument at hk
    split at hk
    · cases hk
    · exact (congrArg (Head.major ∘ Prod.fst) (Option.some.inj hk)).symm
  unfold readHead at hl
  dsimp only at hl
  split_ifs at hl
  · exact (congrArg (Head.major ∘ Prod.fst) (Option.some.inj hl)).symm
  · exact hargument _ hl
  · exact hargument _ hl
  · exact hargument _ hl
  · exact hargument _ hl
  · exact (congrArg (Head.major ∘ Prod.fst) (Option.some.inj hl)).symm

theorem IsHead.major_eq (h : IsHead head major n) (rest : List UInt8) :
    ((head ++ rest).getD 0 0).toNat / 32 = major := by
  cases head with
  | nil => exact absurd (h []) (by simp [readHead])
  | cons b head => exact (readHead_major (h rest)).symm

/-- What is behind a head has no part in it. -/
theorem readHead_head {h : Head} {rest : List UInt8} (hl : readHead (head ++ rest) = some (h, rest)) (tail : List UInt8) :
    readHead (head ++ tail) = some (h, tail) := by
  cases head with
  | nil => exact absurd (length_lt_of_readHead hl) (Nat.lt_irrefl _)
  | cons b head =>
    have hplain : head ++ rest = rest → head = [] := fun heq => List.append_left_eq_self.1 heq
    have hargument : ∀ major k, readArgument major k (head ++ rest) = some (h, rest) →
        readArgument major k (head ++ tail) = some (h, tail) := by
      intro major k hk
      unfold readArgument at hk ⊢
      split at hk
      · cases hk
      · rename_i hlen
        obtain ⟨rfl, hdrop⟩ := Prod.mk.inj (Option.some.inj hk)
        have hlength := congrArg List.length hdrop
        rw [List.length_drop, List.length_append] at hlength
        rw [List.length_append] at hlen
        obtain rfl : k = head.length := by omega
        rw [if_neg (by rw [List.length_append]; omega), List.take_left, List.take_left, List.drop_left]
    unfold readHead at hl ⊢
    dsimp only [List.cons_append] at hl ⊢
    split_ifs at hl ⊢
    · obtain ⟨rfl, heq⟩ := Prod.mk.inj (Option.some.inj hl)
      rw [hplain heq, List.nil_append]
    · exact hargument _ _ hl
    · exact hargument _ _ hl
    · exact hargument _ _ hl
    · exact hargument _ _ hl
    · obtain ⟨rfl, heq⟩ := Prod.mk.inj (Option.some.inj hl)
      rw [hplain heq, List.nil_append]

end Head

/-! ## Items -/

/-- A data item. -/
inductive Item
  | primitive (bytes : List UInt8)
  | list (head : List UInt8) (size : ℕ) (element : Fin size → Item)
  | map (head : List UInt8) (size : ℕ) (key value : Fin size → Item)

instance : Inhabited Item := ⟨.primitive []⟩

/-- The bytes of a number, a simple value or a string. -/
def IsPrimitive (bytes : List UInt8) : Prop :=
  ∃ head content major n, bytes = head ++ content ∧ IsHead head major n ∧
    ((major = 0 ∨ major = 1 ∨ major = 7) ∧ content = [] ∨ (major = 2 ∨ major = 3) ∧ content.length = n)

namespace Item

/-- The bytes of an item. -/
def bytes : Item → List UInt8
  | primitive bs => bs
  | list head size element => head ++ (List.finRange size).flatMap fun i => (element i).bytes
  | map head size key value =>
    head ++ (List.finRange size).flatMap fun i => (key i).bytes ++ (value i).bytes

/-- The heads say what follows, and no head or primitive item is longer than `max`. -/
def WellFormed (max : ℕ) : Item → Prop
  | primitive bs => bs.length ≤ max ∧ IsPrimitive bs
  | list head size element => head.length ≤ max ∧ IsHead head 4 size ∧ ∀ i, (element i).WellFormed max
  | map head size key value =>
    head.length ≤ max ∧ IsHead head 5 size ∧ (∀ i, (key i).WellFormed max) ∧ ∀ i, (value i).WellFormed max

/-- The keys and values of a map in a row. -/
def entries {size : ℕ} (key value : Fin size → Item) : List Item :=
  (List.finRange size).flatMap fun i => [key i, value i]

section

variable {size : ℕ} {key value : Fin size → Item}

theorem mem_entries {x : Item} : x ∈ entries key value ↔ ∃ i, x = key i ∨ x = value i := by
  simp [entries]

theorem length_entries : (entries key value).length = 2 * size := by
  simp [entries, Nat.mul_comm]

theorem bytes_list (head : List UInt8) (element : Fin size → Item) :
    (list head size element).bytes = head ++ ((List.finRange size).map element).flatMap bytes := by
  rw [bytes, List.flatMap_map]

theorem bytes_map (head : List UInt8) : (map head size key value).bytes = head ++ (entries key value).flatMap bytes := by
  rw [bytes, entries, List.flatMap_assoc]
  simp

end

theorem bytes_pos {x : Item} {max : ℕ} (h : x.WellFormed max) : 0 < x.bytes.length := by
  cases x with
  | primitive bs =>
    obtain ⟨-, head, content, major, n, hbytes, hhead, -⟩ := h
    have hpos := hhead.length_pos
    rw [bytes, hbytes, List.length_append]
    omega
  | list head size element =>
    have hpos := h.2.1.length_pos
    rw [bytes, List.length_append]
    omega
  | map head size key value =>
    have hpos := h.2.1.length_pos
    rw [bytes, List.length_append]
    omega

/-! ### Items of any length -/

theorem WellFormed.mono {x : Item} {m n : ℕ} (hx : x.WellFormed m) (hmn : m ≤ n) : x.WellFormed n := by
  induction x with
  | primitive bs => exact ⟨hx.1.trans hmn, hx.2⟩
  | list head size element ih =>
    obtain ⟨hlen, hhead, helement⟩ := hx
    exact ⟨hlen.trans hmn, hhead, fun i => ih i (helement i)⟩
  | map head size key value ihk ihv =>
    obtain ⟨hlen, hhead, hkey, hvalue⟩ := hx
    exact ⟨hlen.trans hmn, hhead, fun i => ihk i (hkey i), fun i => ihv i (hvalue i)⟩

/-- The heads say what follows. -/
def IsWhole (x : Item) : Prop := ∃ max, x.WellFormed max

/-- Some items have a bound on their heads and primitive items in common. -/
theorem exists_wellFormed {size : ℕ} {x : Fin size → Item} (h : ∀ i, (x i).IsWhole) :
    ∃ max, ∀ i, (x i).WellFormed max := by
  choose max hmax using h
  exact ⟨Finset.univ.sup max, fun i => (hmax i).mono (Finset.le_sup (Finset.mem_univ i))⟩

theorem isWhole_number {n : ℕ} (hn : n < 2 ^ 64) : (primitive (writeInt n)).IsWhole :=
  ⟨_, Nat.le_refl _, _, [], 0, n, (List.append_nil _).symm, isHead_writeHead (by decide) hn, .inl ⟨.inl rfl, rfl⟩⟩

theorem isWhole_list {size : ℕ} {element : Fin size → Item} (hsize : size < 2 ^ 64) (h : ∀ i, (element i).IsWhole) :
    (list (writeHead 4 size) size element).IsWhole := by
  obtain ⟨max, hmax⟩ := exists_wellFormed h
  exact ⟨max ⊔ (writeHead 4 size).length, le_sup_right, isHead_writeHead (by decide) hsize,
    fun i => (hmax i).mono le_sup_left⟩

theorem isWhole_map {size : ℕ} {key value : Fin size → Item} (hsize : size < 2 ^ 64) (hkey : ∀ i, (key i).IsWhole)
    (hvalue : ∀ i, (value i).IsWhole) : (map (writeHead 5 size) size key value).IsWhole := by
  obtain ⟨m, hm⟩ := exists_wellFormed hkey
  obtain ⟨n, hn⟩ := exists_wellFormed hvalue
  exact ⟨m ⊔ n ⊔ (writeHead 5 size).length, le_sup_right, isHead_writeHead (by decide) hsize,
    fun i => (hm i).mono (le_sup_left.trans le_sup_left), fun i => (hn i).mono (le_sup_right.trans le_sup_left)⟩

end Item

end Cbor
