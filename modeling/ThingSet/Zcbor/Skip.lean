import ThingSet.Foundations.CborItem
import ThingSet.Zcbor.Reference

/-!
# Skipping with zcbor

* `ZcborDecode.SkipLaws`: `zcbor_any_skip` skips an item that is there as a whole, and a list is entered at its
  header.
* `zcborReference_skipLaws`: the reference functions do.
-/

namespace ThingSet

/-- The payload is `n` bytes further. -/
structure ZcborState.Advances (s : ZcborState) (n : ℕ) (s' : ZcborState) : Prop where
  memory : s'.memory = s.memory
  payload : s'.payload = s.payload + n
  payloadEnd : s'.payloadEnd = s.payloadEnd
  depth : s'.depth = s.depth

/-- The byte at the payload. -/
theorem ZcborState.getD_payload {s : ZcborState} {byte : UInt8} {l : Bytes} (h : s.remaining = byte :: l) :
    s.memory.getD s.payload 0 = byte := by
  have hget := congrArg List.head? h
  rw [ZcborState.remaining, List.head?_drop, List.getElem?_take, List.head?_cons] at hget
  split at hget
  · rw [List.getD_eq_getElem?_getD, hget]
    rfl
  · cases hget

/-- What the functions make of items. -/
structure ZcborDecode.SkipLaws (Z : ZcborDecode) : Prop where
  anySkip : ∀ s (x : Cbor.Item) max rest, x.WellFormed max → s.elemCount ≠ 0 → s.remaining = x.bytes ++ rest →
    (Z.anySkip s).1 = true ∧ s.Advances x.bytes.length (Z.anySkip s).2 ∧
      (Z.anySkip s).2.elemCount + 1 = s.elemCount ∧ (Z.anySkip s).2.indefinite = s.indefinite ∧
        (Z.anySkip s).2.backups = s.backups
  /-- Of an item that is cut off nothing is skipped. -/
  anySkip_short : ∀ s (x : Cbor.Item) max, x.WellFormed max → s.remaining <+: x.bytes → s.remaining ≠ x.bytes →
    (Z.anySkip s).1 = false
  listStart : ∀ s head n rest, Cbor.IsHead head 4 n → s.elemCount ≠ 0 → s.backups.length + 2 < s.depth →
    s.remaining = head ++ rest →
      (Z.listStartDecode s).1 = true ∧ s.Advances head.length (Z.listStartDecode s).2 ∧
        (Z.listStartDecode s).2.elemCount = n ∧ (Z.listStartDecode s).2.indefinite = false ∧
          ∃ b, (Z.listStartDecode s).2.backups = b :: s.backups ∧ b.elemCount + 1 = s.elemCount
  listStart_other : ∀ s head major n rest, Cbor.IsHead head major n → major ≠ 4 → s.remaining = head ++ rest →
    (Z.listStartDecode s).1 = false
  listEnd : ∀ s b backups, s.backups = b :: backups → s.indefinite = false → s.elemCount = 0 →
    (Z.listEndDecode s).1 = true ∧ s.Advances 0 (Z.listEndDecode s).2 ∧
      (Z.listEndDecode s).2.elemCount = b.elemCount ∧ (Z.listEndDecode s).2.backups = backups

namespace ZcborReference

open Cbor

variable {max fuel items : ℕ} {head l rest p : List UInt8} {major n : ℕ}

/-- The length behind the head of an item. -/
def bodyLength (fuel major : ℕ) (argument : Option ℕ) (rest : List UInt8) : Option ℕ :=
  match major, argument with
  | 2, some n | 3, some n => if n ≤ rest.length then some n else none
  | 4, some n => itemsLength fuel n rest
  | 5, some n => itemsLength fuel (2 * n) rest
  | _, some _ => some 0
  | _, none => none

/-- The length of an item, and of those behind it. -/
theorem itemsLength_of_readHead {argument : Option ℕ} (h : readHead l = some (⟨major, argument⟩, rest)) :
    itemsLength (fuel + 1) (items + 1) l =
      (bodyLength fuel major argument rest).bind fun k =>
        (itemsLength fuel items (rest.drop k)).map (l.length - rest.length + k + ·) := by
  rw [itemsLength, h]
  dsimp only
  split
  · rename_i hbody
    rw [show bodyLength fuel major argument rest = none from hbody, Option.bind_none]
  · rename_i k hbody
    rw [show bodyLength fuel major argument rest = some k from hbody, Option.bind_some]
    cases itemsLength fuel items (rest.drop k) <;> rfl

theorem itemsLength_head (hhead : IsHead head major n) (rest : List UInt8) :
    itemsLength (fuel + 1) (items + 1) (head ++ rest) =
      (bodyLength fuel major (some n) rest).bind fun k =>
        (itemsLength fuel items (rest.drop k)).map (head.length + k + ·) := by
  rw [itemsLength_of_readHead (hhead rest), List.length_append, Nat.add_sub_cancel]

theorem itemsLength_of_readHead_eq_none (h : readHead l = none) : itemsLength (fuel + 1) (items + 1) l = none := by
  rw [itemsLength, h]

/-! ## Items that are there -/

/-- The lengths of items in a row, when each has its length. -/
theorem itemsLength_flatMap {xs : List Item}
    (hxs : ∀ x ∈ xs, x.WellFormed max ∧ ∀ (fuel items : ℕ) (l : List UInt8), (x.bytes ++ l).length ≤ fuel →
      itemsLength (fuel + 1) (items + 1) (x.bytes ++ l) = (itemsLength fuel items l).map (x.bytes.length + ·))
    (l : List UInt8) (hfuel : (xs.flatMap Item.bytes ++ l).length < fuel) :
    itemsLength fuel xs.length (xs.flatMap Item.bytes ++ l) = some (xs.flatMap Item.bytes).length := by
  induction xs generalizing fuel with
  | nil =>
    cases fuel with
    | zero => cases hfuel
    | succ fuel => rfl
  | cons x xs ih =>
    obtain ⟨hwf, hx⟩ := hxs x List.mem_cons_self
    have hpos := Item.bytes_pos hwf
    obtain ⟨fuel, rfl⟩ : ∃ m, fuel = m + 1 := ⟨fuel - 1, by omega⟩
    rw [List.flatMap_cons, List.append_assoc] at hfuel ⊢
    rw [List.length_cons, hx _ _ _ (by omega)]
    rw [List.length_append] at hfuel
    rw [ih (fun y hy => hxs y (List.mem_cons_of_mem x hy)) (by omega), Option.map_some, List.length_append]

/-- A list or a map of items that have their lengths. -/
theorem itemsLength_container {xs : List Item} (hhead : IsHead head major n)
    (hbody : bodyLength fuel major (some n) (xs.flatMap Item.bytes ++ l) =
      itemsLength fuel xs.length (xs.flatMap Item.bytes ++ l))
    (hxs : ∀ x ∈ xs, x.WellFormed max ∧ ∀ (fuel items : ℕ) (l : List UInt8), (x.bytes ++ l).length ≤ fuel →
      itemsLength (fuel + 1) (items + 1) (x.bytes ++ l) = (itemsLength fuel items l).map (x.bytes.length + ·))
    (hfuel : (head ++ (xs.flatMap Item.bytes ++ l)).length ≤ fuel) :
    itemsLength (fuel + 1) (items + 1) (head ++ (xs.flatMap Item.bytes ++ l)) =
      (itemsLength fuel items l).map ((head ++ xs.flatMap Item.bytes).length + ·) := by
  have hpos := hhead.length_pos
  rw [List.length_append] at hfuel
  rw [itemsLength_head hhead, hbody, itemsLength_flatMap hxs l (by omega), Option.bind_some, List.drop_left,
    List.length_append]

/-- **An item that is there has its length.** -/
theorem itemsLength_item {x : Item} (hx : x.WellFormed max) (fuel items : ℕ) (l : List UInt8)
    (hfuel : (x.bytes ++ l).length ≤ fuel) :
    itemsLength (fuel + 1) (items + 1) (x.bytes ++ l) = (itemsLength fuel items l).map (x.bytes.length + ·) := by
  induction x generalizing fuel items l with
  | primitive bs =>
    obtain ⟨-, head, content, major, n, rfl, hhead, hcontent⟩ := hx
    rw [Item.bytes, List.append_assoc, itemsLength_head hhead]
    have hbody : bodyLength fuel major (some n) (content ++ l) = some content.length := by
      rcases hcontent with ⟨rfl | rfl | rfl, rfl⟩ | ⟨rfl | rfl, rfl⟩
      · rfl
      · rfl
      · rfl
      all_goals exact if_pos (by rw [List.length_append]; omega)
    rw [hbody, Option.bind_some, List.drop_left, List.length_append]
  | list head size element ih =>
    obtain ⟨-, hhead, helement⟩ := hx
    rw [Item.bytes_list, List.append_assoc] at hfuel ⊢
    refine itemsLength_container hhead ?_ (fun x hx => (?_ : x.WellFormed max ∧ _)) hfuel
    · rw [List.length_map, List.length_finRange]
      rfl
    · obtain ⟨i, -, rfl⟩ := List.mem_map.1 hx
      exact ⟨helement i, ih i (helement i)⟩
  | map head size key value ihk ihv =>
    obtain ⟨-, hhead, hkey, hvalue⟩ := hx
    rw [Item.bytes_map, List.append_assoc] at hfuel ⊢
    refine itemsLength_container hhead ?_ (fun x hx => (?_ : x.WellFormed max ∧ _)) hfuel
    · rw [Item.length_entries]
      rfl
    · obtain ⟨i, rfl | rfl⟩ := Item.mem_entries.1 hx
      · exact ⟨hkey i, ihk i (hkey i)⟩
      · exact ⟨hvalue i, ihv i (hvalue i)⟩

/-! ## Items that are cut off -/

/-- What is in front of the end of `a ++ b` is cut off in `a` or in `b`. -/
theorem prefix_append_cases {a b : List UInt8} (hp : p <+: a ++ b) (hne : p ≠ a ++ b) :
    (p <+: a ∧ p ≠ a) ∨ ∃ q, p = a ++ q ∧ q <+: b ∧ q ≠ b := by
  rcases List.prefix_or_prefix_of_prefix hp (List.prefix_append a b) with h | ⟨q, rfl⟩
  · by_cases heq : p = a
    · subst heq
      refine .inr ⟨[], (List.append_nil p).symm, List.nil_prefix, ?_⟩
      rintro rfl
      exact hne (List.append_nil p).symm
    · exact .inl ⟨h, heq⟩
  · refine .inr ⟨q, rfl, (List.prefix_append_right_inj a).1 hp, ?_⟩
    rintro rfl
    exact hne rfl

theorem itemsLength_of_prefix_head (hhead : IsHead head major n) (hp : p <+: head) (hne : p ≠ head) :
    itemsLength (fuel + 1) (items + 1) p = none :=
  itemsLength_of_readHead_eq_none ( readHead_of_prefix hhead hp hne)

/-- Items in a row, one of which is cut off. -/
theorem itemsLength_of_prefix_flatMap {xs : List Item} (hwf : ∀ x ∈ xs, x.WellFormed max)
    (hxs : ∀ x ∈ xs, ∀ (fuel items : ℕ) (p : List UInt8), p <+: x.bytes → p ≠ x.bytes → p.length ≤ fuel →
      itemsLength (fuel + 1) (items + 1) p = none)
    (hp : p <+: xs.flatMap Item.bytes) (hne : p ≠ xs.flatMap Item.bytes) (hfuel : p.length < fuel) :
    itemsLength fuel xs.length p = none := by
  induction xs generalizing fuel p with
  | nil => exact absurd (List.prefix_nil.1 hp) hne
  | cons x xs ih =>
    obtain ⟨fuel, rfl⟩ : ∃ m, fuel = m + 1 := ⟨fuel - 1, by omega⟩
    rw [List.flatMap_cons] at hp hne
    rw [List.length_cons]
    rcases prefix_append_cases hp hne with ⟨hx, hxne⟩ | ⟨q, rfl, hq, hqne⟩
    · exact hxs x List.mem_cons_self fuel xs.length p hx hxne (by omega)
    · have hpos := Item.bytes_pos (hwf x List.mem_cons_self)
      rw [itemsLength_item (hwf x List.mem_cons_self) fuel xs.length q (by omega)]
      rw [List.length_append] at hfuel
      rw [ih (fun y hy => hwf y (List.mem_cons_of_mem x hy)) (fun y hy => hxs y (List.mem_cons_of_mem x hy)) hq hqne
        (by omega)]
      rfl

/-- A list or a map that is cut off. -/
theorem itemsLength_of_prefix_container {xs : List Item} (hhead : IsHead head major n)
    (hbody : ∀ fuel l, bodyLength fuel major (some n) l = itemsLength fuel xs.length l)
    (hwf : ∀ x ∈ xs, x.WellFormed max)
    (hxs : ∀ x ∈ xs, ∀ (fuel items : ℕ) (p : List UInt8), p <+: x.bytes → p ≠ x.bytes → p.length ≤ fuel →
      itemsLength (fuel + 1) (items + 1) p = none)
    (hp : p <+: head ++ xs.flatMap Item.bytes) (hne : p ≠ head ++ xs.flatMap Item.bytes) (hfuel : p.length ≤ fuel) :
    itemsLength (fuel + 1) (items + 1) p = none := by
  rcases prefix_append_cases hp hne with ⟨hhead', hne'⟩ | ⟨q, rfl, hq, hqne⟩
  · exact itemsLength_of_prefix_head hhead hhead' hne'
  · have hpos := hhead.length_pos
    rw [List.length_append] at hfuel
    rw [itemsLength_head hhead, hbody, itemsLength_of_prefix_flatMap hwf hxs hq hqne (by omega)]
    rfl

/-- **An item that is cut off has no length.** -/
theorem itemsLength_of_prefix {x : Item} (hx : x.WellFormed max) (fuel items : ℕ) (p : List UInt8) (hp : p <+: x.bytes)
    (hne : p ≠ x.bytes) (hfuel : p.length ≤ fuel) : itemsLength (fuel + 1) (items + 1) p = none := by
  induction x generalizing fuel items p with
  | primitive bs =>
    obtain ⟨-, head, content, major, n, rfl, hhead, hcontent⟩ := hx
    rcases prefix_append_cases hp hne with ⟨hhead', hne'⟩ | ⟨q, rfl, hq, hqne⟩
    · exact itemsLength_of_prefix_head hhead hhead' hne'
    · rw [itemsLength_head hhead]
      have hlt : q.length < content.length := by
        refine Nat.lt_of_le_of_ne hq.length_le fun heq => hqne (hq.eq_of_length heq)
      rcases hcontent with ⟨-, rfl⟩ | ⟨rfl | rfl, rfl⟩
      · exact absurd hlt (Nat.not_lt_zero _)
      all_goals
        rw [bodyLength, if_neg (Nat.not_le.2 hlt)]
        rfl
  | list head size element ih =>
    obtain ⟨-, hhead, helement⟩ := hx
    rw [Item.bytes_list] at hp hne
    have hmem : ∀ x ∈ (List.finRange size).map element, ∃ i, x = element i := by
      intro x hx
      obtain ⟨i, -, rfl⟩ := List.mem_map.1 hx
      exact ⟨i, rfl⟩
    refine itemsLength_of_prefix_container hhead (fun fuel l => ?_) (fun x hx => (?_ : x.WellFormed max))
      (fun x hx => ?_) hp hne hfuel
    · rw [List.length_map, List.length_finRange]
      rfl
    · obtain ⟨i, rfl⟩ := hmem x hx
      exact helement i
    · obtain ⟨i, rfl⟩ := hmem x hx
      exact ih i (helement i)
  | map head size key value ihk ihv =>
    obtain ⟨-, hhead, hkey, hvalue⟩ := hx
    rw [Item.bytes_map] at hp hne
    refine itemsLength_of_prefix_container hhead (fun fuel l => ?_) (fun x hx => (?_ : x.WellFormed max))
      (fun x hx => ?_) hp hne hfuel
    · rw [Item.length_entries]
      rfl
    · obtain ⟨i, rfl | rfl⟩ := Item.mem_entries.1 hx
      · exact hkey i
      · exact hvalue i
    · obtain ⟨i, rfl | rfl⟩ := Item.mem_entries.1 hx
      · exact ihk i (hkey i)
      · exact ihv i (hvalue i)

theorem enter_head {s : ZcborState} (hhead : IsHead head major n) (hcount : s.elemCount ≠ 0)
    (hs : s.remaining = head ++ rest) :
    enter s = some (⟨major, some n⟩, { s with
      payload := s.payload + head.length, payloadBak := s.payload, elemCount := s.elemCount - 1 }) := by
  rw [enter, if_neg hcount, hs, hhead rest]
  dsimp only
  rw [List.length_append, Nat.add_sub_cancel]

end ZcborReference

open ZcborReference in
theorem zcborReference_skipLaws : zcborReference.SkipLaws where
  anySkip s x max rest hx hcount hs := by
    have hlen := itemsLength_item hx s.remaining.length 0 rest (by rw [hs])
    rw [← hs] at hlen
    have hlen' : itemsLength (s.remaining.length + 1) 1 s.remaining = some x.bytes.length := by
      rw [hlen, hs]
      cases hpos : (x.bytes ++ rest).length with
      | zero =>
        have hbytes := Cbor.Item.bytes_pos hx
        rw [List.length_append] at hpos
        omega
      | succ m => rfl
    have hskip : zcborReference.anySkip s =
        (true, { s with payload := s.payload + x.bytes.length, elemCount := s.elemCount - 1 }) := by
      change anySkip s = _
      rw [anySkip, if_neg hcount, hlen']
    rw [hskip]
    exact ⟨rfl, ⟨rfl, rfl, rfl, rfl⟩, Nat.sub_add_cancel (Nat.one_le_iff_ne_zero.2 hcount), rfl, rfl⟩
  anySkip_short s x max hx hp hne := by
    change (anySkip s).1 = false
    rw [anySkip, itemsLength_of_prefix hx _ 0 _ hp hne le_rfl]
    split <;> rfl
  listStart s head n rest hhead hcount hdepth hs := by
    change (start 4 1 s).1 = true ∧ s.Advances head.length (start 4 1 s).2 ∧ _
    have henter := enter_head hhead hcount hs
    have hstart : start 4 1 s = (true, { s with
        payload := s.payload + head.length, payloadBak := s.payload, elemCount := n, indefinite := false
        backups := ⟨s.payload + head.length, s.payload, s.elemCount - 1, s.indefinite⟩ :: s.backups }) := by
      rw [start, henter]
      dsimp only
      rw [if_pos ⟨rfl, by omega⟩, Nat.one_mul]
      rfl
    rw [show zcborReference.listStartDecode s = start 4 1 s from rfl, hstart]
    exact ⟨rfl, ⟨rfl, rfl, rfl, rfl⟩, rfl, rfl, _, rfl, Nat.sub_add_cancel (Nat.one_le_iff_ne_zero.2 hcount)⟩
  listStart_other s head major n rest hhead hmajor hs := by
    change (start 4 1 s).1 = false
    by_cases hcount : s.elemCount = 0
    · rw [start, enter_of_elemCount hcount]
    · rw [start, enter_head hhead hcount hs]
      exact congrArg Prod.fst (if_neg fun h => hmajor h.1)
  listEnd s b backups hbackups hindefinite hcount := by
    have hstop : zcborReference.listEndDecode s =
        (true, { s with elemCount := b.elemCount, indefinite := b.indefinite, backups := backups }) := by
      change stop s = _
      rw [stop, hbackups]
      dsimp only
      rw [hindefinite, if_neg Bool.false_ne_true, if_pos hcount]
    rw [hstop]
    exact ⟨rfl, ⟨rfl, rfl, rfl, rfl⟩, rfl, rfl⟩

end ThingSet
