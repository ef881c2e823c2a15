import ThingSet.Siblings.Streaming
import ThingSet.Siblings.Text
import ThingSet.Zcbor.Places

/-!
# Siblings with the reference functions

* `isElement_iff`: the elements of the reference functions.
* `zcborStates_listElementLaws`: they enter and leave lists as the streaming decoder expects.
* `skipUntil_iff`: when `skipUntil` finds the next sibling, for each decoder.
-/

namespace ThingSet

open Interaction Prog ZcborDecode

namespace ZcborReference

open Cbor

variable {fuel items k n : ℕ} {l e rest : Bytes} {s : ZcborState}

/-! ## Items in a row -/

/-- The bytes of some items have their length whatever is behind them. -/
theorem itemsLength_take (h : itemsLength fuel items l = some k) :
    k ≤ l.length ∧ ∀ fuel' rest, (l.take k ++ rest).length < fuel' →
      itemsLength fuel' items (l.take k ++ rest) = some k := by
  induction fuel generalizing items l k with
  | zero => cases h
  | succ fuel ih =>
    cases items with
    | zero =>
      obtain rfl := Option.some.inj h
      refine ⟨Nat.zero_le _, fun fuel' rest hfuel => ?_⟩
      obtain ⟨fuel', rfl⟩ : ∃ m, fuel' = m + 1 := ⟨fuel' - 1, by omega⟩
      rfl
    | succ items =>
      cases hread : readHead l with
      | none =>
        rw [itemsLength_of_readHead_eq_none hread] at h
        cases h
      | some r =>
        obtain ⟨⟨major, argument⟩, body⟩ := r
        obtain ⟨head, rfl⟩ := readHead_suffix hread
        rw [itemsLength_of_readHead hread] at h
        obtain ⟨m, hbody, h⟩ := Option.bind_eq_some_iff.1 h
        obtain ⟨m', hitems, hk⟩ := Option.map_eq_some_iff.1 h
        rw [List.length_append, Nat.add_sub_cancel] at hk
        -- the length of the body is that of what it has, and does not depend on what follows
        obtain ⟨hm, hbody'⟩ : m ≤ body.length ∧ ∀ fuel' rest, (body.take m ++ rest).length < fuel' →
            bodyLength fuel' major argument (body.take m ++ rest) = some m := by
          unfold bodyLength at hbody ⊢
          split at hbody
          · split_ifs at hbody with hle
            obtain rfl := Option.some.inj hbody
            exact ⟨hle, fun fuel' rest _ => if_pos (by rw [List.length_append, List.length_take]; omega)⟩
          · split_ifs at hbody with hle
            obtain rfl := Option.some.inj hbody
            exact ⟨hle, fun fuel' rest _ => if_pos (by rw [List.length_append, List.length_take]; omega)⟩
          · exact ih hbody
          · exact ih hbody
          · obtain rfl := Option.some.inj hbody
            exact ⟨Nat.zero_le _, fun _ _ _ => rfl⟩
          · cases hbody
        obtain ⟨hm', hitems'⟩ := ih hitems
        rw [List.length_drop] at hm'
        subst hk
        refine ⟨by rw [List.length_append]; omega, fun fuel' rest hfuel => ?_⟩
        obtain ⟨fuel', rfl⟩ : ∃ m, fuel' = m + 1 := ⟨fuel' - 1, by omega⟩
        have htake : (head ++ body).take (head.length + m + m') ++ rest =
            head ++ (body.take m ++ ((body.drop m).take m' ++ rest)) := by
          rw [Nat.add_assoc, List.take_length_add_append, List.take_add, List.append_assoc, List.append_assoc]
        have hpos := length_lt_of_readHead hread
        have hlength := congrArg List.length htake
        rw [@List.length_append _ head] at hlength hpos
        have hdrop : (body.take m ++ ((body.drop m).take m' ++ rest)).drop m = (body.drop m).take m' ++ rest :=
          List.drop_left' (List.length_take_of_le hm)
        have htail := congrArg List.length hdrop
        rw [List.length_drop] at htail
        rw [htake, itemsLength_of_readHead (readHead_head hread _), hbody' _ _ (by omega), Option.bind_some, hdrop,
          hitems' _ _ (by omega), Option.map_some, List.length_append, Nat.add_sub_cancel]

/-- Where they are cut off, there are not as many items. -/
theorem itemsLength_cut (h : itemsLength fuel items l = some l.length) {p : Bytes} (hp : p <+: l) (hne : p ≠ l)
    (fuel' : ℕ) : itemsLength fuel' items p = none := by
  cases hlen : itemsLength fuel' items p with
  | none => rfl
  | some k =>
    obtain ⟨hk, hwhole⟩ := itemsLength_take hlen
    obtain ⟨rest, hrest⟩ := (List.take_prefix k p).trans hp
    have hl := (itemsLength_take h).2 (l.length + 1) [] (by rw [List.take_length, List.append_nil]; exact Nat.lt_succ_self _)
    rw [List.take_length, List.append_nil] at hl
    have hk' := hwhole (l.length + 1) rest (by rw [hrest]; exact Nat.lt_succ_self _)
    rw [hrest, hl] at hk'
    obtain rfl := Option.some.inj hk'
    exact absurd (hp.eq_of_length (Nat.le_antisymm hp.length_le hk)) hne

/-- Items in a row are one behind the other. -/
theorem exists_items (hfuel : l.length < fuel) (h : itemsLength fuel n l = some k) :
    ∃ es : List Bytes, es.length = n ∧ es.flatten = l.take k ∧
      ∀ x ∈ es, itemsLength (x.length + 1) 1 x = some x.length := by
  induction n generalizing l k fuel with
  | zero =>
    obtain ⟨fuel, rfl⟩ : ∃ m, fuel = m + 1 := ⟨fuel - 1, by omega⟩
    obtain rfl := Option.some.inj h
    exact ⟨[], rfl, rfl, by simp⟩
  | succ n ih =>
    obtain ⟨fuel, rfl⟩ : ∃ m, fuel = m + 1 := ⟨fuel - 1, by omega⟩
    obtain ⟨m, hone⟩ : ∃ m, itemsLength (l.length + 1) 1 l = some m := by
      cases hread : readHead l with
      | none =>
        rw [itemsLength_of_readHead_eq_none hread] at h
        cases h
      | some r =>
        obtain ⟨⟨major, argument⟩, body⟩ := r
        rw [itemsLength_of_readHead hread] at h
        obtain ⟨m, hbody, -⟩ := Option.bind_eq_some_iff.1 h
        refine ⟨l.length - body.length + m, (itemsLength_congr (Nat.lt_succ_self _) hfuel).trans ?_⟩
        rw [itemsLength_one hread (Nat.le_of_lt_succ hfuel), hbody]
        rfl
    obtain ⟨hm, hwhole⟩ := itemsLength_take hone
    rw [itemsLength_add hone hfuel] at h
    obtain ⟨m', hrest, rfl⟩ := Option.map_eq_some_iff.1 h
    obtain ⟨es, hlength, hflatten, hes⟩ := ih (by rw [List.length_drop]; omega) hrest
    have hx : itemsLength ((l.take m).length + 1) 1 (l.take m) = some (l.take m).length := by
      have htake := hwhole ((l.take m).length + 1) [] (by rw [List.append_nil]; exact Nat.lt_succ_self _)
      rw [List.append_nil] at htake
      rw [htake, List.length_take_of_le hm]
    refine ⟨l.take m :: es, congrArg (· + 1) hlength, ?_, List.forall_mem_cons.2 ⟨hx, hes⟩⟩
    rw [List.flatten_cons, hflatten, List.take_add]

/-- **The elements of the reference functions are the bytes of one item.** -/
theorem isElement_iff {Z : ZcborDecode} (hZ : Z.anySkip = anySkip) :
    Z.IsElement e ↔ itemsLength (e.length + 1) 1 e = some e.length := by
  constructor
  · intro he
    have halone : (ZcborState.alone e).remaining = e ++ [] := (remaining_alone e).trans (List.append_nil e).symm
    obtain ⟨hok, hreads⟩ := he.skip (.alone e) [] Nat.one_ne_zero halone
    rw [hZ] at hok hreads
    obtain ⟨hcount, k, hk⟩ := anySkip_eq_true_iff.1 hok
    have hpayload := hreads.payload
    rw [anySkip_of_length hcount hk] at hpayload
    unfold skipLength at hk
    rw [remaining_alone] at hk
    rw [hk]
    exact congrArg some (Nat.add_left_cancel hpayload)
  · intro he
    constructor
    · rintro rfl
      cases he
    · intro s rest hcount hs
      have hk : skipLength s = some e.length := by
        have hwhole := (itemsLength_take he).2 (s.remaining.length + 1) rest (by
          rw [List.take_length, hs]
          exact Nat.lt_succ_self _)
        rw [List.take_length] at hwhole
        unfold skipLength
        rw [← hwhole, ← hs]
      rw [hZ, anySkip_of_length hcount hk]
      exact ⟨rfl, ⟨rfl, rfl, rfl, rfl⟩, Nat.sub_add_cancel (Nat.one_le_iff_ne_zero.2 hcount), rfl, rfl⟩
    · intro s hs hne
      rw [hZ, anySkip, itemsLength_cut he hs hne]
      split <;> rfl

/-! ## Lists -/

theorem nodeType_eq_list {b : UInt8} : nodeType (b :: l) = .list ↔ b.toNat / 32 = 4 := by
  have hhead : (ZcborState.alone (b :: l)).memory.getD (ZcborState.alone (b :: l)).payload 0 = b := rfl
  unfold nodeType BinaryDecoder.peekType
  rw [hhead]
  generalize b.toNat / 32 = major
  split <;> simp_all

/-- Nothing is entered but a list. -/
theorem start_other (hne : s.remaining ≠ []) (htype : BinaryDecoder.peekType s ≠ .list) :
    start 4 1 s = (false, s) := by
  cases hs : s.remaining with
  | nil => exact absurd hs hne
  | cons b l =>
    have hpeek : BinaryDecoder.peekType s = nodeType (b :: l) := peekType_of_head (ZcborState.getD_payload hs) rfl
    have hb : b.toNat / 32 ≠ 4 := fun hb => htype (hpeek.trans (nodeType_eq_list.2 hb))
    rw [start]
    cases henter : enter s with
    | none => rfl
    | some r =>
      obtain ⟨h, s'⟩ := r
      obtain ⟨-, rest, hread, -⟩ := enter_eq_some henter
      rw [hs] at hread
      exact if_neg fun hlist => hb ((readHead_major hread).symm.trans hlist.1)

theorem opens_of_isHead {Z : ZcborDecode} (hZ : Z.listStartDecode = limited (start 4 1)) (hhead : IsHead e 4 n) :
    Z.Opens e n := by
  rw [IsHead] at hhead
  constructor
  · intro s rest hcount hdepth hs
    rw [hZ, limited, if_pos hdepth]
    exact zcborReference_skipLaws.listStart s e n rest hhead hcount hdepth hs
  · intro s rest hdepth _
    rw [hZ, limited, if_neg hdepth]
  · intro s hs hne
    have henter : enter s = none := by
      unfold enter
      rw [ readHead_of_prefix hhead hs hne]
      exact ite_self none
    rw [hZ, limited, start, henter]
    exact ite_self _

end ZcborReference

open ZcborReference Cbor in
theorem zcborStates_listElementLaws : zcborStates.ListElementLaws where
  list e he htype := by
    have hlen := (isElement_iff rfl).1 he
    cases hread : readHead e with
    | none =>
      rw [itemsLength_of_readHead_eq_none hread] at hlen
      cases hlen
    | some r =>
      obtain ⟨⟨major, argument⟩, body⟩ := r
      obtain ⟨head, rfl⟩ := readHead_suffix hread
      have hlt := length_lt_of_readHead hread
      obtain rfl : major = 4 := by
        cases hb : head ++ body with
        | nil =>
          rw [hb] at hlt
          cases hlt
        | cons b l =>
          rw [hb] at hread htype
          exact (readHead_major hread).trans (nodeType_eq_list.1 htype)
      rw [itemsLength_one hread le_rfl] at hlen
      obtain ⟨k, hbody, hk⟩ := Option.map_eq_some_iff.1 hlen
      cases argument with
      | none => cases hbody
      | some n =>
        rw [List.length_append, Nat.add_sub_cancel] at hk
        obtain rfl : k = body.length := Nat.add_left_cancel hk
        obtain ⟨es, rfl, hflatten, hes⟩ := exists_items hlt hbody
        rw [List.take_length] at hflatten
        refine ⟨head, es, by rw [hflatten], opens_of_isHead rfl fun tail => readHead_head hread tail, fun x hx => ?_⟩
        exact (isElement_iff rfl).2 (hes x hx)
  other s hne htype := by
    change limited (start 4 1) s = (false, s)
    unfold limited
    rw [start_other hne htype]
    exact ite_self _
  listEnd := zcborReference_skipLaws.listEnd
  skip_backups s := by
    change (ZcborReference.anySkip s).2.backups = s.backups
    unfold ZcborReference.anySkip
    split
    · rfl
    · split <;> rfl
  start_true s hs := by
    change (limited (start 4 1) s).1 = true at hs
    change s.backups.length < (limited (start 4 1) s).2.backups.length
    unfold limited at hs ⊢
    split_ifs at hs ⊢
    unfold start at hs ⊢
    cases henter : enter s with
    | none =>
      rw [henter] at hs
      cases hs
    | some r =>
      obtain ⟨h, s'⟩ := r
      obtain ⟨-, rest, -, -, rfl⟩ := enter_eq_some henter
      rw [henter] at hs
      dsimp only at hs ⊢
      split_ifs at hs ⊢
      exact Nat.lt_succ_self _
  start_false s hs := by
    change (limited (start 4 1) s).1 = false at hs
    change (limited (start 4 1) s).2.backups = s.backups
    unfold limited at hs ⊢
    split_ifs at hs ⊢
    · unfold start at hs ⊢
      cases henter : enter s with
      | none => rfl
      | some r =>
        obtain ⟨h, s'⟩ := r
        rw [henter] at hs
        dsimp only at hs ⊢
        split_ifs at hs ⊢
        rfl
    · rfl
  stop_backups s := by
    change s.backups.length ≤ (stop s).2.backups.length + 1
    unfold stop
    cases hs : s.backups with
    | nil => exact Nat.zero_le _
    | cons b backups =>
      dsimp only
      split
      · split
        · exact le_rfl
        · rw [hs]
          exact Nat.le_succ _
      · split
        · exact le_rfl
        · rw [hs]
          exact Nat.le_succ _

end ThingSet
