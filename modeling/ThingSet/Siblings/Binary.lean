import ThingSet.BinaryDecoder
import ThingSet.Foundations.Loop
import ThingSet.Zcbor.Nesting

/-!
# The next sibling of a type

`ThingSetDecoder::skipUntil` skips values until one has the type that is sought. Nothing but finding one ends its
loop, so it returns true or not at all.

* `SkipsUntil`: the loop ends in front of the next sibling of the type, or with false if none is left.
* `ZcborDecode.NextSibling`: the elements in front of the first one of a type.
* `skipsUntil_binary_iff`: the plain decoder finds the sibling if there is one.
-/

namespace ThingSet

open Interaction Prog

/-- A round of `ThingSetDecoder::skipUntil`. -/
def skipUntilRound (sought : EncodedNodeType) : Decoding (Option Bool) := do
  let type ← decode .peekType
  if type ≠ sought then
    let _ ← decode .skip
    pure none
  else pure (some (decide (sought = type)))

/-- `ThingSetDecoder::skipUntil`, as far as it comes in a number of rounds. -/
def skipUntil {σ : Type} (h : Decoder σ) (sought : EncodedNodeType) : ℕ → σ → Option (Bool × σ) :=
  loop h (skipUntilRound sought)

/-- What `skipUntil` is for: it ends, the calls of `peekType` look at the input, and it returns true in front of the
next sibling of the type, or false where no sibling is one. -/
def SkipsUntil {σ π : Type} (h : Decoder σ) (sought : EncodedNodeType) (Within : σ → Prop) (IsNext : π → Prop)
    (InFront : π → σ → Prop) (s : σ) : Prop :=
  ∃ found s', Ends h (skipUntilRound sought) Within s found s' ∧
    ((∃ p, IsNext p) → found = true ∧ ∃ p, IsNext p ∧ InFront p s') ∧ ((¬ ∃ p, IsNext p) → found = false)

section Loop

variable {σ π : Type} {h : Decoder σ} {sought type : EncodedNodeType} {Within : σ → Prop} {IsNext : π → Prop}
  {InFront : π → σ → Prop} {s s₁ s' : σ} {found : Bool}

theorem run_skipUntilRound_eq (hpeek : run h (decode .peekType) s = (sought, s₁)) :
    run h (skipUntilRound sought) s = (some true, s₁) := by
  rw [skipUntilRound, run_bind, hpeek]
  dsimp only
  rw [if_neg (not_not.2 rfl), decide_eq_true rfl]
  rfl

theorem run_skipUntilRound_ne (hpeek : run h (decode .peekType) s = (type, s₁)) (hne : type ≠ sought) :
    run h (skipUntilRound sought) s = (none, (run h (decode .skip) s₁).2) := by
  rw [skipUntilRound, run_bind, hpeek]
  dsimp only
  rw [if_pos hne, run_bind]
  rfl

/-- Only what is found ends the loop. -/
theorem found_of_ends (hends : Ends h (skipUntilRound sought) Within s found s') : found = true := by
  refine hends.result (P := fun b => b = true) fun s b hb => ?_
  by_cases heq : (run h (decode .peekType) s).1 = sought
  · rw [run_skipUntilRound_eq (Prod.ext heq rfl)] at hb
    exact (Option.some.inj hb).symm
  · rw [run_skipUntilRound_ne (Prod.ext rfl rfl) heq] at hb
    cases hb

/-- The loop does what it is for only if there is a sibling to be found. -/
theorem skipsUntil_iff_ends : SkipsUntil h sought Within IsNext InFront s ↔
    (∃ p, IsNext p) ∧ ∃ s', Ends h (skipUntilRound sought) Within s true s' ∧ ∃ p, IsNext p ∧ InFront p s' := by
  constructor
  · rintro ⟨found, s', hends, hleft, hnone⟩
    obtain rfl := found_of_ends hends
    by_cases hp : ∃ p, IsNext p
    · exact ⟨hp, s', hends, (hleft hp).2⟩
    · cases hnone hp
  · rintro ⟨hp, s', hends, hnext⟩
    exact ⟨true, s', hends, fun _ => ⟨rfl, hnext⟩, fun hnone => absurd hp hnone⟩

end Loop

/-! ## The elements of a buffer -/

namespace ZcborDecode

variable (Z : ZcborDecode)

/-- The bytes of an element: `zcbor_any_skip` skips them, whatever is behind them, and skips nothing where they are
cut off. -/
structure IsElement (e : Bytes) : Prop where
  ne_nil : e ≠ []
  skip : ∀ s rest, s.elemCount ≠ 0 → s.remaining = e ++ rest →
    (Z.anySkip s).1 = true ∧ s.Reads e.length 1 (Z.anySkip s).2
  short : ∀ s, s.remaining <+: e → s.remaining ≠ e → Z.anySkip s = (false, s)

/-- The type of an element. -/
def nodeType (e : Bytes) : EncodedNodeType := BinaryDecoder.peekType (.alone e)

/-- The elements in front of the next one of a type, in bytes of which `count` elements belong to the container or
the message that the decoder is in. -/
def NextSibling (sought : EncodedNodeType) (count : ℕ) (bytes : Bytes) (es : List Bytes) : Prop :=
  es.length < count ∧ (∀ x ∈ es, Z.IsElement x ∧ nodeType x ≠ sought) ∧
    ∃ e, Z.IsElement e ∧ nodeType e = sought ∧ es.flatten ++ e <+: bytes

variable {Z} {e rest l : Bytes} {es : List Bytes} {count : ℕ} {sought : EncodedNodeType} {s : ZcborState}

/-- The byte that `peekType` looks at. -/
theorem peekType_of_head {b : UInt8} {s' : ZcborState} (hb : s.memory.getD s.payload 0 = b)
    (hb' : s'.memory.getD s'.payload 0 = b) : BinaryDecoder.peekType s = BinaryDecoder.peekType s' := by
  rw [BinaryDecoder.peekType, BinaryDecoder.peekType, hb, hb']

theorem peekType_of_remaining (hne : e ≠ []) (hs : s.remaining = e ++ rest) :
    BinaryDecoder.peekType s = nodeType e := by
  cases e with
  | nil => exact absurd rfl hne
  | cons b e => exact peekType_of_head (ZcborState.getD_payload hs) rfl

theorem payload_lt_of_remaining (hne : e ≠ []) (hs : s.remaining = e ++ rest) : s.payload < s.payloadEnd := by
  have hlen := congrArg List.length hs
  have hpos := List.length_pos_iff.2 hne
  rw [ZcborState.remaining, List.length_drop, List.length_take, List.length_append] at hlen
  omega

/-- Behind the first element is one less. -/
theorem NextSibling.tail {x : Bytes} (h : Z.NextSibling sought (count + 1) (x ++ l) (x :: es)) :
    Z.NextSibling sought count l es := by
  obtain ⟨hcount, hes, e, he, htype, hle⟩ := h
  rw [List.flatten_cons, List.append_assoc] at hle
  exact ⟨Nat.lt_of_succ_lt_succ hcount, fun y hy => hes y (List.mem_cons_of_mem x hy), e, he, htype,
    (List.prefix_append_right_inj x).1 hle⟩

/-- The first element is there. -/
theorem NextSibling.head {x : Bytes} (h : Z.NextSibling sought count l (x :: es)) : ∃ rest, l = x ++ rest := by
  obtain ⟨-, -, e, -, -, t, ht⟩ := h
  refine ⟨es.flatten ++ e ++ t, ?_⟩
  rw [← ht, List.flatten_cons]
  simp only [List.append_assoc]

end ZcborDecode

/-! ## The plain decoder -/

section Plain

variable {o : BinaryDecoderOptions} {sought : EncodedNodeType} {s : ZcborState} {es : List Bytes}

open ZcborDecode

/-- The plain decoder reaches the sibling. -/
theorem ends_binary (h : o.zcbor.NextSibling sought s.elemCount s.remaining es) :
    ∃ s', Ends (binaryDecoder o) (skipUntilRound sought) (fun x => x.payload < x.payloadEnd) s true s' ∧
      s.Reads es.flatten.length es.length s' := by
  induction es generalizing s with
  | nil =>
    obtain ⟨-, -, e, he, htype, rest, hrest⟩ := h
    rw [List.flatten_nil, List.nil_append] at hrest
    have hpeek : run (binaryDecoder o) (decode .peekType) s = (sought, s) :=
      Prod.ext ((peekType_of_remaining he.ne_nil hrest.symm).trans htype) rfl
    exact ⟨s, (ends_of_some (run_skipUntilRound_eq hpeek)).2
      ⟨payload_lt_of_remaining he.ne_nil hrest.symm, rfl, rfl⟩, .refl s⟩
  | cons x es ih =>
    obtain ⟨hx, htype⟩ := h.2.1 x List.mem_cons_self
    obtain ⟨rest, hrest⟩ := h.head
    have hcount : s.elemCount ≠ 0 := Nat.ne_of_gt (Nat.zero_lt_of_lt h.1)
    obtain ⟨-, hreads⟩ := hx.skip s rest hcount hrest
    have hpeek : run (binaryDecoder o) (decode .peekType) s = (nodeType x, s) :=
      Prod.ext (peekType_of_remaining hx.ne_nil hrest) rfl
    have htail : o.zcbor.NextSibling sought (o.zcbor.anySkip s).2.elemCount (o.zcbor.anySkip s).2.remaining es := by
      rw [hreads.remaining hrest]
      rw [← hreads.elemCount, hrest] at h
      exact h.tail
    obtain ⟨s', hends, hreads'⟩ := ih htail
    refine ⟨s', (ends_of_none (run_skipUntilRound_ne hpeek htype)).2
      ⟨payload_lt_of_remaining hx.ne_nil hrest, hends⟩, ?_⟩
    rw [List.flatten_cons, List.length_append, List.length_cons, Nat.add_comm es.length]
    exact hreads.trans hreads'

/-- **The plain decoder skips to the next sibling of a type exactly if one is left.** -/
theorem skipsUntil_binary_iff (o : BinaryDecoderOptions) (sought : EncodedNodeType) (s : ZcborState) :
    SkipsUntil (binaryDecoder o) sought (fun x => x.payload < x.payloadEnd)
        (o.zcbor.NextSibling sought s.elemCount s.remaining) (fun es => s.Reads es.flatten.length es.length) s ↔
      ∃ es, o.zcbor.NextSibling sought s.elemCount s.remaining es := by
  refine skipsUntil_iff_ends.trans ⟨fun h => h.1, fun h => ⟨h, ?_⟩⟩
  obtain ⟨es, hes⟩ := h
  obtain ⟨s', hends, hreads⟩ := ends_binary hes
  exact ⟨s', hends, es, hes, hreads⟩

end Plain

end ThingSet
