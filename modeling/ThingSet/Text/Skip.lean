import Mathlib.Data.List.FinRange
import Mathlib.Data.List.GetD
import ThingSet.TextDecoder

/-!
# Skipping in a text

`skip` of the text decoder goes to the next token, and takes its start for the position. The token is the next one
in the document, which is within the value if the value has some, and behind the list or map around the value if
the value is the last one there.

* `TokenTree`: a document, as the tokens of its values.
* `Occurs`: a value in a document, with what follows it there.
* `leavesAt_skip_iff`: where `skip` leaves the decoder.
-/

namespace ThingSet

/-- A value of a JSON document: a primitive or a string, or a list or map with the values in it. The keys of a map
are values too, each in front of its value. -/
inductive TokenTree
  | scalar (tok : JsmnTok)
  | container (tok : JsmnTok) (size : ℕ) (child : Fin size → TokenTree)

/-- What follows a value: another one in the same list or map, which starts there, the bracket that closes this, or
nothing. -/
inductive Follow
  | next (start : ℤ)
  | close (position : ℤ)
  | finish
  deriving DecidableEq, Repr

/-- Where it is. -/
def Follow.position : Follow → Option ℤ
  | next start => some start
  | close position => some position
  | finish => none

namespace TokenTree

/-- The token of a value. -/
def tok : TokenTree → JsmnTok
  | scalar t => t
  | container t _ _ => t

/-- The tokens of a value, in document order. -/
def tokens : TokenTree → List JsmnTok
  | scalar t => [t]
  | container t size child => t :: (List.finRange size).flatMap fun k => (child k).tokens

/-- The values of a list or map are between its brackets, one behind the other. -/
def Placed : TokenTree → Prop
  | scalar t => t.start ≤ t.stop
  | container t size child =>
    t.start < t.stop ∧
      (∀ k, t.start < (child k).tok.start ∧ (child k).tok.stop < t.stop ∧ (child k).Placed) ∧
        ∀ k l : Fin size, k < l → (child k).tok.stop ≤ (child l).tok.start

instance decidablePlaced : (v : TokenTree) → Decidable v.Placed
  | scalar t => inferInstanceAs (Decidable (t.start ≤ t.stop))
  | container _ _ child =>
    have := fun k => decidablePlaced (child k)
    inferInstanceAs (Decidable (_ ∧ _ ∧ _))

section Children

variable {size : ℕ} (child : Fin size → TokenTree) (t : JsmnTok)

/-- The number of tokens of a list or map in front of a value in it. -/
def before (k : ℕ) : ℕ := 1 + (((List.finRange size).take k).flatMap fun j => (child j).tokens).length

/-- What follows a value of a list or map. -/
def follow (k : Fin size) : Follow :=
  if h : k + 1 < size then .next (child ⟨k + 1, h⟩).tok.start else .close (t.stop - 1)

end Children

/-- A value in a document: the number of tokens before it, and what follows it. -/
inductive Occurs (doc : TokenTree) : ℕ → Follow → TokenTree → Prop
  | root : Occurs doc 0 .finish doc
  | child {i : ℕ} {f : Follow} {t : JsmnTok} {size : ℕ} {child : Fin size → TokenTree} (k : Fin size) :
    Occurs doc i f (container t size child) → Occurs doc (i + before child k) (follow child t k) (child k)

variable {doc v : TokenTree} {f : Follow} {i : ℕ}

/-! ## The tokens of a document -/

theorem tokens_eq_cons (v : TokenTree) : ∃ ts, v.tokens = v.tok :: ts := by
  cases v with
  | scalar t => exact ⟨[], rfl⟩
  | container t size child => exact ⟨_, rfl⟩

/-- Every token of a value is between its start and its end. -/
theorem Placed.tokens_bounds (h : v.Placed) : ∀ t ∈ v.tokens, v.tok.start ≤ t.start ∧ t.start ≤ v.tok.stop := by
  induction v with
  | scalar t =>
    intro t' ht'
    obtain rfl := List.mem_singleton.1 ht'
    exact ⟨le_rfl, h⟩
  | container t size child ih =>
    obtain ⟨hlt, hchild, -⟩ := h
    intro t' ht'
    rcases List.mem_cons.1 ht' with rfl | ht'
    · exact ⟨le_rfl, hlt.le⟩
    · obtain ⟨k, -, hk⟩ := List.mem_flatMap.1 ht'
      obtain ⟨hstart, hstop, hplaced⟩ := hchild k
      obtain ⟨hlo, hhi⟩ := ih k hplaced t' hk
      exact ⟨(hstart.trans_le hlo).le, (hhi.trans_lt hstop).le⟩

/-- What is behind a value in its document: the tokens start behind it, and what follows it is the first of them, or
in front of all of them. -/
structure Behind (v : TokenTree) (f : Follow) (post : List JsmnTok) : Prop where
  start : ∀ t ∈ post, v.tok.stop ≤ t.start
  next : ∀ p, f = .next p → ∃ t ts, post = t :: ts ∧ t.start = p
  close : ∀ p, f = .close p → v.tok.stop ≤ p ∧ ∀ t ∈ post, p < t.start
  finish : f = .finish → post = []

section Split

variable {size : ℕ} {child : Fin size → TokenTree} {t : JsmnTok} {post : List JsmnTok}

/-- The values of a list or map are those before one of them, it, and those behind it. -/
theorem flatMap_finRange_split (k : Fin size) :
    ((List.finRange size).flatMap fun j => (child j).tokens) =
      (((List.finRange size).take k).flatMap fun j => (child j).tokens) ++ ((child k).tokens ++
        ((List.finRange size).drop (k + 1)).flatMap fun j => (child j).tokens) := by
  have hk : (k : ℕ) < (List.finRange size).length := by rw [List.length_finRange]; exact k.isLt
  have hget : (List.finRange size)[(k : ℕ)] = k := List.getElem_finRange hk
  conv_lhs => rw [← List.take_append_drop k (List.finRange size), List.drop_eq_getElem_cons hk, hget]
  rw [List.flatMap_append, List.flatMap_cons]

theorem mem_drop_finRange {k : ℕ} {l : Fin size} (h : l ∈ (List.finRange size).drop k) : k ≤ l := by
  obtain ⟨j, hj, rfl⟩ := List.mem_iff_getElem.1 h
  rw [List.getElem_drop, List.getElem_finRange]
  exact Nat.le_add_right k j

/-- What is behind a value of a list or map. -/
theorem behind_child (hplaced : (container t size child).Placed) (hpost : (container t size child).Behind f post)
    (k : Fin size) : (child k).Behind (follow child t k)
      ((((List.finRange size).drop (k + 1)).flatMap fun j => (child j).tokens) ++ post) := by
  obtain ⟨-, hchild, hordered⟩ := hplaced
  have hstop : ∀ t' ∈ post, t.stop ≤ t'.start := hpost.start
  obtain ⟨-, hlt, -⟩ := hchild k
  constructor
  · intro t' ht'
    rcases List.mem_append.1 ht' with ht' | ht'
    · obtain ⟨l, hl, ht'⟩ := List.mem_flatMap.1 ht'
      have hkl : k < l := mem_drop_finRange hl
      exact (hordered k l hkl).trans ((hchild l).2.2.tokens_bounds t' ht').1
    · exact hlt.le.trans (hstop t' ht')
  · intro p hp
    unfold follow at hp
    split_ifs at hp with hnext
    obtain rfl := Follow.next.inj hp
    have hlen : (k : ℕ) + 1 < (List.finRange size).length := by rw [List.length_finRange]; exact hnext
    obtain ⟨ts, hts⟩ := tokens_eq_cons (child ⟨k + 1, hnext⟩)
    have hget : (List.finRange size)[(k : ℕ) + 1] = ⟨k + 1, hnext⟩ := List.getElem_finRange hlen
    rw [List.drop_eq_getElem_cons hlen, hget, List.flatMap_cons, hts]
    exact ⟨_, _, rfl, rfl⟩
  · intro p hp
    unfold follow at hp
    split_ifs at hp with hnext
    obtain rfl := Follow.close.inj hp
    rw [List.drop_eq_nil_of_le (by rw [List.length_finRange]; omega), List.flatMap_nil, List.nil_append]
    exact ⟨by omega, fun t' ht' => by have := hstop t' ht'; omega⟩
  · intro hfinish
    unfold follow at hfinish
    split_ifs at hfinish

end Split

/-- **The tokens of a document are those before a value, its own, and those behind it.** -/
theorem Occurs.split (h : doc.Occurs i f v) (hdoc : doc.Placed) :
    v.Placed ∧ ∃ pre post, doc.tokens = pre ++ (v.tokens ++ post) ∧ pre.length = i ∧ v.Behind f post := by
  induction h with
  | root =>
    refine ⟨hdoc, [], [], (List.append_nil _).symm, rfl, ?_⟩
    constructor
    · intro t ht
      exact absurd ht List.not_mem_nil
    · rintro p ⟨⟩
    · rintro p ⟨⟩
    · intro _
      rfl
  | @child i f t size child k _ ih =>
    obtain ⟨hplaced, pre, post, htokens, hlength, hbehind⟩ := ih
    refine ⟨(hplaced.2.1 k).2.2, pre ++ t :: ((List.finRange size).take k).flatMap fun j => (child j).tokens,
      (((List.finRange size).drop (k + 1)).flatMap fun j => (child j).tokens) ++ post, ?_, ?_,
      behind_child hplaced hbehind k⟩
    · rw [htokens, tokens, flatMap_finRange_split k]
      simp only [List.append_assoc, List.cons_append]
    · rw [List.length_append, List.length_cons, hlength, before]
      omega

/-! ## The decoder -/

/-- The decoder is at a token of the document, which has been tokenized as a whole. -/
structure At (doc : TokenTree) (i : ℕ) (s : TextDecoderState) : Prop where
  tokens : s.getTokens.parser.tokens = doc.tokens
  tokenIndex : s.tokenIndex = i

/-- The decoder is at what follows a value: at its token, and at the character. -/
def LeavesAt (doc : TokenTree) (i : ℕ) (f : Follow) (s : TextDecoderState) : Prop :=
  doc.At i s ∧ ∀ p ∈ f.position, s.bufferElemPtr = toSize p

variable {s : TextDecoderState}

theorem getTokens_tokenIndex (s : TextDecoderState) (i : ℕ) :
    ({ s with tokenIndex := i } : TextDecoderState).getTokens = { s.getTokens with tokenIndex := i } := by
  unfold TextDecoderState.getTokens
  split <;> rfl

/-- A decoder that has the tokens of the document. -/
theorem at_of_tokens (h : s.parser.tokens = doc.tokens) : doc.At s.tokenIndex s := by
  obtain ⟨ts, hts⟩ := tokens_eq_cons doc
  have hget : s.getTokens = s := if_neg (by rw [h, hts]; exact Nat.succ_ne_zero _)
  exact ⟨by rw [hget, h], rfl⟩

/-- `skip` goes to the next token, whatever it is: the array of tokens goes on behind those of the document. -/
theorem skip_spec (h : doc.At i s) :
    doc.At (i + 1) (TextDecoder.skip s).2 ∧
      (TextDecoder.skip s).2.bufferElemPtr = toSize (doc.tokens.getD (i + 1) (s.tokens (i + 1))).start := by
  obtain ⟨htokens, rfl⟩ := h
  have hstale : s.getTokens.tokens = s.tokens := by
    unfold TextDecoderState.getTokens
    split <;> rfl
  unfold TextDecoder.skip
  rw [getTokens_tokenIndex]
  refine ⟨at_of_tokens (s := { s.getTokens with tokenIndex := s.tokenIndex + 1, bufferElemPtr := _ }) htokens, ?_⟩
  change toSize (s.getTokens.parser.tokens.getD (s.tokenIndex + 1) (s.getTokens.tokens (s.tokenIndex + 1))).start = _
  rw [htokens, hstale]

/-- Two positions in the memory are the same number. -/
theorem toSize_ne_of_lt {p q : ℤ} (hp : 0 ≤ p) (hq : q < 2 ^ 64) (hlt : p < q) : toSize p ≠ toSize q := by
  unfold toSize
  omega

/-- **Where `skip` leaves the decoder.** It is at what follows a value that has one token, and is not the last one of
a list or map. What is behind the last token of the document, the array of tokens may have had before. -/
theorem leavesAt_skip_iff (hdoc : doc.Placed) (hstart : 0 ≤ doc.tok.start) (hstop : doc.tok.stop < 2 ^ 64)
    (hv : doc.Occurs i f v) (hs : doc.At i s) :
    doc.LeavesAt (i + v.tokens.length) f (TextDecoder.skip s).2 ↔
      v.tokens.length = 1 ∧ ∀ p, f = .close p →
        doc.tokens.length = i + 1 ∧ toSize (s.tokens (i + 1)).start = toSize p := by
  obtain ⟨hplaced, pre, post, htokens, rfl, hbehind⟩ := hv.split hdoc
  obtain ⟨hskip, hposition⟩ := skip_spec hs
  have hbounds : ∀ t ∈ v.tokens ++ post, 0 ≤ t.start ∧ t.start < 2 ^ 64 := by
    intro t ht
    obtain ⟨hlo, hhi⟩ := hdoc.tokens_bounds t (by rw [htokens]; exact List.mem_append_right _ ht)
    exact ⟨hstart.trans hlo, hhi.trans_lt hstop⟩
  have hget : ∀ d, v.tokens.length = 1 → doc.tokens.getD (pre.length + 1) d = post.headD d := by
    intro d hone
    rw [htokens, ← hone, ← List.append_assoc, List.getD_append_right _ _ _ _ (by rw [List.length_append]),
      List.length_append, Nat.sub_self]
    cases post <;> rfl
  constructor
  · rintro ⟨⟨-, hindex⟩, hposition'⟩
    have hone : v.tokens.length = 1 := Nat.add_left_cancel (hindex.symm.trans hskip.tokenIndex)
    refine ⟨hone, ?_⟩
    rintro p rfl
    obtain ⟨hp, hpost⟩ := hbehind.close p rfl
    have heq := hposition.symm.trans (hposition' p rfl)
    rw [hget _ hone] at heq
    cases post with
    | nil =>
      rw [htokens, List.append_nil, List.length_append, hone]
      exact ⟨rfl, heq⟩
    | cons t ts =>
      -- a token behind the bracket
      obtain ⟨v', hv'⟩ := tokens_eq_cons v
      have hfirst := hbounds v.tok (by rw [hv']; exact List.mem_cons_self)
      have hnonneg : 0 ≤ p := (hfirst.1.trans (hplaced.tokens_bounds v.tok (by rw [hv']; exact List.mem_cons_self)).2).trans hp
      have ht := (hbounds t (List.mem_append_right _ List.mem_cons_self)).2
      exact absurd heq.symm (toSize_ne_of_lt hnonneg ht (hpost t List.mem_cons_self))
  · rintro ⟨hone, hclose⟩
    rw [hone]
    refine ⟨hskip, ?_⟩
    intro p hp
    rw [hposition, hget _ hone]
    cases f with
    | next start =>
      obtain rfl := Option.some.inj hp
      obtain ⟨t, ts, rfl, hnext⟩ := hbehind.next start rfl
      exact congrArg toSize hnext
    | close position =>
      obtain rfl := Option.some.inj hp
      obtain ⟨hlength, hstale⟩ := hclose position rfl
      rw [htokens, List.length_append, List.length_append, hone] at hlength
      obtain rfl := List.eq_nil_of_length_eq_zero (l := post) (by omega)
      exact hstale
    | finish => cases hp

end TokenTree

end ThingSet
