import ThingSet.Siblings.Binary
import ThingSet.TextDecoder

/-!
# The next sibling in a text

`skip` of the text decoder goes to the next token, which may be one in the value that it is to skip, or one behind the
list or map around it. So `skipUntil` ends in front of the next token of the type, wherever this is.

* `IsSibling`: a token of the list or map that the decoder is in.
* `skipsUntil_text_iff`: the decoder finds the sibling if no other token of the type is in front of it.
-/

namespace ThingSet

open Interaction Prog

/-- What `peekType` calls a token. -/
def JsmnTok.nodeType (t : JsmnTok) : EncodedNodeType :=
  match t.type with
  | .primitive => .primitive
  | .string => .string
  | .array => .list
  | .object => .map
  | .undefined => .unknown

/-- A token is within another one. -/
def JsmnTok.Encloses (c t : JsmnTok) : Prop := c.start < t.start ∧ t.stop < c.stop

/-- A position is between the brackets of a list or map. -/
def JsmnTok.Holds (c : JsmnTok) (position : ℕ) : Prop :=
  (c.type = .array ∨ c.type = .object) ∧ c.start < position ∧ (position : ℤ) < c.stop

/-- The token `j` is a value, or a key, of the list or map in which the decoder is, with the position and the token
index that it has: it is in none of the values from the index on, and in every list and map that the position is in. -/
def IsSibling (ts : List JsmnTok) (position i j : ℕ) (t : JsmnTok) : Prop :=
  i ≤ j ∧ ts[j]? = some t ∧ (∀ k c, i ≤ k → k < j → ts[k]? = some c → ¬ c.Encloses t) ∧
    ∀ k c, k < i → ts[k]? = some c → c.Holds position → c.Encloses t

/-- The token `j` is the next sibling of the type. -/
def IsNextSibling (sought : EncodedNodeType) (ts : List JsmnTok) (position i j : ℕ) : Prop :=
  (∃ t, IsSibling ts position i j t ∧ t.nodeType = sought) ∧
    ∀ k t, k < j → IsSibling ts position i k t → t.nodeType ≠ sought

/-- The token `j` is the next one of the type. -/
def IsNextToken (sought : EncodedNodeType) (ts : List JsmnTok) (i j : ℕ) : Prop :=
  i ≤ j ∧ (∃ t, ts[j]? = some t ∧ t.nodeType = sought) ∧
    ∀ k t, i ≤ k → k < j → ts[k]? = some t → t.nodeType ≠ sought

namespace TextDecoderState

/-- The token that the next call looks at is one of the text. -/
def WithinTokens (s : TextDecoderState) : Prop := s.tokenIndex < s.getTokens.parser.tokens.length

/-- The decoder is at a token. -/
structure AtToken (ts : List JsmnTok) (i : ℕ) (s : TextDecoderState) : Prop where
  tokens : s.getTokens.parser.tokens = ts
  tokenIndex : s.tokenIndex = i

variable {s s' : TextDecoderState} {ts : List JsmnTok} {t : JsmnTok} {i j : ℕ} {sought : EncodedNodeType}
  {o : TextDecoderOptions}

theorem getTokens_of_ne_nil (h : s.parser.tokens ≠ []) : s.getTokens = s := by
  unfold getTokens
  exact if_neg fun hlen => h (List.eq_nil_of_length_eq_zero hlen)

theorem getTokens_tokenIndex_eq (s : TextDecoderState) : s.getTokens.tokenIndex = s.tokenIndex := by
  unfold getTokens
  split <;> rfl

theorem AtToken.getTokens (h : s.AtToken ts i) (hne : ts ≠ []) : s.getTokens.AtToken ts i where
  tokens := by
    rw [getTokens_of_ne_nil (h.tokens ▸ hne)]
    exact h.tokens
  tokenIndex := (getTokens_tokenIndex_eq s).trans h.tokenIndex

theorem run_peekType_text (h : s.AtToken ts i) (ht : ts[i]? = some t) :
    run (textDecoder o) (decode .peekType) s = (t.nodeType, s.getTokens) := by
  have htoken : s.getTokens.token s.getTokens.tokenIndex = t := by
    rw [token, getTokens_tokenIndex_eq, h.tokens, h.tokenIndex, List.getD_eq_getElem?_getD, ht]
    rfl
  change TextDecoder.peekType s = _
  unfold TextDecoder.peekType JsmnTok.nodeType
  dsimp only
  rw [htoken]
  cases t.type <;> rfl

theorem AtToken.skip (h : s.AtToken ts i) (hne : ts ≠ []) :
    (run (textDecoder o) (decode .skip) s.getTokens).2.AtToken ts (i + 1) := by
  have htokens : ({ s.getTokens with tokenIndex := s.getTokens.tokenIndex + 1 } : TextDecoderState).parser.tokens ≠ [] := by
    rw [show _ = ts from h.tokens]
    exact hne
  have hskip : (run (textDecoder o) (decode .skip) s.getTokens).2 =
      { s.getTokens with
        tokenIndex := s.getTokens.tokenIndex + 1
        bufferElemPtr := toSize (s.getTokens.token (s.getTokens.tokenIndex + 1)).start } := by
    change (TextDecoder.skip s.getTokens).2 = _
    unfold TextDecoder.skip
    dsimp only
    rw [getTokens_of_ne_nil htokens]
    rfl
  rw [hskip]
  constructor
  · refine (congrArg (fun x : TextDecoderState => x.parser.tokens) (getTokens_of_ne_nil ?_)).trans h.tokens
    exact htokens
  · dsimp only
    rw [getTokens_tokenIndex_eq, h.tokenIndex]

/-- The loop ends at the next token of the type. -/
theorem ends_text_iff (h : s.AtToken ts i) :
    (∃ s', Ends (textDecoder o) (skipUntilRound sought) WithinTokens s true s' ∧ s'.AtToken ts j) ↔
      IsNextToken sought ts i j := by
  induction hm : ts.length - i generalizing s i with
  | zero =>
    constructor
    · rintro ⟨s', hends, -⟩
      have hlt := hends.start
      rw [WithinTokens, h.tokens, h.tokenIndex] at hlt
      omega
    · rintro ⟨hij, ⟨t, ht, -⟩, -⟩
      obtain ⟨hj, -⟩ := List.getElem?_eq_some_iff.1 ht
      omega
  | succ m ih =>
    have hi : i < ts.length := by omega
    have hne : ts ≠ [] := List.ne_nil_of_length_pos (Nat.zero_lt_of_lt hi)
    have hwithin : s.WithinTokens := by
      rw [WithinTokens, h.tokens, h.tokenIndex]
      exact hi
    obtain ⟨t, ht⟩ : ∃ t, ts[i]? = some t := ⟨_, List.getElem?_eq_getElem hi⟩
    have hpeek := run_peekType_text (o := o) h ht
    by_cases htype : t.nodeType = sought
    · have hround := run_skipUntilRound_eq (hpeek.trans (by rw [htype]))
      constructor
      · rintro ⟨s', hends, hs'⟩
        obtain ⟨-, -, rfl⟩ := (ends_of_some hround).1 hends
        obtain rfl : i = j := (h.getTokens hne).tokenIndex.symm.trans hs'.tokenIndex
        exact ⟨le_rfl, ⟨t, ht, htype⟩, fun k _ hk hk' => absurd hk' (Nat.not_lt.2 hk)⟩
      · rintro ⟨hij, -, hfirst⟩
        rcases Nat.eq_or_lt_of_le hij with rfl | hlt
        · exact ⟨s.getTokens, (ends_of_some hround).2 ⟨hwithin, rfl, rfl⟩, h.getTokens hne⟩
        · exact absurd htype (hfirst i t le_rfl hlt ht)
    · have hround := run_skipUntilRound_ne hpeek htype
      have hrest : IsNextToken sought ts i j ↔ IsNextToken sought ts (i + 1) j := by
        constructor
        · rintro ⟨hij, hj, hfirst⟩
          refine ⟨Nat.lt_of_le_of_ne hij ?_, hj, fun k t' hk => hfirst k t' (Nat.le_of_succ_le hk)⟩
          rintro rfl
          obtain ⟨t', ht', htype'⟩ := hj
          obtain rfl := Option.some.inj (ht.symm.trans ht')
          exact htype htype'
        · rintro ⟨hij, hj, hfirst⟩
          refine ⟨Nat.le_of_succ_le hij, hj, fun k t' hk hk' ht' => ?_⟩
          rcases Nat.eq_or_lt_of_le hk with rfl | hlt
          · obtain rfl := Option.some.inj (ht.symm.trans ht')
            exact htype
          · exact hfirst k t' hlt hk' ht'
      rw [hrest, ← ih (h.skip hne) (by omega)]
      constructor
      · rintro ⟨s', hends, hs'⟩
        exact ⟨s', ((ends_of_none hround).1 hends).2, hs'⟩
      · rintro ⟨s', hends, hs'⟩
        exact ⟨s', (ends_of_none hround).2 ⟨hwithin, hends⟩, hs'⟩

end TextDecoderState

open TextDecoderState in
/-- **The text decoder skips to the next sibling of a type exactly if one is left and it is the next token of the
type.** -/
theorem skipsUntil_text_iff (o : TextDecoderOptions) (sought : EncodedNodeType) (s : TextDecoderState) :
    SkipsUntil (textDecoder o) sought WithinTokens
        (IsNextSibling sought s.getTokens.parser.tokens s.bufferElemPtr s.tokenIndex)
        (AtToken s.getTokens.parser.tokens) s ↔
      ∃ j, IsNextSibling sought s.getTokens.parser.tokens s.bufferElemPtr s.tokenIndex j ∧
        IsNextToken sought s.getTokens.parser.tokens s.tokenIndex j := by
  refine skipsUntil_iff_ends.trans ⟨?_, ?_⟩
  · rintro ⟨-, s', hends, j, hnext, hs'⟩
    exact ⟨j, hnext, (ends_text_iff ⟨rfl, rfl⟩).1 ⟨s', hends, hs'⟩⟩
  · rintro ⟨j, hnext, hfirst⟩
    obtain ⟨s', hends, hs'⟩ := (ends_text_iff (o := o) ⟨rfl, rfl⟩).2 hfirst
    exact ⟨⟨j, hnext⟩, s', hends, j, hnext, hs'⟩

end ThingSet
