import Mathlib.Data.Fin.VecNotation
import ThingSet.Text.Integers
import ThingSet.Text.RoundTrip
import ThingSet.Text.Skip

/-!
# Entries of a map that are skipped

`decode` of a structure skips the value of a key that no member has. In a text, that takes it to the next key if the
value has one token, and another entry comes behind it.

* `EntriesRead`: each entry of a map is read into a member, or is of the kind that is skipped.
* `run_decodeRecord_entries`: the structure is decoded, and has stored what was read.
-/

namespace ThingSet

open Interaction Prog TextDecoderState TextDecoder

/-! ## Entries -/

/-- An entry of a map: the name and the position of its key, its value, and the member that this is read into, with
what is stored there. -/
structure TextEntry {size : ℕ} (V : Fin size → Type) where
  name : Bytes
  position : ℕ
  value : TokenTree
  target : Option (Σ i, V i)

namespace TextEntry

variable {size : ℕ} {V : Fin size → Type}

/-- The tokens of an entry. -/
def tokens (e : TextEntry V) : List JsmnTok := (Piece.string e.name).tokens e.position ++ e.value.tokens

/-- What is stored of an entry. -/
def store (e : TextEntry V) (r : (i : Fin size) → V i) : (i : Fin size) → V i :=
  match e.target with
  | none => r
  | some ⟨i, v⟩ => Function.update r i v

/-- What is stored of some entries, one after the other. -/
def storeAll (r : (i : Fin size) → V i) (es : List (TextEntry V)) : (i : Fin size) → V i :=
  es.foldl (fun r e => e.store r) r

/-- The key is at its position. -/
def HasKey (e : TextEntry V) (s : TextDecoderState) : Prop :=
  (∃ rest, s.textAt e.position = (Piece.string e.name).text ++ rest) ∧
    e.position + (Piece.string e.name).text.length ≤ sizeMax

/-- An entry that is ignored: no member has its key, its value has one token, and it is not the last one. -/
def Ignored (e : TextEntry V) (name : Fin size → Bytes) (es : List (TextEntry V)) : Prop :=
  (∀ i, name i ≠ e.name) ∧ e.value.tokens.length = 1 ∧ es ≠ []

/-- An entry that is read into a member: the decoder is behind its value, and at the end of the map if it is the last
one. -/
def ReadInto (e : TextEntry V) (o : TextDecoderOptions) (name : Fin size → Bytes)
    (member : (i : Fin size) → V i → Decoding (Decoded (V i))) (s : TextDecoderState) (i : ℕ)
    (r : (i : Fin size) → V i) (es : List (TextEntry V)) (j : Fin size) (v : V j) : Prop :=
  (List.finRange size).find? (fun k => decide (name k = e.name)) = some j ∧
    ∀ q, ∃ q', run (textDecoder o) (member j (r j)) (s.seek (i + 1) q) =
        (⟨true, some v⟩, s.seek (i + 1 + e.value.tokens.length) q') ∧
      (es = [] → (s.textAt q').headD 0 = 0x7D)

/-- Each of the entries from a token on is ignored, or read into a member. -/
def EntriesRead (o : TextDecoderOptions) (name : Fin size → Bytes)
    (member : (i : Fin size) → V i → Decoding (Decoded (V i))) (s : TextDecoderState) :
    ℕ → ((i : Fin size) → V i) → List (TextEntry V) → Prop
  | _, _, [] => True
  | i, r, e :: es => e.HasKey s ∧ (e.target = none → e.Ignored name es) ∧
      (∀ j v, e.target = some ⟨j, v⟩ → e.ReadInto o name member s i r es j v) ∧
        EntriesRead o name member s (i + e.tokens.length) (e.store r) es

end TextEntry

/-! ## Rounds -/

section Rounds

variable {o : TextDecoderOptions} {size : ℕ} {V : Fin size → Type} {id : Fin size → ℕ} {name : Fin size → Bytes}
  {member : (i : Fin size) → V i → Decoding (Decoded (V i))} {s : TextDecoderState} {i q : ℕ}
  {r : (i : Fin size) → V i} {key : Key} {e : TextEntry V} {es : List (TextEntry V)}

theorem length_tokens (e : TextEntry V) : e.tokens.length = 1 + e.value.tokens.length := by
  unfold TextEntry.tokens
  rw [List.length_append]
  rfl

/-- The callback on a key that no member has. -/
theorem decodeMember_unknown (hs : s.parser.tokens ≠ []) (hid : key.id = none) (hkey : key.name = some e.name)
    (hname : ∀ i, name i ≠ e.name) :
    run (textDecoder o) (decodeMember id name member r key) (s.seek i q) =
      ((true, r), s.seek (i + 1) (toSize (s.token (i + 1)).start)) := by
  have hfind : (List.finRange size).find? (fun k => decide (name k = e.name)) = none := by
    rw [List.find?_eq_none]
    intro k _
    rw [decide_eq_true_eq]
    exact hname k
  have hskip : run (textDecoder o) (decode .skip) (s.seek i q) = _ := skip_seek hs
  unfold decodeMember decodeByKey
  rw [hid, hkey]
  dsimp only
  unfold switchDecode
  rw [hfind, run_bind, run_pure]
  dsimp only
  rw [if_neg Bool.false_ne_true, run_bind, hskip]
  rfl

/-- **A round of the loop: the entry is ignored, or read into its member.** -/
theorem run_decodeMapRound_entry (hs : s.parser.tokens ≠ []) (hid : key.id = none)
    (htokens : s.HasTokens i e.tokens) (hes : TextEntry.EntriesRead o name member s i r (e :: es)) :
    ∃ q', run (textDecoder o) (decodeMapRound (decodeMember id name member) (key, r)) (s.seek i q) =
        (.inl ({ key with name := some e.name }, e.store r), s.seek (i + e.tokens.length) q') ∧
      (es = [] → (s.textAt q').headD 0 = 0x7D) := by
  obtain ⟨⟨⟨rest, htext⟩, hposition⟩, hignored, hread, -⟩ := hes
  have hkey : run (textDecoder o) (decodeKey key) (s.seek i q) = _ :=
    decodeKey_seek (o := o) key hs (HasTokens.left htokens) htext hposition
  have hcallback : ∃ q', run (textDecoder o) (decodeMember id name member r { key with name := some e.name })
      (s.seek (i + 1) (e.position + 1)) = ((true, e.store r), s.seek (i + e.tokens.length) q') ∧
        (es = [] → (s.textAt q').headD 0 = 0x7D) := by
    rw [length_tokens, ← Nat.add_assoc]
    unfold TextEntry.store
    cases htarget : e.target with
    | none =>
      obtain ⟨hname, hone, hne⟩ := hignored htarget
      rw [hone]
      exact ⟨_, decodeMember_unknown hs hid rfl hname, fun h => absurd h hne⟩
    | some t =>
      obtain ⟨j, v⟩ := t
      obtain ⟨hfind, hrun⟩ := hread j v htarget
      obtain ⟨q', hrun, hend⟩ := hrun (e.position + 1)
      refine ⟨q', ?_, hend⟩
      rw [decodeMember_found (textDecoder o) r { key with name := some e.name } hid rfl hfind, hrun]
      rfl
  obtain ⟨q', hrun, hend⟩ := hcallback
  refine ⟨q', ?_, hend⟩
  unfold decodeMapRound
  rw [run_bind, hkey]
  dsimp only
  rw [if_pos rfl, run_bind, hrun]
  rfl

/-- The loop on the entries of a map. -/
theorem run_decodeMapLoop_entries (key : Key) (hs : s.parser.tokens ≠ []) {n : ℕ} (hn : es.length < n)
    (hid : key.id = none)
    (htokens : s.HasTokens i (es.flatMap TextEntry.tokens)) (hes : TextEntry.EntriesRead o name member s i r es)
    (hclose : es = [] → (s.textAt q).headD 0 = 0x7D)
    (hend : ¬ s.KeyAt (i + (es.flatMap TextEntry.tokens).length)) :
    ∃ q', run (textDecoder o) (decodeMapLoop (decodeMember id name member) n key r) (s.seek i q) =
      ((true, TextEntry.storeAll r es), s.seek (i + (es.flatMap TextEntry.tokens).length) q') := by
  induction es generalizing i q r key n with
  | nil =>
    obtain ⟨n, rfl⟩ : ∃ m, n = m + 1 := ⟨n - 1, by omega⟩
    have hkey : ¬ s.KeyAt i := hend
    have hstop : stop 0x7D (s.seek i q) = (true, s.seek i (q + 1)) := if_pos (hclose rfl)
    refine ⟨q + 1, ?_⟩
    rw [run_decodeMapLoop_end _ n key r hs hkey, hstop]
    rfl
  | cons e es ih =>
    obtain ⟨n, rfl⟩ : ∃ m, n = m + 1 := ⟨n - 1, by omega⟩
    rw [List.flatMap_cons] at htokens
    rw [List.flatMap_cons, List.length_append, ← Nat.add_assoc] at hend ⊢
    obtain ⟨q', hround, hclose'⟩ := run_decodeMapRound_entry hs hid htokens.left hes
    obtain ⟨q'', hrun⟩ := ih { key with name := some e.name } (Nat.lt_of_succ_lt_succ hn) hid
      htokens.right hes.2.2.2 hclose' hend
    refine ⟨q'', ?_⟩
    rw [run_decodeMapLoop_of_round hround]
    exact hrun

/-- **A structure is decoded from a map whose entries are read or ignored**, and has stored what was read. No key may
come behind the map, since the loop goes on as long as it decodes one. -/
theorem run_decodeRecord_entries (hs : s.parser.tokens ≠ []) {p : ℕ} {stop : ℤ} (hmap : s.token i = ⟨.object, p, stop⟩)
    (hp : p + 1 ≤ sizeMax) (hlength : es.length < sizeMax)
    (htokens : s.HasTokens (i + 1) (es.flatMap TextEntry.tokens))
    (hes : TextEntry.EntriesRead o name member s (i + 1) r es)
    (hclose : es = [] → (s.textAt (p + 1)).headD 0 = 0x7D)
    (hend : ¬ s.KeyAt (i + 1 + (es.flatMap TextEntry.tokens).length)) :
    ∃ q', run (textDecoder o) (decodeRecord id name member r) (s.seek i q) =
      ((true, TextEntry.storeAll r es), s.seek (i + 1 + (es.flatMap TextEntry.tokens).length) q') := by
  have hstart : run (textDecoder o) (decode .mapStart) (s.seek i q) = (true, s.seek (i + 1) (p + 1)) :=
    start_seek (.inr rfl) hs hmap hp
  obtain ⟨q', hrun⟩ := run_decodeMapLoop_entries {} hs hlength rfl htokens hes hclose hend
  refine ⟨q', ?_⟩
  unfold decodeRecord decodeMap
  rw [run_bind, hstart]
  exact hrun

end Rounds

/-! ## Values that are skipped -/

/-- The decoder has the tokens of a document. -/
theorem hasTokens_of_drop {s : TextDecoderState} {i : ℕ} {ts ts' : List JsmnTok}
    (h : s.parser.tokens.drop i = ts ++ ts') : s.HasTokens i ts := by
  intro k t hk
  have hget : s.parser.tokens[i + k]? = some t := by
    rw [← List.getElem?_drop, h, List.getElem?_append_left (List.getElem?_eq_some_iff.1 hk).1, hk]
  unfold token
  rw [List.getD_eq_getElem?_getD, hget]
  rfl

/-- The document `{"u":1,"b":7}`. -/
def skippedNumber : TokenTree :=
  .container ⟨.object, 0, 13⟩ 4
    ![.scalar ⟨.string, 2, 3⟩, .scalar ⟨.primitive, 5, 6⟩, .scalar ⟨.string, 8, 9⟩, .scalar ⟨.primitive, 11, 12⟩]

/-- The document `{"a":[1],"b":7}`. -/
def skippedList : TokenTree :=
  .container ⟨.object, 0, 15⟩ 4
    ![.scalar ⟨.string, 2, 3⟩, .container ⟨.array, 5, 8⟩ 1 ![.scalar ⟨.primitive, 6, 7⟩],
      .scalar ⟨.string, 10, 11⟩, .scalar ⟨.primitive, 13, 14⟩]

end ThingSet
