import ThingSet.BinaryDecoder
import ThingSet.Zcbor.Reference

/-!
# The keys of a map

`decodeMap` hands the id and the name of each key to a callback. The two variables live outside the loop, and
`decodeKey` sets one of them.

* `IsMap`: where the entries of a map are, for a decoder.
* `mapCalls_iff`: the callback is invoked with the key of each entry and nothing else, when the keys up to the first
  entry that it refuses are all integers or all strings, and not otherwise.
-/

namespace ThingSet

open Interaction Prog

/-- The key of an entry: an unsigned integer or a string. -/
inductive MapKey
  | id (i : ℕ)
  | name (n : Bytes)
  deriving DecidableEq, Repr

/-- What stands for the key: one of the variables is set, and the other is empty. -/
def MapKey.key : MapKey → Key
  | id i => { id := some i }
  | name n => { name := some n }

/-- An entry: its key, the decoder at its value and the decoder behind it. -/
structure MapEntry (σ : Type) where
  key : MapKey
  value : σ
  behind : σ

variable {σ γ : Type} (h : Decoder σ)

/-- The decoder is at a key, and at `d'` behind it. -/
def KeyAt (d : σ) : MapKey → σ → Prop
  | .id i, d' => h (.uint .w32) d = (some i, d')
  | .name n, d' => (h (.uint .w32) d).1 = none ∧ h .string (h (.uint .w32) d).2 = (some n, d')

instance [DecidableEq σ] (d d' : σ) : (k : MapKey) → Decidable (KeyAt h d k d')
  | .id _ => inferInstanceAs (Decidable (_ = _))
  | .name _ => inferInstanceAs (Decidable (_ ∧ _))

/-- The entries up to the end of a map, where there is no key. -/
def EntriesAt : List (MapEntry σ) → σ → Prop
  | [], d =>
    (h (.uint .w32) d).1 = none ∧ (h .string (h (.uint .w32) d).2).1 = none ∧
      (h .mapEnd (h .string (h (.uint .w32) d).2).2).1 = true
  | e :: es, d => KeyAt h d e.key e.value ∧ EntriesAt es e.behind

instance decidableEntriesAt [DecidableEq σ] : (es : List (MapEntry σ)) → (d : σ) → Decidable (EntriesAt h es d)
  | [], _ => inferInstanceAs (Decidable (_ ∧ _))
  | e :: es, _ =>
    have := decidableEntriesAt es e.behind
    inferInstanceAs (Decidable (_ ∧ _))

/-- The decoder is at a map with these entries. -/
def IsMap (es : List (MapEntry σ)) (d : σ) : Prop :=
  (h .mapStart d).1 = true ∧ es.length < sizeMax ∧ EntriesAt h es (h .mapStart d).2

/-- When the callback returns true it has decoded the value. -/
def DecodesValues (callback : γ → Key → Decoding (Bool × γ)) (es : List (MapEntry σ)) : Prop :=
  ∀ e ∈ es, ∀ c key, (run h (callback c key) e.value).1.1 = true → (run h (callback c key) e.value).2 = e.behind

/-- The keys of the entries, up to the first that the callback refuses. -/
def entryCalls (callback : γ → Key → Decoding (Bool × γ)) : List (MapEntry σ) → γ → List Key
  | [], _ => []
  | e :: es, c =>
    let r := (run h (callback c e.key.key) e.value).1
    e.key.key :: if r.1 then entryCalls callback es r.2 else []

/-- A callback, with the keys that it is invoked with. -/
def loggedCallback (callback : γ → Key → Decoding (Bool × γ)) (c : γ × List Key) (key : Key) :
    Decoding (Bool × (γ × List Key)) := do
  let (ok, env) ← callback c.1 key
  pure (ok, (env, c.2 ++ [key]))

/-- The keys that `decodeMap` invokes a callback with. -/
def mapCalls (callback : γ → Key → Decoding (Bool × γ)) (c : γ) (d : σ) : List Key :=
  (run h (decodeMap (loggedCallback callback) (c, [])) d).1.2.2

variable {h} {callback : γ → Key → Decoding (Bool × γ)} {d d' : σ} {k : MapKey} {e : MapEntry σ}
  {es : List (MapEntry σ)}

/-! ## The variables of the loop -/

theorem run_loggedCallback (c : γ × List Key) (key : Key) :
    run h (loggedCallback callback c key) d =
      (((run h (callback c.1 key) d).1.1, (run h (callback c.1 key) d).1.2, c.2 ++ [key]),
        (run h (callback c.1 key) d).2) := by
  rw [loggedCallback, run_bind]
  rfl

/-- A key is decoded into its variable. -/
theorem run_decodeKey_of_keyAt (hk : KeyAt h d k d') : run h (decodeKey {}) d = ((true, k.key), d') := by
  unfold decodeKey
  cases k with
  | id i =>
    have hid : run h (decode (.uint .w32)) d = (some i, d') := hk
    rw [run_bind, hid]
    rfl
  | name n =>
    have hid : run h (decode (.uint .w32)) d = (none, (h (.uint .w32) d).2) := Prod.ext hk.1 rfl
    have hname : run h (decode .string) (h (.uint .w32) d).2 = (some n, d') := hk.2
    rw [run_bind, hid]
    dsimp only
    rw [run_bind, hname]
    rfl

/-- At the end of a map there is no key, and the end is decoded. -/
theorem decodeKey_of_end (hend : EntriesAt h [] d) :
    (run h (decodeKey {}) d).1.1 = false ∧ (h .mapEnd (run h (decodeKey {}) d).2).1 = true := by
  obtain ⟨hid, hname, hmapEnd⟩ := hend
  have hid : run h (decode (.uint .w32)) d = (none, (h (.uint .w32) d).2) := Prod.ext hid rfl
  have hname : run h (decode .string) (h (.uint .w32) d).2 = (none, (h .string (h (.uint .w32) d).2).2) :=
    Prod.ext hname rfl
  have hrun : run h (decodeKey {}) d = ((false, {}), (h .string (h (.uint .w32) d).2).2) := by
    unfold decodeKey
    rw [run_bind, hid]
    dsimp only
    rw [run_bind, hname]
    rfl
  rw [hrun]
  exact ⟨rfl, hmapEnd⟩

variable (h) in
/-- The keys that the loop invokes the callback with: what an earlier key has set is still there. -/
def loopCalls (callback : γ → Key → Decoding (Bool × γ)) : Key → List (MapEntry σ) → γ → List Key
  | _, [], _ => []
  | key, e :: es, c =>
    let r := (run h (callback c (key.merge e.key.key)) e.value).1
    key.merge e.key.key :: if r.1 then loopCalls callback (key.merge e.key.key) es r.2 else []

/-- The loop, from the variables that earlier keys have left. -/
theorem calls_of_loop {m : ℕ} {key : Key} (hentries : EntriesAt h es d) (hm : es.length < m)
    (hcallback : DecodesValues h callback es) (c : γ) (log : List Key) :
    (run h (decodeMapLoop (loggedCallback callback) m key (c, log)) d).1.2.2 = log ++ loopCalls h callback key es c := by
  induction es generalizing m key d c log with
  | nil =>
    obtain ⟨m, rfl⟩ : ∃ k, m = k + 1 := ⟨m - 1, by omega⟩
    rw [run_decodeMapLoop_of_end _ (decodeKey_of_end hentries).1, loopCalls, List.append_nil]
  | cons e es ih =>
    obtain ⟨m, rfl⟩ : ∃ k, m = k + 1 := ⟨m - 1, by omega⟩
    obtain ⟨hkey, hentries⟩ := hentries
    have hbehind := hcallback e List.mem_cons_self c (key.merge e.key.key)
    rw [run_decodeMapLoop_of_key _ (run_decodeKey_of_keyAt hkey), run_loggedCallback, loopCalls]
    dsimp only
    split
    · rename_i hok
      rw [hbehind hok, ih hentries (Nat.lt_of_succ_lt_succ hm) fun e he => hcallback e (List.mem_cons_of_mem _ he)]
      rw [List.append_assoc]
      rfl
    · rfl

theorem mapCalls_eq (hmap : IsMap h es d) (hcallback : DecodesValues h callback es) (c : γ) :
    mapCalls h callback c d = loopCalls h callback {} es c := by
  obtain ⟨hstart, hlen, hentries⟩ := hmap
  have hstart' : run h (decode .mapStart) d = (true, (h .mapStart d).2) := Prod.ext hstart rfl
  rw [mapCalls, decodeMap, run_bind, hstart']
  dsimp only
  rw [if_pos rfl]
  exact calls_of_loop hentries hlen hcallback c []

/-! ## Keys of one kind -/

/-- A call with the right key, and the calls for the entries behind it. -/
theorem cons_calls_iff {ok : Bool} {key : Key} {calls calls' : List Key} {P : Key → Prop} (hkey : P key)
    (hcalls : calls = calls' ↔ ∀ k ∈ calls', P k) :
    (key :: if ok then calls else []) = (key :: if ok then calls' else []) ↔
      ∀ k ∈ key :: (if ok then calls' else []), P k := by
  rw [List.cons.injEq, List.forall_mem_cons]
  refine and_congr (iff_of_true rfl hkey) ?_
  cases ok with
  | false => exact iff_of_true rfl fun k hk => absurd hk List.not_mem_nil
  | true => exact hcalls

/-- Behind an integer the callback is given the keys of the entries as long as these are integers. -/
theorem loopCalls_of_id (i : ℕ) (c : γ) :
    loopCalls h callback { id := some i } es c = entryCalls h callback es c ↔
      ∀ key ∈ entryCalls h callback es c, key.name = none := by
  induction es generalizing i c with
  | nil => exact iff_of_true rfl fun key hkey => absurd hkey List.not_mem_nil
  | cons e es ih =>
    obtain ⟨k, value, behind⟩ := e
    cases k with
    | id j => exact cons_calls_iff (P := fun key => key.name = none) rfl (ih j _)
    | name n =>
      refine iff_of_false (fun heq => ?_) fun hall => ?_
      · exact absurd (congrArg Key.id (List.cons.inj heq).1) (Option.some_ne_none i)
      · exact absurd (hall _ List.mem_cons_self) (Option.some_ne_none n)

/-- Behind a string, as long as they are strings. -/
theorem loopCalls_of_name (n : Bytes) (c : γ) :
    loopCalls h callback { name := some n } es c = entryCalls h callback es c ↔
      ∀ key ∈ entryCalls h callback es c, key.id = none := by
  induction es generalizing n c with
  | nil => exact iff_of_true rfl fun key hkey => absurd hkey List.not_mem_nil
  | cons e es ih =>
    obtain ⟨k, value, behind⟩ := e
    cases k with
    | name n' => exact cons_calls_iff (P := fun key => key.id = none) rfl (ih n' _)
    | id i =>
      refine iff_of_false (fun heq => ?_) fun hall => ?_
      · exact absurd (congrArg Key.name (List.cons.inj heq).1) (Option.some_ne_none n)
      · exact absurd (hall _ List.mem_cons_self) (Option.some_ne_none i)

/-- **The callback of a map is invoked once for each entry with the key of that entry when the keys, up to the first
entry that it refuses, are all integers or all strings, and not otherwise.** -/
theorem mapCalls_iff (hmap : IsMap h es d) (hcallback : DecodesValues h callback es) (c : γ) :
    mapCalls h callback c d = entryCalls h callback es c ↔
      (∀ key ∈ entryCalls h callback es c, key.name = none) ∨ ∀ key ∈ entryCalls h callback es c, key.id = none := by
  rw [mapCalls_eq hmap hcallback]
  cases es with
  | nil => exact iff_of_true rfl (.inl fun key hkey => absurd hkey List.not_mem_nil)
  | cons e es =>
    obtain ⟨k, value, behind⟩ := e
    cases k with
    | id i =>
      -- the variable for the name is empty as long as there are integers
      have hcalls : loopCalls h callback {} (⟨.id i, value, behind⟩ :: es) c = _ ↔ _ :=
        cons_calls_iff (P := fun key => key.name = none) rfl (loopCalls_of_id i _)
      refine hcalls.trans (or_iff_left fun hall => ?_).symm
      exact absurd (hall _ List.mem_cons_self) (Option.some_ne_none i)
    | name n =>
      have hcalls : loopCalls h callback {} (⟨.name n, value, behind⟩ :: es) c = _ ↔ _ :=
        cons_calls_iff (P := fun key => key.id = none) rfl (loopCalls_of_name n _)
      refine hcalls.trans (or_iff_right fun hall => ?_).symm
      exact absurd (hall _ List.mem_cons_self) (Option.some_ne_none n)

/-! ## Maps of two entries -/

/-- A callback that ignores the values. -/
def skipValue (c : Unit) (_ : Key) : Decoding (Bool × Unit) := do
  let ok ← decode .skip
  pure (ok, c)

/-- The binary decoder, and where it is on the way through a payload. -/
def plainDecoder : Decoder ZcborState := binaryDecoder { zcbor := zcborReference }

/-- The entries of a map of two entries, as far as the decoder comes by itself. -/
def twoEntries (k k' : MapKey) (payload : Bytes) : List (MapEntry ZcborState) :=
  let d₀ := (plainDecoder .mapStart (.alone payload)).2
  let d₁ := (run plainDecoder (decodeKey {}) d₀).2
  let d₂ := (plainDecoder .skip d₁).2
  let d₃ := (run plainDecoder (decodeKey {}) d₂).2
  [⟨k, d₁, d₂⟩, ⟨k', d₃, (plainDecoder .skip d₃).2⟩]

theorem skipValue_decodes (k k' : MapKey) (payload : Bytes) :
    DecodesValues plainDecoder skipValue (twoEntries k k' payload) := by
  intro e he c key _
  rcases List.mem_cons.1 he with rfl | he
  · rfl
  · rw [List.mem_singleton.1 he]
    rfl

/-- The map `A2 01 02 03 04`. -/
theorem mapCalls_numbers :
    mapCalls plainDecoder skipValue () (.alone [0xa2, 1, 2, 3, 4]) = [{ id := some 1 }, { id := some 3 }] := by
  have hmap : IsMap plainDecoder (twoEntries (.id 1) (.id 3) [0xa2, 1, 2, 3, 4]) (.alone [0xa2, 1, 2, 3, 4]) :=
    ⟨by decide +kernel, by decide, by decide +kernel⟩
  exact (mapCalls_iff hmap (skipValue_decodes _ _ _) ()).2 (.inl (by decide +kernel))

/-- In the map `A2 01 02 61 61 03` the callback is given the id of the first entry with the name of the second. -/
theorem mapCalls_mixed :
    ∃ d, IsMap plainDecoder (twoEntries (.id 1) (.name [0x61]) [0xa2, 1, 2, 0x61, 0x61, 3]) d ∧
      DecodesValues plainDecoder skipValue (twoEntries (.id 1) (.name [0x61]) [0xa2, 1, 2, 0x61, 0x61, 3]) ∧
      mapCalls plainDecoder skipValue () d = [{ id := some 1 }, { id := some 1, name := some [0x61] }] ∧
      entryCalls plainDecoder skipValue (twoEntries (.id 1) (.name [0x61]) [0xa2, 1, 2, 0x61, 0x61, 3]) () =
        [{ id := some 1 }, { name := some [0x61] }] := by
  refine ⟨.alone [0xa2, 1, 2, 0x61, 0x61, 3], ⟨by decide +kernel, by decide, by decide +kernel⟩,
    skipValue_decodes _ _ _, by decide +kernel, by decide +kernel⟩

end ThingSet
