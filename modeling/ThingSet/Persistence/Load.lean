import Mathlib.Data.List.ReduceOption
import ThingSet.Eeprom.Decoder
import ThingSet.Persistence.Save

/-!
# Loading from an EEPROM

`ThingSetPersistence::load` decodes the entries of the map into the nodes while it reads them, and compares
the checksum afterwards.

* `run_decodeMapById_map`: a callback that works on the image of what another works on.
* `EntriesLoad`, `FailsAt`: entries that are loaded, and where loading fails: a key that is not decoded, an unknown id,
  a value that is not decoded, the end of the map, the checksum.
* `load_keeps_iff`: when `load` returns false, the nodes keep their values exactly if the content is empty, of
  another version or does not fail, or what is stored last into every node before it fails is what the node had.
-/

namespace ThingSet

open Interaction Prog

/-! ## Maps with ids as keys -/

section MapById

variable {γ γ' : Type} (callback : γ → ℕ → Decoding (Bool × γ))

/-- One round of the loop of `decodeMap<uint16_t>`. -/
def decodeMapByIdRound (c : γ) : Decoding (γ ⊕ (Bool × γ)) := do
  let inMap ← decode .isInMap
  if inMap then
    match ← decode (.uint .w16) with
    | none => pure (.inr (false, c))
    | some key =>
      let (ok, c) ← callback c key
      if ok then pure (.inl c) else pure (.inr (false, c))
  else
    let ended ← decode .mapEnd
    pure (.inr (ended, c))

/-- `ThingSetDecoder::decodeMap<uint16_t>`. The number of its rounds is bounded like that of
`decodeMap`. -/
def decodeMapById (c : γ) : Decoding (Bool × γ) := do
  let started ← decode .mapStart
  if started then
    repeatUntil (fun c : γ => (false, c)) (decodeMapByIdRound callback) sizeMax c
  else pure (false, c)

variable {callback} {callback' : γ' → ℕ → Decoding (Bool × γ')} {f : γ' → γ} {σ : Type} {h : Decoder σ}

/-- A callback that works on the image of what another works on. -/
theorem run_decodeMapById_map
    (hf : ∀ c key s, run h (callback (f c) key) s =
      ((run h (callback' c key) s).1.map id f, (run h (callback' c key) s).2)) (c : γ') (s : σ) :
    run h (decodeMapById callback (f c)) s =
      ((run h (decodeMapById callback' c) s).1.map id f, (run h (decodeMapById callback' c) s).2) := by
  have hround : ∀ c s, run h (decodeMapByIdRound callback (f c)) s =
      ((run h (decodeMapByIdRound callback' c) s).1.map f (Prod.map id f),
        (run h (decodeMapByIdRound callback' c) s).2) := by
    intro c s
    simp only [decodeMapByIdRound, run_bind]
    rcases run h (decode .isInMap) s with ⟨inMap, s⟩
    cases inMap with
    | false => rfl
    | true =>
      simp only [if_true, run_bind]
      rcases run h (decode (.uint .w16)) s with ⟨key, s⟩
      cases key with
      | none => rfl
      | some key =>
        simp only [run_bind, hf]
        rcases run h (callback' c key) s with ⟨⟨ok, c'⟩, s⟩
        cases ok <;> rfl
  have hloop : ∀ n c s, run h (repeatUntil (fun c : γ => (false, c)) (decodeMapByIdRound callback) n (f c)) s =
      ((run h (repeatUntil (fun c : γ' => (false, c)) (decodeMapByIdRound callback') n c) s).1.map id f,
        (run h (repeatUntil (fun c : γ' => (false, c)) (decodeMapByIdRound callback') n c) s).2) := by
    intro n
    induction n with
    | zero => exact fun c s => rfl
    | succ n ih =>
      intro c s
      rw [run_repeatUntil_succ, run_repeatUntil_succ, hround]
      rcases run h (decodeMapByIdRound callback' c) s with ⟨c' | r, s'⟩
      · exact ih c' s'
      · rfl
  rw [decodeMapById, decodeMapById, run_bind, run_bind]
  split
  · exact hloop sizeMax c _
  · rfl

end MapById

/-! ## What is decoded into a node -/

/-- A value that is stored: that of a property, or the elements of a record array. -/
inductive Store (ι V : Type)
  | value (n : ι) (v : V)
  | elements (n : ι) (e : ℕ → V)

section

variable {ι V A : Type} [DecidableEq ι]

/-- The world with a value stored. -/
def World.store (w : World ι V A) : Store ι V → World ι V A
  | .value n v => w.setValue n v
  | .elements n e => w.setElements n e

/-- `ThingSetDecodable::decode` of a node, with what it stores. -/
def Registry.decodeStore (R : Registry ι V A) (w : World ι V A) (n : ι) :
    Decoding (Bool × Option (Store ι V)) :=
  match (R.node n).kind with
  | .property codec => do
    let d ← codec.decode (w.values n)
    pure (d.ok, d.stored.map (.value n))
  | .recordArray element size _ => do
    let (ok, a) ← decodeArray element.decode size ⟨w.elements n, []⟩
    pure (ok, some (.elements n a.value))
  | _ => pure (false, none)

namespace ThingSetPersistence

variable (P : ThingSetPersistence ι V A) {δ : Type} (E : Eeprom δ) (Z : ZcborDecode)

/-- The callback of `load`. -/
def loadEntry (w : World ι V A) (id : ℕ) : Decoding (Bool × World ι V A) :=
  match P.registry.findById id with
  | none => pure (false, w)
  | some n =>
    if (P.registry.node n).kind.tryCastTo .decodable then P.registry.decodeNode w n
    else pure (false, w)

/-- `load`, with the window of the decoder before it is filled. -/
def load (w : World ι V A) (device : δ) (buffer : Bytes) : Bool × World ι V A :=
  let s := E.newDecoder device 0 buffer
  if s.isEmpty then (false, w)
  else if s.header.version ≠ E.version then (false, w)
  else
    let ((ok, w), s) := run (E.streamingDecoder Z) (decodeMapById P.loadEntry w) s
    (ok && s.verify, w)

/-! ## The entries of the content -/

section Entries

variable {σ : Type} (h : Decoder σ) (verify : σ → Bool)

/-- The node that a value is loaded into. -/
def loadTarget (id : ℕ) : Option ι :=
  (P.registry.findById id).filter fun n => (P.registry.node n).kind.tryCastTo .decodable

/-- The decoder is at an entry with the id of the decodable node `n`, and at `d'` before its value. -/
def ValueAt (d : σ) (n : ι) (d' : σ) : Prop :=
  (h .isInMap d).1 = true ∧ ∃ id, h (.uint .w16) (h .isInMap d).2 = (some id, d') ∧ P.loadTarget id = some n

/-- An entry is loaded: its value is decoded into the node with its id, which gets `store`. -/
def EntryLoads (w : World ι V A) (d : σ) (store : Option (Store ι V)) (d' : σ) : Prop :=
  ∃ n d₁, P.ValueAt h d n d₁ ∧ run h (P.registry.decodeStore w n) d₁ = ((true, store), d')

/-- Entries are loaded one after the other. -/
def EntriesLoad : List (Option (Store ι V)) → World ι V A → σ → World ι V A → σ → Prop
  | [], w, d, w', d' => w' = w ∧ d' = d
  | store :: stores, w, d, w', d' =>
    ∃ d₁, P.EntryLoads h w d store d₁ ∧ EntriesLoad stores (store.toList.foldl World.store w) d₁ w' d'

/-- The key of an entry is not decoded. -/
def BadKey (d : σ) : Prop := (h .isInMap d).1 = true ∧ (h (.uint .w16) (h .isInMap d).2).1 = none

/-- The key of an entry is not the id of a decodable node. -/
def UnknownId (d : σ) : Prop :=
  (h .isInMap d).1 = true ∧ ∃ id ∈ (h (.uint .w16) (h .isInMap d).2).1, P.loadTarget id = none

/-- The value of an entry is not decoded into the node with its id, which may have got `store`. -/
def Undecodable (w : World ι V A) (d : σ) (store : Option (Store ι V)) : Prop :=
  ∃ n d₁, P.ValueAt h d n d₁ ∧ (run h (P.registry.decodeStore w n) d₁).1 = (false, store)

/-- The map does not end behind its entries. -/
def NoEnd (d : σ) : Prop := (h .isInMap d).1 = false ∧ (h .mapEnd (h .isInMap d).2).1 = false

/-- The map ends, and its checksum is not that of the header. -/
def BadChecksum (d : σ) : Prop :=
  (h .isInMap d).1 = false ∧ (h .mapEnd (h .isInMap d).2).1 = true ∧ verify (h .mapEnd (h .isInMap d).2).2 = false

/-- Loading fails here, with `store` in the node of the entry. -/
inductive FailsAt (w : World ι V A) (d : σ) : Option (Store ι V) → Prop
  | badKey : BadKey h d → FailsAt w d none
  | unknownId : P.UnknownId h d → FailsAt w d none
  | undecodable {store : Option (Store ι V)} : P.Undecodable h w d store → FailsAt w d store
  | noEnd : NoEnd h d → FailsAt w d none
  | badChecksum : BadChecksum h verify d → FailsAt w d none

/-- Behind fewer than `m` entries that are loaded loading fails, or there are `m` of them. -/
def FailsBehind (m : ℕ) (entries : List (Option (Store ι V))) (w : World ι V A) (d : σ) (store : Option (Store ι V)) :
    Prop :=
  entries.length < m ∧ P.FailsAt h verify w d store ∨ entries.length = m ∧ store = none

/-- Loading fails after the values `stores` have been stored. -/
def FailsAfter (w : World ι V A) (d : σ) (stores : List (Store ι V)) : Prop :=
  (h .mapStart d).1 = true ∧ ∃ entries w' d' store, P.EntriesLoad h entries w (h .mapStart d).2 w' d' ∧
    P.FailsBehind h verify sizeMax entries w' d' store ∧ stores = (entries ++ [store]).reduceOption

end Entries

/-! ## What `load` stores -/

/-- The value of a property that is stored last. -/
def lastValue (n : ι) (stores : List (Store ι V)) : Option V :=
  (stores.filterMap fun
    | .value m v => if m = n then some v else none
    | .elements _ _ => none).getLast?

/-- The elements of a record array that are stored last. -/
def lastElements (n : ι) (stores : List (Store ι V)) : Option (ℕ → V) :=
  (stores.filterMap fun
    | .value _ _ => none
    | .elements m e => if m = n then some e else none).getLast?

/-- The number of elements of a node. -/
def sizeOf (n : ι) : ℕ :=
  match (P.registry.node n).kind with
  | .recordArray _ size _ => size
  | _ => 0

/-- Every node has the value that it had. -/
structure Keeps (w w' : World ι V A) : Prop where
  values : ∀ n, w'.values n = w.values n
  elements : ∀ n, ∀ i < P.sizeOf n, w'.elements n i = w.elements n i

/-- What is stored last into a node is what it has. -/
structure Same (w : World ι V A) (stores : List (Store ι V)) : Prop where
  values : ∀ n, ∀ v ∈ lastValue n stores, v = w.values n
  elements : ∀ n, ∀ e ∈ lastElements n stores, ∀ i < P.sizeOf n, e i = w.elements n i

variable {P E Z} {w w' : World ι V A} {device : δ} {buffer : Bytes} {stores : List (Store ι V)}

theorem values_foldl_store (n : ι) :
    (stores.foldl World.store w).values n = (lastValue n stores).getD (w.values n) := by
  induction stores using List.reverseRecOn with
  | nil => rfl
  | append_singleton stores store ih =>
    rw [lastValue] at ih ⊢
    rw [List.foldl_append, List.filterMap_append]
    cases store with
    | value m v =>
      by_cases hm : m = n
      · subst hm
        simp [World.store, World.setValue]
      · simpa [World.store, World.setValue, hm, Function.update_of_ne (Ne.symm hm)] using ih
    | elements m e => simpa [World.store, World.setElements] using ih

theorem elements_foldl_store (n : ι) :
    (stores.foldl World.store w).elements n = (lastElements n stores).getD (w.elements n) := by
  induction stores using List.reverseRecOn with
  | nil => rfl
  | append_singleton stores store ih =>
    rw [lastElements] at ih ⊢
    rw [List.foldl_append, List.filterMap_append]
    cases store with
    | value m v => simpa [World.store, World.setValue] using ih
    | elements m e =>
      by_cases hm : m = n
      · subst hm
        simp [World.store, World.setElements]
      · simpa [World.store, World.setElements, hm, Function.update_of_ne (Ne.symm hm)] using ih

/-- The nodes keep what they have exactly if what is stored last is what they have. -/
theorem keeps_iff_same : P.Keeps w (stores.foldl World.store w) ↔ P.Same w stores := by
  constructor
  · rintro ⟨hvalues, helements⟩
    refine ⟨fun n v hv => ?_, fun n e he i hi => ?_⟩
    · rw [← hvalues n, values_foldl_store, hv]
      rfl
    · rw [← helements n i hi, elements_foldl_store, he]
      rfl
  · rintro ⟨hvalues, helements⟩
    refine ⟨fun n => ?_, fun n i hi => ?_⟩
    · rw [values_foldl_store]
      cases hlast : lastValue n stores with
      | none => rfl
      | some v => exact hvalues n v hlast
    · rw [elements_foldl_store]
      cases hlast : lastElements n stores with
      | none => rfl
      | some e => exact helements n e hlast i hi

section Run

variable {σ : Type} {h : Decoder σ} {verify : σ → Bool} {d d' : σ} {store : Option (Store ι V)} {m : ℕ}
  {entries : List (Option (Store ι V))}

/-- What is decoded into a node is stored. -/
theorem run_decodeNode (R : Registry ι V A) (n : ι) :
    run h (R.decodeNode w n) d =
      (((run h (R.decodeStore w n) d).1.1, (run h (R.decodeStore w n) d).1.2.toList.foldl World.store w),
        (run h (R.decodeStore w n) d).2) := by
  cases hkind : (R.node n).kind with
  | property codec =>
    simp only [Registry.decodeNode, Registry.decodeStore, hkind, run_bind, run_pure]
    rcases run h (codec.decode (w.values n)) d with ⟨⟨ok, stored⟩, d'⟩
    cases stored with
    | none =>
      simp only [Decoded.value, Option.getD_none, Option.map_none, Option.toList_none, List.foldl_nil]
      rw [World.setValue, Function.update_eq_self]
    | some v => rfl
  | recordArray element size _ => simp only [Registry.decodeNode, Registry.decodeStore, hkind, run_bind, run_pure]; rfl
  | _ => simp only [Registry.decodeNode, Registry.decodeStore, hkind, run_pure]; rfl

theorem run_loadEntry (id : ℕ) :
    run h (P.loadEntry w id) d =
      (P.loadTarget id).elim ((false, w), d) fun n => run h (P.registry.decodeNode w n) d := by
  rw [loadEntry, loadTarget]
  cases P.registry.findById id with
  | none => rfl
  | some n =>
    dsimp only
    rw [Option.filter_some]
    split <;> rfl

theorem run_round_of_valueAt {n : ι} {d₁ : σ} (hvalue : P.ValueAt h d n d₁) :
    let r := run h (P.registry.decodeStore w n) d₁
    run h (decodeMapByIdRound P.loadEntry w) d =
      (if r.1.1 then .inl (r.1.2.toList.foldl World.store w) else .inr (false, r.1.2.toList.foldl World.store w),
        r.2) := by
  intro r
  obtain ⟨hinMap, id, hkey, htarget⟩ := hvalue
  have hrun : run h (decode .isInMap) d = (true, (h .isInMap d).2) := Prod.ext hinMap rfl
  have hrun' : run h (decode (.uint .w16)) (h .isInMap d).2 = (some id, d₁) := hkey
  have hr : run h (P.registry.decodeStore w n) d₁ = r := rfl
  rw [decodeMapByIdRound, run_bind, hrun]
  dsimp only
  rw [if_pos rfl, run_bind, hrun']
  dsimp only
  rw [run_bind, run_loadEntry, htarget, Option.elim_some, run_decodeNode, hr]
  dsimp only
  cases r.1.1 <;> rfl

/-- A round at an entry that is loaded. -/
theorem run_round_of_entryLoads (hentry : P.EntryLoads h w d store d') :
    run h (decodeMapByIdRound P.loadEntry w) d = (.inl (store.toList.foldl World.store w), d') := by
  obtain ⟨n, d₁, hvalue, hdecode⟩ := hentry
  rw [run_round_of_valueAt hvalue, hdecode]
  rfl

/-- A round where loading fails. -/
theorem run_round_of_failsAt (hfails : P.FailsAt h verify w d store) :
    ∃ ok, (run h (decodeMapByIdRound P.loadEntry w) d).1 = .inr (ok, store.toList.foldl World.store w) ∧
      (ok && verify (run h (decodeMapByIdRound P.loadEntry w) d).2) = false := by
  have hin (hinMap : (h .isInMap d).1 = true) : run h (decode .isInMap) d = (true, (h .isInMap d).2) :=
    Prod.ext hinMap rfl
  have hout (hinMap : (h .isInMap d).1 = false) :
      run h (decodeMapByIdRound P.loadEntry w) d =
        (.inr ((h .mapEnd (h .isInMap d).2).1, w), (h .mapEnd (h .isInMap d).2).2) := by
    have hrun : run h (decode .isInMap) d = (false, (h .isInMap d).2) := Prod.ext hinMap rfl
    rw [decodeMapByIdRound, run_bind, hrun]
    dsimp only
    rw [if_neg Bool.false_ne_true, run_bind]
    rfl
  cases hfails with
  | badKey hbad =>
    obtain ⟨hinMap, hkey⟩ := hbad
    have hrun : run h (decode (.uint .w16)) (h .isInMap d).2 = (none, (h (.uint .w16) (h .isInMap d).2).2) :=
      Prod.ext hkey rfl
    refine ⟨false, ?_, Bool.false_and _⟩
    rw [decodeMapByIdRound, run_bind, hin hinMap]
    dsimp only
    rw [if_pos rfl, run_bind, hrun]
    rfl
  | unknownId hunknown =>
    obtain ⟨hinMap, id, hid, htarget⟩ := hunknown
    have hrun : run h (decode (.uint .w16)) (h .isInMap d).2 = (some id, (h (.uint .w16) (h .isInMap d).2).2) :=
      Prod.ext hid rfl
    refine ⟨false, ?_, Bool.false_and _⟩
    rw [decodeMapByIdRound, run_bind, hin hinMap]
    dsimp only
    rw [if_pos rfl, run_bind, hrun]
    dsimp only
    rw [run_bind, run_loadEntry, htarget]
    rfl
  | undecodable hvalue =>
    obtain ⟨n, d₁, hvalue, hdecode⟩ := hvalue
    refine ⟨false, ?_, Bool.false_and _⟩
    rw [run_round_of_valueAt hvalue, hdecode]
    rfl
  | noEnd hend =>
    rw [hout hend.1, hend.2]
    exact ⟨false, rfl, Bool.false_and _⟩
  | badChecksum hend =>
    rw [hout hend.1, hend.2.1]
    exact ⟨true, rfl, hend.2.2⟩

/-- At the end of a map that is intact. -/
theorem run_round_of_end (hend : (h .isInMap d).1 = false ∧ (h .mapEnd (h .isInMap d).2).1 = true ∧
    verify (h .mapEnd (h .isInMap d).2).2 = true) :
    (run h (decodeMapByIdRound P.loadEntry w) d).1 = .inr (true, w) ∧
      verify (run h (decodeMapByIdRound P.loadEntry w) d).2 = true := by
  obtain ⟨hinMap, hmapEnd, hverify⟩ := hend
  have hrun : run h (decode .isInMap) d = (false, (h .isInMap d).2) := Prod.ext hinMap rfl
  have hrun' : run h (decode .mapEnd) (h .isInMap d).2 = (true, (h .mapEnd (h .isInMap d).2).2) := Prod.ext hmapEnd rfl
  rw [decodeMapByIdRound, run_bind, hrun]
  dsimp only
  rw [if_neg Bool.false_ne_true, run_bind, hrun']
  exact ⟨rfl, hverify⟩

variable (P h verify w d) in
omit [DecidableEq ι] in
/-- What a decoder is at: an entry that is loaded, something that fails, or the end of an intact map. -/
theorem round_cases : (∃ store d', P.EntryLoads h w d store d') ∨ (∃ store, P.FailsAt h verify w d store) ∨
    ((h .isInMap d).1 = false ∧ (h .mapEnd (h .isInMap d).2).1 = true ∧
      verify (h .mapEnd (h .isInMap d).2).2 = true) := by
  cases hinMap : (h .isInMap d).1 with
  | false =>
    refine .inr ?_
    cases hmapEnd : (h .mapEnd (h .isInMap d).2).1 with
    | false => exact .inl ⟨none, .noEnd ⟨hinMap, hmapEnd⟩⟩
    | true =>
      cases hverify : verify (h .mapEnd (h .isInMap d).2).2 with
      | false => exact .inl ⟨none, .badChecksum ⟨hinMap, hmapEnd, hverify⟩⟩
      | true => exact .inr ⟨rfl, rfl, rfl⟩
  | true =>
    rcases hkey : h (.uint .w16) (h .isInMap d).2 with ⟨_ | id, d₁⟩
    · exact .inr (.inl ⟨none, .badKey ⟨hinMap, congrArg Prod.fst hkey⟩⟩)
    cases htarget : P.loadTarget id with
    | none => exact .inr (.inl ⟨none, .unknownId ⟨hinMap, id, congrArg Prod.fst hkey, htarget⟩⟩)
    | some n =>
      have hvalue : P.ValueAt h d n d₁ := ⟨hinMap, id, hkey, htarget⟩
      rcases hdecode : run h (P.registry.decodeStore w n) d₁ with ⟨⟨_ | _, store⟩, d'⟩
      · exact .inr (.inl ⟨store, .undecodable ⟨n, d₁, hvalue, congrArg Prod.fst hdecode⟩⟩)
      · exact .inl ⟨store, d', n, d₁, hvalue, hdecode⟩

/-- The loop stores what the entries have up to the failure. -/
theorem run_loadLoop_of_fails (hentries : P.EntriesLoad h entries w d w' d')
    (hfails : P.FailsBehind h verify m entries w' d' store) :
    let r := run h (repeatUntil (fun w => (false, w)) (decodeMapByIdRound P.loadEntry) m w) d
    (r.1.1 && verify r.2) = false ∧ r.1.2 = (entries ++ [store]).reduceOption.foldl World.store w := by
  induction entries generalizing m w d with
  | nil =>
    obtain ⟨rfl, rfl⟩ := hentries
    rcases hfails with ⟨hm, hfails⟩ | ⟨rfl, rfl⟩
    · obtain ⟨m, rfl⟩ := Nat.exists_eq_succ_of_ne_zero hm.ne'
      obtain ⟨ok, hround, hverify⟩ := run_round_of_failsAt hfails
      rw [run_repeatUntil_succ]
      rcases hrun : run h (decodeMapByIdRound P.loadEntry w') d' with ⟨r, s⟩
      rw [hrun] at hround hverify
      obtain rfl : r = _ := hround
      refine ⟨hverify, ?_⟩
      cases store <;> rfl
    · exact ⟨Bool.false_and _, rfl⟩
  | cons store' entries ih =>
    obtain ⟨d₁, hentry, hentries⟩ := hentries
    obtain ⟨m, rfl⟩ : ∃ k, m = k + 1 := by
      refine ⟨m - 1, ?_⟩
      rcases hfails with ⟨hm, -⟩ | ⟨rfl, -⟩
      · rw [List.length_cons] at hm
        omega
      · rfl
    rw [run_repeatUntil_succ, run_round_of_entryLoads hentry]
    obtain ⟨hok, hworld⟩ := ih hentries
      (hfails.imp (And.imp_left Nat.lt_of_succ_lt_succ) (And.imp_left Nat.succ.inj))
    refine ⟨hok, hworld.trans ?_⟩
    cases store' <;> rfl

/-- The loop does not succeed unless something fails. -/
theorem exists_fails_of_run_loadLoop
    (hok : ((run h (repeatUntil (fun w => (false, w)) (decodeMapByIdRound P.loadEntry) m w) d).1.1 &&
      verify (run h (repeatUntil (fun w => (false, w)) (decodeMapByIdRound P.loadEntry) m w) d).2) = false) :
    ∃ entries w' d' store, P.EntriesLoad h entries w d w' d' ∧ P.FailsBehind h verify m entries w' d' store := by
  induction m generalizing w d with
  | zero => exact ⟨[], w, d, none, ⟨rfl, rfl⟩, .inr ⟨rfl, rfl⟩⟩
  | succ m ih =>
    rw [run_repeatUntil_succ] at hok
    rcases round_cases P w h verify d with ⟨store, d₁, hentry⟩ | ⟨store, hfails⟩ | hend
    · rw [run_round_of_entryLoads hentry] at hok
      obtain ⟨entries, w', d', store', hentries, hfails⟩ := ih hok
      exact ⟨store :: entries, w', d', store', ⟨d₁, hentry, hentries⟩,
        hfails.imp (And.imp_left Nat.succ_lt_succ) (And.imp_left (congrArg Nat.succ))⟩
    · exact ⟨[], w, d, store, ⟨rfl, rfl⟩, .inl ⟨m.succ_pos, hfails⟩⟩
    · obtain ⟨hround, hverify⟩ := run_round_of_end (w := w) (P := P) hend
      rcases hrun : run h (decodeMapByIdRound P.loadEntry w) d with ⟨r, s⟩
      rw [hrun] at hround hverify hok
      obtain rfl : r = _ := hround
      exact absurd (hok.symm.trans hverify) Bool.false_ne_true

theorem run_decodeMapById_of_start {γ : Type} {callback : γ → ℕ → Decoding (Bool × γ)} {c : γ} {ok : Bool}
    (hstart : (h .mapStart d).1 = ok) :
    run h (decodeMapById callback c) d =
      if ok then run h (repeatUntil (fun c : γ => (false, c)) (decodeMapByIdRound callback) sizeMax c) (h .mapStart d).2
      else ((false, c), (h .mapStart d).2) := by
  have hrun : run h (decode .mapStart) d = (ok, (h .mapStart d).2) := Prod.ext hstart rfl
  rw [decodeMapById, run_bind, hrun]
  cases ok <;> rfl

end Run

variable (P E Z w device buffer)

/-- If `load` returns false, the nodes have what they had. -/
def KeepsOnFailure : Prop :=
  (P.load E Z w device buffer).1 = false → P.Keeps w (P.load E Z w device buffer).2

/-- The header is that of an EEPROM without content, or it has another version. -/
def Refused : Prop :=
  (E.newDecoder device 0 buffer).isEmpty = true ∨ (E.newDecoder device 0 buffer).header.version ≠ E.version

/-- The content fails after the values `stores` have been stored. -/
def ContentFails (stores : List (Store ι V)) : Prop :=
  P.FailsAfter (E.streamingDecoder Z) (·.verify) w (E.newDecoder device 0 buffer) stores

variable {P E Z w device buffer}

theorem load_of_refused (h : Refused E device buffer) : P.load E Z w device buffer = (false, w) := by
  unfold load
  dsimp only
  rcases h with hempty | hversion
  · rw [if_pos hempty]
  · rw [if_pos hversion, ite_self]

theorem load_of_not_refused (h : ¬ Refused E device buffer) :
    P.load E Z w device buffer =
      let r := run (E.streamingDecoder Z) (decodeMapById P.loadEntry w) (E.newDecoder device 0 buffer)
      (r.1.1 && r.2.verify, r.1.2) := by
  unfold load
  dsimp only
  rw [if_neg fun hempty => h (.inl hempty), if_neg fun hversion => h (.inr hversion)]

/-- What is stored when the content fails. -/
theorem load_of_contentFails (h : ¬ Refused E device buffer) (hfails : P.ContentFails E Z w device buffer stores) :
    P.load E Z w device buffer = (false, stores.foldl World.store w) := by
  obtain ⟨hstart, entries, w', d', store, hentries, hfails, rfl⟩ := hfails
  obtain ⟨hok, hworld⟩ := run_loadLoop_of_fails hentries hfails
  rw [load_of_not_refused h, run_decodeMapById_of_start hstart]
  exact Prod.ext hok hworld

/-- **When a failed `load` keeps what the nodes have**: exactly if the content is refused, or what is stored last into
every node, before the content fails, is what it has. -/
theorem load_keeps_iff :
    P.KeepsOnFailure E Z w device buffer ↔
      Refused E device buffer ∨ ∀ stores, P.ContentFails E Z w device buffer stores → P.Same w stores := by
  constructor
  · intro h
    by_cases hrefused : Refused E device buffer
    · exact .inl hrefused
    · refine .inr fun stores hfails => ?_
      have hload := load_of_contentFails hrefused hfails
      rw [KeepsOnFailure, hload] at h
      exact keeps_iff_same.1 (h rfl)
  · intro h hok
    by_cases hrefused : Refused E device buffer
    · rw [load_of_refused hrefused]
      exact ⟨fun _ => rfl, fun _ _ _ => rfl⟩
    · have hsame := h.resolve_left hrefused
      cases hstart : (E.streamingDecoder Z .mapStart (E.newDecoder device 0 buffer)).1 with
      | false =>
        rw [load_of_not_refused hrefused, run_decodeMapById_of_start hstart]
        exact ⟨fun _ => rfl, fun _ _ _ => rfl⟩
      | true =>
        rw [load_of_not_refused hrefused, run_decodeMapById_of_start hstart] at hok
        obtain ⟨entries, w', d', store, hentries, hfails⟩ := exists_fails_of_run_loadLoop hok
        have hcontent : P.ContentFails E Z w device buffer (entries ++ [store]).reduceOption :=
          ⟨hstart, entries, w', d', store, hentries, hfails, rfl⟩
        rw [load_of_contentFails hrefused hcontent]
        exact keeps_iff_same.2 (hsame _ hcontent)

end ThingSetPersistence

end

/-! ## An EEPROM with another checksum -/

/-- An EEPROM that stores what is written and returns what it stores. -/
def memoryDriver : EepromDriver Bytes where
  write offset payload memory := (0, memcpy memory offset payload payload.length)
  read offset n memory := ((0, (memory.drop offset).take n), memory)

/-- An EEPROM with chunks of 16 bytes. -/
def memoryEeprom : Eeprom Bytes where
  driver := memoryDriver
  crc32 := crc32IeeeUpdate
  chunk := 16
  chunk_pos := by decide
  attempts := 3
  version := 1

/-- The header and the content `{0x22: 7}`, where the header has 0 as the checksum. -/
def otherChecksum : Bytes := EepromHeader.bytes ⟨1, 4, 0⟩ ++ [0xA1, 0x18, 0x22, 0x07]

/-- `load` returns false, with the property `a` set to what the content has for it. -/
theorem otherChecksum_not_keeps :
    ¬ persistedProperty.KeepsOnFailure memoryEeprom zcborReference
        ⟨fun _ => 0, fun _ _ => 0, fun _ => [], ()⟩ otherChecksum (List.replicate 32 0) := by
  intro h
  exact absurd ((h (by decide +kernel)).values .a) (by decide +kernel)

end ThingSet
