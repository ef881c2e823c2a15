import ThingSet.Server.RecordArrays

/-!
# Updates

The response to an update says `changed` before anything has been decoded, and only a failure that
`handleUpdate` notices replaces it. `Entries` is what the status should stand for: the payload is
a map to its end, every key names a node, and a value has been decoded into it (`Writes`).

`changed_iff` says when a response that says `changed` tells the truth: the request is refused, or
an entry fails in a way that is noticed, or the payload is such a map, and no string key follows an
integer key that names another node. That nothing follows the map in the payload is a parameter,
`atEnd`, of what is behind its end. Everything else that can be wrong with the payload leaves the
status at `changed`, and the id of an earlier key is still there when a string key is looked up.
-/

namespace ThingSet

open Interaction Prog

variable {ι V A τ σ : Type}

namespace Server

variable (S : Server ι V A τ) [DecidableEq ι] (h : Decoder σ) (atEnd : σ → Prop) (parent : ι)

/-! ## Entries -/

/-- A value is decoded into `child`: the node may be written, the callback of the parent allows
it, and the value decodes. `w'` is the world afterwards. -/
structure Writes (child : ι) (w : World ι V A) (d : σ) (w' : World ι V A) (d' : σ) : Prop where
  writable : ¬ S.Protected child
  decodable : (S.registry.node child).kind.tryCastTo .decodable = true
  allowed : ((S.registry.node parent).kind.invokeCallback child .willWrite w.app).1 = true
  decoded : ∃ w₁,
    run h (S.registry.decodeNode { w with
      app := ((S.registry.node parent).kind.invokeCallback child .willWrite w.app).2 } child) d =
        ((true, w₁), d') ∧
      w' = { w₁ with
        app := ((S.registry.node parent).kind.invokeCallback child .didWrite w₁.app).2 }

/-- The entries of a map from the decoder `d` on, up to the end of the map: each has a key, the
key names the node in the list, and a value is decoded into that node; behind the map's end the
payload ends. With `stale`, the key variables of the loop, `key` before the first entry, name the
same node. -/
def Entries (stale : Prop) : List ι → Key → World ι V A → σ → World ι V A → Prop
  | [], _, w, d, w' =>
    (run h (decodeKey {}) d).1.1 = false ∧ (h .mapEnd (run h (decodeKey {}) d).2).1 = true ∧
      atEnd (h .mapEnd (run h (decodeKey {}) d).2).2 ∧ w' = w
  | n :: ns, key, w, d, w' =>
    ∃ k d₁ w₁ d₂, run h (decodeKey {}) d = ((true, k), d₁) ∧ S.updatedNode parent k = some n ∧
      (stale → S.updatedNode parent (key.merge k) = some n) ∧ S.Writes h parent n w d₁ w₁ d₂ ∧
        Entries stale ns (key.merge k) w₁ d₂ w'

/-- An entry among the first `m` fails, those before it having been stored: the key variables name
no node, or no value is decoded into the node they name. -/
def FailsWithin : ℕ → Key → World ι V A → σ → Prop
  | 0, _, _, _ => False
  | m + 1, key, w, d =>
    ∃ k d₁, run h (decodeKey {}) d = ((true, k), d₁) ∧
      ∀ n w₁ d₂, S.updatedNode parent (key.merge k) = some n → S.Writes h parent n w d₁ w₁ d₂ →
        FailsWithin m (key.merge k) w₁ d₂

/-- The payload at `d` is a complete map, with nothing behind it, and its values are decoded into
the nodes `ns`, one for each entry. -/
def IsMapOf (stale : Prop) (ns : List ι) (w : World ι V A) (d : σ) (w' : World ι V A) : Prop :=
  (h .mapStart d).1 = true ∧ ns.length < sizeMax ∧
    S.Entries h atEnd parent stale ns {} w (h .mapStart d).2 w'

/-- The payload at `d` is a map, and one of its entries fails. -/
def EntryFails (w : World ι V A) (d : σ) : Prop :=
  (h .mapStart d).1 = true ∧ S.FailsWithin h parent sizeMax {} w (h .mapStart d).2

variable {S h atEnd parent} {s : Session ι V A τ} {d d₁ d' : σ} {n : ι} {ns : List ι} {key : Key}
  {w w' : World ι V A} {stale : Prop} {m : ℕ}

/-! ## One entry -/

/-- A value that can be stored is. -/
theorem handleNodeUpdate_of_writes (hw : S.Writes h parent n s.world d w' d') :
    run h (S.handleNodeUpdate parent n s) d =
      ((true, { s with world := w', updated := s.updated ++ [n] }), d') := by
  obtain ⟨hwritable, hdecodable, hallowed, w₁, hdecoded, rfl⟩ := hw
  rw [Protected] at hwritable
  simp only [handleNodeUpdate, if_neg hwritable, hdecodable, hallowed, Bool.not_true,
    Bool.false_eq_true, if_false, run_bind, Session.setApp, hdecoded]
  rfl

/-- A value that cannot be stored sets the status to an error. -/
theorem handleNodeUpdate_of_not (hw : ∀ w' d', ¬ S.Writes h parent n s.world d w' d') :
    ∃ s' d', run h (S.handleNodeUpdate parent n s) d = ((false, s'), d') ∧
      s'.status ≠ some .changed ∧ s'.updated = s.updated := by
  rw [handleNodeUpdate]
  dsimp only
  split
  · exact ⟨_, _, rfl, by simp [Session.setStatus], rfl⟩
  · rename_i hwritable
    split
    · exact ⟨_, _, rfl, by simp [Session.setStatus], rfl⟩
    · rename_i hdecodable
      split
      · exact ⟨_, _, rfl, by simp [Session.setStatus], rfl⟩
      · rename_i hallowed
        rw [run_bind]
        rcases hdecoded : run h (S.registry.decodeNode (s.setApp
            ((S.registry.node parent).kind.invokeCallback n .willWrite s.world.app).2).world n) d
          with ⟨⟨ok, w₁⟩, d₂⟩
        cases ok with
        | false => exact ⟨_, _, rfl, by simp [Session.setStatus], rfl⟩
        | true =>
          exact absurd ⟨hwritable, by simpa using hdecodable, by simpa using hallowed, w₁, hdecoded,
            rfl⟩ (hw _ _)

/-- The value of an entry is stored in the node that the key variables name. -/
theorem updateEntry_of_writes (hn : S.updatedNode parent key = some n)
    (hw : S.Writes h parent n s.world d w' d') :
    run h (S.updateEntry parent s key) d =
      ((true, { s with world := w', updated := s.updated ++ [n] }), d') := by
  rw [updateEntry]
  simp only [hn]
  exact handleNodeUpdate_of_writes hw

/-- An entry whose value is not stored sets the status to an error. -/
theorem updateEntry_of_not (hkey : key.id.isSome ∨ key.name.isSome)
    (hw : ∀ n w' d', S.updatedNode parent key = some n → ¬ S.Writes h parent n s.world d w' d') :
    ∃ s' d', run h (S.updateEntry parent s key) d = ((false, s'), d') ∧
      s'.status ≠ some .changed ∧ s'.updated = s.updated := by
  rw [updateEntry]
  split
  · rename_i n hn
    exact handleNodeUpdate_of_not fun w' d' => hw n w' d' hn
  · rw [if_pos hkey]
    exact ⟨_, _, rfl, by simp [Session.setStatus], rfl⟩

/-! ## The loop -/

/-- One round of the loop, where a key decodes: its value is stored and the loop goes on, or the
status is set to an error and the loop ends. -/
theorem loop_cases (m : ℕ) (key : Key) (s : Session ι V A τ) {k : Key}
    (hk : run h (decodeKey {}) d = ((true, k), d₁)) :
    (∃ n w' d₂, S.updatedNode parent (key.merge k) = some n ∧ S.Writes h parent n s.world d₁ w' d₂ ∧
      run h (decodeMapLoop (S.updateEntry parent) (m + 1) key s) d =
        run h (decodeMapLoop (S.updateEntry parent) m (key.merge k)
          { s with world := w', updated := s.updated ++ [n] }) d₂) ∨
    (∀ n w' d₂, S.updatedNode parent (key.merge k) = some n →
      ¬ S.Writes h parent n s.world d₁ w' d₂) ∧
      ∃ s' d₂, run h (decodeMapLoop (S.updateEntry parent) (m + 1) key s) d = ((false, s'), d₂) ∧
        s'.status ≠ some .changed ∧ s'.updated = s.updated := by
  rw [run_decodeMapLoop_of_key _ hk]
  by_cases hw : ∃ n w' d₂, S.updatedNode parent (key.merge k) = some n ∧
      S.Writes h parent n s.world d₁ w' d₂
  · obtain ⟨n, w', d₂, hn, hw⟩ := hw
    rw [updateEntry_of_writes hn hw]
    exact .inl ⟨n, w', d₂, hn, hw, rfl⟩
  · have hnot : ∀ n w' d₂, S.updatedNode parent (key.merge k) = some n →
        ¬ S.Writes h parent n s.world d₁ w' d₂ := fun n w' d₂ hn hw' => hw ⟨n, w', d₂, hn, hw'⟩
    obtain ⟨s', d₂, heq, hstatus⟩ := updateEntry_of_not (isSome_merge hk) hnot
    rw [heq]
    exact .inr ⟨hnot, s', d₂, rfl, hstatus⟩

/-- A value is stored in one way only. -/
theorem Writes.unique {w₁ w₂ : World ι V A} {d₂ : σ} (h₁ : S.Writes h parent n w d w₁ d₁)
    (h₂ : S.Writes h parent n w d w₂ d₂) : w₁ = w₂ ∧ d₁ = d₂ := by
  obtain ⟨-, -, -, _, hdecoded₁, rfl⟩ := h₁
  obtain ⟨-, -, -, _, hdecoded₂, rfl⟩ := h₂
  have := hdecoded₁.symm.trans hdecoded₂
  simp only [Prod.mk.injEq, true_and] at this
  obtain ⟨rfl, rfl⟩ := this
  exact ⟨rfl, rfl⟩

/-- Entries that all name the nodes that the key variables name are all stored. -/
theorem run_loop_of_entries (he : S.Entries h atEnd parent True ns key s.world d w')
    (hm : ns.length < m) :
    (run h (decodeMapLoop (S.updateEntry parent) m key s) d).1 =
      (true, { s with world := w', updated := s.updated ++ ns }) := by
  induction ns generalizing m key s d with
  | nil =>
    obtain ⟨m, rfl⟩ : ∃ k, m = k + 1 := ⟨m - 1, by omega⟩
    obtain ⟨hend, hmapEnd, -, rfl⟩ := he
    rw [run_decodeMapLoop_of_end _ hend, hmapEnd, List.append_nil]
  | cons n ns ih =>
    obtain ⟨m, rfl⟩ : ∃ k, m = k + 1 := ⟨m - 1, by omega⟩
    obtain ⟨k, d₁, w₁, d₂, hk, -, hn, hw, he⟩ := he
    rw [run_decodeMapLoop_of_key _ hk, updateEntry_of_writes (hn trivial) hw]
    simp only [if_true]
    rw [ih he (by simpa using hm), List.append_assoc]
    rfl

/-- A failing entry leaves an error. -/
theorem status_of_failsWithin (hf : S.FailsWithin h parent m key s.world d) :
    (run h (decodeMapLoop (S.updateEntry parent) m key s) d).1.1 = false ∧
      (run h (decodeMapLoop (S.updateEntry parent) m key s) d).1.2.status ≠ some .changed := by
  induction m generalizing key s d with
  | zero => exact hf.elim
  | succ m ih =>
    obtain ⟨k, d₁, hk, hf⟩ := hf
    rcases loop_cases m key s hk with ⟨n, w', d₂, hn, hw, heq⟩ | ⟨-, s', d₂, heq, hstatus, -⟩
    · rw [heq]
      exact ih (hf n w' d₂ hn hw)
    · rw [heq]
      exact ⟨rfl, hstatus⟩

/-- Where no entry fails, the status stays. -/
theorem status_of_not_failsWithin (hf : ¬ S.FailsWithin h parent m key s.world d) :
    (run h (decodeMapLoop (S.updateEntry parent) m key s) d).1.2.status = s.status := by
  induction m generalizing key s d with
  | zero => rfl
  | succ m ih =>
    rcases hk : run h (decodeKey {}) d with ⟨⟨_ | _, k⟩, d₁⟩
    · rw [run_decodeMapLoop_of_end _ (by rw [hk])]
    · rcases loop_cases m key s hk with ⟨n, w', d₂, hn, hw, heq⟩ | ⟨hnot, -⟩
      · rw [heq]
        refine ih fun hfails => hf ⟨k, d₁, hk, fun m w₁ d₃ hm hw₁ => ?_⟩
        obtain rfl := Option.some.inj (hn.symm.trans hm)
        obtain ⟨rfl, rfl⟩ := hw.unique hw₁
        exact hfails
      · exact absurd ⟨k, d₁, hk, fun n w' d₂ hn hw => absurd hw (hnot n w' d₂ hn)⟩ hf

variable (S h parent) in
/-- The loop adds to the updated nodes. -/
theorem updated_prefix (m : ℕ) (key : Key) (s : Session ι V A τ) (d : σ) :
    s.updated <+: (run h (decodeMapLoop (S.updateEntry parent) m key s) d).1.2.updated := by
  induction m generalizing key s d with
  | zero => exact List.prefix_rfl
  | succ m ih =>
    rcases hk : run h (decodeKey {}) d with ⟨⟨_ | _, k⟩, d₁⟩
    · rw [run_decodeMapLoop_of_end _ (by rw [hk])]
    · rcases loop_cases m key s hk with ⟨n, w', d₂, -, -, heq⟩ | ⟨-, s', d₂, heq, -, hupdated⟩
      · rw [heq]
        exact (List.prefix_append _ _).trans (ih _ { s with world := w', updated := s.updated ++ [n] } _)
      · rw [heq, hupdated]

/-- Where the loop stored into the nodes that the keys name, the key variables named them too. -/
theorem entries_of_updated (he : S.Entries h atEnd parent stale ns key s.world d w') (hm : ns.length < m)
    (hupdated : (run h (decodeMapLoop (S.updateEntry parent) m key s) d).1.2.updated =
      s.updated ++ ns) :
    S.Entries h atEnd parent True ns key s.world d w' := by
  induction ns generalizing m key s d with
  | nil => exact he
  | cons n ns ih =>
    obtain ⟨m, rfl⟩ : ∃ k, m = k + 1 := ⟨m - 1, by omega⟩
    obtain ⟨k, d₁, w₁, d₂, hk, hn, -, hw, he⟩ := he
    rcases loop_cases m key s hk with ⟨n', w₂, d₃, hn', hw', heq⟩ | ⟨-, s', d₃, heq, -, hsame⟩
    · rw [heq] at hupdated
      have hpre : s.updated ++ [n'] <+: _ := S.updated_prefix h parent m (key.merge k)
        { s with world := w₂, updated := s.updated ++ [n'] } d₃
      rw [hupdated, List.prefix_append_right_inj] at hpre
      obtain rfl : n' = n := by simpa using hpre
      obtain ⟨rfl, rfl⟩ := hw.unique hw'
      refine ⟨k, d₁, w₁, d₂, hk, hn, fun _ => hn', hw, ?_⟩
      exact ih (s := { s with world := w₁, updated := s.updated ++ [n'] }) he (by simpa using hm)
        (by rw [hupdated, List.append_assoc]; rfl)
    · rw [heq, hsame] at hupdated
      simp at hupdated

/-! ## The response -/

/-- `handleUpdate` behind the map's start. -/
theorem run_handleUpdate (w : World ι V A) (e : τ)
    (hparent : (S.registry.node n).kind.tryCastTo .hasChildren = true) :
    (run h (S.handleUpdate n { world := w, encoder := e }) d).1 =
      let s : Session ι V A τ :=
        { world := w, encoder := (run S.encoder (encode .preamble) e).2, status := some .changed }
      let r := if (h .mapStart d).1 then
        (run h (decodeMapLoop (S.updateEntry n) sizeMax {} s) (h .mapStart d).2).1
      else (false, s)
      if r.1 then (.body, (r.2.encode S.encoder (encode .preamble)).2) else (.header, r.2) := by
  have hstart : run h (decode .mapStart) d = h .mapStart d := rfl
  simp only [handleUpdate, hparent, Bool.not_true, Bool.false_eq_true, if_false, run_bind, decodeMap,
    hstart, Session.setStatus, Session.encode]
  cases (h .mapStart d).1 with
  | false => rfl
  | true =>
    simp only [if_true]
    split <;> simp_all

variable (S h atEnd n) in
/-- The status `changed` tells the truth: the payload was a complete map, each of its keys named a
node, and its values have been decoded into these nodes. -/
def ChangedIsTrue (w : World ι V A) (e : τ) (d : σ) : Prop :=
  let s := (run h (S.handleUpdate n { world := w, encoder := e }) d).1.2
  s.status = some .changed →
    ∃ ns w', S.IsMapOf h atEnd n False ns w d w' ∧ s.updated = ns ∧ s.world = w'

theorem Entries.weaken (he : S.Entries h atEnd parent True ns key w d w') :
    S.Entries h atEnd parent stale ns key w d w' := by
  induction ns generalizing key w d with
  | nil => exact he
  | cons n ns ih =>
    obtain ⟨k, d₁, w₁, d₂, hk, hn, hagree, hw, he⟩ := he
    exact ⟨k, d₁, w₁, d₂, hk, hn, fun _ => hagree trivial, hw, ih he⟩

/-- **The status `changed` tells the truth exactly if the node is no parent, or an entry fails, or
the payload is a complete map in which no key names another node than the key variables.** -/
theorem changed_iff (S : Server ι V A τ) (h : Decoder σ) (atEnd : σ → Prop) (n : ι)
    (w : World ι V A) (e : τ) (d : σ) :
    S.ChangedIsTrue h atEnd n w e d ↔
      (S.registry.node n).kind.tryCastTo .hasChildren = false ∨ S.EntryFails h n w d ∨
        ∃ ns w', S.IsMapOf h atEnd n True ns w d w' := by
  by_cases hparent : (S.registry.node n).kind.tryCastTo .hasChildren = true
  · have hrun := run_handleUpdate (h := h) (d := d) w e hparent
    generalize (run S.encoder (encode .preamble) e).2 = e' at hrun
    simp only [ChangedIsTrue, hrun, hparent, Bool.true_eq_false, false_or]
    cases hstart : (h .mapStart d).1 with
    | false => simp [EntryFails, IsMapOf, hstart]
    | true =>
      simp only [if_true, EntryFails, IsMapOf, hstart, true_and]
      by_cases hf : S.FailsWithin h n sizeMax {} w (h .mapStart d).2
      · -- the status is an error
        obtain ⟨hfalse, hstatus⟩ := status_of_failsWithin
          (s := { world := w, encoder := e', status := some .changed }) hf
        simp [hfalse, hstatus, hf]
      · have hstatus := status_of_not_failsWithin
          (s := { world := w, encoder := e', status := some .changed }) hf
        simp only [hf, false_or]
        constructor
        · intro htrue
          obtain ⟨ns, w', ⟨hlt, hentries⟩, hupdated, -⟩ := htrue (by split <;> exact hstatus)
          refine ⟨ns, w', hlt, ?_⟩
          exact entries_of_updated (s := { world := w, encoder := e', status := some .changed })
            hentries hlt (by split at hupdated <;> exact hupdated)
        · rintro ⟨ns, w', hlt, hentries⟩ -
          rw [run_loop_of_entries (s := { world := w, encoder := e', status := some .changed })
            hentries hlt]
          exact ⟨ns, w', ⟨hlt, hentries.weaken⟩, rfl, rfl⟩
  · have hparent : (S.registry.node n).kind.tryCastTo .hasChildren = false := by simpa using hparent
    simp [ChangedIsTrue, handleUpdate, hparent, Session.setStatus]

end Server

/-- An update of the root with null instead of a map is answered with `changed`. -/
theorem readOnlyArray_changed :
    (readOnlyArrayRun [0x07, 0x00, 0xF6]).2.status = some .changed ∧
      ¬ readOnlyArray.ChangedIsTrue (binaryDecoder { zcbor := zcborReference }) (fun _ => True) .root
        ⟨fun _ => 0, fun _ _ => 0, fun _ => [], ()⟩ (.new 8 64)
        (run (binaryDecoder { zcbor := zcborReference }) (binaryEndpoint 0x07)
          (.new 8 [0x07, 0x00, 0xF6] 1 2 2)).2 := by
  refine ⟨by decide +kernel, fun h => ?_⟩
  obtain ⟨ns, w', ⟨hstart, -⟩, -⟩ := h (by decide +kernel)
  exact absurd hstart (by decide +kernel)

end ThingSet
