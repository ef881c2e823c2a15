import ThingSet.Server.Basic

/-!
# What the handlers leave alone

`Keeps S s s'` says that `s'` has the same protected values as `s`, those of the nodes that share
no write bit with the server's mask, and that no element of a record array has been accessed by its
request handler in between. Every handler but the request handler of a record array keeps to it
(`handleNode_keeps`): an update checks the access of the node of each key before it decodes.
-/

namespace ThingSet

open Interaction Prog

variable {ι V A τ : Type}

namespace Server

variable (S : Server ι V A τ) (c : RequestContext)

/-- A node that may not be written: its access shares no write bit with the server's mask. -/
def Protected (n : ι) : Prop := (S.registry.node n).access &&& S.access &&& anyWrite = 0

/-- The protected values and the record of accessed elements are those of `s`. -/
structure Keeps (s s' : Session ι V A τ) : Prop where
  values : ∀ n, S.Protected n → s'.world.values n = s.world.values n
  elements : ∀ n, S.Protected n → s'.world.elements n = s.world.elements n
  accessed : s'.accessed = s.accessed

variable {S} {s s₁ s₂ s' : Session ι V A τ} {n : ι}

theorem Keeps.refl (s : Session ι V A τ) : S.Keeps s s :=
  ⟨fun _ _ => rfl, fun _ _ => rfl, rfl⟩

theorem Keeps.trans (h₁ : S.Keeps s s₁) (h₂ : S.Keeps s₁ s₂) : S.Keeps s s₂ :=
  ⟨fun n hn => (h₂.values n hn).trans (h₁.values n hn),
    fun n hn => (h₂.elements n hn).trans (h₁.elements n hn), h₂.accessed.trans h₁.accessed⟩

/-- A change of anything but values, elements and the record of accesses. -/
theorem Keeps.of_eq (hv : s'.world.values = s.world.values)
    (he : s'.world.elements = s.world.elements) (ha : s'.accessed = s.accessed) : S.Keeps s s' :=
  ⟨fun _ _ => by rw [hv], fun _ _ => by rw [he], ha⟩

/-! ## Get, fetch and exec -/

theorem handleGet_keeps (n : ι) (s : Session ι V A τ) : S.Keeps s (S.handleGet c n s).2 := by
  rw [handleGet]
  dsimp only
  split
  · split <;> exact .of_eq rfl rfl rfl
  · split <;> exact .of_eq rfl rfl rfl

theorem fetchMetadata_keeps (s : Session ι V A τ) :
    Always (fun r => S.Keeps s r.2) (S.fetchMetadata s) := by
  refine always_bind_of_forall fun id => ?_
  cases id with
  | none => exact Keeps.refl s
  | some id =>
    dsimp only
    split
    · exact Keeps.refl s
    · exact .of_eq rfl rfl rfl

theorem handleFetchMetadata_keeps (s : Session ι V A τ) :
    Always (fun r => S.Keeps s r.2) (S.handleFetchMetadata s) := by
  have hlist := always_decodeList (P := fun s' => S.Keeps s s') (fun _ s => S.fetchMetadata s)
    (fun _ s' hs => (S.fetchMetadata_keeps s').mono fun _ h => hs.trans h) (Keeps.refl s)
  refine hlist.bind fun ⟨ok, s'⟩ hs => ?_
  cases ok with
  | false => exact hs.trans (.of_eq rfl rfl rfl)
  | true =>
    simp only [if_true, always_pure]
    split <;> exact hs.trans (.of_eq rfl rfl rfl)

variable [DecidableEq ι]

theorem handleFetch_keeps (n : ι) (s : Session ι V A τ) :
    Always (fun r => S.Keeps s r.2) (S.handleFetch c n s) := by
  refine always_bind_of_forall fun null => ?_
  dsimp only
  split
  · split <;> exact Keeps.of_eq rfl rfl rfl
  · split
    · refine always_bind_of_forall fun type => ?_
      split
      · split
        · exact (S.handleFetchMetadata_keeps _).mono fun _ h => ⟨h.1, h.2, h.3⟩
        · exact Keeps.of_eq rfl rfl rfl
      · exact Keeps.of_eq rfl rfl rfl
    · exact Keeps.of_eq rfl rfl rfl

theorem handleExec_keeps (n : ι) (s : Session ι V A τ) :
    Always (fun r => S.Keeps s r.2) (S.handleExec n s) := by
  rw [handleExec]
  dsimp only
  split
  · exact Keeps.of_eq rfl rfl rfl
  · split
    · refine always_bind_of_forall fun ⟨ok, arguments⟩ => ?_
      dsimp only
      split
      · split <;> exact Keeps.of_eq rfl rfl rfl
      · exact Keeps.of_eq rfl rfl rfl
    · exact Keeps.of_eq rfl rfl rfl

/-! ## Update -/

/-- A decode into a node changes no other node. -/
theorem decodeNode_other (R : Registry ι V A) (w : World ι V A) (n : ι) :
    Always (fun r => ∀ m ≠ n, r.2.values m = w.values m ∧ r.2.elements m = w.elements m)
      (R.decodeNode w n) := by
  rw [Registry.decodeNode]
  split
  · exact always_bind_of_forall fun d m hm => ⟨Function.update_of_ne hm _ _, rfl⟩
  · exact always_bind_of_forall fun ⟨ok, a⟩ m hm => ⟨rfl, Function.update_of_ne hm _ _⟩
  · exact fun m _ => ⟨rfl, rfl⟩

/-- The access of a node is checked before anything is decoded into it. -/
theorem handleNodeUpdate_keeps (parent child : ι) (s : Session ι V A τ) :
    Always (fun r => S.Keeps s r.2) (S.handleNodeUpdate parent child s) := by
  rw [handleNodeUpdate]
  dsimp only
  split
  · exact Keeps.of_eq rfl rfl rfl
  · rename_i hwritable
    split
    · exact Keeps.of_eq rfl rfl rfl
    · split
      · exact Keeps.of_eq rfl rfl rfl
      · refine (decodeNode_other S.registry _ child).bind fun ⟨ok, w⟩ hw => ?_
        have hkeeps : ∀ s' : Session ι V A τ, s'.world.values = w.values →
            s'.world.elements = w.elements → s'.accessed = s.accessed → S.Keeps s s' :=
          fun s' hv he ha => by
            have hne : ∀ m, S.Protected m → m ≠ child := fun m hm h => hwritable (h ▸ hm)
            exact ⟨fun m hm => by rw [hv]; exact (hw m (hne m hm)).1,
              fun m hm => by rw [he]; exact (hw m (hne m hm)).2, ha⟩
        dsimp only
        split <;> exact hkeeps _ rfl rfl rfl

theorem updateEntry_keeps (parent : ι) (s : Session ι V A τ) (key : Key) :
    Always (fun r => S.Keeps s r.2) (S.updateEntry parent s key) := by
  rw [updateEntry]
  split
  · exact handleNodeUpdate_keeps parent _ s
  · split <;> exact Keeps.of_eq rfl rfl rfl

theorem handleUpdate_keeps (n : ι) (s : Session ι V A τ) :
    Always (fun r => S.Keeps s r.2) (S.handleUpdate n s) := by
  rw [handleUpdate]
  split
  · exact Keeps.of_eq rfl rfl rfl
  · have hmap := always_decodeMap (P := fun s' => S.Keeps s s') (S.updateEntry n)
      (fun s' key hs => (S.updateEntry_keeps n s' key).mono fun _ h => hs.trans h)
      (c := ((s.setStatus .changed).encode S.encoder (encode .preamble)).2)
      (.of_eq rfl rfl rfl)
    refine hmap.bind fun ⟨ok, s'⟩ hs => ?_
    cases ok with
    | false => exact hs
    | true => exact hs.trans (.of_eq rfl rfl rfl)

/-- **No handler but that of a record array changes a protected value.** -/
theorem handleNode_keeps (n : ι) (s : Session ι V A τ) :
    Always (fun r => S.Keeps s r.2) (S.handleNode c n s) := by
  rw [handleNode]
  split
  · exact S.handleGet_keeps c n s
  · split
    · exact S.handleFetch_keeps c n s
    · split
      · exact S.handleUpdate_keeps n s
      · split
        · exact S.handleExec_keeps n s
        · exact Keeps.of_eq rfl rfl rfl

end Server

end ThingSet
