import ThingSet.Server.Basic

/-!
# The status of a response

`status_of_handleBinaryRequest`: a server without a forwarder sets a status on every request.
-/

namespace ThingSet

open Interaction Prog

namespace Server

variable {ι V A τ : Type}

/-- Without a forwarder, the request has a status. -/
def Answered (S : Server ι V A τ) (r : Returned × Session ι V A τ) : Prop :=
  S.hasForwarder = false → r.2.status.isSome = true

variable {S : Server ι V A τ}

theorem answered_of_isSome {r : Returned × Session ι V A τ} (h : r.2.status.isSome = true) :
    S.Answered r := fun _ => h

variable {c : RequestContext} {s : Session ι V A τ} {n : ι}

theorem answered_handleGet : S.Answered (S.handleGet c n s) := by
  rw [handleGet]
  dsimp only
  split
  · split <;> exact answered_of_isSome rfl
  · split <;> exact answered_of_isSome rfl

/-- What the callback of a map or a list keeps of the status. -/
theorem fetchMetadata_status :
    s.status.isSome = true → Always (fun r => r.2.status.isSome = true) (S.fetchMetadata s) := by
  intro h
  refine always_bind_of_forall fun id => ?_
  cases id with
  | none => exact h
  | some id =>
    dsimp only
    split
    · exact h
    · exact h

variable [DecidableEq ι]

theorem answered_handleFetch : Always S.Answered (S.handleFetch c n s) := by
  rw [handleFetch]
  refine always_bind_of_forall fun null => ?_
  split
  · split <;> exact answered_of_isSome rfl
  · split
    · refine always_bind_of_forall fun type => ?_
      split
      · rcases hstart : Session.encode ((s.setStatus .content).encode S.encoder (encode .preamble)).2
          S.encoder (encode (.listStart none)) with ⟨started, s'⟩
        have hs' : s'.status.isSome = true := congrArg (fun r => r.2.status.isSome) hstart.symm
        dsimp only
        split
        · rw [handleFetchMetadata]
          refine (always_decodeList _ (P := fun s => s.status.isSome = true)
            (fun _ _ h => fetchMetadata_status h) hs').bind fun ⟨ok, s₁⟩ h₁ => ?_
          refine answered_of_isSome ?_
          cases ok with
          | false => rfl
          | true =>
            dsimp only
            split
            · exact h₁
            · rfl
        · exact answered_of_isSome rfl
      · exact answered_of_isSome rfl
    · exact answered_of_isSome rfl

/-- An entry of an update keeps or replaces the status. -/
theorem updateEntry_status {key : Key} (h : s.status.isSome = true) :
    Always (fun r => r.2.status.isSome = true) (S.updateEntry n s key) := by
  rw [updateEntry]
  split
  · rename_i child _
    rw [handleNodeUpdate]
    split
    · exact rfl
    · split
      · exact rfl
      · rcases (S.registry.node n).kind.invokeCallback child .willWrite s.world.app with ⟨allowed, app⟩
        dsimp only
        split
        · exact rfl
        · refine always_bind_of_forall fun ⟨ok, w⟩ => ?_
          dsimp only
          split
          · exact rfl
          · exact h
  · split
    · exact rfl
    · exact h

theorem answered_handleUpdate : Always S.Answered (S.handleUpdate n s) := by
  rw [handleUpdate]
  split
  · exact answered_of_isSome rfl
  · refine (always_decodeMap _ (P := fun s => s.status.isSome = true)
      (fun _ _ h => updateEntry_status h) rfl).bind fun ⟨ok, s₁⟩ h₁ => ?_
    dsimp only
    split <;> exact answered_of_isSome h₁

theorem answered_handleExec : Always S.Answered (S.handleExec n s) := by
  rw [handleExec]
  dsimp only
  split
  · exact answered_of_isSome rfl
  · split
    · refine always_bind_of_forall fun ⟨ok, arguments⟩ => ?_
      dsimp only
      split
      · split <;> exact answered_of_isSome rfl
      · exact answered_of_isSome rfl
    · exact answered_of_isSome rfl

theorem answered_handleNode : Always S.Answered (S.handleNode c n s) := by
  rw [handleNode]
  split
  · exact answered_handleGet
  · split
    · exact answered_handleFetch
    · split
      · exact answered_handleUpdate
      · split
        · exact answered_handleExec
        · exact answered_of_isSome rfl

/-- The request handler of an array sets a status, or leaves the request to the server. -/
theorem handleRecordRequest_status {element : Codec V} {size index : ℕ} :
    Always (fun r => ∀ returned, r.1 = some returned → r.2.status.isSome = true)
      (S.handleRecordRequest c n element size index s) := by
  rw [handleRecordRequest]
  split
  · dsimp only
    split <;> exact fun _ _ => rfl
  · split
    · dsimp only
      refine always_bind_of_forall fun d => fun _ _ => ?_
      split <;> rfl
    · exact fun _ h => by cases h

/-- **A server without a forwarder sets a status on every request.** -/
theorem status_of_handleBinaryRequest (requestType : UInt8) :
    Always S.Answered (S.handleBinaryRequest requestType s) := by
  refine always_bind_of_forall fun c => ?_
  rw [handleRequest]
  split
  · exact answered_of_isSome rfl
  · split
    · split
      · rename_i hforwarder
        exact fun h => absurd hforwarder (by rw [h]; exact Bool.noConfusion)
      · exact answered_of_isSome rfl
    · split
      · exact answered_of_isSome rfl
      · split
        · refine handleRecordRequest_status.bind fun ⟨result, s₁⟩ h₁ => ?_
          cases result with
          | none => exact answered_handleNode
          | some returned => exact answered_of_isSome (h₁ returned rfl)
        · exact answered_handleNode

end Server

end ThingSet
