import ThingSet.Server.Frame
import ThingSet.BinaryDecoder
import ThingSet.BinaryEncoder
import ThingSet.Values

/-!
# Requests to record arrays

A record array handles get and update requests itself, before the server's own handlers see them.
The index of the element comes from the path; without one it is `SIZE_MAX`.

* `endpoint_index`: an index that is found is below the size of its array, or `SIZE_MAX`.
* `accessed_inBounds_iff`: every element that is accessed is in bounds, unless the request is an
  update of a record array without an index. Such an update sets the status to an error and
  decodes all the same.
* `protected_unchanged_iff`: no protected value changes and no access is out of bounds, unless the
  request is an update of a record array without an index or one that decodes something else into
  an element of a protected array. The array's own handler checks no access.
-/

namespace ThingSet

open Interaction Prog

variable {ι V A τ σ : Type}

/-- The size of a record array. -/
def NodeKind.arraySize : NodeKind ι V A → ℕ
  | .recordArray _ size _ => size
  | _ => 0

namespace Registry

variable (R : Registry ι V A)

theorem parentFindByName_index {rest : ι → Bytes → Option (ι × ℕ)} {P : ι × ℕ → Prop}
    (hrest : ∀ n name r, rest n name = some r → P r) (hmax : ∀ n, P (n, sizeMax)) (self : ι)
    (name : Bytes) (r : ι × ℕ) (h : R.parentFindByName rest self name = some r) : P r := by
  simp only [parentFindByName] at h
  split at h
  · exact Option.some.inj h ▸ hmax _
  · split at h
    · simp at h
    · split at h
      · exact Option.some.inj h ▸ hmax _
      · split at h
        · exact hrest _ _ _ h
        · simp at h

/-- An index that `findByName` finds is below the size of the array, or `SIZE_MAX`. -/
theorem findByNameFrom_index (fuel : ℕ) (self : ι) (name : Bytes) (r : ι × ℕ)
    (h : R.findByNameFrom fuel self name = some r) :
    r.2 = sizeMax ∨ r.2 < (R.node r.1).kind.arraySize := by
  induction fuel generalizing self name r with
  | zero => simp [findByNameFrom] at h
  | succ fuel ih =>
    have hfound := R.parentFindByName_index
      (P := fun r => r.2 = sizeMax ∨ r.2 < (R.node r.1).kind.arraySize) ih (fun _ => .inl rfl) self name
    rw [findByNameFrom] at h
    split at h
    · rename_i element size _ hkind
      split at h
      · split at h
        · obtain rfl := Option.some.inj h
          exact .inr (by simpa [hkind, NodeKind.arraySize])
        · simp at h
      · exact hfound r h
    · exact hfound r h

end Registry

namespace Server

variable (S : Server ι V A τ) (c : RequestContext)

theorem endpoint_index {n : ι} {index : ℕ} (h : S.endpoint c = some (n, index)) :
    index = sizeMax ∨ index < (S.registry.node n).kind.arraySize := by
  rw [endpoint] at h
  split at h
  · obtain ⟨m, -, hm⟩ := Option.map_eq_some_iff.1 h
    exact .inl (Prod.mk.inj hm).2.symm
  · exact S.registry.findByNameFrom_index _ _ _ _ h
  · simp at h

/-! ## The handler of a record array -/

variable [DecidableEq ι] (h : Decoder σ) (d : σ)

/-- The request is handled by this server and its endpoint is the element `index` of the record
array `n`, or the array where `index` is `SIZE_MAX`. -/
structure ReachesArray (n : ι) (element : Codec V) (size index : ℕ) : Prop where
  endpoint : S.endpoint c = some (n, index)
  kind : ∃ size_le, (S.registry.node n).kind = .recordArray element size size_le
  handled : c.isToBeForwarded = false

variable {S c} {s : Session ι V A τ} {n : ι} {element : Codec V} {size index : ℕ}

omit [DecidableEq ι] in
theorem hasValidEndpoint_of_endpoint (h : S.endpoint c = some (n, index)) :
    c.hasValidEndpoint = true := by
  rw [endpoint] at h
  split at h <;> simp_all [RequestContext.hasValidEndpoint]

theorem handleRequest_of_reachesArray (hr : S.ReachesArray c n element size index) :
    S.handleRequest c s = (do
      let (result, s) ← S.handleRecordRequest c n element size index s
      match result with
      | some returned => pure (returned, s)
      | none => S.handleNode c n s) := by
  obtain ⟨hendpoint, ⟨size_le, hkind⟩, hhandled⟩ := hr
  have hvalid := hasValidEndpoint_of_endpoint hendpoint
  have hnode : S.handleRequest c s = match (S.registry.node n).kind with
      | .recordArray element size _ => do
        let (result, s) ← S.handleRecordRequest c n element size index s
        match result with
        | some returned => pure (returned, s)
        | none => S.handleNode c n s
      | _ => S.handleNode c n s := by
    rw [handleRequest, hvalid, hhandled, hendpoint]
    rfl
  rw [hnode, hkind]

/-- A get accesses the element at the index, if there is one. -/
theorem handleRequest_of_isGet (hr : S.ReachesArray c n element size index)
    (hget : c.isGet = true) :
    ∃ s', (run h (S.handleRequest c s) d).1.2 = s' ∧ s'.world = s.world ∧
      s'.accessed = s.accessed ++ if index = sizeMax then [] else [(n, index)] := by
  refine ⟨_, rfl, ?_⟩
  rw [handleRequest_of_reachesArray hr, handleRecordRequest, if_pos hget]
  split
  · exact ⟨rfl, (List.append_nil _).symm⟩
  · exact ⟨rfl, rfl⟩

/-- An update accesses the element at the index, even at `SIZE_MAX`, and stores in it what the
payload decodes to. -/
theorem handleRequest_of_isUpdate (hr : S.ReachesArray c n element size index)
    (hget : c.isGet = false) (hupdate : c.isUpdate = true) :
    ∃ s', (run h (S.handleRequest c s) d).1.2 = s' ∧
      s'.world = s.world.setElement n index
        ((run h (element.decode (s.world.elements n index)) d).1.value (s.world.elements n index)) ∧
      s'.accessed = s.accessed ++ [(n, index)] := by
  refine ⟨_, rfl, ?_⟩
  rw [handleRequest_of_reachesArray hr, handleRecordRequest, if_neg (by simp [hget]), if_pos hupdate]
  by_cases hmax : index = sizeMax
  · simp only [if_pos hmax, run_bind]
    exact ⟨rfl, rfl⟩
  · simp only [if_neg hmax, run_bind]
    exact ⟨rfl, rfl⟩

/-- Any other request keeps to `Keeps`. -/
theorem handleRequest_keeps (hr : ∀ n element size index, S.ReachesArray c n element size index →
    c.isGet = false ∧ c.isUpdate = false) (s : Session ι V A τ) :
    Always (fun r => S.Keeps s r.2) (S.handleRequest c s) := by
  rw [handleRequest]
  split
  · exact Keeps.of_eq rfl rfl rfl
  · split
    · split <;> exact Keeps.of_eq rfl rfl rfl
    · rename_i hhandled
      split
      · exact Keeps.of_eq rfl rfl rfl
      · rename_i n index hendpoint
        split
        · rename_i element size size_le hkind
          obtain ⟨hget, hupdate⟩ := hr n element size index
            ⟨hendpoint, ⟨size_le, hkind⟩, by simpa using hhandled⟩
          simp only [handleRecordRequest, hget, hupdate, Bool.false_eq_true, if_false]
          exact S.handleNode_keeps c n s
        · exact S.handleNode_keeps c n s

/-! ## Accesses -/

variable (S c) in
/-- An update of a record array without an index: it is addressed by its id, or by a path that
ends with its name. -/
def UpdatesWithoutIndex : Prop :=
  c.isGet = false ∧ c.isUpdate = true ∧
    ∃ n element size, S.ReachesArray c n element size sizeMax

variable (S) in
/-- The elements of record arrays that are accessed through an index lie in their arrays. -/
def InBounds (accessed : List (ι × ℕ)) : Prop :=
  ∀ a ∈ accessed, a.2 < (S.registry.node a.1).kind.arraySize

omit [DecidableEq ι] in
theorem ReachesArray.arraySize (hr : S.ReachesArray c n element size index) :
    (S.registry.node n).kind.arraySize = size ∧ size ≤ sizeMax := by
  obtain ⟨-, ⟨size_le, hkind⟩, -⟩ := hr
  exact ⟨by rw [hkind, NodeKind.arraySize], size_le⟩

omit [DecidableEq ι] in
theorem ReachesArray.index_lt (hr : S.ReachesArray c n element size index) (hmax : index ≠ sizeMax) :
    index < size :=
  hr.arraySize.1 ▸ (S.endpoint_index c hr.endpoint).resolve_left hmax

/-- Any other request than a get or update of a record array leaves the record empty. -/
theorem accessed_of_other (w : World ι V A) (e : τ)
    (hr : ∀ n element size index, S.ReachesArray c n element size index →
      c.isGet = false ∧ c.isUpdate = false) :
    (run h (S.handleRequest c { world := w, encoder := e }) d).1.2.accessed = [] :=
  (Always.run (handleRequest_keeps hr _) h d).accessed

/-- **Every access through the index of a request is in bounds, unless the request is an update of
a record array without an index.** -/
theorem accessed_inBounds_iff (S : Server ι V A τ) (c : RequestContext) (h : Decoder σ) (d : σ)
    (w : World ι V A) (e : τ) :
    S.InBounds (run h (S.handleRequest c { world := w, encoder := e }) d).1.2.accessed ↔
      ¬ S.UpdatesWithoutIndex c := by
  by_cases hr : ∀ n element size index, S.ReachesArray c n element size index →
      c.isGet = false ∧ c.isUpdate = false
  · rw [accessed_of_other h d w e hr]
    refine iff_of_true (fun _ ha => absurd ha (List.not_mem_nil)) ?_
    rintro ⟨-, hupdate, n, element, size, hreach⟩
    simp [(hr _ _ _ _ hreach).2] at hupdate
  · push Not at hr
    obtain ⟨n, element, size, index, hreach, htype⟩ := hr
    have hindex := hreach.index_lt
    obtain ⟨hsize, hle⟩ := hreach.arraySize
    cases hget : c.isGet with
    | true =>
      obtain ⟨s', hs', -, haccessed⟩ := handleRequest_of_isGet h d
        (s := { world := w, encoder := e }) hreach hget
      rw [hs', haccessed]
      refine iff_of_true (fun a ha => ?_) fun ⟨hget', _⟩ => by simp [hget] at hget'
      by_cases hmax : index = sizeMax
      · simp [hmax] at ha
      · obtain rfl : a = (n, index) := by simpa [hmax] using ha
        rw [hsize]
        exact hindex hmax
    | false =>
      have hupdate : c.isUpdate = true := by simpa using htype hget
      obtain ⟨s', hs', -, haccessed⟩ := handleRequest_of_isUpdate h d
        (s := { world := w, encoder := e }) hreach hget hupdate
      rw [hs', haccessed]
      by_cases hmax : index = sizeMax
      · subst hmax
        refine iff_of_false (fun hbounds => ?_) fun hnot => hnot ⟨hget, hupdate, n, element, size, hreach⟩
        have := hbounds (n, sizeMax) (by simp)
        rw [hsize] at this
        omega
      · refine iff_of_true (fun a ha => ?_) ?_
        · obtain rfl : a = (n, index) := by simpa using ha
          rw [hsize]
          exact hindex hmax
        · rintro ⟨-, -, m, element', size', hreach'⟩
          have := hreach.endpoint.symm.trans hreach'.endpoint
          simp [hmax] at this

/-! ## Protected values -/

variable (S c) in
/-- An update of an element of a protected record array, whose payload decodes to something else
than the element holds. -/
def ChangesProtected (w : World ι V A) : Prop :=
  c.isGet = false ∧ c.isUpdate = true ∧
    ∃ n element size index, S.ReachesArray c n element size index ∧ index ≠ sizeMax ∧
      S.Protected n ∧
        (run h (element.decode (w.elements n index)) d).1.value (w.elements n index) ≠
          w.elements n index

variable (S) in
/-- The stored values of the protected nodes, and the elements of the protected record arrays, are
those of `w`. -/
def Unchanged (w w' : World ι V A) : Prop :=
  ∀ n, S.Protected n → w'.values n = w.values n ∧
    ∀ i < (S.registry.node n).kind.arraySize, w'.elements n i = w.elements n i

omit [DecidableEq ι] in
/-- The element of a reached record array is the only one. -/
theorem ReachesArray.unique {m : ι} {element' : Codec V} {size' index' : ℕ}
    (hr : S.ReachesArray c n element size index) (hr' : S.ReachesArray c m element' size' index') :
    n = m ∧ element = element' ∧ size = size' ∧ index = index' := by
  obtain ⟨hendpoint, ⟨_, hkind⟩, -⟩ := hr
  obtain ⟨hendpoint', ⟨_, hkind'⟩, -⟩ := hr'
  obtain ⟨rfl, rfl⟩ := Prod.mk.inj (Option.some.inj (hendpoint.symm.trans hendpoint'))
  have := hkind.symm.trans hkind'
  simp only [NodeKind.recordArray.injEq] at this
  exact ⟨rfl, this.1, this.2, rfl⟩

/-- An update of an element leaves the protected values alone, unless it changes a protected
one. -/
theorem unchanged_setElement_iff (hr : S.ReachesArray c n element size index)
    (hmax : index ≠ sizeMax) (w : World ι V A) (v : V) :
    S.Unchanged w (w.setElement n index v) ↔ ¬ (S.Protected n ∧ v ≠ w.elements n index) := by
  constructor
  · rintro hunchanged ⟨hprotected, hv⟩
    have := (hunchanged n hprotected).2 index (hr.arraySize.1 ▸ hr.index_lt hmax)
    simp only [World.setElement, World.setElements, Function.update_self] at this
    exact hv this
  · intro hnot m hm
    refine ⟨rfl, fun i _ => ?_⟩
    by_cases hmn : m = n
    · subst hmn
      have hv : v = w.elements m index := by
        by_contra hv
        exact hnot ⟨hm, hv⟩
      simp only [World.setElement, World.setElements, hv, Function.update_eq_self]
    · simp only [World.setElement, World.setElements, Function.update_of_ne hmn]

/-- **No protected value changes and no access through the index of a request is out of bounds,
unless the request is an update of a record array without an index, or one that changes an element
of a protected record array.** -/
theorem protected_unchanged_iff (S : Server ι V A τ) (c : RequestContext) (h : Decoder σ) (d : σ)
    (w : World ι V A) (e : τ) :
    (S.InBounds (run h (S.handleRequest c { world := w, encoder := e }) d).1.2.accessed ∧
        S.Unchanged w (run h (S.handleRequest c { world := w, encoder := e }) d).1.2.world) ↔
      ¬ S.UpdatesWithoutIndex c ∧ ¬ S.ChangesProtected c h d w := by
  rw [accessed_inBounds_iff]
  refine and_congr_right fun hnot => ?_
  by_cases hr : ∀ n element size index, S.ReachesArray c n element size index →
      c.isGet = false ∧ c.isUpdate = false
  · have hkeeps := Always.run (handleRequest_keeps hr { world := w, encoder := e }) h d
    refine iff_of_true (fun n hn => ⟨hkeeps.values n hn, fun i _ => by rw [hkeeps.elements n hn]⟩) ?_
    rintro ⟨-, hupdate, n, element, size, index, hreach, -⟩
    simp [(hr _ _ _ _ hreach).2] at hupdate
  · push Not at hr
    obtain ⟨n, element, size, index, hreach, htype⟩ := hr
    cases hget : c.isGet with
    | true =>
      obtain ⟨s', hs', hworld, -⟩ := handleRequest_of_isGet h d
        (s := { world := w, encoder := e }) hreach hget
      rw [hs', hworld]
      exact iff_of_true (fun n _ => ⟨rfl, fun _ _ => rfl⟩) fun ⟨hget', _⟩ => by
        simp [hget] at hget'
    | false =>
      have hupdate : c.isUpdate = true := by simpa using htype hget
      have hmax : index ≠ sizeMax := fun hmax => hnot ⟨hget, hupdate, n, element, size, hmax ▸ hreach⟩
      obtain ⟨s', hs', hworld, -⟩ := handleRequest_of_isUpdate h d
        (s := { world := w, encoder := e }) hreach hget hupdate
      rw [hs', hworld, unchanged_setElement_iff hreach hmax]
      refine not_congr ⟨fun ⟨hprotected, hv⟩ =>
        ⟨hget, hupdate, n, element, size, index, hreach, hmax, hprotected, hv⟩, ?_⟩
      rintro ⟨-, -, m, element', size', index', hreach', -, hprotected, hv⟩
      obtain ⟨rfl, rfl, rfl, rfl⟩ := hreach.unique hreach'
      exact ⟨hprotected, hv⟩

end Server

/-! ## A record array that may only be read -/

/-- The codec of a class with one member, a `uint8_t`. -/
def recordOfUInt8 (id : ℕ) (name : Bytes) : Codec ℕ where
  encode v := encodeRecord (fun _ : Fin 1 => id) (fun _ => name) fun _ => encode (.uint .w8 v)
  decode v := do
    let d ← decodeRecord (fun _ : Fin 1 => id) (fun _ => name) (fun _ => decodeUInt8) fun _ => v
    pure ⟨d.1, some (d.2 ⟨0, Nat.one_pos⟩)⟩

/-- The nodes of a server with one record array, `Arr` with the id 32, which has two elements and
may only be read. -/
def readOnlyArrayNode : SmallNode → Node SmallNode ℕ Unit
  | .a => .ofIds [0x41, 0x72, 0x72] 32 0 0x07 (.recordArray (recordOfUInt8 33 [0x56]) 2 (by decide))
  | .metadata => .ofIds [0x5F] 25 0 0x01 .overlay
  | _ => .ofIds [] 0 0 0x01 .overlay

/-- The server. -/
def readOnlyArray : Server SmallNode ℕ Unit ZcborEncodeState where
  registry := {
    node := readOnlyArrayNode
    nodeMap := bucketsOf readOnlyArrayNode [.root, .metadata, .a]
    childrenOf := fun n => if n = .root then [.a] else []
    rootNode := .root
    metadataNode := .metadata }
  access := 0x77
  encoder := binaryEncoder zcborEncodeReference

/-- What it does with a binary request, from a world where every value is 0. -/
def readOnlyArrayRun (request : Bytes) : (Returned × Session SmallNode ℕ Unit ZcborEncodeState) :=
  (run (binaryDecoder { zcbor := zcborReference })
    (readOnlyArray.handleBinaryRequest (request.headD 0)
      { world := ⟨fun _ => 0, fun _ _ => 0, fun _ => [], ()⟩, encoder := .new 8 64 })
    (.new 8 request 1 (request.length - 1) 2)).1

/-- An update of the path `Arr/0` with the map `{33: 5}` changes the first element, although the
array may only be read. -/
theorem readOnlyArray_updated :
    ¬ readOnlyArray.Unchanged ⟨fun _ => 0, fun _ _ => 0, fun _ => [], ()⟩
      (readOnlyArrayRun [0x07, 0x65, 0x41, 0x72, 0x72, 0x2F, 0x30, 0xA1, 0x18, 0x21, 0x05]).2.world :=
  fun h => absurd ((h .a rfl).2 0 (by decide)) (by decide +kernel)

/-- An update of the id 32 with the map `{33: 5}` decodes into the element with the index
`SIZE_MAX`. -/
theorem readOnlyArray_accessed :
    ¬ readOnlyArray.InBounds
      (readOnlyArrayRun [0x07, 0x18, 0x20, 0xA1, 0x18, 0x21, 0x05]).2.accessed := by
  unfold Server.InBounds
  decide

end ThingSet
