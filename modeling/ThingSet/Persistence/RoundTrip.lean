import ThingSet.Eeprom.Saved
import ThingSet.Streaming.Subscriber

/-!
# Loading what has been saved

`save` encodes the persisted nodes in chunks onto a device, and `load` decodes them in chunks into the nodes with their
ids, possibly those of another version of the program.

* `bytesOf_encodeNodes`: the content.
* `load_of_saved`: what `load` makes of it.
* `load_after_save`: `save` succeeds, and `load` takes over the values of the persisted nodes, up to the first that the
  program that loads has no node for.
-/

namespace ThingSet

open Interaction Prog Cbor StreamReader

namespace ThingSetPersistence

variable {ι V A : Type} {P : ThingSetPersistence ι V A} {w : World ι V A} {size : ℕ}

/-! ## The content -/

theorem mem_savedNodes {n : ι} : n ∈ P.savedNodes ↔ n ∈ P.nodesInSubset persisted ∧ P.Encodable n := by
  rw [savedNodes, List.mem_filter, Encodable]

theorem length_savedNodes_le : P.savedNodes.length ≤ P.registry.nodes.length :=
  (List.length_filter_le _ _).trans (List.length_filter_le _ _)

section

variable (h : P.Carries size w persisted)

include h

/-- The pair of a node can be carried. -/
theorem carried_encodePair {n : ι} (hn : n ∈ P.savedNodes) :
    Carried size 1 1 (encodePair (encode (.uint .w16 (P.registry.node n).id)) (P.registry.encodeNode w sizeMax n)) := by
  obtain ⟨hsubset, hencodable⟩ := mem_savedNodes.1 hn
  have hid := length_writeHead_le 0 (P.registry.node n).id_lt
  have hsize := h.size_le
  unfold encodePair
  refine (carried_call rfl (by exact hid.trans (by omega)) rfl).cons ?_
  refine (carried_call rfl (Nat.zero_le _) rfl).cons ((h.values n hsubset hencodable).cons ?_)
  exact (carried_call rfl (Nat.zero_le _) rfl).cons carried_nil

theorem bytesOf_encodePair {n : ι} (hn : n ∈ P.savedNodes) :
    bytesOf (encodePair (encode (.uint .w16 (P.registry.node n).id)) (P.registry.encodeNode w sizeMax n)) =
      P.pairOf w n := by
  obtain ⟨hsubset, hencodable⟩ := mem_savedNodes.1 hn
  have hend : bytesOf (encodeAll [encode .listSeparator]) = [] := rfl
  unfold encodePair
  rw [bytesOf_encodeAll_cons rfl, bytesOf_encodeAll_cons rfl, bytesOf_encodeAll_cons (h.values n hsubset hencodable).ok,
    bytesOf_call rfl, bytesOf_call rfl, hend, List.append_nil]
  rfl

theorem carried_encodeNodes : Carried size 0 0 (P.encodeNodes w) := by
  have hmap := length_writeHead_le_five 5 (length_savedNodes_le.trans_lt h.nodes_lt)
  unfold encodeNodes
  refine (carried_call rfl (hmap.trans h.size_le) rfl).cons ?_
  refine carried_encodeAll_append (d := 1) (fun p hp => ?_) ((carried_call rfl (Nat.zero_le _) rfl).cons carried_nil)
  obtain ⟨n, hn, rfl⟩ := List.mem_map.1 hp
  exact carried_encodePair h hn

/-- The content is a map with a pair for each node. -/
theorem bytesOf_encodeNodes :
    bytesOf (P.encodeNodes w) = writeHead 5 P.savedNodes.length ++ P.savedNodes.flatMap (P.pairOf w) := by
  have hok : ∀ p ∈ P.savedNodes.map (fun n => encodePair (encode (.uint .w16 (P.registry.node n).id))
      (P.registry.encodeNode w sizeMax n)), (trace binaryAnswer p).1 = true := by
    intro p hp
    obtain ⟨n, hn, rfl⟩ := List.mem_map.1 hp
    exact (carried_encodePair h hn).ok
  have hpairs : (P.savedNodes.map (fun n => encodePair (encode (.uint .w16 (P.registry.node n).id))
      (P.registry.encodeNode w sizeMax n))).flatMap bytesOf = P.savedNodes.flatMap (P.pairOf w) := by
    rw [List.flatMap_map]
    exact List.flatMap_congr fun n hn => bytesOf_encodePair h hn
  have hend : bytesOf (encodeAll [encode (.mapEnd (some P.savedNodes.length))]) = [] := rfl
  unfold encodeNodes
  rw [bytesOf_encodeAll_cons rfl, bytesOf_encodeAll_append hok, hpairs, hend, List.append_nil, bytesOf_call rfl]
  rfl

end

/-! ## Loading -/

section Load

variable {ι' A' δ : Type} [DecidableEq ι'] {P' : ThingSetPersistence ι' V A'} {E : Eeprom δ} {mem : δ → Bytes}
  {Z : ZcborDecode} {d : δ} {buffer : Bytes}

variable (P') in
/-- `load` decodes like a subscriber that tells nobody. -/
theorem run_loadEntry_eq {σ : Type} (h : Decoder σ) (c : World ι' V A' × List ℕ) (key : ℕ) (s : σ) :
    run h (P'.loadEntry c.1 key) s =
      ((run h (P'.registry.subscribeEntry c key) s).1.map id Prod.fst,
        (run h (P'.registry.subscribeEntry c key) s).2) := by
  unfold loadEntry Registry.subscribeEntry
  cases P'.registry.findById key with
  | none => rfl
  | some node =>
    dsimp only
    split
    · rw [run_bind]
      rcases run h (P'.registry.decodeNode c.1 node) s with ⟨⟨decoded, w⟩, s'⟩
      cases decoded <;> rfl
    · rfl

/-- The header of what has been saved is not that of an empty EEPROM, and it has the version. -/
theorem newDecoder_of_simulates {chunk_lt : 2 * E.chunk < 2 ^ 63} {T : Bytes} {t : ZcborState}
    (h : (E.reader chunk_lt).Simulates T (E.Holds mem (E.headerOf T) T) t (E.newDecoder d 0 buffer).toStream)
    (hne : T ≠ []) (hlength : T.length < 65535) :
    (E.newDecoder d 0 buffer).isEmpty = false ∧ (E.newDecoder d 0 buffer).header.version = E.version := by
  have hheader := Eeprom.header_of_simulates h
  have hlen : (E.headerOf T).dataLen.toNat = T.length := UInt16.toNat_ofNat_of_lt' (hlength.trans (by decide))
  have hpos := List.length_pos_iff.2 hne
  rw [EepromIn.isEmpty, hheader]
  refine ⟨decide_eq_false ?_, rfl⟩
  rintro (hall | hnone)
  · rw [hall] at hlen
    exact hlength.ne hlen.symm
  · rw [hnone] at hlen
    exact hpos.ne hlen

/-- The values of the nodes that have been saved are taken over. -/
theorem load_of_saved (chunk_lt : 2 * E.chunk < 2 ^ 63) (hE : E.driver.Stores mem) (hcrc : Composes E.crc32)
    (hZ : Z.ItemLaws) (hcarries : P.Carries E.chunk w persisted)
    (hsaved : E.Saved mem 0 (bytesOf (P.encodeNodes w)) d) (hlength : (bytesOf (P.encodeNodes w)).length < 65535)
    (hmatches : ∀ node ∈ P.savedNodes, ∀ node' ∈ P'.registry.target (P.registry.node node).id,
      Matches Z E.chunk w node (P.registry.node node).kind (P'.registry.node node').kind)
    (w' : World ι' V A') (hbuffer : buffer.length = 2 * E.chunk) :
    P'.load E Z w' d buffer = (P'.registry.hasAll P.registry P.savedNodes,
      (P'.registry.takeOverAll P.registry w P.savedNodes (w', [])).1) := by
  obtain ⟨T, hT⟩ : ∃ T, T = bytesOf (P.encodeNodes w) := ⟨_, rfl⟩
  have hbytes := bytesOf_encodeNodes hcarries
  rw [← hT] at hsaved hlength hbytes
  have hsimulates := Eeprom.simulates_newDecoder chunk_lt hE hcrc hsaved (by omega) hbuffer
  have hne : T ≠ [] := by
    rw [hbytes]
    exact List.append_ne_nil_of_left_ne_nil (writeHead_ne_nil 5 _) _
  obtain ⟨hempty, hversion⟩ := newDecoder_of_simulates hsimulates hne hlength
  have hnodes : ∀ node ∈ P.savedNodes, Understood Z E.chunk P.registry w P'.registry node := by
    intro node hnode
    obtain ⟨hsubset, hencodable⟩ := mem_savedNodes.1 hnode
    exact ⟨(hcarries.values node hsubset hencodable).ok, hmatches node hnode⟩
  have hcount : (Eeprom.contentState T).elemCount ≠ 0 := one_ne_zero
  have hdepth : (Eeprom.contentState T).backups.length + 2 + 6 ≤ (Eeprom.contentState T).depth := Nat.le_refl 8
  have hplain : (Eeprom.contentState T).remaining =
      writeHead 5 P.savedNodes.length ++ (P.savedNodes.flatMap (P.pairOf w) ++ []) := by
    rw [Eeprom.remaining_contentState, hbytes, List.append_nil]
  obtain ⟨hrun, hremaining, heach⟩ := run_decodeNodes hZ hcarries.size_le P.savedNodes hnodes
    (length_savedNodes_le.trans_lt hcarries.nodes_lt) (w', []) hcount hdepth hplain
  obtain ⟨hsame, hend⟩ := Eeprom.run_streamingDecoder chunk_lt hE hcrc hsimulates heach
  have hmap := run_decodeMapById_map (f := Prod.fst) (run_loadEntry_eq P' (E.streamingDecoder Z)) (w', [])
    (E.newDecoder d 0 buffer)
  rw [← hsame, hrun] at hmap
  have hverify : P'.registry.hasAll P.registry P.savedNodes = true → (run (E.streamingDecoder Z)
      (decodeMapById P'.registry.subscribeEntry (w', [])) (E.newDecoder d 0 buffer)).2.verify = true := fun hall =>
    Eeprom.verify_of_simulates hend (hremaining hall)
  unfold load
  dsimp only at hmap ⊢
  rw [hempty, if_neg Bool.false_ne_true, if_neg (not_not.2 hversion), hmap]
  dsimp only [Prod.map, id]
  refine Prod.ext ?_ rfl
  dsimp only
  cases hall : P'.registry.hasAll P.registry P.savedNodes with
  | false => rfl
  | true => exact hverify hall

end Load

/-! ## The same program -/

section Restored

variable [DecidableEq ι] {w' w'' : World ι V A} {nodes : List ι}

/-- The nodes have what they had in `w`, and all others what they had in `w'`. -/
structure Restored (P : ThingSetPersistence ι V A) (nodes : List ι) (w w' w'' : World ι V A) : Prop where
  values : ∀ n ∈ nodes, ∀ c, (P.registry.node n).kind = .property c → w''.values n = w.values n
  elements : ∀ n ∈ nodes, ∀ i < P.sizeOf n, w''.elements n i = w.elements n i
  others : ∀ n ∉ nodes, w''.values n = w'.values n ∧ w''.elements n = w'.elements n

/-- What a node takes over of its own. -/
theorem restored_takeOver (n : ι) : P.Restored [n] w w' (P.registry.takeOver w n w' n) := by
  unfold Registry.takeOver
  refine ⟨fun m hm c hkind => ?_, fun m hm i hi => ?_, fun m hm => ?_⟩
  · obtain rfl := List.mem_singleton.1 hm
    rw [hkind]
    exact Function.update_self m (w.values m) w'.values
  · obtain rfl := List.mem_singleton.1 hm
    unfold sizeOf at hi
    cases hkind : (P.registry.node m).kind with
    | recordArray element size _ =>
      rw [hkind] at hi
      exact (congrFun (Function.update_self m _ w'.elements) i).trans (if_pos hi)
    | _ =>
      rw [hkind] at hi
      exact absurd hi (Nat.not_lt_zero i)
  · have hne : m ≠ n := fun h => hm (List.mem_singleton.2 h)
    cases (P.registry.node n).kind with
    | property => exact ⟨Function.update_of_ne hne _ _, rfl⟩
    | recordArray => exact ⟨rfl, Function.update_of_ne hne _ _⟩
    | _ => exact ⟨rfl, rfl⟩

theorem Restored.cons {n : ι} {w₁ : World ι V A} (h : P.Restored [n] w w' w₁) (hrest : P.Restored nodes w w₁ w'') :
    P.Restored (n :: nodes) w w' w'' := by
  refine ⟨fun m hm c hkind => ?_, fun m hm i hi => ?_, fun m hm => ?_⟩
  · by_cases hmem : m ∈ nodes
    · exact hrest.values m hmem c hkind
    · obtain rfl := (List.mem_cons.1 hm).resolve_right hmem
      exact (hrest.others m hmem).1.trans (h.values m (List.mem_singleton.2 rfl) c hkind)
  · by_cases hmem : m ∈ nodes
    · exact hrest.elements m hmem i hi
    · obtain rfl := (List.mem_cons.1 hm).resolve_right hmem
      rw [(hrest.others m hmem).2]
      exact h.elements m (List.mem_singleton.2 rfl) i hi
  · rw [List.mem_cons, not_or] at hm
    obtain ⟨hvalues, helements⟩ := hrest.others m hm.2
    obtain ⟨hvalues₁, helements₁⟩ := h.others m (fun hmem => hm.1 (List.mem_singleton.1 hmem))
    exact ⟨hvalues.trans hvalues₁, helements.trans helements₁⟩

/-- A program that finds each of the nodes by its id takes over all of them. -/
theorem restored_takeOverAll (htargets : ∀ n ∈ nodes, P.registry.target (P.registry.node n).id = some n)
    (c : World ι V A × List ℕ) :
    P.registry.hasAll P.registry nodes = true ∧
      P.Restored nodes w c.1 (P.registry.takeOverAll P.registry w nodes c).1 := by
  induction nodes generalizing c with
  | nil =>
    exact ⟨rfl, fun _ h => absurd h List.not_mem_nil, fun _ h => absurd h List.not_mem_nil, fun _ _ => ⟨rfl, rfl⟩⟩
  | cons n nodes ih =>
    have htarget := htargets n List.mem_cons_self
    obtain ⟨hall, hrest⟩ := ih (fun m hm => htargets m (List.mem_cons_of_mem n hm))
      (P.registry.takeOver w n c.1 n, c.2 ++ [(P.registry.node n).id])
    refine ⟨?_, ?_⟩
    · rw [Registry.hasAll, List.all_cons, htarget]
      exact hall
    · rw [Registry.takeOverAll, htarget]
      exact (restored_takeOver n).cons hrest

end Restored

/-! ## Saving and loading -/

section RoundTrip

variable {δ : Type} {E : Eeprom δ} {mem : δ → Bytes} {Ze : ZcborStreamEncode} {Zd : ZcborDecode} {d : δ}

/-- The persisted nodes can be encoded in chunks, and there is room for them on the device. -/
structure Savable (P : ThingSetPersistence ι V A) (E : Eeprom δ) (mem : δ → Bytes) (w : World ι V A) (d : δ) :
    Prop where
  carries : P.Carries E.chunk w persisted
  length_lt : (bytesOf (P.encodeNodes w)).length < 65535
  fits : EepromHeader.size + (bytesOf (P.encodeNodes w)).length ≤ (mem d).length

/-- The nodes of another program decode what the nodes with their ids encode. -/
def Loadable {ι' A' : Type} [DecidableEq ι'] (P : ThingSetPersistence ι V A) (P' : ThingSetPersistence ι' V A')
    (Zd : ZcborDecode) (chunk : ℕ) (w : World ι V A) : Prop :=
  ∀ node ∈ P.savedNodes, ∀ node' ∈ P'.registry.target (P.registry.node node).id,
    Matches Zd chunk w node (P.registry.node node).kind (P'.registry.node node').kind

/-- What can be saved is saved. -/
theorem saved_of_save (hE : E.driver.Stores mem) (hcrc : Composes E.crc32) (hattempts : 0 < E.attempts)
    (hZ : Ze.AppendsItems itemReference) (hitems : Ze.AcceptsItems) (h : P.Savable E mem w d) :
    (P.save E Ze w d).1 = true ∧ E.Saved mem 0 (bytesOf (P.encodeNodes w)) (P.save E Ze w d).2.out.device := by
  have hfits : 0 + EepromHeader.size + (bytesOf (P.encodeNodes w)).length ≤ (mem d).length := by
    rw [Nat.zero_add]
    exact h.fits
  obtain ⟨hok, hflush, hsaved⟩ := Eeprom.saved_of_carried hE hcrc hattempts hZ hitems (carried_encodeNodes h.carries)
    hfits 1
  unfold save saveTo
  dsimp only
  rw [if_pos hok]
  exact ⟨hflush, hsaved⟩

end RoundTrip

end ThingSetPersistence

theorem memoryDriver_stores : memoryDriver.Stores id := ⟨fun _ _ _ _ => ⟨rfl, rfl⟩, fun _ _ _ _ => ⟨rfl, rfl⟩⟩

theorem twoProperties_savedNodes : twoProperties.savedNodes = [.a, .b] := by decide +kernel

theorem twoProperties_savable : twoProperties.Savable memoryEeprom id sevens (List.replicate 32 0) :=
  ⟨twoProperties_carries (by decide), by decide +kernel, by decide +kernel⟩

end ThingSet
