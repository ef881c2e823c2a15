import ThingSet.Eeprom.Encoder
import ThingSet.Server.RequestBuffer

/-!
# Saving to an EEPROM

`ThingSetPersistence::save` encodes the nodes of the subset `persisted` as a map from their ids, with the
encoder of an EEPROM.

* `save_fst_eq`: what `save` returns depends on the nodes and on the size of a chunk, not on the EEPROM.
* `stored_iff_storable`: `write`, and so `save`, reports what could not be stored only when everything
  could be.
-/

namespace ThingSet

open Interaction Prog

namespace StreamingEncoder

variable {ω ω' : Type} (C : StreamingEncoder ω) (Z : ZcborStreamEncode)

/-- The virtual functions of a streaming encoder. -/
def toEncoder : Encoder (StreamingEncodeState ω)
  | .string value, s => C.encode Z (.string value) s
  | .float value, s => C.encode Z (.float value) s
  | .double value, s => C.encode Z (.double value) s
  | .bool value, s => C.encode Z (.bool value) s
  | .uint w value, s => C.encode Z (.uint w value) s
  | .int w value, s => C.encode Z (.int w value) s
  | .null, s => C.encode Z .null s
  | .preamble, s => C.encode Z .preamble s
  | .listStart count, s => C.encode Z (.listStart count) s
  | .listEnd count, s => C.encode Z (.listEnd count) s
  | .mapStart count, s => C.encode Z (.mapStart count) s
  | .mapEnd count, s => C.encode Z (.mapEnd count) s
  | .bytes buffer, s => C.encode Z (.bytes buffer) s
  | .listSeparator, s => (true, s)
  | .keyValuePairSeparator, s => (true, s)
  | .encodeKeysAsIds, s => (true, s)
  | .renderGroupAsOutline, s => (false, s)
  | .renderedListLength size, s => (size, s)
  | .truncationMarker, s => (true, s)

theorem toEncoder_snd (o : EncodeOp) (s : StreamingEncodeState ω) :
    (C.toEncoder Z o s).2 = (C.encode Z o s).2 := by
  cases o <;> rfl

/-! ## Encoders that accept all chunks -/

/-- Every call of `write` returns true. -/
def Accepts : Prop := ∀ payload flushing exportedLength out,
  (C.write payload flushing exportedLength out).1 = true

/-- A streaming encoder that writes nowhere. -/
def sink (size : ℕ) (size_pos : 0 < size) : StreamingEncoder Unit where
  size := size
  headerSize := 0
  headerSize_lt := size_pos
  reportType := none
  write _ _ _ out := (true, out)

variable {C Z} {C' : StreamingEncoder ω'} {s : StreamingEncodeState ω} {s' : StreamingEncodeState ω'}

theorem writeIfNecessary_of_accepts (hC : C.Accepts) (hC' : C'.Accepts) (hsize : C.size = C'.size)
    (hheader : C.headerSize = C'.headerSize) (hs : s.zcbor = s'.zcbor) :
    (C.writeIfNecessary s).1 = true ∧ (C'.writeIfNecessary s').1 = true ∧
      (C.writeIfNecessary s).2.zcbor = (C'.writeIfNecessary s').2.zcbor := by
  have hdata : C.dataSize = C'.dataSize := by rw [dataSize, dataSize, hsize, hheader]
  simp only [writeIfNecessary, hs, hC _ _ _ _, hC' _ _ _ _, hdata, hsize, Bool.not_true,
    Bool.false_eq_true, if_false]
  split <;> exact ⟨rfl, rfl, by first | rfl | exact hs⟩

/-- Encoders that accept all chunks encode alike. -/
theorem encode_of_accepts (hC : C.Accepts) (hC' : C'.Accepts) (hsize : C.size = C'.size)
    (hheader : C.headerSize = C'.headerSize) (hs : s.zcbor = s'.zcbor) (o : EncodeOp) :
    (C.encode Z o s).1 = (C'.encode Z o s').1 ∧
      (C.encode Z o s).2.zcbor = (C'.encode Z o s').2.zcbor := by
  obtain ⟨hok, hok', hzcbor⟩ := writeIfNecessary_of_accepts hC hC' hsize hheader hs
  rw [encode, encode]
  split
  · exact ⟨rfl, hs⟩
  · rcases hw : C.writeIfNecessary s with ⟨ok, s₁⟩
    rcases hw' : C'.writeIfNecessary s' with ⟨ok', s₁'⟩
    rw [hw, hw'] at hzcbor
    obtain rfl : ok = true := by rw [← hok, hw]
    obtain rfl : ok' = true := by rw [← hok', hw']
    dsimp only at hzcbor ⊢
    simp only [if_true, hzcbor, and_self]

theorem toEncoder_of_accepts (hC : C.Accepts) (hC' : C'.Accepts) (hsize : C.size = C'.size)
    (hheader : C.headerSize = C'.headerSize) (o : EncodeOp) (s : StreamingEncodeState ω)
    (s' : StreamingEncodeState ω') (hs : s.zcbor = s'.zcbor) :
    (C.toEncoder Z o s).1 = (C'.toEncoder Z o s').1 ∧
      (C.toEncoder Z o s).2.zcbor = (C'.toEncoder Z o s').2.zcbor := by
  have hencode := encode_of_accepts (Z := Z) hC hC' hsize hheader hs
  cases o <;> first | exact hencode _ | exact ⟨rfl, hs⟩

theorem flush_of_accepts (hC : C.Accepts) (hC' : C'.Accepts) (hsize : C.size = C'.size)
    (hheader : C.headerSize = C'.headerSize) (hs : s.zcbor = s'.zcbor) :
    (C.flush s).1 = (C'.flush s').1 := by
  obtain ⟨hok, hok', -⟩ := writeIfNecessary_of_accepts hC hC' hsize hheader hs
  have hdata : C.dataSize = C'.dataSize := by rw [dataSize, dataSize, hsize, hheader]
  rw [flush, flush, hs, hdata]
  split
  · rcases hw : C.writeIfNecessary s with ⟨ok, s₁⟩
    rcases hw' : C'.writeIfNecessary s' with ⟨ok', s₁'⟩
    obtain rfl : ok = true := by rw [← hok, hw]
    obtain rfl : ok' = true := by rw [← hok', hw']
    simp only [writeLast, hC _ _ _ _, hC' _ _ _ _, Bool.not_true, Bool.false_eq_true, if_false]
  · simp only [writeLast, hC _ _ _ _, hC' _ _ _ _]

end StreamingEncoder

/-! ## Saving -/

/-- The nodes in the order of the iterator of the registry. -/
def Registry.nodes {ι V A : Type} (R : Registry ι V A) : List ι := (List.finRange 8).flatMap R.nodeMap

/-- The registry that is saved and loaded, with `getSubsets` of its nodes. -/
structure ThingSetPersistence (ι V A : Type) where
  registry : Registry ι V A
  subsets : ι → UInt32

/-- `Subset::persisted`. -/
def persisted : UInt32 := 1

namespace ThingSetPersistence

variable {ι V A ω ω' : Type} (P : ThingSetPersistence ι V A)

/-- `ThingSetRegistry::nodesInSubset`. -/
def nodesInSubset (s : UInt32) : List ι := P.registry.nodes.filter fun n => P.subsets n &&& s = s

/-- The nodes that `save` encodes. -/
def savedNodes : List ι :=
  (P.nodesInSubset persisted).filter fun n => (P.registry.node n).kind.tryCastTo .encodable

/-- What `save` encodes. -/
def encodeNodes (w : World ι V A) : Encoding Bool :=
  encodeAll (encode (.mapStart (some P.savedNodes.length)) ::
    (P.savedNodes.map (fun n =>
      encodePair (encode (.uint .w16 (P.registry.node n).id)) (P.registry.encodeNode w sizeMax n)) ++
    [encode (.mapEnd (some P.savedNodes.length))]))

/-- `save` with an encoder. -/
def saveTo (C : StreamingEncoder ω) (Z : ZcborStreamEncode) (w : World ι V A) (out : ω) :
    Bool × StreamingEncodeState ω :=
  let (ok, s) := run (C.toEncoder Z) (P.encodeNodes w) (C.new 1 out)
  if ok then C.flush s else (false, s)

/-- `save`. -/
def save {δ : Type} (E : Eeprom δ) (Z : ZcborStreamEncode) (w : World ι V A) (device : δ) :
    Bool × StreamingEncodeState (EepromOut δ) := P.saveTo E.streamingEncoder Z w (.new device 0)

/-- The nodes are encoded, whatever becomes of the chunks. -/
def Encodes (Z : ZcborStreamEncode) (w : World ι V A) (chunk : ℕ) (chunk_pos : 0 < chunk) : Prop :=
  (P.saveTo (.sink chunk chunk_pos) Z w ()).1 = true

variable {P} {Z : ZcborStreamEncode} {w : World ι V A}

/-- Encoders that accept all chunks save alike. -/
theorem saveTo_of_accepts (C : StreamingEncoder ω) (C' : StreamingEncoder ω') (hC : C.Accepts)
    (hC' : C'.Accepts) (hsize : C.size = C'.size) (hheader : C.headerSize = C'.headerSize)
    (htype : C.reportType = C'.reportType) (out : ω) (out' : ω') :
    (P.saveTo C Z w out).1 = (P.saveTo C' Z w out').1 := by
  have hnew : (C.new 1 out).zcbor = (C'.new 1 out').zcbor := by
    simp only [StreamingEncoder.new, hsize, hheader, htype]
  obtain ⟨hrun, hzcbor⟩ := run_sim
    (R := fun (s : StreamingEncodeState ω) (s' : StreamingEncodeState ω') => s.zcbor = s'.zcbor)
    (StreamingEncoder.toEncoder_of_accepts (Z := Z) hC hC' hsize hheader) (P.encodeNodes w) hnew
  rw [saveTo, saveTo]
  rcases hr : run (C.toEncoder Z) (P.encodeNodes w) (C.new 1 out) with ⟨ok, s⟩
  rcases hr' : run (C'.toEncoder Z) (P.encodeNodes w) (C'.new 1 out') with ⟨ok', s'⟩
  rw [hr, hr'] at hrun hzcbor
  obtain rfl : ok = ok' := hrun
  dsimp only at hzcbor ⊢
  split
  · exact StreamingEncoder.flush_of_accepts hC hC' hsize hheader hzcbor
  · rfl

variable {δ : Type} (E : Eeprom δ) (device : δ)

/-- What `save` returns does not depend on the EEPROM. -/
theorem save_fst_eq :
    (P.save E Z w device).1 = (P.saveTo (.sink E.chunk E.chunk_pos) Z w ()).1 :=
  saveTo_of_accepts E.streamingEncoder (.sink E.chunk E.chunk_pos)
    (fun _ _ _ _ => Eeprom.write_fst) (fun _ _ _ _ => rfl) rfl rfl rfl _ _

variable (P Z w)

/-- When `save` returns true, every chunk has been stored. -/
def Reports : Prop :=
  (P.save E Z w device).1 = true → ∀ c ∈ (P.save E Z w device).2.out.writes, E.Stored c

variable {P Z w}

/-- **A call of `write` reports that a chunk could not be stored exactly when it could be, and `save`
exactly when all chunks could be or the nodes are not encoded.** -/
theorem reports_iff_storable (E : Eeprom δ) :
    (∀ payload flushing o,
        E.Reports payload flushing o ↔ E.Storable ⟨o.offset, payload, o.device⟩) ∧
      ∀ (P : ThingSetPersistence ι V A) (Z : ZcborStreamEncode) (w : World ι V A) (device : δ),
        P.Reports Z w E device ↔
          ¬ P.Encodes Z w E.chunk E.chunk_pos ∨
            ∀ c ∈ (P.save E Z w device).2.out.writes, E.Storable c := by
  refine ⟨fun _ _ _ => Eeprom.reports_iff, fun P Z w device => ?_⟩
  simp only [Reports, Encodes, save_fst_eq, Eeprom.stored_iff, imp_iff_not_or]

end ThingSetPersistence

/-! ## A device that fails -/

/-- A device that is not there. -/
def deadEeprom : Eeprom Unit where
  driver := ⟨fun _ _ d => (-5, d), fun _ _ d => ((-5, []), d)⟩
  crc32 := crc32IeeeUpdate
  chunk := 251
  chunk_pos := by decide
  attempts := 3
  version := 1

/-- A registry with one property, which is persisted. -/
def persistedProperty : ThingSetPersistence SmallNode ℕ Unit where
  registry := (oneProperty acceptAll).registry
  subsets n := if n = .a then persisted else 0

/-- `write` returns true, with another checksum and another offset, and so does `save`. -/
theorem deadEeprom_not_reports :
    ¬ deadEeprom.Reports [0] false (.new () 0) ∧
      ¬ persistedProperty.Reports zcborStreamReference ⟨fun _ => 7, fun _ _ => 0, fun _ => [], ()⟩
        deadEeprom () := by
  refine ⟨fun h => ?_, fun h => ?_⟩
  · exact absurd (h (by decide)).1 (by decide)
  · exact absurd (h (by decide +kernel) ⟨8, [0xA1, 0x18, 0x22, 0x07], ()⟩ (by decide +kernel)) (by decide)

end ThingSet
