import ThingSet.BinaryEncoder
import ThingSet.Text.Containers

/-!
# Values in CBOR

* `EncoderValue.cbor`: the bytes of a value.
* `encode_cbor`: the binary encoder appends them where it has the room and the states for them.
-/

namespace ThingSet

open Interaction Prog

/-- `BINARY_ENCODER_MAX_NULL_TERMINATED_STRING_LENGTH`. -/
def maxStringLength : ℕ := 256

/-- A container is started and closed around its elements, if a state is left for it. -/
def ZcborEncode.Encloses (start stop : ℕ → ZcborEncodeState → Bool × ZcborEncodeState) (major perEntry : ℕ) : Prop :=
  ∀ count s, count < 2 ^ 32 → s.backups.length + 2 < s.depth → (Cbor.writeHead major count).length ≤ s.room →
    ∃ s₁, start count s = (true, s₁) ∧ s₁.room = s.room - (Cbor.writeHead major count).length ∧
      s₁.depth = s.depth ∧ s₁.backups.length = s.backups.length + 1 ∧
        ∀ body : Bytes, body.length ≤ s₁.room →
          stop count (s₁.append body (perEntry * count)) = (true, s.append (Cbor.writeHead major count ++ body))

/-- What the code relies on of the encoding functions for values of any kind. -/
structure ZcborEncode.ValueLaws (E : ZcborEncode) : Prop extends E.IntegerLaws where
  bool : ∀ b s, 1 ≤ s.room → E.boolPut b s = (true, s.append [if b then 0xF5 else 0xF4])
  float : ∀ v s, 5 ≤ s.room → E.float32Encode v s = (true, s.append (0xFA :: Cbor.beBytes 4 v.toNat))
  double : ∀ v s, 9 ≤ s.room → E.float64Encode v s = (true, s.append (0xFB :: Cbor.beBytes 8 v.toNat))
  string : ∀ value s, value.length ≤ maxStringLength → (Cbor.writeHead 3 value.length ++ value).length ≤ s.room →
    E.tstrPutTerm value s = (true, s.append (Cbor.writeHead 3 value.length ++ value))
  list : Encloses E.listStartEncode E.listEndEncode 4 1
  map : Encloses E.mapStartEncode E.mapEndEncode 5 2

namespace EncoderValue

/-- The bytes of a value. -/
def cbor : EncoderValue → Bytes
  | uint _ n => Cbor.writeInt n
  | int _ i => Cbor.writeInt i
  | bool b => [if b then 0xF5 else 0xF4]
  | float v => 0xFA :: Cbor.beBytes 4 v.toNat
  | double v => 0xFB :: Cbor.beBytes 8 v.toNat
  | string s => Cbor.writeHead 3 s.length ++ s
  | list size item => Cbor.writeHead 4 size ++ (List.finRange size).flatMap fun i => (item i).cbor
  | map size key value =>
    Cbor.writeHead 5 size ++ (List.finRange size).flatMap fun i => (key i).cbor ++ (value i).cbor
  | array size element => Cbor.writeHead 4 size ++ (List.finRange size).flatMap fun i => (element i).cbor
  | arguments size arg => Cbor.writeHead 4 size ++ (List.finRange size).flatMap fun i => (arg i).cbor
  | record size id _ member =>
    Cbor.writeHead 5 size ++ (List.finRange size).flatMap fun i => Cbor.writeInt (id i) ++ (member i).cbor

/-- The integers and counts are in the range of their types. -/
def InRange : EncoderValue → Prop
  | uint w n => n < 2 ^ w.bits
  | int w i => -2 ^ (w.bits - 1) ≤ i ∧ i < 2 ^ (w.bits - 1)
  | bool _ => True
  | float _ => True
  | double _ => True
  | string _ => True
  | list size item => size < 2 ^ 32 ∧ ∀ i, (item i).InRange
  | map size key value => size < 2 ^ 32 ∧ ∀ i, (key i).InRange ∧ (value i).InRange
  | array size element => size < 2 ^ 32 ∧ ∀ i, (element i).InRange
  | arguments size arg => size < 2 ^ 32 ∧ ∀ i, (arg i).InRange
  | record size id _ member => size < 2 ^ 32 ∧ ∀ i, id i < 2 ^ 32 ∧ (member i).InRange

/-- Each string has a property, and each name of a record member. -/
def EachString (P Q : Bytes → Prop) : EncoderValue → Prop
  | uint .. => True
  | int .. => True
  | bool _ => True
  | float _ => True
  | double _ => True
  | string s => P s
  | list _ item => ∀ i, (item i).EachString P Q
  | map _ key value => ∀ i, (key i).EachString P Q ∧ (value i).EachString P Q
  | array _ element => ∀ i, (element i).EachString P Q
  | arguments _ arg => ∀ i, (arg i).EachString P Q
  | record _ _ name member => ∀ i, Q (name i) ∧ (member i).EachString P Q

/-- At most `k` containers are within each other. -/
def NestsWithin : ℕ → EncoderValue → Prop
  | _, uint .. => True
  | _, int .. => True
  | _, bool _ => True
  | _, float _ => True
  | _, double _ => True
  | _, string _ => True
  | k, list _ item => 0 < k ∧ ∀ i, (item i).NestsWithin (k - 1)
  | k, map _ key value => 0 < k ∧ ∀ i, (key i).NestsWithin (k - 1) ∧ (value i).NestsWithin (k - 1)
  | k, array _ element => 0 < k ∧ ∀ i, (element i).NestsWithin (k - 1)
  | k, arguments _ arg => 0 < k ∧ ∀ i, (arg i).NestsWithin (k - 1)
  | k, record _ _ _ member => 0 < k ∧ ∀ i, (member i).NestsWithin (k - 1)

end EncoderValue

/-- A string that the binary encoder takes as a whole. -/
def IsShort (s : Bytes) : Prop := 0 ∉ s ∧ s.length ≤ maxStringLength

/-! ## What is appended -/

section Append

variable {E : ZcborEncode} {k m n : ℕ} {p : Encoding Bool} {bs bs' : Bytes} {s : ZcborEncodeState}

/-- Where there is room, and a state for each of `k` containers within each other, `p` appends `n` elements. -/
def Puts (E : ZcborEncode) (k : ℕ) (p : Encoding Bool) (bs : Bytes) (n : ℕ) : Prop :=
  ∀ s : ZcborEncodeState, s.backups.length + 2 + k ≤ s.depth → bs.length ≤ s.room →
    run (binaryEncoder E) p s = (true, s.append bs n)

theorem append_nil (s : ZcborEncodeState) : s.append [] 0 = s := by simp [ZcborEncodeState.append]

theorem Puts.nil : Puts E k (encodeAll []) [] 0 := fun s _ _ => by rw [append_nil]; rfl

theorem Puts.cons {ps : List (Encoding Bool)} (hp : Puts E k p bs m) (hps : Puts E k (encodeAll ps) bs' n) :
    Puts E k (encodeAll (p :: ps)) (bs ++ bs') (m + n) := by
  intro s hdepth hroom
  rw [List.length_append] at hroom
  rw [encodeAll, run_bind, hp s hdepth (by omega)]
  dsimp only
  rw [if_pos rfl, hps (s.append bs m) hdepth (by rw [ZcborEncodeState.room_append]; omega),
    ZcborEncodeState.append_append]

theorem puts_listSeparator : Puts E k (encode .listSeparator) [] 0 := fun s _ _ => by rw [append_nil]; rfl

theorem puts_keyValuePairSeparator : Puts E k (encode .keyValuePairSeparator) [] 0 :=
  fun s _ _ => by rw [append_nil]; rfl

/-- Some values, and what comes behind them. -/
theorem run_encodeAll_map {ι : Type} (is : List ι) {program : ι → Encoding Bool} {bytes : ι → Bytes}
    (h : ∀ i, Puts E k (program i) (bytes i) n) (hdepth : s.backups.length + 2 + k ≤ s.depth)
    (hroom : (is.flatMap bytes).length ≤ s.room) (ps : List (Encoding Bool)) :
    run (binaryEncoder E) (encodeAll (is.map program ++ ps)) s =
      run (binaryEncoder E) (encodeAll ps) (s.append (is.flatMap bytes) (n * is.length)) := by
  induction is generalizing s with
  | nil =>
    rw [List.flatMap_nil, List.length_nil, Nat.mul_zero, append_nil]
    rfl
  | cons i is ih =>
    rw [List.flatMap_cons, List.length_append] at hroom
    rw [List.map_cons, List.cons_append, encodeAll, run_bind, h i s hdepth (by omega)]
    dsimp only
    rw [if_pos rfl, ih (s := s.append (bytes i) n) hdepth (by rw [ZcborEncodeState.room_append]; omega),
      ZcborEncodeState.append_append, List.flatMap_cons, List.length_cons, Nat.mul_succ, Nat.add_comm n]

/-- The elements of an array. -/
theorem run_encodeElements {ι : Type} (is : List ι) {program : ι → Encoding Bool} {bytes : ι → Bytes}
    (h : ∀ i, Puts E k (program i) (bytes i) 1) (hdepth : s.backups.length + 2 + k ≤ s.depth)
    (hroom : (is.flatMap bytes).length ≤ s.room) :
    run (binaryEncoder E) (encodeElements (is.map program) true) s =
      (true, s.append (is.flatMap bytes) (1 * is.length)) := by
  induction is generalizing s with
  | nil =>
    rw [List.flatMap_nil, List.length_nil, Nat.mul_zero, append_nil]
    rfl
  | cons i is ih =>
    rw [List.flatMap_cons, List.length_append] at hroom
    have hfirst : Puts E k (encodeAll [program i, encode .listSeparator]) (bytes i ++ ([] ++ [])) (1 + (0 + 0)) :=
      (h i).cons (puts_listSeparator.cons .nil)
    rw [List.append_nil, List.append_nil] at hfirst
    rw [List.map_cons, encodeElements, run_bind, hfirst s hdepth (by omega), Bool.true_and]
    rw [ih (s := s.append (bytes i) 1) hdepth (by rw [ZcborEncodeState.room_append]; omega),
      ZcborEncodeState.append_append, List.flatMap_cons, List.length_cons, Nat.mul_succ, Nat.add_comm]

/-- The calls for a member. -/
theorem run_encodeMember_id {size : ℕ} (id : Fin size → ℕ) (name : Fin size → Bytes) (i : Fin size)
    (p : Encoding Bool) (s : ZcborEncodeState) :
    run (binaryEncoder E) (encodeMember id name i p) s =
      ((), (run (binaryEncoder E) p (E.uint32Encode (id i) s).2).2) := by
  have hkeys : run (binaryEncoder E) (encode .encodeKeysAsIds) s = (true, s) := rfl
  rw [encodeMember, run_bind, hkeys]
  dsimp only
  rw [if_pos rfl, run_bind, run_bind, run_bind, run_bind]
  rfl

/-- The members of a structure. -/
theorem run_encodeMembers {size : ℕ} {id : Fin size → ℕ} {name : Fin size → Bytes} {value : Fin size → Encoding Bool}
    {bytes : Fin size → Bytes} (is : List (Fin size)) (hE : E.IntegerLaws) (hid : ∀ i ∈ is, id i < 2 ^ 32)
    (h : ∀ i ∈ is, Puts E k (value i) (bytes i) 1) (hdepth : s.backups.length + 2 + k ≤ s.depth)
    (hroom : (is.flatMap fun i => Cbor.writeInt (id i) ++ bytes i).length ≤ s.room) :
    run (binaryEncoder E) (encodeMembers id name value is) s =
      ((), s.append (is.flatMap fun i => Cbor.writeInt (id i) ++ bytes i) (2 * is.length)) := by
  induction is generalizing s with
  | nil =>
    rw [List.flatMap_nil, List.length_nil, Nat.mul_zero, append_nil]
    rfl
  | cons i is ih =>
    rw [List.flatMap_cons, List.length_append, List.length_append] at hroom
    have hkey := hE.uint32 (id i) s (hid i List.mem_cons_self) (by omega)
    have hvalue := h i List.mem_cons_self (s.append (Cbor.writeInt (id i))) hdepth (by rw [ZcborEncodeState.room_append]; omega)
    rw [ZcborEncodeState.append_append] at hvalue
    rw [encodeMembers, run_bind, run_encodeMember_id, hkey, hvalue]
    rw [ih (fun j hj => hid j (List.mem_cons_of_mem i hj)) (fun j hj => h j (List.mem_cons_of_mem i hj))
      (s := s.append (Cbor.writeInt (id i) ++ bytes i) 2) hdepth (by rw [ZcborEncodeState.room_append, List.length_append]; omega),
      ZcborEncodeState.append_append, List.flatMap_cons, List.length_cons, Nat.mul_succ, Nat.add_comm]

/-- A container is started and closed. -/
theorem ZcborEncode.Encloses.spec {start stop : ℕ → ZcborEncodeState → Bool × ZcborEncodeState} {major perEntry count : ℕ}
    {body : Bytes} (h : ZcborEncode.Encloses start stop major perEntry) (hcount : count < 2 ^ 32) (hk : 0 < k)
    (hdepth : s.backups.length + 2 + k ≤ s.depth) (hroom : (Cbor.writeHead major count ++ body).length ≤ s.room) :
    ∃ s₁, start count s = (true, s₁) ∧ s₁.backups.length + 2 + (k - 1) ≤ s₁.depth ∧ body.length ≤ s₁.room ∧
      stop count (s₁.append body (perEntry * count)) = (true, s.append (Cbor.writeHead major count ++ body)) := by
  rw [List.length_append] at hroom
  obtain ⟨s₁, hstart, hroom₁, hdepth₁, hbackups₁, hstop⟩ := h count s hcount (by omega) (by omega)
  exact ⟨s₁, hstart, by omega, by omega, hstop body (by omega)⟩

/-- An array is appended as the list of its elements. -/
theorem puts_encodeArray {size : ℕ} {program : ℕ → Encoding Bool} {bytes : Fin size → Bytes} (hE : E.ValueLaws)
    (hsize : size < 2 ^ 32) (hk : 0 < k) (h : ∀ i : Fin size, Puts E (k - 1) (program i) (bytes i) 1) :
    Puts E k (encodeArray program size) (Cbor.writeHead 4 size ++ (List.finRange size).flatMap bytes) 1 := by
  intro s hdepth hroom
  obtain ⟨s₁, hstart, hdepth₁, hroom₁, hstop⟩ := hE.list.spec hsize hk hdepth hroom
  have helements := run_encodeElements (List.finRange size) h hdepth₁ hroom₁
  rw [List.length_finRange] at helements
  have hrange : (List.range size).map program = (List.finRange size).map fun i : Fin size => program i.val := by
    rw [← List.map_coe_finRange_eq_range, List.map_map]
    rfl
  have hrendered : run (binaryEncoder E) (encode (.renderedListLength size)) s = (size, s) := rfl
  have hstart' : run (binaryEncoder E) (encode (.listStart (some size))) s = (true, s₁) := hstart
  rw [encodeArray, run_bind, hrendered]
  dsimp only
  rw [run_bind, hstart', run_bind, hrange, helements, if_neg (Nat.lt_irrefl size), run_bind, run_pure]
  exact hstop

/-- **The binary encoder appends the bytes of a value.** -/
theorem puts_encode (hE : E.ValueLaws) (v : EncoderValue) (hrange : v.InRange)
    (hstrings : v.EachString IsShort fun _ => True) (hnest : v.NestsWithin k) : Puts E k v.encode v.cbor 1 := by
  induction v generalizing k with
  | uint w n =>
    intro s _ hroom
    change BinaryEncoder.uint E w n s = _
    have hlt : n < 2 ^ 64 := Nat.lt_of_lt_of_le hrange (Nat.pow_le_pow_right (by decide) (by cases w <;> decide))
    cases w with
    | w8 => exact hE.uint32 n s (Nat.lt_of_lt_of_le hrange (by decide)) hroom
    | w16 => exact hE.uint32 n s (Nat.lt_of_lt_of_le hrange (by decide)) hroom
    | w32 => exact hE.uint32 n s hrange hroom
    | w64 => exact hE.uint64 n s hlt hroom
  | int w i =>
    intro s _ hroom
    obtain ⟨hlo, hhi⟩ := hrange
    change BinaryEncoder.int E w i s = _
    cases w with
    | w8 => exact hE.int32 i s ⟨by simp [IntWidth.bits] at hlo; omega, by simp [IntWidth.bits] at hhi; omega⟩ hroom
    | w16 => exact hE.int32 i s ⟨by simp [IntWidth.bits] at hlo; omega, by simp [IntWidth.bits] at hhi; omega⟩ hroom
    | w32 => exact hE.int32 i s ⟨hlo, hhi⟩ hroom
    | w64 => exact hE.int64 i s ⟨hlo, hhi⟩ hroom
  | bool b => exact fun s _ hroom => hE.bool b s hroom
  | float v => exact fun s _ hroom => hE.float v s (by simpa [EncoderValue.cbor] using hroom)
  | double v => exact fun s _ hroom => hE.double v s (by simpa [EncoderValue.cbor] using hroom)
  | string value =>
    intro s _ hroom
    have hzero : value.takeWhile (· ≠ 0) = value := by
      refine List.takeWhile_eq_self_iff.2 fun c hc => ?_
      rw [decide_eq_true_eq]
      rintro rfl
      exact hstrings.1 hc
    change E.tstrPutTerm (value.takeWhile (· ≠ 0)) s = _
    rw [hzero]
    exact hE.string value s hstrings.2 hroom
  | list size item ih =>
    intro s hdepth hroom
    obtain ⟨hsize, hrange⟩ := hrange
    obtain ⟨hk, hnest⟩ := hnest
    obtain ⟨s₁, hstart, hdepth₁, hroom₁, hstop⟩ := hE.list.spec hsize hk hdepth hroom
    have hitems := run_encodeAll_map (List.finRange size) (fun i => ih i (hrange i) (hstrings i) (hnest i)) hdepth₁ hroom₁
    rw [List.length_finRange] at hitems
    have hstart' : run (binaryEncoder E) (encode (.listStart (some size))) s = (true, s₁) := hstart
    have hend : run (binaryEncoder E) (encode (.listEnd (some size))) (s₁.append _ (1 * size)) = (true, _) := hstop
    rw [EncoderValue.encode, encodeStdList, List.length_map, List.length_finRange, encodeAll, run_bind, hstart']
    dsimp only
    rw [if_pos rfl, hitems, encodeAll, run_bind, hend]
    rfl
  | map size key value ihk ihv =>
    intro s hdepth hroom
    obtain ⟨hsize, hrange⟩ := hrange
    obtain ⟨hk, hnest⟩ := hnest
    obtain ⟨s₁, hstart, hdepth₁, hroom₁, hstop⟩ := hE.map.spec hsize hk hdepth hroom
    have hpair (i : Fin size) : Puts E (k - 1) (encodePair (key i).encode (value i).encode)
        ((key i).cbor ++ (value i).cbor) 2 := by
      have h := (ihk i (hrange i).1 (hstrings i).1 (hnest i).1).cons (puts_keyValuePairSeparator.cons
        ((ihv i (hrange i).2 (hstrings i).2 (hnest i).2).cons (puts_listSeparator.cons .nil)))
      rw [List.append_nil, List.append_nil, List.nil_append] at h
      exact h
    have hpairs := run_encodeAll_map (List.finRange size) hpair hdepth₁ hroom₁
    rw [List.length_finRange] at hpairs
    have hstart' : run (binaryEncoder E) (encode (.mapStart (some size))) s = (true, s₁) := hstart
    have hend : run (binaryEncoder E) (encode (.mapEnd (some size))) (s₁.append _ (2 * size)) = (true, _) := hstop
    rw [EncoderValue.encode, encodeStdMap, List.length_map, List.length_finRange, encodeAll, run_bind, hstart']
    dsimp only
    rw [if_pos rfl, hpairs, encodeAll, run_bind, hend]
    rfl
  | array size element ih =>
    obtain ⟨hsize, hrange⟩ := hrange
    obtain ⟨hk, hnest⟩ := hnest
    refine puts_encodeArray hE hsize hk fun i => ?_
    rw [elementAt, dif_pos i.isLt]
    exact ih i (hrange i) (hstrings i) (hnest i)
  | arguments size arg ih =>
    intro s hdepth hroom
    obtain ⟨hsize, hrange⟩ := hrange
    obtain ⟨hk, hnest⟩ := hnest
    obtain ⟨s₁, hstart, hdepth₁, hroom₁, hstop⟩ := hE.list.spec hsize hk hdepth hroom
    have harg (i : Fin size) : Puts E (k - 1) (encodeAll [(arg i).encode, encode .listSeparator]) (arg i).cbor 1 := by
      have h := (ih i (hrange i) (hstrings i) (hnest i)).cons (puts_listSeparator.cons .nil)
      rw [List.append_nil, List.append_nil] at h
      exact h
    have hargs := run_encodeAll_map (List.finRange size) harg hdepth₁ hroom₁ []
    rw [List.length_finRange, List.append_nil] at hargs
    have hstart' : run (binaryEncoder E) (encode (.listStart (some size))) s = (true, s₁) := hstart
    have hend : run (binaryEncoder E) (encode (.listEnd (some size))) (s₁.append _ (1 * size)) = (true, _) := hstop
    rw [EncoderValue.encode, encodeList, List.length_map, List.length_finRange, List.map_map, encodeAll, run_bind,
      hstart']
    dsimp only
    have hall : run (binaryEncoder E) (encodeAll ((List.finRange size).map
        ((fun p => encodeAll [p, encode .listSeparator]) ∘ fun i => (arg i).encode))) s₁ = (true, _) := hargs
    rw [if_pos rfl, encodeAll, run_bind, hall]
    dsimp only
    rw [if_pos rfl, encodeAll, run_bind, hend]
    rfl
  | record size id name member ih =>
    intro s hdepth hroom
    obtain ⟨hsize, hrange⟩ := hrange
    obtain ⟨hk, hnest⟩ := hnest
    obtain ⟨s₁, hstart, hdepth₁, hroom₁, hstop⟩ := hE.map.spec hsize hk hdepth hroom
    have hmembers : run (binaryEncoder E) (encodeMembers id name _ (List.finRange size)) s₁ = _ :=
      run_encodeMembers _ hE.toIntegerLaws (fun i _ => (hrange i).1)
        (fun i _ => ih i (hrange i).2 (hstrings i).2 (hnest i)) hdepth₁ hroom₁
    rw [List.length_finRange] at hmembers
    have hstart' : run (binaryEncoder E) (encode (.mapStart (some size))) s = (true, s₁) := hstart
    rw [EncoderValue.encode, encodeRecord_eq, run_bind, hstart']
    dsimp only
    rw [Bool.not_true, if_neg Bool.false_ne_true, run_bind, hmembers]
    exact hstop

end Append

end ThingSet
