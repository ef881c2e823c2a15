import ThingSet.Text.Space
import ThingSet.Zcbor.Values

/-!
# Structures that are cut off

`ThingSetEncoder::encode` of a structure returns what the end of the map returns; whether the keys and values of the
members were written is not tested.

* `wholeText_iff`: in text the result tells that the structure is complete if and only if its text fits, with no
  string cut at a NUL, or the texts that fit take up all the space, so that the bracket does not fit.
* `wholeCbor_of_fits`, `wholeCbor_iff`: in CBOR, if it fits, or not even the head of the map does; for members that
  are scalars and strings this is exact.
-/

namespace ThingSet

open Interaction Prog TextEncoderState TextEncoder

/-! ## Text -/

section Text

variable {E : TextEncoderConfig} {size : ℕ} {id : Fin size → ℕ} {name : Fin size → Bytes}
  {member : Fin size → EncoderValue} {s : TextEncoderState}

/-- When the text encoder returns true it has written the value, and no string has been cut. -/
def WholeText (E : TextEncoderConfig) (v : EncoderValue) (s : TextEncoderState) : Prop :=
  let r := run (textEncoder E) v.encode s
  r.1 = true → v.EachString (0 ∉ ·) (0 ∉ ·) ∧ r.2.written = s.written ++ v.text E

/-- The brace and the texts of the members that fit take up the space, and the last one is no comma. -/
def TakesUp (E : TextEncoderConfig) (name : Fin size → Bytes) (member : Fin size → EncoderValue) (free : ℕ) : Prop :=
  free = 0 ∨
    let x := TextSpace.members ((List.finRange size).map fun i => (name i, (member i).space E)) ⟨free - 1, 0x7B⟩
    x.free = 0 ∧ x.last ≠ 0x2C

theorem space_record (x : TextSpace) :
    ((EncoderValue.record size id name member).space E x).1 = false ↔ TakesUp E name member x.free := by
  unfold EncoderValue.space TakesUp TextSpace.put
  dsimp only
  by_cases hfree : x.free = 0
  · rw [if_pos hfree, if_neg Bool.false_ne_true]
    exact iff_of_true rfl (.inl hfree)
  · rw [if_neg hfree, if_pos rfl, or_iff_right hfree]
    generalize TextSpace.members _ _ = y
    unfold TextSpace.stop TextSpace.put
    by_cases hcomma : y.last = 0x2C
    · rw [if_pos hcomma]
      exact iff_of_false (by simp) fun h => h.2 hcomma
    · rw [if_neg hcomma, and_iff_left hcomma]
      by_cases hfull : y.free = 0
      · rw [if_pos hfull]
        exact iff_of_true rfl hfull
      · rw [if_neg hfull]
        exact iff_of_false (by simp) hfull

/-- The text encoder returns true unless the space is taken up. -/
theorem run_record_iff (hs : NoAbbreviation E s) (hpos : s.responsePosition ≤ s.responseBuffer.length) :
    (run (textEncoder E) (EncoderValue.record size id name member).encode s).1 = false ↔
      TakesUp E name member (s.responseBuffer.length - s.responsePosition) := by
  have hspace : HasSpace E s.responseBuffer.length s
      ⟨s.responseBuffer.length - s.responsePosition, s.written.getLastD 0⟩ :=
    ⟨rfl, Nat.add_sub_cancel' hpos, rfl, hs⟩
  rw [(follows_encode (.record size id name member) s _ hspace).1]
  exact space_record _

/-- What is written is in the buffer. -/
theorem length_written_le (hs : NoAbbreviation E s) (hpos : s.responsePosition ≤ s.responseBuffer.length)
    (v : EncoderValue) : (run (textEncoder E) v.encode s).2.written.length ≤ s.responseBuffer.length := by
  have hspace : HasSpace E s.responseBuffer.length s
      ⟨s.responseBuffer.length - s.responsePosition, s.written.getLastD 0⟩ :=
    ⟨rfl, Nat.add_sub_cancel' hpos, rfl, hs⟩
  rw [written, List.length_take, ← (follows_encode v s _ hspace).2.length]
  exact Nat.min_le_right ..

/-- **In text the result of a structure tells whether it is complete if and only if the structure fits and has no NUL
in it, or the texts that fit take up the space.** -/
theorem wholeText_iff (hE : E.EndsInNoComma) (hs : NoAbbreviation E s)
    (hpos : s.responsePosition ≤ s.responseBuffer.length) :
    WholeText E (.record size id name member) s ↔
      (EncoderValue.record size id name member).EachString (0 ∉ ·) (0 ∉ ·) ∧
          s.Takes ((EncoderValue.record size id name member).text E) ∨
        TakesUp E name member (s.responseBuffer.length - s.responsePosition) := by
  have hfalse := @run_record_iff E size id name member s hs hpos
  unfold WholeText
  dsimp only
  constructor
  · intro hwhole
    by_cases hok : (run (textEncoder E) (EncoderValue.record size id name member).encode s).1 = true
    · obtain ⟨hstrings, hwritten⟩ := hwhole hok
      refine .inl ⟨hstrings, ?_⟩
      have hle := length_written_le hs hpos (.record size id name member)
      rw [hwritten, List.length_append, written, List.length_take, Nat.min_eq_left hpos] at hle
      exact hle
    · exact .inr (hfalse.1 ((Bool.not_eq_true _).mp hok))
  · rintro (⟨hstrings, htakes⟩ | htakes) hok
    · obtain ⟨s', hrun, hs'⟩ := Leads.record (fun i => (member i).renders_encode hE) hs htakes s .refl
      refine ⟨hstrings, ?_⟩
      rw [EncoderValue.encode, hrun]
      exact hs'.written
    · rw [hfalse.2 htakes] at hok
      cases hok

end Text

/-! ## CBOR -/

/-- What becomes of a call for which there is no room, and of the end of a map that was started. -/
structure ZcborEncode.FullLaws (E : ZcborEncode) : Prop extends E.ValueLaws where
  uint32_full : ∀ (n : ℕ) s, n < 2 ^ 32 → s.room < (Cbor.writeInt n).length → E.uint32Encode n s = (false, s)
  uint64_full : ∀ (n : ℕ) s, n < 2 ^ 64 → s.room < (Cbor.writeInt n).length → E.uint64Encode n s = (false, s)
  int32_full : ∀ n s, -2 ^ 31 ≤ n ∧ n < 2 ^ 31 → s.room < (Cbor.writeInt n).length → E.int32Encode n s = (false, s)
  int64_full : ∀ n s, -2 ^ 63 ≤ n ∧ n < 2 ^ 63 → s.room < (Cbor.writeInt n).length → E.int64Encode n s = (false, s)
  bool_full : ∀ b s, s.room < 1 → E.boolPut b s = (false, s)
  float_full : ∀ v s, s.room < 5 → E.float32Encode v s = (false, s)
  double_full : ∀ v s, s.room < 9 → E.float64Encode v s = (false, s)
  string_full : ∀ value s, value.length ≤ maxStringLength →
    s.room < (Cbor.writeHead 3 value.length ++ value).length → E.tstrPutTerm value s = (false, s)
  map_full : ∀ count s, s.room < (Cbor.writeHead 5 count).length ∨ s.depth ≤ s.backups.length + 2 →
    (E.mapStartEncode count s).1 = false
  map_end : ∀ count s s₁, count < 2 ^ 32 → E.mapStartEncode count s = (true, s₁) → ∀ (body : Bytes) n, n ≤ 2 * count →
    body.length ≤ s₁.room → ∃ bytes, E.mapEndEncode count (s₁.append body n) = (true, s.append bytes) ∧
      bytes.length ≤ (Cbor.writeHead 5 count).length + body.length

namespace EncoderValue

/-- No list, map, array or structure. -/
def IsScalar : EncoderValue → Prop
  | list .. | map .. | array .. | arguments .. | record .. => False
  | _ => True

theorem nestsWithin_of_isScalar {v : EncoderValue} (h : v.IsScalar) (k : ℕ) : v.NestsWithin k := by
  cases v with
  | list | map | array | arguments | record => exact h.elim
  | _ => trivial

/-- Two properties of the strings. -/
theorem EachString.and {P P' Q : Bytes → Prop} {v : EncoderValue} (h : v.EachString P Q) (h' : v.EachString P' Q) :
    v.EachString (fun s => P s ∧ P' s) Q := by
  induction v with
  | string s => exact ⟨h, h'⟩
  | list _ _ ih => exact fun i => ih i (h i) (h' i)
  | map _ _ _ ihk ihv => exact fun i => ⟨ihk i (h i).1 (h' i).1, ihv i (h i).2 (h' i).2⟩
  | array _ _ ih => exact fun i => ih i (h i) (h' i)
  | arguments _ _ ih => exact fun i => ih i (h i) (h' i)
  | record _ _ _ _ ih => exact fun i => ⟨(h i).1, ih i (h i).2 (h' i).2⟩
  | _ => trivial

/-- There are the room and the states for the value, and its strings are short. -/
def FitsCbor (v : EncoderValue) (s : ZcborEncodeState) : Prop :=
  (v.EachString IsShort fun _ => True) ∧ (∃ k, v.NestsWithin k ∧ s.backups.length + 2 + k ≤ s.depth) ∧
    v.cbor.length ≤ s.room

end EncoderValue

section Cbor

variable {Z : ZcborEncode} {size : ℕ} {id : Fin size → ℕ} {name : Fin size → Bytes}
  {member : Fin size → EncoderValue} {s : ZcborEncodeState}

/-- When the binary encoder returns true it has written the value. -/
def WholeCbor (Z : ZcborEncode) (v : EncoderValue) (s : ZcborEncodeState) : Prop :=
  let r := run (binaryEncoder Z) v.encode s
  r.1 = true → r.2.output = s.output ++ v.cbor

/-- The head of the map does not fit, or there is no state for the map. -/
def NoMap (size : ℕ) (s : ZcborEncodeState) : Prop :=
  s.room < (Cbor.writeHead 5 size).length ∨ s.depth ≤ s.backups.length + 2

/-- A map that cannot be started is a failure. -/
theorem run_record_noMap (hZ : Z.FullLaws) (h : NoMap size s) :
    (run (binaryEncoder Z) (EncoderValue.record size id name member).encode s).1 = false := by
  have hstart : run (binaryEncoder Z) (encode (.mapStart (some size))) s = (false, (Z.mapStartEncode size s).2) :=
    Prod.ext (hZ.map_full size s h) rfl
  rw [EncoderValue.encode, encodeRecord_eq, run_bind, hstart]
  rfl

/-- **In CBOR a structure is complete when the call returns true, if it fits or not even its map does.** -/
theorem wholeCbor_of_fits (hZ : Z.FullLaws) (hrange : (EncoderValue.record size id name member).InRange)
    (h : (EncoderValue.record size id name member).FitsCbor s ∨ NoMap size s) :
    WholeCbor Z (.record size id name member) s := by
  unfold WholeCbor
  dsimp only
  intro hok
  rcases h with ⟨hstrings, ⟨k, hnest, hdepth⟩, hroom⟩ | h
  · rw [puts_encode hZ.toValueLaws _ hrange hstrings hnest s hdepth hroom]
    rfl
  · rw [run_record_noMap hZ h] at hok
    cases hok

/-! ### Scalars that do not fit -/

theorem length_writeHead_mono {m n : ℕ} (major : ℕ) (h : m ≤ n) :
    (Cbor.writeHead major m).length ≤ (Cbor.writeHead major n).length := by
  unfold Cbor.writeHead
  split_ifs <;> simp <;> omega

/-- The call appends an element or nothing. All its bytes are there only if `whole` holds. -/
def Tries (Z : ZcborEncode) (p : Encoding Bool) (bytes : Bytes) (whole : Prop) : Prop :=
  ∀ s, ∃ ok bs m, run (binaryEncoder Z) p s = (ok, s.append bs m) ∧ m ≤ 1 ∧ bs.length ≤ s.room ∧
    bs.length ≤ bytes.length ∧ (bs.length = bytes.length → whole)

/-- A call that appends its bytes where they fit. -/
theorem tries_of_put {p : Encoding Bool} {bytes bs : Bytes} {whole : Prop} (hle : bs.length ≤ bytes.length)
    (hpos : 0 < bytes.length) (hwhole : bs.length = bytes.length → whole)
    (hput : ∀ s : ZcborEncodeState, bs.length ≤ s.room → run (binaryEncoder Z) p s = (true, s.append bs))
    (hfull : ∀ s : ZcborEncodeState, s.room < bs.length → run (binaryEncoder Z) p s = (false, s)) :
    Tries Z p bytes whole := by
  intro s
  rcases Nat.lt_or_ge s.room bs.length with hlt | hge
  · refine ⟨false, [], 0, ?_, Nat.zero_le 1, Nat.zero_le _, Nat.zero_le _, fun h => ?_⟩
    · rw [hfull s hlt, append_nil]
    · rw [List.length_nil] at h
      omega
  · exact ⟨true, bs, 1, hput s hge, Nat.le_refl 1, hge, hle, hwhole⟩

theorem tries_uint (hZ : Z.FullLaws) {n : ℕ} (hn : n < 2 ^ 32) {whole : Prop} (hwhole : whole) :
    Tries Z (encode (.uint .w32 n)) (Cbor.writeInt n) whole :=
  tries_of_put (Nat.le_refl _) (List.length_pos_iff.2 (Cbor.writeHead_ne_nil 0 n)) (fun _ => hwhole)
    (fun s hroom => hZ.uint32 n s hn hroom) fun s hfull => hZ.uint32_full n s hn hfull

/-- A string that has no room is left out, and a string with a NUL in it is cut. -/
theorem tries_string (hZ : Z.FullLaws) {value : Bytes} (hlen : value.length ≤ maxStringLength) :
    Tries Z (encode (.string value)) (Cbor.writeHead 3 value.length ++ value) (0 ∉ value) := by
  have hle := (List.takeWhile_sublist (· ≠ 0) (l := value)).length_le
  have hhead := length_writeHead_mono 3 hle
  have hpos := List.length_pos_iff.2 (Cbor.writeHead_ne_nil 3 value.length)
  refine @tries_of_put Z _ _ (Cbor.writeHead 3 (value.takeWhile (· ≠ 0)).length ++ value.takeWhile (· ≠ 0)) _ ?_ ?_ ?_
    (fun s hroom => hZ.string _ s (hle.trans hlen) hroom) fun s hfull => hZ.string_full _ s (hle.trans hlen) hfull
  · simp only [List.length_append]
    omega
  · rw [List.length_append]
    omega
  · intro heq hmem
    simp only [List.length_append] at heq
    have hlength : (value.takeWhile (· ≠ 0)).length = value.length := by omega
    have hsame : value.takeWhile (· ≠ 0) = value := (List.takeWhile_sublist _).eq_of_length hlength
    have hzero := List.takeWhile_eq_self_iff.1 hsame 0 hmem
    exact absurd hzero (by decide)

theorem tries_scalar (hZ : Z.FullLaws) (v : EncoderValue) (hscalar : v.IsScalar) (hrange : v.InRange)
    (hshort : v.EachString (·.length ≤ maxStringLength) fun _ => True) :
    Tries Z v.encode v.cbor (v.EachString (0 ∉ ·) fun _ => True) := by
  have hpos (n : ℤ) : 0 < (Cbor.writeInt n).length := by
    cases n <;> exact List.length_pos_iff.2 (Cbor.writeHead_ne_nil _ _)
  cases v with
  | uint w n =>
    have h32 (hn : n < 2 ^ 32) : Tries Z (encode (.uint .w32 n)) (Cbor.writeInt n) True := tries_uint hZ hn trivial
    cases w with
    | w8 => exact h32 (Nat.lt_of_lt_of_le hrange (by decide))
    | w16 => exact h32 (Nat.lt_of_lt_of_le hrange (by decide))
    | w32 => exact h32 hrange
    | w64 =>
      exact tries_of_put (Nat.le_refl _) (hpos n) (fun _ => trivial) (fun s hroom => hZ.uint64 n s hrange hroom)
        fun s hfull => hZ.uint64_full n s hrange hfull
  | int w i =>
    have h32 (hi : -2 ^ 31 ≤ i ∧ i < 2 ^ 31) : Tries Z (encode (.int .w32 i)) (Cbor.writeInt i) True :=
      tries_of_put (Nat.le_refl _) (hpos i) (fun _ => trivial) (fun s hroom => hZ.int32 i s hi hroom)
        fun s hfull => hZ.int32_full i s hi hfull
    obtain ⟨hlo, hhi⟩ := hrange
    cases w with
    | w8 => exact h32 ⟨by simp [IntWidth.bits] at hlo; omega, by simp [IntWidth.bits] at hhi; omega⟩
    | w16 => exact h32 ⟨by simp [IntWidth.bits] at hlo; omega, by simp [IntWidth.bits] at hhi; omega⟩
    | w32 => exact h32 ⟨hlo, hhi⟩
    | w64 =>
      exact tries_of_put (Nat.le_refl _) (hpos i) (fun _ => trivial) (fun s hroom => hZ.int64 i s ⟨hlo, hhi⟩ hroom)
        fun s hfull => hZ.int64_full i s ⟨hlo, hhi⟩ hfull
  | bool b =>
    exact tries_of_put (Nat.le_refl _) Nat.one_pos (fun _ => trivial) (fun s hroom => hZ.bool b s hroom)
      fun s hfull => hZ.bool_full b s hfull
  | float v =>
    have hlen : (0xFA :: Cbor.beBytes 4 v.toNat).length = 5 := by rw [List.length_cons, Cbor.length_beBytes]
    exact tries_of_put (Nat.le_refl _) (by rw [EncoderValue.cbor, hlen]; decide) (fun _ => trivial)
      (fun s hroom => hZ.float v s (hlen ▸ hroom)) fun s hfull => hZ.float_full v s (hlen ▸ hfull)
  | double v =>
    have hlen : (0xFB :: Cbor.beBytes 8 v.toNat).length = 9 := by rw [List.length_cons, Cbor.length_beBytes]
    exact tries_of_put (Nat.le_refl _) (by rw [EncoderValue.cbor, hlen]; decide) (fun _ => trivial)
      (fun s hroom => hZ.double v s (hlen ▸ hroom)) fun s hfull => hZ.double_full v s (hlen ▸ hfull)
  | string value => exact tries_string hZ hshort
  | list | map | array | arguments | record => exact hscalar.elim

/-- What the members append. -/
theorem run_encodeMembers_tries {value : Fin size → Encoding Bool} {bytes : Fin size → Bytes} {whole : Fin size → Prop}
    (hZ : Z.FullLaws) (hid : ∀ i, id i < 2 ^ 32) (h : ∀ i, Tries Z (value i) (bytes i) (whole i))
    (is : List (Fin size)) :
    ∃ body n, run (binaryEncoder Z) (encodeMembers id name value is) s = ((), s.append body n) ∧ n ≤ 2 * is.length ∧
      body.length ≤ s.room ∧ body.length ≤ (is.flatMap fun i => Cbor.writeInt (id i) ++ bytes i).length ∧
        (body.length = (is.flatMap fun i => Cbor.writeInt (id i) ++ bytes i).length → ∀ i ∈ is, whole i) := by
  induction is generalizing s with
  | nil => exact ⟨[], 0, by rw [append_nil]; rfl, Nat.le_refl 0, Nat.zero_le _, Nat.le_refl 0, fun _ i hi => by cases hi⟩
  | cons i is ih =>
    obtain ⟨ok₁, key, m₁, hkey, hm₁, hroom₁, hle₁, -⟩ := tries_uint hZ (hid i) trivial s
    obtain ⟨ok₂, bs, m₂, hvalue, hm₂, hroom₂, hle₂, hwhole⟩ := h i (s.append key m₁)
    obtain ⟨body, n, hrun, hn, hroom, hle, hall⟩ := ih (s := (s.append key m₁).append bs m₂)
    have hkey' : Z.uint32Encode (id i) s = (ok₁, s.append key m₁) := hkey
    refine ⟨key ++ (bs ++ body), m₁ + (m₂ + n), ?_, ?_, ?_, ?_, ?_⟩
    · rw [encodeMembers, run_bind, run_encodeMember_id, hkey', hvalue]
      dsimp only
      rw [hrun, ZcborEncodeState.append_append, ZcborEncodeState.append_append]
    · rw [List.length_cons]
      omega
    · simp only [List.length_append, ZcborEncodeState.room_append] at *
      omega
    · simp only [List.flatMap_cons, List.length_append] at *
      omega
    · intro heq j hj
      simp only [List.flatMap_cons, List.length_append] at *
      rcases List.mem_cons.1 hj with rfl | hj
      · exact hwhole (by omega)
      · exact hall (by omega) j hj

/-- **For members that are scalars and strings this is exact.** -/
theorem wholeCbor_iff (hZ : Z.FullLaws) (hrange : (EncoderValue.record size id name member).InRange)
    (hscalar : ∀ i, (member i).IsScalar)
    (hshort : (EncoderValue.record size id name member).EachString (·.length ≤ maxStringLength) fun _ => True) :
    WholeCbor Z (.record size id name member) s ↔
      (EncoderValue.record size id name member).FitsCbor s ∨ NoMap size s := by
  refine ⟨fun hwhole => ?_, wholeCbor_of_fits hZ hrange⟩
  by_cases hmap : NoMap size s
  · exact .inr hmap
  refine .inl ?_
  obtain ⟨hsize, hmember⟩ := hrange
  rw [NoMap, not_or, Nat.not_lt, Nat.not_le] at hmap
  obtain ⟨s₁, hstart, hroom₁, -⟩ := hZ.map size s hsize hmap.2 hmap.1
  obtain ⟨body, n, hrun, hn, hbody, hle, hall⟩ := @run_encodeMembers_tries Z size id name s₁ _ _ _ hZ
    (fun i => (hmember i).1) (fun i => tries_scalar hZ (member i) (hscalar i) (hmember i).2 (hshort i).2)
    (List.finRange size)
  rw [List.length_finRange] at hn
  obtain ⟨bytes, hend, hbytes⟩ := hZ.map_end size s s₁ hsize hstart body n hn hbody
  have hrecord : run (binaryEncoder Z) (EncoderValue.record size id name member).encode s = (true, s.append bytes) := by
    have hstart' : run (binaryEncoder Z) (encode (.mapStart (some size))) s = (true, s₁) := hstart
    rw [EncoderValue.encode, encodeRecord_eq, run_bind, hstart']
    dsimp only
    rw [Bool.not_true, if_neg Bool.false_ne_true, run_bind, hrun]
    exact hend
  unfold WholeCbor at hwhole
  rw [hrecord] at hwhole
  have hcbor : bytes = (EncoderValue.record size id name member).cbor := List.append_cancel_left (hwhole rfl)
  rw [hcbor, EncoderValue.cbor, List.length_append] at hbytes
  refine ⟨fun i => ⟨trivial, ?_⟩, ⟨1, ⟨Nat.one_pos, fun i => ?_⟩, hmap.2⟩, ?_⟩
  · exact (hall (by omega) i (List.mem_finRange i)).and (hshort i).2
  · exact EncoderValue.nestsWithin_of_isScalar (hscalar i) 0
  · rw [EncoderValue.cbor, List.length_append]
    omega

end Cbor

/-! ## Both encoders -/

/-- **When the result of a structure tells that it is complete.** -/
theorem record_whole {E : TextEncoderConfig} {Z : ZcborEncode} {size : ℕ} {id : Fin size → ℕ} {name : Fin size → Bytes}
    {member : Fin size → EncoderValue} (hE : E.EndsInNoComma) (hZ : Z.FullLaws)
    (hrange : (EncoderValue.record size id name member).InRange) :
    (∀ s : TextEncoderState, NoAbbreviation E s → s.responsePosition ≤ s.responseBuffer.length →
      (WholeText E (.record size id name member) s ↔
        (EncoderValue.record size id name member).EachString (0 ∉ ·) (0 ∉ ·) ∧
            s.Takes ((EncoderValue.record size id name member).text E) ∨
          TakesUp E name member (s.responseBuffer.length - s.responsePosition))) ∧
    ∀ s : ZcborEncodeState,
      ((EncoderValue.record size id name member).FitsCbor s ∨ NoMap size s →
        WholeCbor Z (.record size id name member) s) ∧
      ((∀ i, (member i).IsScalar) →
        ((EncoderValue.record size id name member).EachString (·.length ≤ maxStringLength) fun _ => True) →
          (WholeCbor Z (.record size id name member) s ↔
            (EncoderValue.record size id name member).FitsCbor s ∨ NoMap size s)) :=
  ⟨fun _ hs hpos => wholeText_iff hE hs hpos,
    fun _ => ⟨wholeCbor_of_fits hZ hrange, fun hscalar hshort => wholeCbor_iff hZ hrange hscalar hshort⟩⟩

/-! ### A number that does not fit -/

/-- The reference functions with as many states for maps as zcbor has. -/
def zcborEncodeStates : ZcborEncode :=
  { zcborEncodeReference with
    mapStartEncode := fun max s =>
      if s.backups.length + 2 < s.depth then zcborEncodeReference.mapStartEncode max s else (false, s) }

theorem encloses_reference {major perEntry : ℕ} (hper : 0 < perEntry) :
    ZcborEncode.Encloses (ZcborEncodeReference.start major) (ZcborEncodeReference.stop major perEntry) major perEntry := by
  intro count s _ hdepth hroom
  refine ⟨_, if_pos ⟨by omega, hroom⟩, ?_, rfl, rfl, fun body _ => ?_⟩
  · simp only [ZcborEncodeState.room, List.length_append]
    omega
  · simp [ZcborEncodeReference.stop, ZcborEncodeState.append, Nat.mul_div_cancel_left count hper]

theorem zcborEncodeStates_fullLaws : zcborEncodeStates.FullLaws where
  toIntegerLaws := ⟨zcborEncodeReference_integerLaws.uint32, zcborEncodeReference_integerLaws.uint64,
    zcborEncodeReference_integerLaws.int32, zcborEncodeReference_integerLaws.int64⟩
  bool _ _ hroom := if_pos hroom
  float _ _ hroom := if_pos (by rw [List.length_cons, Cbor.length_beBytes]; exact hroom)
  double _ _ hroom := if_pos (by rw [List.length_cons, Cbor.length_beBytes]; exact hroom)
  string _ _ _ hroom := if_pos hroom
  list := encloses_reference Nat.one_pos
  map count s hcount hdepth hroom := by
    obtain ⟨s₁, hstart, h⟩ := @encloses_reference 5 _ Nat.two_pos count s hcount hdepth hroom
    exact ⟨s₁, (if_pos hdepth).trans hstart, h⟩
  uint32_full _ _ _ hfull := if_neg (Nat.not_le.2 hfull)
  uint64_full _ _ _ hfull := if_neg (Nat.not_le.2 hfull)
  int32_full n _ _ hfull := by cases n <;> exact if_neg (Nat.not_le.2 hfull)
  int64_full n _ _ hfull := by cases n <;> exact if_neg (Nat.not_le.2 hfull)
  bool_full _ _ hfull := if_neg (Nat.not_le.2 hfull)
  float_full _ _ hfull := if_neg (by rw [List.length_cons, Cbor.length_beBytes]; omega)
  double_full _ _ hfull := if_neg (by rw [List.length_cons, Cbor.length_beBytes]; omega)
  string_full _ _ _ hfull := if_neg (Nat.not_le.2 hfull)
  map_full count s h := by
    change (if s.backups.length + 2 < s.depth then ZcborEncodeReference.start 5 count s else (false, s)).1 = false
    split
    · rename_i hdepth
      rw [ZcborEncodeReference.start, if_neg]
      omega
    · rfl
  map_end count s s₁ _ hstart body n hn _ := by
    change (if s.backups.length + 2 < s.depth then ZcborEncodeReference.start 5 count s else (false, s)) = _ at hstart
    split at hstart
    · rename_i hdepth
      unfold ZcborEncodeReference.start at hstart
      split at hstart
      · obtain rfl := congrArg Prod.snd hstart
        refine ⟨Cbor.writeHead 5 (n / 2) ++ body, ?_, ?_⟩
        · simp [zcborEncodeStates, zcborEncodeReference, ZcborEncodeReference.stop, ZcborEncodeState.append]
        · have hhead := length_writeHead_mono 5 (show n / 2 ≤ count by omega)
          rw [List.length_append]
          omega
      · cases hstart
    · cases hstart

/-- Two numbers. -/
def twoNumbersRecord : EncoderValue :=
  .record 2 ![1, 2] ![[0x61], [0x62]] ![.uint .w32 100000, .uint .w8 5]

theorem twoNumbersRecord_inRange : twoNumbersRecord.InRange :=
  ⟨by decide, Fin.forall_fin_two.2
    ⟨⟨by decide, (by decide : 100000 < 2 ^ 32)⟩, ⟨by decide, (by decide : 5 < 2 ^ 8)⟩⟩⟩

theorem twoNumbersRecord_whole :
    (WholeText zeroPrinter twoNumbersRecord emptyBuffer ↔
      twoNumbersRecord.EachString (0 ∉ ·) (0 ∉ ·) ∧ emptyBuffer.Takes (twoNumbersRecord.text zeroPrinter) ∨
        TakesUp zeroPrinter ![[0x61], [0x62]] ![.uint .w32 100000, .uint .w8 5] 64) ∧
    WholeCbor zcborEncodeStates twoNumbersRecord (.new 8 64) := by
  obtain ⟨htext, hcbor⟩ := record_whole zeroPrinter_endsInNoComma zcborEncodeStates_fullLaws twoNumbersRecord_inRange
  refine ⟨htext emptyBuffer (.inl rfl) (by decide), (hcbor (.new 8 64)).1 (.inl ⟨?_, ⟨1, ?_, by decide⟩, by decide +kernel⟩)⟩
  · exact Fin.forall_fin_two.2 ⟨⟨trivial, trivial⟩, ⟨trivial, trivial⟩⟩
  · exact ⟨Nat.one_pos, Fin.forall_fin_two.2 ⟨trivial, trivial⟩⟩

/-- The second member is missing in the text, and in CBOR the key of the second is the value of the first. -/
theorem twoNumbersRecord_cut :
    (∃ s, run (textEncoder zeroPrinter) twoNumbersRecord.encode ⟨List.replicate 12 0, 0, 0, false, false⟩ = (true, s) ∧
      s.written = "\x7b\"a\":100000\x7d".toUTF8.toList) ∧
    (∃ s, run (binaryEncoder zcborEncodeStates) twoNumbersRecord.encode (.new 8 6) = (true, s) ∧
      s.output = [0xA1, 0x01, 0x02, 0x05]) ∧
    ¬ WholeText zeroPrinter twoNumbersRecord ⟨List.replicate 12 0, 0, 0, false, false⟩ ∧
      ¬ WholeCbor zcborEncodeStates twoNumbersRecord (.new 8 6) := by
  refine ⟨⟨_, rfl, by decide +kernel⟩, ⟨_, rfl, by decide +kernel⟩, fun h => ?_, fun h => ?_⟩
  · exact absurd (h (by decide +kernel)).2 (by decide +kernel)
  · exact absurd (h (by decide +kernel)) (by decide +kernel)

end ThingSet
