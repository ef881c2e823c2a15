import ThingSet.BinaryDecoder
import ThingSet.Zcbor.Values

/-!
# Strings on the wire

`encode` of a `std::string` passes its `c_str()` and a limit to zcbor, and returns what zcbor does, which
is true as long as what is left of the string fits. `decode` returns what is in the buffer.

* `kept`: what is left of a string, which is the string itself if it is a short one (`kept_eq_self_iff`).
* `decodesAsEncoded_iff`: what `encode` accepts is decoded as itself for the short strings, and for those
  that it refuses, because the buffer has no room for what is left of them.
-/

namespace ThingSet

open Interaction Prog

/-- A text string in CBOR. -/
def textString (bs : Bytes) : Bytes := Cbor.writeHead 3 bs.length ++ bs

/-- What the code relies on of `zcbor_tstr_put_term`: of a C string no more than the limit is encoded, where
that fits. -/
structure ZcborEncode.TermLaws (E : ZcborEncode) : Prop where
  fits : ∀ value s, (textString (value.take maxStringLength)).length ≤ s.room →
    E.tstrPutTerm value s = (true, s.append (textString (value.take maxStringLength)))
  full : ∀ value s, s.room < (textString (value.take maxStringLength)).length →
    (E.tstrPutTerm value s).1 = false

/-- What `encode` leaves of a `std::string`. -/
def kept (value : Bytes) : Bytes := (value.takeWhile (· ≠ 0)).take maxStringLength

/-- Where `encode` returns true, `decode` returns the string from the bytes that were appended. -/
def DecodesAsEncoded (E : ZcborEncode) (o : BinaryDecoderOptions) (value : Bytes) (e : ZcborEncodeState) : Prop :=
  (binaryEncoder E (.string value) e).1 = true →
    ∃ bs, (binaryEncoder E (.string value) e).2 = e.append bs ∧
      ∀ (s : ZcborState) rest elements opened, s.Left (bs ++ rest) (elements + 1) opened →
        (binaryDecoder o .string s).1 = some value

/-! ## What is left of a string -/

section Kept

variable {value : Bytes}

theorem length_kept_le : (kept value).length ≤ maxStringLength := by
  unfold kept
  rw [List.length_take]
  exact Nat.min_le_left _ _

theorem zero_notMem_kept : 0 ∉ kept value := by
  intro hmem
  have hzero := List.mem_takeWhile_imp (List.mem_of_mem_take hmem)
  simp at hzero

/-- **The short strings are those that nothing is lost of.** -/
theorem kept_eq_self_iff : kept value = value ↔ IsShort value := by
  constructor
  · intro h
    rw [← h]
    exact ⟨zero_notMem_kept, length_kept_le⟩
  · rintro ⟨hzero, hlength⟩
    unfold kept
    rw [List.takeWhile_eq_self_iff.2, List.take_of_length_le hlength]
    intro c hc
    rw [decide_eq_true_eq]
    rintro rfl
    exact hzero hc

end Kept

/-! ## The round trip -/

section RoundTrip

variable {E : ZcborEncode} {o : BinaryDecoderOptions} {value : Bytes} {e : ZcborEncodeState}

theorem encode_string_fits (hE : E.TermLaws) (hroom : (textString (kept value)).length ≤ e.room) :
    binaryEncoder E (.string value) e = (true, e.append (textString (kept value))) :=
  hE.fits _ e hroom

theorem encode_string_full (hE : E.TermLaws) (hroom : e.room < (textString (kept value)).length) :
    (binaryEncoder E (.string value) e).1 = false :=
  hE.full _ e hroom

/-- What is left of a string is decoded as it is. -/
theorem decode_textString_kept (hZ : o.zcbor.StringLaws) {s : ZcborState} {rest : Bytes} {elements opened : ℕ}
    (hs : s.Left (textString (kept value) ++ rest) (elements + 1) opened) :
    (binaryDecoder o .string s).1 = some (kept value) := by
  have hlength : (kept value).length < 2 ^ 64 := lt_of_le_of_lt length_kept_le (by decide)
  unfold textString at hs
  rw [List.append_assoc] at hs
  obtain ⟨s', hdecode, -⟩ := hZ.tstr s (kept value) rest elements opened hlength hs
  exact congrArg Prod.fst hdecode

/-- What is appended is determined. -/
theorem append_injective {bs bs' : Bytes} (h : e.append bs = e.append bs') : bs = bs' :=
  List.append_cancel_left (congrArg ZcborEncodeState.output h)

/-- Where there is room for it, a string has to be left as it is. -/
theorem decodesAsEncoded_iff_kept (hE : E.TermLaws) (hZ : o.zcbor.StringLaws)
    (hroom : (textString (kept value)).length ≤ e.room) : DecodesAsEncoded E o value e ↔ kept value = value := by
  have hencode := encode_string_fits hE hroom
  constructor
  · intro h
    unfold DecodesAsEncoded at h
    rw [hencode] at h
    obtain ⟨bs, hbs, hdecode⟩ := h rfl
    obtain rfl := append_injective hbs
    -- a message that has nothing but these bytes
    have hleft := ZcborState.left_new [] (textString (kept value)) [] 1
    rw [← List.append_nil (textString (kept value))] at hleft
    have hself := hdecode _ [] 0 0 hleft
    rw [decode_textString_kept hZ hleft] at hself
    exact Option.some.inj hself
  · intro h _
    rw [hencode]
    refine ⟨_, rfl, ?_⟩
    intro s rest elements opened hs
    rw [decode_textString_kept hZ hs, h]

/-- **What `encode` of a `std::string` accepts is decoded as itself for the strings without a NUL that are not
longer than the limit.** It is not for any other string, unless there is no room for what is left of it. -/
theorem decodesAsEncoded_iff (hE : E.TermLaws) (hZ : o.zcbor.StringLaws) (value : Bytes) (e : ZcborEncodeState) :
    DecodesAsEncoded E o value e ↔ IsShort value ∨ e.room < (textString (kept value)).length := by
  by_cases hroom : e.room < (textString (kept value)).length
  · refine iff_of_true ?_ (.inr hroom)
    intro htrue
    rw [encode_string_full hE hroom] at htrue
    cases htrue
  · rw [or_iff_left hroom, decodesAsEncoded_iff_kept hE hZ (Nat.not_lt.1 hroom), kept_eq_self_iff]

end RoundTrip

/-- The reference functions, with the limit of `zcbor_tstr_put_term`. -/
def zcborEncodeTerm : ZcborEncode :=
  { zcborEncodeReference with
    tstrPutTerm := fun value => ZcborEncodeReference.put (textString (value.take maxStringLength)) }

theorem zcborEncodeTerm_termLaws : zcborEncodeTerm.TermLaws where
  fits _ _ hroom := if_pos hroom
  full _ _ hroom := congrArg Prod.fst (if_neg (Nat.not_le.2 hroom))

/-- `"abc"`, in a buffer of 16 bytes and in one of 2, where it is refused. -/
theorem decodesAsEncoded_abc :
    DecodesAsEncoded zcborEncodeTerm ⟨zcborReference, false, false⟩ [0x61, 0x62, 0x63] (.new 8 16) ∧
      DecodesAsEncoded zcborEncodeTerm ⟨zcborReference, false, false⟩ [0x61, 0x62, 0x63] (.new 8 2) := by
  have hiff := decodesAsEncoded_iff (o := ⟨zcborReference, false, false⟩) zcborEncodeTerm_termLaws
    zcborReference_stringLaws [0x61, 0x62, 0x63]
  exact ⟨(hiff _).2 (.inl ⟨by decide, by decide⟩), (hiff _).2 (.inr (by decide))⟩

/-- Of a string with a NUL in it `encode` accepts what is in front of the NUL, and of one of 257 bytes the first
256: neither is decoded as it was. -/
theorem not_decodesAsEncoded :
    binaryEncoder zcborEncodeTerm (.string [0x61, 0, 0x62]) (.new 8 16) =
        (true, (ZcborEncodeState.new 8 16).append [0x61, 0x61]) ∧
      (binaryDecoder ⟨zcborReference, false, false⟩ .string (.alone [0x61, 0x61])).1 = some [0x61] ∧
      ¬ DecodesAsEncoded zcborEncodeTerm ⟨zcborReference, false, false⟩ [0x61, 0, 0x62] (.new 8 16) ∧
      ¬ DecodesAsEncoded zcborEncodeTerm ⟨zcborReference, false, false⟩ (List.replicate 257 0x61) (.new 8 512) := by
  have hlost : ∀ (value : Bytes) (e : ZcborEncodeState), (textString (kept value)).length ≤ e.room →
      ¬ IsShort value → ¬ DecodesAsEncoded zcborEncodeTerm ⟨zcborReference, false, false⟩ value e := by
    intro value e hroom hshort hdecode
    exact hshort (kept_eq_self_iff.1
      ((decodesAsEncoded_iff_kept zcborEncodeTerm_termLaws zcborReference_stringLaws hroom).1 hdecode))
  refine ⟨by decide, by decide, hlost _ _ (by decide) fun h => absurd h.1 (by decide), ?_⟩
  refine hlost _ _ ?_ fun h => absurd h.2 (by rw [List.length_replicate]; decide)
  have hkept : (kept (List.replicate 257 0x61)).length ≤ 256 := length_kept_le
  have hhead := Cbor.length_writeHead_le 3 (lt_of_le_of_lt hkept (by decide))
  unfold textString
  rw [List.length_append, ZcborEncodeState.room_new]
  omega

end ThingSet
