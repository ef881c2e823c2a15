import ThingSet.Text.Containers
import ThingSet.Text.Memory

/-!
# The space of a text

Whether a call of the text encoder returns true depends on the characters that are left in the buffer, and, for the
end of a list or map, on the last one that was written. The texts of a value that fit take their length, and the
others take nothing; the members of a structure are written whether or not the ones before them fitted.

* `EncoderValue.space`: what is left behind a value.
* `tracks_encode`: this is what the text encoder leaves.
-/

namespace ThingSet

open Interaction Prog

/-! ## Characters -/

/-- The characters that are left, and the last one that was written. -/
structure TextSpace where
  free : ℕ
  last : UInt8
  deriving DecidableEq, Repr

namespace TextSpace

/-- A character. -/
def put (c : UInt8) (x : TextSpace) : Bool × TextSpace :=
  if x.free = 0 then (false, x) else (true, ⟨x.free - 1, c⟩)

/-- A text that is printed. If it takes all that is left, its last character is a NUL. -/
def print (text : Bytes) (x : TextSpace) : Bool × TextSpace :=
  if text.length ≤ x.free then
    (true, ⟨x.free - text.length,
      if text = [] then x.last else if text.length = x.free then 0 else text.getLastD 0⟩)
  else (false, x)

/-- A closing bracket, which takes the place of a comma. -/
def stop (c : UInt8) (x : TextSpace) : Bool × TextSpace :=
  if x.last = 0x2C then (true, ⟨x.free, c⟩) else x.put c

/-- Each of them, as long as they fit. -/
def all : List (TextSpace → Bool × TextSpace) → TextSpace → Bool × TextSpace
  | [], x => (true, x)
  | f :: fs, x =>
    let (ok, x) := f x
    if ok then all fs x else (false, x)

/-- A string in quotes. -/
def quote (s : Bytes) : TextSpace → Bool × TextSpace :=
  all [put 0x22, print (s.takeWhile (· ≠ 0)), put 0x22]

/-- Elements with commas behind them, also where one does not fit. -/
def elements : List (TextSpace → Bool × TextSpace) → Bool → TextSpace → Bool × TextSpace
  | [], ok, x => (ok, x)
  | f :: fs, ok, x =>
    let (fits, x) := all [f, put 0x2C] x
    elements fs (ok && fits) x

/-- Members with their names. -/
def members : List (Bytes × (TextSpace → Bool × TextSpace)) → TextSpace → TextSpace
  | [], x => x
  | (name, f) :: fs, x => members fs (put 0x2C (f (put 0x3A (quote name x).2).2).2).2

end TextSpace

/-- What is left behind a value, and whether it fits. -/
def EncoderValue.space (E : TextEncoderConfig) : EncoderValue → TextSpace → Bool × TextSpace
  | uint _ n => TextSpace.print (decimal n)
  | int _ i => TextSpace.print (signedDecimal i)
  | bool b => TextSpace.print (if b then [0x31] else [0x30])
  | float v => TextSpace.print (E.double (E.ofFloat v))
  | double v => TextSpace.print (E.double v)
  | string s => TextSpace.quote s
  | list size item =>
    TextSpace.all (TextSpace.put 0x5B ::
      ((List.finRange size).map (fun i => (item i).space E) ++ [TextSpace.stop 0x5D]))
  | map size key value =>
    TextSpace.all (TextSpace.put 0x7B ::
      ((List.finRange size).map (fun i =>
        TextSpace.all [(key i).space E, TextSpace.put 0x3A, (value i).space E, TextSpace.put 0x2C]) ++
          [TextSpace.stop 0x7D]))
  | array size element => fun x =>
    let (ok, x) := TextSpace.put 0x5B x
    let (ok, x) := TextSpace.elements ((List.finRange size).map fun i => (element i).space E) ok x
    if ok then TextSpace.stop 0x5D x else (false, x)
  | arguments size arg =>
    TextSpace.all [TextSpace.put 0x5B,
      TextSpace.all ((List.finRange size).map fun i => TextSpace.all [(arg i).space E, TextSpace.put 0x2C]),
      TextSpace.stop 0x5D]
  | record size _ name member => fun x =>
    let (ok, x) := TextSpace.put 0x7B x
    if ok then
      TextSpace.stop 0x7D (TextSpace.members ((List.finRange size).map fun i => (name i, (member i).space E)) x)
    else (false, x)

/-! ## The encoder -/

section Tracks

open TextEncoderState TextEncoder

variable {E : TextEncoderConfig} {n : ℕ}

/-- The encoder has this space in a buffer of `n` characters. -/
structure HasSpace (E : TextEncoderConfig) (n : ℕ) (s : TextEncoderState) (x : TextSpace) : Prop where
  length : s.responseBuffer.length = n
  free : s.responsePosition + x.free = n
  last : x.last = s.written.getLastD 0
  full : NoAbbreviation E s

/-- A call returns what the space says, and leaves what it says. -/
def Tracks (E : TextEncoderConfig) (n : ℕ) (f : TextEncoderState → Bool × TextEncoderState)
    (g : TextSpace → Bool × TextSpace) : Prop :=
  ∀ s x, HasSpace E n s x → (f s).1 = (g x).1 ∧ HasSpace E n (f s).2 (g x).2

variable {s s' : TextEncoderState} {x : TextSpace} {text : Bytes}

theorem getLastD_append (a : Bytes) {b : Bytes} (hb : b ≠ []) : (a ++ b).getLastD 0 = b.getLastD 0 := by
  rw [List.getLastD_eq_getLast?, List.getLastD_eq_getLast?, List.getLast?_append,
    List.getLast?_eq_some_getLast hb]
  rfl

/-- A text that is written. -/
theorem HasSpace.extends (h : HasSpace E n s x) (hs : s.Extends text s') (hfits : text.length ≤ x.free) :
    HasSpace E n s' ⟨x.free - text.length, if text = [] then x.last else text.getLastD 0⟩ := by
  have hfree := h.free
  have hpos := hs.position
  refine ⟨hs.length.trans h.length, ?_, ?_, h.full.extends hs⟩
  · dsimp only
    omega
  · rw [hs.written]
    split
    · rename_i hnil
      rw [hnil, List.append_nil, h.last]
    · rename_i hne
      rw [getLastD_append _ hne]

theorem tracks_append (c : UInt8) : Tracks E n (append c) (TextSpace.put c) := by
  intro s x h
  have hlen := h.length
  have hfree := h.free
  unfold TextSpace.put
  split
  · rw [append_full c (by omega)]
    exact ⟨rfl, h⟩
  · obtain ⟨s', happend, hs⟩ := append_spec (s := s) c (by omega)
    rw [happend]
    exact ⟨rfl, h.extends hs (by rw [List.length_singleton]; omega)⟩

/-- Nothing is printed where nothing is left. -/
theorem appendFormat_nil (h : s.responsePosition = s.responseBuffer.length) : appendFormat [] s = (true, s) := by
  unfold appendFormat ensureBufferCapacity snprintf
  simp only [List.length_nil, Nat.add_zero, h, Nat.le_refl, decide_true, Nat.sub_self, if_true]
  rw [← h]

theorem tracks_appendFormat (text : Bytes) : Tracks E n (appendFormat text) (TextSpace.print text) := by
  intro s x h
  have hlen := h.length
  have hfree := h.free
  unfold TextSpace.print
  split
  · rename_i hfits
    rcases Nat.lt_or_eq_of_le hfits with hlt | heq
    · obtain ⟨s', happend, hs, -⟩ := appendFormat_spec (show s.Room text by rw [Room]; omega)
      rw [happend, if_neg (Nat.ne_of_lt hlt)]
      exact ⟨rfl, h.extends hs hfits⟩
    · rcases eq_or_ne text [] with rfl | hne
      · rw [appendFormat_nil (by rw [List.length_nil] at heq; omega)]
        exact ⟨rfl, h⟩
      · rw [appendFormat_exact hne (by omega), if_neg hne, if_pos heq]
        have hlength : (s.written ++ (text.dropLast ++ [0])).length = s.responseBuffer.length := by
          have hpos := List.length_pos_iff.2 hne
          rw [List.length_append, List.length_append, List.length_dropLast, List.length_singleton, written,
            List.length_take]
          omega
        refine ⟨rfl, hlength.trans hlen, ?_, ?_, h.full⟩
        · dsimp only
          rw [heq, Nat.sub_self, Nat.add_zero, hlen]
        · change 0 = ((s.written ++ (text.dropLast ++ [0])).take s.responseBuffer.length).getLastD 0
          rw [List.take_of_length_le (Nat.le_of_eq hlength), ← List.append_assoc, getLastD_append _ (List.cons_ne_nil _ _)]
          rfl
  · rw [appendFormat_long (by omega)]
    exact ⟨rfl, h⟩

/-- The character that `encodeMapEnd` and `encodeListEnd` look at is the last one. -/
theorem last_written (h : s.responsePosition ≤ s.responseBuffer.length) :
    (0 < s.responsePosition ∧ s.responseBuffer.getD (s.responsePosition - 1) 0 = 0x2C) ↔
      s.written.getLastD 0 = 0x2C := by
  rw [written, List.getLastD_eq_getLast?, List.getLast?_take, List.getD_eq_getElem?_getD]
  split
  · rename_i hzero
    rw [hzero]
    exact iff_of_false (fun h => Nat.lt_irrefl 0 h.1) (by decide)
  · rename_i hpos
    rw [List.getElem?_eq_getElem (by omega)]
    exact and_iff_right (Nat.pos_of_ne_zero hpos)

theorem tracks_stop (c : UInt8) : Tracks E n (stop c) (TextSpace.stop c) := by
  intro s x h
  have hlen := h.length
  have hfree := h.free
  have hlast := last_written (s := s) (by omega)
  rw [← h.last] at hlast
  unfold stop TextSpace.stop
  dsimp only
  by_cases hcomma : x.last = 0x2C
  · obtain ⟨hpos, hchar⟩ := hlast.2 hcomma
    rw [if_pos ⟨hpos, hchar⟩, if_pos hcomma]
    refine tracks_append (E := E) c _ ⟨x.free + 1, _⟩ ⟨hlen, ?_, rfl, h.full⟩
    dsimp only
    omega
  · rw [if_neg fun hchar => hcomma (hlast.1 hchar), if_neg hcomma]
    exact tracks_append c _ x ⟨hlen, hfree, h.last, h.full⟩

/-! ### Programs -/

variable {p q : Encoding Bool} {f g : TextSpace → Bool × TextSpace}

/-- A program does what the space says. -/
def Follows (E : TextEncoderConfig) (n : ℕ) (p : Encoding Bool) (f : TextSpace → Bool × TextSpace) : Prop :=
  Tracks E n (run (textEncoder E) p) f

theorem Follows.nil : Follows E n (encodeAll []) (TextSpace.all []) := fun _ _ h => ⟨rfl, h⟩

theorem Follows.cons {ps : List (Encoding Bool)} {fs : List (TextSpace → Bool × TextSpace)} (hp : Follows E n p f)
    (hps : Follows E n (encodeAll ps) (TextSpace.all fs)) : Follows E n (encodeAll (p :: ps)) (TextSpace.all (f :: fs)) := by
  intro s x h
  obtain ⟨hok, hspace⟩ := hp s x h
  rw [encodeAll, run_bind, TextSpace.all]
  dsimp only
  rw [hok]
  split
  · exact hps _ _ hspace
  · exact ⟨rfl, hspace⟩

theorem Follows.all {ι : Type} {program : ι → Encoding Bool} {space : ι → TextSpace → Bool × TextSpace}
    {ps : List (Encoding Bool)} {fs : List (TextSpace → Bool × TextSpace)} (is : List ι)
    (h : ∀ i, Follows E n (program i) (space i)) (hps : Follows E n (encodeAll ps) (TextSpace.all fs)) :
    Follows E n (encodeAll (is.map program ++ ps)) (TextSpace.all (is.map space ++ fs)) := by
  induction is with
  | nil => exact hps
  | cons i is ih => exact (h i).cons ih

theorem follows_listSeparator : Follows E n (encode .listSeparator) (TextSpace.put 0x2C) := tracks_append 0x2C

theorem follows_keyValuePairSeparator : Follows E n (encode .keyValuePairSeparator) (TextSpace.put 0x3A) :=
  tracks_append 0x3A

theorem tracks_start (c : UInt8) : Tracks E n (start c) (TextSpace.put c) :=
  fun _ x h => tracks_append c _ x ⟨h.length, h.free, h.last, h.full⟩

theorem all_singleton (f : TextSpace → Bool × TextSpace) : TextSpace.all [f] = f := by
  funext x
  unfold TextSpace.all TextSpace.all
  dsimp only
  split
  · rename_i hok
    rw [← hok]
  · rename_i hfail
    rw [← (Bool.not_eq_true _).mp hfail]

theorem Tracks.andThen {a b : TextEncoderState → Bool × TextEncoderState} {f : TextSpace → Bool × TextSpace}
    {fs : List (TextSpace → Bool × TextSpace)} (ha : Tracks E n a f) (hb : Tracks E n b (TextSpace.all fs)) :
    Tracks E n (andThen a b) (TextSpace.all (f :: fs)) := by
  intro s x h
  obtain ⟨hok, hspace⟩ := ha s x h
  unfold TextEncoder.andThen TextSpace.all
  dsimp only
  rw [hok]
  split
  · exact hb _ _ hspace
  · exact ⟨rfl, hspace⟩

theorem follows_string (value : Bytes) : Follows E n (encode (.string value)) (TextSpace.quote value) := by
  have hclose : Tracks E n (append 0x22) (TextSpace.all [TextSpace.put 0x22]) := by
    rw [all_singleton]
    exact tracks_append 0x22
  exact (tracks_append 0x22).andThen ((tracks_appendFormat _).andThen hclose)

/-- The elements of an array. -/
theorem follows_elements {ι : Type} {program : ι → Encoding Bool} {space : ι → TextSpace → Bool × TextSpace}
    (is : List ι) (h : ∀ i, Follows E n (program i) (space i)) (ok : Bool) :
    Follows E n (encodeElements (is.map program) ok) (TextSpace.elements (is.map space) ok) := by
  induction is generalizing ok with
  | nil => exact fun _ _ h => ⟨rfl, h⟩
  | cons i is ih =>
    intro s x hspace
    have hseparator : Follows E n (encodeAll [program i, encode .listSeparator]) _ :=
      (h i).cons (follows_listSeparator.cons .nil)
    obtain ⟨hfits, hspace⟩ := hseparator s x hspace
    rw [List.map_cons, List.map_cons, encodeElements, run_bind, TextSpace.elements]
    dsimp only
    rw [hfits]
    exact ih _ _ _ hspace

/-- The calls for a member. -/
theorem run_encodeMember {size : ℕ} (id : Fin size → ℕ) (name : Fin size → Bytes) (i : Fin size) (p : Encoding Bool)
    (s : TextEncoderState) :
    run (textEncoder E) (encodeMember id name i p) s =
      ((), (append 0x2C (run (textEncoder E) p (append 0x3A (TextEncoder.string (name i) s).2).2).2).2) := by
  have hkeys : run (textEncoder E) (encode .encodeKeysAsIds) s = (false, s) := rfl
  rw [encodeMember, run_bind, hkeys]
  dsimp only
  rw [if_neg Bool.false_ne_true, run_bind, run_bind, run_bind, run_bind]
  rfl

/-- The members of a structure. -/
theorem follows_members {size : ℕ} {id : Fin size → ℕ} {name : Fin size → Bytes} {value : Fin size → Encoding Bool}
    {space : Fin size → TextSpace → Bool × TextSpace} (is : List (Fin size)) (h : ∀ i, Follows E n (value i) (space i))
    {s : TextEncoderState} {x : TextSpace} (hspace : HasSpace E n s x) :
    HasSpace E n (run (textEncoder E) (encodeMembers id name value is) s).2
      (TextSpace.members (is.map fun i => (name i, space i)) x) := by
  induction is generalizing s x with
  | nil => exact hspace
  | cons i is ih =>
    rw [encodeMembers, run_bind, List.map_cons, TextSpace.members]
    apply ih
    rw [run_encodeMember]
    have hname := (follows_string (name i) s x hspace).2
    have hcolon := (tracks_append 0x3A _ _ hname).2
    have hvalue := (h i _ _ hcolon).2
    exact (tracks_append 0x2C _ _ hvalue).2

/-- **What the text encoder leaves behind a value.** -/
theorem follows_encode (v : EncoderValue) : Follows E n v.encode (v.space E) := by
  induction v with
  | uint w n => exact tracks_appendFormat _
  | int w i => exact tracks_appendFormat _
  | bool b => exact tracks_appendFormat _
  | float v => exact tracks_appendFormat _
  | double v => exact tracks_appendFormat _
  | string value => exact follows_string value
  | list size item ih =>
    have hstart (o : Option ℕ) : Follows E n (encode (.listStart o)) (TextSpace.put 0x5B) := tracks_start 0x5B
    have hend (o : Option ℕ) : Follows E n (encode (.listEnd o)) (TextSpace.stop 0x5D) := tracks_stop 0x5D
    exact (hstart _).cons (Follows.all _ ih ((hend _).cons .nil))
  | map size key value ihk ihv =>
    have hstart (o : Option ℕ) : Follows E n (encode (.mapStart o)) (TextSpace.put 0x7B) := tracks_start 0x7B
    have hend (o : Option ℕ) : Follows E n (encode (.mapEnd o)) (TextSpace.stop 0x7D) := tracks_stop 0x7D
    refine (hstart _).cons (Follows.all _ (fun i => ?_) ((hend _).cons .nil))
    exact (ihk i).cons (follows_keyValuePairSeparator.cons ((ihv i).cons (follows_listSeparator.cons .nil)))
  | array size element ih =>
    intro s x h
    obtain ⟨hstart, h₁⟩ := tracks_start 0x5B s x h
    have helements := follows_elements (List.finRange size) ih (TextSpace.put 0x5B x).1
    obtain ⟨hok, h₂⟩ := helements _ _ h₁
    have hrendered : run (textEncoder E) (encode (.renderedListLength size)) s = (size, s) :=
      Prod.ext (renderedListLength_eq h.full) rfl
    have hstart' : run (textEncoder E) (encode (.listStart (some size))) s = start 0x5B s := rfl
    rw [EncoderValue.encode, encodeArray, run_bind, hrendered, EncoderValue.space]
    dsimp only
    rw [run_bind, hstart', hstart, run_bind, map_elementAt, if_neg (Nat.lt_irrefl size),
      run_bind, run_pure]
    dsimp only
    rw [hok]
    split
    · exact tracks_stop 0x5D _ _ h₂
    · exact ⟨rfl, h₂⟩
  | arguments size arg ih =>
    have hstart (o : Option ℕ) : Follows E n (encode (.listStart o)) (TextSpace.put 0x5B) := tracks_start 0x5B
    have hend (o : Option ℕ) : Follows E n (encode (.listEnd o)) (TextSpace.stop 0x5D) := tracks_stop 0x5D
    refine (hstart _).cons (.cons ?_ ((hend _).cons .nil))
    have hargs : Follows E n (encodeAll ((List.finRange size).map
        (fun i => encodeAll [(arg i).encode, encode .listSeparator]) ++ [])) _ :=
      Follows.all _ (fun i => (ih i).cons (follows_listSeparator.cons .nil)) .nil
    rw [List.append_nil, List.append_nil] at hargs
    rw [List.map_map]
    exact hargs
  | record size id name member ih =>
    intro s x h
    obtain ⟨hstart, h₁⟩ := tracks_start 0x7B s x h
    have hstart' : run (textEncoder E) (encode (.mapStart (some size))) s = start 0x7B s := rfl
    rw [EncoderValue.encode, encodeRecord_eq, run_bind, hstart', hstart, EncoderValue.space]
    dsimp only
    cases (TextSpace.put 0x7B x).1 with
    | false => exact ⟨rfl, h₁⟩
    | true =>
      rw [Bool.not_true, if_neg Bool.false_ne_true, run_bind, if_pos rfl]
      exact tracks_stop 0x7D _ _ (follows_members (List.finRange size) ih h₁)

end Tracks

end ThingSet
