import Mathlib.Data.Fin.VecNotation
import Mathlib.Tactic.FinCases
import ThingSet.Server.Basic
import ThingSet.Text.RoundTrip

/-!
# Groups as JSON texts

A group is encoded as a map of its encodable children. Behind every pair there is a comma, and the end of the map is
put in the place of the last one. With the option `outlineGroups` the groups within a group leave out their leaves.

* `NodeTree.text`: the object that a tree of nodes stands for, and `NodeTree.counts` the numbers of its entries.
* `encodeGroup_writes`: the text encoder writes it, and a map is started with the number of its entries.
-/

namespace ThingSet

open Interaction Prog

/-! ## Trees -/

/-- A node with what is below it: an encodable leaf with its text and the counts of the maps in it, a group with the
names of its children, or a node that is not encodable. -/
inductive NodeTree
  | leaf (text : Bytes) (counts : List ℕ)
  | group (size : ℕ) (name : Fin size → Bytes) (child : Fin size → NodeTree)
  | other

namespace NodeTree

/-- Whether a group has an entry for a child, all of them or only the groups. -/
def Included (groupsOnly : Bool) : NodeTree → Bool
  | leaf .. => !groupsOnly
  | group .. => true
  | other => false

/-- A name in quotes, and the text of a value. -/
def entry (name value : Bytes) : Bytes := 0x22 :: (name ++ [0x22, 0x3A]) ++ value

/-- The object of some entries: they are separated by commas, in braces. -/
def object (entries : List Bytes) : Bytes := 0x7B :: (([0x2C] : Bytes).intercalate entries ++ [0x7D])

/-- The text of a tree; `nested` says whether it is within a group. -/
def text (outline : Bool) : Bool → NodeTree → Bytes
  | _, leaf text _ => text
  | nested, group size name child =>
    object (((List.finRange size).filter fun i => (child i).Included (outline && nested)).map fun i =>
      entry (name i) (text outline true (child i)))
  | _, other => []

/-- The numbers of entries of the groups, each before those of its entries. -/
def counts (outline : Bool) : Bool → NodeTree → List ℕ
  | _, leaf _ counts => counts
  | nested, group size _ child =>
    let entries := (List.finRange size).filter fun i => (child i).Included (outline && nested)
    entries.length :: entries.flatMap fun i => counts outline true (child i)
  | _, other => []

/-- At most `k` groups are within each other. -/
def Nests : ℕ → NodeTree → Prop
  | k, group _ _ child => 0 < k ∧ ∀ i, Nests (k - 1) (child i)
  | _, _ => True

/-- A leaf is the same within a group. -/
theorem text_of_nests_zero {tree : NodeTree} (h : tree.Nests 0) (outline nested nested' : Bool) :
    tree.text outline nested = tree.text outline nested' ∧ tree.counts outline nested = tree.counts outline nested' := by
  cases tree with
  | leaf => exact ⟨rfl, rfl⟩
  | group => exact absurd h.1 (Nat.lt_irrefl 0)
  | other => exact ⟨rfl, rfl⟩

end NodeTree

/-! ## What a program writes -/

open TextEncoderState TextEncoder

/-- The count that is passed to `encodeMapStart`. -/
def startedCount : EncodeOp → List ℕ
  | .mapStart (some count) => [count]
  | _ => []

/-- The text encoder, and the counts that are passed to `encodeMapStart`. -/
def countingEncoder (E : TextEncoderConfig) : Encoder (TextEncoderState × List ℕ) :=
  withLog (textEncoder E) startedCount

/-- In a buffer with room `p` writes `text`, and passes `counts` to `encodeMapStart`. -/
def Writes (E : TextEncoderConfig) (outline : Bool) (depth : UInt8) (p : Encoding Bool) (text : Bytes)
    (counts : List ℕ) : Prop :=
  ∀ (s : TextEncoderState) (log : List ℕ), s.abbreviateArrays = false → s.outlineGroups = outline → s.depth = depth →
    s.Room text → ∃ s', run (countingEncoder E) p (s, log) = (true, s', log ++ counts) ∧ s.Extends text s' ∧
      s'.outlineGroups = outline ∧ s'.depth = depth

/-! ## The parts of an object -/

section Parts

variable {E : TextEncoderConfig} {outline : Bool} {depth : UInt8} {p q : Encoding Bool} {text text' : Bytes}
  {counts counts' : List ℕ} {s s' : TextEncoderState}

theorem append_keeps (c : UInt8) (s : TextEncoderState) :
    (append c s).2.outlineGroups = s.outlineGroups ∧ (append c s).2.depth = s.depth := by
  unfold append
  split <;> exact ⟨rfl, rfl⟩

theorem appendFormat_keeps (text : Bytes) (s : TextEncoderState) :
    (appendFormat text s).2.outlineGroups = s.outlineGroups ∧ (appendFormat text s).2.depth = s.depth := by
  unfold appendFormat
  split <;> exact ⟨rfl, rfl⟩

/-- A single character. -/
theorem writes_append (c : UInt8)
    (hp : ∀ s log, run (countingEncoder E) p (s, log) = ((append c s).1, (append c s).2, log ++ [])) :
    Writes E outline depth p [c] [] := by
  intro s log _ houtline hdepth hroom
  obtain ⟨s', happend, hs'⟩ := append_spec c (Nat.lt_of_succ_lt hroom)
  have hkeeps := append_keeps c s
  rw [hp, happend]
  rw [happend] at hkeeps
  exact ⟨s', rfl, hs', hkeeps.1.trans houtline, hkeeps.2.trans hdepth⟩

theorem writes_encodeAll_nil : Writes E outline depth (encodeAll []) [] [] :=
  fun s log _ houtline hdepth _ => ⟨s, by rw [List.append_nil]; rfl, .refl, houtline, hdepth⟩

/-- One after the other. -/
theorem Writes.cons {ps : List (Encoding Bool)} (hp : Writes E outline depth p text counts)
    (hps : Writes E outline depth (encodeAll ps) text' counts') :
    Writes E outline depth (encodeAll (p :: ps)) (text ++ text') (counts ++ counts') := by
  intro s log habbreviate houtline hdepth hroom
  obtain ⟨s₁, hrun₁, h₁, houtline₁, hdepth₁⟩ := hp s log habbreviate houtline hdepth hroom.left
  obtain ⟨s₂, hrun₂, h₂, hmode⟩ := hps s₁ (log ++ counts) (h₁.abbreviateArrays.trans habbreviate) houtline₁ hdepth₁
    (hroom.right h₁)
  refine ⟨s₂, ?_, h₁.trans h₂, hmode⟩
  rw [encodeAll, run_bind, hrun₁, ← List.append_assoc]
  exact hrun₂

theorem andThen_keeps {a b : TextEncoderState → Bool × TextEncoderState}
    (ha : ∀ s, (a s).2.outlineGroups = s.outlineGroups ∧ (a s).2.depth = s.depth)
    (hb : ∀ s, (b s).2.outlineGroups = s.outlineGroups ∧ (b s).2.depth = s.depth) (s : TextEncoderState) :
    (andThen a b s).2.outlineGroups = s.outlineGroups ∧ (andThen a b s).2.depth = s.depth := by
  unfold andThen
  dsimp only
  split
  · exact ⟨(hb _).1.trans (ha s).1, (hb _).2.trans (ha s).2⟩
  · exact ha s

/-- A name, as a key. -/
theorem writes_string {name : Bytes} (hname : 0 ∉ name) :
    Writes E outline depth (encode (.string name)) (Piece.string name).text [] := by
  intro s log _ houtline hdepth hroom
  have hzero : name.takeWhile (· ≠ 0) = name := by
    refine List.takeWhile_eq_self_iff.2 fun c hc => ?_
    rw [decide_eq_true_eq]
    rintro rfl
    exact hname hc
  rw [← hzero] at hroom
  obtain ⟨s', hstring, hs'⟩ := string_written hroom
  have hkeeps := andThen_keeps (append_keeps 0x22)
    (andThen_keeps (appendFormat_keeps (name.takeWhile (· ≠ 0))) (append_keeps 0x22)) s
  rw [hzero] at hs'
  refine ⟨s', ?_, hs', ?_, ?_⟩
  · change ((TextEncoder.string name s).1, (TextEncoder.string name s).2, log ++ []) = _
    rw [hstring]
  · rw [show s' = (TextEncoder.string name s).2 by rw [hstring], ← houtline]
    exact hkeeps.1
  · rw [show s' = (TextEncoder.string name s).2 by rw [hstring], ← hdepth]
    exact hkeeps.2

/-- A number. -/
theorem writes_uint (w : IntWidth) (value : ℕ) :
    Writes E outline depth (encode (.uint w value)) (decimal value) [] := by
  intro s log _ houtline hdepth hroom
  obtain ⟨s', happend, hs', -⟩ := appendFormat_spec hroom
  have hkeeps := appendFormat_keeps (decimal value) s
  rw [happend] at hkeeps
  refine ⟨s', ?_, hs', hkeeps.1.trans houtline, hkeeps.2.trans hdepth⟩
  change ((appendFormat (decimal value) s).1, (appendFormat (decimal value) s).2, log ++ []) = _
  rw [happend]

/-- A pair, with a separator behind it. -/
theorem writes_pair {name : Bytes} (hname : 0 ∉ name) (hp : Writes E outline depth p text counts) :
    Writes E outline depth (encodePair (encode (.string name)) p) (NodeTree.entry name text ++ [0x2C]) counts := by
  have hcolon : Writes E outline depth (encode .keyValuePairSeparator) [0x3A] [] := writes_append 0x3A fun _ _ => rfl
  have hcomma : Writes E outline depth (encode .listSeparator) [0x2C] [] := writes_append 0x2C fun _ _ => rfl
  have h := (writes_string hname).cons (hcolon.cons (hp.cons (hcomma.cons writes_encodeAll_nil)))
  have htext : (Piece.string name).text ++ ([0x3A] ++ (text ++ ([0x2C] ++ []))) =
      NodeTree.entry name text ++ [0x2C] := by
    simp [NodeTree.entry, Piece.string]
  rw [htext] at h
  unfold encodePair
  simpa only [List.nil_append, List.append_nil] using h

/-- Several programs. -/
theorem writes_encodeAll {ι : Type} (is : List ι) {program : ι → Encoding Bool} {texts : ι → Bytes}
    {counts : ι → List ℕ} (h : ∀ i ∈ is, Writes E outline depth (program i) (texts i) (counts i)) :
    Writes E outline depth (encodeAll (is.map program)) (is.flatMap texts) (is.flatMap counts) := by
  induction is with
  | nil => exact writes_encodeAll_nil
  | cons i is ih => exact (h i List.mem_cons_self).cons (ih fun j hj => h j (List.mem_cons_of_mem i hj))

end Parts

/-! ## Objects -/

/-- A separator behind each, or between each two and one behind the last. -/
theorem flatMap_separator {xs : List Bytes} (hxs : xs ≠ []) :
    xs.flatMap (· ++ [0x2C]) = ([0x2C] : Bytes).intercalate xs ++ [0x2C] := by
  induction xs with
  | nil => exact absurd rfl hxs
  | cons x xs ih =>
    rw [List.flatMap_cons]
    rcases eq_or_ne xs [] with rfl | hne
    · rw [List.flatMap_nil, List.append_nil, List.intercalate_singleton]
    · rw [ih hne, List.intercalate_cons_of_ne_nil hne, List.append_assoc, List.append_assoc, List.append_assoc]

theorem run_encodeAll_append {τ : Type} (h : Encoder τ) (ps qs : List (Encoding Bool)) (s : τ) :
    run h (encodeAll (ps ++ qs)) s =
      if (run h (encodeAll ps) s).1 then run h (encodeAll qs) (run h (encodeAll ps) s).2
      else (false, (run h (encodeAll ps) s).2) := by
  induction ps generalizing s with
  | nil => rfl
  | cons p ps ih =>
    rw [List.cons_append, encodeAll, encodeAll, run_bind, run_bind]
    cases (run h p s).1 with
    | false => rfl
    | true => exact ih _

section Objects

variable {E : TextEncoderConfig} {s s₁ s₂ : TextEncoderState} {entries : List Bytes}

/-- The closing brace behind the entries. -/
theorem stop_entries (hroom : s.Room (NodeTree.object entries)) (h₁ : s.Extends [0x7B] s₁)
    (h₂ : s₁.Extends (entries.flatMap (· ++ [0x2C])) s₂) :
    ∃ s', stop 0x7D s₂ = (true, s') ∧ s.Extends (NodeTree.object entries) s' := by
  have h := h₁.trans h₂
  rcases eq_or_ne entries [] with rfl | hne
  · exact stop_spec_other [] 0x7D h (by decide) hroom.takes
  · rw [flatMap_separator hne, ← List.append_assoc] at h
    exact stop_spec_separator 0x7D h hroom.takes

/-- There is room for the entries, with a separator behind each. -/
theorem room_entries (hroom : s.Room (NodeTree.object entries)) (h₁ : s.Extends [0x7B] s₁) :
    s₁.Room (entries.flatMap (· ++ [0x2C])) := by
  have hrest : s₁.Room (([0x2C] : Bytes).intercalate entries ++ [0x7D]) := Room.right hroom h₁
  rcases eq_or_ne entries [] with rfl | hne
  · exact hrest.left
  · rw [flatMap_separator hne]
    simpa only [Room, List.length_append, List.length_singleton] using hrest

theorem stop_keeps (c : UInt8) (s : TextEncoderState) :
    (stop c s).2.outlineGroups = s.outlineGroups ∧ (stop c s).2.depth = s.depth - 1 := by
  unfold stop
  dsimp only
  split <;> exact append_keeps c _

/-- A map of pairs. -/
theorem writes_object {ι : Type} (is : List ι) {outline : Bool} {depth : UInt8} {pair : ι → Encoding Bool}
    {entry : ι → Bytes} {counts : ι → List ℕ}
    (h : ∀ i ∈ is, Writes E outline (depth + 1) (pair i) (entry i ++ [0x2C]) (counts i)) :
    Writes E outline depth
      (encodeAll ([encode (.mapStart (some is.length))] ++ is.map pair ++ [encode (.mapEnd (some is.length))]))
      (NodeTree.object (is.map entry)) (is.length :: is.flatMap counts) := by
  intro s log habbreviate houtline hdepth hroom
  obtain ⟨s₁, hstart, h₁⟩ := start_spec (s := s) 0x7B (by rw [Room] at hroom; omega)
  have hmode₁ : s₁.outlineGroups = outline ∧ s₁.depth = depth + 1 := by
    rw [show s₁ = (start 0x7B s).2 by rw [hstart], ← houtline, ← hdepth]
    exact append_keeps 0x7B _
  have hpairs := writes_encodeAll is h
  have htexts : (is.flatMap fun i => entry i ++ [0x2C]) = (is.map entry).flatMap (· ++ [0x2C]) := by
    rw [List.flatMap_map]
  rw [htexts] at hpairs
  obtain ⟨s₂, hrun₂, h₂, houtline₂, hdepth₂⟩ := hpairs s₁ (log ++ [is.length])
    (h₁.abbreviateArrays.trans habbreviate) hmode₁.1 hmode₁.2 (room_entries hroom h₁)
  obtain ⟨s', hstop, h'⟩ := stop_entries hroom h₁ h₂
  have hmode' := stop_keeps 0x7D s₂
  rw [hstop] at hmode'
  have hstart' : run (countingEncoder E) (encode (.mapStart (some is.length))) (s, log) =
      (true, s₁, log ++ [is.length]) := by
    change ((start 0x7B s).1, (start 0x7B s).2, log ++ [is.length]) = _
    rw [hstart]
  have hend : run (countingEncoder E) (encodeAll [encode (.mapEnd (some is.length))])
      (s₂, log ++ [is.length] ++ is.flatMap counts) = (true, s', log ++ [is.length] ++ is.flatMap counts ++ []) := by
    have hcall : run (countingEncoder E) (encode (.mapEnd (some is.length)))
        (s₂, log ++ [is.length] ++ is.flatMap counts) =
          ((stop 0x7D s₂).1, (stop 0x7D s₂).2, log ++ [is.length] ++ is.flatMap counts ++ []) := rfl
    rw [encodeAll, run_bind, hcall, hstop]
    rfl
  refine ⟨s', ?_, h', hmode'.1.trans houtline₂, ?_⟩
  · rw [List.append_assoc, List.singleton_append, encodeAll, run_bind, hstart', if_pos rfl, run_encodeAll_append, hrun₂,
      if_pos rfl, hend, List.append_nil, List.append_assoc, List.singleton_append]
  · rw [hmode'.2, hdepth₂, UInt8.add_sub_cancel]

end Objects

namespace Registry

variable {ι V A : Type}

/-- The nodes from `n` on are this tree. -/
inductive IsTree (R : Registry ι V A) (E : TextEncoderConfig) (w : World ι V A) : ι → NodeTree → Prop
  | leaf {n : ι} {text : Bytes} {counts : List ℕ} (hencodable : (R.node n).kind.tryCastTo .encodable = true)
    (hgroup : (R.node n).kind.tryCastTo .group = false)
    (hwrites : ∀ fuel outline depth, Writes E outline depth (R.encodeNode w (fuel + 1) n) text counts) :
    IsTree R E w n (.leaf text counts)
  | group {n : ι} {callback : ι → CallbackReason → A → Bool × A} {size : ℕ} {child : Fin size → NodeTree}
    (children : Fin size → ι) (hkind : (R.node n).kind = .group callback)
    (hchildren : R.children n = (List.finRange size).map children)
    (hname : ∀ i, 0 ∉ (R.node (children i)).name) (hchild : ∀ i, IsTree R E w (children i) (child i)) :
    IsTree R E w n (.group size (fun i => (R.node (children i)).name) child)
  | other {n : ι} (hencodable : (R.node n).kind.tryCastTo .encodable = false) : IsTree R E w n .other

variable {R : Registry ι V A} {E : TextEncoderConfig} {w : World ι V A} {n : ι} {tree : NodeTree} {outline : Bool}

/-- `shouldInclude`. -/
theorem IsTree.included (h : R.IsTree E w n tree) (groupsOnly : Bool) :
    ((R.node n).kind.tryCastTo .encodable && (!groupsOnly || (R.node n).kind.tryCastTo .group)) =
      tree.Included groupsOnly := by
  cases h with
  | leaf hencodable hgroup => rw [hencodable, hgroup, Bool.or_false, Bool.true_and, NodeTree.Included]
  | group children hkind => rw [hkind]; exact Bool.or_true _
  | other hencodable => rw [hencodable, Bool.false_and, NodeTree.Included]

/-- The outline option has an effect within a group. -/
theorem run_renderGroupAsOutline {s : TextEncoderState} (log : List ℕ) :
    run (countingEncoder E) (encode .renderGroupAsOutline) (s, log) =
      (s.outlineGroups && decide (0 < s.depth), s, log ++ []) := rfl

/-- The pair of a child. -/
theorem writes_child {depth : UInt8} {p : Encoding Bool} {text : Bytes} {counts : List ℕ} (id : ℕ) {name : Bytes}
    (hname : 0 ∉ name) (hp : Writes E outline depth p text counts) :
    Writes E outline depth (do
        let keysAsIds ← encode .encodeKeysAsIds
        encodePair (if keysAsIds then encode (.uint .w16 id) else encode (.string name)) p)
      (NodeTree.entry name text ++ [0x2C]) counts := by
  intro s log
  have hkeys : run (countingEncoder E) (encode .encodeKeysAsIds) (s, log) = (false, s, log ++ []) := rfl
  rw [run_bind, hkeys, List.append_nil]
  exact writes_pair hname hp s log

/-- Within a group the depth is not zero, until it wraps around, where there are no more groups. -/
theorem depth_succ {k : ℕ} {depth : UInt8} (hk : 0 < k) (hdepth : depth.toNat + k ≤ 256) :
    (depth + 1).toNat + (k - 1) ≤ 256 ∧ (decide (0 < depth + 1) = true ∨ k - 1 = 0) := by
  have hnat : (depth + 1).toNat = (depth.toNat + 1) % 256 := by
    rw [UInt8.toNat_add]
    rfl
  rw [decide_eq_true_eq, UInt8.lt_iff_toNat_lt, hnat]
  change _ ∧ (0 < _ ∨ _)
  omega

/-- A tree is written. -/
theorem encodeNode_writes (h : R.IsTree E w n tree) (hencodable : tree.Included false = true) {k fuel : ℕ}
    {depth : UInt8} (hnests : tree.Nests k) (hdepth : depth.toNat + k ≤ 256) (hfuel : k < fuel) :
    Writes E outline depth (R.encodeNode w fuel n) (tree.text outline (0 < depth))
      (tree.counts outline (0 < depth)) := by
  induction h generalizing k fuel depth with
  | other => cases hencodable
  | leaf _ _ hwrites =>
    obtain ⟨fuel, rfl⟩ : ∃ m, fuel = m + 1 := ⟨fuel - 1, by omega⟩
    exact hwrites fuel outline depth
  | @group n callback size child children hkind hchildren hname hchild ih =>
    obtain ⟨fuel, rfl⟩ : ∃ m, fuel = m + 1 := ⟨fuel - 1, by omega⟩
    obtain ⟨hk, hnests⟩ := hnests
    have hnode : R.encodeNode w (fuel + 1) n = R.encodeGroup (R.encodeNode w fuel) n := by
      rw [encodeNode, hkind]
    rw [hnode]
    have hincluded : (R.children n).filter (fun m => (R.node m).kind.tryCastTo .encodable &&
        (!(outline && decide (0 < depth)) || (R.node m).kind.tryCastTo .group)) =
          ((List.finRange size).filter fun i => (child i).Included (outline && decide (0 < depth))).map children := by
      rw [hchildren, List.filter_map]
      congr 1
      exact List.filter_congr fun i _ => (hchild i).included _
    have hpair : ∀ i ∈ (List.finRange size).filter fun i => (child i).Included (outline && decide (0 < depth)),
        Writes E outline (depth + 1) (do
            let keysAsIds ← encode .encodeKeysAsIds
            encodePair
              (if keysAsIds then encode (.uint .w16 (R.node (children i)).id)
                else encode (.string (R.node (children i)).name)) (R.encodeNode w fuel (children i)))
          (NodeTree.entry (R.node (children i)).name ((child i).text outline true) ++ [0x2C])
          ((child i).counts outline true) := by
      intro i hi
      refine writes_child _ (hname i) ?_
      have hi : (child i).Included (outline && decide (0 < depth)) = true := (List.mem_filter.1 hi).2
      have hencodable : (child i).Included false = true := by
        cases hchild : child i <;> rw [hchild] at hi <;> first | rfl | cases hi
      have hnext := depth_succ hk hdepth
      have hwrites := ih i hencodable (hnests i) hnext.1 (show k - 1 < fuel by omega)
      rcases hnext.2 with hpos | hzero
      · rwa [hpos] at hwrites
      · rw [hzero] at hnests
        obtain ⟨htext, hcounts⟩ := NodeTree.text_of_nests_zero (hnests i) outline (decide (0 < depth + 1)) true
        rwa [htext, hcounts] at hwrites
    intro s log habbreviate houtline hdepth' hroom
    rw [encodeGroup, run_bind, run_renderGroupAsOutline, List.append_nil, houtline, hdepth']
    dsimp only
    rw [hincluded, List.length_map, List.map_map]
    exact writes_object _ hpair s log habbreviate houtline hdepth' hroom

/-- **In a buffer with room a group is written as the object of its tree, and the counts that are passed to
`encodeMapStart` are those of its entries.** -/
theorem encodeGroup_writes {size : ℕ} {name : Fin size → Bytes} {child : Fin size → NodeTree}
    (htree : R.IsTree E w n (.group size name child)) (hnests : (NodeTree.group size name child).Nests 256)
    {s : TextEncoderState} (hdepth : s.depth = 0) (habbreviate : s.abbreviateArrays = false)
    (hroom : s.Room ((NodeTree.group size name child).text s.outlineGroups false)) :
    ∃ s', run (textEncoder E) (R.encodeNode w sizeMax n) s = (true, s') ∧
      s.Extends ((NodeTree.group size name child).text s.outlineGroups false) s' ∧ s'.depth = 0 ∧
      (run (countingEncoder E) (R.encodeNode w sizeMax n) (s, [])).2.2 =
        (NodeTree.group size name child).counts s.outlineGroups false := by
  have hwrites : Writes E s.outlineGroups 0 (R.encodeNode w sizeMax n) _ _ :=
    encodeNode_writes htree rfl hnests (le_refl 256) (show 256 < sizeMax by decide)
  rw [show decide ((0 : UInt8) < 0) = false from rfl] at hwrites
  obtain ⟨s', hrun, hs', -, hdepth'⟩ := hwrites s [] habbreviate rfl hdepth hroom
  have hlog := run_withLog (textEncoder E) startedCount (R.encodeNode w sizeMax n) s []
  rw [countingEncoder] at hrun
  rw [hrun] at hlog
  refine ⟨s', Prod.ext hlog.1.symm hlog.2.symm, hs', hdepth', ?_⟩
  rw [countingEncoder, hrun, List.nil_append]

end Registry

/-! ## Nested groups -/

/-- The nodes of a group with a number, a group and a node that is not encodable; the group within it has a number and
an empty group. -/
def nestedGroupsNode : SmallNode → Node SmallNode ℕ Unit
  | .root => .ofIds [0x6F] 0x10 0 0x77 (.group fun _ _ a => (true, a))
  | .a => .ofIds [0x6F, 0x6C] 0x11 0x10 0x77 (.property ⟨fun v => encode (.uint .w32 v), fun _ => pure ⟨false, none⟩⟩)
  | .b => .ofIds [0x73] 0x12 0x10 0x77 (.group fun _ _ a => (true, a))
  | .c => .ofIds [0x73, 0x6C] 0x13 0x12 0x77 (.property ⟨fun v => encode (.uint .w32 v), fun _ => pure ⟨false, none⟩⟩)
  | .d => .ofIds [0x64] 0x14 0x12 0x77 (.group fun _ _ a => (true, a))
  | .metadata => .ofIds [0x5F] 25 0 0x01 .overlay

/-- The registry. -/
def nestedGroups : Registry SmallNode ℕ Unit where
  node := nestedGroupsNode
  nodeMap := bucketsOf nestedGroupsNode [.root, .metadata, .a, .b, .c, .d]
  childrenOf n := if n = .root then [.a, .metadata, .b] else if n = .b then [.c, .d] else []
  rootNode := .root
  metadataNode := .metadata

/-- The children of the group, and of the group within it. -/
def outerChildren : Fin 3 → SmallNode := ![.a, .metadata, .b]

@[inherit_doc outerChildren]
def innerChildren : Fin 2 → SmallNode := ![.c, .d]

/-- The group within the group, where every number is 7. -/
def innerTree : NodeTree :=
  .group 2 (fun i => (nestedGroups.node (innerChildren i)).name)
    ![.leaf (decimal 7) [], .group 0 (fun i => (nestedGroups.node (i.elim0)).name) fun i => i.elim0]

/-- The tree. -/
def nestedTree : NodeTree :=
  .group 3 (fun i => (nestedGroups.node (outerChildren i)).name) ![.leaf (decimal 7) [], .other, innerTree]

/-- `{"ol":7,"s":{"d":{}}}`, with two entries, one and none. -/
example : nestedTree.text true false = [0x7B, 0x22, 0x6F, 0x6C, 0x22, 0x3A, 0x37, 0x2C, 0x22, 0x73, 0x22, 0x3A, 0x7B, 0x22,
    0x64, 0x22, 0x3A, 0x7B, 0x7D, 0x7D, 0x7D] ∧ nestedTree.counts true false = [2, 1, 0] := by
  decide +kernel

/-- The world in which every number is 7. -/
def allSevens : World SmallNode ℕ Unit := ⟨fun _ => 7, fun _ _ => 7, fun _ => [], ()⟩

/-- A buffer of 32 characters. -/
def outlineEncoder : TextEncoderState where
  responseBuffer := List.replicate 32 0
  outlineGroups := true

theorem nestedGroups_isTree (E : TextEncoderConfig) :
    nestedGroups.IsTree E allSevens .root nestedTree := by
  have hinner : nestedGroups.IsTree E allSevens .b innerTree := by
    refine .group innerChildren rfl rfl (by decide) fun i => ?_
    fin_cases i
    · exact .leaf rfl rfl fun _ _ _ => writes_uint .w32 7
    · exact .group (fun i => i.elim0) rfl rfl (fun i => i.elim0) fun i => i.elim0
  refine .group outerChildren rfl rfl (by decide) fun i => ?_
  fin_cases i
  · exact .leaf rfl rfl fun _ _ _ => writes_uint .w32 7
  · exact .other rfl
  · exact hinner

/-- It is written. -/
theorem nestedGroups_written :
    ∃ s', run (textEncoder noFloats) (nestedGroups.encodeNode allSevens sizeMax .root) outlineEncoder = (true, s') ∧
      outlineEncoder.Extends (nestedTree.text true false) s' ∧ s'.depth = 0 ∧
      (run (countingEncoder noFloats) (nestedGroups.encodeNode allSevens sizeMax .root) (outlineEncoder, [])).2.2 =
        nestedTree.counts true false := by
  have hnests : nestedTree.Nests 256 := by
    refine ⟨Nat.succ_pos _, fun i => ?_⟩
    fin_cases i
    · trivial
    · trivial
    · refine ⟨Nat.succ_pos _, fun i => ?_⟩
      fin_cases i
      · trivial
      · exact ⟨Nat.succ_pos _, fun i => i.elim0⟩
  exact Registry.encodeGroup_writes (nestedGroups_isTree _) hnests rfl rfl (by decide +kernel)

end ThingSet
