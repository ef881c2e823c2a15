import ThingSet.Node

/-!
# Paths

A node below the root is named by the names on the way to it, with a slash between them. `findByName` of a parent
compares the first name of a path with its own before those of its children.

* `Registry.IsNamedTree`: the nodes form a tree, and no two siblings have the same name.
* `Registry.findByName_iff`: `findByName` finds the node that a path names and none for any other string, unless the
  string is the path of a node that may have children with its own name behind it.
* `Registry.arrayIndex_iff`: when a record array takes a string as an index exactly if it is a numeral below the size.
-/

namespace ThingSet

/-- The names with a slash between them. -/
def joinNames (names : List Bytes) : Bytes := [0x2F].intercalate names

theorem joinNames_cons {t : Bytes} {ts : List Bytes} (hts : ts ≠ []) :
    joinNames (t :: ts) = t ++ 0x2F :: joinNames ts := by
  rw [joinNames, List.intercalate_cons_of_ne_nil hts, List.append_assoc]
  rfl

/-- A text is made of the names between its slashes. -/
theorem exists_joinNames (s : Bytes) : ∃ names, names ≠ [] ∧ (∀ t ∈ names, 0x2F ∉ t) ∧ joinNames names = s := by
  induction s with
  | nil => exact ⟨[[]], List.cons_ne_nil _ _, by simp, rfl⟩
  | cons c s ih =>
    obtain ⟨names, hne, hslash, rfl⟩ := ih
    obtain ⟨t, ts, rfl⟩ := List.exists_cons_of_ne_nil hne
    by_cases hc : c = 0x2F
    · subst hc
      refine ⟨[] :: t :: ts, List.cons_ne_nil _ _, ?_, joinNames_cons hne⟩
      intro u hu
      rcases List.mem_cons.1 hu with rfl | hu
      · exact List.not_mem_nil
      · exact hslash u hu
    · refine ⟨(c :: t) :: ts, List.cons_ne_nil _ _, ?_, ?_⟩
      · intro u hu
        rcases List.mem_cons.1 hu with rfl | hu
        · exact fun hmem => (List.mem_cons.1 hmem).elim (fun h => hc h.symm) (hslash t List.mem_cons_self)
        · exact hslash u (List.mem_cons_of_mem _ hu)
      · cases ts with
        | nil => rfl
        | cons u us => rw [joinNames_cons (List.cons_ne_nil _ _), joinNames_cons (List.cons_ne_nil _ _)]; rfl

/-- The names are those between the slashes. -/
theorem joinNames_inj {names names' : List Bytes} (hne : names ≠ []) (hne' : names' ≠ [])
    (hslash : ∀ t ∈ names, 0x2F ∉ t) (hslash' : ∀ t ∈ names', 0x2F ∉ t) (h : joinNames names = joinNames names') :
    names = names' := by
  rw [← List.splitOn_intercalate 0x2F hslash hne, ← List.splitOn_intercalate 0x2F hslash' hne']
  exact congrArg (List.splitOn 0x2F) h

/-- The first name of a text. -/
theorem takeWhile_joinNames {t : Bytes} {ts : List Bytes} (ht : 0x2F ∉ t) :
    (joinNames (t :: ts)).takeWhile (· ≠ 0x2F) = t := by
  have hall : ∀ c ∈ t, decide (c ≠ 0x2F) = true := fun c hc =>
    decide_eq_true fun heq => ht (heq ▸ hc)
  cases ts with
  | nil =>
    rw [joinNames, List.intercalate_singleton]
    simpa using @List.takeWhile_append_of_pos _ _ t [] hall
  | cons u us =>
    rw [joinNames_cons (List.cons_ne_nil _ _), List.takeWhile_append_of_pos hall]
    simp

namespace Registry

variable {ι V A : Type} (R : Registry ι V A)

/-! ## The tree -/

/-- The names of the nodes on the way from a node to one below it. -/
inductive Leads : ι → List Bytes → ι → Prop
  | here (n : ι) : Leads n [] n
  | child {n c m : ι} {names : List Bytes} : c ∈ R.children n → Leads c names m →
      Leads n ((R.node c).name :: names) m

/-- The root and the nodes below it. -/
def InTree (n : ι) : Prop := ∃ names, R.Leads R.rootNode names n

/-- The nodes below the root form a tree, and none of them is a record array. The names of siblings differ, and no name
is empty or has a slash. -/
structure IsNamedTree : Prop where
  root_name : (R.node R.rootNode).name = []
  depth : ∃ depth : ι → ℕ, ∀ n, R.InTree n → ∀ c ∈ R.children n, depth n < depth c
  hasChildren : ∀ n, R.InTree n → R.children n ≠ [] → (R.node n).kind.tryCastTo .hasChildren = true
  distinct : ∀ n, R.InTree n → ∀ c ∈ R.children n, ∀ c' ∈ R.children n, (R.node c).name = (R.node c').name → c = c'
  name_ne : ∀ n, R.InTree n → ∀ c ∈ R.children n, (R.node c).name ≠ []
  no_slash : ∀ n, R.InTree n → ∀ c ∈ R.children n, 0x2F ∉ (R.node c).name
  no_array : ∀ n, R.InTree n → ∀ element size hsize, (R.node n).kind ≠ .recordArray element size hsize

/-- The path of a node below `n` that may have children, with the name of that node behind it. -/
def Repeats (n : ι) (names : List Bytes) (m : ι) : Prop :=
  ∃ way, R.Leads n way m ∧ (way = [] ∨ (R.node m).kind.tryCastTo .hasChildren = true) ∧
    names = way ++ [(R.node m).name]

variable {R} {n m c : ι} {names : List Bytes}

theorem Leads.trans {names' : List Bytes} {m' : ι} (h : R.Leads n names m) (h' : R.Leads m names' m') :
    R.Leads n (names ++ names') m' := by
  induction h with
  | here => exact h'
  | child hc _ ih => exact .child hc (ih h')

theorem InTree.child (hn : R.InTree n) (hc : c ∈ R.children n) : R.InTree c := by
  obtain ⟨names, h⟩ := hn
  exact ⟨_, h.trans (.child hc (.here c))⟩

theorem leads_single (h : R.Leads n [x] m) : m ∈ R.children n ∧ (R.node m).name = x := by
  cases h with
  | child hc h =>
    cases h
    exact ⟨hc, rfl⟩

theorem Leads.split {names' : List Bytes} {m' : ι} (h : R.Leads n (names ++ names') m') :
    ∃ m, R.Leads n names m ∧ R.Leads m names' m' := by
  induction names generalizing n with
  | nil => exact ⟨n, .here n, h⟩
  | cons x names ih =>
    cases h with
    | child hc h =>
      obtain ⟨m, hm, h⟩ := ih h
      exact ⟨m, .child hc hm, h⟩

/-- A path names one node. -/
theorem Leads.unique {m' : ι} (hR : R.IsNamedTree) (hn : R.InTree n) (h : R.Leads n names m) (h' : R.Leads n names m') :
    m = m' := by
  induction h with
  | here =>
    cases h'
    rfl
  | @child n c m names hc h ih =>
    generalize hnames : (R.node c).name :: names = names' at h'
    cases h' with
    | here => cases hnames
    | @child _ c' _ names' hc' h' =>
      obtain ⟨hname, rfl⟩ := List.cons.inj hnames
      obtain rfl := hR.distinct n hn c hc c' hc' hname
      exact ih (hn.child hc) h'

theorem Leads.no_slash (hR : R.IsNamedTree) (hn : R.InTree n) (h : R.Leads n names m) : ∀ t ∈ names, 0x2F ∉ t := by
  induction h with
  | here => exact fun t ht => absurd ht List.not_mem_nil
  | @child n c m names hc _ ih =>
    intro t ht
    rcases List.mem_cons.1 ht with rfl | ht
    · exact hR.no_slash n hn c hc
    · exact ih (hn.child hc) t ht

/-! ## The lookup -/

/-- A node that is no record array is looked up in as the base class does. -/
theorem findByNameFrom_eq (hn : ∀ element size hsize, (R.node n).kind ≠ .recordArray element size hsize) (fuel : ℕ)
    (name : Bytes) : R.findByNameFrom (fuel + 1) n name = R.parentFindByName (R.findByNameFrom fuel) n name := by
  rw [findByNameFrom]
  split
  · rename_i element size hsize hkind
    exact absurd hkind (hn element size hsize)
  · rfl

/-- The last name of a path: the node itself, or its child with that name. -/
theorem findByNameFrom_last (hR : R.IsNamedTree) (hn : R.InTree n) {t : Bytes} (ht : 0x2F ∉ t) (fuel : ℕ) :
    R.findByNameFrom (fuel + 1) n (joinNames [t]) =
      if (R.node n).name = t then some (n, sizeMax)
      else ((R.children n).find? fun c => (R.node c).name = t).map (·, sizeMax) := by
  rw [findByNameFrom_eq (hR.no_array n hn), parentFindByName, takeWhile_joinNames ht, joinNames,
    List.intercalate_singleton]
  simp only [and_true, if_true]
  split
  · rfl
  · split <;> simp_all

/-- A name with others behind it: the child with that name. -/
theorem findByNameFrom_cons (hR : R.IsNamedTree) (hn : R.InTree n) {t : Bytes} (ht : 0x2F ∉ t) {ts : List Bytes}
    (hts : ts ≠ []) (fuel : ℕ) :
    R.findByNameFrom (fuel + 1) n (joinNames (t :: ts)) =
      ((R.children n).find? fun c => (R.node c).name = t).bind fun c =>
        if (R.node c).kind.tryCastTo .hasChildren then R.findByNameFrom fuel c (joinNames ts) else none := by
  have hlast : ¬ t.length = (joinNames (t :: ts)).length := by
    rw [joinNames_cons hts, List.length_append, List.length_cons]
    omega
  have hdrop : (joinNames (t :: ts)).drop (t.length + 1) = joinNames ts := by
    rw [joinNames_cons hts, ← List.drop_drop, List.drop_left]
    rfl
  rw [findByNameFrom_eq (hR.no_array n hn), parentFindByName, takeWhile_joinNames ht, if_neg fun h => hlast h.2,
    hdrop]
  cases (R.children n).find? fun c => decide ((R.node c).name = t) with
  | none => rfl
  | some c => exact if_neg hlast

/-- A child is found by its name. -/
theorem find_child (hR : R.IsNamedTree) (hn : R.InTree n) (hc : c ∈ R.children n) :
    (R.children n).find? (fun c' => (R.node c').name = (R.node c).name) = some c := by
  cases hfind : (R.children n).find? fun c' => decide ((R.node c').name = (R.node c).name) with
  | none => exact absurd (decide_eq_true rfl) (List.find?_eq_none.1 hfind c hc)
  | some c' =>
    have hname : (R.node c').name = (R.node c).name := of_decide_eq_true (List.find?_some hfind :)
    rw [hR.distinct n hn c' (List.mem_of_find?_eq_some hfind) c hc hname]

theorem length_joinNames_cons {t : Bytes} {ts : List Bytes} (hts : ts ≠ []) :
    (joinNames ts).length < (joinNames (t :: ts)).length := by
  rw [joinNames_cons hts, List.length_append, List.length_cons]
  omega

/-- The node that repeats its own name is found. -/
theorem find_of_repeats (hR : R.IsNamedTree) (hn : R.InTree n) (h : R.Repeats n names m) (hslash : ∀ t ∈ names, 0x2F ∉ t)
    {fuel : ℕ} (hfuel : (joinNames names).length < fuel) :
    R.findByNameFrom fuel n (joinNames names) = some (m, sizeMax) := by
  obtain ⟨way, hway, hparent, rfl⟩ := h
  induction hway generalizing fuel with
  | here =>
    obtain ⟨fuel, rfl⟩ : ∃ k, fuel = k + 1 := ⟨fuel - 1, by omega⟩
    rw [List.nil_append, findByNameFrom_last hR hn (hslash _ (by simp)), if_pos rfl]
  | @child n c m way hc hway ih =>
    obtain ⟨fuel, rfl⟩ : ∃ k, fuel = k + 1 := ⟨fuel - 1, by omega⟩
    have hne : way ++ [(R.node m).name] ≠ [] := by simp
    have hparent : (R.node m).kind.tryCastTo .hasChildren = true := hparent.resolve_left (List.cons_ne_nil _ _)
    have hchildren : (R.node c).kind.tryCastTo .hasChildren = true := by
      cases hway with
      | here => assumption
      | child hc' _ => exact hR.hasChildren c (hn.child hc) (List.ne_nil_of_mem hc')
    have hlen := length_joinNames_cons (t := (R.node c).name) hne
    rw [List.cons_append] at hfuel hslash ⊢
    rw [findByNameFrom_cons hR hn (hslash _ List.mem_cons_self) hne, find_child hR hn hc, Option.bind_some,
      if_pos hchildren]
    exact ih (hn.child hc) (.inr hparent) (fun t ht => hslash t (List.mem_cons_of_mem _ ht)) (by omega)

/-- The node at the end of a path is found, unless the path repeats the name of a node. -/
theorem find_of_leads (hR : R.IsNamedTree) (hn : R.InTree n) (h : R.Leads n names m) (hne : names ≠ [])
    (hrepeats : ∀ m', ¬ R.Repeats n names m') {fuel : ℕ} (hfuel : (joinNames names).length < fuel) :
    R.findByNameFrom fuel n (joinNames names) = some (m, sizeMax) := by
  induction h generalizing fuel with
  | here => exact absurd rfl hne
  | @child n c m names hc h ih =>
    obtain ⟨fuel, rfl⟩ : ∃ k, fuel = k + 1 := ⟨fuel - 1, by omega⟩
    have hslash := hR.no_slash n hn c hc
    cases names with
    | nil =>
      cases h
      have hown : (R.node n).name ≠ (R.node c).name := fun hname =>
        hrepeats n ⟨[], .here n, .inl rfl, by rw [hname]; rfl⟩
      rw [findByNameFrom_last hR hn hslash, if_neg hown, find_child hR hn hc]
      rfl
    | cons t ts =>
      have hlen := length_joinNames_cons (t := (R.node c).name) (List.cons_ne_nil t ts)
      have hchildren : (R.node c).kind.tryCastTo .hasChildren = true := by
        cases h with
        | child hc' _ => exact hR.hasChildren c (hn.child hc) (List.ne_nil_of_mem hc')
      rw [findByNameFrom_cons hR hn hslash (List.cons_ne_nil t ts), find_child hR hn hc, Option.bind_some,
        if_pos hchildren]
      refine ih (hn.child hc) (List.cons_ne_nil t ts) (fun m' hm' => ?_) (by omega)
      obtain ⟨way, hway, hparent, heq⟩ := hm'
      refine hrepeats m' ⟨_, .child hc hway, .inr ?_, by rw [heq]; rfl⟩
      rcases hparent with rfl | hparent
      · cases hway
        exact hchildren
      · exact hparent

/-- What is found is at the end of the path, or the path repeats its name. -/
theorem leads_of_find (hR : R.IsNamedTree) (hn : R.InTree n) (hne : names ≠ []) (hslash : ∀ t ∈ names, 0x2F ∉ t) {fuel : ℕ}
    {r : ι × ℕ} (hfind : R.findByNameFrom fuel n (joinNames names) = some r) :
    R.Repeats n names r.1 ∨ R.Leads n names r.1 := by
  induction names generalizing fuel n with
  | nil => exact absurd rfl hne
  | cons t ts ih =>
    cases fuel with
    | zero => cases hfind
    | succ fuel =>
      have ht := hslash t List.mem_cons_self
      rcases eq_or_ne ts [] with rfl | hts
      · rw [findByNameFrom_last hR hn ht] at hfind
        split at hfind
        · rename_i hown
          obtain rfl := Option.some.inj hfind
          exact .inl ⟨[], .here n, .inl rfl, by rw [← hown]; rfl⟩
        · obtain ⟨c, hc, rfl⟩ := Option.map_eq_some_iff.1 hfind
          obtain rfl : (R.node c).name = t := of_decide_eq_true (List.find?_some hc :)
          exact .inr (.child (List.mem_of_find?_eq_some hc) (.here c))
      · rw [findByNameFrom_cons hR hn ht hts] at hfind
        obtain ⟨c, hc, hrest⟩ := Option.bind_eq_some_iff.1 hfind
        obtain rfl : (R.node c).name = t := of_decide_eq_true (List.find?_some hc :)
        have hmem := List.mem_of_find?_eq_some hc
        split at hrest
        · rename_i hchildren
          rcases ih (hn.child hmem) hts (fun u hu => hslash u (List.mem_cons_of_mem _ hu)) hrest with h | h
          · obtain ⟨way, hway, hparent, rfl⟩ := h
            refine .inl ⟨_, .child hmem hway, .inr ?_, rfl⟩
            rcases hparent with rfl | hparent
            · cases hway
              exact hchildren
            · exact hparent
          · exact .inr (.child hmem h)
        · cases hrest

variable (R) in
/-- `findByName` finds the node that the string is the path of, and none if it is no path. -/
def FindsByPath (s : Bytes) : Prop :=
  ∀ n, (R.findByName s).map Prod.fst = some n ↔ ∃ names, names ≠ [] ∧ R.Leads R.rootNode names n ∧ joinNames names = s

/-- **A string other than the empty one is resolved as a path exactly if it is not the path of a node that may have
children with the name of that node behind it.** -/
theorem findByName_iff (hR : R.IsNamedTree) {s : Bytes} (hs : s ≠ []) :
    R.FindsByPath s ↔ ¬ ∃ names m, R.Leads R.rootNode names m ∧ (R.node m).kind.tryCastTo .hasChildren = true ∧
      joinNames (names ++ [(R.node m).name]) = s := by
  have hroot : R.InTree R.rootNode := ⟨[], .here _⟩
  obtain ⟨names, hne, hslash, rfl⟩ := exists_joinNames s
  have hfuel := Nat.lt_succ_self (joinNames names).length
  -- the names of the string are those of the path
  have hnames : ∀ {names' m}, names' ≠ [] → (∀ t ∈ names', 0x2F ∉ t) → joinNames names' = joinNames names →
      R.Leads R.rootNode names' m → R.Leads R.rootNode names m := by
    intro names' m hne' hslash' heq h
    rwa [← joinNames_inj hne' hne hslash' hslash heq]
  constructor
  · rintro hfinds ⟨way, m, hway, hparent, heq⟩
    have hslash' : ∀ t ∈ way ++ [(R.node m).name], 0x2F ∉ t := by
      intro t ht
      rcases List.mem_append.1 ht with ht | ht
      · exact hway.no_slash hR hroot t ht
      · rw [List.mem_singleton.1 ht]
        cases List.eq_nil_or_concat way with
        | inl hnil =>
          subst hnil
          cases hway
          rw [hR.root_name]
          exact List.not_mem_nil
        | inr hconcat =>
          obtain ⟨way', x, rfl⟩ := hconcat
          obtain ⟨n, hn, hchild⟩ := Leads.split (by simpa using hway)
          obtain ⟨hmem, -⟩ := leads_single hchild
          exact hR.no_slash n ⟨_, hn⟩ m hmem
    obtain rfl := joinNames_inj (by simp) hne hslash' hslash heq
    have hfind : R.findByName (joinNames (way ++ [(R.node m).name])) = some (m, sizeMax) :=
      find_of_repeats hR hroot ⟨way, hway, .inr hparent, rfl⟩ hslash hfuel
    obtain ⟨names', hne', hleads, heq'⟩ := (hfinds m).1 (by rw [hfind]; rfl)
    -- the node would be its own child
    obtain ⟨m', hm', hchild⟩ := Leads.split (hnames hne' (hleads.no_slash hR hroot) heq' hleads)
    obtain rfl := hm'.unique hR hroot hway
    obtain ⟨depth, hdepth⟩ := hR.depth
    exact absurd (hdepth m' ⟨_, hway⟩ m' (leads_single hchild).1) (Nat.lt_irrefl _)
  · intro hrepeats n
    have hrepeats' : ∀ m, ¬ R.Repeats R.rootNode names m := by
      rintro m ⟨way, hway, hparent, heq⟩
      rcases hparent with rfl | hparent
      · cases hway
        rw [heq, hR.root_name] at hs
        exact hs rfl
      · exact hrepeats ⟨way, m, hway, hparent, by rw [heq]⟩
    constructor
    · intro hfind
      obtain ⟨r, hr, rfl⟩ := Option.map_eq_some_iff.1 hfind
      rcases leads_of_find hR hroot hne hslash hr with h | h
      · exact absurd h (hrepeats' _)
      · exact ⟨names, hne, h, rfl⟩
    · rintro ⟨names', hne', hleads, heq⟩
      have hfind : R.findByName (joinNames names) = some (n, sizeMax) :=
        find_of_leads hR hroot (hnames hne' (hleads.no_slash hR hroot) heq hleads) hne hrepeats' hfuel
      rw [hfind]
      rfl

/-- A group with the name `G` below the root, and in it one with this name. -/
def nestedGroup (inner : Bytes) : SmallNode → Node SmallNode Unit Unit
  | .a => .ofIds [0x47] 32 0 0x77 (.group fun _ _ app => (true, app))
  | .b => .ofIds inner 33 32 0x77 (.group fun _ _ app => (true, app))
  | _ => .ofIds [] 0 0 0x01 .overlay

/-- The registry of these nodes. -/
def nestedGroups (inner : Bytes) : Registry SmallNode Unit Unit where
  node := nestedGroup inner
  nodeMap := bucketsOf (nestedGroup inner) [.root, .a, .b]
  childrenOf
    | .root => [.a]
    | .a => [.b]
    | _ => []
  rootNode := .root
  metadataNode := .metadata

theorem nestedGroups_isNamedTree {inner : Bytes} (hne : inner ≠ []) (hslash : 0x2F ∉ inner) : (nestedGroups inner).IsNamedTree := by
  have hchild : ∀ n, ∀ k ∈ (nestedGroups inner).children n, n = .root ∧ k = .a ∨ n = .a ∧ k = .b := by
    intro n k hk
    cases n <;> simp_all [children, nestedGroups, nestedGroup, Node.ofIds]
  refine ⟨rfl, ⟨fun n => if n = .root then 0 else if n = .a then 1 else 2, fun n _ k hk => ?_⟩, fun n _ hn => ?_,
    fun n _ k hk k' hk' _ => ?_, fun n _ k hk => ?_, fun n _ k hk => ?_, fun n _ element size hsize => ?_⟩
  · obtain ⟨rfl, rfl⟩ | ⟨rfl, rfl⟩ := hchild n k hk <;> decide
  · cases n <;> rfl
  · obtain ⟨rfl, rfl⟩ | ⟨rfl, rfl⟩ := hchild n k hk <;> obtain ⟨h, rfl⟩ | ⟨h, rfl⟩ := hchild _ k' hk' <;>
      first | rfl | cases h
  · obtain ⟨rfl, rfl⟩ | ⟨rfl, rfl⟩ := hchild n k hk
    · exact List.cons_ne_nil _ _
    · exact hne
  · obtain ⟨rfl, rfl⟩ | ⟨rfl, rfl⟩ := hchild n k hk
    · show 0x2F ∉ [0x47]
      decide
    · exact hslash
  · cases n <;> rintro ⟨⟩

/-- The string `G/x` in the registry where the inner group has the name `x`. -/
theorem nestedGroups_found : (nestedGroups [0x78]).FindsByPath [0x47, 0x2F, 0x78] := by
  have hR : (nestedGroups [0x78]).IsNamedTree := nestedGroups_isNamedTree (by decide) (by decide)
  refine (findByName_iff hR (List.cons_ne_nil _ _)).2 ?_
  rintro ⟨names, m, hleads, -, heq⟩
  have hslash : ∀ t ∈ names ++ [((nestedGroups [0x78]).node m).name], 0x2F ∉ t := by
    intro t ht
    rcases List.mem_append.1 ht with ht | ht
    · exact hleads.no_slash hR ⟨[], .here _⟩ t ht
    · rw [List.mem_singleton.1 ht]
      cases m <;> decide
  have hnames : names ++ [((nestedGroups [0x78]).node m).name] = [[0x47]] ++ [[0x78]] :=
    joinNames_inj (by simp) (by simp) hslash (by decide) (heq.trans (by decide))
  -- the outer group has another name than the last one
  obtain ⟨rfl, hm⟩ := List.append_inj' hnames rfl
  rw [(leads_single hleads).2] at hm
  exact absurd hm (by decide)

/-- Where both groups have the name `G`, the string `G/G` is the path of the inner one, and the outer one is found. It is
found as well for the string `G/G` where the inner group has the name `x`. -/
theorem nestedGroups_misread :
    (nestedGroups [0x47]).IsNamedTree ∧
      (nestedGroups [0x47]).Leads .root [[0x47], [0x47]] .b ∧
      (nestedGroups [0x47]).findByName [0x47, 0x2F, 0x47] = some (.a, sizeMax) ∧
      (nestedGroups [0x78]).IsNamedTree ∧
      (nestedGroups [0x78]).findByName [0x47, 0x2F, 0x47] = some (.a, sizeMax) ∧
      ¬ (nestedGroups [0x47]).FindsByPath [0x47, 0x2F, 0x47] := by
  have hleads : (nestedGroups [0x47]).Leads .root [[0x47], [0x47]] .b :=
    .child (c := SmallNode.a) (by decide) (.child (c := SmallNode.b) (by decide) (.here _))
  have hfind : (nestedGroups [0x47]).findByName [0x47, 0x2F, 0x47] = some (.a, sizeMax) := by decide +kernel
  refine ⟨nestedGroups_isNamedTree (by decide) (by decide), hleads, hfind, nestedGroups_isNamedTree (by decide) (by decide),
    by decide +kernel, fun h => ?_⟩
  have hb := (h .b).2 ⟨_, List.cons_ne_nil _ _, hleads, by decide⟩
  rw [hfind] at hb
  cases hb

/-! ## Indices of record arrays -/

/-- The text is a decimal numeral. -/
def IsNumeral (s : Bytes) : Prop := s ≠ [] ∧ ∀ c ∈ s, isDigit c = true

/-- `findByName` of an array of records that is a member of a record, given what the base class does. -/
def memberArrayFindByName (found : Option (ι × ℕ)) (self : ι) (name : Bytes) : Option (ι × ℕ) :=
  if 0x30 ≤ name.headD 0 ∧ name.headD 0 ≤ 0x39 then some (self, atoi name) else found

/-- What is found for a string at an array of this size, given what the base class finds: the numerals below the size
are indices, and no other string that begins with a digit is accepted. -/
def IndexedByNumerals (self : ι) (size : ℕ) (s : Bytes) (base found : Option (ι × ℕ)) : Prop :=
  if isDigit (s.headD 0) = true then
    ∀ r, found = some r ↔ IsNumeral s ∧ digitsValue s < size ∧ r = (self, digitsValue s)
  else found = base ∧ ∀ r, found = some r → r.2 = sizeMax

theorem atoi_of_lt {s : Bytes} (h : digitsValue s < 2 ^ 31) : atoi s = digitsValue s := by
  rw [atoi, min_eq_left (by omega), Int.bmod_eq_of_le (by omega) (by omega), toSize_natCast (by omega)]

/-- A larger number is never read as itself, unless it is `SIZE_MAX`. -/
theorem atoi_ne {s : Bytes} (hge : 2 ^ 31 ≤ digitsValue s) (hlt : digitsValue s < sizeMax) : atoi s ≠ digitsValue s := by
  have hsize : sizeMax = 2 ^ 64 - 1 := rfl
  rw [atoi]
  rcases Nat.lt_or_ge (digitsValue s) (2 ^ 63) with hlong | hlong
  · rw [min_eq_left (by omega)]
    have hlo := Int.le_bmod (x := digitsValue s) (m := 2 ^ 32) (by decide)
    have hhi := Int.bmod_lt (x := digitsValue s) (m := 2 ^ 32) (by decide)
    rw [toSize]
    omega
  · -- what is too large for a `long` is read as -1
    rw [min_eq_right (by omega), show toSize (Int.bmod (2 ^ 63 - 1 : ℕ) (2 ^ 32)) = sizeMax by decide]
    omega

/-- **A record array takes a string that begins with a digit as an index exactly if it is a numeral below the size, when
the string is a numeral below 2^31, or it is no such numeral and `atoi` of it is not below the size either. An array
that is a record's member does when the string is a numeral below the size and below 2^31.** -/
theorem arrayIndex_iff (R : Registry ι V A) {n : ι} {element : Codec V} {size : ℕ} {hsize : size ≤ sizeMax}
    (hkind : (R.node n).kind = .recordArray element size hsize) (s : Bytes) :
    (IndexedByNumerals n size s (R.parentFindByName (R.findByNameFrom s.length) n s) (R.findByNameIn n s) ↔
      (isDigit (s.headD 0) = true → IsNumeral s ∧ digitsValue s < 2 ^ 31 ∨
        ¬ (IsNumeral s ∧ digitsValue s < size) ∧ size ≤ atoi s)) ∧
    (IndexedByNumerals n size s (R.parentFindByName (R.findByNameFrom s.length) n s)
        (memberArrayFindByName (R.parentFindByName (R.findByNameFrom s.length) n s) n s) ↔
      (isDigit (s.headD 0) = true → IsNumeral s ∧ digitsValue s < 2 ^ 31 ∧ digitsValue s < size)) := by
  have hbase : ∀ r, R.parentFindByName (R.findByNameFrom s.length) n s = some r → r.2 = sizeMax := by
    intro r hr
    have hchildren : R.children n = [] := by rw [children, hkind]
    rw [parentFindByName, hchildren] at hr
    split at hr
    · rw [← Option.some.inj hr]
    · cases hr
  rw [findByNameIn, findByNameFrom, hkind, memberArrayFindByName]
  dsimp only
  unfold IndexedByNumerals
  by_cases hdigit : isDigit (s.headD 0) = true
  · have hdigit' : 0x30 ≤ s.headD 0 ∧ s.headD 0 ≤ 0x39 := of_decide_eq_true hdigit
    simp only [if_pos hdigit', hdigit, true_implies]
    constructor
    · constructor
      · intro h
        by_cases hnumeral : IsNumeral s ∧ digitsValue s < size
        · have hsome := (h (n, digitsValue s)).2 ⟨hnumeral.1, hnumeral.2, rfl⟩
          split at hsome
          · refine .inl ⟨hnumeral.1, Nat.lt_of_not_le fun hge => atoi_ne hge (hnumeral.2.trans_le hsize) ?_⟩
            exact (Prod.mk.inj (Option.some.inj hsome)).2
          · cases hsome
        · refine .inr ⟨hnumeral, Nat.le_of_not_lt fun hlt => hnumeral ?_⟩
          obtain ⟨hs, hlt', -⟩ := (h _).1 (if_pos hlt)
          exact ⟨hs, hlt'⟩
      · rintro (⟨hnumeral, hlt⟩ | ⟨hnumeral, hle⟩) r
        · rw [atoi_of_lt hlt]
          split
          · rename_i hindex
            rw [Option.some.injEq, eq_comm]
            exact ⟨fun h => ⟨hnumeral, hindex, h⟩, fun h => h.2.2⟩
          · rename_i hindex
            exact iff_of_false (Option.some_ne_none r ∘ Eq.symm) fun h => hindex h.2.1
        · rw [if_neg (Nat.not_lt.2 hle)]
          exact iff_of_false (Option.some_ne_none r ∘ Eq.symm) fun h => hnumeral ⟨h.1, h.2.1⟩
    · constructor
      · intro h
        obtain ⟨hs, hlt, heq⟩ := (h _).1 rfl
        exact ⟨hs, Nat.lt_of_not_le fun hge => atoi_ne hge (hlt.trans_le hsize) (Prod.mk.inj heq).2, hlt⟩
      · rintro ⟨hs, hlong, hlt⟩ r
        rw [atoi_of_lt hlong, Option.some.injEq, eq_comm]
        exact ⟨fun h => ⟨hs, hlt, h⟩, fun h => h.2.2⟩
  · have hdigit' : ¬ (0x30 ≤ s.headD 0 ∧ s.headD 0 ≤ 0x39) := fun h => hdigit (decide_eq_true h)
    simp only [if_neg hdigit', hdigit, true_and, Bool.false_eq_true, false_implies, iff_true]
    exact ⟨hbase, hbase⟩

end Registry

/-- A registry with a record array of three elements. -/
def threeRecords : Registry SmallNode ℕ Unit where
  node
    | .a => .ofIds [0x41] 32 0 0x77 (.recordArray ⟨fun _ => pure true, fun _ => pure ⟨true, none⟩⟩ 3 (by decide))
    | _ => .ofIds [] 0 0 0x01 .overlay
  nodeMap _ := []
  childrenOf
    | .root => [.a]
    | _ => []
  rootNode := .root
  metadataNode := .metadata

/-- The string `2` is taken as an index. -/
theorem threeRecords_two : threeRecords.findByNameIn .a [0x32] = some (.a, 2) := by
  have hnumeral : Registry.IsNumeral [0x32] := ⟨by decide +kernel, by decide +kernel⟩
  have hall := ((threeRecords.arrayIndex_iff (n := .a) rfl [0x32]).1).2 fun _ => .inl ⟨hnumeral, by decide +kernel⟩
  rw [Registry.IndexedByNumerals, if_pos (by decide)] at hall
  exact (hall (.a, 2)).2 ⟨hnumeral, by decide +kernel, by decide +kernel⟩

/-- The strings `2/x` and `4294967298` are taken as the index 2. -/
theorem threeRecords_misread :
    threeRecords.findByNameIn .a [0x32, 0x2F, 0x78] = some (.a, 2) ∧ ¬ Registry.IsNumeral [0x32, 0x2F, 0x78] ∧
      threeRecords.findByNameIn .a [0x34, 0x32, 0x39, 0x34, 0x39, 0x36, 0x37, 0x32, 0x39, 0x38] = some (.a, 2) ∧
      3 ≤ digitsValue [0x34, 0x32, 0x39, 0x34, 0x39, 0x36, 0x37, 0x32, 0x39, 0x38] := by
  refine ⟨by decide +kernel, fun h => absurd (h.2 0x2F (by decide)) (by decide), by decide +kernel, by decide⟩

end ThingSet
