import ThingSet.Server.Exec
import ThingSet.Values

/-!
# What is left of earlier arguments

A function decodes its arguments into storage of its own, which is never reset. A scalar and a string are stored
over what was there; a vector is appended to, and a record keeps the members whose keys are missing.

* `ArgumentType.Overwrites`: the types of which nothing is left.
* `lockstep_decode`: decoding goes on alike whatever the storage holds.
* `handleExec_of_overwrites`: if all types of parameters are such, the arguments of a call do not depend on earlier
  requests.
-/

namespace ThingSet

open Interaction Prog

/-! ## Types -/

/-- The types of parameters: `vector` is `std::vector`, `array` is `std::array`, `record` a structure of record
members. -/
inductive ArgumentType
  | scalar (t : ParameterType)
  | vector (element : ArgumentType)
  | array (element : ArgumentType) (size : ℕ)
  | record (size : ℕ) (id : Fin size → ℕ) (name : Fin size → Bytes) (member : Fin size → ArgumentType)

namespace ArgumentType

/-- The values of a type: those of an array are memory from `value[0]` on. -/
@[reducible] def Value : ArgumentType → Type
  | scalar t => t.Value
  | vector element => List element.Value
  | array element _ => ℕ → element.Value
  | record size _ _ member => (i : Fin size) → (member i).Value

/-- `T value`: a new value. -/
def fresh : (t : ArgumentType) → t.Value
  | scalar .string => ([] : Bytes)
  | scalar .float => (0 : UInt32)
  | scalar .double => (0 : UInt64)
  | scalar .bool => false
  | scalar (.uint _) => (0 : ℕ)
  | scalar (.int _) => (0 : ℤ)
  | vector _ => []
  | array element _ => fun _ => element.fresh
  | record _ _ _ member => fun i => (member i).fresh

/-- `ThingSetDecoder::decode`. -/
def decode : (t : ArgumentType) → t.Value → Decoding (Decoded t.Value)
  | scalar t => fun _ => do
    let v ← t.decode
    pure ⟨v.isSome, v⟩
  | vector element => fun list => do
    let (ok, list) ← decodeVector element.decode element.fresh list
    pure ⟨ok, some list⟩
  | array element size => fun f => do
    let (ok, a) ← decodeArray element.decode size ⟨f, []⟩
    pure ⟨ok, some a.value⟩
  | record _ id name member => fun r => do
    let (ok, r) ← decodeRecord id name (fun i => (member i).decode) r
    pure ⟨ok, some r⟩

/-- Two values are equal, the elements of an array within its size. -/
def Same : (t : ArgumentType) → t.Value → t.Value → Prop
  | scalar _, v, v' => v = v'
  | vector element, l, l' => List.Forall₂ element.Same l l'
  | array element size, f, f' => ∀ i < size, element.Same (f i) (f' i)
  | record _ _ _ member, r, r' => ∀ i, (member i).Same (r i) (r' i)

/-- Nothing is left of an earlier value when one is decoded: there are no vectors and no records with members. -/
def Overwrites : ArgumentType → Prop
  | scalar _ => True
  | vector _ => False
  | array element size => size = 0 ∨ element.Overwrites
  | record size _ _ _ => size = 0

end ArgumentType

/-! ## Decoding into different storage -/

/-- An array is not decoded from a list with fewer elements than it has. -/
def Fills : (o : DecodeOp) → o.Result → Prop
  | .ensureListSize size, r => ∀ n ∈ (r : Option ℕ), size ≤ n
  | _, _ => True

section Lockstep

variable {T : Type}

/-- What decoding a value into `v` and into `v'` have in common: whether it succeeds, and where `overwrites`, what
is stored then. -/
def DecodedAlike (overwrites : Prop) (S : T → T → Prop) (v v' : T) (d d' : Decoded T) : Prop :=
  d.ok = d'.ok ∧ (overwrites → d.ok = true → S (d.value v) (d'.value v'))

variable {elem : T → Decoding (Decoded T)} {overwrites : Prop} {S : T → T → Prop}

theorem lockstep_decodeElements
    (helem : ∀ v v', Lockstep Fills (DecodedAlike overwrites S v v') (elem v) (elem v')) (n i : ℕ)
    {a a' : ArrayMemory T} (ha : overwrites → ∀ j < i, S (a.value j) (a'.value j)) :
    Lockstep Fills (fun r r' : Bool × ArrayMemory T =>
        r.1 = r'.1 ∧ (overwrites → r.1 = true → ∀ j < i + n, S (r.2.value j) (r'.2.value j)))
      (decodeElements elem n i a) (decodeElements elem n i a') := by
  induction n generalizing i a a' with
  | zero => exact lockstep_pure ⟨rfl, fun hover _ => ha hover⟩
  | succ n ih =>
    refine (helem (a.value i) (a'.value i)).bind fun d d' hd => ?_
    obtain ⟨hok, hvalue⟩ := hd
    cases hd : d.ok with
    | false =>
      rw [← hok, hd]
      exact lockstep_pure ⟨rfl, fun _ h => absurd h Bool.false_ne_true⟩
    | true =>
      rw [← hok, hd, if_pos rfl, if_pos rfl]
      have hstore : overwrites → ∀ j < i + 1, S ((a.store i d.stored).value j) ((a'.store i d'.stored).value j) := by
        intro hover j hj
        rw [store_value, store_value]
        split_ifs with h
        · exact hvalue hover hd
        · exact ha hover j (by omega)
      refine (ih (i + 1) hstore).mono fun r r' hr => ⟨hr.1, fun hover hr1 j hj => hr.2 hover hr1 j (by omega)⟩

theorem lockstep_decodeArray
    (helem : ∀ v v', Lockstep Fills (DecodedAlike overwrites S v v') (elem v) (elem v')) (size : ℕ)
    (a a' : ArrayMemory T) :
    Lockstep Fills (fun r r' : Bool × ArrayMemory T =>
        r.1 = r'.1 ∧ (overwrites → r.1 = true → ∀ j < size, S (r.2.value j) (r'.2.value j)))
      (decodeArray elem size a) (decodeArray elem size a') := by
  refine lockstep_op_bind fun started _ => ?_
  cases started with
  | false => exact lockstep_pure ⟨rfl, fun _ h => absurd h Bool.false_ne_true⟩
  | true =>
    refine lockstep_op_bind fun count hcount => ?_
    cases count with
    | none => exact lockstep_pure ⟨rfl, fun _ h => absurd h Bool.false_ne_true⟩
    | some n =>
      have hsize : size ≤ n := hcount n rfl
      refine (lockstep_decodeElements helem n 0 fun _ j hj => absurd hj (Nat.not_lt_zero j)).bind
        fun ⟨ok, b⟩ ⟨ok', b'⟩ hr => ?_
      obtain ⟨rfl, hvalues⟩ := hr
      cases ok with
      | false => exact lockstep_pure ⟨rfl, fun _ h => absurd h Bool.false_ne_true⟩
      | true =>
        refine lockstep_op_bind fun ended _ => lockstep_pure ⟨rfl, fun hover _ j hj => ?_⟩
        exact hvalues hover rfl j (by omega)

/-- A vector decodes the same elements, behind whatever it has. -/
theorem lockstep_decodeVector
    (helem : ∀ v v', Lockstep Fills (DecodedAlike overwrites S v v') (elem v) (elem v')) (fresh : T) (l l' : List T) :
    Lockstep Fills (fun r r' : Bool × List T => r.1 = r'.1) (decodeVector elem fresh l)
      (decodeVector elem fresh l') := by
  refine lockstep_op_bind fun started _ => ?_
  cases started with
  | false => exact lockstep_pure rfl
  | true =>
    rw [if_pos rfl, if_pos rfl]
    refine lockstep_repeatUntil (R := fun r r' : Bool × List T => r.1 = r'.1)
      (S := fun c c' : ℕ × List T => c.1 = c'.1) (fun c c' _ => by rfl) ?_ _ (by rfl)
    rintro ⟨i, l⟩ ⟨i', l'⟩ rfl
    refine lockstep_op_bind fun more _ => ?_
    cases more with
    | false => exact lockstep_op_bind fun ended _ => lockstep_pure (.inr rfl)
    | true =>
      rw [if_pos rfl, if_pos rfl]
      refine ((helem fresh fresh).bind fun d d' hd => lockstep_pure
        (R := fun r r' : Bool × List T => r.1 = r'.1) hd.1).bind fun ⟨ok, b⟩ ⟨ok', b'⟩ hr => ?_
      obtain rfl : ok = ok' := hr
      cases ok with
      | false => exact lockstep_pure (.inr rfl)
      | true => exact lockstep_pure (.inl rfl)

end Lockstep

section Record

variable {size : ℕ} (id : Fin size → ℕ) (name : Fin size → Bytes) {V : Fin size → Type}
  {member : (i : Fin size) → V i → Decoding (Decoded (V i))} {overwrites : Fin size → Prop}
  {S : (i : Fin size) → V i → V i → Prop}

theorem lockstep_switchDecode
    (hmember : ∀ i v v', Lockstep Fills (DecodedAlike (overwrites i) (S i) v v') (member i v) (member i v'))
    (isKey : Fin size → Bool) (r r' : (i : Fin size) → V i) :
    Lockstep Fills (fun d d' : Bool × ((i : Fin size) → V i) => d.1 = d'.1) (switchDecode member isKey r)
      (switchDecode member isKey r') := by
  unfold switchDecode
  cases (List.finRange size).find? isKey with
  | none => exact lockstep_pure rfl
  | some i => exact (hmember i (r i) (r' i)).bind fun d d' hd => lockstep_pure rfl

theorem lockstep_decodeMember
    (hmember : ∀ i v v', Lockstep Fills (DecodedAlike (overwrites i) (S i) v v') (member i v) (member i v'))
    (r r' : (i : Fin size) → V i) (key : Key) :
    Lockstep Fills (fun d d' : Bool × ((i : Fin size) → V i) => d.1 = d'.1) (decodeMember id name member r key)
      (decodeMember id name member r' key) := by
  rcases key with ⟨_ | k, _ | n⟩
  · exact lockstep_pure rfl
  all_goals
    refine (lockstep_switchDecode hmember _ r r').bind fun ⟨ok, b⟩ ⟨ok', b'⟩ hr => ?_
    obtain rfl : ok = ok' := hr
    cases ok with
    | false => exact lockstep_op_bind fun skipped _ => lockstep_pure rfl
    | true => exact lockstep_pure rfl

/-- A record decodes the same members, whatever the others are. -/
theorem lockstep_decodeRecord
    (hmember : ∀ i v v', Lockstep Fills (DecodedAlike (overwrites i) (S i) v v') (member i v) (member i v'))
    (r r' : (i : Fin size) → V i) :
    Lockstep Fills (fun d d' : Bool × ((i : Fin size) → V i) => d.1 = d'.1) (decodeRecord id name member r)
      (decodeRecord id name member r') := by
  refine lockstep_op_bind fun started _ => ?_
  cases started with
  | false => exact lockstep_pure rfl
  | true =>
    rw [if_pos rfl, if_pos rfl]
    unfold decodeMapLoop
    refine lockstep_repeatUntil (R := fun d d' : Bool × ((i : Fin size) → V i) => d.1 = d'.1)
      (S := fun c c' : Key × ((i : Fin size) → V i) => c.1 = c'.1) (fun c c' _ => by rfl) ?_ _ (by rfl)
    rintro ⟨key, r⟩ ⟨key', r'⟩ rfl
    refine (lockstep_refl (decodeKey key)).bind fun k k' hk => ?_
    subst hk
    obtain ⟨found, key⟩ := k
    cases found with
    | false => exact lockstep_op_bind fun ended _ => lockstep_pure (.inr rfl)
    | true =>
      refine (lockstep_decodeMember id name hmember r r' key).bind fun ⟨ok, b⟩ ⟨ok', b'⟩ hr => ?_
      obtain rfl : ok = ok' := hr
      cases ok with
      | false => exact lockstep_pure (.inr rfl)
      | true => exact lockstep_pure (.inl rfl)

end Record

namespace ArgumentType

/-- **What the storage holds does not show in what is decoded**, but for the types of which something is left. -/
theorem lockstep_decode : ∀ (t : ArgumentType) (v v' : t.Value),
    Lockstep Fills (DecodedAlike t.Overwrites t.Same v v') (t.decode v) (t.decode v')
  | scalar t, v, v' => by
    refine (lockstep_refl t.decode).bind fun w w' hw => lockstep_pure ?_
    subst hw
    refine ⟨rfl, fun _ hok => ?_⟩
    obtain ⟨u, rfl⟩ := Option.isSome_iff_exists.1 hok
    rfl
  | vector element, l, l' => by
    refine (lockstep_decodeVector (lockstep_decode element) element.fresh l l').bind fun r r' hr => lockstep_pure ?_
    exact ⟨hr, fun hover _ => absurd hover id⟩
  | array element size, f, f' => by
    refine (lockstep_decodeArray (lockstep_decode element) size ⟨f, []⟩ ⟨f', []⟩).bind fun r r' hr => lockstep_pure ?_
    refine ⟨hr.1, fun hover hok j hj => ?_⟩
    rcases hover with rfl | hover
    · exact absurd hj (Nat.not_lt_zero j)
    · exact hr.2 hover hok j hj
  | record size id name member, r, r' => by
    refine (lockstep_decodeRecord id name (fun i => lockstep_decode (member i)) r r').bind fun d d' hd =>
      lockstep_pure ⟨hd, fun hover _ i => ?_⟩
    exact absurd i.pos (Nat.not_lt.2 (Nat.le_of_eq hover))

end ArgumentType

/-! ## The storage of a function -/

/-- An argument in the storage: its type, and what is stored. -/
structure Argument where
  type : ArgumentType
  value : type.Value

namespace Argument

/-- `ThingSetDecoder::decode` into the storage. -/
def decode (a : Argument) : Decoding (Decoded Argument) := do
  let d ← a.type.decode a.value
  pure ⟨d.ok, d.stored.map fun v => ⟨a.type, v⟩⟩

/-- Two arguments of one type are equal. -/
inductive Same : Argument → Argument → Prop
  | mk (t : ArgumentType) {v v' : t.Value} (h : t.Same v v') : Same ⟨t, v⟩ ⟨t, v'⟩

end Argument

/-- The types of what is stored. -/
def typesOf (arguments : List Argument) : List ArgumentType := arguments.map Argument.type

theorem lockstep_decode_argument (t : ArgumentType) (v v' : t.Value) :
    Lockstep Fills (fun d d' : Decoded Argument => d.ok = d'.ok ∧ (d.value ⟨t, v⟩).type = t ∧
        (d'.value ⟨t, v'⟩).type = t ∧ (t.Overwrites → d.ok = true → (d.value ⟨t, v⟩).Same (d'.value ⟨t, v'⟩)))
      (Argument.decode ⟨t, v⟩) (Argument.decode ⟨t, v'⟩) := by
  refine (t.lockstep_decode v v').bind fun d d' hd => lockstep_pure ?_
  have hvalue : ∀ (v : t.Value) (d : Decoded t.Value),
      Decoded.value ⟨d.ok, d.stored.map (Argument.mk t)⟩ ⟨t, v⟩ = ⟨t, d.value v⟩ := by
    intro v d
    unfold Decoded.value
    cases d.stored <;> rfl
  rw [hvalue, hvalue]
  exact ⟨hd.1, rfl, rfl, fun hover hok => .mk t (hd.2 hover hok)⟩

/-- The fold over the arguments. -/
theorem lockstep_decodeTuple (ts : List ArgumentType) {args args' : List Argument} (hargs : typesOf args = ts)
    (hargs' : typesOf args' = ts) :
    Lockstep Fills (fun r r' : Bool × List Argument => r.1 = r'.1 ∧ typesOf r.2 = ts ∧ typesOf r'.2 = ts ∧
        ((∀ t ∈ ts, t.Overwrites) → r.1 = true → List.Forall₂ Argument.Same r.2 r'.2))
      (decodeTuple (ts.map fun _ => Argument.decode) args) (decodeTuple (ts.map fun _ => Argument.decode) args') := by
  induction ts generalizing args args' with
  | nil =>
    obtain rfl := List.map_eq_nil_iff.1 hargs
    obtain rfl := List.map_eq_nil_iff.1 hargs'
    exact lockstep_pure ⟨rfl, rfl, rfl, fun _ _ => .nil⟩
  | cons t ts ih =>
    obtain ⟨⟨t, v⟩, args, rfl, rfl, hrest⟩ := List.map_eq_cons_iff.1 hargs
    obtain ⟨⟨t', v'⟩, args', rfl, ht, hrest'⟩ := List.map_eq_cons_iff.1 hargs'
    obtain rfl : t' = t := ht
    refine (lockstep_decode_argument t' v v').bind fun d d' hd => ?_
    refine (ih hrest hrest').bind fun r r' hr => lockstep_pure ?_
    obtain ⟨hok, htype, htype', hsame⟩ := hd
    obtain ⟨hok', htypes, htypes', hsames⟩ := hr
    refine ⟨by rw [hok, hok'], ?_, ?_, fun hover h => ?_⟩
    · exact congrArg₂ List.cons htype htypes
    · exact congrArg₂ List.cons htype' htypes'
    · rw [Bool.and_eq_true] at h
      exact .cons (hsame (hover _ List.mem_cons_self) h.1)
        (hsames (fun t ht => hover t (List.mem_cons_of_mem _ ht)) h.2)

/-- `decodeList` into the storage. -/
theorem lockstep_decodeArguments (ts : List ArgumentType) {args args' : List Argument} (hargs : typesOf args = ts)
    (hargs' : typesOf args' = ts) :
    Lockstep Fills (fun r r' : Bool × List Argument => r.1 = r'.1 ∧ typesOf r.2 = ts ∧ typesOf r'.2 = ts ∧
        ((∀ t ∈ ts, t.Overwrites) → r.1 = true → List.Forall₂ Argument.Same r.2 r'.2))
      (decodeArguments (ts.map fun _ => Argument.decode) args)
      (decodeArguments (ts.map fun _ => Argument.decode) args') := by
  refine lockstep_op_bind fun started _ => ?_
  cases started with
  | false =>
    refine lockstep_op_bind fun ended _ => lockstep_pure ⟨rfl, hargs, hargs', fun _ h => ?_⟩
    exact absurd h Bool.false_ne_true
  | true =>
    refine (lockstep_decodeTuple ts hargs hargs').bind fun r r' hr => ?_
    refine lockstep_op_bind fun ended _ => lockstep_pure ⟨by rw [hr.1], hr.2.1, hr.2.2.1, fun hover h => ?_⟩
    exact hr.2.2.2 hover (Bool.and_eq_true _ _ ▸ h).1

/-! ## Invocations -/

theorem binaryDecoder_fills {o : BinaryDecoderOptions} (ho : o.allowUndersizedArrays = false) (op : DecodeOp)
    (s : ZcborState) : Fills op (binaryDecoder o op s).1 := by
  cases op with
  | ensureListSize size =>
    intro n hn
    change n ∈ (BinaryDecoder.ensureListSize o size s).1 at hn
    by_cases hlt : s.elemCount < size
    · simp only [BinaryDecoder.ensureListSize, hlt, ho, Bool.not_false, and_self, if_true] at hn
      split at hn <;> exact absurd hn (Option.not_mem_none n)
    · simp only [BinaryDecoder.ensureListSize, hlt, false_and, if_false, Option.mem_some_iff] at hn
      exact hn ▸ not_lt.1 hlt
  | _ => trivial

theorem textDecoder_fills (o : TextDecoderOptions) (op : DecodeOp) (s : TextDecoderState) :
    Fills op (textDecoder o op s).1 := by
  cases op with
  | ensureListSize size => exact fun n hn => Nat.le_of_eq (Option.some.inj hn)
  | _ => trivial

section Invocations

variable {ι A τ σ : Type} [DecidableEq ι] (S : Server ι Argument (List (List Argument) × A) τ) (h : Decoder σ) (n : ι)

/-- An exec request to the node `n`, with its payload and the encoder of its response. -/
def invocation (w : World ι Argument (List (List Argument) × A)) (request : σ × τ) :
    World ι Argument (List (List Argument) × A) :=
  (run h (S.handleExec n { world := w, encoder := request.2 }) request.1).1.2.world

/-- Earlier requests. -/
def afterInvocations (w : World ι Argument (List (List Argument) × A)) (requests : List (σ × τ)) :
    World ι Argument (List (List Argument) × A) :=
  requests.foldl (invocation S h n) w

variable {S h n} {parameters : List (Codec Argument)} {ts : List ArgumentType}
  {f : List Argument → A → A × Encoding Bool} {w w' : World ι Argument (List (List Argument) × A)}

/-- A step from `w₁` to `w₁'` and one from `w₂` to `w₂'` call the function with equal arguments, or neither calls it. -/
def CalledAlike (w₁ w₁' w₂ w₂' : World ι Argument (List (List Argument) × A)) : Prop :=
  w₁'.app.1 = w₁.app.1 ∧ w₂'.app.1 = w₂.app.1 ∨
    ∃ arguments arguments', w₁'.app.1 = w₁.app.1 ++ [arguments] ∧ w₂'.app.1 = w₂.app.1 ++ [arguments'] ∧
      List.Forall₂ Argument.Same arguments arguments'

/-- A request that the mask forbids changes nothing. -/
theorem handleExec_forbidden (haccess : (S.registry.node n).access &&& S.access = 0)
    (s : Session ι Argument (List (List Argument) × A) τ) (d : σ) :
    (run h (S.handleExec n s) d).1.2.world = s.world := by
  rw [Server.handleExec]
  dsimp only
  rw [if_pos haccess]
  rfl

section

variable (hkind : (S.registry.node n).kind = .function parameters (withCallLog f))
  (hdecode : parameters.map Codec.decode = ts.map fun _ => Argument.decode) (hfills : ∀ op s, Fills op (h op s).1)

include hkind hdecode hfills

/-- The types of what is stored stay what they are. -/
theorem typesOf_invocation (hw : typesOf (w.arguments n) = ts) (request : σ × τ) :
    typesOf ((invocation S h n w request).arguments n) = ts := by
  unfold invocation
  by_cases haccess : (S.registry.node n).access &&& S.access = 0
  · rw [handleExec_forbidden haccess]
    exact hw
  · have hrun := (run_handleExec hkind haccess h { world := w, encoder := request.2 } request.1).1
    dsimp only at hrun
    rw [hrun, hdecode]
    exact (run_lockstep hfills (lockstep_decodeArguments ts hw hw) request.1).2.2.1

theorem typesOf_afterInvocations (hw : typesOf (w.arguments n) = ts) (requests : List (σ × τ)) :
    typesOf ((afterInvocations S h n w requests).arguments n) = ts := by
  induction requests generalizing w with
  | nil => exact hw
  | cons request requests ih => exact ih (typesOf_invocation hkind hdecode hfills hw request)

/-- One request, with different storage. -/
theorem invocation_same (hw : typesOf (w.arguments n) = ts) (hw' : typesOf (w'.arguments n) = ts)
    (hover : ∀ t ∈ ts, t.Overwrites) (d : σ) (e e' : τ) :
    CalledAlike w (invocation S h n w (d, e)) w' (invocation S h n w' (d, e')) := by
  unfold invocation
  by_cases haccess : (S.registry.node n).access &&& S.access = 0
  · left
    rw [handleExec_forbidden haccess, handleExec_forbidden haccess]
    exact ⟨rfl, rfl⟩
  · have hrun := (run_handleExec hkind haccess h { world := w, encoder := e } d).2
    have hrun' := (run_handleExec hkind haccess h { world := w', encoder := e' } d).2
    obtain ⟨hok, -, -, hsame⟩ := (run_lockstep hfills (lockstep_decodeArguments ts hw hw') d).2
    rw [hdecode] at hrun hrun'
    dsimp only at hrun hrun'
    rw [← hok] at hrun'
    split at hrun
    · rename_i htrue
      rw [if_pos htrue] at hrun'
      exact .inr ⟨_, _, hrun.1, hrun'.1, hsame hover htrue⟩
    · rename_i hfalse
      rw [if_neg hfalse] at hrun'
      exact .inl ⟨hrun.1, hrun'.1⟩

end

/-- **If nothing is left of the arguments of any parameter's type, two histories of requests do not differ in the
next call**: the function is called after both, with equal arguments, or after neither. -/
theorem invocation_of_overwrites (hfills : ∀ op s, Fills op (h op s).1)
    (hkind : (S.registry.node n).kind = .function parameters (withCallLog f))
    (hdecode : parameters.map Codec.decode = ts.map fun _ => Argument.decode)
    (hw : typesOf (w.arguments n) = ts) (hover : ∀ t ∈ ts, t.Overwrites) (requests requests' : List (σ × τ)) (d : σ)
    (e e' : τ) :
    let w₁ := afterInvocations S h n w requests
    let w₂ := afterInvocations S h n w requests'
    CalledAlike w₁ (invocation S h n w₁ (d, e)) w₂ (invocation S h n w₂ (d, e')) :=
  invocation_same hkind hdecode hfills (typesOf_afterInvocations hkind hdecode hfills hw requests)
    (typesOf_afterInvocations hkind hdecode hfills hw requests') hover d e e'

end Invocations

/-! ## Functions of a number, of numbers and of a record -/

/-- The nodes of a server with one function, `x` with the id 32. -/
def oneArgumentNode : SmallNode → Node SmallNode Argument (List (List Argument) × Unit)
  | .a => .ofIds [0x78] 32 0 0x70 (.function [⟨fun _ => pure true, Argument.decode⟩]
      (withCallLog fun _ app => (app, encode .null)))
  | .metadata => .ofIds [0x5F] 25 0 0x01 .overlay
  | _ => .ofIds [] 0 0 0x01 .overlay

/-- The server. -/
def oneArgument : Server SmallNode Argument (List (List Argument) × Unit) ZcborEncodeState where
  registry := {
    node := oneArgumentNode
    nodeMap := bucketsOf oneArgumentNode [.root, .metadata, .a]
    childrenOf := fun n => if n = .root then [.a] else []
    rootNode := .root
    metadataNode := .metadata }
  access := 0x77
  encoder := binaryEncoder zcborEncodeReference

/-- The world before the function has been called, with a new value of its parameter's type. -/
def neverCalled (t : ArgumentType) : World SmallNode Argument (List (List Argument) × Unit) where
  values _ := ⟨t, t.fresh⟩
  elements _ _ := ⟨t, t.fresh⟩
  arguments _ := [⟨t, t.fresh⟩]
  app := ([], ())

/-- The world after exec requests with these payloads. -/
def afterPayloads (t : ArgumentType) (payloads : List Bytes) :
    World SmallNode Argument (List (List Argument) × Unit) :=
  afterInvocations oneArgument (binaryDecoder { zcbor := zcborReference }) .a (neverCalled t)
    (payloads.map fun payload => (.alone payload, .new 8 64))

/-- The world after another one. -/
def nextCall (w : World SmallNode Argument (List (List Argument) × Unit)) (payload : Bytes) :
    World SmallNode Argument (List (List Argument) × Unit) :=
  invocation oneArgument (binaryDecoder { zcbor := zcborReference }) .a w (.alone payload, .new 8 64)

/-- A number: the payload `81 07` after nothing and after `81 09`. -/
theorem nextCall_number :
    let w₁ := afterPayloads (.scalar (.uint .w8)) []
    let w₂ := afterPayloads (.scalar (.uint .w8)) [[0x81, 0x09]]
    CalledAlike w₁ (nextCall w₁ [0x81, 0x07]) w₂ (nextCall w₂ [0x81, 0x07]) :=
  have hkind : (oneArgument.registry.node .a).kind = .function [⟨fun _ => pure true, Argument.decode⟩]
      (withCallLog fun _ app => (app, encode .null)) := rfl
  have hover : ∀ t ∈ [ArgumentType.scalar (.uint .w8)], t.Overwrites := by
    simp [ArgumentType.Overwrites]
  have hw : typesOf ((neverCalled (.scalar (.uint .w8))).arguments .a) = [.scalar (.uint .w8)] := rfl
  invocation_of_overwrites (binaryDecoder_fills rfl) hkind rfl hw hover [] [(.alone [0x81, 0x09], .new 8 64)]
    (.alone [0x81, 0x07]) (.new 8 64) (.new 8 64)

/-- The numbers in a value. -/
def ArgumentType.numbers : (t : ArgumentType) → t.Value → List ℕ
  | scalar (.uint _), n => [n]
  | scalar _, _ => []
  | vector element, l => l.flatMap element.numbers
  | array element size, f => (List.range size).flatMap fun i => element.numbers (f i)
  | record size _ _ member, r => (List.finRange size).flatMap fun i => (member i).numbers (r i)

theorem ArgumentType.numbers_same : ∀ (t : ArgumentType) {v v' : t.Value}, t.Same v v' → t.numbers v = t.numbers v'
  | scalar _, _, _, h => by
    obtain rfl := h
    rfl
  | vector element, _, _, h => by
    induction h with
    | nil => rfl
    | cons hv _ ih => exact congrArg₂ (· ++ ·) (numbers_same element hv) ih
  | array element size, _, _, h =>
    List.flatMap_congr fun i hi => numbers_same element (h i (List.mem_range.1 hi))
  | record _ _ _ member, _, _, h => List.flatMap_congr fun i _ => numbers_same (member i) (h i)

/-- The type `std::vector<uint8_t>`, and that of a record with the member 1. -/
def vectorType : ArgumentType := .vector (.scalar (.uint .w8))

@[inherit_doc vectorType]
def recordType : ArgumentType := .record 1 (fun _ => 1) (fun _ => [0x61]) fun _ => .scalar (.uint .w8)

/-- The numbers in the arguments of the last call. -/
def lastNumbers (w : World SmallNode Argument (List (List Argument) × Unit)) : Option (List ℕ) :=
  w.app.1.getLast?.map fun arguments => arguments.flatMap fun a => a.type.numbers a.value

theorem lastNumbers_same {w₁ w₁' w₂ w₂' : World SmallNode Argument (List (List Argument) × Unit)}
    (h : CalledAlike w₁ w₁' w₂ w₂') (hcalled : w₁'.app.1 ≠ w₁.app.1) : lastNumbers w₁' = lastNumbers w₂' := by
  obtain ⟨h₁, -⟩ | ⟨arguments, arguments', h₁, h₂, hsame⟩ := h
  · exact absurd h₁ hcalled
  · unfold lastNumbers
    rw [h₁, h₂, List.getLast?_concat, List.getLast?_concat, Option.map_some, Option.map_some]
    clear h₁ h₂ hcalled
    congr 1
    induction hsame with
    | nil => rfl
    | cons hv _ ih =>
      obtain ⟨t, hsame⟩ := hv
      rw [List.flatMap_cons, List.flatMap_cons, ih, t.numbers_same hsame]

/-- **A vector of an earlier call is appended to, and the member of an earlier call's record stays**: the payload
`81 81 07` gives the vector `{7}`, and `{7, 7}` after itself; `81 A0` gives the member 0, and 5 after
`81 A1 01 05`. -/
theorem kept_arguments :
    (let w₁ := afterPayloads vectorType []
     let w₂ := afterPayloads vectorType [[0x81, 0x81, 0x07]]
     ¬CalledAlike w₁ (nextCall w₁ [0x81, 0x81, 0x07]) w₂ (nextCall w₂ [0x81, 0x81, 0x07])) ∧
    (let w₁ := afterPayloads recordType []
     let w₂ := afterPayloads recordType [[0x81, 0xA1, 0x01, 0x05]]
     ¬CalledAlike w₁ (nextCall w₁ [0x81, 0xA0]) w₂ (nextCall w₂ [0x81, 0xA0])) := by
  refine ⟨fun h => ?_, fun h => ?_⟩
  all_goals
    have hnumbers := lastNumbers_same h (fun hcalls => absurd (congrArg List.length hcalls) (by decide +kernel))
    exact absurd hnumbers (by decide +kernel)

end ThingSet
