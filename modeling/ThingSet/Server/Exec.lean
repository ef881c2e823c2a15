import ThingSet.BinaryEncoder
import ThingSet.Server.RequestBuffer

/-!
# Calls of functions

A function's parameters are decoded into its storage from the list in an exec request. All of them are decoded,
also after one has failed, and the end of the list is checked whatever came before.

* `ArgumentList`: a payload that starts with a list of these arguments.
* `decodeArguments_iff`: the payloads that are decoded.
* `handleExec_iff`: the function is called for these payloads, once and with these arguments.
-/

namespace ThingSet

open Interaction Prog

/-! ## Parameters -/

/-- The types of scalar and string parameters. -/
inductive ParameterType
  | string
  | float
  | double
  | bool
  | uint (w : IntWidth)
  | int (w : IntWidth)
  deriving DecidableEq, Repr

namespace ParameterType

/-- The values of a type. -/
@[reducible] def Value : ParameterType → Type
  | string => Bytes
  | float => UInt32
  | double => UInt64
  | bool => Bool
  | uint _ => ℕ
  | int _ => ℤ

/-- The overload of `ThingSetBinaryDecoder::decode` for a type. -/
def decodeBinary (o : BinaryDecoderOptions) : (t : ParameterType) → ZcborState → Option t.Value × ZcborState
  | string => binaryDecoder o .string
  | float => binaryDecoder o .float
  | double => binaryDecoder o .double
  | bool => binaryDecoder o .bool
  | uint w => binaryDecoder o (.uint w)
  | int w => binaryDecoder o (.int w)

/-- `ThingSetDecoder::decode`. -/
def decode : (t : ParameterType) → Decoding (Option t.Value)
  | string => ThingSet.decode .string
  | float => ThingSet.decode .float
  | double => ThingSet.decode .double
  | bool => ThingSet.decode .bool
  | uint w => ThingSet.decode (.uint w)
  | int w => ThingSet.decode (.int w)

theorem run_decode (o : BinaryDecoderOptions) (t : ParameterType) (s : ZcborState) :
    run (binaryDecoder o) t.decode s = t.decodeBinary o s := by
  cases t <;> rfl

end ParameterType

/-- A parameter: its type, and its values among the values of all parameters. -/
structure Parameter (V : Type) where
  type : ParameterType
  toValue : type.Value → V

/-- A scalar is stored when it is decoded. -/
def Parameter.decode {V : Type} (p : Parameter V) (_ : V) : Decoding (Decoded V) := do
  let v ← p.type.decode
  pure ⟨v.isSome, v.map p.toValue⟩

section

variable {V : Type} (o : BinaryDecoderOptions)

/-- The value of the data item at the start of a text, and what is behind the item. -/
def Parameter.item (p : Parameter V) (bytes : Bytes) : Option (V × Bytes) :=
  let r := p.type.decodeBinary o (.alone bytes)
  r.1.map fun v => (p.toValue v, r.2.remaining)

/-- The texts that start with an item for each parameter, the values, and what is behind the items. -/
def Arguments : List (Parameter V) → Bytes → List V → Bytes → Prop
  | [], bytes, vs, rest => vs = [] ∧ rest = bytes
  | p :: ps, bytes, vs, rest =>
    ∃ v mid vs', p.item o bytes = some (v, mid) ∧ Arguments ps mid vs' rest ∧ vs = v :: vs'

/-- A payload that starts with a list of as many elements as there are parameters, each of which decodes to its
parameter's type, and what is behind the list. -/
def ArgumentList (ps : List (Parameter V)) (payload : Bytes) (vs : List V) (trailing : Bytes) : Prop :=
  ∃ argument rest, Cbor.readHead payload = some (⟨4, argument⟩, rest) ∧
    match argument with
    | some n => n = ps.length ∧ Arguments o ps rest vs trailing
    | none => Arguments o ps rest vs (0xFF :: trailing)

end

/-! ## What the binary decoder does with a list -/

section Decoder

variable {o : BinaryDecoderOptions}

/-- A decoded item that is checked and converted. -/
theorem decodesItem_check {α β : Type} {f : ZcborState → Option α × ZcborState}
    (hf : ZcborDecode.DecodesItem f) {g : ZcborState → Option β × ZcborState} (check : α → Option β)
    (hg : ∀ s, g s = ((f s).1.bind check, (f s).2)) : ZcborDecode.DecodesItem g where
  end_none s hs := by rw [hg, hf.end_none s hs]; rfl
  result s hs := by rw [hg, hg, hf.result s hs]
  next s v hv := by
    rw [hg] at hv
    obtain ⟨a, ha, -⟩ := Option.bind_eq_some_iff.1 hv
    rw [hg, hg]
    exact hf.next s a ha

/-- Every scalar and every string is decoded as the item that it is. -/
theorem decodesItem_decodeBinary (hZ : o.zcbor.ListLaws) (t : ParameterType) :
    ZcborDecode.DecodesItem (t.decodeBinary o) := by
  have huint : ∀ max, ZcborDecode.DecodesItem (BinaryDecoder.narrowUInt o max) := by
    intro max
    refine decodesItem_check hZ.uint32 (fun i => if i < max then some i else none) fun s => ?_
    rcases hs : o.zcbor.uint32Decode s with ⟨_ | i, s'⟩ <;> simp only [BinaryDecoder.narrowUInt, hs] <;> rfl
  have hint : ∀ bits max, ZcborDecode.DecodesItem (BinaryDecoder.narrowInt o bits max) := by
    intro bits max
    refine decodesItem_check hZ.int32 (fun i => if i < max then some (i.bmod (2 ^ bits)) else none) fun s => ?_
    rcases hs : o.zcbor.int32Decode s with ⟨_ | i, s'⟩ <;> simp only [BinaryDecoder.narrowInt, hs] <;> rfl
  cases t with
  | string => exact hZ.tstr
  | float => exact hZ.float16_32
  | double => exact hZ.float64
  | bool => exact hZ.bool
  | uint w =>
    cases w with
    | w8 => exact huint 255
    | w16 => exact huint 65535
    | w32 => exact hZ.uint32
    | w64 => exact hZ.uint64
  | int w =>
    cases w with
    | w8 => exact hint 8 127
    | w16 => exact hint 16 32767
    | w32 => exact hZ.int32
    | w64 => exact hZ.int64

variable {V : Type}

/-- One argument. -/
theorem run_decode_parameter (hZ : o.zcbor.ListLaws) (p : Parameter V) (old : V) (s : ZcborState) :
    let r := run (binaryDecoder o) (p.decode old) s
    (s.elemCount = 0 ∨ p.item o s.remaining = none) ∧ r.1.ok = false ∨
      ∃ v mid, s.elemCount ≠ 0 ∧ p.item o s.remaining = some (v, mid) ∧ r.1 = ⟨true, some v⟩ ∧
        r.2.remaining = mid ∧ r.2.elemCount + 1 = s.elemCount ∧ r.2.indefinite = s.indefinite ∧
        r.2.backups = s.backups := by
  have hitem := decodesItem_decodeBinary hZ p.type
  have hrun : run (binaryDecoder o) (p.decode old) s =
      (⟨(p.type.decodeBinary o s).1.isSome, (p.type.decodeBinary o s).1.map p.toValue⟩,
        (p.type.decodeBinary o s).2) := by
    rw [Parameter.decode, run_bind, ParameterType.run_decode]
    rfl
  dsimp only
  rw [hrun]
  by_cases hcount : s.elemCount = 0
  · left
    rw [hitem.end_none s hcount]
    exact ⟨.inl hcount, rfl⟩
  · have hresult := hitem.result s hcount
    cases hv : (p.type.decodeBinary o s).1 with
    | none =>
      left
      refine ⟨.inr ?_, rfl⟩
      rw [Parameter.item, ← hresult, hv]
      rfl
    | some v =>
      right
      obtain ⟨hremaining, hrest⟩ := hitem.next s v hv
      refine ⟨p.toValue v, _, hcount, ?_, rfl, rfl, hrest⟩
      rw [Parameter.item, ← hresult, hv, hremaining]
      rfl

/-- The fold over the arguments succeeds where all of them are there. -/
theorem run_decodeTuple (hZ : o.zcbor.ListLaws) (ps : List (Parameter V)) {args : List V}
    (hargs : args.length = ps.length) (s : ZcborState) :
    let r := run (binaryDecoder o) (decodeTuple (ps.map Parameter.decode) args) s
    (r.1.1 = true ↔ ps.length ≤ s.elemCount ∧ ∃ vs rest, Arguments o ps s.remaining vs rest) ∧
      (r.1.1 = true → Arguments o ps s.remaining r.1.2 r.2.remaining ∧
        r.2.elemCount + ps.length = s.elemCount ∧ r.2.indefinite = s.indefinite ∧
        r.2.backups = s.backups) := by
  induction ps generalizing args s with
  | nil =>
    obtain rfl := List.eq_nil_of_length_eq_zero hargs
    exact ⟨⟨fun _ => ⟨Nat.zero_le _, [], _, rfl, rfl⟩, fun _ => rfl⟩, fun _ => ⟨⟨rfl, rfl⟩, rfl, rfl, rfl⟩⟩
  | cons p ps ih =>
    obtain ⟨old, args, rfl⟩ := List.exists_cons_of_length_eq_add_one hargs
    have hrun : run (binaryDecoder o) (decodeTuple ((p :: ps).map Parameter.decode) (old :: args)) s =
        let d := run (binaryDecoder o) (p.decode old) s
        let r := run (binaryDecoder o) (decodeTuple (ps.map Parameter.decode) args) d.2
        ((d.1.ok && r.1.1, d.1.value old :: r.1.2), r.2) := by
      rw [List.map_cons, decodeTuple, run_bind]
      dsimp only
      rw [run_bind]
      rfl
    obtain ⟨hiff, hok⟩ := ih (Nat.succ.inj hargs) (run (binaryDecoder o) (p.decode old) s).2
    dsimp only at hiff hok ⊢
    rw [hrun]
    dsimp only
    rcases run_decode_parameter hZ p old s with ⟨hfail, hfalse⟩ | ⟨v, mid, hcount, hitem, hd, hmid, helem, hrest⟩
    · rw [hfalse]
      refine ⟨⟨fun h => absurd h Bool.false_ne_true, ?_⟩, fun h => absurd h Bool.false_ne_true⟩
      rintro ⟨hlen, vs, rest, v, mid, vs', hsome, -⟩
      rcases hfail with hzero | hnone
      · rw [hzero] at hlen
        exact absurd hlen (Nat.not_succ_le_zero _)
      · exact absurd (hnone.symm.trans hsome) nofun
    · rw [hmid] at hiff hok
      rw [hd, Bool.true_and, hiff]
      refine ⟨⟨?_, ?_⟩, fun h => ?_⟩
      · rintro ⟨hlen, vs, rest, hvs⟩
        exact ⟨by rw [List.length_cons]; omega, v :: vs, rest, v, mid, vs, hitem, hvs, rfl⟩
      · rintro ⟨hlen, vs, rest, v', mid', vs', hitem', hvs, -⟩
        obtain ⟨-, rfl⟩ := Prod.mk.inj (Option.some.inj (hitem.symm.trans hitem'))
        rw [List.length_cons] at hlen
        exact ⟨by omega, vs', rest, hvs⟩
      · obtain ⟨hargs, helems, hindefinite, hbackups⟩ := hok (hiff.2 h)
        refine ⟨⟨v, mid, _, hitem, hargs, rfl⟩, ?_, hindefinite.trans hrest.1, hbackups.trans hrest.2⟩
        rw [List.length_cons]
        omega

/-- A text starts with one list of arguments at most. -/
theorem Arguments.unique {ps : List (Parameter V)} {bytes rest rest' : Bytes} {vs vs' : List V}
    (h : Arguments o ps bytes vs rest) (h' : Arguments o ps bytes vs' rest') : vs = vs' ∧ rest = rest' := by
  induction ps generalizing bytes vs vs' with
  | nil => exact ⟨h.1.trans h'.1.symm, h.2.trans h'.2.symm⟩
  | cons p ps ih =>
    obtain ⟨v, mid, ws, hitem, hws, rfl⟩ := h
    obtain ⟨v', mid', ws', hitem', hws', rfl⟩ := h'
    obtain ⟨rfl, rfl⟩ := Prod.mk.inj (Option.some.inj (hitem.symm.trans hitem'))
    obtain ⟨rfl, rfl⟩ := ih hws hws'
    exact ⟨rfl, rfl⟩

/-- **The payloads that are decoded are those that start with a list of the arguments.** -/
theorem decodeArguments_iff (hZ : o.zcbor.ListLaws) {ps : List (Parameter V)}
    (hps : ps.length ≤ o.zcbor.indefiniteCount) {args : List V} (hargs : args.length = ps.length) {s : ZcborState}
    (hcount : s.elemCount ≠ 0) (hdepth : s.backups.length + 2 < s.depth) (vs : List V) :
    (run (binaryDecoder o) (decodeArguments (ps.map Parameter.decode) args) s).1 = (true, vs) ↔
      ∃ trailing, ArgumentList o ps s.remaining vs trailing := by
  have hrun : run (binaryDecoder o) (decodeArguments (ps.map Parameter.decode) args) s =
      let started := o.zcbor.listStartDecode s
      let r := if started.1 then run (binaryDecoder o) (decodeTuple (ps.map Parameter.decode) args) started.2
        else ((false, args), started.2)
      let ended := o.zcbor.listEndDecode r.2
      ((r.1.1 && ended.1, r.1.2), ended.2) := by
    have hstart : run (binaryDecoder o) (decode .listStart) s = o.zcbor.listStartDecode s := rfl
    rw [decodeArguments, run_bind, hstart]
    rcases o.zcbor.listStartDecode s with ⟨_ | _, s'⟩
    · rfl
    · dsimp only
      rw [if_pos rfl, if_pos rfl, run_bind]
      rfl
  rw [hrun]
  dsimp only
  by_cases hlist : ∃ argument rest, Cbor.readHead s.remaining = some (⟨4, argument⟩, rest)
  · obtain ⟨argument, rest, hhead⟩ := hlist
    obtain ⟨hstart, hrest, helems, hindefinite, hbackups⟩ := hZ.start s argument rest hcount hdepth hhead
    obtain ⟨hiff, hok⟩ := run_decodeTuple hZ ps hargs (o.zcbor.listStartDecode s).2
    rw [hrest, helems] at hiff hok
    rw [hstart, if_pos rfl]
    generalize run (binaryDecoder o) (decodeTuple (ps.map Parameter.decode) args)
      (o.zcbor.listStartDecode s).2 = r at hiff hok ⊢
    rw [Prod.mk.injEq, Bool.and_eq_true]
    constructor
    · rintro ⟨⟨hr, hended⟩, rfl⟩
      obtain ⟨hvs, hleft, hindefinite', hbackups'⟩ := hok hr
      rw [hindefinite] at hindefinite'
      rw [← hbackups'] at hbackups
      cases argument with
      | some n =>
        have hzero := (hZ.stop r.2 hbackups hindefinite').1 hended
        refine ⟨r.2.remaining, some n, rest, hhead, ?_, hvs⟩
        rw [hzero, Nat.zero_add] at hleft
        exact hleft.symm
      | none =>
        have hbreak := (hZ.stop_indefinite r.2 hbackups hindefinite').1 hended
        obtain ⟨trailing, htrailing⟩ := List.head?_eq_some_iff.1 hbreak
        rw [htrailing] at hvs
        exact ⟨trailing, none, rest, hhead, hvs⟩
    · rintro ⟨trailing, argument', rest', hhead', hvs⟩
      obtain ⟨hargument, rfl⟩ := Prod.mk.inj (Option.some.inj (hhead.symm.trans hhead'))
      obtain rfl : argument = argument' := congrArg Cbor.Head.argument hargument
      cases argument with
      | some n =>
        obtain ⟨rfl, hvs⟩ := hvs
        have hr := hiff.2 ⟨Nat.le_refl _, vs, trailing, hvs⟩
        obtain ⟨hvs', hleft, hindefinite', hbackups'⟩ := hok hr
        rw [← hbackups'] at hbackups
        rw [Option.getD_some] at hleft
        exact ⟨⟨hr, (hZ.stop r.2 hbackups (hindefinite'.trans hindefinite)).2 (by omega)⟩,
          (hvs'.unique hvs).1⟩
      | none =>
        have hr := hiff.2 ⟨hps, vs, _, hvs⟩
        obtain ⟨hvs', hleft, hindefinite', hbackups'⟩ := hok hr
        obtain ⟨hvalues, hremaining⟩ := hvs'.unique hvs
        rw [← hbackups'] at hbackups
        refine ⟨⟨hr, (hZ.stop_indefinite r.2 hbackups (hindefinite'.trans hindefinite)).2 ?_⟩, hvalues⟩
        rw [hremaining]
        rfl
  · have hstart := hZ.start_other s fun argument rest h => hlist ⟨argument, rest, h⟩
    rw [hstart]
    refine ⟨fun h => absurd (congrArg Prod.fst h) Bool.false_ne_true, ?_⟩
    rintro ⟨trailing, argument, rest, hhead, -⟩
    exact absurd ⟨argument, rest, hhead⟩ hlist

end Decoder

/-! ## The function is called -/

section Exec

variable {ι V A τ : Type} [DecidableEq ι]

/-- A function that keeps a list of the arguments of its calls. -/
def withCallLog (f : List V → A → A × Encoding Bool) (arguments : List V) (app : List (List V) × A) :
    (List (List V) × A) × Encoding Bool :=
  let (a, result) := f arguments app.2
  ((app.1 ++ [arguments], a), result)

/-- What `handleExec` does with a function that the mask permits, once the arguments have been decoded. -/
theorem run_handleExec {S : Server ι V (List (List V) × A) τ} {n : ι} {parameters : List (Codec V)}
    {f : List V → A → A × Encoding Bool} (hkind : (S.registry.node n).kind = .function parameters (withCallLog f))
    (haccess : (S.registry.node n).access &&& S.access ≠ 0) {σ : Type} (h : Decoder σ)
    (s : Session ι V (List (List V) × A) τ) (d : σ) :
    let decoded := (run h (decodeArguments (parameters.map Codec.decode) (s.world.arguments n)) d).1
    let r := (run h (S.handleExec n s) d).1
    let e := (run S.encoder (encode .preamble) s.encoder).2
    let encoded := run S.encoder (f decoded.2 s.world.app.2).2 e
    r.2.world.arguments n = decoded.2 ∧
      if decoded.1 then
        r.2.world.app.1 = s.world.app.1 ++ [decoded.2] ∧ r.2.encoder = encoded.2 ∧
          (if encoded.1 then r.1 = .body ∧ r.2.status = some .changed
            else r.1 = .header ∧ r.2.status = some .badRequest)
      else r.2.world.app.1 = s.world.app.1 ∧ r.2.status = some .badRequest := by
  dsimp only
  rw [Server.handleExec]
  dsimp only
  rw [if_neg haccess, hkind]
  dsimp only
  rw [run_bind]
  have harguments : (s.encode S.encoder (encode .preamble)).2.world.arguments n = s.world.arguments n := rfl
  rw [harguments]
  rcases run h (decodeArguments (parameters.map Codec.decode) (s.world.arguments n)) d with ⟨⟨_ | _, arguments⟩, d'⟩
  · exact ⟨Function.update_self .., rfl, rfl⟩
  · dsimp only
    rw [if_pos rfl, if_pos rfl]
    cases hresult : (run S.encoder (f arguments s.world.app.2).2
      (run S.encoder (encode .preamble) s.encoder).2).1 with
    | false => simp [withCallLog, Session.encode, Session.setApp, Session.setStatus, World.setArguments, hresult]
    | true => simp [withCallLog, Session.encode, Session.setApp, Session.setStatus, World.setArguments, hresult]

/-- **A function is called once where the payload starts with a list of its arguments, and not otherwise.** Where
it is not called the status is `badRequest`, and `changed` says that the result has been encoded behind the
preamble. -/
theorem handleExec_iff {o : BinaryDecoderOptions} (hZ : o.zcbor.ListLaws)
    {S : Server ι V (List (List V) × A) τ} {n : ι} {parameters : List (Codec V)} {ps : List (Parameter V)}
    (hdecode : parameters.map Codec.decode = ps.map Parameter.decode) (hps : ps.length ≤ o.zcbor.indefiniteCount)
    {f : List V → A → A × Encoding Bool} (hkind : (S.registry.node n).kind = .function parameters (withCallLog f))
    (haccess : (S.registry.node n).access &&& S.access ≠ 0) {s : Session ι V (List (List V) × A) τ}
    (harguments : (s.world.arguments n).length = ps.length) {d : ZcborState} (hcount : d.elemCount ≠ 0)
    (hdepth : d.backups.length + 2 < d.depth) :
    let r := (run (binaryDecoder o) (S.handleExec n s) d).1
    let calls := r.2.world.app.1
    (calls = s.world.app.1 ∨ ∃ vs, calls = s.world.app.1 ++ [vs]) ∧
      (∀ vs, calls = s.world.app.1 ++ [vs] ↔ ∃ trailing, ArgumentList o ps d.remaining vs trailing) ∧
      (calls = s.world.app.1 → r.2.status = some .badRequest) ∧
      (r.2.status = some .changed → ∃ vs, calls = s.world.app.1 ++ [vs] ∧
        let encoded := run S.encoder (f vs s.world.app.2).2 (run S.encoder (encode .preamble) s.encoder).2
        encoded.1 = true ∧ r.1 = .body ∧ r.2.encoder = encoded.2) := by
  have hrun := (run_handleExec hkind haccess (binaryDecoder o) s d).2
  have hiff := decodeArguments_iff hZ hps harguments hcount hdepth
  rw [hdecode] at hrun
  dsimp only at hrun ⊢
  generalize run (binaryDecoder o) (decodeArguments (ps.map Parameter.decode) (s.world.arguments n)) d = decoded
    at hrun hiff
  obtain ⟨⟨ok, arguments⟩, d'⟩ := decoded
  cases ok with
  | false =>
    obtain ⟨hcalls, hstatus⟩ := hrun
    refine ⟨.inl hcalls, fun vs => ?_, fun _ => hstatus, fun h => absurd (hstatus.symm.trans h) (by decide)⟩
    rw [← hiff vs, hcalls]
    exact iff_of_false (by simp) (by simp)
  | true =>
    obtain ⟨hcalls, hencoder, hresult⟩ := hrun
    refine ⟨.inr ⟨arguments, hcalls⟩, fun vs => ?_, fun h => ?_, fun h => ⟨arguments, hcalls, ?_⟩⟩
    · rw [← hiff vs, hcalls]
      simp
    · rw [hcalls] at h
      exact absurd h (by simp)
    · split at hresult
      · rename_i hencoded
        exact ⟨hencoded, hresult.1, hencoder⟩
      · exact absurd (hresult.2.symm.trans h) (by decide)

end Exec

/-! ## A function of a number -/

/-- A parameter of the type `uint8_t`. -/
def parameterUInt8 : Parameter ℕ := ⟨.uint .w8, id⟩

/-- The nodes of a server with one function, `x` with the id 32, which returns its argument. -/
def oneFunctionNode : SmallNode → Node SmallNode ℕ (List (List ℕ) × Unit)
  | .a => .ofIds [0x78] 32 0 0x70 (.function [⟨codecUInt8.encode, parameterUInt8.decode⟩]
      (withCallLog fun arguments app => (app, encode (.uint .w8 (arguments.headD 0)))))
  | .metadata => .ofIds [0x5F] 25 0 0x01 .overlay
  | _ => .ofIds [] 0 0 0x01 .overlay

/-- The server. -/
def oneFunction : Server SmallNode ℕ (List (List ℕ) × Unit) ZcborEncodeState where
  registry := {
    node := oneFunctionNode
    nodeMap := bucketsOf oneFunctionNode [.root, .metadata, .a]
    childrenOf := fun n => if n = .root then [.a] else []
    rootNode := .root
    metadataNode := .metadata }
  access := 0x77
  encoder := binaryEncoder zcborEncodeReference

/-- A session before the function has been called, with 0 as its argument. -/
def beforeCall : Session SmallNode ℕ (List (List ℕ) × Unit) ZcborEncodeState where
  world := ⟨fun _ => 0, fun _ _ => 0, fun _ => [0], ([], ())⟩
  encoder := .new 8 64

/-- What the server does with the payload of an exec request. -/
def execRun (payload : Bytes) : Returned × Session SmallNode ℕ (List (List ℕ) × Unit) ZcborEncodeState :=
  (run (binaryDecoder { zcbor := zcborReference }) (oneFunction.handleExec .a beforeCall) (.alone payload)).1

/-- The payload `81 07` is a list of one number, for which the function is called. -/
theorem execRun_seven : (execRun [0x81, 0x07]).2.world.app.1 = [[7]] := by
  have hparameters : [(⟨codecUInt8.encode, parameterUInt8.decode⟩ : Codec ℕ)].map Codec.decode =
      [parameterUInt8].map Parameter.decode := rfl
  have hall := handleExec_iff (o := { zcbor := zcborReference }) (n := .a) (S := oneFunction)
    (s := beforeCall) (d := .alone [0x81, 0x07]) zcborReference_listLaws hparameters (by decide) rfl
    (by decide) rfl (by decide) (by decide)
  exact (hall.2.1 [7]).2 ⟨[], some 1, [0x07], by decide, rfl, 7, [], [], by decide, ⟨rfl, rfl⟩, rfl⟩

/-- The function is called for `81 07 00`, which is no list of one number: a byte is behind the list. -/
theorem execRun_trailing :
    (execRun [0x81, 0x07, 0x00]).2.world.app.1 = [[7]] ∧
      ¬ ∃ vs, ArgumentList { zcbor := zcborReference } [parameterUInt8] [0x81, 0x07, 0x00] vs [] := by
  refine ⟨by decide +kernel, ?_⟩
  rintro ⟨vs, argument, rest, hhead, hargs⟩
  have hhead' : Cbor.readHead [0x81, 0x07, 0x00] = some (⟨4, some 1⟩, [0x07, 0x00]) := by decide
  obtain ⟨hargument, rfl⟩ := Prod.mk.inj (Option.some.inj (hhead'.symm.trans hhead))
  obtain rfl : some 1 = argument := congrArg Cbor.Head.argument hargument
  obtain ⟨-, v, mid, vs', hitem, ⟨-, rfl⟩, -⟩ := hargs
  have hitem' : parameterUInt8.item { zcbor := zcborReference } [0x07, 0x00] = some (7, [0x00]) := by decide
  exact absurd (hitem'.symm.trans hitem) nofun

end ThingSet
