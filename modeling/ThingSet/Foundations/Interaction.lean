import Mathlib.Data.Nat.Notation
import Mathlib.Logic.Function.Basic

/-!
# Programs over an interface

An interface is a set of operations, each with the type of its result: the methods of an abstract
base class. A program over it calls operations and computes with their results; a handler is a
state with an implementation of every operation, and `Prog.run` runs a program on it. Code
written against an abstract class is one program, run on the handler of each derived class.

* `Prog.run_bind` runs a composition in two halves.
* `Prog.Always`: a postcondition that holds whatever the operations return.
* `Prog.run_invariant`: what every operation preserves, a run preserves.
* `Prog.trace`: the calls of a program when it is known what they return, `Prog.run_of_trace`.
* `Prog.run_untilBad`: two handlers whose operations agree on related states, until the first one
  does something bad, give equal results and related states to every program, until the first one
  does something bad. With nothing bad it is the fundamental lemma of simulation (`Prog.run_sim`).
* `Prog.run_eq_of_unwatched`: the same for handlers that agree on all but some watched operations,
  and a run without any of these; `Prog.run_eq_of_never` for a program that never calls them.
* `Prog.Lockstep`: two programs that make the same calls and give related results; `Prog.run_lockstep` runs them
  on one handler.
* `Prog.EachCall`: a property of each call of a run and the state in which it is made; `Prog.run_sim_of_eachCall` is a
  simulation of the calls with that property.
* `Prog.repeatUntil` is a loop with a bound on its rounds.
-/

namespace Interaction

/-- The operations of an abstract class and the types of their results. -/
structure Interface where
  Op : Type
  Result : Op → Type

/-- Programs over an interface. -/
inductive Prog (I : Interface) (α : Type)
  | ret (a : α)
  | call (o : I.Op) (k : I.Result o → Prog I α)

/-- A handler: the state of an implementation and what each operation does to it. -/
abbrev Handler (I : Interface) (σ : Type) := (o : I.Op) → σ → I.Result o × σ

namespace Prog

variable {I : Interface} {α β γ σ σ' : Type}

/-- Run `p`, then the program that `f` makes of its result. -/
def bind : Prog I α → (α → Prog I β) → Prog I β
  | ret a, f => f a
  | call o k, f => call o (fun r => (k r).bind f)

instance : Monad (Prog I) where
  pure := ret
  bind := bind

/-- The program that makes one call. -/
def op (o : I.Op) : Prog I (I.Result o) := call o ret

/-- Run a program on a handler. -/
def run (h : Handler I σ) : Prog I α → σ → α × σ
  | ret a, s => (a, s)
  | call o k, s => run h (k (h o s).1) (h o s).2

@[simp] theorem run_pure (h : Handler I σ) (a : α) (s : σ) :
    run h (pure a : Prog I α) s = (a, s) := rfl

@[simp] theorem run_ret (h : Handler I σ) (a : α) (s : σ) : run h (ret a) s = (a, s) := rfl

@[simp] theorem run_op (h : Handler I σ) (o : I.Op) (s : σ) : run h (op o) s = h o s := rfl

@[simp] theorem run_bind (h : Handler I σ) (p : Prog I α) (f : α → Prog I β) (s : σ) :
    run h (p >>= f) s = run h (f (run h p s).1) (run h p s).2 := by
  change run h (p.bind f) s = _
  induction p generalizing s with
  | ret a => rfl
  | call o k ih => exact ih _ _

@[simp] theorem run_map (h : Handler I σ) (f : α → β) (p : Prog I α) (s : σ) :
    run h (f <$> p) s = (f (run h p s).1, (run h p s).2) :=
  run_bind h p (fun a => ret (f a)) s

/-! ## Invariants -/

/-- What every operation preserves, a run preserves. -/
theorem run_invariant {h : Handler I σ} {P : σ → Prop} (hP : ∀ o s, P s → P (h o s).2)
    (p : Prog I α) {s : σ} (hs : P s) : P (run h p s).2 := by
  induction p generalizing s with
  | ret a => exact hs
  | call o k ih => exact ih _ (hP o s hs)

/-! ## Postconditions -/

/-- Every result of the program satisfies `Q`, whatever the operations return. -/
def Always (Q : α → Prop) : Prog I α → Prop
  | ret a => Q a
  | call _ k => ∀ r, Always Q (k r)

@[simp] theorem always_pure {Q : α → Prop} {a : α} : Always Q (pure a : Prog I α) ↔ Q a := Iff.rfl

@[simp] theorem always_ret {Q : α → Prop} {a : α} : Always Q (ret a : Prog I α) ↔ Q a := Iff.rfl

theorem always_of_forall {Q : α → Prop} (p : Prog I α) (h : ∀ a, Q a) : Always Q p := by
  induction p with
  | ret a => exact h a
  | call o k ih => exact ih

theorem Always.bind {P : α → Prop} {Q : β → Prop} {p : Prog I α} {f : α → Prog I β}
    (hp : Always P p) (hf : ∀ a, P a → Always Q (f a)) : Always Q (p >>= f) := by
  induction p with
  | ret a => exact hf a hp
  | call o k ih => exact fun r => ih r (hp r)

/-- A first part of which nothing is known. -/
theorem always_bind_of_forall {Q : β → Prop} {p : Prog I α} {f : α → Prog I β}
    (hf : ∀ a, Always Q (f a)) : Always Q (p >>= f) :=
  (always_of_forall p fun _ => trivial).bind fun a _ => hf a

theorem Always.mono {P Q : α → Prop} {p : Prog I α} (hp : Always P p) (h : ∀ a, P a → Q a) :
    Always Q p := by
  induction p with
  | ret a => exact h a hp
  | call o k ih => exact fun r => ih r (hp r)

/-- The result of a run satisfies the postcondition. -/
theorem Always.run {Q : α → Prop} {p : Prog I α} (hp : Always Q p) (h : Handler I σ) (s : σ) :
    Q (run h p s).1 := by
  induction p generalizing s with
  | ret a => exact hp
  | call o k ih => exact ih _ (hp _) _

/-! ## The calls of a program -/

/-- The result of a program whose calls are answered by `answer`, and the calls. -/
def trace (answer : (o : I.Op) → I.Result o) : Prog I α → α × List I.Op
  | ret a => (a, [])
  | call o k => ((trace answer (k (answer o))).1, o :: (trace answer (k (answer o))).2)

section Trace

variable {answer : (o : I.Op) → I.Result o}

@[simp] theorem trace_pure (a : α) : trace answer (pure a : Prog I α) = (a, []) := rfl

@[simp] theorem trace_op (o : I.Op) : trace answer (op o) = (answer o, [o]) := rfl

@[simp] theorem trace_bind (p : Prog I α) (f : α → Prog I β) :
    trace answer (p >>= f) = ((trace answer (f (trace answer p).1)).1,
      (trace answer p).2 ++ (trace answer (f (trace answer p).1)).2) := by
  change trace answer (p.bind f) = _
  induction p with
  | ret a => rfl
  | call o k ih => exact Prod.ext (by rw [Prog.bind, trace, ih]; rfl) (by rw [Prog.bind, trace, ih]; rfl)

/-- A handler that answers the calls to come as `answer` does runs the program as they are traced, where `Q` says
which calls are still to come. -/
theorem run_of_trace {h : Handler I σ} {Q : List I.Op → σ → Prop}
    (hstep : ∀ o os s, Q (o :: os) s → (h o s).1 = answer o ∧ Q os (h o s).2) (p : Prog I α) (rest : List I.Op)
    {s : σ} (hs : Q ((trace answer p).2 ++ rest) s) :
    (run h p s).1 = (trace answer p).1 ∧ Q rest (run h p s).2 := by
  induction p generalizing s with
  | ret a => exact ⟨rfl, hs⟩
  | call o k ih =>
    obtain ⟨hanswer, hnext⟩ := hstep o _ s hs
    rw [run, trace, hanswer]
    exact ih (answer o) hnext

end Trace

/-! ## Two handlers -/

/-- The operations of `h` and `h'` give equal results and related states on states related by
`R`, unless `h` does something bad, which it never leaves. -/
structure UntilBad (h : Handler I σ) (h' : Handler I σ') (R : σ → σ' → Prop) (bad : σ → Prop) :
    Prop where
  bad_stays : ∀ o s, bad s → bad (h o s).2
  step : ∀ o s s', R s s' → bad (h o s).2 ∨ (h o s).1 = (h' o s').1 ∧ R (h o s).2 (h' o s').2

/-- Programs run alike on both handlers until the first one does something bad. -/
theorem run_untilBad {h : Handler I σ} {h' : Handler I σ'} {R : σ → σ' → Prop} {bad : σ → Prop}
    (H : UntilBad h h' R bad) (p : Prog I α) {s : σ} {s' : σ'} (hs : R s s') :
    bad (run h p s).2 ∨ (run h p s).1 = (run h' p s').1 ∧ R (run h p s).2 (run h' p s').2 := by
  induction p generalizing s s' with
  | ret a => exact .inr ⟨rfl, hs⟩
  | call o k ih =>
    rcases H.step o s s' hs with hbad | ⟨hr, hR⟩
    · exact .inl (run_invariant H.bad_stays (k (h o s).1) hbad)
    · simp only [run, ← hr]
      exact ih _ hR

/-- A simulation: equal results and related states, whatever the program. -/
theorem run_sim {h : Handler I σ} {h' : Handler I σ'} {R : σ → σ' → Prop}
    (H : ∀ o s s', R s s' → (h o s).1 = (h' o s').1 ∧ R (h o s).2 (h' o s').2) (p : Prog I α)
    {s : σ} {s' : σ'} (hs : R s s') :
    (run h p s).1 = (run h' p s').1 ∧ R (run h p s).2 (run h' p s').2 := by
  have H' : UntilBad h h' R (fun _ => False) := ⟨fun _ _ hb => hb, fun o s s' hs => .inr (H o s s' hs)⟩
  exact (run_untilBad H' p hs).resolve_left id

/-- Each call of a run has the property `P` in the state in which it is made. -/
def EachCall (h : Handler I σ) (P : I.Op → σ → Prop) : Prog I α → σ → Prop
  | ret _, _ => True
  | call o k, s => P o s ∧ EachCall h P (k (h o s).1) (h o s).2

section EachCall

variable {h : Handler I σ} {P Q : I.Op → σ → Prop}

@[simp] theorem eachCall_pure (a : α) (s : σ) : EachCall h P (pure a : Prog I α) s := trivial

@[simp] theorem eachCall_op {o : I.Op} {s : σ} : EachCall h P (op o) s ↔ P o s :=
  ⟨fun hp => hp.1, fun hp => ⟨hp, trivial⟩⟩

@[simp] theorem eachCall_bind {p : Prog I α} {f : α → Prog I β} {s : σ} :
    EachCall h P (p >>= f) s ↔ EachCall h P p s ∧ EachCall h P (f (run h p s).1) (run h p s).2 := by
  change EachCall h P (p.bind f) s ↔ _
  induction p generalizing s with
  | ret a => exact ⟨fun hf => ⟨trivial, hf⟩, fun hf => hf.2⟩
  | call o k ih =>
    rw [Prog.bind, EachCall, ih, EachCall, and_assoc]
    rfl

/-- Where the calls with the property are simulated, a run is whose calls all have it. -/
theorem run_sim_of_eachCall {h' : Handler I σ'} {R : σ → σ' → Prop}
    (H : ∀ o s s', R s s' → P o s → (h o s).1 = (h' o s').1 ∧ R (h o s).2 (h' o s').2) {p : Prog I α}
    {s : σ} {s' : σ'} (hp : EachCall h P p s) (hs : R s s') :
    (run h p s).1 = (run h' p s').1 ∧ R (run h p s).2 (run h' p s').2 := by
  induction p generalizing s s' with
  | ret a => exact ⟨rfl, hs⟩
  | call o k ih =>
    obtain ⟨hresult, hnext⟩ := H o s s' hs hp.1
    simp only [run, ← hresult]
    exact ih _ hp.2 hnext

end EachCall

/-! ## Watched operations -/

/-- The handler `h`, and whether a call of a watched operation has been made. -/
def watch (h : Handler I σ) (watched : I.Op → σ → Bool) : Handler I (σ × Bool) :=
  fun o s => ((h o s.1).1, (h o s.1).2, s.2 || watched o s.1)

/-- Watching changes nothing. -/
theorem run_watch (h : Handler I σ) (watched : I.Op → σ → Bool) (p : Prog I α) (s : σ) (b : Bool) :
    (run (watch h watched) p (s, b)).1 = (run h p s).1 ∧
      (run (watch h watched) p (s, b)).2.1 = (run h p s).2 := by
  have H : ∀ (o : I.Op) (t : σ × Bool) (s : σ), t.1 = s →
      (watch h watched o t).1 = (h o s).1 ∧ (watch h watched o t).2.1 = (h o s).2 :=
    fun _ _ _ ht => ht ▸ ⟨rfl, rfl⟩
  exact run_sim (R := fun (t : σ × Bool) (s : σ) => t.1 = s) H p rfl

/-- The handler `h`, and a log of its calls. -/
def withLog {ε : Type} (h : Handler I σ) (entry : I.Op → List ε) : Handler I (σ × List ε) :=
  fun o s => ((h o s.1).1, (h o s.1).2, s.2 ++ entry o)

/-- A log changes nothing. -/
theorem run_withLog {ε : Type} (h : Handler I σ) (entry : I.Op → List ε) (p : Prog I α) (s : σ) (log : List ε) :
    (run (withLog h entry) p (s, log)).1 = (run h p s).1 ∧
      (run (withLog h entry) p (s, log)).2.1 = (run h p s).2 := by
  have H : ∀ (o : I.Op) (t : σ × List ε) (s : σ), t.1 = s →
      (withLog h entry o t).1 = (h o s).1 ∧ (withLog h entry o t).2.1 = (h o s).2 :=
    fun _ _ _ ht => ht ▸ ⟨rfl, rfl⟩
  exact run_sim (R := fun (t : σ × List ε) (s : σ) => t.1 = s) H p rfl

/-- Two handlers whose unwatched operations agree on related states give equal results and related
states to a run that makes no watched call. -/
theorem run_eq_of_unwatched {h : Handler I σ} {h' : Handler I σ'} {R : σ → σ' → Prop}
    {watched : I.Op → σ → Bool}
    (H : ∀ o s s', R s s' → watched o s = false →
      (h o s).1 = (h' o s').1 ∧ R (h o s).2 (h' o s').2)
    (p : Prog I α) {s : σ} {s' : σ'} (hs : R s s')
    (hp : (run (watch h watched) p (s, false)).2.2 = false) :
    (run h p s).1 = (run h' p s').1 ∧ R (run h p s).2 (run h' p s').2 := by
  have hwatch := run_watch h watched p s false
  have H' : UntilBad (watch h watched) h' (fun s s' => R s.1 s') (fun s => s.2 = true) := by
    refine ⟨fun o s hb => by simp [watch, hb], fun o s s' hs => ?_⟩
    rcases hw : watched o s.1 with _ | _
    · exact .inr (H o s.1 s' hs hw)
    · exact .inl (by simp [watch, hw])
  have hrun := (run_untilBad H' p (s := (s, false)) hs).resolve_left (by simp [hp])
  rwa [hwatch.1, hwatch.2] at hrun

/-- The program calls no operation of `calls`, whatever the others return. -/
def Never (calls : I.Op → Prop) : Prog I α → Prop
  | ret _ => True
  | call o k => ¬ calls o ∧ ∀ r, Never calls (k r)

section Never

variable {calls : I.Op → Prop}

@[simp] theorem never_pure (a : α) : Never calls (pure a : Prog I α) := trivial

theorem never_op {o : I.Op} (ho : ¬ calls o) : Never calls (op o) := ⟨ho, fun _ => trivial⟩

theorem Never.bind {p : Prog I α} {f : α → Prog I β} (hp : Never calls p)
    (hf : ∀ a, Never calls (f a)) : Never calls (p >>= f) := by
  induction p with
  | ret a => exact hf a
  | call o k ih => exact ⟨hp.1, fun r => ih r (hp.2 r)⟩

theorem Never.ite {p q : Prog I α} {c : Prop} [Decidable c] (hp : Never calls p) (hq : Never calls q) :
    Never calls (if c then p else q) := by
  split
  · exact hp
  · exact hq

/-- Handlers that agree on all other operations run the program alike. -/
theorem run_eq_of_never {h : Handler I σ} {h' : Handler I σ'} {R : σ → σ' → Prop}
    (H : ∀ o s s', R s s' → ¬ calls o → (h o s).1 = (h' o s').1 ∧ R (h o s).2 (h' o s').2)
    {p : Prog I α} (hp : Never calls p) {s : σ} {s' : σ'} (hs : R s s') :
    (run h p s).1 = (run h' p s').1 ∧ R (run h p s).2 (run h' p s').2 := by
  induction p generalizing s s' with
  | ret a => exact ⟨rfl, hs⟩
  | call o k ih =>
    obtain ⟨hresult, hnext⟩ := H o s s' hs hp.1
    simp only [run, ← hresult]
    exact ih _ (hp.2 _) hnext

end Never

/-! ## Loops -/

/-- Run `body` on the loop's variables until it leaves the loop with a result, for at most
`bound` rounds; `giveUp` says what the loop returns when they are used up. -/
def repeatUntil (giveUp : γ → α) (body : γ → Prog I (γ ⊕ α)) : ℕ → γ → Prog I α
  | 0, c => ret (giveUp c)
  | n + 1, c => body c >>= fun r =>
    match r with
    | .inl c' => repeatUntil giveUp body n c'
    | .inr a => ret a

/-- One round of a loop. -/
theorem run_repeatUntil_succ (h : Handler I σ) (giveUp : γ → α) (body : γ → Prog I (γ ⊕ α))
    (n : ℕ) (c : γ) (s : σ) :
    run h (repeatUntil giveUp body (n + 1) c) s =
      match run h (body c) s with
      | (.inl c', s') => run h (repeatUntil giveUp body n c') s'
      | (.inr a, s') => (a, s') := by
  rw [repeatUntil, run_bind]
  rcases run h (body c) s with ⟨c' | a, s'⟩ <;> rfl

/-- What every round preserves holds of the result of a loop. -/
theorem always_repeatUntil {P : γ → Prop} {Q : α → Prop} {giveUp : γ → α}
    {body : γ → Prog I (γ ⊕ α)} (hgive : ∀ c, P c → Q (giveUp c))
    (hbody : ∀ c, P c → Always (Sum.elim P Q) (body c)) (n : ℕ) (c : γ) (hc : P c) :
    Always Q (repeatUntil giveUp body n c) := by
  induction n generalizing c with
  | zero => exact hgive c hc
  | succ n ih =>
    refine (hbody c hc).bind fun r hr => ?_
    cases r with
    | inl c' => exact ih c' hr
    | inr a => exact hr

theorem never_repeatUntil {calls : I.Op → Prop} {giveUp : γ → α} {body : γ → Prog I (γ ⊕ α)}
    (hbody : ∀ c, Never calls (body c)) (n : ℕ) (c : γ) : Never calls (repeatUntil giveUp body n c) := by
  induction n generalizing c with
  | zero => trivial
  | succ n ih =>
    refine (hbody c).bind fun r => ?_
    cases r with
    | inl c' => exact ih c'
    | inr a => trivial

/-! ## Two programs -/

/-- Two programs that make the same calls and give related results, where `can` says which results a call can
give. -/
inductive Lockstep (can : (o : I.Op) → I.Result o → Prop) (R : α → β → Prop) : Prog I α → Prog I β → Prop
  | ret {a : α} {b : β} (h : R a b) : Lockstep can R (ret a) (ret b)
  | call {o : I.Op} {k : I.Result o → Prog I α} {k' : I.Result o → Prog I β}
    (h : ∀ r, can o r → Lockstep can R (k r) (k' r)) : Lockstep can R (call o k) (call o k')

section Lockstep

variable {can : (o : I.Op) → I.Result o → Prop} {δ : Type}

theorem lockstep_pure {R : α → β → Prop} {a : α} {b : β} (h : R a b) :
    Lockstep can R (pure a : Prog I α) (pure b) := .ret h

theorem Lockstep.bind {R : α → β → Prop} {S : γ → δ → Prop} {p : Prog I α} {p' : Prog I β} {f : α → Prog I γ}
    {f' : β → Prog I δ} (hp : Lockstep can R p p') (hf : ∀ a b, R a b → Lockstep can S (f a) (f' b)) :
    Lockstep can S (p >>= f) (p' >>= f') := by
  induction hp with
  | ret h => exact hf _ _ h
  | call _ ih => exact .call ih

/-- A call, and what is done with its result. -/
theorem lockstep_op_bind {S : γ → δ → Prop} {o : I.Op} {f : I.Result o → Prog I γ} {f' : I.Result o → Prog I δ}
    (hf : ∀ r, can o r → Lockstep can S (f r) (f' r)) : Lockstep can S (op o >>= f) (op o >>= f') := .call hf

theorem lockstep_refl (p : Prog I α) : Lockstep can Eq p p := by
  induction p with
  | ret a => exact .ret rfl
  | call o k ih => exact .call fun r _ => ih r

theorem Lockstep.mono {R S : α → β → Prop} {p : Prog I α} {p' : Prog I β} (hp : Lockstep can R p p')
    (h : ∀ a b, R a b → S a b) : Lockstep can S p p' := by
  induction hp with
  | ret hab => exact .ret (h _ _ hab)
  | call _ ih => exact .call ih

/-- Loops whose rounds are in lockstep. -/
theorem lockstep_repeatUntil {S : γ → δ → Prop} {R : α → β → Prop} {giveUp : γ → α} {giveUp' : δ → β}
    {body : γ → Prog I (γ ⊕ α)} {body' : δ → Prog I (δ ⊕ β)} (hgive : ∀ c c', S c c' → R (giveUp c) (giveUp' c'))
    (hbody : ∀ c c', S c c' → Lockstep can (Sum.LiftRel S R) (body c) (body' c')) (n : ℕ) {c : γ} {c' : δ}
    (hc : S c c') : Lockstep can R (repeatUntil giveUp body n c) (repeatUntil giveUp' body' n c') := by
  induction n generalizing c c' with
  | zero => exact .ret (hgive c c' hc)
  | succ n ih =>
    refine (hbody c c' hc).bind fun r r' hr => ?_
    cases hr with
    | inl h => exact ih h
    | inr h => exact .ret h

/-- Programs in lockstep leave a handler in the same state. -/
theorem run_lockstep {h : Handler I σ} (hcan : ∀ o s, can o (h o s).1) {R : α → β → Prop} {p : Prog I α}
    {p' : Prog I β} (hp : Lockstep can R p p') (s : σ) :
    (run h p s).2 = (run h p' s).2 ∧ R (run h p s).1 (run h p' s).1 := by
  induction hp generalizing s with
  | ret hab => exact ⟨rfl, hab⟩
  | @call o k k' _ ih => exact ih (h o s).1 (hcan o s) (h o s).2

end Lockstep

end Prog

end Interaction
