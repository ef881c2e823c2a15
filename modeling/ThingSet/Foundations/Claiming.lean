import Mathlib.Data.List.Basic
import Mathlib.Data.Nat.Notation

/-!
# Claiming names

Two parties choose names. A party asks for a name before it settles on it; the other answers a question for
the name that it has, and who is told that the name is taken gives it up.

`Step.contested`: when no question is lost on a party that has the name, and nobody settles on a name that
the other has with a question, an answer that is owed or an answer still to come, it stays true that one of
two parties with the same name is going to be told; so they never both settle on it (`not_both_settled`).
-/

namespace Claiming

/-- A party: the name that it has asked for or settled on, whether it has been told that the name is taken
and whether it owes an answer, and the questions and answers from it that are in flight. -/
structure Party (α : Type) where
  name : Option α := none
  settled : Bool := false
  told : Bool := false
  owes : Bool := false
  questions : List α := []
  answers : List α := []

variable {α : Type}

/-- A question for the name is in flight, or it has been heard, or its answer is in flight or has been
received. -/
def WillBeTold (s : Bool → Party α) (p : Bool) (a : α) : Prop :=
  a ∈ (s p).questions ∨ (s !p).owes = true ∨ a ∈ (s !p).answers ∨ (s p).told = true

/-- If both have a name, one of them has not settled on it and is going to be told. -/
def Contested (s : Bool → Party α) : Prop :=
  ∀ a, (∀ p, (s p).name = some a) → ∃ p, (s p).settled = false ∧ WillBeTold s p a

/-- What can happen to the parties. -/
inductive Step (s s' : Bool → Party α) : Prop
  /-- Nothing. -/
  | stay (p : Bool) (hself : s' p = s p) (hother : s' (!p) = s !p)
  /-- A party has no name, or gives up its name. -/
  | withdraw (p told : Bool)
    (hself : s' p = { s p with name := none, settled := false, told := told }) (hother : s' (!p) = s !p)
  /-- A party asks for a name. -/
  | ask (p : Bool) (a : α)
    (hself : s' p = { s p with name := some a, settled := false, questions := a :: (s p).questions })
    (hother : s' (!p) = s !p)
  /-- A question arrives. Who has the name owes an answer. -/
  | hear (p : Bool) (a : α) (questions : List α) (owes : Bool)
    (hquestions : ∀ b ∈ (s p).questions, b ≠ a → b ∈ questions)
    (hname : (s !p).name = some a → owes = true) (howes : (s !p).owes = true → owes = true)
    (hself : s' p = { s p with questions := questions })
    (hother : s' (!p) = { s !p with owes := owes })
  /-- A party sends an answer, for its name if it has one. -/
  | answer (p : Bool) (a : α) (owes : Bool) (hname : ∀ b, (s p).name = some b → b = a)
    (hself : s' p = { s p with owes := owes, answers := a :: (s p).answers }) (hother : s' (!p) = s !p)
  /-- An answer arrives. -/
  | tell (p : Bool) (a : α) (answers : List α) (told : Bool)
    (hanswers : ∀ b ∈ (s !p).answers, b ≠ a → b ∈ answers)
    (hname : (s p).name = some a → (s p).settled = false → told = true)
    (htold : (s p).told = true → told = true)
    (hself : s' p = { s p with told := told })
    (hother : s' (!p) = { s !p with answers := answers })
  /-- A party settles on its name when there is no answer to come, or the other does not have it. -/
  | settle (p : Bool) (a : α) (hname : (s p).name = some a)
    (hclear : ¬ WillBeTold s p a ∨ (s !p).name ≠ some a)
    (hself : s' p = { s p with settled := true }) (hother : s' (!p) = s !p)

variable {s s' : Bool → Party α} {p : Bool} {a : α}

theorem forall_party {P : Bool → Prop} (hself : P p) (hother : P !p) : ∀ q, P q := by
  cases p
  · exact Bool.forall_bool.2 ⟨hself, hother⟩
  · exact Bool.forall_bool.2 ⟨hother, hself⟩

/-- Both parties keep what they have and what they are going to be told. -/
theorem Contested.of_told (hs : Contested s)
    (hname : ∀ q, (s' q).name = (s q).name ∧ (s' q).settled = (s q).settled)
    (htold : ∀ b, (∀ q, (s q).name = some b) →
      ∀ q, (s q).settled = false → WillBeTold s q b → WillBeTold s' q b) : Contested s' := by
  intro b hb
  have hb' : ∀ q, (s q).name = some b := fun q => (hname q).1 ▸ hb q
  obtain ⟨q, hq, hway⟩ := hs b hb'
  exact ⟨q, (hname q).2.trans hq, htold b hb' q hq hway⟩

theorem Contested.settle (hs : Contested s) (hname : (s p).name = some a)
    (hclear : ¬ WillBeTold s p a ∨ (s !p).name ≠ some a)
    (hself : s' p = { s p with settled := true }) (hother : s' (!p) = s !p) : Contested s' := by
  intro b hb
  have hp := hb p
  have hq := hb !p
  rw [hself] at hp
  rw [hother] at hq
  obtain rfl : a = b := Option.some.inj (hname.symm.trans hp)
  have hclear := hclear.resolve_right (fun h => h hq)
  obtain ⟨q, hunsettled, hway⟩ := hs a (forall_party hname hq)
  -- the party that is going to be told is the other one
  obtain rfl : q = !p := Bool.eq_not.2 fun h => hclear (h ▸ hway)
  refine ⟨!p, by rw [hother]; exact hunsettled, ?_⟩
  rw [WillBeTold, Bool.not_not] at hway ⊢
  rwa [hother, hself]

theorem Step.contested (h : Step s s') (hs : Contested s) : Contested s' := by
  cases h with
  | stay p hself hother =>
    rw [show s' = s from funext (forall_party hself hother)]
    exact hs
  | withdraw p told hself hother =>
    intro a ha
    have hnone := ha p
    rw [hself] at hnone
    cases hnone
  | ask p a hself hother =>
    intro b hb
    have hname := hb p
    rw [hself] at hname
    obtain rfl := Option.some.inj hname
    exact ⟨p, by rw [hself], .inl (by rw [hself]; exact List.mem_cons_self)⟩
  | hear p a questions owes hquestions hname howes hself hother =>
    refine hs.of_told (forall_party (p := p) (by simp [hself]) (by simp [hother])) fun b hb => ?_
    refine forall_party (p := p) (fun _ hway => ?_) (fun _ hway => ?_)
    · rw [WillBeTold, hself, hother]
      rcases hway with hquestion | howed | hrest
      · by_cases hab : b = a
        · exact .inr (.inl (hname (hab ▸ hb !p)))
        · exact .inl (hquestions b hquestion hab)
      · exact .inr (.inl (howes howed))
      · exact .inr (.inr hrest)
    · rw [WillBeTold, Bool.not_not] at hway ⊢
      rwa [hself, hother]
  | answer p a owes hname hself hother =>
    refine hs.of_told (forall_party (p := p) (by simp [hself]) (by simp [hother])) fun b hb => ?_
    refine forall_party (p := p) (fun _ hway => ?_) (fun _ hway => ?_)
    · rw [WillBeTold] at hway ⊢
      rwa [hself, hother]
    · rw [WillBeTold, Bool.not_not] at hway ⊢
      rw [hself, hother]
      rcases hway with hquestion | - | hanswer | htold
      · exact .inl hquestion
      · exact .inr (.inr (.inl (hname b (hb p) ▸ List.mem_cons_self)))
      · exact .inr (.inr (.inl (List.mem_cons_of_mem a hanswer)))
      · exact .inr (.inr (.inr htold))
  | tell p a answers told hanswers hname htold hself hother =>
    refine hs.of_told (forall_party (p := p) (by simp [hself]) (by simp [hother])) fun b hb => ?_
    refine forall_party (p := p) (fun hunsettled hway => ?_) (fun _ hway => ?_)
    · rw [WillBeTold] at hway ⊢
      rw [hself, hother]
      rcases hway with hquestion | howed | hanswer | hknown
      · exact .inl hquestion
      · exact .inr (.inl howed)
      · by_cases hab : b = a
        · exact .inr (.inr (.inr (hname (hab ▸ hb p) hunsettled)))
        · exact .inr (.inr (.inl (hanswers b hanswer hab)))
      · exact .inr (.inr (.inr (htold hknown)))
    · rw [WillBeTold, Bool.not_not] at hway ⊢
      rwa [hself, hother]
  | settle p a hname hclear hself hother => exact hs.settle hname hclear hself hother

/-- The two do not settle on the same name. -/
theorem Contested.not_both_settled (hs : Contested s) (hname : ∀ p, (s p).name = some a) :
    ∃ p, (s p).settled = false :=
  let ⟨p, hp, _⟩ := hs a hname
  ⟨p, hp⟩

end Claiming
