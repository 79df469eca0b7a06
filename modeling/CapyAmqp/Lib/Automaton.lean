import Mathlib.Data.List.Basic
import Mathlib.Data.List.Induction
import Mathlib.Tactic.TypeStar

/-!
# Automaton — partial automata, and where they get stuck

A partial automaton reads a word letter by letter, as long as it has a step for the next one
(`readAll`).  When every state can still be completed to an accepted word, the words that it reads
are the beginnings of accepted words (`viable_iff`), and the place where it gets stuck is the first
from which no accepted word goes on (`stuck_iff`).
-/

namespace Lib

namespace Automaton

variable {τ α : Type*}

/-- Read a word, as far as there are steps for its letters. -/
def readAll (step : τ → α → Option τ) : τ → List α → Option τ
  | t, [] => some t
  | t, a :: w => (step t a).bind fun t' => readAll step t' w

variable {step : τ → α → Option τ} {accepting : τ → Bool} {t t' : τ} {a : α} {v w : List α}

@[simp] theorem readAll_nil (t : τ) : readAll step t [] = some t := rfl

theorem readAll_cons (h : step t a = some t') : readAll step t (a :: w) = readAll step t' w := by
  simp [readAll, h]

theorem readAll_append (t : τ) (v w : List α) :
    readAll step t (v ++ w) = (readAll step t v).bind fun t' => readAll step t' w := by
  induction v generalizing t with
  | nil => rfl
  | cons a v ih =>
      cases hstep : step t a with
      | none => simp [readAll, hstep]
      | some t' => simpa [readAll, hstep] using ih t'

theorem readAll_append_of (h : readAll step t v = some t') :
    readAll step t (v ++ w) = readAll step t' w := by
  rw [readAll_append, h]
  rfl

theorem readAll_concat (h : readAll step t v = some t') :
    readAll step t (v ++ [a]) = step t' a := by
  rw [readAll_append_of h]
  cases hstep : step t' a <;> simp [readAll, hstep]

theorem read_concat (h : readAll step t (w ++ [a]) = some t') :
    ∃ m, readAll step t w = some m ∧ step m a = some t' := by
  cases hread : readAll step t w with
  | none =>
      rw [readAll_append, hread] at h
      cases h
  | some m => exact ⟨m, rfl, (readAll_concat hread).symm.trans h⟩

/-- The word leads to an accepting state. -/
def Accepts (step : τ → α → Option τ) (accepting : τ → Bool) (t : τ) (w : List α) : Prop :=
  ∃ t', readAll step t w = some t' ∧ accepting t' = true

/-- Some accepted word begins with this one. -/
def Viable (step : τ → α → Option τ) (accepting : τ → Bool) (t : τ) (w : List α) : Prop :=
  ∃ v, Accepts step accepting t (w ++ v)

theorem accepts_append_of (h : readAll step t v = some t') :
    Accepts step accepting t (v ++ w) ↔ Accepts step accepting t' w := by
  simp only [Accepts, readAll_append_of h]

/-- The words that are read are the viable ones. -/
theorem viable_iff (hcompletable : ∀ t, ∃ v, Accepts step accepting t v) :
    Viable step accepting t w ↔ (readAll step t w).isSome = true := by
  constructor
  · rintro ⟨v, t', hread, _⟩
    rw [readAll_append] at hread
    cases hw : readAll step t w with
    | none => simp [hw] at hread
    | some m => rfl
  · intro h
    rcases Option.isSome_iff_exists.1 h with ⟨t', hread⟩
    rcases hcompletable t' with ⟨v, hv⟩
    exact ⟨v, (accepts_append_of hread).2 hv⟩

/-- In the state `t` the automaton does not get any further into `w`, nor is it done. -/
def Stuck (step : τ → α → Option τ) (accepting : τ → Bool) (t : τ) : List α → Prop
  | [] => accepting t = false
  | a :: _ => step t a = none

/-- The word `v` is a beginning of accepted words, but of none that goes on as `w` does. -/
def Breaks (step : τ → α → Option τ) (accepting : τ → Bool) (t : τ) (v : List α) :
    List α → Prop
  | [] => Viable step accepting t v ∧ ¬ Accepts step accepting t v
  | a :: _ => Viable step accepting t v ∧ ¬ Viable step accepting t (v ++ [a])

/-- The letter after the longest viable beginning is the one without a step. -/
theorem stuck_iff (hcompletable : ∀ t, ∃ v, Accepts step accepting t v) :
    (∃ t', readAll step t v = some t' ∧ Stuck step accepting t' w) ↔
      Breaks step accepting t v w := by
  cases w with
  | nil =>
      simp only [Breaks, viable_iff hcompletable, Stuck]
      constructor
      · rintro ⟨t', hread, hstuck⟩
        refine ⟨by simp [hread], ?_⟩
        rintro ⟨t'', hread', haccepting⟩
        cases hread.symm.trans hread'
        rw [hstuck] at haccepting
        cases haccepting
      · rintro ⟨hviable, hnot⟩
        rcases Option.isSome_iff_exists.1 hviable with ⟨t', hread⟩
        refine ⟨t', hread, Bool.eq_false_iff.2 fun haccepting => ?_⟩
        exact hnot ⟨t', hread, haccepting⟩
  | cons a w =>
      simp only [Breaks, viable_iff hcompletable, Stuck]
      constructor
      · rintro ⟨t', hread, hnone⟩
        refine ⟨by simp [hread], ?_⟩
        rw [readAll_concat hread, hnone]
        simp
      · rintro ⟨hviable, hnot⟩
        rcases Option.isSome_iff_exists.1 hviable with ⟨t', hread⟩
        rw [readAll_concat hread] at hnot
        exact ⟨t', hread, by simpa using hnot⟩

theorem not_accepts_of_stuck (hread : readAll step t v = some t')
    (hstuck : Stuck step accepting t' w) : ¬ Accepts step accepting t (v ++ w) := by
  rw [accepts_append_of hread]
  rintro ⟨t'', hread', haccepting⟩
  cases w with
  | nil =>
      cases hread'
      rw [hstuck] at haccepting
      cases haccepting
  | cons a w =>
      have hnone : step t' a = none := hstuck
      simp [readAll, hnone] at hread'

/-- An accepted beginning of the word ends before the place where the automaton gets stuck. -/
theorem accepted_of_stuck {u : List α} (hread : readAll step t v = some t')
    (hstuck : Stuck step accepting t' w) (hu : Accepts step accepting t u) (hpre : u <+: v ++ w) :
    u <+: v := by
  rcases List.prefix_or_prefix_of_prefix hpre (List.prefix_append v w) with h | ⟨x, rfl⟩
  · exact h
  · rcases hu with ⟨t'', hread', haccepting⟩
    rw [readAll_append_of hread] at hread'
    cases x with
    | nil => simp
    | cons a x =>
        rcases hpre with ⟨y, hy⟩
        cases w with
        | nil => simp at hy
        | cons b w =>
            have hab : a = b := by simpa using congrArg List.head? (List.append_cancel_left
              ((List.append_assoc v (a :: x) y).symm.trans hy))
            have hnone : step t' a = none := hab ▸ hstuck
            simp [readAll, hnone] at hread'

/-- The longest accepted beginning of a word. -/
structure Longest (step : τ → α → Option τ) (accepting : τ → Bool) (t : τ) (w u : List α) :
    Prop where
  beginning : u <+: w
  accepts : Accepts step accepting t u
  longest : ∀ u', u' <+: w → Accepts step accepting t u' → u' <+: u

/-- When a step to a state that does not accept keeps the output, the output is the one that the
longest accepted beginning has left. -/
theorem longest_of_read {β : Type*} {out : τ → β} (ht : accepting t = true)
    (hkeep : ∀ m a m', step m a = some m' → accepting m' = false → out m' = out m)
    (hread : readAll step t w = some t') :
    ∃ u m, Longest step accepting t w u ∧ readAll step t u = some m ∧ out t' = out m := by
  induction w using List.reverseRecOn generalizing t' with
  | nil =>
      cases hread
      exact ⟨[], t, ⟨List.prefix_refl [], ⟨t, rfl, ht⟩, fun _ h _ => h⟩, rfl, rfl⟩
  | append_singleton w a ih =>
      rcases read_concat hread with ⟨m, hw, hstep⟩
      cases haccepting : accepting t' with
      | true =>
          exact ⟨w ++ [a], t', ⟨List.prefix_refl _, ⟨t', hread, haccepting⟩, fun _ h _ => h⟩, hread,
            rfl⟩
      | false =>
          rcases ih hw with ⟨u, m', ⟨hpre, haccepts, hlongest⟩, hu, hout⟩
          refine ⟨u, m', ⟨hpre.trans (List.prefix_append w [a]), haccepts, ?_⟩, hu,
            (hkeep m a t' hstep haccepting).trans hout⟩
          intro u' hu' haccepts'
          rcases List.prefix_concat_iff.1 hu' with rfl | hu'
          · -- the whole word is not accepted
            rcases haccepts' with ⟨t'', hread', haccepting'⟩
            cases hread.symm.trans hread'
            rw [haccepting] at haccepting'
            cases haccepting'
          · exact hlongest u' hu' haccepts'

end Automaton

end Lib
