import CapyAmqp.Lib.Run
import Mathlib.Logic.Function.Basic

/-!
# Threads — interleaved steps on a shared state

Each thread has a local state and takes atomic steps on a shared one; which thread moves next, and
with what input, is up to the run.  `run_interference_free` is the rule for such runs: an assertion
about each thread that its own steps keep and that the steps of the others do not disturb holds of
all threads at once.  The assertion may speak of what the thread has emitted so far.
-/

namespace Lib

/-- The shared state and the local state of every thread. -/
structure Threads (T σ ℓ : Type*) where
  shared : σ
  phase : T → ℓ

namespace Threads

variable {T σ ℓ ι α φ : Type*} [DecidableEq T]

/-- One step of the thread that the move names. -/
def move (step : T → σ → ℓ → ι → Except φ (σ × ℓ × α)) (c : Threads T σ ℓ) (m : T × ι) :
    Except φ (Threads T σ ℓ × (T × α)) :=
  match step m.1 c.shared (c.phase m.1) m.2 with
  | .error f => .error f
  | .ok (s, l, a) =>
      .ok ({ shared := s
             phase := Function.update c.phase m.1 l }, (m.1, a))

/-- What a thread has emitted. -/
def outputsOf (t : T) (outs : List (T × α)) : List α :=
  outs.filterMap fun o => if o.1 = t then some o.2 else none

@[simp] theorem outputsOf_nil (t : T) : outputsOf t ([] : List (T × α)) = [] := rfl

@[simp] theorem outputsOf_concat_self (t : T) (outs : List (T × α)) (a : α) :
    outputsOf t (outs ++ [(t, a)]) = outputsOf t outs ++ [a] := by
  simp [outputsOf]

theorem outputsOf_concat_of_ne {t t' : T} (h : t' ≠ t) (outs : List (T × α)) (a : α) :
    outputsOf t' (outs ++ [(t, a)]) = outputsOf t' outs := by
  simp [outputsOf, h.symm]

theorem mem_outputsOf {t : T} {outs : List (T × α)} {a : α} :
    a ∈ outputsOf t outs ↔ (t, a) ∈ outs := by
  constructor
  · intro h
    rcases List.mem_filterMap.1 h with ⟨⟨t', a'⟩, hmem, hsome⟩
    by_cases ht : t' = t
    · simp only [ht, if_true, Option.some.injEq] at hsome
      rwa [ht, hsome] at hmem
    · simp [ht] at hsome
  · intro h
    exact List.mem_filterMap.2 ⟨(t, a), h, by simp⟩

section Rules

variable {step : T → σ → ℓ → ι → Except φ (σ × ℓ × α)} {c c' : Threads T σ ℓ} {m : T × ι}

theorem move_ok_iff {o : T × α} :
    move step c m = .ok (c', o) ↔
      ∃ s l a, step m.1 c.shared (c.phase m.1) m.2 = .ok (s, l, a) ∧
        c' = { shared := s, phase := Function.update c.phase m.1 l } ∧ o = (m.1, a) := by
  unfold move
  cases step m.1 c.shared (c.phase m.1) m.2 with
  | error f => simp
  | ok r =>
      rcases r with ⟨s, l, a⟩
      constructor
      · intro h
        cases h
        exact ⟨s, l, a, rfl, rfl, rfl⟩
      · rintro ⟨_, _, _, hstep, rfl, rfl⟩
        cases hstep
        rfl

theorem move_error_iff {f : φ} :
    move step c m = .error f ↔ step m.1 c.shared (c.phase m.1) m.2 = .error f := by
  unfold move
  cases step m.1 c.shared (c.phase m.1) m.2 with
  | error g => simp
  | ok r => simp

/-- The rule for interleavings.  `I` is about the shared state; `J t` about the shared state, the
local state of `t` and what `t` has emitted. -/
theorem run_interference_free {I : σ → Prop} {J : T → σ → ℓ → List α → Prop}
    (hinit : I c.shared ∧ ∀ t, J t c.shared (c.phase t) [])
    (hshared : ∀ {t s s' l l' i a as}, I s → J t s l as → step t s l i = .ok (s', l', a) → I s')
    (hown : ∀ {t s s' l l' i a as}, I s → J t s l as → step t s l i = .ok (s', l', a) →
      J t s' l' (as ++ [a]))
    (hother : ∀ {t t' s s' l l' l₁ i a as as₁}, t' ≠ t → I s → J t s l as → J t' s l₁ as₁ →
      step t s l i = .ok (s', l', a) → J t' s' l₁ as₁)
    {moves : List (T × ι)} {outs : List (T × α)} (h : run (move step) c moves = .ok (c', outs)) :
    I c'.shared ∧ ∀ t, J t c'.shared (c'.phase t) (outputsOf t outs) := by
  refine run_history (P := fun c _ outs =>
    I c.shared ∧ ∀ t, J t c.shared (c.phase t) (outputsOf t outs)) hinit ?_ h
  intro ms c₁ c₂ outs m o _ hP hmove
  rcases move_ok_iff.1 hmove with ⟨s, l, a, hstep, rfl, rfl⟩
  refine ⟨hshared hP.1 (hP.2 m.1) hstep, ?_⟩
  intro t
  by_cases ht : t = m.1
  · subst ht
    simp only [outputsOf_concat_self, Function.update_self]
    exact hown hP.1 (hP.2 m.1) hstep
  · -- the thread has not moved
    simp only [outputsOf_concat_of_ne ht, Function.update_of_ne ht]
    exact hother ht hP.1 (hP.2 m.1) (hP.2 t) hstep

end Rules

end Threads

end Lib
