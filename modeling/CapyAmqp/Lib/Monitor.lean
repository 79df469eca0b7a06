import CapyAmqp.Lib.Run
import Mathlib.Logic.Function.Basic

/-!
# Monitor — a state behind a mutex, with a condition variable

An operation takes the mutex and tests whether it is ready.  As long as it is not, it sleeps on the
condition variable: giving the mutex up and falling asleep are one step, and after it has been woken
it takes the mutex again and repeats the test.  Then it acts, wakes all who sleep if it is an
operation that notifies, and gives the mutex back.  The steps of any number of threads interleave,
and a thread that sleeps may wake up for no reason.

* `move_effects` and `move_pending` say what a step can do to the state and to the threads;
* `Exclusive` is what the mutex is for;
* `asleep_pending` excludes lost wakeups, provided that every act that makes an operation ready
  notifies;
* `run_ne_undefined` says that only an operation whose test has passed acts.
-/

namespace Lib

/-- Operations on a state behind a mutex.  `act` is `none` where the effect is undefined. -/
structure MonitorOps (σ Op R : Type*) where
  ready : Op → σ → Bool
  act : Op → σ → Option (σ × R)
  notifies : Op → Bool

namespace MonitorOps

variable {σ Op R T : Type*}

/-! ## Threads -/

/-- Where a thread stands in its operation. -/
inductive Phase (Op R : Type*)
  | idle
  | entering (op : Op)
  | testing (op : Op)
  | failed (op : Op)
  | asleep (op : Op)
  | woken (op : Op)
  | passed (op : Op)
  | acted (op : Op) (result : R)
  | notified (op : Op) (result : R)

/-- In these phases a thread holds the mutex. -/
def Phase.locked : Phase Op R → Bool
  | .testing _ => true
  | .failed _ => true
  | .passed _ => true
  | .acted _ _ => true
  | .notified _ _ => true
  | _ => false

/-- The operation that a thread has called and that has not acted yet. -/
def Phase.pending : Phase Op R → Option Op
  | .entering op => some op
  | .testing op => some op
  | .failed op => some op
  | .asleep op => some op
  | .woken op => some op
  | .passed op => some op
  | _ => none

/-- The operation for which a thread wants the mutex. -/
def Phase.wants : Phase Op R → Option Op
  | .entering op => some op
  | .woken op => some op
  | _ => none

/-- What `notify_all` does to a thread. -/
def Phase.wake : Phase Op R → Phase Op R
  | .asleep op => .woken op
  | p => p

/-- An operation that has acted. -/
structure Effect (Op R T : Type*) where
  thread : T
  op : Op
  result : R

structure Conf (σ Op R T : Type*) where
  state : σ
  holder : Option T
  phase : T → Phase Op R
  effects : List (Effect Op R T)

inductive Move (Op T : Type*)
  | call (t : T) (op : Op)
  | lock (t : T)
  | test (t : T)
  | sleep (t : T)
  | wakeUp (t : T)
  | act (t : T)
  | notify (t : T)
  | unlock (t : T)

inductive Stuck
  | disabled
  | undefined

def start (s : σ) : Conf σ Op R T :=
  { state := s
    holder := none
    phase := fun _ => .idle
    effects := [] }

variable [DecidableEq T] (A : MonitorOps σ Op R)

/-- Move one thread to another phase. -/
def Conf.goto (c : Conf σ Op R T) (t : T) (p : Phase Op R) : Conf σ Op R T :=
  { c with phase := Function.update c.phase t p }

/-- One step of one thread; an operation that returns is emitted. -/
def move (c : Conf σ Op R T) :
    Move Op T → Except Stuck (Conf σ Op R T × Option (Effect Op R T))
  | .call t op =>
      match c.phase t with
      | .idle => .ok (c.goto t (.entering op), none)
      | _ => .error .disabled
  | .lock t =>
      match (c.phase t).wants, c.holder with
      | some op, none => .ok ({ c.goto t (.testing op) with holder := some t }, none)
      | _, _ => .error .disabled
  | .test t =>
      match c.phase t with
      | .testing op => .ok (c.goto t (if A.ready op c.state then .passed op else .failed op), none)
      | _ => .error .disabled
  | .sleep t =>
      match c.phase t with
      -- the mutex is given up and the thread falls asleep in one step
      | .failed op => .ok ({ c.goto t (.asleep op) with holder := none }, none)
      | _ => .error .disabled
  | .wakeUp t =>
      match c.phase t with
      -- a spurious wakeup
      | .asleep op => .ok (c.goto t (.woken op), none)
      | _ => .error .disabled
  | .act t =>
      match c.phase t with
      | .passed op =>
          match A.act op c.state with
          | none => .error .undefined
          | some (s, r) =>
              .ok ({ c.goto t (.acted op r) with
                      state := s
                      effects := c.effects ++ [{ thread := t, op := op, result := r }] }, none)
      | _ => .error .disabled
  | .notify t =>
      match c.phase t with
      | .acted op r =>
          if A.notifies op then
            .ok ({ c with phase := Function.update (fun u => (c.phase u).wake) t (.notified op r) },
              none)
          else .error .disabled
      | _ => .error .disabled
  | .unlock t =>
      match c.phase t with
      | .acted op r =>
          if A.notifies op then .error .disabled
          else .ok ({ c.goto t .idle with holder := none },
            some { thread := t, op := op, result := r })
      | .notified op r =>
          .ok ({ c.goto t .idle with holder := none }, some { thread := t, op := op, result := r })
      | _ => .error .disabled

/-! ## What a step can do -/

section Steps

variable {A} {c c' : Conf σ Op R T} {m : Move Op T} {out : Option (Effect Op R T)} {t : T}
  {op : Op} {r : R}

omit [DecidableEq T] in
theorem Phase.wants_cases {p : Phase Op R} (h : p.wants = some op) :
    p = .entering op ∨ p = .woken op := by
  cases p with
  | entering op' =>
      exact Or.inl (congrArg _ (Option.some.inj h))
  | woken op' =>
      exact Or.inr (congrArg _ (Option.some.inj h))
  | _ =>
      cases h

@[simp] theorem Conf.goto_phase_self (c : Conf σ Op R T) (t : T) (p : Phase Op R) :
    (c.goto t p).phase t = p := by
  simp [Conf.goto]

theorem Conf.goto_phase_of_ne (c : Conf σ Op R T) {t u : T} (p : Phase Op R) (h : u ≠ t) :
    (c.goto t p).phase u = c.phase u := by
  simp [Conf.goto, h]

@[simp] theorem Conf.goto_state (c : Conf σ Op R T) (t : T) (p : Phase Op R) :
    (c.goto t p).state = c.state := rfl

@[simp] theorem Conf.goto_holder (c : Conf σ Op R T) (t : T) (p : Phase Op R) :
    (c.goto t p).holder = c.holder := rfl

@[simp] theorem Conf.goto_effects (c : Conf σ Op R T) (t : T) (p : Phase Op R) :
    (c.goto t p).effects = c.effects := rfl

theorem move_call (h : A.move c (.call t op) = .ok (c', out)) :
    c.phase t = .idle ∧ c' = c.goto t (.entering op) ∧ out = none := by
  simp only [move] at h
  split at h
  · rename_i hphase
    cases h
    exact ⟨hphase, rfl, rfl⟩
  · cases h

theorem move_lock (h : A.move c (.lock t) = .ok (c', out)) :
    ∃ op, (c.phase t).wants = some op ∧ c.holder = none ∧
      c' = { c.goto t (.testing op) with holder := some t } ∧ out = none := by
  simp only [move] at h
  split at h
  · rename_i op hwants hfree
    cases h
    exact ⟨op, hwants, hfree, rfl, rfl⟩
  · cases h

theorem move_test (h : A.move c (.test t) = .ok (c', out)) :
    ∃ op, c.phase t = .testing op ∧
      c' = c.goto t (if A.ready op c.state then .passed op else .failed op) ∧ out = none := by
  simp only [move] at h
  split at h
  · rename_i op hphase
    cases h
    exact ⟨op, hphase, rfl, rfl⟩
  · cases h

theorem move_sleep (h : A.move c (.sleep t) = .ok (c', out)) :
    ∃ op, c.phase t = .failed op ∧ c' = { c.goto t (.asleep op) with holder := none } ∧
      out = none := by
  simp only [move] at h
  split at h
  · rename_i op hphase
    cases h
    exact ⟨op, hphase, rfl, rfl⟩
  · cases h

theorem move_wakeUp (h : A.move c (.wakeUp t) = .ok (c', out)) :
    ∃ op, c.phase t = .asleep op ∧ c' = c.goto t (.woken op) ∧ out = none := by
  simp only [move] at h
  split at h
  · rename_i op hphase
    cases h
    exact ⟨op, hphase, rfl, rfl⟩
  · cases h

theorem move_act (h : A.move c (.act t) = .ok (c', out)) :
    ∃ op s r, c.phase t = .passed op ∧ A.act op c.state = some (s, r) ∧
      c' = { c.goto t (.acted op r) with
              state := s
              effects := c.effects ++ [{ thread := t, op := op, result := r }] } ∧ out = none := by
  simp only [move] at h
  split at h
  · rename_i op hphase
    split at h
    · cases h
    · rename_i s r hact
      cases h
      exact ⟨op, s, r, hphase, hact, rfl, rfl⟩
  · cases h

theorem move_notify (h : A.move c (.notify t) = .ok (c', out)) :
    ∃ op r, c.phase t = .acted op r ∧ A.notifies op = true ∧
      c' = { c with
              phase := Function.update (fun u => (c.phase u).wake) t (.notified op r) } ∧
      out = none := by
  simp only [move] at h
  split at h
  · rename_i op r hphase
    split at h
    · rename_i hnotifies
      cases h
      exact ⟨op, r, hphase, hnotifies, rfl, rfl⟩
    · cases h
  · cases h

theorem move_unlock (h : A.move c (.unlock t) = .ok (c', out)) :
    ∃ op r, ((c.phase t = .acted op r ∧ A.notifies op = false) ∨ c.phase t = .notified op r) ∧
      c' = { c.goto t .idle with holder := none } ∧
      out = some { thread := t, op := op, result := r } := by
  simp only [move] at h
  split at h
  · rename_i op r hphase
    split at h
    · cases h
    · rename_i hnotifies
      cases h
      exact ⟨op, r, Or.inl ⟨hphase, by simpa using hnotifies⟩, rfl, rfl⟩
  · rename_i op r hphase
    cases h
    exact ⟨op, r, Or.inr hphase, rfl, rfl⟩
  · cases h

/-- Only an act changes the state or adds to the history. -/
theorem move_effects (h : A.move c m = .ok (c', out)) :
    (c'.state = c.state ∧ c'.effects = c.effects) ∨
      ∃ t op r, m = .act t ∧ c.phase t = .passed op ∧ A.act op c.state = some (c'.state, r) ∧
        c'.effects = c.effects ++ [{ thread := t, op := op, result := r }] ∧
        (c'.phase t).pending = none := by
  cases m with
  | call t op =>
      rcases move_call h with ⟨_, rfl, rfl⟩
      exact Or.inl ⟨rfl, rfl⟩
  | lock t =>
      rcases move_lock h with ⟨op, _, _, rfl, rfl⟩
      exact Or.inl ⟨rfl, rfl⟩
  | test t =>
      rcases move_test h with ⟨op, _, rfl, rfl⟩
      exact Or.inl ⟨rfl, rfl⟩
  | sleep t =>
      rcases move_sleep h with ⟨op, _, rfl, rfl⟩
      exact Or.inl ⟨rfl, rfl⟩
  | wakeUp t =>
      rcases move_wakeUp h with ⟨op, _, rfl, rfl⟩
      exact Or.inl ⟨rfl, rfl⟩
  | act t =>
      rcases move_act h with ⟨op, s, r, hphase, hact, rfl, rfl⟩
      exact Or.inr ⟨t, op, r, rfl, hphase, hact, rfl, by simp [Conf.goto, Phase.pending]⟩
  | notify t =>
      rcases move_notify h with ⟨op, r, _, _, rfl, rfl⟩
      exact Or.inl ⟨rfl, rfl⟩
  | unlock t =>
      rcases move_unlock h with ⟨op, r, _, rfl, rfl⟩
      exact Or.inl ⟨rfl, rfl⟩

/-- A thread that has moved goes on with the operation that it had called, or it has just called
this one. -/
theorem pending_goto {p : Phase Op R} {u : T}
    (hp : p.pending = none ∨ p.pending = (c.phase t).pending) (hu : ((c.goto t p).phase u).pending = some op) :
    (c.phase u).pending = some op := by
  -- only the thread that moves changes its phase
  by_cases hut : u = t
  · subst hut
    rw [Conf.goto_phase_self] at hu
    rcases hp with hnone | hsame
    · rw [hnone] at hu
      cases hu
    · exact hsame ▸ hu
  · rw [Conf.goto_phase_of_ne c p hut] at hu
    exact hu

omit [DecidableEq T] in
theorem Phase.pending_wake (p : Phase Op R) : p.wake.pending = p.pending := by
  cases p <;> rfl

omit [DecidableEq T] in
theorem Phase.pending_of_wants {p : Phase Op R} (h : p.wants = some op) : p.pending = some op := by
  rcases Phase.wants_cases h with rfl | rfl
  · rfl
  · rfl

theorem move_pending (h : A.move c m = .ok (c', out)) {u : T}
    (hu : (c'.phase u).pending = some op) :
    (c.phase u).pending = some op ∨ m = .call u op := by
  cases m with
  | call t op' =>
      rcases move_call h with ⟨_, rfl, rfl⟩
      -- the caller has just called, the others are where they were
      by_cases hut : u = t
      · subst hut
        rw [Conf.goto_phase_self] at hu
        exact Or.inr (congrArg _ (Option.some.inj hu))
      · rw [Conf.goto_phase_of_ne c _ hut] at hu
        exact Or.inl hu
  | lock t =>
      rcases move_lock h with ⟨op', hwants, _, rfl, rfl⟩
      -- from here on the operation stays the same until it has acted
      have hsame : (Phase.testing op' : Phase Op R).pending = (c.phase t).pending :=
        (Phase.pending_of_wants hwants).symm
      exact Or.inl (pending_goto (Or.inr hsame) hu)
  | test t =>
      rcases move_test h with ⟨op', hphase, rfl, rfl⟩
      refine Or.inl (pending_goto (Or.inr ?_) hu)
      rw [hphase]
      split <;> rfl
  | sleep t =>
      rcases move_sleep h with ⟨op', hphase, rfl, rfl⟩
      exact Or.inl (pending_goto (Or.inr (by rw [hphase]; rfl)) hu)
  | wakeUp t =>
      rcases move_wakeUp h with ⟨op', hphase, rfl, rfl⟩
      exact Or.inl (pending_goto (Or.inr (by rw [hphase]; rfl)) hu)
  | act t =>
      rcases move_act h with ⟨op', s, r, _, _, rfl, rfl⟩
      exact Or.inl (pending_goto (Or.inl rfl) hu)
  | notify t =>
      rcases move_notify h with ⟨op', r, hphase, _, rfl, rfl⟩
      by_cases hut : u = t
      · subst hut
        simp [Phase.pending] at hu
      · simp only [Function.update_of_ne hut, Phase.pending_wake] at hu
        exact Or.inl hu
  | unlock t =>
      rcases move_unlock h with ⟨op', r, _, rfl, rfl⟩
      exact Or.inl (pending_goto (Or.inl rfl) hu)

end Steps

/-! ## The mutex -/

/-- The thread that holds the mutex is the one that stands in a phase in which it holds it. -/
def Exclusive (c : Conf σ Op R T) : Prop :=
  ∀ t, (c.phase t).locked = true ↔ c.holder = some t

section Mutex

variable {A} {c c' : Conf σ Op R T} {t u : T} {p : Phase Op R}

theorem Exclusive.goto (h : Exclusive c) (hp : p.locked = (c.phase t).locked) :
    Exclusive (c.goto t p) := by
  intro u
  by_cases hut : u = t
  · subst hut
    rw [Conf.goto_phase_self, hp]
    exact h u
  · rw [Conf.goto_phase_of_ne c p hut]
    exact h u

theorem Exclusive.lock (h : Exclusive c) (hfree : c.holder = none) (hp : p.locked = true) :
    Exclusive { c.goto t p with holder := some t } := by
  intro u
  by_cases hut : u = t
  · subst hut
    simp [Conf.goto, hp]
  -- while the mutex is free no thread stands in a locked phase
  · have hfreeu : (c.phase u).locked = false := by
      have hu := h u
      simpa [hfree] using hu
    simp [Conf.goto, hut, hfreeu, Ne.symm hut]

omit [DecidableEq T] in
/-- Where one thread holds the mutex no other one does. -/
theorem Exclusive.not_locked (h : Exclusive c) (ht : (c.phase t).locked = true) (hut : u ≠ t) :
    (c.phase u).locked = false := by
  have hholder := (h t).1 ht
  have hu := h u
  rw [hholder] at hu
  simpa [Ne.symm hut] using hu

theorem Exclusive.unlock (h : Exclusive c) (ht : (c.phase t).locked = true)
    (hp : p.locked = false) : Exclusive { c.goto t p with holder := none } := by
  intro u
  by_cases hut : u = t
  · subst hut
    simp [Conf.goto, hp]
  · simp [Conf.goto, hut, h.not_locked ht hut]

omit [DecidableEq T] in
theorem Phase.locked_wake (p : Phase Op R) : p.wake.locked = p.locked := by
  cases p <;> rfl

theorem Exclusive.notify (h : Exclusive c) (hp : p.locked = (c.phase t).locked) :
    Exclusive { c with phase := Function.update (fun u => (c.phase u).wake) t p } := by
  intro u
  by_cases hut : u = t
  · subst hut
    simp only [Function.update_self, hp]
    exact h u
  · simp only [Function.update_of_ne hut, Phase.locked_wake]
    exact h u

omit [DecidableEq T] in
theorem exclusive_start (s : σ) : Exclusive (start s : Conf σ Op R T) := by
  intro t
  simp [start, Phase.locked]

theorem Exclusive.move {m : Move Op T} {out : Option (Effect Op R T)} (h : Exclusive c)
    (hm : A.move c m = .ok (c', out)) : Exclusive c' := by
  cases m with
  | call t op =>
      rcases move_call hm with ⟨hphase, rfl, _⟩
      exact h.goto (by rw [hphase]; rfl)
  | lock t =>
      rcases move_lock hm with ⟨op, _, hfree, rfl, _⟩
      exact h.lock hfree rfl
  | test t =>
      rcases move_test hm with ⟨op, hphase, rfl, _⟩
      refine h.goto ?_
      rw [hphase]
      split <;> rfl
  | sleep t =>
      rcases move_sleep hm with ⟨op, hphase, rfl, _⟩
      exact h.unlock (by rw [hphase]; rfl) rfl
  | wakeUp t =>
      rcases move_wakeUp hm with ⟨op, hphase, rfl, _⟩
      exact h.goto (by rw [hphase]; rfl)
  | act t =>
      rcases move_act hm with ⟨op, s, r, hphase, _, rfl, _⟩
      exact h.goto (by rw [hphase]; rfl)
  | notify t =>
      rcases move_notify hm with ⟨op, r, hphase, _, rfl, _⟩
      exact h.notify (by rw [hphase]; rfl)
  | unlock t =>
      rcases move_unlock hm with ⟨op, r, ⟨hphase, _⟩ | hphase, rfl, _⟩
      · exact h.unlock (by rw [hphase]; rfl) rfl
      · exact h.unlock (by rw [hphase]; rfl) rfl

end Mutex

/-! ## Waiting -/

/-- An act that makes an operation ready notifies. -/
def Wakes (A : MonitorOps σ Op R) : Prop :=
  ∀ op s s' r op', A.act op s = some (s', r) → A.ready op' s = false → A.ready op' s' = true →
    A.notifies op = true

/-- A thread has acted and is about to notify. -/
def Notifying (c : Conf σ Op R T) : Prop :=
  ∃ u op r, c.phase u = .acted op r ∧ A.notifies op = true

/-- What holds at every point: the test of a thread that holds the mutex is still right, and who
sleeps without a reason will be woken. -/
structure Inv (c : Conf σ Op R T) : Prop where
  exclusive : Exclusive c
  passed : ∀ t op, c.phase t = .passed op → A.ready op c.state = true
  failed : ∀ t op, c.phase t = .failed op → A.ready op c.state = false
  waiting : ∀ t op, c.phase t = .asleep op → A.ready op c.state = true → A.Notifying c

omit [DecidableEq T] in
theorem inv_start (s : σ) : A.Inv (start s : Conf σ Op R T) := by
  refine ⟨exclusive_start s, ?_, ?_, ?_⟩
  · intro t op h
    cases h
  · intro t op h
    cases h
  · intro t op h
    cases h

section Waiting

variable {A} {c c' : Conf σ Op R T} {m : Move Op T} {out : Option (Effect Op R T)} {t : T}

/-- A thread moves to another phase, and takes or gives back the mutex; the state stays. -/
theorem Inv.goto (h : A.Inv c) {p : Phase Op R} {holder : Option T}
    (hexclusive : Exclusive { c.goto t p with holder := holder })
    (hacted : ∀ op r, c.phase t = .acted op r → A.notifies op = false)
    (hpassed : ∀ op, p = .passed op → A.ready op c.state = true)
    (hfailed : ∀ op, p = .failed op ∨ p = .asleep op → A.ready op c.state = false) :
    A.Inv { c.goto t p with holder := holder } := by
  refine ⟨hexclusive, ?_, ?_, ?_⟩
  · intro u op hu
    by_cases hut : u = t
    · subst hut
      exact hpassed op (by simpa [Conf.goto] using hu)
    · exact h.passed u op (by simpa [Conf.goto, hut] using hu)
  · intro u op hu
    by_cases hut : u = t
    · subst hut
      exact hfailed op (Or.inl (by simpa [Conf.goto] using hu))
    · exact h.failed u op (by simpa [Conf.goto, hut] using hu)
  · intro u op hu hready
    by_cases hut : u = t
    · subst hut
      -- the thread has just gone to sleep because the test failed
      have hnot := hfailed op (Or.inr (by simpa [Conf.goto] using hu))
      exact absurd hready (by simpa using hnot)
    · have hold : c.phase u = .asleep op := by
        simpa [Conf.goto, hut] using hu
      rcases h.waiting u op hold hready with ⟨v, op', r, hv, hnotifies⟩
      -- the thread that moves is not the one that is about to notify
      have hvt : v ≠ t := by
        rintro rfl
        rw [hacted op' r hv] at hnotifies
        cases hnotifies
      exact ⟨v, op', r, by simpa [Conf.goto, hvt] using hv, hnotifies⟩

/-- A thread moves to a phase in which nothing has been tested. -/
theorem Inv.goto_untested (h : A.Inv c) {p : Phase Op R} {holder : Option T}
    (hexclusive : Exclusive { c.goto t p with holder := holder })
    (hacted : ∀ op r, c.phase t = .acted op r → A.notifies op = false)
    (hp : ∀ op, p ≠ .passed op ∧ p ≠ .failed op ∧ p ≠ .asleep op) :
    A.Inv { c.goto t p with holder := holder } := by
  refine h.goto hexclusive hacted ?_ ?_
  · intro op hpassed
    exact absurd hpassed (hp op).1
  · rintro op (hfailed | hasleep)
    · exact absurd hfailed (hp op).2.1
    · exact absurd hasleep (hp op).2.2

omit [DecidableEq T] in
/-- Who holds the mutex finds no other thread with a test behind it. -/
theorem Exclusive.not_tested (h : Exclusive c) {u : T} {op : Op}
    (hlocked : (c.phase t).locked = true) (hu : u ≠ t) :
    c.phase u ≠ .passed op ∧ c.phase u ≠ .failed op ∧ ∀ r, c.phase u ≠ .acted op r := by
  have hnot := h.not_locked hlocked hu
  refine ⟨?_, ?_, ?_⟩
  · intro hpassed
    rw [hpassed] at hnot
    cases hnot
  · intro hfailed
    rw [hfailed] at hnot
    cases hnot
  · intro r hacted
    rw [hacted] at hnot
    cases hnot

theorem Inv.act (h : A.Inv c) (hwakes : A.Wakes) {op : Op} {s : σ} {r : R}
    {effects : List (Effect Op R T)} (hphase : c.phase t = .passed op)
    (hact : A.act op c.state = some (s, r)) :
    A.Inv { c.goto t (.acted op r) with
      state := s
      effects := effects } := by
  have hlocked : (c.phase t).locked = true := by
    rw [hphase]
    rfl
  refine ⟨h.exclusive.goto (by rw [hphase]; rfl), ?_, ?_, ?_⟩
  · intro u op' hu
    by_cases hut : u = t
    · subst hut
      simp [Conf.goto] at hu
    · simp only [Conf.goto, Function.update_of_ne hut] at hu
      -- the mutex is taken, so no other thread has a test behind it
      exact absurd hu (h.exclusive.not_tested hlocked hut).1
  · intro u op' hu
    by_cases hut : u = t
    · subst hut
      simp [Conf.goto] at hu
    · simp only [Conf.goto, Function.update_of_ne hut] at hu
      exact absurd hu (h.exclusive.not_tested hlocked hut).2.1
  · intro u op' hu hready
    have hut : u ≠ t := by
      rintro rfl
      simp [Conf.goto] at hu
    have hold : c.phase u = .asleep op' := by
      simpa [Conf.goto, hut] using hu
    -- nobody else was about to notify, so the operation was not ready before
    have hbefore : A.ready op' c.state = false := by
      by_contra hcontra
      rcases h.waiting u op' hold (by simpa using hcontra) with ⟨v, op₂, r₂, hv, _⟩
      by_cases hvt : v = t
      · subst hvt
        rw [hphase] at hv
        cases hv
      · exact (h.exclusive.not_tested hlocked hvt).2.2 r₂ hv
    exact ⟨t, op, r, by simp [Conf.goto], hwakes op c.state s r op' hact hbefore hready⟩

omit [DecidableEq T] in
theorem Phase.of_wake {p q : Phase Op R} (h : p.wake = q) (hq : ∀ op, q ≠ .woken op) :
    p = q ∧ ∀ op, q ≠ .asleep op := by
  cases p with
  | asleep op =>
      exact absurd h.symm (hq op)
  | _ =>
      subst h
      simp [Phase.wake]

/-- After `notify_all` nobody sleeps. -/
theorem Inv.notify (h : A.Inv c) {op : Op} {r : R} (hphase : c.phase t = .acted op r) :
    A.Inv { c with phase := Function.update (fun u => (c.phase u).wake) t (.notified op r) } := by
  -- whoever is not woken by this is in the phase it was in, and not asleep
  have hbefore : ∀ u p, Function.update (fun u => (c.phase u).wake) t (.notified op r) u = p →
      p ≠ .notified op r → (∀ op', p ≠ .woken op') → c.phase u = p ∧ ∀ op', p ≠ .asleep op' := by
    intro u p hu hnotified hwoken
    by_cases hut : u = t
    · subst hut
      rw [Function.update_self] at hu
      exact absurd hu.symm hnotified
    · rw [Function.update_of_ne hut] at hu
      exact Phase.of_wake hu hwoken
  refine ⟨h.exclusive.notify (by rw [hphase]; rfl), ?_, ?_, ?_⟩
  · intro u op' hu
    exact h.passed u op' (hbefore u _ hu (by simp) (by simp)).1
  · intro u op' hu
    exact h.failed u op' (hbefore u _ hu (by simp) (by simp)).1
  · intro u op' hu
    exact absurd rfl ((hbefore u _ hu (by simp) (by simp)).2 op')

theorem Inv.move (h : A.Inv c) (hwakes : A.Wakes) (hm : A.move c m = .ok (c', out)) :
    A.Inv c' := by
  have hexclusive := h.exclusive.move hm
  cases m with
  | call t op =>
      rcases move_call hm with ⟨hphase, rfl, rfl⟩
      exact h.goto_untested hexclusive (by simp [hphase]) (by simp)
  | lock t =>
      rcases move_lock hm with ⟨op, hwants, hfree, rfl, rfl⟩
      refine h.goto_untested hexclusive ?_ (by simp)
      intro op' r hacted
      rw [hacted] at hwants
      cases hwants
  | test t =>
      rcases move_test hm with ⟨op, hphase, rfl, rfl⟩
      -- the phase that the thread goes to says how the test has ended
      refine h.goto hexclusive (by simp [hphase]) ?_ ?_
      · intro op' hp
        split at hp
        · cases hp
          assumption
        · cases hp
      · intro op' hp
        split at hp
        · simp at hp
        · rename_i hready
          have hop : op = op' := by
            simpa using hp
          subst hop
          simpa using hready
  | sleep t =>
      rcases move_sleep hm with ⟨op, hphase, rfl, rfl⟩
      refine h.goto hexclusive (by simp [hphase]) (by simp) ?_
      intro op' hp
      have hop : op = op' := by
        simpa using hp
      subst hop
      exact h.failed t op hphase
  | wakeUp t =>
      rcases move_wakeUp hm with ⟨op, hphase, rfl, rfl⟩
      exact h.goto_untested hexclusive (by simp [hphase]) (by simp)
  | act t =>
      rcases move_act hm with ⟨op, s, r, hphase, hact, rfl, rfl⟩
      exact h.act hwakes hphase hact
  | notify t =>
      rcases move_notify hm with ⟨op, r, hphase, _, rfl, rfl⟩
      exact h.notify hphase
  | unlock t =>
      rcases move_unlock hm with ⟨op, r, hphase, rfl, rfl⟩
      refine h.goto_untested hexclusive ?_ (by simp)
      intro op' r' hacted
      -- an operation that notifies has done so before it gives the mutex back
      rcases hphase with ⟨hacted', hnot⟩ | hnotified
      · rw [hacted'] at hacted
        cases hacted
        exact hnot
      · rw [hnotified] at hacted
        cases hacted

end Waiting

/-! ## The history -/

/-- The effect of an operation that has acted and has not returned. -/
def Phase.effect (t : T) : Phase Op R → List (Effect Op R T)
  | .acted op r => [{ thread := t, op := op, result := r }]
  | .notified op r => [{ thread := t, op := op, result := r }]
  | _ => []

/-- The last effect, if its thread still holds the mutex. -/
def Conf.inFlight (c : Conf σ Op R T) : List (Effect Op R T) :=
  match c.holder with
  | none => []
  | some t => (c.phase t).effect t

section History

variable {A} {c c' : Conf σ Op R T} {m : Move Op T} {out : Option (Effect Op R T)} {t : T}

omit [DecidableEq T] in
theorem Exclusive.inFlight (h : Exclusive c) {p : Phase Op R} (hphase : c.phase t = p)
    (hp : p.locked = true) : c.holder = some t ∧ c.inFlight = p.effect t := by
  have hholder : c.holder = some t := (h t).1 (hphase ▸ hp)
  exact ⟨hholder, by simp [Conf.inFlight, hholder, hphase]⟩

theorem inFlight_goto (h : Exclusive c) {p : Phase Op R} (ht : (c.phase t).locked = false) :
    (c.goto t p).inFlight = c.inFlight := by
  cases hholder : c.holder with
  | none =>
      simp [Conf.inFlight, hholder]
  | some u =>
      -- the thread that moves does not hold the mutex
      have hut : u ≠ t := by
        rintro rfl
        have hlocked := (h u).2 hholder
        rw [ht] at hlocked
        cases hlocked
      simp [Conf.inFlight, hholder, Conf.goto_phase_of_ne c p hut]

/-- Operations return in the order in which they act. -/
theorem move_history (h : Exclusive c) (hm : A.move c m = .ok (c', out))
    {returned : List (Effect Op R T)} (hc : c.effects = returned ++ c.inFlight) :
    c'.effects = returned ++ out.toList ++ c'.inFlight := by
  cases m with
  | call t op =>
      rcases move_call hm with ⟨hphase, rfl, rfl⟩
      rw [inFlight_goto h (by rw [hphase]; rfl)]
      simpa using hc
  | lock t =>
      rcases move_lock hm with ⟨op, _, hfree, rfl, rfl⟩
      simpa [Conf.inFlight, hfree, Phase.effect] using hc
  | test t =>
      rcases move_test hm with ⟨op, hphase, rfl, rfl⟩
      rcases h.inFlight hphase rfl with ⟨hholder, hbefore⟩
      rw [hbefore] at hc
      split
      · simpa [Conf.inFlight, hholder, Phase.effect] using hc
      · simpa [Conf.inFlight, hholder, Phase.effect] using hc
  | sleep t =>
      rcases move_sleep hm with ⟨op, hphase, rfl, rfl⟩
      rw [(h.inFlight hphase rfl).2] at hc
      simpa [Conf.inFlight, Phase.effect] using hc
  | wakeUp t =>
      rcases move_wakeUp hm with ⟨op, hphase, rfl, rfl⟩
      rw [inFlight_goto h (by rw [hphase]; rfl)]
      simpa using hc
  | act t =>
      rcases move_act hm with ⟨op, s, r, hphase, _, rfl, rfl⟩
      rcases h.inFlight hphase rfl with ⟨hholder, hbefore⟩
      rw [hbefore] at hc
      -- the new effect is the one in flight
      simpa [Conf.inFlight, hholder, Phase.effect, Conf.goto] using hc
  | notify t =>
      rcases move_notify hm with ⟨op, r, hphase, _, rfl, rfl⟩
      rcases h.inFlight hphase rfl with ⟨hholder, hbefore⟩
      rw [hbefore] at hc
      simpa [Conf.inFlight, hholder, Phase.effect] using hc
  | unlock t =>
      rcases move_unlock hm with ⟨op, r, ⟨hphase, _⟩ | hphase, rfl, rfl⟩
      -- what is in flight returns with the mutex
      · rw [(h.inFlight hphase rfl).2] at hc
        simpa [Conf.inFlight, Phase.effect] using hc
      · rw [(h.inFlight hphase rfl).2] at hc
        simpa [Conf.inFlight, Phase.effect] using hc

end History

/-! ## Runs -/

section Runs

variable {A} {s : σ} {ms : List (Move Op T)} {c c' : Conf σ Op R T}
  {outs : List (Option (Effect Op R T))}

theorem inv_of_run (hwakes : A.Wakes) (hrun : run A.move (start s) ms = .ok (c, outs)) :
    A.Inv c := by
  refine run_invariant (I := A.Inv) ?_ (A.inv_start s) hrun
  intro c c' m out hinv hm
  exact hinv.move hwakes hm

/-- No wakeup is lost: when an operation is ready for which a thread sleeps, the mutex is held by a
thread that is about to notify, and so wakes it. -/
theorem asleep_pending (hwakes : A.Wakes) (hrun : run A.move (start s) ms = .ok (c, outs)) {t : T}
    {op : Op} (hasleep : c.phase t = .asleep op) (hready : A.ready op c.state = true) :
    ∃ u op' r c', c.holder = some u ∧ c.phase u = .acted op' r ∧ A.notifies op' = true ∧
      A.move c (.notify u) = .ok (c', none) ∧ c'.phase t = .woken op := by
  have hinv := inv_of_run hwakes hrun
  rcases hinv.waiting t op hasleep hready with ⟨u, op', r, hu, hnotifies⟩
  have hholder : c.holder = some u := (hinv.exclusive u).1 (by rw [hu]; rfl)
  -- a thread that sleeps is not about to notify
  have htu : t ≠ u := by
    rintro rfl
    rw [hu] at hasleep
    cases hasleep
  let c' : Conf σ Op R T :=
    { c with phase := Function.update (fun v => (c.phase v).wake) u (.notified op' r) }
  refine ⟨u, op', r, c', hholder, hu, hnotifies, by simp [MonitorOps.move, hu, hnotifies, c'], ?_⟩
  simp [c', htu, hasleep, Phase.wake]

/-- Only an operation that is ready acts, so none has an undefined effect. -/
theorem run_ne_undefined (hwakes : A.Wakes)
    (hdefined : ∀ op s, A.ready op s = true → (A.act op s).isSome = true) :
    run A.move (start s : Conf σ Op R T) ms ≠ .error .undefined := by
  intro hrun
  rcases run_error_iff.1 hrun with ⟨pre, m, post, c, outs, _, hpre, hm⟩
  have hinv := inv_of_run hwakes hpre
  cases m with
  | act t =>
      simp only [MonitorOps.move] at hm
      split at hm
      · rename_i op hphase
        -- what has passed its test is still ready
        have hsome := hdefined op c.state (hinv.passed t op hphase)
        split at hm
        · rename_i hact
          simp [hact] at hsome
        · cases hm
      · cases hm
  | _ =>
      simp only [MonitorOps.move] at hm
      repeat' split at hm
      all_goals cases hm

/-- The operations that have returned are, in this order, those that have acted, but for one that
still holds the mutex. -/
theorem returned_prefix (hrun : run A.move (start s) ms = .ok (c, outs)) :
    outs.flatMap Option.toList <+: c.effects := by
  let P : Conf σ Op R T → List (Move Op T) → List (Option (Effect Op R T)) → Prop :=
    fun c _ outs => Exclusive c ∧ c.effects = outs.flatMap Option.toList ++ c.inFlight
  have hP : P c ms outs := by
    refine run_history (P := P) ⟨exclusive_start s, rfl⟩ ?_ hrun
    intro ms m t outs e out _ hm hstep
    refine ⟨hm.1.move hstep, ?_⟩
    simpa using move_history hm.1 hstep hm.2
  exact ⟨c.inFlight, hP.2.symm⟩

end Runs

end MonitorOps

end Lib
