import Mathlib.Logic.Basic
import Mathlib.Data.List.Basic
import Mathlib.Data.List.Induction
import Mathlib.Tactic.TypeStar

/-!
# Run — event-driven step functions and their finite runs

A system is a step function `step : σ → ε → Except φ (σ × α)`: an event either *faults*
(the behaviour of the program is undefined from there on) or moves the state and emits an
output.  This module runs such a function over a list of events and collects one output for
each event, and gives the rules the developments above use:

* splitting a run at any point (`run_cons_ok_iff`, `run_append_ok_iff`, `run_error_iff`);
* the invariant rule and its version over the whole history (`run_invariant`,
  `run_history`);
* lockstep simulation between two step functions (`run_lockstep`), and the projection of a run to
  some of its events (`run_project`), also when only a condition on its steps allows it
  (`Along`, `run_project_along`).
-/

namespace Lib

variable {σ τ ε α φ : Type*}

/-! ## Runs -/

/-- Feed the events to `step` one after the other, stopping at the first fault. -/
def run (step : σ → ε → Except φ (σ × α)) : σ → List ε → Except φ (σ × List α)
  | s, [] => .ok (s, [])
  | s, e :: es =>
      match step s e with
      | .error f => .error f
      | .ok (s', a) =>
          match run step s' es with
          | .error f => .error f
          | .ok (t, as) => .ok (t, a :: as)

variable {step : σ → ε → Except φ (σ × α)}

@[simp] theorem run_nil (s : σ) : run step s [] = .ok (s, []) := rfl

theorem run_cons_of_ok {s s' : σ} {e : ε} {a : α} (h : step s e = .ok (s', a)) (es : List ε) :
    run step s (e :: es) =
      match run step s' es with
      | .error f => .error f
      | .ok (t, as) => .ok (t, a :: as) := by
  simp [run, h]

theorem run_cons_of_error {s : σ} {e : ε} {f : φ} (h : step s e = .error f) (es : List ε) :
    run step s (e :: es) = .error f := by
  simp [run, h]

theorem run_cons_ok_iff {s t : σ} {e : ε} {es : List ε} {as : List α} :
    run step s (e :: es) = .ok (t, as) ↔
      ∃ s' a as', step s e = .ok (s', a) ∧ run step s' es = .ok (t, as') ∧ as = a :: as' := by
  constructor
  · intro h
    cases hs : step s e with
    | error f =>
        simp [run_cons_of_error hs] at h
    | ok r =>
        rcases r with ⟨s', a⟩
        rw [run_cons_of_ok hs] at h
        cases hr : run step s' es with
        | error f =>
            simp [hr] at h
        | ok q =>
            rcases q with ⟨t', as'⟩
            simp only [hr, Except.ok.injEq, Prod.mk.injEq] at h
            rcases h with ⟨rfl, rfl⟩
            exact ⟨s', a, as', rfl, hr, rfl⟩
  · rintro ⟨s', a, as', hs, hr, rfl⟩
    rw [run_cons_of_ok hs, hr]

@[simp] theorem run_singleton_ok_iff {s t : σ} {e : ε} {as : List α} :
    run step s [e] = .ok (t, as) ↔ ∃ a, step s e = .ok (t, a) ∧ as = [a] := by
  rw [run_cons_ok_iff]
  constructor
  · rintro ⟨s', a, as', hs, hr, rfl⟩
    simp only [run_nil, Except.ok.injEq, Prod.mk.injEq] at hr
    rcases hr with ⟨rfl, rfl⟩
    exact ⟨a, hs, rfl⟩
  · rintro ⟨a, hs, rfl⟩
    exact ⟨t, a, [], hs, rfl, rfl⟩

/-- A run over `es ++ fs` is a run over `es` followed by one over `fs`. -/
theorem run_append_ok_iff {s t : σ} {es fs : List ε} {as : List α} :
    run step s (es ++ fs) = .ok (t, as) ↔
      ∃ m bs cs, run step s es = .ok (m, bs) ∧ run step m fs = .ok (t, cs) ∧ as = bs ++ cs := by
  induction es generalizing s as with
  | nil =>
      simp
  | cons e es ih =>
      rw [List.cons_append, run_cons_ok_iff]
      constructor
      · rintro ⟨s', a, as', hs, hr, rfl⟩
        rcases ih.1 hr with ⟨m, bs, cs, hm, ht, rfl⟩
        exact ⟨m, a :: bs, cs, run_cons_ok_iff.2 ⟨s', a, bs, hs, hm, rfl⟩, ht, rfl⟩
      · rintro ⟨m, bs, cs, hm, ht, rfl⟩
        rcases run_cons_ok_iff.1 hm with ⟨s', a, bs', hs, hr, rfl⟩
        exact ⟨s', a, bs' ++ cs, hs, ih.2 ⟨m, bs', cs, hr, ht, rfl⟩, rfl⟩

/-- The last step of a run over `es ++ [e]`. -/
theorem run_concat_ok_iff {s t : σ} {es : List ε} {e : ε} {as : List α} :
    run step s (es ++ [e]) = .ok (t, as) ↔
      ∃ m bs a, run step s es = .ok (m, bs) ∧ step m e = .ok (t, a) ∧ as = bs ++ [a] := by
  rw [run_append_ok_iff]
  constructor
  · rintro ⟨m, bs, cs, hm, ht, rfl⟩
    rcases run_singleton_ok_iff.1 ht with ⟨a, ha, rfl⟩
    exact ⟨m, bs, a, hm, ha, rfl⟩
  · rintro ⟨m, bs, a, hm, ha, rfl⟩
    exact ⟨m, bs, [a], hm, run_singleton_ok_iff.2 ⟨a, ha, rfl⟩, rfl⟩

theorem run_cons_error_iff {s : σ} {e : ε} {es : List ε} {f : φ} :
    run step s (e :: es) = .error f ↔
      step s e = .error f ∨ ∃ s' a, step s e = .ok (s', a) ∧ run step s' es = .error f := by
  cases hs : step s e with
  | error g =>
      simp [run_cons_of_error hs]
  | ok r =>
      rcases r with ⟨s', a⟩
      -- past the first step the fault is one of the rest
      rw [run_cons_of_ok hs]
      cases hr : run step s' es with
      | error g => simp [hr]
      | ok q => simp [hr]

/-- A run faults exactly when some step of it, reached without a fault, does. -/
theorem run_error_iff {s : σ} {es : List ε} {f : φ} :
    run step s es = .error f ↔
      ∃ pre e post m as,
        es = pre ++ e :: post ∧ run step s pre = .ok (m, as) ∧ step m e = .error f := by
  induction es generalizing s with
  | nil =>
      simp
  | cons e es ih =>
      rw [run_cons_error_iff]
      constructor
      · rintro (hs | ⟨s', a, hs, hr⟩)
        · exact ⟨[], e, es, s, [], rfl, rfl, hs⟩
        · rcases ih.1 hr with ⟨pre, e', post, m, as, rfl, hrun, hstep⟩
          exact ⟨e :: pre, e', post, m, a :: as, rfl,
            run_cons_ok_iff.2 ⟨s', a, as, hs, hrun, rfl⟩, hstep⟩
      · rintro ⟨pre, e', post, m, as, hes, hrun, hstep⟩
        cases pre with
        | nil =>
            cases hes
            cases hrun
            exact Or.inl hstep
        | cons x pre =>
            cases hes
            rcases run_cons_ok_iff.1 hrun with ⟨s', a, as', hs, hr, rfl⟩
            exact Or.inr ⟨s', a, hs, ih.2 ⟨pre, e', post, m, as', rfl, hr, hstep⟩⟩

/-! ### Results seen through a function -/

theorem ok_of_map {β : Type*} {x : Except φ α} {f : α → β} {b : β} (h : x.map f = .ok b) :
    ∃ a, x = .ok a ∧ f a = b := by
  cases x with
  | error e =>
      cases h
  | ok a =>
      exact ⟨a, rfl, Except.ok.inj h⟩

theorem error_of_map {β : Type*} {x : Except φ α} {f : α → β} {e : φ} (h : x.map f = .error e) :
    x = .error e := by
  cases x with
  | error e' =>
      cases h
      rfl
  | ok a =>
      cases h

/-! ## Invariants over runs -/

/-- The invariant rule: what each step preserves, a run preserves. -/
theorem run_invariant {I : σ → Prop}
    (hstep : ∀ {s s' : σ} {e : ε} {a : α}, I s → step s e = .ok (s', a) → I s')
    {s t : σ} {es : List ε} {as : List α} (hs : I s) (h : run step s es = .ok (t, as)) : I t := by
  induction es generalizing s as with
  | nil =>
      simp only [run_nil, Except.ok.injEq, Prod.mk.injEq] at h
      exact h.1 ▸ hs
  | cons e es ih =>
      rcases run_cons_ok_iff.1 h with ⟨s', a, as', he, hr, _⟩
      exact ih (hstep hs he) hr

/-- The invariant rule over histories: `P` may speak of all events and outputs so far. -/
theorem run_history {P : σ → List ε → List α → Prop} {s : σ} (hinit : P s [] [])
    (hstep : ∀ {es : List ε} {m t : σ} {as : List α} {e : ε} {a : α},
      run step s es = .ok (m, as) → P m es as → step m e = .ok (t, a) →
        P t (es ++ [e]) (as ++ [a]))
    {es : List ε} {t : σ} {as : List α} (h : run step s es = .ok (t, as)) : P t es as := by
  induction es using List.reverseRecOn generalizing t as with
  | nil =>
      simp only [run_nil, Except.ok.injEq, Prod.mk.injEq] at h
      rcases h with ⟨rfl, rfl⟩
      exact hinit
  | append_singleton es e ih =>
      rcases run_concat_ok_iff.1 h with ⟨m, bs, a, hm, ha, rfl⟩
      exact hstep hm (ih hm) ha

/-! ## Lockstep simulation -/

/-- Two step functions are in lockstep at related states: both fault alike, or both emit the
same output and stay related. -/
def Lockstep (R : σ → τ → Prop) (step : σ → ε → Except φ (σ × α))
    (step' : τ → ε → Except φ (τ × α)) (s : σ) (t : τ) (e : ε) : Prop :=
  (∃ f, step s e = .error f ∧ step' t e = .error f) ∨
    ∃ s' t' a, step s e = .ok (s', a) ∧ step' t e = .ok (t', a) ∧ R s' t'

theorem run_lockstep {R : σ → τ → Prop} {step' : τ → ε → Except φ (τ × α)}
    (hstep : ∀ {s : σ} {t : τ} {e : ε}, R s t → Lockstep R step step' s t e)
    {s : σ} {t : τ} {es : List ε} (h : R s t) :
    (∃ f, run step s es = .error f ∧ run step' t es = .error f) ∨
      ∃ s' t' as, run step s es = .ok (s', as) ∧ run step' t es = .ok (t', as) ∧ R s' t' := by
  induction es generalizing s t with
  | nil =>
      exact Or.inr ⟨s, t, [], rfl, rfl, h⟩
  | cons e es ih =>
      rcases hstep (e := e) h with ⟨f, hs, ht⟩ | ⟨s', t', a, hs, ht, hR⟩
      -- both stop here, or both go on from related states
      · exact Or.inl ⟨f, run_cons_of_error hs es, run_cons_of_error ht es⟩
      · rcases ih hR with ⟨f, hrs, hrt⟩ | ⟨s₁, t₁, as, hrs, hrt, hR₁⟩
        · exact Or.inl ⟨f, by simp [run_cons_of_ok hs, hrs], by simp [run_cons_of_ok ht, hrt]⟩
        · exact Or.inr ⟨s₁, t₁, a :: as, run_cons_ok_iff.2 ⟨s', a, as, hs, hrs, rfl⟩,
            run_cons_ok_iff.2 ⟨t', a, as, ht, hrt, rfl⟩, hR₁⟩

/-! ## Conditions on the steps of a run -/

/-- `P` holds of every step that a run takes: of the event, at the state in which it comes. -/
def Along (step : σ → ε → Except φ (σ × α)) (P : σ → ε → Prop) (s : σ) (es : List ε) : Prop :=
  ∀ pre e post m as, es = pre ++ e :: post → run step s pre = .ok (m, as) → P m e

theorem along_nil {P : σ → ε → Prop} {s : σ} : Along step P s [] := by
  intro pre e post m as hes
  simp at hes

theorem along_cons {P : σ → ε → Prop} {s : σ} {e : ε} {es : List ε} :
    Along step P s (e :: es) ↔
      P s e ∧ ∀ s' a, step s e = .ok (s', a) → Along step P s' es := by
  constructor
  · intro h
    refine ⟨h [] e es s [] rfl rfl, ?_⟩
    rintro s' a he pre e' post m as rfl hrun
    exact h (e :: pre) e' post m (a :: as) rfl (run_cons_ok_iff.2 ⟨s', a, as, he, hrun, rfl⟩)
  · rintro ⟨hhead, htail⟩ pre e' post m as hes hrun
    cases pre with
    | nil =>
        cases hes
        cases hrun
        exact hhead
    | cons x pre =>
        cases hes
        rcases run_cons_ok_iff.1 hrun with ⟨s', a, as', he, hr, rfl⟩
        exact htail s' a he pre e' post m as' rfl hr

theorem along_cons_of_ok {P : σ → ε → Prop} {s s' : σ} {e : ε} {es : List ε} {a : α}
    (he : step s e = .ok (s', a)) :
    Along step P s (e :: es) ↔ P s e ∧ Along step P s' es := by
  rw [along_cons]
  refine and_congr_right fun _ => ⟨fun h => h s' a he, ?_⟩
  intro h t b ht
  rw [he] at ht
  cases ht
  exact h

instance decidableAlong {P : σ → ε → Prop} [∀ s e, Decidable (P s e)] :
    (s : σ) → (es : List ε) → Decidable (Along step P s es)
  | _, [] => isTrue along_nil
  | s, e :: es =>
      match he : step s e with
      | .error _ =>
          decidable_of_iff (P s e) (by simp [along_cons, he])
      | .ok (s', _) =>
          have : Decidable (Along step P s' es) := decidableAlong s' es
          decidable_of_iff (P s e ∧ Along step P s' es) (along_cons_of_ok he).symm

/-- The invariant rule for runs whose steps all meet a condition. -/
theorem run_invariant_along {I : σ → Prop} {P : σ → ε → Prop}
    (hstep : ∀ {s s' : σ} {e : ε} {a : α}, I s → P s e → step s e = .ok (s', a) → I s')
    {s t : σ} {es : List ε} {as : List α} (hs : I s) (hP : Along step P s es)
    (h : run step s es = .ok (t, as)) : I t := by
  induction es generalizing s as with
  | nil =>
      cases h
      exact hs
  | cons e es ih =>
      rcases run_cons_ok_iff.1 h with ⟨s', a, as', he, hr, _⟩
      rcases (along_cons_of_ok he).1 hP with ⟨hhead, htail⟩
      exact ih (hstep hs hhead he) htail hr

/-! ## Projection -/

/-- The projection rule: when a second system takes the steps that `proj` keeps, as far as they
meet the condition `P`, and the steps that it drops leave the relation alone and show nothing,
then every run of the first system projects to a run of the second that shows the same. -/
theorem run_project_along {ε' β γ ψ : Type*} {R : σ → τ → Prop} {P : τ → ε' → Prop}
    {step' : τ → ε' → Except ψ (τ × β)} {proj : ε → Option ε'} {view : α → List γ}
    {view' : β → List γ}
    (hskip : ∀ {s s' : σ} {t : τ} {e : ε} {a : α}, R s t → step s e = .ok (s', a) →
      proj e = none → R s' t ∧ view a = [])
    (hkeep : ∀ {s s' : σ} {t : τ} {e : ε} {e' : ε'} {a : α}, R s t → step s e = .ok (s', a) →
      proj e = some e' → P t e' →
      ∃ t' b, step' t e' = .ok (t', b) ∧ R s' t' ∧ view' b = view a)
    {s s' : σ} {t : τ} {es : List ε} {as : List α} (hR : R s t)
    (hP : Along step' P t (es.filterMap proj)) (hrun : run step s es = .ok (s', as)) :
    ∃ t' bs, run step' t (es.filterMap proj) = .ok (t', bs) ∧ R s' t' ∧
      bs.flatMap view' = as.flatMap view := by
  induction es generalizing s t as with
  | nil =>
      cases hrun
      exact ⟨t, [], rfl, hR, rfl⟩
  | cons e es ih =>
      rcases run_cons_ok_iff.1 hrun with ⟨m, a, as', he, hrest, rfl⟩
      cases hproj : proj e with
      | none =>
          -- the step is dropped and shows nothing
          rw [List.filterMap_cons_none hproj] at hP ⊢
          rcases hskip hR he hproj with ⟨hm, hview⟩
          rcases ih hm hP hrest with ⟨t', bs, hrun', hR', hviews⟩
          refine ⟨t', bs, hrun', hR', ?_⟩
          rw [List.flatMap_cons, hview, hviews]
          rfl
      | some e' =>
          -- the second system takes the step as well
          rw [List.filterMap_cons_some hproj] at hP ⊢
          rcases hkeep hR he hproj (along_cons.1 hP).1 with ⟨m', b, he', hm, hview⟩
          rcases ih hm ((along_cons_of_ok he').1 hP).2 hrest with ⟨t', bs, hrun', hR', hviews⟩
          refine ⟨t', b :: bs, run_cons_ok_iff.2 ⟨m', b, bs, he', hrun', rfl⟩, hR', ?_⟩
          rw [List.flatMap_cons, List.flatMap_cons, hview, hviews]

/-- The projection rule without a condition on the steps. -/
theorem run_project {ε' β γ ψ : Type*} {R : σ → τ → Prop} {step' : τ → ε' → Except ψ (τ × β)}
    {proj : ε → Option ε'} {view : α → List γ} {view' : β → List γ}
    (hskip : ∀ {s s' : σ} {t : τ} {e : ε} {a : α}, R s t → step s e = .ok (s', a) →
      proj e = none → R s' t ∧ view a = [])
    (hkeep : ∀ {s s' : σ} {t : τ} {e : ε} {e' : ε'} {a : α}, R s t → step s e = .ok (s', a) →
      proj e = some e' → ∃ t' b, step' t e' = .ok (t', b) ∧ R s' t' ∧ view' b = view a)
    {s s' : σ} {t : τ} {es : List ε} {as : List α} (hR : R s t)
    (hrun : run step s es = .ok (s', as)) :
    ∃ t' bs, run step' t (es.filterMap proj) = .ok (t', bs) ∧ R s' t' ∧
      bs.flatMap view' = as.flatMap view := by
  refine run_project_along (P := fun _ _ => True) hskip ?_ hR ?_ hrun
  · intro s s' t e e' a hR hstep hproj _
    exact hkeep hR hstep hproj
  · intro pre e post m as _ _
    trivial

end Lib
