import Mathlib.Logic.Basic
import Mathlib.Tactic.TypeStar

/-!
# Prog — statements over a state that emit outputs and may fault

The body of a callback is a sequence of statements.  A statement changes a state, emits outputs
in order and may fault, after which nothing is said about the program.  `Ensures R p` says that
every completed execution of `p` satisfies the relation `R` between the state before, the
outputs and the state after; for a relation that composes (`Composes`) it is established
statement by statement.
-/

namespace Lib

variable {σ α φ : Type*}

/-- A statement: the new state and the outputs, or a fault. -/
abbrev Prog (σ α φ : Type*) := σ → Except φ (σ × List α)

namespace Prog

def skip : Prog σ α φ :=
  fun s => .ok (s, [])

/-- Run `p`, then `q`. -/
def seq (p q : Prog σ α φ) : Prog σ α φ := fun s =>
  match p s with
  | .error f => .error f
  | .ok (m, bs) =>
      match q m with
      | .error f => .error f
      | .ok (t, cs) => .ok (t, bs ++ cs)

/-- Run the statements of a list one after the other. -/
def all : List (Prog σ α φ) → Prog σ α φ
  | [] => skip
  | p :: ps => seq p (all ps)

variable {p q : Prog σ α φ} {s t : σ} {as : List α}

@[simp] theorem skip_ok_iff : skip (φ := φ) s = .ok (t, as) ↔ s = t ∧ as = [] := by
  simp [skip, eq_comm]

theorem seq_of_ok {m : σ} {bs : List α} (h : p s = .ok (m, bs)) :
    seq p q s =
      match q m with
      | .error f => .error f
      | .ok (t, cs) => .ok (t, bs ++ cs) := by
  simp [seq, h]

theorem seq_of_error {f : φ} (h : p s = .error f) : seq p q s = .error f := by
  simp [seq, h]

theorem seq_ok_iff :
    seq p q s = .ok (t, as) ↔
      ∃ m bs cs, p s = .ok (m, bs) ∧ q m = .ok (t, cs) ∧ as = bs ++ cs := by
  cases hp : p s with
  | error f =>
      simp [seq_of_error hp]
  | ok r =>
      have hseq := seq_of_ok (q := q) hp
      cases hq : q r.1 with
      | error f =>
          have herror : seq p q s = .error f := by
            simp [hseq, hq]
          simp only [herror]
          refine iff_of_false (by simp) ?_
          intro hall
          rcases hall with ⟨m, bs, cs, hm, hcs, _⟩
          cases hm
          rw [hq] at hcs
          cases hcs
      | ok u =>
          have hok : seq p q s = .ok (u.1, r.2 ++ u.2) := by
            simp [hseq, hq]
          simp only [hok, Except.ok.injEq, Prod.mk.injEq]
          refine ⟨?_, ?_⟩
          · intro h
            exact ⟨r.1, r.2, u.2, rfl, by rw [hq, ← h.1], h.2.symm⟩
          · intro hall
            rcases hall with ⟨m, bs, cs, hm, hcs, has⟩
            cases hm
            rw [hq] at hcs
            cases hcs
            exact ⟨rfl, has.symm⟩

theorem seq_error_iff {f : φ} :
    seq p q s = .error f ↔
      p s = .error f ∨ ∃ m bs, p s = .ok (m, bs) ∧ q m = .error f := by
  cases hp : p s with
  | error g =>
      simp [seq_of_error hp]
  | ok r =>
      have hseq := seq_of_ok (q := q) hp
      cases hq : q r.1 with
      | error g =>
          have herror : seq p q s = .error g := by
            simp [hseq, hq]
          rw [herror]
          refine ⟨?_, ?_⟩
          · intro h
            exact Or.inr ⟨r.1, r.2, rfl, by rw [hq]; exact h⟩
          · intro h
            rcases h with h | ⟨m, bs, hm, hf⟩
            · cases h
            · cases hm
              rw [hq] at hf
              exact hf
      | ok u =>
          have hok : seq p q s = .ok (u.1, r.2 ++ u.2) := by
            simp [hseq, hq]
          rw [hok]
          refine iff_of_false (by simp) ?_
          intro h
          rcases h with h | ⟨m, bs, hm, hf⟩
          · cases h
          · cases hm
            rw [hq] at hf
            cases hf

/-! ## Relations that every execution satisfies -/

/-- A relation that holds when nothing happens and of one execution after another. -/
structure Composes (R : σ → List α → σ → Prop) : Prop where
  refl : ∀ s, R s [] s
  trans : ∀ {s m t as bs}, R s as m → R m bs t → R s (as ++ bs) t

/-- Every completed execution of `p` satisfies `R`. -/
def Ensures (R : σ → List α → σ → Prop) (p : Prog σ α φ) : Prop :=
  ∀ s t as, p s = .ok (t, as) → R s as t

variable {R : σ → List α → σ → Prop}

theorem Ensures.mono {R' : σ → List α → σ → Prop} (hp : Ensures R p)
    (hR : ∀ s as t, R s as t → R' s as t) : Ensures R' p := by
  intro s t as h
  exact hR s as t (hp s t as h)

theorem ensures_skip (hR : Composes R) : Ensures R (skip : Prog σ α φ) := by
  intro s t as h
  rcases skip_ok_iff.1 h with ⟨rfl, rfl⟩
  exact hR.refl s

theorem ensures_seq (hR : Composes R) (hp : Ensures R p) (hq : Ensures R q) :
    Ensures R (seq p q) := by
  intro s t as h
  rcases seq_ok_iff.1 h with ⟨m, bs, cs, hbs, hcs, rfl⟩
  exact hR.trans (hp s m bs hbs) (hq m t cs hcs)

theorem ensures_all (hR : Composes R) {ps : List (Prog σ α φ)} (h : ∀ p ∈ ps, Ensures R p) :
    Ensures R (all ps) := by
  induction ps with
  | nil =>
      exact ensures_skip hR
  | cons p ps ih =>
      have htail : ∀ q ∈ ps, Ensures R q := by
        intro q hq
        exact h q (by simp [hq])
      exact ensures_seq hR (h p (by simp)) (ih htail)

/-- The relation of the statements that keep `I`. -/
def Keeps (I : σ → Prop) : σ → List α → σ → Prop :=
  fun s _ t => I s → I t

theorem keeps_composes (I : σ → Prop) : Composes (Keeps (α := α) I) := by
  constructor
  · intro s hs
    exact hs
  · intro s m t as bs hm ht hs
    exact ht (hm hs)

/-! ## Sweeps -/

/-- The statement never faults. -/
def Total (p : Prog σ α φ) : Prop :=
  ∀ s, ∃ t as, p s = .ok (t, as)

theorem total_all {ps : List (Prog σ α φ)} (h : ∀ p ∈ ps, Total p) : Total (all ps) := by
  induction ps with
  | nil =>
      intro s
      exact ⟨s, [], rfl⟩
  | cons p ps ih =>
      intro s
      have htail : ∀ q ∈ ps, Total q := by
        intro q hq
        exact h q (by simp [hq])
      rcases h p (by simp) s with ⟨m, bs, hp⟩
      rcases ih htail m with ⟨t, cs, hps⟩
      exact ⟨t, bs ++ cs, seq_ok_iff.2 ⟨m, bs, cs, hp, hps, rfl⟩⟩

/-- One statement for each key. -/
def sweep {κ : Type*} (f : κ → Prog σ α φ) (keys : List κ) : Prog σ α φ :=
  all (keys.map f)

section Sweep

variable {κ : Type*} {f : κ → Prog σ α φ}

theorem total_sweep (h : ∀ k, Total (f k)) (keys : List κ) : Total (sweep f keys) := by
  refine total_all fun p hp => ?_
  rcases List.mem_map.1 hp with ⟨k, _, rfl⟩
  exact h k

theorem ensures_sweep (hR : Composes R) (h : ∀ k, Ensures R (f k)) (keys : List κ) :
    Ensures R (sweep f keys) := by
  refine ensures_all hR fun p hp => ?_
  rcases List.mem_map.1 hp with ⟨k, _, rfl⟩
  exact h k

/-- When the statement of a key brings about `Done` for it, and none undoes this for another, then a
sweep leaves `Done` for every key that it has come to, and for those for which it held already. -/
theorem sweep_done (Done : κ → σ → Prop)
    (hdone : ∀ {k s t as}, f k s = .ok (t, as) → Done k t)
    (hkeep : ∀ {k k' s t as}, Done k s → f k' s = .ok (t, as) → Done k t) {keys : List κ}
    (h : sweep f keys s = .ok (t, as)) {k : κ} (hk : k ∈ keys ∨ Done k s) : Done k t := by
  induction keys generalizing s as with
  | nil =>
      rcases skip_ok_iff.1 h with ⟨rfl, _⟩
      rcases hk with hk | hk
      · cases hk
      · exact hk
  | cons k' keys ih =>
      rcases seq_ok_iff.1 h with ⟨m, bs, cs, hhead, htail, _⟩
      refine ih htail ?_
      rcases hk with hk | hk
      · rcases List.mem_cons.1 hk with rfl | hk
        · exact Or.inr (hdone hhead)
        · exact Or.inl hk
      · exact Or.inr (hkeep hk hhead)

end Sweep

end Prog

end Lib
