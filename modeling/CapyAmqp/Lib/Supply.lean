import CapyAmqp.Lib.Run

/-!
# Supply — names that are made from a counter

A counter only grows, and each of its values makes a name.  As long as different values make
different names, the name that comes next has not been issued (`not_issued_self`); in a system
whose steps use no other names it is therefore the name of nothing that is there
(`live_issued_of_run`).
-/

namespace Lib

variable {N : Type*} {name : ℕ → N} {m n : ℕ} {x : N}

/-- One of the first `n` names. -/
def Issued (name : ℕ → N) (n : ℕ) (x : N) : Prop :=
  ∃ k, k < n ∧ x = name k

theorem Issued.mono (h : Issued name m x) (hmn : m ≤ n) : Issued name n x := by
  rcases h with ⟨k, hk, hx⟩
  exact ⟨k, Nat.lt_of_lt_of_le hk hmn, hx⟩

theorem not_issued_self (hname : Function.Injective name) : ¬ Issued name n (name n) := by
  rintro ⟨k, hk, hx⟩
  exact Nat.ne_of_lt hk (hname hx).symm

section Run

variable {σ ε α φ : Type*} {step : σ → ε → Except φ (σ × α)} {count : σ → ℕ} {takes : ε → Bool}
  {s t : σ} {es : List ε} {as : List α}

/-- The counter has moved by the number of events that take a name. -/
theorem count_of_run
    (hcount : ∀ {s s' : σ} {e : ε} {a : α}, step s e = .ok (s', a) →
      count s' = count s + if takes e then 1 else 0)
    (h : run step s es = .ok (t, as)) : count t = count s + es.countP takes := by
  let P : σ → List ε → List α → Prop := fun t es _ => count t = count s + es.countP takes
  refine run_history (P := P) rfl ?_ h
  intro es m t as e a _ hm hstep
  have hm : count m = count s + es.countP takes := hm
  show count t = count s + (es ++ [e]).countP takes
  rw [hcount hstep, hm, List.countP_append, List.countP_singleton, Nat.add_assoc]

/-- When a step gives the next name only, and only if it moves the counter, then whatever there is
has a name that has been issued. -/
theorem live_issued_of_run {live : σ → N → Prop}
    (hcount : ∀ {s s' : σ} {e : ε} {a : α}, step s e = .ok (s', a) →
      count s' = count s + if takes e then 1 else 0)
    (hlive : ∀ {s s' : σ} {e : ε} {a : α} {x : N}, step s e = .ok (s', a) → live s' x →
      live s x ∨ takes e = true ∧ x = name (count s))
    (hs : ∀ x, live s x → Issued name (count s) x) (h : run step s es = .ok (t, as)) :
    ∀ x, live t x → Issued name (count t) x := by
  let I : σ → Prop := fun s => ∀ x, live s x → Issued name (count s) x
  refine run_invariant (I := I) ?_ hs h
  intro s s' e a hI hstep x hx
  rw [hcount hstep]
  rcases hlive hstep hx with hold | ⟨htakes, rfl⟩
  · exact (hI x hold).mono (Nat.le_add_right _ _)
  · -- the counter has just passed the value of the new name
    rw [htakes]
    exact ⟨count s, Nat.lt_succ_self _, rfl⟩

end Run

end Lib
