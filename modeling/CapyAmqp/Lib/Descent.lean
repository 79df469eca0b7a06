import CapyAmqp.Lib.Automaton

/-!
# Descent — parsers by recursive descent, and the automata that they follow

The functions of such a parser work on a state that holds, among other things, what is left of the
input; they read from its front, may loop and may fail.  `Follows n P p Q` says that `p` goes along
with an automaton: from states that are related by `P`, `p` reads at least `n` letters, the automaton
reads the same, and the states they come to are related by `Q`; and when `p` fails, `E` describes
where it does.  A loop ends when each turn reads something (`follows_loop`).
-/

namespace Lib

namespace Descent

variable {σ τ α φ : Type*}

/-- A function of the parser: the new state, or an exception. -/
abbrev Stmt (σ φ : Type*) := σ → Except φ σ

def Stmt.skip : Stmt σ φ :=
  fun s => .ok s

/-- `p; q`. -/
def Stmt.seq (p q : Stmt σ φ) : Stmt σ φ := fun s =>
  match p s with
  | .error f => .error f
  | .ok s' => q s'

/-- `if (cond) p; else q`. -/
def Stmt.choose (cond : σ → Bool) (p q : Stmt σ φ) : Stmt σ φ := fun s =>
  if cond s then p s else q s

/-- The turns of a loop, `fuel` at most. -/
def Stmt.turns (cond : σ → Bool) (body : Stmt σ φ) : Nat → Stmt σ φ
  | 0 => Stmt.skip
  | fuel + 1 => Stmt.choose cond (Stmt.seq body (Stmt.turns cond body fuel)) Stmt.skip

/-- `while (cond) body`, in a parser whose remaining input is `rest`: there are as many turns as
letters at most. -/
def Stmt.loop (rest : σ → List α) (cond : σ → Bool) (body : Stmt σ φ) : Stmt σ φ := fun s =>
  Stmt.turns cond body ((rest s).length + 1) s

/-! ## Following an automaton -/

variable (rest : σ → List α) (step : τ → α → Option τ) (E : φ → τ → List α → Prop)

/-- `p` reads `n` letters or more, in step with the automaton. -/
def Follows (n : Nat) (P : σ → τ → Prop) (p : Stmt σ φ) (Q : σ → τ → Prop) : Prop :=
  ∀ s t, P s t →
    (∃ s' w t', p s = .ok s' ∧ n ≤ w.length ∧ rest s = w ++ rest s' ∧
        Automaton.readAll step t w = some t' ∧ Q s' t') ∨
      ∃ f w v t', p s = .error f ∧ rest s = w ++ v ∧ Automaton.readAll step t w = some t' ∧ E f t' v

variable {rest step E} {m n : Nat} {P P' Q Q' R I : σ → τ → Prop} {p q body : Stmt σ φ}
  {cond : σ → Bool}

theorem Follows.mono (h : Follows rest step E n P p Q) (hmn : m ≤ n)
    (hP : ∀ s t, P' s t → P s t) (hQ : ∀ s t, Q s t → Q' s t) :
    Follows rest step E m P' p Q' := by
  intro s t hs
  rcases h s t (hP s t hs) with ⟨s', w, t', hp, hw, hrest, hread, hs'⟩ | hfailed
  · exact Or.inl ⟨s', w, t', hp, Nat.le_trans hmn hw, hrest, hread, hQ s' t' hs'⟩
  · exact Or.inr hfailed

/-- A statement that reads nothing. -/
theorem follows_silent (f : σ → σ) (hf : ∀ s t, P s t → p s = .ok (f s) ∧ rest (f s) = rest s)
    (h : ∀ s t, P s t → Q (f s) t) : Follows rest step E 0 P p Q := by
  intro s t hs
  rcases hf s t hs with ⟨hp, hrest⟩
  exact Or.inl ⟨f s, [], t, hp, Nat.le_refl 0, hrest.symm, rfl, h s t hs⟩

theorem follows_skip : Follows rest step E 0 P Stmt.skip P :=
  follows_silent id (fun _ _ _ => ⟨rfl, rfl⟩) fun _ _ h => h

theorem follows_seq (hp : Follows rest step E m P p Q) (hq : Follows rest step E n Q q R) :
    Follows rest step E (m + n) P (Stmt.seq p q) R := by
  intro s t hs
  rcases hp s t hs with ⟨s₁, w, t₁, hp, hw, hrest, hread, hs₁⟩ | ⟨f, w, v, t', hp, hfailed⟩
  · rcases hq s₁ t₁ hs₁ with ⟨s₂, w', t₂, hq, hw', hrest', hread', hs₂⟩ |
      ⟨f, w', v, t', hq, hrest', hread', hE⟩
    · refine Or.inl ⟨s₂, w ++ w', t₂, by simp [Stmt.seq, hp, hq], ?_, ?_, ?_, hs₂⟩
      · rw [List.length_append]
        exact Nat.add_le_add hw hw'
      · rw [hrest, hrest', List.append_assoc]
      · rw [Automaton.readAll_append_of hread, hread']
    · refine Or.inr ⟨f, w ++ w', v, t', by simp [Stmt.seq, hp, hq], ?_, ?_, hE⟩
      · rw [hrest, hrest', List.append_assoc]
      · rw [Automaton.readAll_append_of hread, hread']
  · exact Or.inr ⟨f, w, v, t', by simp [Stmt.seq, hp], hfailed⟩

theorem follows_choose (hp : Follows rest step E n (fun s t => P s t ∧ cond s = true) p Q)
    (hq : Follows rest step E n (fun s t => P s t ∧ cond s = false) q Q) :
    Follows rest step E n P (Stmt.choose cond p q) Q := by
  intro s t hs
  cases hcond : cond s with
  | true => simpa [Stmt.choose, hcond] using hp s t ⟨hs, hcond⟩
  | false => simpa [Stmt.choose, hcond] using hq s t ⟨hs, hcond⟩

/-- Only the letters that are left limit the turns. -/
theorem follows_turns
    (hbody : Follows rest step E 1 (fun s t => I s t ∧ cond s = true) body I) (fuel : Nat) :
    Follows rest step E 0 (fun s t => I s t ∧ (rest s).length < fuel) (Stmt.turns cond body fuel)
      fun s t => I s t ∧ cond s = false := by
  induction fuel with
  | zero =>
      rintro s t ⟨_, hfuel⟩
      exact absurd hfuel (Nat.not_lt_zero _)
  | succ fuel ih =>
      intro s t hs
      cases hcond : cond s with
      | false =>
          have hend : Stmt.turns cond body (fuel + 1) s = .ok s := by
            simp [Stmt.turns, Stmt.choose, hcond, Stmt.skip]
          exact Or.inl ⟨s, [], t, hend, Nat.le_refl 0, rfl, rfl, hs.1, hcond⟩
      | true =>
          have hturn : Stmt.turns cond body (fuel + 1) s =
              Stmt.seq body (Stmt.turns cond body fuel) s := by
            simp [Stmt.turns, Stmt.choose, hcond]
          -- the turn reads a letter, so fewer are left than there is fuel
          have hbody' : Follows rest step E 0 (fun s' t' => s' = s ∧ t' = t) body
              fun s' t' => I s' t' ∧ (rest s').length < fuel := by
            rintro _ _ ⟨rfl, rfl⟩
            rcases hbody _ _ ⟨hs.1, hcond⟩ with ⟨s', w, t', hp, hw, hrest, hread, hs'⟩ | hfailed
            · have hlength := congrArg List.length hrest
              rw [List.length_append] at hlength
              exact Or.inl ⟨s', w, t', hp, Nat.zero_le _, hrest, hread, hs', by omega⟩
            · exact Or.inr hfailed
          rw [hturn]
          exact follows_seq hbody' ih s t ⟨rfl, rfl⟩

theorem follows_loop (hbody : Follows rest step E 1 (fun s t => I s t ∧ cond s = true) body I) :
    Follows rest step E 0 I (Stmt.loop rest cond body) fun s t => I s t ∧ cond s = false := by
  intro s t hs
  exact follows_turns hbody ((rest s).length + 1) s t ⟨hs, Nat.lt_succ_self _⟩

end Descent

end Lib
