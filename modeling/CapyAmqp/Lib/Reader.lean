import Mathlib.Data.List.Infix
import Mathlib.Tactic.TypeStar

/-!
# Reader — programs that read an input item by item

A reader asks for the next item, or ends with a value or a failure.  `run` feeds it an input and
counts the items asked for, the one past the end included.  What a reader does is told by two
relations that no longer mention the count: `Reads r p b`, it takes exactly `p` and delivers `b`,
and `Rejects r p e`, it takes exactly `p` and fails with `e`.  A reader never looks past what it
takes, so that what it reads is a prefix code (`Reads.eq_of_prefix`) and an input that is cut
short is noticed at its end (`Reads.run_of_truncated`).

Readers that recurse are given fuel; `AgreeUpTo` says that two readers do the same on all inputs up
to a length.
-/

namespace Lib

universe u

variable {κ ε α : Type*} {β γ : Type u}

/-- A program over the items `α`: `next` names what is being read in case the input ends. -/
inductive Reader (κ ε α : Type*) (β : Type u)
  | done (b : β)
  | fail (e : ε)
  | next (context : κ) (k : α → Reader κ ε α β)

/-- Why a reader has stopped. -/
inductive Stop (κ ε : Type*)
  | ended (context : κ)
  | failed (e : ε)
  deriving DecidableEq

namespace Reader

def bind : Reader κ ε α β → (β → Reader κ ε α γ) → Reader κ ε α γ
  | done b, f => f b
  | fail e, _ => fail e
  | next context k, f => next context fun a => (k a).bind f

instance : Monad (Reader κ ε α) where
  pure := done
  bind := bind

/-- The next item. -/
def item (context : κ) : Reader κ ε α α := next context done

/-- Run a reader `n` times and collect what it delivers. -/
def times (r : Reader κ ε α β) : Nat → Reader κ ε α (List β)
  | 0 => pure []
  | n + 1 => do
      let b ← r
      let bs ← times r n
      return b :: bs

/-- Feed an input to a reader after `n` items have been asked for: what it delivers, the rest of
the input and the new count, or why it stopped and the count then. -/
def run : Reader κ ε α β → List α → Nat → Except (Stop κ ε × Nat) (β × List α × Nat)
  | done b, input, n => .ok (b, input, n)
  | fail e, _, n => .error (.failed e, n)
  | next context _, [], n => .error (.ended context, n + 1)
  | next _ k, a :: input, n => (k a).run input (n + 1)

/-- The reader takes exactly `p` and delivers `b`. -/
def Reads : Reader κ ε α β → List α → β → Prop
  | done b, p, c => p = [] ∧ b = c
  | fail _, _, _ => False
  | next _ _, [], _ => False
  | next _ k, a :: p, c => (k a).Reads p c

/-- The reader takes exactly `p` and fails with `e`. -/
def Rejects : Reader κ ε α β → List α → ε → Prop
  | done _, _, _ => False
  | fail e, p, e' => p = [] ∧ e = e'
  | next _ _, [], _ => False
  | next _ k, a :: p, e => (k a).Rejects p e

/-- The reader takes `p` in pieces, one for each of the values. -/
def ReadsAll (r : Reader κ ε α β) : List α → List β → Prop
  | p, [] => p = []
  | p, b :: bs => ∃ p₁ p₂, p = p₁ ++ p₂ ∧ r.Reads p₁ b ∧ ReadsAll r p₂ bs

/-! ## The relations, statement by statement -/

variable {r r' : Reader κ ε α β} {f f' : β → Reader κ ε α γ} {context : κ} {p q : List α} {b : β}
  {e : ε} {n m : Nat}

@[simp] theorem reads_pure {c : β} :
    Reads (pure b : Reader κ ε α β) p c ↔ p = [] ∧ b = c :=
  Iff.rfl

@[simp] theorem not_reads_fail : ¬ Reads (fail e : Reader κ ε α β) p b :=
  fun h => h

@[simp] theorem rejects_fail {e' : ε} :
    Rejects (fail e : Reader κ ε α β) p e' ↔ p = [] ∧ e = e' :=
  Iff.rfl

@[simp] theorem not_rejects_pure : ¬ Rejects (pure b : Reader κ ε α β) p e :=
  fun h => h

@[simp] theorem reads_item {a : α} :
    Reads (item context : Reader κ ε α α) p a ↔ p = [a] := by
  cases p with
  | nil => simp [item, Reads]
  | cons x p => simp [item, Reads, and_comm]

theorem item_bind {β : Type _} (g : α → Reader κ ε α β) : item context >>= g = next context g :=
  rfl

@[simp] theorem not_rejects_item : ¬ Rejects (item context : Reader κ ε α α) p e := by
  cases p <;> simp [item, Rejects]

theorem reads_bind {c : γ} :
    Reads (r >>= f) p c ↔ ∃ p₁ p₂ b, p = p₁ ++ p₂ ∧ r.Reads p₁ b ∧ (f b).Reads p₂ c := by
  induction r generalizing p with
  | done b =>
      constructor
      · intro h
        exact ⟨[], p, b, rfl, ⟨rfl, rfl⟩, h⟩
      · rintro ⟨p₁, p₂, b', rfl, ⟨rfl, rfl⟩, h⟩
        exact h
  | fail e =>
      simp [Bind.bind, bind, Reads]
  | next context k ih =>
      cases p with
      | nil =>
          constructor
          · intro h
            exact h.elim
          · rintro ⟨p₁, p₂, b', hp, h₁, _⟩
            rcases List.append_eq_nil_iff.1 hp.symm with ⟨rfl, rfl⟩
            exact h₁.elim
      | cons a p =>
          refine (ih a).trans ⟨?_, ?_⟩
          · rintro ⟨p₁, p₂, b', rfl, h₁, h₂⟩
            exact ⟨a :: p₁, p₂, b', rfl, h₁, h₂⟩
          · rintro ⟨p₁, p₂, b', hp, h₁, h₂⟩
            cases p₁ with
            | nil => exact h₁.elim
            | cons a' p₁ =>
                cases hp
                exact ⟨p₁, p₂, b', rfl, h₁, h₂⟩

theorem rejects_bind :
    Rejects (r >>= f) p e ↔
      r.Rejects p e ∨ ∃ p₁ p₂ b, p = p₁ ++ p₂ ∧ r.Reads p₁ b ∧ (f b).Rejects p₂ e := by
  induction r generalizing p with
  | done b =>
      constructor
      · intro h
        exact .inr ⟨[], p, b, rfl, ⟨rfl, rfl⟩, h⟩
      · rintro (h | ⟨p₁, p₂, b', rfl, ⟨rfl, rfl⟩, h⟩)
        · exact h.elim
        · exact h
  | fail e' =>
      constructor
      · exact .inl
      · rintro (h | ⟨p₁, p₂, b', _, h, _⟩)
        · exact h
        · exact h.elim
  | next context k ih =>
      cases p with
      | nil =>
          constructor
          · intro h
            exact h.elim
          · rintro (h | ⟨p₁, p₂, b', hp, h₁, _⟩)
            · exact h.elim
            · rcases List.append_eq_nil_iff.1 hp.symm with ⟨rfl, rfl⟩
              exact h₁.elim
      | cons a p =>
          refine (ih a).trans (or_congr Iff.rfl ⟨?_, ?_⟩)
          · rintro ⟨p₁, p₂, b', rfl, h₁, h₂⟩
            exact ⟨a :: p₁, p₂, b', rfl, h₁, h₂⟩
          · rintro ⟨p₁, p₂, b', hp, h₁, h₂⟩
            cases p₁ with
            | nil => exact h₁.elim
            | cons a' p₁ =>
                cases hp
                exact ⟨p₁, p₂, b', rfl, h₁, h₂⟩

theorem reads_times {bs : List β} :
    Reads (r.times n) p bs ↔ bs.length = n ∧ r.ReadsAll p bs := by
  induction n generalizing p bs with
  | zero =>
      cases bs with
      | nil => simp [times, ReadsAll]
      | cons b bs => simp [times]
  | succ n ih =>
      cases bs with
      | nil => simp [times, reads_bind]
      | cons b bs =>
          simp only [times, reads_bind, ih, reads_pure, ReadsAll, List.length_cons,
            Nat.add_right_cancel_iff]
          constructor
          · rintro ⟨p₁, _, b', rfl, h₁, p₂, _, bs', rfl, ⟨hlength, h₂⟩, rfl, heq⟩
            cases heq
            exact ⟨hlength, p₁, p₂, by simp, h₁, h₂⟩
          · rintro ⟨hlength, p₁, p₂, rfl, h₁, h₂⟩
            exact ⟨p₁, p₂, b, rfl, h₁, p₂, [], bs, by simp, ⟨hlength, h₂⟩, rfl, rfl⟩

/-- A loop fails in the first of its turns that fails. -/
theorem rejects_times (h : Rejects (r.times n) p e) :
    ∃ p₁ p₂ bs, p = p₁ ++ p₂ ∧ r.ReadsAll p₁ bs ∧ r.Rejects p₂ e := by
  induction n generalizing p with
  | zero => exact h.elim
  | succ n ih =>
      rcases rejects_bind.1 h with h | ⟨p₁, p₂, b, rfl, hb, h⟩
      · exact ⟨[], p, [], rfl, rfl, h⟩
      rcases rejects_bind.1 h with h | ⟨_, _, _, _, _, h⟩
      · rcases ih h with ⟨q₁, q₂, bs, rfl, hbs, h⟩
        exact ⟨p₁ ++ q₁, q₂, b :: bs, by simp, ⟨p₁, q₁, rfl, hb, hbs⟩, h⟩
      · exact h.elim

/-! ## Running a reader -/

section Run

variable {input rest : List α}

theorem run_bind :
    run (r >>= f) input n =
      match r.run input n with
      | .error stop => .error stop
      | .ok (b, rest, m) => (f b).run rest m := by
  induction r generalizing input n with
  | done b => rfl
  | fail e => rfl
  | next context k ih =>
      cases input with
      | nil => rfl
      | cons a input => exact ih a

/-- A reader delivers `b` when the input begins with something that it reads as `b`. -/
theorem run_ok_iff :
    r.run input n = .ok (b, rest, m) ↔
      ∃ p, input = p ++ rest ∧ m = n + p.length ∧ r.Reads p b := by
  induction r generalizing input n with
  | done b' =>
      constructor
      · intro h
        cases h
        exact ⟨[], rfl, rfl, rfl, rfl⟩
      · rintro ⟨p, rfl, rfl, rfl, rfl⟩
        rfl
  | fail e =>
      simp [run, Reads]
  | next context k ih =>
      cases input with
      | nil =>
          constructor
          · intro h
            cases h
          · rintro ⟨p, hp, _, h⟩
            rcases List.append_eq_nil_iff.1 hp.symm with ⟨rfl, _⟩
            exact h.elim
      | cons a input =>
          refine (ih a).trans ⟨?_, ?_⟩
          · rintro ⟨p, rfl, rfl, h⟩
            exact ⟨a :: p, rfl, by rw [List.length_cons]; omega, h⟩
          · rintro ⟨p, hp, rfl, h⟩
            cases p with
            | nil => exact h.elim
            | cons a' p =>
                cases hp
                exact ⟨p, rfl, by rw [List.length_cons]; omega, h⟩

/-- A reader fails when the input begins with something that it rejects. -/
theorem run_failed_iff :
    r.run input n = .error (.failed e, m) ↔
      ∃ p rest, input = p ++ rest ∧ m = n + p.length ∧ r.Rejects p e := by
  induction r generalizing input n with
  | done b' =>
      simp [run, Rejects]
  | fail e' =>
      constructor
      · intro h
        cases h
        exact ⟨[], input, rfl, rfl, rfl, rfl⟩
      · rintro ⟨p, rest, rfl, rfl, rfl, rfl⟩
        rfl
  | next context k ih =>
      cases input with
      | nil =>
          constructor
          · intro h
            cases h
          · rintro ⟨p, rest, hp, _, h⟩
            rcases List.append_eq_nil_iff.1 hp.symm with ⟨rfl, _⟩
            exact h.elim
      | cons a input =>
          refine (ih a).trans ⟨?_, ?_⟩
          · rintro ⟨p, rest, rfl, rfl, h⟩
            exact ⟨a :: p, rest, rfl, by rw [List.length_cons]; omega, h⟩
          · rintro ⟨p, rest, hp, rfl, h⟩
            cases p with
            | nil => exact h.elim
            | cons a' p =>
                cases hp
                exact ⟨p, rest, rfl, by rw [List.length_cons]; omega, h⟩

theorem Reads.run (h : r.Reads p b) (rest : List α) (n : Nat) :
    r.run (p ++ rest) n = .ok (b, rest, n + p.length) :=
  run_ok_iff.2 ⟨p, rfl, rfl, h⟩

/-! ## What is read is a prefix code -/

/-- No reading is a proper prefix of another. -/
theorem Reads.eq_of_prefix {b' : β} (h : r.Reads p b) (h' : r.Reads q b') (hinit : p <+: q) :
    p = q ∧ b = b' := by
  rcases hinit with ⟨rest, rfl⟩
  have hrun : (Except.ok (b, rest, 0 + p.length) : Except (Stop κ ε × Nat) _) =
      .ok (b', [], 0 + (p ++ rest).length) := by
    rw [← h.run rest 0, ← h'.run [] 0, List.append_nil]
  simp only [Except.ok.injEq, Prod.mk.injEq] at hrun
  rcases hrun with ⟨hb, rfl, _⟩
  exact ⟨(List.append_nil p).symm, hb⟩

/-- A reading that is cut short ends the input. -/
theorem Reads.run_of_truncated (h : r.Reads p b) (hinit : q <+: p) (hne : q ≠ p) (n : Nat) :
    ∃ context, r.run q n = .error (.ended context, n + q.length + 1) := by
  induction r generalizing p q n with
  | done b' =>
      rcases h with ⟨rfl, _⟩
      exact (hne (List.prefix_nil.1 hinit)).elim
  | fail e => exact h.elim
  | next context k ih =>
      cases q with
      | nil => exact ⟨context, rfl⟩
      | cons a q =>
          cases p with
          | nil => exact h.elim
          | cons a' p =>
              rcases List.cons_prefix_cons.1 hinit with ⟨rfl, hrest⟩
              have hproper : q ≠ p := fun heq => hne (by rw [heq])
              rcases ih a h hrest hproper (n + 1) with ⟨context', hrun⟩
              refine ⟨context', hrun.trans ?_⟩
              rw [List.length_cons, show n + 1 + q.length + 1 = n + (q.length + 1) + 1 by omega]

/-- A rejected input is rejected with anything behind it. -/
theorem Rejects.run (h : r.Rejects p e) (rest : List α) (n : Nat) :
    r.run (p ++ rest) n = .error (.failed e, n + p.length) :=
  run_failed_iff.2 ⟨p, rest, rfl, rfl, h⟩

end Run

/-! ## Fuel -/

/-- Two readers do the same on every input of at most `k` items. -/
def AgreeUpTo (k : Nat) (r r' : Reader κ ε α β) : Prop :=
  ∀ input n, input.length ≤ k → r.run input n = r'.run input n

namespace AgreeUpTo

variable {k : Nat}

theorem refl (k : Nat) (r : Reader κ ε α β) : AgreeUpTo k r r :=
  fun _ _ _ => rfl

theorem bind (h : AgreeUpTo k r r') (hf : ∀ b, AgreeUpTo k (f b) (f' b)) :
    AgreeUpTo k (r >>= f) (r' >>= f') := by
  intro input n hlength
  rw [run_bind, run_bind, ← h input n hlength]
  cases hrun : r.run input n with
  | error stop => rfl
  | ok result =>
      rcases result with ⟨b, rest, m⟩
      rcases run_ok_iff.1 hrun with ⟨p, rfl, _, _⟩
      rw [List.length_append] at hlength
      exact hf b rest m (by omega)

theorem times (h : AgreeUpTo k r r') (n : Nat) : AgreeUpTo k (r.times n) (r'.times n) := by
  induction n with
  | zero => exact refl k _
  | succ n ih => exact h.bind fun b => ih.bind fun bs => refl k _

/-- What follows an item is run on one item less. -/
theorem next {g g' : α → Reader κ ε α β} (h : ∀ a j, j + 1 ≤ k → AgreeUpTo j (g a) (g' a)) :
    AgreeUpTo k (.next context g) (.next context g') := by
  intro input n hlength
  cases input with
  | nil => rfl
  | cons a input => exact h a input.length hlength input (n + 1) le_rfl

end AgreeUpTo

/-! ## Inputs that can be completed -/

/-- Some input is read. -/
def Completable (r : Reader κ ε α β) : Prop := ∃ p b, r.Reads p b

/-- On inputs of at most `k` items, what ends too early is the beginning of something that is
read. -/
def ViableUpTo (k : Nat) (r : Reader κ ε α β) : Prop :=
  ∀ input n context m, input.length ≤ k → r.run input n = .error (.ended context, m) →
    ∃ q b, r.Reads (input ++ q) b

namespace Completable

theorem pure (b : β) : Completable (pure b : Reader κ ε α β) := ⟨[], b, rfl, rfl⟩

theorem item (context : κ) (a : α) : Completable (item context : Reader κ ε α α) :=
  ⟨[a], a, reads_item.2 rfl⟩

theorem bind (h : Completable r) (hf : ∀ b, Completable (f b)) : Completable (r >>= f) := by
  rcases h with ⟨p₁, b, h₁⟩
  rcases hf b with ⟨p₂, c, h₂⟩
  exact ⟨p₁ ++ p₂, c, reads_bind.2 ⟨p₁, p₂, b, rfl, h₁, h₂⟩⟩

theorem times (h : Completable r) (n : Nat) : Completable (r.times n) := by
  induction n with
  | zero => exact pure []
  | succ n ih => exact h.bind fun b => ih.bind fun bs => pure (b :: bs)

end Completable

namespace ViableUpTo

variable {k : Nat}

theorem pure (b : β) : ViableUpTo k (pure b : Reader κ ε α β) := by
  intro input n context m _ h
  cases h

theorem fail (e : ε) : ViableUpTo k (.fail e : Reader κ ε α β) := by
  intro input n context m _ h
  cases h

theorem item (context : κ) (a : α) : ViableUpTo k (item context : Reader κ ε α α) := by
  intro input n context m _ h
  cases input with
  | nil => exact ⟨[a], a, reads_item.2 rfl⟩
  | cons a' input => cases h

/-- What comes second may be cut short only if it can be completed at all. -/
theorem bind (h : ViableUpTo k r) (hf : ∀ b, ViableUpTo k (f b)) (hcomplete : ∀ b, Completable (f b)) :
    ViableUpTo k (r >>= f) := by
  intro input n context m hlength hrun
  rw [run_bind] at hrun
  cases hr : r.run input n with
  | error stop =>
      rw [hr] at hrun
      cases hrun
      rcases h input n context m hlength hr with ⟨q, b, hq⟩
      rcases hcomplete b with ⟨p, c, hp⟩
      refine ⟨q ++ p, c, reads_bind.2 ⟨input ++ q, p, b, ?_, hq, hp⟩⟩
      rw [List.append_assoc]
  | ok result =>
      rcases result with ⟨b, rest, l⟩
      rw [hr] at hrun
      rcases run_ok_iff.1 hr with ⟨p, rfl, _, hp⟩
      rw [List.length_append] at hlength
      rcases hf b rest l context m (by omega) hrun with ⟨q, c, hq⟩
      refine ⟨q, c, reads_bind.2 ⟨p, rest ++ q, b, ?_, hp, hq⟩⟩
      rw [List.append_assoc]

theorem times (h : ViableUpTo k r) (hcomplete : Completable r) (n : Nat) :
    ViableUpTo k (r.times n) := by
  induction n with
  | zero => exact pure []
  | succ n ih =>
      exact h.bind (fun b => ih.bind (fun bs => pure (b :: bs)) fun bs => .pure (b :: bs))
        fun b => (hcomplete.times n).bind fun bs => .pure (b :: bs)

theorem next {g : α → Reader κ ε α β} (hcomplete : ∃ a, Completable (g a))
    (h : ∀ a j, j + 1 ≤ k → ViableUpTo j (g a)) : ViableUpTo k (.next context g) := by
  intro input n context' m hlength hrun
  cases input with
  | nil =>
      rcases hcomplete with ⟨a, p, b, hp⟩
      exact ⟨a :: p, b, hp⟩
  | cons a input => exact h a input.length hlength input (n + 1) context' m (Nat.le_refl _) hrun

end ViableUpTo

end Reader

end Lib
