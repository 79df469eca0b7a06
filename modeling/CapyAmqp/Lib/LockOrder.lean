import CapyAmqp.Lib.Run
import Mathlib.Logic.Function.Basic

/-!
# LockOrder — cells behind locks, and the order in which the locks are taken

A store is a family of cells, and an operation works on the one cell that its index names.
Threads run operations concurrently: a thread takes the lock of the cell, acts on the cell and
gives the lock back, while threads that work on other cells may do any of these steps in
between.

`CellOps.linearizes` says that such an execution is the sequential one in which the operations
run one after the other in the order in which they took their locks: every operation returns
what it returns there, and every cell that is not locked holds what it holds there.
-/

namespace Lib

/-- Operations on a family of cells: the cell that an operation works on, and its effect. -/
structure CellOps (ι σ Op R : Type*) where
  index : Op → ι
  act : Op → σ → σ × R

namespace CellOps

variable {ι σ Op R T : Type*} [DecidableEq ι] [DecidableEq T] (A : CellOps ι σ Op R)

/-! ## Sequential execution -/

def exec (s : ι → σ) (op : Op) : (ι → σ) × R :=
  let r := A.act op (s (A.index op))
  (Function.update s (A.index op) r.1, r.2)

def execAll : (ι → σ) → List Op → (ι → σ) × List R
  | s, [] => (s, [])
  | s, op :: ops =>
      let r := A.exec s op
      let q := execAll r.1 ops
      (q.1, r.2 :: q.2)

theorem execAll_concat (s : ι → σ) (ops : List Op) (op : Op) :
    A.execAll s (ops ++ [op]) =
      ((A.exec (A.execAll s ops).1 op).1,
        (A.execAll s ops).2 ++ [(A.exec (A.execAll s ops).1 op).2]) := by
  induction ops generalizing s with
  | nil =>
      rfl
  | cons op' ops ih =>
      simp [execAll, ih]

@[simp] theorem length_execAll (s : ι → σ) (ops : List Op) :
    (A.execAll s ops).2.length = ops.length := by
  induction ops generalizing s with
  | nil =>
      rfl
  | cons op ops ih =>
      simp [execAll, ih]

/-! ## Concurrent execution -/

/-- Where a thread stands; the ticket is the position of its operation in the lock order. -/
inductive Phase (Op R : Type*)
  | idle
  | entered (ticket : Nat) (op : Op)
  | acted (ticket : Nat) (op : Op) (result : R)

structure Conf (ι σ Op R T : Type*) where
  cells : ι → σ
  holder : ι → Option T
  phase : T → Phase Op R
  order : List Op

inductive Move (Op T : Type*)
  | acquire (t : T) (op : Op)
  | act (t : T)
  | release (t : T)

/-- An operation that has returned. -/
structure Done (Op R T : Type*) where
  thread : T
  ticket : Nat
  op : Op
  result : R

def start (s : ι → σ) : Conf ι σ Op R T :=
  { cells := s
    holder := fun _ => none
    phase := fun _ => .idle
    order := [] }

/-- One step of one thread; `.error ()` when the step is not enabled. -/
def move (c : Conf ι σ Op R T) : Move Op T → Except Unit (Conf ι σ Op R T × Option (Done Op R T))
  | .acquire t op =>
      match c.phase t, c.holder (A.index op) with
      | .idle, none =>
          .ok ({ c with
                  holder := Function.update c.holder (A.index op) (some t)
                  phase := Function.update c.phase t (.entered c.order.length op)
                  order := c.order ++ [op] }, none)
      | _, _ => .error ()
  | .act t =>
      match c.phase t with
      | .entered ticket op =>
          let r := A.act op (c.cells (A.index op))
          .ok ({ c with
                  cells := Function.update c.cells (A.index op) r.1
                  phase := Function.update c.phase t (.acted ticket op r.2) }, none)
      | _ => .error ()
  | .release t =>
      match c.phase t with
      | .acted ticket op result =>
          .ok ({ c with
                  holder := Function.update c.holder (A.index op) none
                  phase := Function.update c.phase t .idle },
            some { thread := t
                   ticket := ticket
                   op := op
                   result := result })
      | _ => .error ()

/-! ## The lock order is a linearization -/

/-- What ties a configuration to the sequential execution of its lock order. -/
structure Linear (s : ι → σ) (c : Conf ι σ Op R T) : Prop where
  free : ∀ i, c.holder i = none → c.cells i = (A.execAll s c.order).1 i
  entered : ∀ t ticket op, c.phase t = .entered ticket op →
    c.holder (A.index op) = some t ∧ c.order[ticket]? = some op ∧
      (A.act op (c.cells (A.index op))).1 = (A.execAll s c.order).1 (A.index op) ∧
      (A.execAll s c.order).2[ticket]? = some (A.act op (c.cells (A.index op))).2
  acted : ∀ t ticket op result, c.phase t = .acted ticket op result →
    c.holder (A.index op) = some t ∧ c.order[ticket]? = some op ∧
      c.cells (A.index op) = (A.execAll s c.order).1 (A.index op) ∧
      (A.execAll s c.order).2[ticket]? = some result

omit [DecidableEq T] in
theorem linear_start (s : ι → σ) : A.Linear s (start s : Conf ι σ Op R T) := by
  constructor
  · intro i _
    rfl
  · intro t ticket op h
    cases h
  · intro t ticket op result h
    cases h

section Steps

variable {A} {s : ι → σ} {c : Conf ι σ Op R T}

theorem getElem?_concat_of_some {α : Type*} {l : List α} {k : Nat} {a b : α}
    (h : l[k]? = some a) : (l ++ [b])[k]? = some a := by
  have hk : k < l.length := (List.getElem?_eq_some_iff.1 h).1
  rw [List.getElem?_append_left hk, h]

omit [DecidableEq ι] [DecidableEq T] in
/-- A cell that one thread has locked is not one that another has. -/
theorem index_ne_of_holder {t t' : T} {op op' : Op} (hheld : c.holder (A.index op) = some t)
    (ht : t' ≠ t) (hheld' : c.holder (A.index op') = some t') : A.index op' ≠ A.index op := by
  intro heq
  rw [heq, hheld] at hheld'
  exact ht (Option.some.inj hheld').symm

theorem Linear.acquire (h : A.Linear s c) {t : T} {op : Op} (hidle : c.phase t = .idle)
    (hfree : c.holder (A.index op) = none) :
    A.Linear s { c with
      holder := Function.update c.holder (A.index op) (some t)
      phase := Function.update c.phase t (.entered c.order.length op)
      order := c.order ++ [op] } := by
  -- the cell is free, so it holds what the operations before have left
  have hcell : c.cells (A.index op) = (A.execAll s c.order).1 (A.index op) := h.free _ hfree
  -- a cell that another thread has locked is not the one that is taken now
  have hother : ∀ t' op', c.holder (A.index op') = some t' → A.index op' ≠ A.index op := by
    intro t' op' hheld heq
    rw [heq, hfree] at hheld
    cases hheld
  have hne : ∀ t', t' ≠ t ∨ c.phase t' = .idle := by
    intro t'
    by_cases ht : t' = t
    · exact Or.inr (ht ▸ hidle)
    · exact Or.inl ht
  constructor
  · intro i hi
    by_cases hidx : i = A.index op
    · subst hidx
      simp at hi
    · simp only [Function.update_of_ne hidx] at hi
      simp [execAll_concat, exec, Function.update_of_ne hidx, h.free i hi]
  · intro t' ticket op' hphase
    by_cases ht : t' = t
    · subst ht
      simp only [Function.update_self, Phase.entered.injEq] at hphase
      rcases hphase with ⟨rfl, rfl⟩
      refine ⟨by simp, by simp, ?_, ?_⟩
      · simp [execAll_concat, exec, hcell]
      · -- the ticket is the length of the order, so the result is the last one
        simp [execAll_concat, exec, hcell]
    · simp only [Function.update_of_ne ht] at hphase
      rcases h.entered t' ticket op' hphase with ⟨hheld, hop, hcells, hresult⟩
      have hidx := hother t' op' hheld
      refine ⟨by simp [Function.update_of_ne hidx, hheld], getElem?_concat_of_some hop, ?_, ?_⟩
      · simpa [execAll_concat, exec, Function.update_of_ne hidx] using hcells
      · simpa [execAll_concat] using getElem?_concat_of_some hresult
  · intro t' ticket op' result hphase
    by_cases ht : t' = t
    · subst ht
      simp at hphase
    · simp only [Function.update_of_ne ht] at hphase
      rcases h.acted t' ticket op' result hphase with ⟨hheld, hop, hcells, hresult⟩
      have hidx := hother t' op' hheld
      refine ⟨by simp [Function.update_of_ne hidx, hheld], getElem?_concat_of_some hop, ?_, ?_⟩
      · simpa [execAll_concat, exec, Function.update_of_ne hidx] using hcells
      · simpa [execAll_concat] using getElem?_concat_of_some hresult

theorem Linear.act (h : A.Linear s c) {t : T} {ticket : Nat} {op : Op}
    (hphase : c.phase t = .entered ticket op) :
    A.Linear s { c with
      cells := Function.update c.cells (A.index op) (A.act op (c.cells (A.index op))).1
      phase := Function.update c.phase t
        (.acted ticket op (A.act op (c.cells (A.index op))).2) } := by
  rcases h.entered t ticket op hphase with ⟨hheld, hop, hcells, hresult⟩
  constructor
  · intro i hi
    -- a free cell is not the one that `t` holds
    have hidx : i ≠ A.index op := by
      intro heq
      subst heq
      rw [hheld] at hi
      cases hi
    simpa [Function.update_of_ne hidx] using h.free i hi
  · intro t' ticket' op' hphase'
    by_cases ht : t' = t
    · subst ht
      simp at hphase'
    · simp only [Function.update_of_ne ht] at hphase'
      have hold := h.entered t' ticket' op' hphase'
      simpa [Function.update_of_ne (index_ne_of_holder hheld ht hold.1)] using hold
  · intro t' ticket' op' result' hphase'
    by_cases ht : t' = t
    · subst ht
      simp only [Function.update_self, Phase.acted.injEq] at hphase'
      rcases hphase' with ⟨rfl, rfl, rfl⟩
      exact ⟨hheld, hop, by simpa using hcells, hresult⟩
    · simp only [Function.update_of_ne ht] at hphase'
      have hold := h.acted t' ticket' op' result' hphase'
      simpa [Function.update_of_ne (index_ne_of_holder hheld ht hold.1)] using hold

theorem Linear.release (h : A.Linear s c) {t : T} {ticket : Nat} {op : Op} {result : R}
    (hphase : c.phase t = .acted ticket op result) :
    A.Linear s { c with
      holder := Function.update c.holder (A.index op) none
      phase := Function.update c.phase t .idle } := by
  rcases h.acted t ticket op result hphase with ⟨hheld, _, hcells, _⟩
  constructor
  · intro i hi
    by_cases hidx : i = A.index op
    · subst hidx
      -- the act has brought the cell to where the sequential execution has it
      exact hcells
    · simp only [Function.update_of_ne hidx] at hi
      exact h.free i hi
  · intro t' ticket' op' hphase'
    by_cases ht : t' = t
    · subst ht
      simp at hphase'
    · simp only [Function.update_of_ne ht] at hphase'
      have hold := h.entered t' ticket' op' hphase'
      simpa [Function.update_of_ne (index_ne_of_holder hheld ht hold.1)] using hold
  · intro t' ticket' op' result' hphase'
    by_cases ht : t' = t
    · subst ht
      simp at hphase'
    · simp only [Function.update_of_ne ht] at hphase'
      have hold := h.acted t' ticket' op' result' hphase'
      simpa [Function.update_of_ne (index_ne_of_holder hheld ht hold.1)] using hold

end Steps

/-- An operation that has returned has its place in the lock order and its sequential result. -/
def Agrees (s : ι → σ) (c : Conf ι σ Op R T) (d : Done Op R T) : Prop :=
  c.order[d.ticket]? = some d.op ∧ (A.execAll s c.order).2[d.ticket]? = some d.result

/-- One step keeps the configuration linear, keeps every earlier result in place, and the result
it returns, if any, agrees. -/
theorem linear_move {s : ι → σ} {c c' : Conf ι σ Op R T} {m : Move Op T}
    {out : Option (Done Op R T)} (h : A.Linear s c) (hm : A.move c m = .ok (c', out)) :
    A.Linear s c' ∧ (∀ d, A.Agrees s c d → A.Agrees s c' d) ∧ ∀ d, out = some d → A.Agrees s c' d := by
  cases m with
  | acquire t op =>
      simp only [move] at hm
      split at hm
      · rename_i hidle hfree
        cases hm
        -- a longer order moves no earlier ticket
        refine ⟨h.acquire hidle hfree, ?_, ?_⟩
        · intro d hd
          refine ⟨getElem?_concat_of_some hd.1, ?_⟩
          simpa [execAll_concat] using getElem?_concat_of_some hd.2
        · intro d hd
          cases hd
      · cases hm
  | act t =>
      simp only [move] at hm
      split at hm
      · rename_i ticket op hphase
        cases hm
        refine ⟨h.act hphase, fun d hd => hd, ?_⟩
        intro d hd
        cases hd
      · cases hm
  | release t =>
      simp only [move] at hm
      split at hm
      · rename_i ticket op result hphase
        cases hm
        rcases h.acted t ticket op result hphase with ⟨_, hop, _, hresult⟩
        refine ⟨h.release hphase, fun d hd => hd, ?_⟩
        intro d hd
        cases hd
        exact ⟨hop, hresult⟩
      · cases hm

/-- Every concurrent execution is the sequential one in lock order. -/
theorem linearizes {s : ι → σ} {moves : List (Move Op T)} {c : Conf ι σ Op R T}
    {outs : List (Option (Done Op R T))} (h : run A.move (start s) moves = .ok (c, outs)) :
    (∀ d, some d ∈ outs → A.Agrees s c d) ∧
      ∀ i, c.holder i = none → c.cells i = (A.execAll s c.order).1 i := by
  let P : Conf ι σ Op R T → List (Move Op T) → List (Option (Done Op R T)) → Prop :=
    fun c _ outs => A.Linear s c ∧ ∀ d, some d ∈ outs → A.Agrees s c d
  have hinit : P (start s) [] [] := by
    refine ⟨A.linear_start s, ?_⟩
    intro d hd
    simp at hd
  have hP : P c moves outs := by
    refine run_history hinit ?_ h
    intro ms m t as e a _ hP hmove
    rcases A.linear_move hP.1 hmove with ⟨hlin, hkeep, hout⟩
    refine ⟨hlin, ?_⟩
    intro d hd
    rcases List.mem_append.1 hd with hold | hnew
    · exact hkeep d (hP.2 d hold)
    · exact hout d (List.mem_singleton.1 hnew).symm
  exact ⟨hP.2, hP.1.free⟩

end CellOps

end Lib
