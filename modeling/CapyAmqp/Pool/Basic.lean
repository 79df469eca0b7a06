import CapyAmqp.Lib.Monitor
import Mathlib.Data.List.Basic

/-!
# Pool — the object pool of `pool.h`

A `Pool` keeps the objects that nobody holds in a vector.  `acquire` takes the last one and waits
for a release while there is none; `release` puts an object at the front and calls `notify_all`.
Every member locks the pool's mutex, so the pool is a monitor, and its threads may interleave
wherever `Lib.MonitorOps.move` lets them.
-/

namespace CapyAmqp

open Lib

/-! ## The pool -/

structure Pool (O : Type) where
  size : Nat
  factory : Nat → O
  availableObjects : List O

namespace Pool

variable {O : Type}

/-- The loop of `fill`: `available_objects_.push_back(factory_(i))`. -/
def fill (p : Pool O) : Pool O :=
  (List.range p.size).foldl
    (fun p i => { p with availableObjects := p.availableObjects ++ [p.factory i] }) p

/-- `Pool::Pool`. -/
def construct (size : Nat) (factory : Nat → O) : Pool O :=
  fill
    { size := size
      factory := factory
      availableObjects := [] }

/-- `acquire`, after the loop; the last object of an empty vector is undefined. -/
def acquire (p : Pool O) : Option (Pool O × O) :=
  match p.availableObjects.getLast? with
  | none => none
  | some last => some ({ p with availableObjects := p.availableObjects.dropLast }, last)

def release (p : Pool O) (object : O) : Pool O :=
  { p with availableObjects := object :: p.availableObjects }

def getAvailable (p : Pool O) : Nat :=
  p.availableObjects.length

def empty (p : Pool O) : Bool :=
  p.availableObjects.isEmpty

end Pool

/-! ## Its members under the mutex -/

inductive PoolOp (O : Type)
  | acquire
  | release (object : O)
  | getAvailable
  | empty
  deriving DecidableEq

inductive PoolResult (O : Type)
  | object (o : O)
  | count (n : Nat)
  | flag (b : Bool)
  | void
  deriving DecidableEq

namespace Pool

variable {O : Type}

/-- What a member does while it holds the mutex. -/
def act : PoolOp O → Pool O → Option (Pool O × PoolResult O)
  | .acquire, p => p.acquire.map fun r => (r.1, .object r.2)
  | .release object, p => some (p.release object, .void)
  | .getAvailable, p => some (p, .count p.getAvailable)
  | .empty, p => some (p, .flag p.empty)

/-- The pool as a monitor: `acquire` waits on `wait_for_release_`, `release` notifies. -/
def ops (O : Type) : MonitorOps (Pool O) (PoolOp O) (PoolResult O) :=
  { ready := fun op p =>
      match op with
      | .acquire => !p.empty
      | _ => true
    act := act
    notifies := fun op =>
      match op with
      | .release _ => true
      | _ => false }

/-! ### The members in terms of the vector -/

theorem acquire_iff {p p' : Pool O} {o : O} :
    p.acquire = some (p', o) ↔
      p.availableObjects = p'.availableObjects ++ [o] ∧ p'.size = p.size ∧
        p'.factory = p.factory := by
  unfold acquire
  rcases List.eq_nil_or_concat p.availableObjects with hnil | ⟨rest, last, hlast⟩
  · simp [hnil]
  · rcases p' with ⟨size, factory, available⟩
    rw [hlast, List.concat_eq_append]
    simp only [List.getLast?_append, List.getLast?_singleton, Option.some_or, List.dropLast_concat,
      Option.some.injEq, Prod.mk.injEq, Pool.mk.injEq]
    constructor
    · rintro ⟨⟨rfl, rfl, rfl⟩, rfl⟩
      exact ⟨rfl, rfl, rfl⟩
    · rintro ⟨hsplit, rfl, rfl⟩
      rcases List.append_inj' hsplit rfl with ⟨rfl, hsame⟩
      exact ⟨⟨rfl, rfl, rfl⟩, List.head_eq_of_cons_eq hsame⟩

theorem acquire_isSome {p : Pool O} (h : p.empty = false) : p.acquire.isSome = true := by
  unfold acquire
  cases hlast : p.availableObjects.getLast? with
  | none =>
      have hnil : p.availableObjects = [] := List.getLast?_eq_none_iff.1 hlast
      simp [empty, hnil] at h
  | some last =>
      rfl

/-- The objects that `fill` puts into the vector. -/
def objects (size : Nat) (factory : Nat → O) : List O :=
  (List.range size).map factory

theorem construct_eq (size : Nat) (factory : Nat → O) :
    construct size factory =
      { size := size
        factory := factory
        availableObjects := objects size factory } := by
  have hloop : ∀ (l : List Nat) (p : Pool O),
      l.foldl (fun p i => { p with availableObjects := p.availableObjects ++ [p.factory i] }) p =
        { p with availableObjects := p.availableObjects ++ l.map p.factory } := by
    intro l
    induction l with
    | nil =>
        intro p
        simp
    | cons i l ih =>
        intro p
        simp [ih]
  simp [construct, fill, hloop, objects]

/-! ## Waiting for a release -/

theorem wakes : (ops O).Wakes := by
  intro op p p' r op' hact hbefore hafter
  -- only `acquire` is ever not ready, and only `release` adds an object
  cases op' with
  | acquire =>
      have hempty : p.availableObjects = [] := by
        simpa [ops, empty] using hbefore
      cases op with
      | release object =>
          rfl
      | acquire =>
          have hnone : p.acquire = none := by
            simp [Pool.acquire, hempty]
          simp [ops, act, hnone] at hact
      | getAvailable =>
          cases hact
          rw [hbefore] at hafter
          cases hafter
      | empty =>
          cases hact
          rw [hbefore] at hafter
          cases hafter
  | _ =>
      cases hbefore

theorem act_defined (op : PoolOp O) (p : Pool O) (h : (ops O).ready op p = true) :
    ((ops O).act op p).isSome = true := by
  cases op with
  | acquire =>
      have hsome := acquire_isSome (p := p) (by simpa [ops] using h)
      simpa [ops, act] using hsome
  | _ =>
      rfl

/-- A thread sleeps in `acquire` although an object is there only as long as the thread that has put
it there holds the mutex and is about to call `notify_all`; and `acquire` never pops from an empty
vector. -/
theorem no_lost_wakeup {T : Type} [DecidableEq T] (size : Nat) (factory : Nat → O)
    (ms : List (MonitorOps.Move (PoolOp O) T)) :
    run (ops O).move (MonitorOps.start (construct size factory) : MonitorOps.Conf _ _ _ T) ms ≠
        .error .undefined ∧
      ∀ c outs, run (ops O).move (MonitorOps.start (construct size factory)) ms = .ok (c, outs) →
        ∀ t : T, c.phase t = .asleep .acquire → c.state.availableObjects ≠ [] →
          ∃ u object r c', c.holder = some u ∧ c.phase u = .acted (.release object) r ∧
            (ops O).move c (.notify u) = .ok (c', none) ∧ c'.phase t = .woken .acquire := by
  refine ⟨MonitorOps.run_ne_undefined wakes act_defined, ?_⟩
  intro c outs hrun t hasleep havailable
  have hready : (ops O).ready .acquire c.state = true := by
    simpa [ops, empty] using havailable
  rcases MonitorOps.asleep_pending wakes hrun hasleep hready with
    ⟨u, op, r, c', hholder, hphase, hnotifies, hnotify, hwoken⟩
  cases op with
  | release object =>
      exact ⟨u, object, r, c', hholder, hphase, hnotify, hwoken⟩
  | _ =>
      cases hnotifies

/-- One thread sleeps, and another one releases an object. -/
theorem no_lost_wakeup_two :
    ∃ c outs u object r c',
      run (ops Nat).move (MonitorOps.start (construct 1 fun i => i))
        [.call false .acquire, .lock false, .test false, .act false, .unlock false,
          .call true .acquire, .lock true, .test true, .sleep true, .call false (.release 0),
          .lock false, .test false, .act false] = .ok (c, outs) ∧
      c.phase true = .asleep .acquire ∧ c.phase u = .acted (.release object) r ∧
      (ops Nat).move c (.notify u) = .ok (c', none) ∧ c'.phase true = .woken .acquire := by
  obtain ⟨⟨c, outs⟩, hrun, hasleep, havailable⟩ : ∃ r,
      run (ops Nat).move (MonitorOps.start (construct 1 fun i => i))
        [.call false .acquire, .lock false, .test false, .act false, .unlock false,
          .call true .acquire, .lock true, .test true, .sleep true, .call false (.release 0),
          .lock false, .test false, .act false] = .ok r ∧
      r.1.phase true = .asleep .acquire ∧ r.1.state.availableObjects = [0] := ⟨_, rfl, rfl, rfl⟩
  have hsome : c.state.availableObjects ≠ [] := by
    intro hnil
    have hsame : [] = [0] := hnil.symm.trans havailable
    cases hsame
  rcases (no_lost_wakeup 1 (fun i => i) _).2 c outs hrun true hasleep hsome with
    ⟨u, object, r, c', _, hphase, hnotify, hwoken⟩
  exact ⟨c, outs, u, object, r, c', hrun, hasleep, hphase, hnotify, hwoken⟩

end Pool

end CapyAmqp
