import Mathlib.Logic.Function.Basic

/-!
# Heap — objects behind pointers

A heap hands out pointers that it has never handed out before; an object is read, replaced
and destroyed through its pointer.  The frontier `next` bounds every pointer in use, and the
field `fresh` carries that bound, so that an allocation can never return a live object.
-/

namespace Lib

/-- Objects of type `α` behind natural-number pointers. -/
structure Heap (α : Type*) where
  next : Nat
  cells : Nat → Option α
  fresh : ∀ p, next ≤ p → cells p = none

namespace Heap

variable {α : Type*}

instance : EmptyCollection (Heap α) :=
  ⟨{ next := 0
     cells := fun _ => none
     fresh := fun _ _ => rfl }⟩

/-- The object behind `p`, if there is a live one. -/
def read (h : Heap α) (p : Nat) : Option α :=
  h.cells p

/-- Place a new object, returning its pointer. -/
def alloc (h : Heap α) (a : α) : Heap α × Nat :=
  ({ next := h.next + 1
     cells := Function.update h.cells h.next (some a)
     fresh := by
       intro p hp
       rw [Function.update_of_ne (Nat.ne_of_gt hp)]
       exact h.fresh p (Nat.le_of_succ_le hp) }, h.next)

/-- Change the object behind `p`; nothing happens when there is none. -/
def modify (h : Heap α) (p : Nat) (f : α → α) : Heap α :=
  { next := h.next
    cells := Function.update h.cells p ((h.cells p).map f)
    fresh := by
      intro q hq
      by_cases hqp : q = p
      · subst hqp
        simp [h.fresh q hq]
      · rw [Function.update_of_ne hqp]
        exact h.fresh q hq }

/-- Destroy the object behind `p`. -/
def free (h : Heap α) (p : Nat) : Heap α :=
  { next := h.next
    cells := Function.update h.cells p none
    fresh := by
      intro q hq
      by_cases hqp : q = p
      · subst hqp
        simp
      · rw [Function.update_of_ne hqp]
        exact h.fresh q hq }

theorem read_eq_none_of_next_le {h : Heap α} {p : Nat} (hp : h.next ≤ p) : h.read p = none :=
  h.fresh p hp

theorem lt_next_of_read {h : Heap α} {p : Nat} {a : α} (hp : h.read p = some a) : p < h.next := by
  by_contra hge
  rw [read_eq_none_of_next_le (Nat.le_of_not_lt hge)] at hp
  cases hp

@[simp] theorem read_empty (p : Nat) : (∅ : Heap α).read p = none := rfl

@[simp] theorem alloc_snd (h : Heap α) (a : α) : (h.alloc a).2 = h.next := rfl

@[simp] theorem read_alloc_next (h : Heap α) (a : α) : (h.alloc a).1.read h.next = some a := by
  simp [alloc, read]

theorem read_alloc_of_ne {h : Heap α} {a : α} {p : Nat} (hp : p ≠ h.next) :
    (h.alloc a).1.read p = h.read p := by
  simp [alloc, read, hp]

/-- Allocation leaves live objects alone. -/
theorem read_alloc_of_read {h : Heap α} {a b : α} {p : Nat} (hp : h.read p = some b) :
    (h.alloc a).1.read p = some b := by
  rw [read_alloc_of_ne (Nat.ne_of_lt (lt_next_of_read hp)), hp]

@[simp] theorem read_modify_self (h : Heap α) (p : Nat) (f : α → α) :
    (h.modify p f).read p = (h.read p).map f := by
  simp [modify, read]

theorem read_modify_of_ne {h : Heap α} {p q : Nat} {f : α → α} (hq : q ≠ p) :
    (h.modify p f).read q = h.read q := by
  simp [modify, read, hq]

/-- A predicate that the change keeps still holds of every live object. -/
theorem exists_read_modify {h : Heap α} {p q : Nat} {f : α → α} {a : α} (hq : h.read q = some a) :
    (h.modify p f).read q = some (if q = p then f a else a) := by
  by_cases hqp : q = p
  · subst hqp
    simp [hq]
  · simp [read_modify_of_ne hqp, hq, hqp]

@[simp] theorem read_free_self (h : Heap α) (p : Nat) : (h.free p).read p = none := by
  simp [free, read]

theorem read_free_of_ne {h : Heap α} {p q : Nat} (hq : q ≠ p) : (h.free p).read q = h.read q := by
  simp [free, read, hq]

end Heap

end Lib
