import CapyAmqp.Pool.Basic
import Mathlib.Data.List.Nodup

/-!
# Holders — who holds the objects of a pool

The history of a pool, the acts of `acquire` and `release` in the order of the mutex, says who holds
what: a thread holds an object from the moment it pops it to the moment it puts it back.  When only
holders release, each object is either available or held once (`Owned`).  Whoever releases, the
vector is a queue (`queue_law`): what has been taken from it and what is still in it is what was in
it first and what has been put into it.
-/

namespace CapyAmqp

open Lib MonitorOps

namespace Pool

variable {O T : Type}

/-- An act on a pool. -/
abbrev PoolEffect (O T : Type) := Effect (PoolOp O) (PoolResult O) T

/-- The pool with its threads. -/
abbrev PoolConf (O T : Type) := Conf (Pool O) (PoolOp O) (PoolResult O) T

/-! ## The history -/

section History

/-- The object that an act hands out. -/
def acquiredObject (e : PoolEffect O T) : Option O :=
  match e.result with
  | .object o => some o
  | _ => none

/-- The object that an act puts back. -/
def releasedObject (e : PoolEffect O T) : Option O :=
  match e.op with
  | .release o => some o
  | _ => none

def acquired (es : List (PoolEffect O T)) : List O :=
  es.filterMap acquiredObject

def released (es : List (PoolEffect O T)) : List O :=
  es.filterMap releasedObject

variable [DecidableEq O] [DecidableEq T]

/-- One act in the list of who holds what. -/
def record (held : List (T × O)) (e : PoolEffect O T) : List (T × O) :=
  match e.op, e.result with
  | .acquire, .object o => (e.thread, o) :: held
  | .release o, _ => held.erase (e.thread, o)
  | _, _ => held

/-- Who holds what after these acts. -/
def held (es : List (PoolEffect O T)) : List (T × O) :=
  es.foldl record []

theorem held_concat (es : List (PoolEffect O T)) (e : PoolEffect O T) :
    held (es ++ [e]) = record (held es) e := by
  simp [held]

end History

/-! ## The vector is a queue -/

section Queue

variable [DecidableEq T] {c c' : PoolConf O T} {m : Move (PoolOp O) T}
  {out : Option (PoolEffect O T)}

/-- What one step takes from the back of the vector and puts in at its front. -/
theorem move_queue (h : (ops O).move c m = .ok (c', out)) :
    ∃ new, c'.effects = c.effects ++ new ∧
      acquired new ++ c'.state.availableObjects.reverse =
        c.state.availableObjects.reverse ++ released new := by
  rcases move_effects h with ⟨hstate, heffects⟩ | ⟨t, op, r, _, _, hact, heffects, _⟩
  · exact ⟨[], by simp [heffects], by simp [hstate, acquired, released]⟩
  · refine ⟨_, heffects, ?_⟩
    cases op with
    | acquire =>
        simp only [ops, act, Option.map_eq_some_iff, Prod.mk.injEq] at hact
        rcases hact with ⟨⟨p, o⟩, hacquire, rfl, rfl⟩
        -- `pop_back` takes the last element, the head of the reversed vector
        rw [(acquire_iff.1 hacquire).1]
        simp [acquired, released, acquiredObject, releasedObject]
    | release object =>
        simp only [ops, act, Option.some.injEq, Prod.mk.injEq] at hact
        rcases hact with ⟨hpushed, rfl⟩
        -- `insert` at `begin` makes it the last of the reversed vector
        rw [← hpushed]
        simp [acquired, released, acquiredObject, releasedObject, release]
    | getAvailable =>
        simp only [ops, act, Option.some.injEq, Prod.mk.injEq] at hact
        rcases hact with ⟨hsame, rfl⟩
        rw [← hsame]
        simp [acquired, released, acquiredObject, releasedObject, List.filterMap_cons]
    | empty =>
        simp only [ops, act, Option.some.injEq, Prod.mk.injEq] at hact
        rcases hact with ⟨hsame, rfl⟩
        rw [← hsame]
        simp [acquired, released, acquiredObject, releasedObject, List.filterMap_cons]

/-- The queue law: objects leave in the order in which they are there or come in. -/
theorem queue_law {ms : List (Move (PoolOp O) T)} {outs : List (Option (PoolEffect O T))}
    (hrun : run (ops O).move c ms = .ok (c', outs)) :
    ∃ new, c'.effects = c.effects ++ new ∧
      acquired new ++ c'.state.availableObjects.reverse =
        c.state.availableObjects.reverse ++ released new := by
  let Q : PoolConf O T → Prop := fun c' =>
    ∃ new, c'.effects = c.effects ++ new ∧
      acquired new ++ c'.state.availableObjects.reverse =
        c.state.availableObjects.reverse ++ released new
  refine run_invariant (I := Q) ?_ ⟨[], by simp, by simp [acquired, released]⟩ hrun
  rintro c₁ c₂ m out ⟨new, heffects, hqueue⟩ hm
  rcases move_queue hm with ⟨next, heffects', hqueue'⟩
  refine ⟨new ++ next, by rw [heffects', heffects, List.append_assoc], ?_⟩
  -- put the next step behind those that have been made
  calc
    acquired (new ++ next) ++ c₂.state.availableObjects.reverse
        = acquired new ++ (acquired next ++ c₂.state.availableObjects.reverse) := by
          simp [acquired]
    _ = (acquired new ++ c₁.state.availableObjects.reverse) ++ released next := by
          rw [hqueue', List.append_assoc]
    _ = c.state.availableObjects.reverse ++ released (new ++ next) := by
          rw [hqueue, List.append_assoc]
          simp [released]

omit [DecidableEq T] in
/-- What `k` others precede comes out as number `k`, counted from zero. -/
theorem acquired_getElem {new : List (PoolEffect O T)}
    (h : acquired new ++ c'.state.availableObjects.reverse =
      c.state.availableObjects.reverse ++ released new) {k : Nat} {o : O}
    (ho : c.state.availableObjects.reverse[k]? = some o) (hk : k < (acquired new).length) :
    (acquired new)[k]? = some o := by
  have hlength : k < c.state.availableObjects.reverse.length :=
    (List.getElem?_eq_some_iff.1 ho).1
  calc
    (acquired new)[k]? = (acquired new ++ c'.state.availableObjects.reverse)[k]? :=
          (List.getElem?_append_left hk).symm
    _ = (c.state.availableObjects.reverse ++ released new)[k]? := by rw [h]
    _ = some o := by rw [List.getElem?_append_left hlength, ho]

end Queue

/-! ## Holders -/

section Holders

open scoped List

variable [DecidableEq O] [DecidableEq T] {c c' : PoolConf O T} {m : Move (PoolOp O) T}
  {out : Option (PoolEffect O T)}

/-- Only an object that is held is released, and by its holder. -/
def HolderReleases (c : PoolConf O T) (m : Move (PoolOp O) T) : Prop :=
  ∀ t o, m = .call t (.release o) → (t, o) ∈ held c.effects

instance (c : PoolConf O T) (m : Move (PoolOp O) T) : Decidable (HolderReleases c m) :=
  match m with
  | .call t (.release o) =>
      decidable_of_iff ((t, o) ∈ held c.effects) (by simp [HolderReleases])
  | .call t .acquire => isTrue (by simp [HolderReleases])
  | .call t .getAvailable => isTrue (by simp [HolderReleases])
  | .call t .empty => isTrue (by simp [HolderReleases])
  | .lock _ => isTrue (by simp [HolderReleases])
  | .test _ => isTrue (by simp [HolderReleases])
  | .sleep _ => isTrue (by simp [HolderReleases])
  | .wakeUp _ => isTrue (by simp [HolderReleases])
  | .act _ => isTrue (by simp [HolderReleases])
  | .notify _ => isTrue (by simp [HolderReleases])
  | .unlock _ => isTrue (by simp [HolderReleases])

/-- Each object is available or held, and whoever is about to put one back holds it. -/
structure Owned (objects : List O) (c : PoolConf O T) : Prop where
  split : (c.state.availableObjects ++ (held c.effects).map Prod.snd).Perm objects
  releasing : ∀ t o, (c.phase t).pending = some (.release o) → (t, o) ∈ held c.effects

theorem mem_record {holders : List (T × O)} {e : PoolEffect O T} {t : T} {o : O}
    (h : (t, o) ∈ holders) (ht : t ≠ e.thread) : (t, o) ∈ record holders e := by
  rcases e with ⟨u, op, r⟩
  cases op with
  | acquire =>
      cases r <;> simp [record, h]
  | release o' =>
      -- the pair that is erased has another thread
      have hne : (t, o) ≠ (u, o') := by
        intro heq
        exact ht (congrArg Prod.fst heq)
      simpa [record] using (List.mem_erase_of_ne hne).2 h
  | _ =>
      simpa [record] using h

/-- An act moves an object between the vector and the holders. -/
theorem Owned.split_act {objects : List O} (h : Owned objects c) {t : T} {op : PoolOp O}
    {r : PoolResult O} {p : Pool O} (hphase : c.phase t = .passed op)
    (hact : (ops O).act op c.state = some (p, r)) :
    (p.availableObjects ++
      (record (held c.effects) { thread := t, op := op, result := r }).map Prod.snd).Perm
        objects := by
  refine List.Perm.trans ?_ h.split
  cases op with
  | acquire =>
      simp only [ops, act, Option.map_eq_some_iff, Prod.mk.injEq] at hact
      rcases hact with ⟨⟨p, o⟩, hacquire, rfl, rfl⟩
      rw [(acquire_iff.1 hacquire).1]
      simp [record]
  | release object =>
      simp only [ops, act, Option.some.injEq, Prod.mk.injEq] at hact
      rcases hact with ⟨rfl, rfl⟩
      -- who releases holds the object, so erasing the pair takes it from the holders
      have hmem : (t, object) ∈ held c.effects := h.releasing t object (by rw [hphase]; rfl)
      have hperm := (List.perm_cons_erase hmem).map Prod.snd
      calc
        (c.state.release object).availableObjects ++
            ((held c.effects).erase (t, object)).map Prod.snd
          = object :: (c.state.availableObjects ++
              ((held c.effects).erase (t, object)).map Prod.snd) := rfl
        _ ~ c.state.availableObjects ++
              (object :: ((held c.effects).erase (t, object)).map Prod.snd) :=
            List.perm_middle.symm
        _ ~ c.state.availableObjects ++ (held c.effects).map Prod.snd :=
            hperm.symm.append_left _
  | getAvailable =>
      simp only [ops, act, Option.some.injEq, Prod.mk.injEq] at hact
      rcases hact with ⟨rfl, rfl⟩
      exact List.Perm.refl _
  | empty =>
      simp only [ops, act, Option.some.injEq, Prod.mk.injEq] at hact
      rcases hact with ⟨rfl, rfl⟩
      exact List.Perm.refl _

theorem Owned.move {objects : List O} (h : Owned objects c) (hholder : HolderReleases c m)
    (hm : (ops O).move c m = .ok (c', out)) : Owned objects c' := by
  rcases move_effects hm with ⟨hstate, heffects⟩ | ⟨t, op, r, rfl, hphase, hact, heffects, hnone⟩
  · refine ⟨by rw [hstate, heffects]; exact h.split, ?_⟩
    intro u o hu
    rw [heffects]
    -- whoever is about to release has been so before, or calls just now
    rcases move_pending hm hu with hold | hcall
    · exact h.releasing u o hold
    · exact hholder u o hcall
  · refine ⟨?_, ?_⟩
    · rw [heffects, held_concat]
      exact h.split_act hphase hact
    · intro u o hu
      -- the thread that has acted is not about to release
      have hut : u ≠ t := by
        rintro rfl
        rw [hnone] at hu
        cases hu
      rw [heffects, held_concat]
      rcases move_pending hm hu with hold | hcall
      · exact mem_record (h.releasing u o hold) hut
      · cases hcall

theorem owned_start (size : Nat) (factory : Nat → O) :
    Owned (objects size factory) (start (construct size factory) : PoolConf O T) := by
  refine ⟨?_, ?_⟩
  · simp [construct_eq, start, held]
  · intro t o h
    cases h

/-- Ownership of the pool's objects.

When only holders release, nobody holds an object that somebody else holds, or holds it twice, no
object is available twice, and the objects that are available and those that are held are the ones
the factory made.  Acts return in the order in which they happen, and the vector is a queue, in which
the objects of the factory become available together: an available object that `k` others precede is
the one that the next acquire but `k` takes, whatever is released before. -/
theorem ownership {size : Nat} {factory : Nat → O}
    (hdistinct : ∀ i j, i < size → j < size → factory i = factory j → i = j)
    {ms : List (Move (PoolOp O) T)} {outs : List (Option (PoolEffect O T))}
    (hholder : Along (ops O).move HolderReleases (start (construct size factory)) ms)
    (hrun : run (ops O).move (start (construct size factory)) ms = .ok (c, outs)) :
    (∀ t u o, (t, o) ∈ held c.effects → (u, o) ∈ held c.effects → t = u) ∧
    ((held c.effects).map Prod.snd).Nodup ∧
    c.state.availableObjects.Nodup ∧
    (c.state.availableObjects ++ (held c.effects).map Prod.snd).Perm (objects size factory) ∧
    c.state.getAvailable = size - (held c.effects).length ∧
    outs.flatMap Option.toList <+: c.effects ∧
    acquired c.effects ++ c.state.availableObjects.reverse =
      (objects size factory).reverse ++ released c.effects ∧
    ∀ ms' c' outs', run (ops O).move c ms' = .ok (c', outs') →
      ∃ new, c'.effects = c.effects ++ new ∧
        ∀ k o, c.state.availableObjects.reverse[k]? = some o → k < (acquired new).length →
          (acquired new)[k]? = some o := by
  have howned : Owned (objects size factory) c := by
    refine run_invariant_along (I := Owned (objects size factory)) ?_ (owned_start size factory)
      hholder hrun
    intro c c' m out h hP hm
    exact h.move hP hm
  have hobjects : (objects size factory).Nodup := by
    refine List.Nodup.map_on ?_ List.nodup_range
    intro i hi j hj hij
    exact hdistinct i j (List.mem_range.1 hi) (List.mem_range.1 hj) hij
  -- what is available and what is held make up the factory's objects
  have hnodup : (c.state.availableObjects ++ (held c.effects).map Prod.snd).Nodup :=
    howned.split.nodup_iff.2 hobjects
  have hheld : ((held c.effects).map Prod.snd).Nodup := hnodup.of_append_right
  rcases queue_law hrun with ⟨new, heffects, hqueue⟩
  refine ⟨?_, hheld, hnodup.of_append_left, howned.split, ?_, returned_prefix hrun, ?_, ?_⟩
  · intro t u o ht hu
    exact congrArg Prod.fst (List.inj_on_of_nodup_map hheld ht hu rfl)
  · have hlength := howned.split.length_eq
    simp only [List.length_append, List.length_map, objects, List.length_range] at hlength
    simp only [getAvailable]
    omega
  · have hnew : c.effects = new := heffects
    rw [hnew]
    simpa [start, construct_eq] using hqueue
  · intro ms' c' outs' hrun'
    rcases queue_law hrun' with ⟨next, heffects', hqueue'⟩
    exact ⟨next, heffects', fun k o ho hk => acquired_getElem hqueue' ho hk⟩

/-- One object changes hands: a thread waits for it, and the other one releases it. -/
def handOver : List (Move (PoolOp Nat) Bool) :=
  [.call false .acquire, .lock false, .test false, .act false, .unlock false,
    .call true .acquire, .lock true, .test true, .sleep true,
    .call false (.release 7), .lock false, .test false, .act false, .notify false, .unlock false,
    .lock true, .test true, .act true]

theorem ownership_handOver :
    ∃ c outs, run (ops Nat).move (start (construct 1 fun i => i + 7)) handOver = .ok (c, outs) ∧
      held c.effects = [(true, 7)] ∧ c.state.getAvailable = 1 - 1 := by
  have hholder : Along (ops Nat).move HolderReleases (start (construct 1 fun i => i + 7))
      handOver := by
    decide +kernel
  obtain ⟨⟨c, outs⟩, hrun, hheld⟩ : ∃ r,
      run (ops Nat).move (start (construct 1 fun i => i + 7)) handOver = .ok r ∧
        held r.1.effects = [(true, 7)] := ⟨_, rfl, by decide +kernel⟩
  have hdistinct : ∀ i j, i < 1 → j < 1 → i + 7 = j + 7 → i = j := by
    intro i j _ _ hij
    omega
  have howned := ownership hdistinct hholder hrun
  refine ⟨c, outs, hrun, hheld, ?_⟩
  rw [howned.2.2.2.2.1, hheld]
  rfl

end Holders

end Pool

end CapyAmqp
