import CapyAmqp.Cache.Basic
import CapyAmqp.Lib.Run
import CapyAmqp.Lib.LockOrder
import Mathlib.Algebra.BigOperators.Fin

/-!
# Flat — one map for the whole cache

`Flat` is what a cache is for: one finite map from keys to items, with no shards and no
erase-and-insert steps.  The sharded cache simulates it: `Cache.simulates` carries the relation
`Lib.Splits` through every call, and `Cache.sharding_transparent` states what follows for whole
runs and for threads that work on the shards concurrently.
-/

namespace CapyAmqp

open Lib

/-! ## The flat map -/

/-- One map from keys to (value, expiration). -/
abbrev Flat (K T : Type) := Finmap fun _ : K => CacheItem T

/-- Whether a write goes through, given whether the key is there. -/
def CacheWritemode.writes (mode : CacheWritemode) (present : Bool) : Bool :=
  match mode with
  | .writeAlways => true
  | .onlyWriteIfSet => present
  | .onlyWriteIfNotSet => !present

namespace Flat

variable {K T : Type} [DecidableEq K]

def set (m : Flat K T) (id : K) (val : Option T) (expiration : Int) (mode : CacheWritemode) :
    Flat K T × Nat :=
  if mode.writes (decide (id ∈ m)) then
    (Finmap.insert id
      { data := val
        expiration := expiration } m, 1)
  else (m, 0)

/-- A lookup drops the item it finds when that has expired. -/
def get (m : Flat K T) (id : K) (now : Int) : Flat K T × Option T :=
  match m.lookup id with
  | none => (m, none)
  | some item => if item.expired now then (Finmap.erase id m, none) else (m, item.data)

def has (m : Flat K T) (id : K) (now : Int) : Flat K T × Bool :=
  let result := get m id now
  (result.1, result.2.isSome)

def del (m : Flat K T) (id : K) : Flat K T × Nat :=
  (Finmap.erase id m, if id ∈ m then 1 else 0)

/-- Drop the expired items among the keys that are visited. -/
def cull (m : Flat K T) (visited : K → Bool) (clock : K → Int) : Flat K T :=
  filterMap (fun id item => !item.expired (clock id) || !visited id) m

/-- Run one call; the cull of a shard visits the keys that `calcIndex` sends there. -/
def apply (hash : K → Nat) (m : Flat K T) : CacheOp K T → Flat K T × CacheResult T
  | .set id val expiration mode =>
      let r := set m id val expiration mode
      (r.1, .count r.2)
  | .get id now =>
      let r := get m id now
      (r.1, .pointer r.2)
  | .has id now =>
      let r := has m id now
      (r.1, .found r.2)
  | .del id =>
      let r := del m id
      (r.1, .count r.2)
  | .flush => (∅, .count m.keys.card)
  | .metrics => (m, .count m.keys.card)
  | .cull index clock =>
      (cull m (fun id => decide (Cache.calcIndex hash id = index)) clock, .none)
  | .curate clock => (cull m (fun _ => true) clock, .none)

end Flat

/-! ## One shard behaves like a flat map -/

section Shards

variable {K T : Type} [DecidableEq K] (m : Shard K T) (id : K)

theorem Shard.insertOrRewrite_of_notMem {item : CacheItem T} {mode : CacheWritemode} (h : id ∉ m) :
    Shard.insertOrRewrite m id item mode = (Finmap.insert id item m, 1) := by
  simp [insertOrRewrite, stdInsert, h]

/-- Erasing a key and inserting it again is inserting it over the old entry. -/
theorem Shard.insert_erase (item : CacheItem T) :
    Finmap.insert id item (Finmap.erase id m) = Finmap.insert id item m := by
  refine Finmap.ext_lookup ?_
  intro k
  by_cases hk : k = id
  · subst hk
    simp
  · simp [Finmap.lookup_insert_of_ne _ hk, Finmap.lookup_erase_ne hk]

/-- The insert, erase and re-write of the source amount to one conditional insert. -/
theorem Shard.set_eq_flat (val : Option T) (expiration : Int) (mode : CacheWritemode) :
    m.set id val expiration mode = Flat.set m id val expiration mode := by
  -- after the erase the second insert finds no entry
  have hgone : id ∉ (Shard.stdErase m id).1 := by
    simp [stdErase]
  by_cases hid : id ∈ m
  · cases mode with
    | writeAlways =>
        simp [Shard.set, Flat.set, CacheWritemode.writes, insertOrRewrite, stdInsert, stdErase, hid,
          insert_erase]
    | onlyWriteIfSet =>
        let item : CacheItem T :=
          { data := val
            expiration := expiration }
        have herase : insertOrRewrite (m.stdErase id).1 id item .onlyWriteIfSet =
            (Finmap.insert id item (m.stdErase id).1, 1) :=
          insertOrRewrite_of_notMem _ id hgone
        simpa [Shard.set, Flat.set, CacheWritemode.writes, hid, stdErase, insert_erase] using herase
    | onlyWriteIfNotSet =>
        simp [Shard.set, Flat.set, CacheWritemode.writes, insertOrRewrite, stdInsert, hid]
  · cases mode with
    | writeAlways =>
        simp [Shard.set, Flat.set, CacheWritemode.writes, insertOrRewrite_of_notMem m id hid]
    | onlyWriteIfSet =>
        simp [Shard.set, Flat.set, CacheWritemode.writes, hid]
    | onlyWriteIfNotSet =>
        simp [Shard.set, Flat.set, CacheWritemode.writes, hid, insertOrRewrite_of_notMem m id hid]

theorem Shard.get_eq_flat (now : Int) : m.get id now = Flat.get m id now := rfl

end Shards

/-! ## Operations on one key, in a shard and in the whole map -/

namespace Flat

variable {K T : Type} [DecidableEq K]

section Local

variable {s m : Flat K T} {id : K}

theorem lookup_set_of_ne {val : Option T} {expiration : Int} {mode : CacheWritemode} {k : K}
    (hk : k ≠ id) : (set m id val expiration mode).1.lookup k = m.lookup k := by
  unfold set
  split
  · exact Finmap.lookup_insert_of_ne _ hk
  · rfl

theorem lookup_get_of_ne {now : Int} {k : K} (hk : k ≠ id) :
    (get m id now).1.lookup k = m.lookup k := by
  unfold get
  split
  · rfl
  · split
    · exact Finmap.lookup_erase_ne hk
    · rfl

variable (h : s.lookup id = m.lookup id)

include h

theorem mem_congr : id ∈ s ↔ id ∈ m := by
  rw [← Finmap.lookup_isSome, ← Finmap.lookup_isSome, h]

/-- What `set` answers and leaves under its key depends on that key only. -/
theorem set_congr (val : Option T) (expiration : Int) (mode : CacheWritemode) :
    (set s id val expiration mode).2 = (set m id val expiration mode).2 ∧
      (set s id val expiration mode).1.lookup id = (set m id val expiration mode).1.lookup id := by
  have hmem : decide (id ∈ s) = decide (id ∈ m) := by
    simp [mem_congr h]
  unfold set
  rw [hmem]
  split
  · simp
  · exact ⟨rfl, h⟩

theorem get_congr (now : Int) :
    (get s id now).2 = (get m id now).2 ∧
      (get s id now).1.lookup id = (get m id now).1.lookup id := by
  unfold get
  rw [h]
  cases hm : m.lookup id with
  | none =>
      simp [h, hm]
  | some item =>
      by_cases hexp : item.expired now = true
      · simp [hexp]
      · simp [hexp, h, hm]

end Local

/-! ## Culls -/

theorem cull_none (m : Flat K T) (clock : K → Int) : cull m (fun _ => false) clock = m := by
  simpa [cull] using filterMap_true m

/-- Two culls with the same readings visit the keys of both. -/
theorem cull_cull (m : Flat K T) (p q : K → Bool) (clock : K → Int) :
    cull (cull m p clock) q clock = cull m (fun id => p id || q id) clock := by
  unfold cull
  rw [filterMap_filterMap]
  congr
  funext id item
  cases item.expired (clock id) <;> simp

end Flat

end CapyAmqp
