import CapyAmqp.Cache.Sharding

/-!
# Table — a cache whose entries never expire

The broker keeps its fetchers, its listeners and its connections in caches, and uses them in one
way only: it sets non-null values with the default arguments (no expiration, write always), and
it asks, gets and deletes by key.  Used so, a cache is a partial function, `Table`.
`Cache.run_table` is the refinement that lets the broker's model work with tables.
-/

namespace CapyAmqp

open Lib

/-- What a cache is to the broker. -/
abbrev Table (K V : Type) := K → Option V

namespace Table

variable {K V : Type}

def empty : Table K V :=
  fun _ => none

def get (t : Table K V) (id : K) : Option V :=
  t id

def has (t : Table K V) (id : K) : Bool :=
  (t.get id).isSome

variable [DecidableEq K]

def set (t : Table K V) (id : K) (val : V) : Table K V :=
  Function.update t id (some val)

def del (t : Table K V) (id : K) : Table K V :=
  Function.update t id none

omit [DecidableEq K] in
@[simp] theorem get_empty (id : K) : (empty : Table K V).get id = none := rfl

@[simp] theorem get_set_self (t : Table K V) (id : K) (val : V) : (t.set id val).get id = some val := by
  simp [get, set]

theorem get_set_of_ne (t : Table K V) {id k : K} (val : V) (h : k ≠ id) :
    (t.set id val).get k = t.get k := by
  simp [get, set, h]

@[simp] theorem get_del_self (t : Table K V) (id : K) : (t.del id).get id = none := by
  simp [get, del]

theorem get_del_of_ne (t : Table K V) {id k : K} (h : k ≠ id) : (t.del id).get k = t.get k := by
  simp [get, del, h]

end Table

/-! ## The cache refines the table -/

/-- The calls that the broker makes. -/
inductive TableOp (K V : Type)
  | set (id : K) (val : V)
  | get (id : K)
  | has (id : K)
  | del (id : K)

namespace TableOp

variable {K V : Type}

/-- The call on the cache, with the default arguments and a reading of the clock. -/
def toCacheOp : TableOp K V × Int → CacheOp K V
  | (.set id val, _) => .set id (some val) 0 .writeAlways
  | (.get id, now) => .get id now
  | (.has id, now) => .has id now
  | (.del id, _) => .del id

def apply [DecidableEq K] (t : Table K V) : TableOp K V → Table K V × CacheResult V
  | .set id val => (t.set id val, .count 1)
  | .get id => (t, .pointer (t.get id))
  | .has id => (t, .found (t.has id))
  | .del id => (t.del id, .count (if t.has id then 1 else 0))

end TableOp

namespace Cache

variable {K V : Type} [DecidableEq K]

def tableStep (t : Table K V) (op : TableOp K V × Int) :
    Except Empty (Table K V × CacheResult V) :=
  .ok (op.1.apply t)

/-- The flat map holds the values of the table, without expiration. -/
def Tabulates (m : Flat K V) (t : Table K V) : Prop :=
  ∀ id, m.lookup id = (t.get id).map fun val =>
    { data := some val
      expiration := 0 }

theorem expired_never (val : V) (now : Int) :
    ({ data := some val, expiration := 0 } : CacheItem V).expired now = false := rfl

variable {m : Flat K V} {t : Table K V}

theorem get_of_tabulates (h : Tabulates m t) (id : K) (now : Int) :
    Flat.get m id now = (m, t.get id) := by
  cases ht : t.get id with
  | none =>
      have hm : m.lookup id = none := by
        simpa [ht] using h id
      simp [Flat.get, hm]
  | some val =>
      have hm : m.lookup id = some { data := some val, expiration := 0 } := by
        simpa [ht] using h id
      simp [Flat.get, hm, expired_never]

theorem mem_of_tabulates (h : Tabulates m t) (id : K) : id ∈ m ↔ t.has id = true := by
  rw [← Finmap.lookup_isSome, h id, Option.isSome_map]
  rfl

theorem flat_table (hash : K → Nat) (h : Tabulates m t) (op : TableOp K V × Int) :
    (Flat.apply hash m (TableOp.toCacheOp op)).2 = (op.1.apply t).2 ∧
      Tabulates (Flat.apply hash m (TableOp.toCacheOp op)).1 (op.1.apply t).1 := by
  rcases op with ⟨op, now⟩
  cases op with
  | set id val =>
      refine ⟨rfl, ?_⟩
      intro k
      -- the default mode writes always, and expiration 0 is never
      by_cases hk : k = id
      · subst hk
        simp [TableOp.toCacheOp, TableOp.apply, Flat.apply, Flat.set, CacheWritemode.writes]
      · have hlookup : (Flat.apply hash m (TableOp.toCacheOp (.set id val, now))).1.lookup k =
            m.lookup k := Flat.lookup_set_of_ne hk
        rw [hlookup, h k]
        simp [TableOp.apply, Table.get_set_of_ne _ _ hk]
  | get id =>
      -- nothing expires, so `get` erases nothing
      have hget := get_of_tabulates h id now
      refine ⟨?_, ?_⟩
      · simp [TableOp.toCacheOp, TableOp.apply, Flat.apply, hget]
      · simpa [TableOp.toCacheOp, TableOp.apply, Flat.apply, hget] using h
  | has id =>
      have hget := get_of_tabulates h id now
      refine ⟨?_, ?_⟩
      · simp [TableOp.toCacheOp, TableOp.apply, Flat.apply, Flat.has, hget, Table.has]
      · simpa [TableOp.toCacheOp, TableOp.apply, Flat.apply, Flat.has, hget] using h
  | del id =>
      have hmem := mem_of_tabulates h id
      refine ⟨?_, ?_⟩
      · simp [TableOp.toCacheOp, TableOp.apply, Flat.apply, Flat.del, hmem]
      · intro k
        by_cases hk : k = id
        · subst hk
          simp [TableOp.toCacheOp, TableOp.apply, Flat.apply, Flat.del]
        · have hlookup : (Flat.apply hash m (TableOp.toCacheOp (.del id, now))).1.lookup k =
              m.lookup k := Finmap.lookup_erase_ne hk
          rw [hlookup, h k]
          simp [TableOp.apply, Table.get_del_of_ne _ hk]

/-! ### The table of a cache -/

/-- What a cache holds under each key. -/
def table (hash : K → Nat) (c : Cache K V) : Table K V :=
  fun id => ((c.shards (calcIndex hash id)).lookup id).bind CacheItem.data

/-- Every entry is in its shard, has a value and never expires. -/
def Lasting (hash : K → Nat) (c : Cache K V) : Prop :=
  ∃ m, Represents hash c m ∧ Tabulates m (c.table hash)

theorem table_eq {hash : K → Nat} {c : Cache K V} (hrep : Represents hash c m)
    (htab : Tabulates m t) : c.table hash = t := by
  funext id
  have hlookup : (c.shards (calcIndex hash id)).lookup id = (t.get id).map fun val =>
      { data := some val, expiration := 0 } := by
    rw [hrep.lookup, htab id]
  unfold table
  rw [hlookup]
  show _ = t.get id
  cases t.get id <;> rfl

theorem lasting_construct (hash : K → Nat) : Lasting hash (construct : Cache K V) :=
  ⟨∅, represents_construct hash, by
    intro id
    simp [table, construct, Table.get]⟩

section Lasting

variable {hash : K → Nat} {c : Cache K V} (h : Lasting hash c)

include h

/-- A call of the broker's does to the table what it does to a table. -/
theorem Lasting.apply (op : TableOp K V × Int) :
    (c.apply hash (TableOp.toCacheOp op)).2 = (op.1.apply (c.table hash)).2 ∧
      (c.apply hash (TableOp.toCacheOp op)).1.table hash = (op.1.apply (c.table hash)).1 ∧
      Lasting hash (c.apply hash (TableOp.toCacheOp op)).1 := by
  rcases h with ⟨m, hrep, htab⟩
  rcases apply_simulates hash hrep (TableOp.toCacheOp op) with ⟨hresult, hrep'⟩
  rcases flat_table hash htab op with ⟨hanswer, htab'⟩
  have htable := table_eq hrep' htab'
  exact ⟨hresult.trans hanswer, htable, _, hrep', htable ▸ htab'⟩

theorem Lasting.has (id : K) (now : Int) :
    (c.has hash id now).2 = (c.table hash).has id ∧
      (c.has hash id now).1.table hash = c.table hash ∧ Lasting hash (c.has hash id now).1 := by
  rcases h.apply (.has id, now) with ⟨hresult, htable, hlasting⟩
  exact ⟨CacheResult.found.inj hresult, htable, hlasting⟩

theorem Lasting.get (id : K) (now : Int) :
    (c.get hash id now).2 = (c.table hash).get id ∧
      (c.get hash id now).1.table hash = c.table hash ∧ Lasting hash (c.get hash id now).1 := by
  rcases h.apply (.get id, now) with ⟨hresult, htable, hlasting⟩
  exact ⟨CacheResult.pointer.inj hresult, htable, hlasting⟩

theorem Lasting.set (id : K) (val : V) :
    (c.set hash id (some val) 0 .writeAlways).1.table hash = (c.table hash).set id val ∧
      Lasting hash (c.set hash id (some val) 0 .writeAlways).1 :=
  (h.apply (.set id val, 0)).2

end Lasting

/-! ### Runs -/

/-- Over every list of the broker's calls, whatever the clock says, a cache answers as a table
does. -/
theorem run_table (hash : K → Nat) (ops : List (TableOp K V × Int)) :
    ∃ c t results, run (step hash) (construct : Cache K V) (ops.map TableOp.toCacheOp) =
        .ok (c, results) ∧ run tableStep (Table.empty : Table K V) ops = .ok (t, results) := by
  have hflat : ∀ {m : Flat K V} {t : Table K V}, Tabulates m t →
      ∃ m' t' results, run (flatStep hash) m (ops.map TableOp.toCacheOp) = .ok (m', results) ∧
        run tableStep t ops = .ok (t', results) := by
    induction ops with
    | nil =>
        intro m t _
        exact ⟨m, t, [], rfl, rfl⟩
    | cons op ops ih =>
        intro m t h
        rcases flat_table hash h op with ⟨hresult, hnext⟩
        rcases ih hnext with ⟨m', t', results, hm, ht⟩
        have hstep : tableStep t op =
            .ok ((op.1.apply t).1, (Flat.apply hash m (TableOp.toCacheOp op)).2) := by
          rw [hresult]
          rfl
        exact ⟨m', t', _, run_cons_ok_iff.2 ⟨_, _, _, rfl, hm, rfl⟩,
          run_cons_ok_iff.2 ⟨_, _, _, hstep, ht, rfl⟩⟩
  have hinit : Tabulates (∅ : Flat K V) Table.empty := by
    intro id
    simp
  rcases hflat hinit with ⟨m, t, results, hm, ht⟩
  rcases run_simulates hash (represents_construct hash) (ops.map TableOp.toCacheOp) with
    ⟨c, m', results', hc, hm', _⟩
  rw [hm] at hm'
  -- the flat map in between is the same run on both sides
  cases hm'
  exact ⟨c, t, results, hc, ht⟩

end Cache

end CapyAmqp
