import CapyAmqp.Cache.Flat

/-!
# Sharding — the sharded cache simulates the flat map

`Represents` relates a cache to the flat map that it stands for.  Each call keeps the relation
and returns what the flat map returns; the loops over all shards are followed shard by shard.
A run of calls is then lockstep with the run of the flat map, and a concurrent execution of
calls on single keys is the run in lock order.
-/

namespace CapyAmqp

open Lib

namespace Cache

variable {K T : Type} [DecidableEq K] (hash : K → Nat)

/-- The cache holds the items of `m`, each in the shard that `calcIndex` names. -/
abbrev Represents (c : Cache K T) (m : Flat K T) : Prop :=
  Splits (calcIndex hash) c.shards m

theorem represents_construct : Represents hash (construct : Cache K T) ∅ :=
  Splits.empty

/-! ## Calls on one key -/

section Key

variable {hash} {c : Cache K T} {m : Flat K T} (h : Represents hash c m) (id : K)

include h

theorem set_simulates (val : Option T) (expiration : Int) (mode : CacheWritemode) :
    (c.set hash id val expiration mode).2 = (Flat.set m id val expiration mode).2 ∧
      Represents hash (c.set hash id val expiration mode).1
        (Flat.set m id val expiration mode).1 := by
  have hcongr := Flat.set_congr (h.lookup id) val expiration mode
  simp only [Cache.set, Shard.set_eq_flat]
  refine ⟨hcongr.1, h.update ?_ ?_ hcongr.2⟩
  · intro k hk
    exact Flat.lookup_set_of_ne hk
  · intro k hk
    exact Flat.lookup_set_of_ne hk

theorem get_simulates (now : Int) :
    (c.get hash id now).2 = (Flat.get m id now).2 ∧
      Represents hash (c.get hash id now).1 (Flat.get m id now).1 := by
  have hcongr := Flat.get_congr (h.lookup id) now
  simp only [Cache.get, Shard.get_eq_flat]
  refine ⟨hcongr.1, h.update ?_ ?_ hcongr.2⟩
  · intro k hk
    exact Flat.lookup_get_of_ne hk
  · intro k hk
    exact Flat.lookup_get_of_ne hk

theorem has_simulates (now : Int) :
    (c.has hash id now).2 = (Flat.has m id now).2 ∧
      Represents hash (c.has hash id now).1 (Flat.has m id now).1 := by
  have hget := get_simulates h id now
  exact ⟨congrArg Option.isSome hget.1, hget.2⟩

theorem del_simulates :
    (c.del hash id).2 = (Flat.del m id).2 ∧
      Represents hash (c.del hash id).1 (Flat.del m id).1 := by
  have hmem := Flat.mem_congr (h.lookup id)
  refine ⟨by simp [del, Shard.stdErase, Flat.del, hmem], h.update ?_ ?_ ?_⟩
  · intro k hk
    exact Finmap.lookup_erase_ne hk
  · intro k hk
    exact Finmap.lookup_erase_ne hk
  · simp [Shard.stdErase, Flat.del]

end Key

/-! ## Loops over the shards -/

section Loops

variable {hash} {c : Cache K T} {m : Flat K T}

omit [DecidableEq K] in
theorem metrics_eq_sum (c : Cache K T) : c.metrics = ∑ i, (c.shards i).keys.card := by
  calc
    c.metrics = ((List.finRange fastcacheShardsize).map fun i => (c.shards i).size).sum := by
          simp [metrics, List.sum_eq_foldl, List.foldl_map]
    _ = ∑ i, (c.shards i).keys.card := by
          rw [Fin.sum_univ_def]
          rfl

theorem metrics_simulates (h : Represents hash c m) : c.metrics = m.keys.card := by
  rw [metrics_eq_sum]
  exact h.sum_card_keys

omit [DecidableEq K] in
/-- The loop of `flush` over the shards of `l`: these are empty and their entries are counted. -/
theorem foldl_flushShard (c : Cache K T) (count : Nat) {l : List (Fin fastcacheShardsize)}
    (hl : l.Nodup) :
    l.foldl flushShard (c, count) =
      ({ shards := fun i => if i ∈ l then ∅ else c.shards i },
        count + (l.map fun i => (c.shards i).size).sum) := by
  induction l generalizing c count with
  | nil =>
      simp
  | cons i l ih =>
      have hi : i ∉ l := (List.nodup_cons.1 hl).1
      -- the other shards have not been emptied yet
      have hsizes : (l.map fun j => ((c.setShard i ∅).shards j).size) =
          l.map fun j => (c.shards j).size := by
        refine List.map_congr_left ?_
        intro j hj
        have hji : j ≠ i := by
          intro heq
          exact hi (heq ▸ hj)
        simp [setShard, hji]
      have hshards : (fun j => if j ∈ l then (∅ : Shard K T) else (c.setShard i ∅).shards j) =
          fun j => if j ∈ i :: l then ∅ else c.shards j := by
        funext j
        by_cases hj : j = i
        · simp [setShard, hj]
        · simp [setShard, hj]
      calc
        (i :: l).foldl flushShard (c, count)
            = l.foldl flushShard (c.setShard i ∅, count + (c.shards i).size) := rfl
        _ = _ := by
              rw [ih _ _ (List.nodup_cons.1 hl).2, hsizes, hshards]
              simp [Nat.add_assoc]

theorem flush_simulates (h : Represents hash c m) :
    c.flush.2 = m.keys.card ∧ Represents hash c.flush.1 ∅ := by
  have hloop := foldl_flushShard c 0 (List.nodup_finRange fastcacheShardsize)
  have hcount : c.flush.2 = c.metrics := by
    simp [flush, hloop, metrics, List.sum_eq_foldl, List.foldl_map]
  refine ⟨hcount.trans (metrics_simulates h), ?_⟩
  have hshards : c.flush.1.shards = fun _ => ∅ := by
    simp [flush, hloop]
  rw [Represents, hshards]
  exact Splits.empty

theorem cull_simulates (h : Represents hash c m) (index : Fin fastcacheShardsize)
    (clock : K → Int) :
    Represents hash (c.cull index clock)
      (Flat.cull m (fun id => decide (calcIndex hash id = index)) clock) :=
  h.filter (fun id item => !item.expired (clock id)) index

/-- The curator's loop over the shards of `l` visits the keys of these shards. -/
theorem foldl_cull_simulates (h : Represents hash c m) (clock : K → Int)
    (l : List (Fin fastcacheShardsize)) :
    Represents hash (l.foldl (fun c index => c.cull index clock) c)
      (Flat.cull m (fun id => decide (calcIndex hash id ∈ l)) clock) := by
  induction l generalizing c m with
  | nil =>
      simpa [Flat.cull_none] using h
  | cons i l ih =>
      have hnext := ih (cull_simulates h i clock)
      rw [Flat.cull_cull] at hnext
      simpa using hnext

theorem curate_simulates (h : Represents hash c m) (clock : K → Int) :
    Represents hash (c.curate clock) (Flat.cull m (fun _ => true) clock) := by
  have hall := foldl_cull_simulates h clock (List.finRange fastcacheShardsize)
  simpa [curate] using hall

end Loops

/-! ## Runs -/

/-- Every call returns what the flat map returns. -/
theorem apply_simulates {c : Cache K T} {m : Flat K T} (h : Represents hash c m)
    (op : CacheOp K T) :
    (c.apply hash op).2 = (Flat.apply hash m op).2 ∧
      Represents hash (c.apply hash op).1 (Flat.apply hash m op).1 := by
  cases op with
  | set id val expiration mode =>
      have hset := set_simulates h id val expiration mode
      exact ⟨congrArg CacheResult.count hset.1, hset.2⟩
  | get id now =>
      have hget := get_simulates h id now
      exact ⟨congrArg CacheResult.pointer hget.1, hget.2⟩
  | has id now =>
      have hhas := has_simulates h id now
      exact ⟨congrArg CacheResult.found hhas.1, hhas.2⟩
  | del id =>
      have hdel := del_simulates h id
      exact ⟨congrArg CacheResult.count hdel.1, hdel.2⟩
  | flush =>
      have hflush := flush_simulates h
      exact ⟨congrArg CacheResult.count hflush.1, hflush.2⟩
  | metrics =>
      exact ⟨congrArg CacheResult.count (metrics_simulates h), h⟩
  | cull index clock =>
      exact ⟨rfl, cull_simulates h index clock⟩
  | curate clock =>
      exact ⟨rfl, curate_simulates h clock⟩

/-- A call as a step; no call faults. -/
def step (c : Cache K T) (op : CacheOp K T) : Except Empty (Cache K T × CacheResult T) :=
  .ok (c.apply hash op)

def flatStep (m : Flat K T) (op : CacheOp K T) : Except Empty (Flat K T × CacheResult T) :=
  .ok (Flat.apply hash m op)

/-- A run of the cache and the run of the flat map over the same calls return the same results. -/
theorem run_simulates {c : Cache K T} {m : Flat K T} (h : Represents hash c m)
    (ops : List (CacheOp K T)) :
    ∃ c' m' results, run (step hash) c ops = .ok (c', results) ∧
      run (flatStep hash) m ops = .ok (m', results) ∧ Represents hash c' m' := by
  have hlock : ∀ {c : Cache K T} {m : Flat K T} {op : CacheOp K T}, Represents hash c m →
      Lockstep (Represents hash) (step hash) (flatStep hash) c m op := by
    intro c m op h
    rcases apply_simulates hash h op with ⟨hresult, hnext⟩
    have hflat : flatStep hash m op = .ok ((Flat.apply hash m op).1, (c.apply hash op).2) := by
      rw [hresult]
      rfl
    exact Or.inr ⟨_, _, _, rfl, hflat, hnext⟩
  rcases run_lockstep hlock h with ⟨f, _, _⟩ | hok
  · exact f.elim
  · exact hok

/-! ## Threads -/

/-- The calls that work on one key, and so under the lock of one shard. -/
inductive KeyOp (K T : Type)
  | set (id : K) (val : Option T) (expiration : Int) (mode : CacheWritemode)
  | get (id : K) (now : Int)
  | has (id : K) (now : Int)
  | del (id : K)

namespace KeyOp

def id : KeyOp K T → K
  | .set id _ _ _ => id
  | .get id _ => id
  | .has id _ => id
  | .del id => id

def toCacheOp : KeyOp K T → CacheOp K T
  | .set id val expiration mode => .set id val expiration mode
  | .get id now => .get id now
  | .has id now => .has id now
  | .del id => .del id

/-- What the call does to the map of its shard while it holds the lock. -/
def act : KeyOp K T → Shard K T → Shard K T × CacheResult T
  | .set id val expiration mode, m =>
      let r := m.set id val expiration mode
      (r.1, .count r.2)
  | .get id now, m =>
      let r := m.get id now
      (r.1, .pointer r.2)
  | .has id now, m =>
      let r := m.get id now
      (r.1, .found r.2.isSome)
  | .del id, m =>
      let r := m.stdErase id
      (r.1, .count r.2)

/-- A call leaves the other keys of its shard alone. -/
theorem lookup_act_of_ne (op : KeyOp K T) (m : Shard K T) {k : K} (hk : k ≠ op.id) :
    (op.act m).1.lookup k = m.lookup k := by
  cases op with
  | set id val expiration mode =>
      have hset : (act (.set id val expiration mode) m).1 =
          (Flat.set m id val expiration mode).1 := by
        simp [act, Shard.set_eq_flat]
      rw [hset]
      exact Flat.lookup_set_of_ne hk
  | get id now =>
      exact Flat.lookup_get_of_ne hk
  | has id now =>
      exact Flat.lookup_get_of_ne hk
  | del id =>
      exact Finmap.lookup_erase_ne hk

end KeyOp

/-- The shards as cells behind locks. -/
def shardOps : CellOps (Fin fastcacheShardsize) (Shard K T) (KeyOp K T) (CacheResult T) :=
  { index := fun op => calcIndex hash op.id
    act := KeyOp.act }

theorem exec_shardOps (c : Cache K T) (op : KeyOp K T) :
    (shardOps hash).exec c.shards op =
      ((c.apply hash op.toCacheOp).1.shards, (c.apply hash op.toCacheOp).2) := by
  cases op <;> rfl

theorem run_toCacheOp (c : Cache K T) (ops : List (KeyOp K T)) :
    ∃ c', run (step hash) c (ops.map KeyOp.toCacheOp) =
      .ok (c', ((shardOps hash).execAll c.shards ops).2) := by
  induction ops generalizing c with
  | nil =>
      exact ⟨c, rfl⟩
  | cons op ops ih =>
      rcases ih (c.apply hash op.toCacheOp).1 with ⟨c', hrun⟩
      have hexec := exec_shardOps hash c op
      have hstep : step hash c op.toCacheOp =
          .ok ((c.apply hash op.toCacheOp).1, (c.apply hash op.toCacheOp).2) := rfl
      refine ⟨c', run_cons_ok_iff.2 ⟨_, _, _, hstep, hrun, ?_⟩⟩
      simp only [CellOps.execAll, hexec]

/-- While threads work on the shards, no key is ever in a shard that is not its own. -/
theorem placed_of_run {Thread : Type} [DecidableEq Thread]
    {moves : List (CellOps.Move (KeyOp K T) Thread)}
    {c : CellOps.Conf (Fin fastcacheShardsize) (Shard K T) (KeyOp K T) (CacheResult T) Thread}
    {outs : List (Option (CellOps.Done (KeyOp K T) (CacheResult T) Thread))}
    (h : run (shardOps hash).move (CellOps.start (construct : Cache K T).shards) moves =
      .ok (c, outs)) :
    ∀ i id, id ∈ c.cells i → calcIndex hash id = i := by
  let I : CellOps.Conf (Fin fastcacheShardsize) (Shard K T) (KeyOp K T) (CacheResult T) Thread →
      Prop := fun c => ∀ i id, id ∈ c.cells i → calcIndex hash id = i
  have hinit : I (CellOps.start (construct : Cache K T).shards) := by
    intro i id hid
    exact absurd hid Finmap.notMem_empty
  refine run_invariant (I := I) ?_ hinit h
  intro c c' m out hI hmove
  cases m with
  | acquire t op =>
      simp only [CellOps.move] at hmove
      split at hmove
      · cases hmove
        exact hI
      · cases hmove
  | act t =>
      simp only [CellOps.move] at hmove
      split at hmove
      · rename_i ticket op hphase
        cases hmove
        intro i id hid
        -- the act works on the shard of its key and on no other
        by_cases hi : i = calcIndex hash op.id
        · subst hi
          by_cases hop : id = op.id
          · rw [hop]
          · -- the other keys of the shard were there before
            have hold : id ∈ c.cells (calcIndex hash op.id) := by
              have hlookup := op.lookup_act_of_ne (c.cells (calcIndex hash op.id)) hop
              rw [← Finmap.lookup_isSome] at hid ⊢
              simpa [shardOps, hlookup] using hid
            exact hI _ _ hold
        · exact hI i id (by simpa [shardOps, hi] using hid)
      · cases hmove
  | release t =>
      simp only [CellOps.move] at hmove
      split at hmove
      · cases hmove
        exact hI
      · cases hmove

/-- Sharding is transparent.  Over every list of calls the cache returns what the flat map
returns, and keeps each key in the shard that `calcIndex` names.  When threads work on single
keys concurrently, each call that has returned has the result that the flat map gives it in the
order in which the locks were taken. -/
theorem sharding_transparent {Thread : Type} [DecidableEq Thread] (ops : List (CacheOp K T))
    (moves : List (CellOps.Move (KeyOp K T) Thread)) :
    (∃ c m results, run (step hash) construct ops = .ok (c, results) ∧
      run (flatStep hash) ∅ ops = .ok (m, results) ∧
      ∀ i id, id ∈ c.shards i → calcIndex hash id = i) ∧
    ∀ c outs,
      run (shardOps hash).move (CellOps.start (construct : Cache K T).shards) moves =
        .ok (c, outs) →
      (∃ m results, run (flatStep hash) ∅ (c.order.map KeyOp.toCacheOp) = .ok (m, results) ∧
        ∀ d, some d ∈ outs → c.order[d.ticket]? = some d.op ∧ results[d.ticket]? = some d.result) ∧
      ∀ i id, id ∈ c.cells i → calcIndex hash id = i := by
  constructor
  · rcases run_simulates hash (represents_construct hash) ops with ⟨c, m, results, hc, hm, hrep⟩
    exact ⟨c, m, results, hc, hm, hrep.placed⟩
  · intro c outs hrun
    refine ⟨?_, placed_of_run hash hrun⟩
    rcases run_simulates hash (represents_construct hash) (c.order.map KeyOp.toCacheOp) with
      ⟨c₁, m, results, hc, hm, _⟩
    rcases run_toCacheOp hash (construct : Cache K T) c.order with ⟨c₂, hc'⟩
    have hresults : results = ((shardOps hash).execAll construct.shards c.order).2 := by
      rw [hc'] at hc
      cases hc
      rfl
    refine ⟨m, results, hm, ?_⟩
    intro d hd
    -- the order of the locks is a linearization
    have hagrees := ((shardOps hash).linearizes hrun).1 d hd
    exact ⟨hagrees.1, hresults ▸ hagrees.2⟩

/-- Two threads write two keys; the second thread to take its lock is the first to finish. -/
theorem sharding_transparent_two_threads :
    ∃ c outs m results,
      run (shardOps fun id : Nat => id).move (CellOps.start (construct : Cache Nat Nat).shards)
        [.acquire false (.set 1 (some 10) 0 .writeAlways),
          .acquire true (.set 2 (some 20) 0 .onlyWriteIfSet), .act true, .release true,
          .act false, .release false] = .ok (c, outs) ∧
      run (flatStep fun id : Nat => id) ∅ (c.order.map KeyOp.toCacheOp) = .ok (m, results) ∧
      ∀ d, some d ∈ outs → results[d.ticket]? = some d.result := by
  obtain ⟨⟨c, outs⟩, hrun⟩ : ∃ r,
      run (shardOps fun id : Nat => id).move (CellOps.start (construct : Cache Nat Nat).shards)
        [.acquire false (.set 1 (some 10) 0 .writeAlways),
          .acquire true (.set 2 (some 20) 0 .onlyWriteIfSet), .act true, .release true,
          .act false, .release false] = .ok r := ⟨_, rfl⟩
  have htransparent := (sharding_transparent (fun id : Nat => id) [] _).2 c outs hrun
  rcases htransparent.1 with ⟨m, results, hm, hresults⟩
  exact ⟨c, outs, m, results, hrun, hm, fun d hd => (hresults d hd).2⟩

end Cache

end CapyAmqp
