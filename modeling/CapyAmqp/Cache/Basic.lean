import CapyAmqp.Lib.SplitMap

/-!
# Cache — the sharded, expiring map of `amqp_cache.h`

A `Cache` spreads its keys over `FASTCACHE_SHARDSIZE` shards by a hash of the key; each shard is
a `std::map` behind a lock of its own.  A value is a `shared_ptr`, which may be null, so it is an
`Option`.  Every operation that reads the clock takes the reading as a parameter, and the
operations that visit several items take one reading for each key.
-/

namespace CapyAmqp

/-! ## Items -/

inductive CacheWritemode
  | writeAlways
  | onlyWriteIfSet
  | onlyWriteIfNotSet
  deriving DecidableEq, Repr

structure CacheItem (T : Type) where
  data : Option T
  expiration : Int

/-- `CacheItem::expired`; `now` is the reading of `CLOCK_REALTIME`. -/
def CacheItem.expired {T : Type} (item : CacheItem T) (now : Int) : Bool :=
  if item.expiration = 0 then false else decide (item.expiration < now)

/-! ## Shards -/

/-- The map of one shard. -/
abbrev Shard (K T : Type) := Finmap fun _ : K => CacheItem T

namespace Shard

variable {K T : Type} [DecidableEq K]

/-- `std::map::insert` keeps an entry that is already there, and says whether it inserted. -/
def stdInsert (m : Shard K T) (id : K) (item : CacheItem T) : Shard K T × Bool :=
  if id ∈ m then (m, false) else (Finmap.insert id item m, true)

/-- `std::map::erase` by key returns the number of entries it erased. -/
def stdErase (m : Shard K T) (id : K) : Shard K T × Nat :=
  (Finmap.erase id m, if id ∈ m then 1 else 0)

/-- `std::map::size`. -/
def size (m : Shard K T) : Nat :=
  m.keys.card

/-- The end of `Cache::set`: insert, and if the key exists either give up or re-write it. -/
def insertOrRewrite (m : Shard K T) (id : K) (item : CacheItem T) (mode : CacheWritemode) :
    Shard K T × Nat :=
  let result := stdInsert m id item
  if result.2 then (result.1, 1)
  else if mode = .onlyWriteIfNotSet then (result.1, 0)
  else ((stdInsert (stdErase result.1 id).1 id item).1, 1)

/-- `Cache::set` within the shard of the key.  An entry that has expired still counts as set. -/
def set (m : Shard K T) (id : K) (val : Option T) (expiration : Int) (mode : CacheWritemode) :
    Shard K T × Nat :=
  let item : CacheItem T :=
    { data := val
      expiration := expiration }
  if mode = .onlyWriteIfSet then
    if id ∈ m then insertOrRewrite (stdErase m id).1 id item mode else (m, 0)
  else insertOrRewrite m id item mode

/-- `Cache::get` within the shard of the key: an expired entry is erased on the way. -/
def get (m : Shard K T) (id : K) (now : Int) : Shard K T × Option T :=
  match m.lookup id with
  | none => (m, none)
  | some item => if item.expired now then ((stdErase m id).1, none) else (m, item.data)

/-- `Shard::cull_expired_keys`; each item reads the clock for itself. -/
def cullExpiredKeys (m : Shard K T) (clock : K → Int) : Shard K T :=
  Lib.filterMap (fun id item => !item.expired (clock id)) m

end Shard

/-! ## The cache -/

def fastcacheShardsize : Nat := 256

/-- `Cache`: its shards, in the order in which the loops visit them. -/
structure Cache (K T : Type) where
  shards : Fin fastcacheShardsize → Shard K T

namespace Cache

variable {K T : Type}

/-- `Cache::Cache`. -/
def construct : Cache K T :=
  { shards := fun _ => ∅ }

/-- `Cache::calc_index`; `hash` is `std::hash<Key>`, whose values are of type `size_t`. -/
def calcIndex (hash : K → Nat) (id : K) : Fin fastcacheShardsize :=
  ⟨hash id % fastcacheShardsize, Nat.mod_lt _ (by decide)⟩

def setShard (c : Cache K T) (index : Fin fastcacheShardsize) (m : Shard K T) : Cache K T :=
  { shards := Function.update c.shards index m }

variable [DecidableEq K] (hash : K → Nat)

def set (c : Cache K T) (id : K) (val : Option T) (expiration : Int) (mode : CacheWritemode) :
    Cache K T × Nat :=
  let index := calcIndex hash id
  let result := (c.shards index).set id val expiration mode
  (c.setShard index result.1, result.2)

def get (c : Cache K T) (id : K) (now : Int) : Cache K T × Option T :=
  let index := calcIndex hash id
  let result := (c.shards index).get id now
  (c.setShard index result.1, result.2)

/-- `has` is `get` and a test for the null pointer. -/
def has (c : Cache K T) (id : K) (now : Int) : Cache K T × Bool :=
  let result := c.get hash id now
  (result.1, result.2.isSome)

def del (c : Cache K T) (id : K) : Cache K T × Nat :=
  let index := calcIndex hash id
  let result := (c.shards index).stdErase id
  (c.setShard index result.1, result.2)

/-- `Cache::metrics`: the tally over the shards. -/
def metrics (c : Cache K T) : Nat :=
  (List.finRange fastcacheShardsize).foldl (fun totalSize index => totalSize + (c.shards index).size) 0

/-- One round of the loop of `Cache::flush`. -/
def flushShard (acc : Cache K T × Nat) (index : Fin fastcacheShardsize) : Cache K T × Nat :=
  (acc.1.setShard index ∅, acc.2 + (acc.1.shards index).size)

/-- `Cache::flush` clears shard after shard and counts what it clears. -/
def flush (c : Cache K T) : Cache K T × Nat :=
  (List.finRange fastcacheShardsize).foldl flushShard (c, 0)

/-- What the curator does while it holds the lock of one shard. -/
def cull (c : Cache K T) (index : Fin fastcacheShardsize) (clock : K → Int) : Cache K T :=
  c.setShard index ((c.shards index).cullExpiredKeys clock)

/-- One pass of `Cache::curate` over all shards. -/
def curate (c : Cache K T) (clock : K → Int) : Cache K T :=
  (List.finRange fastcacheShardsize).foldl (fun c index => c.cull index clock) c

end Cache

/-! ## Operations and results -/

/-- A call on a cache, with the clock readings that it takes. -/
inductive CacheOp (K T : Type)
  | set (id : K) (val : Option T) (expiration : Int) (mode : CacheWritemode)
  | get (id : K) (now : Int)
  | has (id : K) (now : Int)
  | del (id : K)
  | flush
  | metrics
  | cull (index : Fin fastcacheShardsize) (clock : K → Int)
  | curate (clock : K → Int)

inductive CacheResult (T : Type)
  | count (n : Nat)
  | pointer (p : Option T)
  | found (b : Bool)
  | none

/-- Run one call. -/
def Cache.apply {K T : Type} [DecidableEq K] (hash : K → Nat) (c : Cache K T) :
    CacheOp K T → Cache K T × CacheResult T
  | .set id val expiration mode =>
      let r := c.set hash id val expiration mode
      (r.1, .count r.2)
  | .get id now =>
      let r := c.get hash id now
      (r.1, .pointer r.2)
  | .has id now =>
      let r := c.has hash id now
      (r.1, .found r.2)
  | .del id =>
      let r := c.del hash id
      (r.1, .count r.2)
  | .flush =>
      let r := c.flush
      (r.1, .count r.2)
  | .metrics => (c, .count c.metrics)
  | .cull index clock => (c.cull index clock, .none)
  | .curate clock => (c.curate clock, .none)

end CapyAmqp
