import CapyAmqp.Cache.Sharding

/-!
# Flush — a flush among the calls of other threads

`flush` takes the lock of one shard after the other, so calls on single keys come in between.  A
`Flushing` is a cache with a flush under way; a move is a call of another thread or the next round of
the flush.  Each step touches one shard, and its output records that shard before and after, so that
what came and what went can be counted without asking the code (`FlushOutput.came`,
`FlushOutput.gone`).  `Cache.flush_accounting` compares this with what the calls return.
-/

namespace CapyAmqp

open Lib

namespace Cache

variable {K T : Type}

inductive FlushMove (K T : Type)
  /-- A call of another thread, under the lock of its shard. -/
  | call (op : KeyOp K T)
  /-- The next round of the loop of `flush`. -/
  | clear

/-- A cache, the shards that the flush has still to visit, and its count so far. -/
structure Flushing (K T : Type) where
  cache : Cache K T
  remaining : List (Fin fastcacheShardsize)
  count : Nat

/-- What a step has done to its shard, and what the call has returned. -/
structure FlushOutput (K T : Type) where
  move : FlushMove K T
  index : Fin fastcacheShardsize
  before : Shard K T
  after : Shard K T
  result : CacheResult T

/-- The flush is about to begin. -/
def Flushing.start (c : Cache K T) : Flushing K T :=
  { cache := c
    remaining := List.finRange fastcacheShardsize
    count := 0 }

variable [DecidableEq K] (hash : K → Nat)

/-- One step; after the last shard the flush has no more. -/
def flushMove (s : Flushing K T) : FlushMove K T → Except Unit (Flushing K T × FlushOutput K T)
  | .call op =>
      let index := calcIndex hash op.id
      let r := s.cache.apply hash op.toCacheOp
      .ok ({ s with cache := r.1 },
        { move := .call op
          index := index
          before := s.cache.shards index
          after := r.1.shards index
          result := r.2 })
  | .clear =>
      match s.remaining with
      | [] => .error ()
      | index :: remaining =>
          let r := flushShard (s.cache, s.count) index
          .ok ({ cache := r.1
                 remaining := remaining
                 count := r.2 },
            { move := .clear
              index := index
              before := s.cache.shards index
              after := r.1.shards index
              result := .none })

/-! ## What came and what went -/

namespace FlushOutput

/-- The keys that were not there before. -/
def came (o : FlushOutput K T) : Finset K :=
  o.after.keys \ o.before.keys

/-- The keys that are no longer there. -/
def gone (o : FlushOutput K T) : Finset K :=
  o.before.keys \ o.after.keys

/-- The keys that a `set` has newly inserted. -/
def inserted (o : FlushOutput K T) : Nat :=
  match o.move with
  | .call (.set ..) => o.came.card
  | _ => 0

/-- The entries that the flush has removed. -/
def flushed (o : FlushOutput K T) : Nat :=
  match o.move with
  | .clear => o.gone.card
  | _ => 0

/-- The number that a `del` has returned. -/
def delCount (o : FlushOutput K T) : Nat :=
  match o.move, o.result with
  | .call (.del _), .count n => n
  | _, _ => 0

/-- The entries that a lookup has erased. -/
def expired (o : FlushOutput K T) : Nat :=
  match o.move with
  | .call (.get ..) => o.gone.card
  | .call (.has ..) => o.gone.card
  | _ => 0

/-- A `set` has written the item under the key. -/
def Writes (o : FlushOutput K T) (id : K) (item : CacheItem T) : Prop :=
  ∃ val expiration mode, o.move = .call (.set id val expiration mode) ∧ o.result = .count 1 ∧
    item =
      { data := val
        expiration := expiration }

end FlushOutput

/-! ## What a call can do to its shard -/

/-- The effects of a call: the shard after it, and its result. -/
inductive KeyEffect (m : Shard K T) : KeyOp K T → Shard K T → CacheResult T → Prop
  | written (id : K) (val : Option T) (expiration : Int) (mode : CacheWritemode) :
      KeyEffect m (.set id val expiration mode)
        (Finmap.insert id
          { data := val
            expiration := expiration } m) (.count 1)
  | refused (id : K) (val : Option T) (expiration : Int) (mode : CacheWritemode) :
      KeyEffect m (.set id val expiration mode) m (.count 0)
  | deleted (id : K) (h : id ∈ m) : KeyEffect m (.del id) (Finmap.erase id m) (.count 1)
  | missed (id : K) (h : id ∉ m) : KeyEffect m (.del id) m (.count 0)
  | looked (op : KeyOp K T) (now : Int) (h : op = .get op.id now ∨ op = .has op.id now)
      (result : CacheResult T) : KeyEffect m op m result
  | expired (op : KeyOp K T) (now : Int) (h : op = .get op.id now ∨ op = .has op.id now)
      (item : CacheItem T) (hitem : m.lookup op.id = some item) (hexpired : item.expired now = true)
      (result : CacheResult T) : KeyEffect m op (Finmap.erase op.id m) result

theorem lookup_of_lookup_erase {m : Shard K T} {id k : K} {item : CacheItem T}
    (h : (Finmap.erase id m).lookup k = some item) : m.lookup k = some item := by
  by_cases hk : k = id
  · subst hk
    rw [Finmap.lookup_erase] at h
    cases h
  · rwa [Finmap.lookup_erase_ne hk] at h

theorem erase_of_notMem {m : Shard K T} {id : K} (h : id ∉ m) : Finmap.erase id m = m := by
  refine Finmap.ext_lookup ?_
  intro k
  by_cases hk : k = id
  · subst hk
    rw [Finmap.lookup_erase, Finmap.lookup_eq_none.2 h]
  · exact Finmap.lookup_erase_ne hk

/-- A lookup erases the entry of its key if that has expired, and does nothing else. -/
theorem get_effect (m : Shard K T) (op : KeyOp K T) (now : Int)
    (h : op = .get op.id now ∨ op = .has op.id now) (result : CacheResult T) :
    KeyEffect m op (m.get op.id now).1 result := by
  unfold Shard.get
  split
  · exact .looked op now h result
  · rename_i item hitem
    split
    · rename_i hexpired
      exact .expired op now h item hitem hexpired result
    · exact .looked op now h result

/-- Every call has one of the effects. -/
theorem keyEffect (op : KeyOp K T) (m : Shard K T) : KeyEffect m op (op.act m).1 (op.act m).2 := by
  cases op with
  | set id val expiration mode =>
      simp only [KeyOp.act, Shard.set_eq_flat, Flat.set]
      split
      · exact .written id val expiration mode
      · exact .refused id val expiration mode
  | get id now => exact get_effect m (.get id now) now (Or.inl rfl) _
  | has id now => exact get_effect m (.has id now) now (Or.inr rfl) _
  | del id =>
      by_cases hid : id ∈ m
      · simpa [KeyOp.act, Shard.stdErase, hid] using KeyEffect.deleted id hid
      · simpa [KeyOp.act, Shard.stdErase, hid, erase_of_notMem hid] using KeyEffect.missed (T := T) id hid

/-- What a lookup erases has expired. -/
theorem KeyEffect.expired_of_gone {m m' : Shard K T} {op : KeyOp K T} {result : CacheResult T}
    (h : KeyEffect m op m' result) {now : Int} (hop : op = .get op.id now ∨ op = .has op.id now)
    {k : K} (hk : k ∈ m.keys ∧ k ∉ m'.keys) :
    ∃ item, m.lookup k = some item ∧ item.expired now = true := by
  cases h with
  | written => rcases hop with hop | hop <;> cases hop
  | refused => rcases hop with hop | hop <;> cases hop
  | deleted => rcases hop with hop | hop <;> cases hop
  | missed => rcases hop with hop | hop <;> cases hop
  | looked => exact absurd hk.1 hk.2
  | expired _ now' hop' item hitem hexpired _ =>
      -- the reading is the one that the call took
      have hnow : now' = now := by
        rcases hop with hop | hop <;> rcases hop' with hop' | hop' <;> rw [hop] at hop' <;>
          cases hop' <;> rfl
      have hkey : k = op.id := by
        by_contra hne
        refine hk.2 ?_
        rw [Finmap.keys_erase]
        exact Finset.mem_erase.2 ⟨hne, hk.1⟩
      exact ⟨item, hkey ▸ hitem, hnow ▸ hexpired⟩

/-! ## One step -/

/-- A call does to the cache what `KeyOp.act` does to the shard of its key. -/
theorem apply_toCacheOp (c : Cache K T) (op : KeyOp K T) :
    (c.apply hash op.toCacheOp).1.shards =
        Function.update c.shards (calcIndex hash op.id) (op.act (c.shards (calcIndex hash op.id))).1 ∧
      (c.apply hash op.toCacheOp).2 = (op.act (c.shards (calcIndex hash op.id))).2 := by
  have hexec := exec_shardOps hash c op
  exact ⟨(congrArg Prod.fst hexec).symm, (congrArg Prod.snd hexec).symm⟩

section Step

variable {hash} {s s' : Flushing K T} {m : FlushMove K T} {o : FlushOutput K T}

/-- A step works on its own shard and leaves the others alone. -/
theorem flushMove_shards (h : flushMove hash s m = .ok (s', o)) :
    o.before = s.cache.shards o.index ∧
      s'.cache.shards = Function.update s.cache.shards o.index o.after := by
  cases m with
  | call op =>
      cases h
      have hshards := (apply_toCacheOp hash s.cache op).1
      refine ⟨rfl, ?_⟩
      simp only [hshards, Function.update_self]
  | clear =>
      simp only [flushMove] at h
      split at h
      · cases h
      · cases h
        refine ⟨rfl, ?_⟩
        simp [flushShard, setShard]

/-- The steps, with what they record. -/
theorem flushMove_cases (h : flushMove hash s m = .ok (s', o)) :
    (∃ op, o.move = .call op ∧ o.index = calcIndex hash op.id ∧
        KeyEffect o.before op o.after o.result ∧ s'.remaining = s.remaining ∧ s'.count = s.count) ∨
      (o.move = .clear ∧ o.after = ∅ ∧ s.remaining = o.index :: s'.remaining ∧
        s'.count = s.count + o.before.keys.card) := by
  cases m with
  | call op =>
      cases h
      rcases apply_toCacheOp hash s.cache op with ⟨hshards, hresult⟩
      refine Or.inl ⟨op, rfl, rfl, ?_, rfl, rfl⟩
      simpa only [hshards, Function.update_self, hresult] using
        keyEffect op (s.cache.shards (calcIndex hash op.id))
  | clear =>
      simp only [flushMove] at h
      split at h
      · cases h
      · rename_i index remaining hremaining
        cases h
        exact Or.inr ⟨rfl, by simp [flushShard, setShard], hremaining, rfl⟩

end Step

/-! ## The account of one step -/

namespace FlushOutput

variable {o : FlushOutput K T}

/-- What was there and came is what is there and went. -/
theorem card_keys (o : FlushOutput K T) :
    o.before.keys.card + o.came.card = o.after.keys.card + o.gone.card := by
  have hcame : o.came.card + o.before.keys.card = (o.after.keys ∪ o.before.keys).card :=
    Finset.card_sdiff_add_card _ _
  have hgone : o.gone.card + o.after.keys.card = (o.before.keys ∪ o.after.keys).card :=
    Finset.card_sdiff_add_card _ _
  rw [Finset.union_comm] at hgone
  omega

theorem keys_insert (m : Shard K T) (id : K) (item : CacheItem T) :
    (Finmap.insert id item m).keys = insert id m.keys := by
  ext k
  simp [Finmap.mem_keys]

/-- The account of a call: what came was inserted by `set`, what went is what `del` has returned or
a lookup has erased. -/
theorem account_of_call {op : KeyOp K T} (hmove : o.move = .call op)
    (heffect : KeyEffect o.before op o.after o.result) :
    o.came.card = o.inserted ∧ o.gone.card = o.delCount + o.expired ∧ o.flushed = 0 := by
  rcases o with ⟨move, index, before, after, result⟩
  simp only at hmove heffect
  subst hmove
  cases heffect with
  | written id val expiration mode =>
      refine ⟨rfl, ?_, rfl⟩
      simp [gone, delCount, expired, keys_insert]
  | refused id val expiration mode => simp [came, gone, inserted, delCount, expired, flushed]
  | deleted id h =>
      have hid : id ∈ before.keys := Finmap.mem_keys.2 h
      have hgone : before.keys \ before.keys.erase id = {id} := Finset.sdiff_erase_self hid
      simp [came, gone, inserted, delCount, expired, flushed, Finmap.keys_erase, hgone,
        Finset.erase_subset]
  | missed id h => simp [came, gone, inserted, delCount, expired, flushed]
  | looked _ now h _ =>
      rcases h with h | h <;> rw [h] <;> simp [came, gone, inserted, delCount, expired, flushed]
  | expired _ now h item hitem hexpired _ =>
      rcases h with h | h <;> rw [h] <;>
        simp [came, inserted, delCount, expired, flushed, Finmap.keys_erase, Finset.erase_subset]

theorem account_of_clear (hmove : o.move = .clear) (hafter : o.after = ∅) :
    o.came.card = 0 ∧ o.inserted = 0 ∧ o.delCount = 0 ∧ o.expired = 0 ∧ o.flushed = o.gone.card ∧
      o.gone.card = o.before.keys.card := by
  rcases o with ⟨move, index, before, after, result⟩
  simp only at hmove hafter
  subst hmove hafter
  simp [came, gone, inserted, delCount, expired, flushed]

end FlushOutput

omit [DecidableEq K] in
/-- The entries of the cache after one shard has changed. -/
theorem metrics_update {c c' : Cache K T} {i : Fin fastcacheShardsize} {m : Shard K T}
    (h : c'.shards = Function.update c.shards i m) :
    c'.metrics + (c.shards i).keys.card = c.metrics + m.keys.card := by
  have hsplit : ∀ c : Cache K T,
      (c.shards i).keys.card + ∑ j ∈ Finset.univ.erase i, (c.shards j).keys.card = c.metrics := by
    intro c
    rw [metrics_eq_sum]
    exact Finset.add_sum_erase Finset.univ (fun j => (c.shards j).keys.card) (Finset.mem_univ i)
  have hothers : ∑ j ∈ Finset.univ.erase i, (c'.shards j).keys.card =
      ∑ j ∈ Finset.univ.erase i, (c.shards j).keys.card := by
    refine Finset.sum_congr rfl ?_
    intro j hj
    rw [h, Function.update_of_ne (Finset.ne_of_mem_erase hj)]
  have hself : c'.shards i = m := by
    rw [h, Function.update_self]
  rw [← hsplit c, ← hsplit c', hothers, hself]
  omega

/-! ## The account of a run -/

/-- What is claimed of a cache that held `c` when the flush began, and of the steps since. -/
structure FlushAccount (c : Cache K T) (s : Flushing K T) (outs : List (FlushOutput K T)) :
    Prop where
  /-- The flush has counted what it has removed. -/
  counted : s.count = (outs.map FlushOutput.flushed).sum
  /-- What came was inserted by `set`; what went was removed by the flush, by `del` or by a lookup. -/
  steps : ∀ o ∈ outs, o.came.card = o.inserted ∧ o.gone.card = o.flushed + o.delCount + o.expired
  /-- A lookup has erased nothing but what had expired. -/
  expiredOnly : ∀ o ∈ outs, ∀ op now, o.move = .call op → op = .get op.id now ∨ op = .has op.id now →
    ∀ k ∈ o.gone, ∃ item, o.before.lookup k = some item ∧ item.expired now = true
  /-- The entries at the start and those inserted are removed in one of the three ways, or present. -/
  balance : c.metrics + (outs.map FlushOutput.inserted).sum =
    s.cache.metrics + s.count + (outs.map FlushOutput.delCount).sum +
      (outs.map FlushOutput.expired).sum
  /-- Between two removals of a key it has been inserted: no entry is removed twice. -/
  once : ∀ pre o mid o' post, outs = pre ++ o :: mid ++ o' :: post → o.index = o'.index →
    ∀ k ∈ o.gone, k ∈ o'.gone → ∃ x ∈ mid, x.index = o.index ∧ k ∈ x.came
  /-- When the flush is done, each entry has been written after the flush cleared its shard. -/
  written : s.remaining = [] → ∀ i k item, (s.cache.shards i).lookup k = some item →
    ∃ pre x post, outs = pre ++ x :: post ∧ x.Writes k item ∧ x.index = i ∧
      ∃ y ∈ pre, y.move = .clear ∧ y.index = i

section Run

variable {hash} {c : Cache K T} {s : Flushing K T} {moves : List (FlushMove K T)}
  {outs : List (FlushOutput K T)}

/-- The part of the account that one step after the other adds up to. -/
theorem balance_of_run (h : run (flushMove hash) (Flushing.start c) moves = .ok (s, outs)) :
    s.count = (outs.map FlushOutput.flushed).sum ∧
      (∀ o ∈ outs, o.came.card = o.inserted ∧
        o.gone.card = o.flushed + o.delCount + o.expired) ∧
      c.metrics + (outs.map FlushOutput.inserted).sum =
        s.cache.metrics + s.count + (outs.map FlushOutput.delCount).sum +
          (outs.map FlushOutput.expired).sum := by
  refine run_history (P := fun s _ outs => s.count = (outs.map FlushOutput.flushed).sum ∧
    (∀ o ∈ outs, o.came.card = o.inserted ∧
      o.gone.card = o.flushed + o.delCount + o.expired) ∧
    c.metrics + (outs.map FlushOutput.inserted).sum =
      s.cache.metrics + s.count + (outs.map FlushOutput.delCount).sum +
        (outs.map FlushOutput.expired).sum) ⟨rfl, by simp, by simp [Flushing.start]⟩ ?_ h
  intro ms s s' outs m o _ hP hstep
  rcases hP with ⟨hcount, hsteps, hbalance⟩
  rcases flushMove_shards hstep with ⟨hbefore, hshards⟩
  have hmetrics := metrics_update hshards
  rw [← hbefore] at hmetrics
  have hcard := o.card_keys
  -- the account of the step
  obtain ⟨hcame, hgone, hstepCount⟩ : o.came.card = o.inserted ∧
      o.gone.card = o.flushed + o.delCount + o.expired ∧ s'.count = s.count + o.flushed := by
    rcases flushMove_cases hstep with ⟨op, hmove, _, heffect, _, hsame⟩ |
      ⟨hmove, hafter, _, hsame⟩
    · rcases FlushOutput.account_of_call hmove heffect with ⟨hcame, hgone, hflushed⟩
      exact ⟨hcame, by omega, by omega⟩
    · rcases FlushOutput.account_of_clear hmove hafter with
        ⟨hcame, hinserted, hdel, hexpired, hflushed, hgone⟩
      exact ⟨by omega, by omega, by omega⟩
  refine ⟨?_, ?_, ?_⟩
  · simp only [List.map_append, List.map_cons, List.map_nil, List.sum_append, List.sum_singleton]
    omega
  · intro x hx
    rcases List.mem_append.1 hx with hx | hx
    · exact hsteps x hx
    · rcases List.mem_singleton.1 hx with rfl
      exact ⟨hcame, hgone⟩
  · simp only [List.map_append, List.map_cons, List.map_nil, List.sum_append, List.sum_singleton]
    omega

theorem expired_of_run (h : run (flushMove hash) (Flushing.start c) moves = .ok (s, outs)) :
    ∀ o ∈ outs, ∀ op now, o.move = .call op → op = .get op.id now ∨ op = .has op.id now →
      ∀ k ∈ o.gone, ∃ item, o.before.lookup k = some item ∧ item.expired now = true := by
  refine run_history (P := fun _ _ outs => ∀ o ∈ outs, ∀ op now, o.move = .call op →
    op = .get op.id now ∨ op = .has op.id now →
      ∀ k ∈ o.gone, ∃ item, o.before.lookup k = some item ∧ item.expired now = true)
    (by simp) ?_ h
  intro ms s s' outs m last _ hP hstep o ho
  rcases List.mem_append.1 ho with ho | ho
  · exact hP o ho
  · rcases List.mem_singleton.1 ho with rfl
    intro op now hmove hlookup k hk
    rcases flushMove_cases hstep with ⟨op', hmove', _, heffect, _, _⟩ | ⟨hclear, _⟩
    · rw [hmove] at hmove'
      cases hmove'
      exact heffect.expired_of_gone hlookup (Finset.mem_sdiff.1 hk)
    · rw [hmove] at hclear
      cases hclear

/-- A key that is there after a step was there before, or has come. -/
theorem mem_of_flushMove {s' : Flushing K T} {m : FlushMove K T} {o : FlushOutput K T}
    (h : flushMove hash s m = .ok (s', o)) {i : Fin fastcacheShardsize} {k : K}
    (hk : k ∈ (s'.cache.shards i).keys) :
    k ∈ (s.cache.shards i).keys ∨ (o.index = i ∧ k ∈ o.came) := by
  rcases flushMove_shards h with ⟨hbefore, hshards⟩
  rw [hshards] at hk
  by_cases hi : i = o.index
  · subst hi
    rw [Function.update_self] at hk
    by_cases hold : k ∈ o.before.keys
    · exact Or.inl (hbefore ▸ hold)
    · exact Or.inr ⟨rfl, Finset.mem_sdiff.2 ⟨hk, hold⟩⟩
  · rw [Function.update_of_ne hi] at hk
    exact Or.inl hk

/-- A key that a step removes was there, and is not there any more. -/
theorem gone_of_flushMove {s' : Flushing K T} {m : FlushMove K T} {o : FlushOutput K T}
    (h : flushMove hash s m = .ok (s', o)) {k : K} (hk : k ∈ o.gone) :
    k ∈ (s.cache.shards o.index).keys ∧ k ∉ (s'.cache.shards o.index).keys := by
  rcases flushMove_shards h with ⟨hbefore, hshards⟩
  rcases Finset.mem_sdiff.1 hk with ⟨hin, hout⟩
  rw [hshards, Function.update_self, ← hbefore]
  exact ⟨hin, hout⟩

/-- A key that was removed is back only if it has been inserted since. -/
def BackSince (s : Flushing K T) (outs : List (FlushOutput K T)) : Prop :=
  ∀ (pre : List (FlushOutput K T)) (o : FlushOutput K T) (mid : List (FlushOutput K T)),
    outs = pre ++ o :: mid → ∀ k ∈ o.gone, k ∈ (s.cache.shards o.index).keys →
      ∃ x ∈ mid, x.index = o.index ∧ k ∈ x.came

/-- A key that is removed twice has been inserted in between. -/
def OnceEach (outs : List (FlushOutput K T)) : Prop :=
  ∀ (pre : List (FlushOutput K T)) (o : FlushOutput K T) (mid : List (FlushOutput K T))
    (o' : FlushOutput K T) (post : List (FlushOutput K T)),
    outs = pre ++ o :: mid ++ o' :: post → o.index = o'.index →
      ∀ k ∈ o.gone, k ∈ o'.gone → ∃ x ∈ mid, x.index = o.index ∧ k ∈ x.came

theorem back_of_run (h : run (flushMove hash) (Flushing.start c) moves = .ok (s, outs)) :
    BackSince s outs ∧ OnceEach outs := by
  let P : Flushing K T → List (FlushMove K T) → List (FlushOutput K T) → Prop :=
    fun s _ outs => BackSince s outs ∧ OnceEach outs
  have hinit : P (Flushing.start c) [] [] := by
    constructor
    · intro pre o mid houts
      simp at houts
    · intro pre o mid o' post houts
      simp at houts
  refine run_history (P := P) hinit ?_ h
  intro ms s s' outs m last _ hP hstep
  rcases hP with ⟨hback, honce⟩
  constructor
  · intro pre o mid houts k hk hthere
    cases mid using List.reverseRecOn with
    | nil =>
        -- the removal is the last step
        rcases List.append_inj' houts rfl with ⟨_, hlast⟩
        cases hlast
        exact absurd hthere (gone_of_flushMove hstep hk).2
    | append_singleton mid x _ =>
        have hsplit : outs ++ [last] = (pre ++ o :: mid) ++ [x] := by
          simpa using houts
        rcases List.append_inj' hsplit rfl with ⟨hinit, hlast⟩
        cases hlast
        rcases mem_of_flushMove hstep hthere with hold | ⟨hindex, hcame⟩
        · rcases hback pre o mid hinit k hk hold with ⟨y, hy, hy'⟩
          exact ⟨y, by simp [hy], hy'⟩
        · exact ⟨last, by simp, hindex, hcame⟩
  · intro pre o mid o' post houts hindex k hk hk'
    cases post using List.reverseRecOn with
    | nil =>
        have hsplit : outs ++ [last] = (pre ++ o :: mid) ++ [o'] := by
          simpa using houts
        rcases List.append_inj' hsplit rfl with ⟨hinit, hlast⟩
        cases hlast
        -- what the last step removes was there before it
        exact hback pre o mid hinit k hk (hindex ▸ (gone_of_flushMove hstep hk').1)
    | append_singleton post x _ =>
        have hsplit : outs ++ [last] = (pre ++ o :: mid ++ o' :: post) ++ [x] := by
          simpa using houts
        rcases List.append_inj' hsplit rfl with ⟨hinit, _⟩
        exact honce pre o mid o' post hinit hindex k hk hk'

/-- An item that is there after a step was there before, or the step has written it. -/
theorem lookup_of_flushMove {s' : Flushing K T} {m : FlushMove K T} {o : FlushOutput K T}
    (h : flushMove hash s m = .ok (s', o)) {i : Fin fastcacheShardsize} {k : K} {item : CacheItem T}
    (hk : (s'.cache.shards i).lookup k = some item) :
    ((s.cache.shards i).lookup k = some item ∧ (o.move = .clear → o.index ≠ i)) ∨
      (o.index = i ∧ o.Writes k item) := by
  rcases flushMove_shards h with ⟨hbefore, hshards⟩
  rw [hshards] at hk
  by_cases hi : i = o.index
  · subst hi
    rw [Function.update_self] at hk
    rw [← hbefore]
    rcases flushMove_cases h with ⟨op, hmove, _, heffect, _, _⟩ | ⟨_, hafter, _, _⟩
    · have hcall : o.move = .clear → o.index ≠ o.index := by
        intro hclear
        rw [hmove] at hclear
        cases hclear
      rcases o with ⟨move, index, before, after, result⟩
      simp only at hmove heffect hk hcall ⊢
      cases heffect with
      | written id val expiration mode =>
          by_cases hid : k = id
          · subst hid
            rw [Finmap.lookup_insert] at hk
            exact Or.inr ⟨trivial, val, expiration, mode, hmove, rfl, (Option.some.inj hk).symm⟩
          · rw [Finmap.lookup_insert_of_ne _ hid] at hk
            exact Or.inl ⟨hk, hcall⟩
      | deleted id hmem => exact Or.inl ⟨lookup_of_lookup_erase hk, hcall⟩
      | expired => exact Or.inl ⟨lookup_of_lookup_erase hk, hcall⟩
      | _ => exact Or.inl ⟨hk, hcall⟩
    · rw [hafter] at hk
      simp at hk
  · rw [Function.update_of_ne hi] at hk
    exact Or.inl ⟨hk, fun _ heq => hi heq.symm⟩

/-- The shard has been cleared by the flush. -/
def ClearedIn (outs : List (FlushOutput K T)) (i : Fin fastcacheShardsize) : Prop :=
  ∃ y ∈ outs, y.move = .clear ∧ y.index = i

/-- The item has been written after the flush has cleared its shard. -/
def WrittenSince (outs : List (FlushOutput K T)) (i : Fin fastcacheShardsize) (k : K)
    (item : CacheItem T) : Prop :=
  ∃ (pre : List (FlushOutput K T)) (x : FlushOutput K T) (post : List (FlushOutput K T)),
    outs = pre ++ x :: post ∧ x.Writes k item ∧ x.index = i ∧ ClearedIn pre i

/-- In a shard that the flush has cleared, every item has been written since. -/
theorem written_of_run (h : run (flushMove hash) (Flushing.start c) moves = .ok (s, outs)) :
    (∀ i, i ∉ s.remaining → ClearedIn outs i) ∧
      ∀ i k item, i ∉ s.remaining → (s.cache.shards i).lookup k = some item →
        WrittenSince outs i k item := by
  refine run_history (P := fun s _ outs => (∀ i, i ∉ s.remaining → ClearedIn outs i) ∧
    ∀ i k item, i ∉ s.remaining → (s.cache.shards i).lookup k = some item →
      WrittenSince outs i k item) ?_ ?_ h
  · -- no shard has been visited yet
    have hall : ∀ i, i ∈ (Flushing.start c).remaining := by
      simp [Flushing.start]
    exact ⟨fun i hi => absurd (hall i) hi, fun i k item hi => absurd (hall i) hi⟩
  · intro ms s s' outs m o _ hP hstep
    rcases hP with ⟨hcleared, hwritten⟩
    -- a shard that is no longer to be visited has been visited before or is cleared now
    have hvisited : ∀ i, i ∉ s'.remaining → i ∉ s.remaining ∨ (o.move = .clear ∧ o.index = i) := by
      intro i hi
      rcases flushMove_cases hstep with ⟨_, _, _, _, hsame, _⟩ | ⟨hmove, _, hremaining, _⟩
      · exact Or.inl (hsame ▸ hi)
      · by_cases hindex : o.index = i
        · exact Or.inr ⟨hmove, hindex⟩
        · refine Or.inl ?_
          rw [hremaining, List.mem_cons, not_or]
          exact ⟨fun heq => hindex heq.symm, hi⟩
    refine ⟨?_, ?_⟩
    · intro i hi
      rcases hvisited i hi with hold | hnow
      · rcases hcleared i hold with ⟨y, hy, hy'⟩
        exact ⟨y, by simp [hy], hy'⟩
      · exact ⟨o, by simp, hnow⟩
    · intro i k item hi hlookup
      rcases lookup_of_flushMove hstep hlookup with ⟨hold, hother⟩ | ⟨hindex, hwrites⟩
      · rcases hvisited i hi with hbefore | ⟨hclear, hindex⟩
        · rcases hwritten i k item hbefore hold with ⟨pre, x, post, rfl, hx⟩
          exact ⟨pre, x, post ++ [o], by simp, hx⟩
        · exact absurd hindex (hother hclear)
      · rcases hvisited i hi with hbefore | ⟨hclear, _⟩
        · exact ⟨outs, o, [], rfl, hwrites, hindex, hcleared i hbefore⟩
        · -- the round of a flush writes nothing
          rcases hwrites with ⟨_, _, _, hmove, _⟩
          rw [hclear] at hmove
          cases hmove

/-- Flush accounting.  Whatever the cache held when the flush began, and whatever calls of other
threads come before, between and after its rounds, the flush counts what it removes, the entries
balance, none is removed twice, and when the flush is done every entry that is present has been
written since the flush cleared its shard. -/
theorem flush_accounting (hash : K → Nat) (c : Cache K T) (moves : List (FlushMove K T))
    {s : Flushing K T} {outs : List (FlushOutput K T)}
    (h : run (flushMove hash) (Flushing.start c) moves = .ok (s, outs)) :
    FlushAccount c s outs := by
  rcases balance_of_run h with ⟨hcounted, hsteps, hbalance⟩
  refine ⟨hcounted, hsteps, expired_of_run h, hbalance, (back_of_run h).2, ?_⟩
  intro hdone i k item
  exact (written_of_run h).2 i k item (by simp [hdone])

/-- The rounds that are left, one after the other. -/
theorem run_rounds (c : Cache K T) (l : List (Fin fastcacheShardsize)) (count : Nat) :
    ∃ outs, run (flushMove hash)
        { cache := c
          remaining := l
          count := count } (List.replicate l.length .clear) =
      .ok ({ cache := (l.foldl flushShard (c, count)).1
             remaining := []
             count := (l.foldl flushShard (c, count)).2 }, outs) := by
  induction l generalizing c count with
  | nil => exact ⟨[], rfl⟩
  | cons i l ih =>
      rcases ih (flushShard (c, count) i).1 (flushShard (c, count) i).2 with ⟨outs, hrun⟩
      exact ⟨_, run_cons_ok_iff.2 ⟨_, _, outs, rfl, hrun, rfl⟩⟩

/-- A write behind the flush stays, one ahead of it is flushed. -/
theorem flush_accounting_around_writes :
    ∃ s outs,
      run (flushMove fun id : Nat => id) (Flushing.start (construct : Cache Nat Nat))
        ([.call (.set 1 (some 10) 0 .writeAlways), .clear,
          .call (.set 0 (some 20) 0 .writeAlways)] ++ List.replicate 255 .clear) = .ok (s, outs) ∧
      s.remaining = [] ∧ s.count = 1 ∧ (outs.map FlushOutput.flushed).sum = 1 ∧
      (s.cache.shards ⟨0, by decide⟩).lookup 0 = some ⟨some 20, 0⟩ ∧
      WrittenSince outs ⟨0, by decide⟩ 0 ⟨some 20, 0⟩ := by
  obtain ⟨⟨⟨c, l, count⟩, os⟩, hbefore, hl, hcount, hsizes, hkept⟩ : ∃ r,
      run (flushMove fun id : Nat => id) (Flushing.start (construct : Cache Nat Nat))
        [.call (.set 1 (some 10) 0 .writeAlways), .clear,
          .call (.set 0 (some 20) 0 .writeAlways)] = .ok r ∧
      r.1.remaining = (List.finRange fastcacheShardsize).tail ∧ r.1.count = 0 ∧
      (r.1.remaining.map fun i => (r.1.cache.shards i).size).sum = 1 ∧
      (r.1.cache.shards ⟨0, by decide⟩).lookup 0 = some ⟨some 20, 0⟩ :=
    ⟨_, rfl, rfl, rfl, by decide +kernel, rfl⟩
  dsimp only at hl hcount hsizes hkept
  -- the other 255 rounds
  have hnodup : l.Nodup := hl ▸ (List.nodup_finRange fastcacheShardsize).tail
  have hlength : l.length = 255 := by
    rw [hl, List.length_tail, List.length_finRange]
    rfl
  rcases @run_rounds Nat Nat _ (fun id => id) c l count with ⟨os', hrounds⟩
  rw [hlength, foldl_flushShard c count hnodup, hsizes] at hrounds
  have hrun := run_append_ok_iff.2 ⟨_, os, os', hbefore, hrounds, rfl⟩
  have haccount := flush_accounting (fun id : Nat => id) _ _ hrun
  have hone : count + 1 = 1 := by rw [hcount]
  have hpresent : (if ⟨0, by decide⟩ ∈ l then ∅ else c.shards ⟨0, by decide⟩).lookup 0 =
      some ⟨some 20, 0⟩ := by
    rw [hl, if_neg (by decide +kernel), hkept]
  exact ⟨_, _, hrun, rfl, hone, haccount.counted.symm.trans hone, hpresent,
    haccount.written rfl _ _ _ hpresent⟩

end Run

/-! ## A flush alone -/

/-- Without other calls in between, the rounds make up `Cache.flush`. -/
theorem run_clears (c : Cache K T) :
    ∃ outs, run (flushMove hash) (Flushing.start c)
        (List.replicate fastcacheShardsize .clear) =
      .ok ({ cache := c.flush.1
             remaining := []
             count := c.flush.2 }, outs) := by
  have hall := @run_rounds K T _ hash c (List.finRange fastcacheShardsize) 0
  rwa [List.length_finRange] at hall

end Cache

end CapyAmqp
