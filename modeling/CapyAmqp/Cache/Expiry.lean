import CapyAmqp.Cache.Sharding

/-!
# Expiry — when the curator's passes can be observed

`get` and `has` treat an item that has expired as absent; `set` looks only for the key.  So in the
two conditional write modes an answer depends on whether the curator has been there.  Calls are
timed: the clock never runs backward between them, and `timed` refuses a history in which it does.
`Cache.culls_unobservable_iff` says for which histories the passes change nothing.
-/

namespace CapyAmqp

open Lib

/-! ## Timed calls -/

section Calls

variable {K T : Type}

/-- `now` is one of the clock readings that the call takes. -/
def CacheOp.Reads (now : Int) : CacheOp K T → Prop
  | .get _ reading => reading = now
  | .has _ reading => reading = now
  | .cull _ clock => ∃ id, clock id = now
  | .curate clock => ∃ id, clock id = now
  | _ => False

/-- The curator's work. -/
def CacheOp.isCull : CacheOp K T → Bool
  | .cull _ _ => true
  | .curate _ => true
  | _ => false

/-- What `get`, `has` and `set` return. -/
def CacheOp.seen : CacheOp K T → CacheResult T → List (CacheResult T)
  | .set .., result => [result]
  | .get .., result => [result]
  | .has .., result => [result]
  | _, _ => []

/-- A call with the time at which it takes its lock and the time at which it is done. -/
structure TimedOp (K T : Type) where
  op : CacheOp K T
  start : Int
  finish : Int
  start_le_finish : start ≤ finish
  within : ∀ now, op.Reads now → start ≤ now ∧ now ≤ finish

/-- The calls of the clients. -/
def withoutCulls (es : List (TimedOp K T)) : List (TimedOp K T) :=
  es.filterMap fun e => if e.op.isCull then none else some e

/-- The clock stood later than the call starts. -/
inductive ClockRanBack
  | mk

/-- Run one call at its time, on a cache or on a flat map; what can be observed is what `get`, `has`
and `set` return. -/
def timed {σ : Type} (apply : σ → CacheOp K T → σ × CacheResult T) (s : Int × σ)
    (e : TimedOp K T) : Except ClockRanBack ((Int × σ) × List (CacheResult T)) :=
  if e.start < s.1 then .error .mk
  else .ok ((e.finish, (apply s.2 e.op).1), e.op.seen (apply s.2 e.op).2)

theorem timed_ok_iff {σ : Type} {apply : σ → CacheOp K T → σ × CacheResult T} {s s' : Int × σ}
    {e : TimedOp K T} {seen : List (CacheResult T)} :
    timed apply s e = .ok (s', seen) ↔
      s.1 ≤ e.start ∧ s' = (e.finish, (apply s.2 e.op).1) ∧
        seen = e.op.seen (apply s.2 e.op).2 := by
  unfold timed
  split
  · simp only [reduceCtorEq, false_iff, not_and]
    omega
  · simp only [Except.ok.injEq, Prod.mk.injEq]
    constructor
    · rintro ⟨rfl, rfl⟩
      exact ⟨by omega, rfl, rfl⟩
    · rintro ⟨_, rfl, rfl⟩
      exact ⟨rfl, rfl⟩

end Calls

/-! ## Flat maps that differ in expired items -/

theorem CacheItem.expired_mono {T : Type} {item : CacheItem T} {now later : Int}
    (h : item.expired now = true) (hle : now ≤ later) : item.expired later = true := by
  unfold CacheItem.expired at h ⊢
  split at h
  · cases h
  · rename_i hexp
    have hnow : item.expiration < now := by simpa using h
    rw [if_neg hexp]
    exact decide_eq_true (by omega)

namespace Flat

variable {K T : Type} [DecidableEq K]

/-- The key is there, but its item has expired. -/
def Stale (m : Flat K T) (id : K) (now : Int) : Prop :=
  ∃ item, m.lookup id = some item ∧ item.expired now = true

/-- The map `m₁` is `m₂` without some of the items that have expired. -/
def Culled (now : Int) (m₁ m₂ : Flat K T) : Prop :=
  ∀ id, m₁.lookup id = m₂.lookup id ∨ (m₁.lookup id = none ∧ Stale m₂ id now)

section Culled

variable {m m₁ m₂ : Flat K T} {now later : Int} {id : K}

theorem Stale.mono (h : Stale m id now) (hle : now ≤ later) : Stale m id later := by
  rcases h with ⟨item, hitem, hexp⟩
  exact ⟨item, hitem, CacheItem.expired_mono hexp hle⟩

theorem Culled.mono (h : Culled now m₁ m₂) (hle : now ≤ later) : Culled later m₁ m₂ := by
  intro k
  rcases h k with hk | ⟨hnone, hstale⟩
  · exact Or.inl hk
  · exact Or.inr ⟨hnone, hstale.mono hle⟩

theorem Culled.refl : Culled now m m := by
  intro k
  exact Or.inl rfl

/-- Where the item has not expired the maps agree. -/
theorem Culled.lookup_eq (h : Culled now m₁ m₂) (hid : ¬ Stale m₂ id now) :
    m₁.lookup id = m₂.lookup id := by
  rcases h id with hk | ⟨_, hstale⟩
  · exact hk
  · exact absurd hstale hid

/-- Changes at one key that leave the same item there. -/
theorem Culled.change {m₁' m₂' : Flat K T} (h : Culled now m₁ m₂) (id : K)
    (h₁ : ∀ k, k ≠ id → m₁'.lookup k = m₁.lookup k) (h₂ : ∀ k, k ≠ id → m₂'.lookup k = m₂.lookup k)
    (hid : m₁'.lookup id = m₂'.lookup id) : Culled now m₁' m₂' := by
  intro k
  by_cases hk : k = id
  · subst hk
    exact Or.inl hid
  · rcases h k with hsame | ⟨hnone, item, hitem, hexp⟩
    · exact Or.inl (by rw [h₁ k hk, h₂ k hk, hsame])
    · exact Or.inr ⟨(h₁ k hk).trans hnone, item, (h₂ k hk).trans hitem, hexp⟩

theorem Culled.set_always (h : Culled now m₁ m₂) (id : K) (val : Option T) (expiration : Int) :
    (set m₁ id val expiration .writeAlways).2 = (set m₂ id val expiration .writeAlways).2 ∧
      Culled now (set m₁ id val expiration .writeAlways).1
        (set m₂ id val expiration .writeAlways).1 := by
  refine ⟨rfl, h.change id (fun k hk => lookup_set_of_ne hk) (fun k hk => lookup_set_of_ne hk) ?_⟩
  simp [set, CacheWritemode.writes]

/-- A write agrees in any mode, unless it meets an item that has expired. -/
theorem Culled.set (h : Culled now m₁ m₂) (hid : ¬ Stale m₂ id now) (val : Option T)
    (expiration : Int) (mode : CacheWritemode) :
    (set m₁ id val expiration mode).2 = (set m₂ id val expiration mode).2 ∧
      Culled now (set m₁ id val expiration mode).1 (set m₂ id val expiration mode).1 := by
  have hcongr := set_congr (h.lookup_eq hid) val expiration mode
  exact ⟨hcongr.1,
    h.change id (fun k hk => lookup_set_of_ne hk) (fun k hk => lookup_set_of_ne hk) hcongr.2⟩

theorem get_of_stale (h : Stale m id now) : get m id now = (Finmap.erase id m, none) := by
  rcases h with ⟨item, hitem, hexp⟩
  simp [get, hitem, hexp]

theorem get_of_lookup_none (h : m.lookup id = none) : get m id now = (m, none) := by
  simp [get, h]

/-- A lookup agrees: it takes an item that has expired for absent, and erases it. -/
theorem Culled.get (h : Culled now m₁ m₂) (id : K) (hle : now ≤ later) :
    (get m₁ id later).2 = (get m₂ id later).2 ∧
      Culled later (get m₁ id later).1 (get m₂ id later).1 := by
  have hlater := h.mono hle
  rcases hlater id with hsame | ⟨hnone, hstale⟩
  -- the same item, or none, in both maps
  · have hcongr := get_congr hsame later
    exact ⟨hcongr.1,
      hlater.change id (fun k hk => lookup_get_of_ne hk) (fun k hk => lookup_get_of_ne hk) hcongr.2⟩
  -- one map has lost the item already, the other erases it now
  · rw [get_of_lookup_none hnone, get_of_stale hstale]
    refine ⟨rfl, hlater.change id (fun k _ => rfl)
      (fun k hk => Finmap.lookup_erase_ne hk) ?_⟩
    simp [hnone]

theorem Culled.del (h : Culled now m₁ m₂) (id : K) :
    Culled now (del m₁ id).1 (del m₂ id).1 := by
  refine h.change id (fun k hk => Finmap.lookup_erase_ne hk)
    (fun k hk => Finmap.lookup_erase_ne hk) ?_
  simp [Flat.del]

theorem lookup_cull (visited : K → Bool) (clock : K → Int) (k : K) :
    (cull m visited clock).lookup k =
      (m.lookup k).filter fun item => !item.expired (clock k) || !visited k := by
  simp [Flat.cull]

/-- A pass of the curator only drops items that have expired by its end. -/
theorem Culled.cull (h : Culled now m₁ m₂) (visited : K → Bool) (clock : K → Int)
    (hle : now ≤ later) (hclock : ∀ k, clock k ≤ later) :
    Culled later (cull m₁ visited clock) m₂ := by
  intro k
  rw [lookup_cull]
  rcases h.mono hle k with hsame | ⟨hnone, hstale⟩
  · rw [hsame]
    cases hitem : m₂.lookup k with
    | none =>
        exact Or.inl rfl
    | some item =>
        -- the pass drops the item, or leaves it where it is
        by_cases hgone : item.expired (clock k) = true ∧ visited k = true
        · refine Or.inr ⟨by simp [hgone], item, hitem, ?_⟩
          exact CacheItem.expired_mono hgone.1 (hclock k)
        · refine Or.inl ?_
          rcases Decidable.not_and_iff_not_or_not.1 hgone with hexp | hvisited
          · simp [hexp]
          · simp [hvisited]
  · exact Or.inr ⟨by simp [hnone], hstale⟩

end Culled

end Flat

/-! ## Runs with and without culls -/

/-- The call does not write in a conditional mode over an item that has expired. -/
def FreshWrite {K T σ : Type} (stale : σ → K → Int → Prop) (s : Int × σ) (e : TimedOp K T) : Prop :=
  ∀ id val expiration mode, e.op = .set id val expiration mode → mode ≠ .writeAlways →
    ¬ stale s.2 id e.start

namespace Flat

variable {K T : Type} [DecidableEq K] {hash : K → Nat} {m₁ m₂ m' : Flat K T} {now : Int}
  {s₁ s₂ s' : Int × Flat K T} {e : TimedOp K T} {seen : List (CacheResult T)}

/-- The clock of the run without culls is not ahead, and its map has what the other one has lost. -/
def Behind (s₁ s₂ : Int × Flat K T) : Prop :=
  s₂.1 ≤ s₁.1 ∧ Culled s₁.1 s₁.2 s₂.2

theorem Behind.skip (h : Behind s₁ s₂) (hstep : timed (apply hash) s₁ e = .ok (s', seen))
    (he : e.op.isCull = true) : Behind s' s₂ ∧ seen = [] := by
  rcases timed_ok_iff.1 hstep with ⟨hstart, rfl, rfl⟩
  have hfinish : s₁.1 ≤ e.finish := hstart.trans e.start_le_finish
  have hwithin := e.within
  rcases e with ⟨op, start, finish, _, _⟩
  cases op with
  | cull index clock =>
      refine ⟨⟨h.1.trans hfinish, h.2.cull _ clock hfinish ?_⟩, rfl⟩
      intro k
      exact (hwithin (clock k) ⟨k, rfl⟩).2
  | curate clock =>
      refine ⟨⟨h.1.trans hfinish, h.2.cull _ clock hfinish ?_⟩, rfl⟩
      intro k
      exact (hwithin (clock k) ⟨k, rfl⟩).2
  | _ =>
      cases he

/-- A client's call has the same effect on both maps, as far as it can be observed. -/
theorem Culled.apply (h : Culled now m₁ m₂) (hnow : now ≤ e.start) (hclient : e.op.isCull = false)
    (hfresh : FreshWrite Stale (now, m₂) e) :
    e.op.seen (apply hash m₁ e.op).2 = e.op.seen (apply hash m₂ e.op).2 ∧
      Culled e.finish (apply hash m₁ e.op).1 (apply hash m₂ e.op).1 := by
  have hstart := h.mono hnow
  have hwithin := e.within
  rcases e with ⟨op, start, finish, hle, _⟩
  cases op with
  | set id val expiration mode =>
      have hset : (Flat.set m₁ id val expiration mode).2 = (Flat.set m₂ id val expiration mode).2 ∧
          Culled start (Flat.set m₁ id val expiration mode).1
            (Flat.set m₂ id val expiration mode).1 := by
        -- an unconditional write does not ask what is there; the others find nothing stale
        by_cases hmode : mode = .writeAlways
        · subst hmode
          exact hstart.set_always id val expiration
        · exact hstart.set (hfresh id val expiration mode rfl hmode) val expiration mode
      exact ⟨by simp only [CacheOp.seen, Flat.apply, hset.1], hset.2.mono hle⟩
  -- what `get` reads is not behind what has been culled
  | get id reading =>
      rcases hwithin reading rfl with ⟨hreading, hend⟩
      have hget := hstart.get id hreading
      exact ⟨by simp only [CacheOp.seen, Flat.apply, hget.1], hget.2.mono hend⟩
  | has id reading =>
      rcases hwithin reading rfl with ⟨hreading, hend⟩
      have hget := hstart.get id hreading
      exact ⟨by simp only [CacheOp.seen, Flat.apply, Flat.has, hget.1], hget.2.mono hend⟩
  | del id =>
      exact ⟨rfl, (hstart.del id).mono hle⟩
  | flush =>
      exact ⟨rfl, Culled.refl⟩
  | metrics =>
      exact ⟨rfl, hstart.mono hle⟩
  | cull index clock =>
      cases hclient
  | curate clock =>
      cases hclient

theorem Behind.keep (h : Behind s₁ s₂) (hstep : timed (Flat.apply hash) s₁ e = .ok (s', seen))
    (hclient : e.op.isCull = false) (hfresh : FreshWrite Stale s₂ e) :
    ∃ s₂' seen', timed (Flat.apply hash) s₂ e = .ok (s₂', seen') ∧ Behind s' s₂' ∧
      seen' = seen := by
  rcases timed_ok_iff.1 hstep with ⟨hstart, rfl, rfl⟩
  have happly : e.op.seen (Flat.apply hash s₁.2 e.op).2 = e.op.seen (Flat.apply hash s₂.2 e.op).2 ∧
      Culled e.finish (Flat.apply hash s₁.2 e.op).1 (Flat.apply hash s₂.2 e.op).1 :=
    h.2.apply hstart hclient hfresh
  exact ⟨_, _, timed_ok_iff.2 ⟨h.1.trans hstart, rfl, rfl⟩, ⟨le_refl _, happly.2⟩, happly.1.symm⟩

/-- Leaving the culls out of a run. -/
theorem run_withoutCulls {es : List (TimedOp K T)} {seen : List (List (CacheResult T))}
    (hfresh : Along (timed (Flat.apply hash)) (FreshWrite Stale) s₁ (withoutCulls es))
    (hrun : run (timed (Flat.apply hash)) s₁ es = .ok (s', seen)) :
    ∃ s'' seen', run (timed (Flat.apply hash)) s₁ (withoutCulls es) = .ok (s'', seen') ∧
      Behind s' s'' ∧ seen'.flatten = seen.flatten := by
  have hproject : ∃ s'' seen', run (timed (Flat.apply hash)) s₁ (withoutCulls es) = .ok (s'', seen') ∧
      Behind s' s'' ∧ seen'.flatMap id = seen.flatMap id := by
    refine run_project_along (R := Behind) ?_ ?_ ⟨le_refl _, Culled.refl⟩ hfresh hrun
    · intro s s' t e a hR hstep hproj
      refine hR.skip hstep ?_
      simpa using hproj
    · intro s s' t e e' a hR hstep hproj hP
      cases hcull : e.op.isCull with
      -- the projection keeps no cull
      | true =>
          simp [hcull] at hproj
      | false =>
          have he : e = e' := by
            simpa [hcull] using hproj
          subst he
          exact hR.keep hstep hcull hP
  simpa using hproject

end Flat

/-! ## Caches -/

namespace Cache

variable {K T : Type} [DecidableEq K] (hash : K → Nat)

/-- The key is in its shard, but its item has expired. -/
def Stale (c : Cache K T) (id : K) (now : Int) : Prop :=
  ∃ item, (c.shards (calcIndex hash id)).lookup id = some item ∧ item.expired now = true

theorem stale_iff {c : Cache K T} {m : Flat K T} (h : Represents hash c m) (id : K) (now : Int) :
    c.Stale hash id now ↔ m.Stale id now := by
  simp only [Stale, Flat.Stale, h.lookup id]

/-- The same timed calls on a cache and on the flat map that it stands for. -/
theorem timed_simulates (now : Int) {c : Cache K T} {m : Flat K T} (h : Represents hash c m)
    (es : List (TimedOp K T)) :
    (∃ f, run (timed (Cache.apply hash)) (now, c) es = .error f ∧
        run (timed (Flat.apply hash)) (now, m) es = .error f) ∨
      ∃ s t seen, run (timed (Cache.apply hash)) (now, c) es = .ok (s, seen) ∧
        run (timed (Flat.apply hash)) (now, m) es = .ok (t, seen) ∧
        s.1 = t.1 ∧ Represents hash s.2 t.2 := by
  refine run_lockstep (R := fun (s : Int × Cache K T) (t : Int × Flat K T) =>
    s.1 = t.1 ∧ Represents hash s.2 t.2) ?_ ⟨rfl, h⟩
  rintro ⟨clock, c⟩ ⟨clock', m⟩ e ⟨hclock, hrep⟩
  have hclock : clock = clock' := hclock
  subst hclock
  -- both refuse a call that starts before the clock, and the clocks agree
  by_cases hback : e.start < clock
  · exact Or.inl ⟨.mk, by simp [timed, hback], by simp [timed, hback]⟩
  · rcases apply_simulates hash hrep e.op with ⟨hresult, hnext⟩
    refine Or.inr ⟨(e.finish, (c.apply hash e.op).1), (e.finish, (Flat.apply hash m e.op).1),
      e.op.seen (c.apply hash e.op).2, by simp [timed, hback], ?_, rfl, hnext⟩
    simp [timed, hback, hresult]

/-! ### A conditional write over an expired item -/

/-- A pass over one shard, at one time. -/
def cullAt (index : Fin fastcacheShardsize) (now : Int) : TimedOp K T :=
  { op := .cull index fun _ => now
    start := now
    finish := now
    start_le_finish := le_refl _
    within := by
      rintro _ ⟨_, rfl⟩
      exact ⟨le_refl _, le_refl _⟩ }

theorem set_count (c : Cache K T) (id : K) (val : Option T) (expiration : Int)
    (mode : CacheWritemode) :
    (c.set hash id val expiration mode).2 =
      if mode.writes (decide (id ∈ c.shards (calcIndex hash id))) then 1 else 0 := by
  simp only [Cache.set, Shard.set_eq_flat, Flat.set]
  split <;> rfl

/-- A cull of its shard removes an item that has expired. -/
theorem notMem_cull {c : Cache K T} {id : K} {now : Int} (h : c.Stale hash id now) :
    id ∉ (c.cull (calcIndex hash id) fun _ => now).shards (calcIndex hash id) := by
  rcases h with ⟨item, hitem, hexp⟩
  have hlookup : ((c.cull (calcIndex hash id) fun _ => now).shards (calcIndex hash id)).lookup id =
      none := by
    simp [cull, setShard, Shard.cullExpiredKeys, hitem, Option.filter, hexp]
  intro hid
  rw [← Finmap.lookup_isSome, hlookup] at hid
  cases hid

/-- The conditional modes tell an expired item from an absent key: one revives it, the other does
not write over it. -/
theorem set_stale_ne {c : Cache K T} {id : K} {now : Int} (h : c.Stale hash id now)
    (val : Option T) (expiration : Int) {mode : CacheWritemode} (hmode : mode ≠ .writeAlways) :
    ((c.cull (calcIndex hash id) fun _ => now).set hash id val expiration mode).2 ≠
      (c.set hash id val expiration mode).2 := by
  -- with the pass the key is absent, without it present
  have hgone := notMem_cull hash h
  have hmem : id ∈ c.shards (calcIndex hash id) := by
    rcases h with ⟨item, hitem, _⟩
    rw [← Finmap.lookup_isSome, hitem]
    rfl
  rw [set_count, set_count]
  cases mode with
  | writeAlways =>
      exact absurd rfl hmode
  | onlyWriteIfSet =>
      simp [CacheWritemode.writes, hgone, hmem]
  | onlyWriteIfNotSet =>
      simp [CacheWritemode.writes, hgone, hmem]

/-! ### Histories -/

omit [DecidableEq K] in
theorem withoutCulls_append (es fs : List (TimedOp K T)) :
    withoutCulls (es ++ fs) = withoutCulls es ++ withoutCulls fs := by
  simp [withoutCulls]

omit [DecidableEq K] in
/-- A list of clients' calls loses nothing. -/
theorem withoutCulls_eq_self {es : List (TimedOp K T)} (h : ∀ e ∈ es, e.op.isCull = false) :
    withoutCulls es = es := by
  induction es with
  | nil => rfl
  | cons e es ih =>
      have htail : withoutCulls es = es := ih fun x hx => h x (List.mem_cons_of_mem _ hx)
      have hhead : e.op.isCull = false := h e List.mem_cons_self
      simp only [withoutCulls] at htail
      simp [withoutCulls, hhead, htail]

omit [DecidableEq K] in
theorem isCull_of_mem_withoutCulls {es : List (TimedOp K T)} {e : TimedOp K T}
    (h : e ∈ withoutCulls es) : e.op.isCull = false := by
  rcases List.mem_filterMap.1 h with ⟨e', _, he⟩
  split at he
  · cases he
  · rename_i hcull
    cases he
    simpa using hcull

omit [DecidableEq K] in
/-- Whether a history is in time order does not depend on the cache, or on the culls in it. -/
theorem run_timed_withoutCulls {σ : Type} {apply : σ → CacheOp K T → σ × CacheResult T}
    {s s' t : Int × σ} {es : List (TimedOp K T)} {seen : List (List (CacheResult T))}
    (hrun : run (timed apply) s es = .ok (s', seen)) (ht : t.1 ≤ s.1) :
    ∃ t' seen', run (timed apply) t (withoutCulls es) = .ok (t', seen') := by
  have hproject : ∃ t' seen', run (timed apply) t (withoutCulls es) = .ok (t', seen') ∧
      t'.1 ≤ s'.1 ∧ seen'.flatMap (fun _ => ([] : List Unit)) =
        seen.flatMap fun _ => ([] : List Unit) := by
    refine run_project (R := fun s t : Int × σ => t.1 ≤ s.1) ?_ ?_ ht hrun
    -- a cull that is left out only moves the clock on
    · intro s s' t e seen hle hstep _
      rcases timed_ok_iff.1 hstep with ⟨hstart, rfl, _⟩
      exact ⟨hle.trans (hstart.trans e.start_le_finish), rfl⟩
    · intro s s' t e e' seen hle hstep hproj
      have he : e' = e := by
        split at hproj
        · cases hproj
        · cases hproj
          rfl
      subst he
      rcases timed_ok_iff.1 hstep with ⟨hstart, rfl, _⟩
      exact ⟨_, _, timed_ok_iff.2 ⟨hle.trans hstart, rfl, rfl⟩, le_refl _, rfl⟩
  rcases hproject with ⟨t', seen', hrun', _⟩
  exact ⟨t', seen', hrun'⟩

/-- Whatever passes of the curator are put into the calls of `es`, or left out, the answers of
`get`, `has` and `set` are the same, and so is what `get` finds afterwards. -/
def CullsUnobservable (now : Int) (es : List (TimedOp K T)) : Prop :=
  ∀ es₁ es₂ s₁ s₂ seen₁ seen₂,
    withoutCulls es₁ = withoutCulls es → withoutCulls es₂ = withoutCulls es →
    run (timed (Cache.apply hash)) (now, construct) es₁ = .ok (s₁, seen₁) →
    run (timed (Cache.apply hash)) (now, construct) es₂ = .ok (s₂, seen₂) →
    seen₁.flatten = seen₂.flatten ∧
      ∀ id later, s₁.1 ≤ later → s₂.1 ≤ later →
        (s₁.2.get hash id later).2 = (s₂.2.get hash id later).2

/-- In the run without culls no conditional write comes upon an item that has expired. -/
def FreshWrites (now : Int) (es : List (TimedOp K T)) : Prop :=
  Along (timed (Cache.apply hash)) (FreshWrite (Stale hash)) (now, construct) (withoutCulls es)

variable {hash} {now : Int} {es : List (TimedOp K T)}

/-- What the flat map shows without culls is what the cache shows with them. -/
theorem run_of_freshWrites (hfresh : FreshWrites hash now es) {es₁ : List (TimedOp K T)}
    (hes : withoutCulls es₁ = withoutCulls es) {s : Int × Cache K T}
    {seen : List (List (CacheResult T))}
    (hrun : run (timed (Cache.apply hash)) (now, construct) es₁ = .ok (s, seen)) :
    ∃ t seen', run (timed (Flat.apply hash)) (now, ∅) (withoutCulls es) = .ok (t, seen') ∧
      seen.flatten = seen'.flatten ∧
      ∀ id later, s.1 ≤ later → (s.2.get hash id later).2 = (Flat.get t.2 id later).2 := by
  -- the flat map meets the same stale items as the cache
  have hflat : Along (timed (Flat.apply hash)) (FreshWrite Flat.Stale) (now, ∅)
      (withoutCulls es₁) := by
    intro pre e post m as hsplit hpre id val expiration mode hop hmode hstale
    rcases timed_simulates hash now (represents_construct hash) pre with
      ⟨f, _, herror⟩ | ⟨c, t, seen, hcache, hmap, hclock, hrep⟩
    · rw [herror] at hpre
      cases hpre
    · rw [hmap] at hpre
      cases hpre
      exact hfresh pre e post c as (hes ▸ hsplit) hcache id val expiration mode hop hmode
        ((stale_iff hash hrep id e.start).2 hstale)
  rcases timed_simulates hash now (represents_construct hash) es₁ with
    ⟨f, herror, _⟩ | ⟨c, m, seen₁, hcache, hmap, hclock, hrep⟩
  · rw [herror] at hrun
    cases hrun
  · rw [hcache] at hrun
    cases hrun
    rcases Flat.run_withoutCulls hflat hmap with ⟨t, seen', hrun', hbehind, hseen⟩
    refine ⟨t, seen', hes ▸ hrun', hseen.symm, ?_⟩
    intro id later hlater
    -- compare through the flat map that has seen the culls
    calc
      (s.2.get hash id later).2 = (Flat.get m.2 id later).2 := (get_simulates hrep id later).1
      _ = (Flat.get t.2 id later).2 := (hbehind.2.get id (hclock ▸ hlater)).1

/-- A history runs as well with a pass over a shard just before one of its calls. -/
theorem run_insertCull {pre post : List (TimedOp K T)} {e : TimedOp K T} {s₀ m s : Int × Cache K T}
    {as rest : List (List (CacheResult T))}
    (hpre : run (timed (Cache.apply hash)) s₀ pre = .ok (m, as))
    (hrest : run (timed (Cache.apply hash)) m (e :: post) = .ok (s, rest))
    (hclients : ∀ x ∈ post, x.op.isCull = false) (index : Fin fastcacheShardsize) :
    ∃ s₁ rest₁, run (timed (Cache.apply hash)) s₀ (pre ++ cullAt index e.start :: e :: post) =
      .ok (s₁, as ++
        [] :: e.op.seen ((m.2.cull index fun _ => e.start).apply hash e.op).2 :: rest₁) := by
  rcases run_cons_ok_iff.1 hrest with ⟨m₂, a₂, rest₂, he, hpost, rfl⟩
  rcases timed_ok_iff.1 he with ⟨hstart, rfl, rfl⟩
  let c := m.2.cull index fun _ => e.start
  have hcull : timed (Cache.apply hash) m (cullAt index e.start) = .ok ((e.start, c), []) :=
    timed_ok_iff.2 ⟨hstart, rfl, rfl⟩
  have hwrite : timed (Cache.apply hash) (e.start, c) e =
      .ok ((e.finish, (c.apply hash e.op).1), e.op.seen (c.apply hash e.op).2) :=
    timed_ok_iff.2 ⟨le_refl _, rfl, rfl⟩
  -- the rest runs from the other map as well, since its times are the same
  rcases run_timed_withoutCulls (t := (e.finish, (c.apply hash e.op).1)) hpost (le_refl _) with
    ⟨s₁, rest₁, hpost₁⟩
  rw [withoutCulls_eq_self hclients] at hpost₁
  refine ⟨s₁, rest₁, run_append_ok_iff.2 ⟨m, as, _, hpre, ?_, rfl⟩⟩
  refine run_cons_ok_iff.2 ⟨_, _, _, hcull, ?_, rfl⟩
  exact run_cons_ok_iff.2 ⟨_, _, _, hwrite, hpost₁, rfl⟩

/-- The passes of the curator cannot be observed in a history if and only if, were there none, no
write in a conditional mode would come upon an item that has expired. -/
theorem culls_unobservable_iff {s : Int × Cache K T} {seen : List (List (CacheResult T))}
    (hrun : run (timed (Cache.apply hash)) (now, construct) es = .ok (s, seen)) :
    CullsUnobservable hash now es ↔ FreshWrites hash now es := by
  constructor
  · rintro hunobservable pre e post m as hsplit hpre id val expiration mode hop hmode hstale
    -- a pass over the shard of the key just before the write changes its answer
    rcases run_timed_withoutCulls hrun (le_refl _) with ⟨s₂, seen₂, hrun₂⟩
    have hplain := hrun₂
    rw [hsplit, run_append_ok_iff] at hrun₂
    rcases hrun₂ with ⟨m', as', rest, hpre', hrest, rfl⟩
    rw [hpre] at hpre'
    cases hpre'
    have hclients : ∀ x ∈ pre ++ e :: post, x.op.isCull = false := by
      intro x hx
      exact isCull_of_mem_withoutCulls (hsplit ▸ hx)
    rcases run_insertCull hpre hrest (fun x hx => hclients x (by simp [hx])) (calcIndex hash id) with
      ⟨s₁, rest₁, hrun₁⟩
    rcases run_cons_ok_iff.1 hrest with ⟨m₂, a₂, rest₂, he, _, rfl⟩
    rcases timed_ok_iff.1 he with ⟨_, _, rfl⟩
    have hsame₁ : withoutCulls (pre ++ cullAt (calcIndex hash id) e.start :: e :: post) =
        withoutCulls es := by
      have hself : withoutCulls (pre ++ e :: post) = pre ++ e :: post :=
        withoutCulls_eq_self hclients
      rw [hsplit, ← hself, withoutCulls_append, withoutCulls_append]
      rfl
    have hsame₂ : withoutCulls (withoutCulls es) = withoutCulls es :=
      withoutCulls_eq_self fun x hx => isCull_of_mem_withoutCulls hx
    have hseen := (hunobservable _ _ _ _ _ _ hsame₁ hsame₂ hrun₁ hplain).1
    -- up to the write both runs are the same, so its answers stand at the same place
    let c := m.2.cull (calcIndex hash id) fun _ => e.start
    have hpair : (c.set hash id val expiration mode).2 =
        (m.2.set hash id val expiration mode).2 ∧ rest₁.flatten = rest₂.flatten := by
      simpa [hop, CacheOp.seen, Cache.apply] using hseen
    exact set_stale_ne hash hstale val expiration hmode hpair.1
  · intro hfresh es₁ es₂ s₁ s₂ seen₁ seen₂ hes₁ hes₂ hrun₁ hrun₂
    rcases run_of_freshWrites hfresh hes₁ hrun₁ with ⟨t₁, all₁, hflat₁, hseen₁, hget₁⟩
    rcases run_of_freshWrites hfresh hes₂ hrun₂ with ⟨t₂, all₂, hflat₂, hseen₂, hget₂⟩
    rw [hflat₁] at hflat₂
    cases hflat₂
    refine ⟨hseen₁.trans hseen₂.symm, ?_⟩
    intro id later h₁ h₂
    exact (hget₁ id later h₁).trans (hget₂ id later h₂).symm

/-- A call at one time. -/
def callAt (now : Int) (op : CacheOp Nat Nat)
    (h : ∀ r, op.Reads r → now = r := by simp [CacheOp.Reads]) : TimedOp Nat Nat :=
  { op := op
    start := now
    finish := now
    start_le_finish := le_refl _
    within := by
      intro r hr
      rw [← h r hr]
      exact ⟨le_refl _, le_refl _⟩ }

/-- An item that expires at 10 is set again at 20. -/
def rewrite (mode : CacheWritemode) : List (TimedOp Nat Nat) :=
  [callAt 0 (.set 1 (some 5) 10 .writeAlways), callAt 20 (.set 1 (some 6) 0 mode),
    callAt 21 (.get 1 21)]

/-- The same with a pass over the shard in between. -/
def rewriteCulled (mode : CacheWritemode) : List (TimedOp Nat Nat) :=
  (rewrite mode).take 1 ++ cullAt (calcIndex (fun id => id) 1) 20 :: (rewrite mode).drop 1

theorem culls_unobservable_rewrite : CullsUnobservable (fun id => id) 0 (rewrite .writeAlways) := by
  obtain ⟨⟨s, seen⟩, hrun⟩ : ∃ r,
      run (timed (Cache.apply fun id => id)) (0, construct) (rewrite .writeAlways) = .ok r :=
    ⟨_, rfl⟩
  refine (culls_unobservable_iff hrun).2 ?_
  intro pre e post m as hsplit _ id val expiration mode hop hmode
  have hmem : e ∈ rewrite .writeAlways := by
    have hclients : withoutCulls (rewrite .writeAlways) = rewrite .writeAlways := rfl
    rw [← hclients, hsplit]
    simp
  simp only [rewrite, List.mem_cons, List.not_mem_nil, or_false] at hmem
  rcases hmem with rfl | rfl | rfl
  · cases hop
    exact absurd rfl hmode
  · cases hop
    exact absurd rfl hmode
  · cases hop

/-- With a pass of the curator in between one conditional mode writes and the other does not, and
without it the other way round. -/
theorem rewrite_observable :
    ¬ CullsUnobservable (fun id => id) 0 (rewrite .onlyWriteIfNotSet) ∧
      ¬ CullsUnobservable (fun id => id) 0 (rewrite .onlyWriteIfSet) := by
  constructor
  · intro h
    obtain ⟨s₁, hrun₁⟩ : ∃ s, run (timed (Cache.apply fun id => id)) (0, construct)
        (rewriteCulled .onlyWriteIfNotSet) =
          .ok (s, [[.count 1], [], [.count 1], [.pointer (some 6)]]) := ⟨_, rfl⟩
    obtain ⟨s₂, hrun₂⟩ : ∃ s, run (timed (Cache.apply fun id => id)) (0, construct)
        (rewrite .onlyWriteIfNotSet) =
          .ok (s, [[.count 1], [.count 0], [.pointer none]]) := ⟨_, rfl⟩
    have hseen := (h (rewriteCulled _) (rewrite _) _ _ _ _ rfl rfl hrun₁ hrun₂).1
    simp at hseen
  · intro h
    obtain ⟨s₁, hrun₁⟩ : ∃ s, run (timed (Cache.apply fun id => id)) (0, construct)
        (rewriteCulled .onlyWriteIfSet) =
          .ok (s, [[.count 1], [], [.count 0], [.pointer none]]) := ⟨_, rfl⟩
    obtain ⟨s₂, hrun₂⟩ : ∃ s, run (timed (Cache.apply fun id => id)) (0, construct)
        (rewrite .onlyWriteIfSet) =
          .ok (s, [[.count 1], [.count 1], [.pointer (some 6)]]) := ⟨_, rfl⟩
    have hseen := (h (rewriteCulled _) (rewrite _) _ _ _ _ rfl rfl hrun₁ hrun₂).1
    simp at hseen

end Cache

end CapyAmqp
