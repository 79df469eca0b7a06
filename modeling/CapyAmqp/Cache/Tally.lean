import CapyAmqp.Cache.Sharding

/-!
# Tally — `metrics` among the calls of other threads

`metrics` locks one shard after the other, and the cache changes in between.  What it returns is the
size of no single state, but the number of a set of entries that lies between two others
(`metrics_between`): it has every entry that is there all the time, and none that never is.
-/

namespace CapyAmqp

open Lib

namespace Cache

variable {K T : Type}

/-- What another thread does under the lock of one shard. -/
inductive Section (K T : Type)
  | call (op : KeyOp K T)
  /-- A round of `flush`. -/
  | clear (index : Fin fastcacheShardsize)
  /-- A round of the curator. -/
  | cull (index : Fin fastcacheShardsize) (clock : K → Int)

variable [DecidableEq K] (hash : K → Nat)

def Section.exec (c : Cache K T) : Section K T → Cache K T
  | .call op => (c.apply hash op.toCacheOp).1
  | .clear index => (flushShard (c, 0) index).1
  | .cull index clock => c.cull index clock

inductive TallyMove (K T : Type)
  | other (s : Section K T)
  /-- The next round of the loop of `metrics`. -/
  | tally

/-- A cache, the shards that `metrics` has still to visit, and its tally so far. -/
structure Tallying (K T : Type) where
  cache : Cache K T
  remaining : List (Fin fastcacheShardsize)
  totalSize : Nat

def Tallying.start (c : Cache K T) : Tallying K T :=
  { cache := c
    remaining := List.finRange fastcacheShardsize
    totalSize := 0 }

/-- One step; after the last shard `metrics` has no more. -/
def tallyMove (s : Tallying K T) : TallyMove K T → Except Unit (Tallying K T × Unit)
  | .other o => .ok ({ s with cache := o.exec hash s.cache }, ())
  | .tally =>
      match s.remaining with
      | [] => .error ()
      | index :: remaining =>
          .ok
            ({ s with
                remaining := remaining
                totalSize := s.totalSize + (s.cache.shards index).size }, ())

/-- An entry, by its shard and its key. -/
abbrev Entry (K : Type) := Fin fastcacheShardsize × K

def Present (c : Cache K T) (e : Entry K) : Prop :=
  e.2 ∈ c.shards e.1

/-- A state of the cache on the way. -/
def Passed (c : Cache K T) (moves : List (TallyMove K T)) (s : Tallying K T) : Prop :=
  ∃ early outs, early <+: moves ∧ run (tallyMove hash) (Tallying.start c) early = .ok (s, outs)

/-- What has been counted so far. -/
structure Counted (c : Cache K T) (moves : List (TallyMove K T)) (s : Tallying K T)
    (counted : Finset (Entry K)) : Prop where
  card : counted.card = s.totalSize
  visited : ∀ e ∈ counted, e.1 ∉ s.remaining
  seen : ∀ e ∈ counted, ∃ m, Passed hash c moves m ∧ Present m.cache e
  stayed : ∀ e, e.1 ∉ s.remaining → (∀ m, Passed hash c moves m → Present m.cache e) → e ∈ counted
  nodup : s.remaining.Nodup

section Run

variable {hash} {c : Cache K T} {s s' : Tallying K T} {moves : List (TallyMove K T)}
  {outs : List Unit}

theorem Passed.concat (h : Passed hash c moves s) (m : TallyMove K T) :
    Passed hash c (moves ++ [m]) s := by
  rcases h with ⟨early, outs, hbegin, hrun⟩
  exact ⟨early, outs, hbegin.trans (List.prefix_append moves [m]), hrun⟩

theorem counted_start (c : Cache K T) : Counted hash c [] (Tallying.start c) ∅ := by
  have hnone : ∀ e : Entry K, e ∉ (∅ : Finset (Entry K)) := Finset.notMem_empty
  refine ⟨rfl, fun e he => absurd he (hnone e), fun e he => absurd he (hnone e), ?_, ?_⟩
  · intro e he
    simp only [Tallying.start] at he
    exact absurd (List.mem_finRange e.1) he
  · simp only [Tallying.start]
    exact List.nodup_finRange fastcacheShardsize

/-- The entries that a round of `metrics` counts. -/
def entries (c : Cache K T) (index : Fin fastcacheShardsize) : Finset (Entry K) :=
  (c.shards index).keys.map ⟨fun k => (index, k), Prod.mk_right_injective index⟩

omit [DecidableEq K] in
theorem mem_entries {index : Fin fastcacheShardsize} {e : Entry K} :
    e ∈ entries c index ↔ e.1 = index ∧ Present c e := by
  rcases e with ⟨i, k⟩
  simp only [entries, Finset.mem_map, Function.Embedding.coeFn_mk, Prod.mk.injEq, Present,
    Finmap.mem_keys]
  constructor
  · rintro ⟨k', hk, rfl, rfl⟩
    exact ⟨rfl, hk⟩
  · rintro ⟨rfl, hk⟩
    exact ⟨k, hk, rfl, rfl⟩

theorem Counted.step {counted : Finset (Entry K)} {m : TallyMove K T} {o : Unit}
    (h : Counted hash c moves s counted)
    (hrun : run (tallyMove hash) (Tallying.start c) moves = .ok (s, outs))
    (hstep : tallyMove hash s m = .ok (s', o)) :
    ∃ counted', Counted hash c (moves ++ [m]) s' counted' := by
  have hseen : ∀ e ∈ counted, ∃ m', Passed hash c (moves ++ [m]) m' ∧ Present m'.cache e := by
    intro e he
    rcases h.seen e he with ⟨m', hpassed, hpresent⟩
    exact ⟨m', hpassed.concat m, hpresent⟩
  have hhere : Passed hash c (moves ++ [m]) s := ⟨moves, outs, List.prefix_append moves [m], hrun⟩
  cases m with
  | other x =>
      cases hstep
      refine ⟨counted, h.card, h.visited, hseen, ?_, h.nodup⟩
      intro e he hstayed
      exact h.stayed e he fun m' hpassed => hstayed m' (hpassed.concat _)
  | tally =>
      have hnodup := h.nodup
      cases hremaining : s.remaining with
      | nil =>
          rw [tallyMove, hremaining] at hstep
          cases hstep
      | cons index remaining =>
          rw [tallyMove, hremaining] at hstep
          cases hstep
          rw [hremaining, List.nodup_cons] at hnodup
          -- the entries of this shard have not been counted
          have hdisjoint : Disjoint counted (entries s.cache index) := by
            rw [Finset.disjoint_left]
            intro e he he'
            refine h.visited e he ?_
            rw [hremaining, (mem_entries.1 he').1]
            exact List.mem_cons_self
          refine ⟨counted ∪ entries s.cache index, ?_, ?_, ?_, ?_, hnodup.2⟩
          · rw [Finset.card_union_of_disjoint hdisjoint, h.card, entries, Finset.card_map]
            rfl
          · intro e he hmem
            rcases Finset.mem_union.1 he with he | he
            · refine h.visited e he ?_
              rw [hremaining]
              exact List.mem_cons_of_mem index hmem
            · rw [(mem_entries.1 he).1] at hmem
              exact hnodup.1 hmem
          · intro e he
            rcases Finset.mem_union.1 he with he | he
            · exact hseen e he
            · exact ⟨s, hhere, (mem_entries.1 he).2⟩
          · intro e he hstayed
            by_cases hindex : e.1 = index
            · exact Finset.mem_union_right _ (mem_entries.2 ⟨hindex, hstayed s hhere⟩)
            · refine Finset.mem_union_left _ (h.stayed e ?_ fun m' hpassed => hstayed m' (hpassed.concat _))
              rw [hremaining, List.mem_cons]
              exact fun hmem => hmem.elim hindex he

variable (hash) in
/-- Without other threads it is `metrics`. -/
theorem run_tallies (c : Cache K T) :
    ∃ outs, run (tallyMove hash) (Tallying.start c) (List.replicate fastcacheShardsize .tally) =
      .ok ({ cache := c
             remaining := []
             totalSize := c.metrics }, outs) := by
  have hrounds : ∀ (l : List (Fin fastcacheShardsize)) (total : Nat),
      ∃ outs, run (tallyMove hash)
          { cache := c
            remaining := l
            totalSize := total } (List.replicate l.length .tally) =
        .ok ({ cache := c
               remaining := []
               totalSize := l.foldl (fun total index => total + (c.shards index).size) total },
          outs) := by
    intro l
    induction l with
    | nil =>
        intro total
        exact ⟨[], rfl⟩
    | cons index l ih =>
        intro total
        rcases ih (total + (c.shards index).size) with ⟨outs, hrun⟩
        exact ⟨_, run_cons_ok_iff.2 ⟨_, _, outs, rfl, hrun, rfl⟩⟩
  have hall := hrounds (List.finRange fastcacheShardsize) 0
  rwa [List.length_finRange] at hall

/-- `metrics` counts no entry twice, none that was never there, and all that have stayed. -/
theorem metrics_between (h : run (tallyMove hash) (Tallying.start c) moves = .ok (s, outs))
    (hdone : s.remaining = []) :
    ∃ counted : Finset (Entry K), counted.card = s.totalSize ∧
      (∀ e ∈ counted, ∃ m, Passed hash c moves m ∧ Present m.cache e) ∧
      ∀ e, (∀ m, Passed hash c moves m → Present m.cache e) → e ∈ counted := by
  have hcounted : ∃ counted, Counted hash c moves s counted := by
    refine run_history (P := fun s moves _ => ∃ counted, Counted hash c moves s counted)
      ⟨∅, counted_start c⟩ ?_ h
    rintro moves m s outs move o hrun ⟨counted, hP⟩ hstep
    exact hP.step hrun hstep
  rcases hcounted with ⟨counted, hP⟩
  refine ⟨counted, hP.card, hP.seen, ?_⟩
  intro e hstayed
  refine hP.stayed e ?_ hstayed
  rw [hdone]
  exact List.not_mem_nil

end Run

/-- An entry is set before the tally begins. -/
theorem metrics_between_set :
    let moves : List (TallyMove Nat Nat) :=
      .other (.call (.set 1 (some 5) 0 .writeAlways)) :: List.replicate fastcacheShardsize .tally
    let c : Cache Nat Nat := (construct.set (fun id => id) 1 (some 5) 0 .writeAlways).1
    ∃ counted : Finset (Entry Nat), counted.card = c.metrics ∧
      (∀ e ∈ counted, ∃ m, Passed (fun id => id) construct moves m ∧ Present m.cache e) ∧
      ∀ e, (∀ m, Passed (fun id => id) construct moves m → Present m.cache e) → e ∈ counted := by
  intro moves c
  rcases run_tallies (fun id => id) c with ⟨outs, hrun⟩
  have hset : tallyMove (fun id => id) (Tallying.start construct)
      (.other (.call (.set 1 (some 5) 0 .writeAlways))) = .ok (Tallying.start c, ()) := by
    simp only [tallyMove, Tallying.start, Section.exec, KeyOp.toCacheOp, apply, c]
  rcases metrics_between (run_cons_ok_iff.2 ⟨_, _, outs, hset, hrun, rfl⟩) rfl with
    ⟨counted, hcard, hcounted⟩
  simp only at hcard
  exact ⟨counted, hcard, hcounted⟩

end Cache

end CapyAmqp
