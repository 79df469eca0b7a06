import Mathlib.Data.Finmap
import Mathlib.Data.Fintype.Card
import Mathlib.Algebra.BigOperators.Group.Finset.Basic
import Mathlib.Algebra.Order.BigOperators.Group.Finset

/-!
# SplitMap — one finite map kept as a family of finite maps

A finite map can be stored in pieces: an index function sends every key to the piece that may
hold it.  `Splits idx shards m` says that the pieces `shards` together are the map `m`.  The
rules below carry that relation through a change at one key, through emptying all pieces and
through filtering, and count the entries piece by piece.
-/

namespace Lib

/-! ## Filtering a finite map -/

section Filter

variable {K V : Type*}

/-- Keep the entries that satisfy `p`. -/
def filterMap (p : K → V → Bool) (m : Finmap fun _ : K => V) : Finmap fun _ : K => V :=
  { entries := m.entries.filter fun e => p e.1 e.2 = true
    nodupKeys := by
      have hle : (m.entries.filter fun e => p e.1 e.2 = true).map Sigma.fst ≤
          m.entries.map Sigma.fst :=
        Multiset.map_le_map (Multiset.filter_le _ _)
      exact Multiset.nodup_keys.1
        (Multiset.nodup_of_le hle (Multiset.nodup_keys.2 m.nodupKeys)) }

variable [DecidableEq K]

@[simp] theorem lookup_filterMap (p : K → V → Bool) (m : Finmap fun _ : K => V) (k : K) :
    (filterMap p m).lookup k = (m.lookup k).filter (p k) := by
  ext v
  have hleft : v ∈ (filterMap p m).lookup k ↔ ⟨k, v⟩ ∈ m.entries ∧ p k v = true := by
    rw [Finmap.mem_lookup_iff]
    simp [filterMap]
  have hright : v ∈ (m.lookup k).filter (p k) ↔ ⟨k, v⟩ ∈ m.entries ∧ p k v = true := by
    rw [Option.mem_filter_iff, Finmap.mem_lookup_iff]
  exact hleft.trans hright.symm

theorem mem_of_mem_filterMap {p : K → V → Bool} {m : Finmap fun _ : K => V} {k : K}
    (h : k ∈ filterMap p m) : k ∈ m := by
  rw [← Finmap.lookup_isSome] at h ⊢
  rw [lookup_filterMap] at h
  cases hk : m.lookup k with
  | none =>
      simp [hk] at h
  | some v =>
      rfl

theorem filterMap_true (m : Finmap fun _ : K => V) : filterMap (fun _ _ => true) m = m := by
  refine Finmap.ext_lookup ?_
  intro k
  cases hk : m.lookup k with
  | none =>
      simp [hk]
  | some v =>
      simp [hk]

/-- Filtering twice keeps what satisfies both predicates. -/
theorem filterMap_filterMap (p q : K → V → Bool) (m : Finmap fun _ : K => V) :
    filterMap q (filterMap p m) = filterMap (fun k v => p k v && q k v) m := by
  refine Finmap.ext_lookup ?_
  intro k
  simp only [lookup_filterMap, Option.filter_filter]

end Filter

/-! ## Split maps -/

section Splits

variable {ι K V : Type*}

/-- The pieces `shards`, indexed through `idx`, together are the map `m`. -/
structure Splits [DecidableEq K] (idx : K → ι) (shards : ι → Finmap fun _ : K => V)
    (m : Finmap fun _ : K => V) : Prop where
  lookup : ∀ k, (shards (idx k)).lookup k = m.lookup k
  placed : ∀ i k, k ∈ shards i → idx k = i

namespace Splits

variable [DecidableEq K] {idx : K → ι} {shards : ι → Finmap fun _ : K => V}
  {m : Finmap fun _ : K => V}

theorem mem_iff (h : Splits idx shards m) (i : ι) (k : K) : k ∈ shards i ↔ idx k = i ∧ k ∈ m := by
  constructor
  · intro hk
    have hi : idx k = i := h.placed i k hk
    subst hi
    rw [← Finmap.lookup_isSome, h.lookup, Finmap.lookup_isSome] at hk
    exact ⟨rfl, hk⟩
  · rintro ⟨rfl, hk⟩
    rw [← Finmap.lookup_isSome, h.lookup, Finmap.lookup_isSome]
    exact hk

theorem empty : Splits idx (fun _ => ∅) (∅ : Finmap fun _ : K => V) :=
  { lookup := fun _ => rfl
    placed := fun _ _ hk => absurd hk Finmap.notMem_empty }

/-- A key lies in at most one piece. -/
theorem index_unique (h : Splits idx shards m) {i j : ι} {k : K} (hi : k ∈ shards i)
    (hj : k ∈ shards j) : i = j :=
  (h.placed i k hi).symm.trans (h.placed j k hj)

/-- Changing one key in its piece and in the whole map keeps the two together. -/
theorem update [DecidableEq ι] (h : Splits idx shards m) {k : K}
    {s' m' : Finmap fun _ : K => V} (hs : ∀ k', k' ≠ k → s'.lookup k' = (shards (idx k)).lookup k')
    (hm : ∀ k', k' ≠ k → m'.lookup k' = m.lookup k') (hk : s'.lookup k = m'.lookup k) :
    Splits idx (Function.update shards (idx k) s') m' := by
  constructor
  · intro k'
    by_cases hidx : idx k' = idx k
    · rw [hidx, Function.update_self]
      by_cases hkk : k' = k
      · subst hkk
        exact hk
      · rw [hs k' hkk, hm k' hkk, ← hidx, h.lookup]
    · have hkk : k' ≠ k := by
        intro heq
        exact hidx (congrArg idx heq)
      rw [Function.update_of_ne hidx, h.lookup, hm k' hkk]
  · intro i k' hk'
    by_cases hi : i = idx k
    · subst hi
      rw [Function.update_self] at hk'
      by_cases hkk : k' = k
      · subst hkk
        rfl
      · rw [← Finmap.lookup_isSome, hs k' hkk, Finmap.lookup_isSome] at hk'
        exact h.placed _ _ hk'
    · rw [Function.update_of_ne hi] at hk'
      exact h.placed _ _ hk'

/-- Filtering one piece filters the keys of that piece in the whole map. -/
theorem filter [DecidableEq ι] (h : Splits idx shards m) (p : K → V → Bool) (i : ι) :
    Splits idx (Function.update shards i (filterMap p (shards i)))
      (filterMap (fun k v => p k v || !decide (idx k = i)) m) := by
  constructor
  · intro k
    rw [lookup_filterMap]
    by_cases hi : idx k = i
    · subst hi
      rw [Function.update_self, lookup_filterMap, h.lookup]
      simp
    · rw [Function.update_of_ne hi, h.lookup]
      cases m.lookup k with
      | none => rfl
      | some v => simp [Option.filter, hi]
  · intro j k hk
    by_cases hj : j = i
    · subst hj
      rw [Function.update_self] at hk
      exact h.placed _ _ (mem_of_mem_filterMap hk)
    · rw [Function.update_of_ne hj] at hk
      exact h.placed _ _ hk

/-- The entries of the whole map, counted piece by piece. -/
theorem sum_card_keys [Fintype ι] (h : Splits idx shards m) :
    ∑ i, (shards i).keys.card = m.keys.card := by
  classical
  have hunion : m.keys = Finset.univ.biUnion fun i => (shards i).keys := by
    ext k
    simp only [Finset.mem_biUnion, Finset.mem_univ, true_and, Finmap.mem_keys, h.mem_iff]
    constructor
    · intro hk
      exact ⟨idx k, rfl, hk⟩
    · rintro ⟨_, _, hk⟩
      exact hk
  rw [hunion, Finset.card_biUnion]
  intro i _ j _ hij
  rw [Function.onFun, Finset.disjoint_left]
  intro k hi hj
  rw [Finmap.mem_keys] at hi hj
  exact hij (h.index_unique hi hj)

end Splits

end Splits

end Lib
