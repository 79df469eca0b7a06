import Mathlib.Data.List.Basic
import Mathlib.Data.List.Pairwise
import Mathlib.Order.Lattice

/-!
# SortedMap — an ordered map as the list of its entries

The entries of an ordered map in the order of their keys.  `assign` is the assignment to the entry
of a key, which is made when there is none; `emplace` only makes entries.  A map is what can be
looked up in it (`Sorted.eq_of_lookup`).  Filling a map entry by entry, the last assignment to a key
counts (`eq_assignAll_iff`), and the first emplacement (`lookup_emplaceAll`); the entries of a map,
assigned in their order, give the map back (`assignAll_self`).
-/

namespace Lib

namespace SortedMap

variable {K V : Type*} [LinearOrder K]

/-- The keys of the entries ascend. -/
def Sorted (m : List (K × V)) : Prop := m.Pairwise fun e e' => e.1 < e'.1

/-- Set the entry of a key. -/
def assign (key : K) (value : V) : List (K × V) → List (K × V)
  | [] => [(key, value)]
  | e :: m =>
      if key < e.1 then (key, value) :: e :: m
      else if key = e.1 then (key, value) :: m
      else e :: assign key value m

/-- Make the entry of a key unless there is one. -/
def emplace (key : K) (value : V) (m : List (K × V)) : List (K × V) :=
  if (m.lookup key).isSome then m else assign key value m

/-- Assign entries one after the other. -/
def assignAll (entries m : List (K × V)) : List (K × V) :=
  entries.foldl (fun m e => assign e.1 e.2 m) m

def emplaceAll (entries m : List (K × V)) : List (K × V) :=
  entries.foldl (fun m e => emplace e.1 e.2 m) m

variable {key key' : K} {value : V} {m : List (K × V)} {e : K × V}

/-! ## One entry -/

theorem lookup_cons_eq : (e :: m).lookup key = if key = e.1 then some e.2 else m.lookup key := by
  rw [List.lookup_cons]
  by_cases h : key = e.1
  · simp [h]
  · simp [beq_eq_false_iff_ne.2 h, h]

theorem lookup_head : (e :: m).lookup e.1 = some e.2 :=
  List.lookup_cons_self

theorem lookup_eq_none_of_lt (h : ∀ e ∈ m, key < e.1) : m.lookup key = none := by
  induction m with
  | nil => rfl
  | cons e m ih =>
      rcases List.forall_mem_cons.1 h with ⟨hhead, htail⟩
      rw [lookup_cons_eq, if_neg hhead.ne, ih htail]

/-- What is looked up behind the head. -/
theorem Sorted.lookup_tail (h : Sorted (e :: m)) :
    m.lookup key = if key = e.1 then none else (e :: m).lookup key := by
  rw [lookup_cons_eq]
  split
  · rename_i hkey
    exact lookup_eq_none_of_lt fun e' he' => hkey ▸ (List.pairwise_cons.1 h).1 e' he'
  · rfl

/-- A key that is found is not below the first one. -/
theorem Sorted.head_le (h : Sorted (e :: m)) (hlookup : (e :: m).lookup key = some value) :
    e.1 ≤ key := by
  by_contra hlt
  have hall : ∀ d ∈ e :: m, key < d.1 :=
    List.forall_mem_cons.2
      ⟨not_le.1 hlt, fun d hd => (not_le.1 hlt).trans ((List.pairwise_cons.1 h).1 d hd)⟩
  rw [lookup_eq_none_of_lt hall] at hlookup
  cases hlookup

/-- Maps in which the same is found are the same. -/
theorem Sorted.eq_of_lookup {m' : List (K × V)} (h : Sorted m) (h' : Sorted m')
    (hlookup : ∀ key, m.lookup key = m'.lookup key) : m = m' := by
  induction m generalizing m' with
  | nil =>
      cases m' with
      | nil => rfl
      | cons e' m' => cases (hlookup e'.1).trans lookup_head
  | cons e m ih =>
      cases m' with
      | nil => cases (hlookup e.1).symm.trans lookup_head
      | cons e' m' =>
          have hfound : (e' :: m').lookup e.1 = some e.2 := (hlookup e.1).symm.trans lookup_head
          have hfound' : (e :: m).lookup e'.1 = some e'.2 := (hlookup e'.1).trans lookup_head
          have hkey : e.1 = e'.1 := le_antisymm (h.head_le hfound') (h'.head_le hfound)
          rw [hkey, lookup_head, Option.some_inj] at hfound
          have htail : m = m' := by
            refine ih (List.pairwise_cons.1 h).2 (List.pairwise_cons.1 h').2 fun key => ?_
            rw [h.lookup_tail, h'.lookup_tail, hkey, hlookup]
          rw [htail, Prod.ext hkey hfound.symm]

theorem mem_assign (h : e ∈ assign key value m) : e = (key, value) ∨ e ∈ m := by
  induction m with
  | nil => simpa [assign] using h
  | cons e' m ih =>
      simp only [assign] at h
      split at h
      · simpa using h
      split at h
      · rcases List.mem_cons.1 h with h | h
        · exact .inl h
        · exact .inr (List.mem_cons_of_mem _ h)
      · rcases List.mem_cons.1 h with rfl | h
        · exact .inr List.mem_cons_self
        · exact (ih h).imp id (List.mem_cons_of_mem _)

theorem Sorted.assign (h : Sorted m) (key : K) (value : V) :
    Sorted (assign key value m) := by
  induction m with
  | nil => exact List.pairwise_singleton _ _
  | cons e m ih =>
      rcases List.pairwise_cons.1 h with ⟨hhead, htail⟩
      simp only [SortedMap.assign]
      split
      · rename_i hlt
        refine List.pairwise_cons.2 ⟨fun e' he' => ?_, h⟩
        rcases List.mem_cons.1 he' with rfl | he'
        · exact hlt
        · exact hlt.trans (hhead e' he')
      split
      · rename_i heq
        exact List.pairwise_cons.2 ⟨fun e' he' => heq ▸ hhead e' he', htail⟩
      · rename_i hnlt hne
        have hlt : e.1 < key := lt_of_le_of_ne (not_lt.1 hnlt) (Ne.symm hne)
        refine List.pairwise_cons.2 ⟨fun e' he' => ?_, ih htail⟩
        rcases mem_assign he' with rfl | he'
        · exact hlt
        · exact hhead e' he'

theorem lookup_assign :
    (assign key value m).lookup key' = if key' = key then some value else m.lookup key' := by
  induction m with
  | nil => simp [assign, lookup_cons_eq]
  | cons e m ih =>
      simp only [assign]
      split
      · rw [lookup_cons_eq]
      split
      · rename_i heq
        by_cases h : key' = key <;> simp [lookup_cons_eq, ← heq, h]
      · rename_i hne
        rw [lookup_cons_eq, ih, lookup_cons_eq]
        by_cases h : key' = key
        · subst h
          simp [hne]
        · simp [h]

/-- A key beyond all others comes last. -/
theorem assign_last (h : ∀ e ∈ m, e.1 < key) : assign key value m = m ++ [(key, value)] := by
  induction m with
  | nil => rfl
  | cons e m ih =>
      have hlt : e.1 < key := h e List.mem_cons_self
      rw [assign, if_neg hlt.not_gt, if_neg hlt.ne',
        ih fun e' he' => h e' (List.mem_cons_of_mem _ he')]
      rfl

theorem lookup_emplace :
    (emplace key value m).lookup key' =
      (m.lookup key').or (if key' = key then some value else none) := by
  unfold emplace
  split
  · rename_i hsome
    by_cases h : key' = key
    · subst h
      rcases Option.isSome_iff_exists.1 hsome with ⟨v, hv⟩
      simp [hv]
    · simp [h]
  · rename_i hnone
    rw [lookup_assign]
    by_cases h : key' = key
    · subst h
      simp [Option.not_isSome_iff_eq_none.1 hnone]
    · simp [h]

/-! ## Many entries -/

theorem Sorted.assignAll (entries : List (K × V)) (h : Sorted m) :
    Sorted (assignAll entries m) := by
  induction entries generalizing m with
  | nil => exact h
  | cons e entries ih => exact ih (h.assign e.1 e.2)

theorem lookup_assignAll (entries : List (K × V)) :
    (assignAll entries m).lookup key = (entries.reverse.lookup key).or (m.lookup key) := by
  induction entries generalizing m with
  | nil => rfl
  | cons e entries ih =>
      have h : assignAll (e :: entries) m = assignAll entries (assign e.1 e.2 m) := rfl
      have hlast : [e].lookup key = if key = e.1 then some e.2 else none := lookup_cons_eq
      rw [h, ih, lookup_assign, List.reverse_cons, List.lookup_append, Option.or_assoc, hlast]
      congr 1
      split <;> rfl

/-- Of the entries that have one key the last one counts. -/
theorem eq_assignAll_iff {entries : List (K × V)} :
    m = assignAll entries [] ↔ Sorted m ∧ ∀ key, m.lookup key = entries.reverse.lookup key := by
  have hfound : ∀ key, (assignAll entries []).lookup key = entries.reverse.lookup key := fun key => by
    rw [lookup_assignAll, List.lookup_nil, Option.or_none]
  constructor
  · rintro rfl
    exact ⟨Sorted.assignAll entries List.Pairwise.nil, hfound⟩
  · rintro ⟨hsorted, hlookup⟩
    exact hsorted.eq_of_lookup (.assignAll entries List.Pairwise.nil) fun key =>
      (hlookup key).trans (hfound key).symm

theorem mem_assignAll {entries : List (K × V)} (h : e ∈ assignAll entries m) :
    e ∈ entries ∨ e ∈ m := by
  induction entries generalizing m with
  | nil => exact .inr h
  | cons e' entries ih =>
      rcases ih h with h | h
      · exact .inl (List.mem_cons_of_mem _ h)
      rcases mem_assign h with rfl | h
      · exact .inl List.mem_cons_self
      · exact .inr h

theorem length_assign_le : (assign key value m).length ≤ m.length + 1 := by
  induction m with
  | nil => exact Nat.le_refl 1
  | cons e m ih =>
      simp only [assign]
      split
      · simp
      split
      · simp
      · simpa using ih

theorem length_assignAll_le (entries : List (K × V)) :
    (assignAll entries m).length ≤ m.length + entries.length := by
  induction entries generalizing m with
  | nil => exact Nat.le_refl m.length
  | cons e entries ih =>
      calc (assignAll entries (assign e.1 e.2 m)).length
          ≤ (assign e.1 e.2 m).length + entries.length := ih
        _ ≤ m.length + 1 + entries.length := Nat.add_le_add_right length_assign_le _
        _ = m.length + (e :: entries).length := by rw [List.length_cons]; omega

/-- The first emplacement of a key counts. -/
theorem lookup_emplaceAll (entries : List (K × V)) :
    (emplaceAll entries m).lookup key = (m.lookup key).or (entries.lookup key) := by
  induction entries generalizing m with
  | nil => simp [emplaceAll]
  | cons e entries ih =>
      have h : emplaceAll (e :: entries) m = emplaceAll entries (emplace e.1 e.2 m) := rfl
      rw [h, ih, lookup_emplace, Option.or_assoc]
      congr 1
      by_cases hkey : key = e.1 <;> simp [lookup_cons_eq, hkey]

theorem assignAll_append {entries : List (K × V)} (h : Sorted (m ++ entries)) :
    assignAll entries m = m ++ entries := by
  induction entries generalizing m with
  | nil => simp [assignAll]
  | cons e entries ih =>
      have hlast : assign e.1 e.2 m = m ++ [e] :=
        assign_last fun e' he' => (List.pairwise_append.1 h).2.2 e' he' e List.mem_cons_self
      have hsorted : Sorted (m ++ [e] ++ entries) := by simpa using h
      calc assignAll entries (assign e.1 e.2 m)
          = assignAll entries (m ++ [e]) := by rw [hlast]
        _ = m ++ [e] ++ entries := ih hsorted
        _ = m ++ e :: entries := by simp

/-- The entries of a map, assigned in their order, give the map back. -/
theorem assignAll_self {entries : List (K × V)} (h : Sorted entries) :
    assignAll entries [] = entries :=
  assignAll_append h

end SortedMap

end Lib
