import CapyAmqp.Cache.Tally

/-!
# Curator — the thread that culls, and the destructor that waits for it

A cache that is constructed with `enable_curator` runs `curate` in a thread of its own; the
destructor of the cache takes one from `curator_run` and joins the thread.  The flag is only looked
at before the curator goes to sleep: from the moment it is cleared, the curator makes one more pass
at most, and then ends (`curator_retires`).
-/

namespace CapyAmqp

open Lib

namespace Cache

variable {K T : Type}

/-- Where the curator is in `curate`. -/
inductive CuratorPhase
  /-- At the condition of its loop. -/
  | test
  | asleep
  /-- Before the next shard; these are left. -/
  | visiting (remaining : List (Fin fastcacheShardsize))
  | done
  deriving DecidableEq

/-- Where the thread that destroys the cache is in `~Cache`. -/
inductive OwnerPhase
  | alive
  | joining
  | destroyed
  deriving DecidableEq

structure Curating (K T : Type) where
  cache : Cache K T
  curatorRun : Int
  curator : CuratorPhase
  owner : OwnerPhase

/-- `Cache(true)`: the curator has been started. -/
def Curating.construct : Curating K T :=
  { cache := Cache.construct
    curatorRun := 1
    curator := .test
    owner := .alive }

inductive CurateMove (K T : Type)
  /-- Another thread uses the cache. -/
  | other (s : Section K T)
  /-- The curator looks at `curator_run`. -/
  | test
  /-- The curator wakes up. -/
  | wake
  /-- The curator visits a shard. -/
  | visit (clock : K → Int)
  /-- An exception ends the curator. -/
  | leave
  /-- The destructor takes one from `curator_run`. -/
  | retire
  /-- `join` returns. -/
  | join

def CurateMove.isCurator : CurateMove K T → Bool
  | .test => true
  | .wake => true
  | .visit _ => true
  | .leave => true
  | _ => false

inductive CurateFault
  /-- The thread is not there. -/
  | disabled
  /-- The cache is used while it is destroyed, or destroyed twice. -/
  | undefined
  deriving DecidableEq

/-- The loop of `curate` goes on with the next shard or with its condition. -/
def CuratorPhase.next : List (Fin fastcacheShardsize) → CuratorPhase
  | [] => .test
  | remaining => .visiting remaining

variable [DecidableEq K] (hash : K → Nat)

def curateMove (s : Curating K T) : CurateMove K T → Except CurateFault (Curating K T × Unit)
  | .other o =>
      if s.owner = .alive then .ok ({ s with cache := o.exec hash s.cache }, ())
      else .error .undefined
  | .test =>
      if s.curator = .test then
        .ok ({ s with curator := if s.curatorRun = 0 then .done else .asleep }, ())
      else .error .disabled
  | .wake =>
      if s.curator = .asleep then
        .ok ({ s with curator := .next (List.finRange fastcacheShardsize) }, ())
      else .error .disabled
  | .visit clock =>
      match s.curator with
      | .visiting (index :: remaining) =>
          .ok
            ({ s with
                cache := s.cache.cull index clock
                curator := .next remaining }, ())
      | _ => .error .disabled
  | .leave =>
      match s.curator with
      | .asleep => .ok ({ s with curator := .done }, ())
      | .visiting _ => .ok ({ s with curator := .done }, ())
      | _ => .error .disabled
  | .retire =>
      if s.owner = .alive then
        .ok
          ({ s with
              curatorRun := s.curatorRun - 1
              owner := .joining }, ())
      else .error .undefined
  | .join =>
      if s.owner = .joining ∧ s.curator = .done then .ok ({ s with owner := .destroyed }, ())
      else .error .disabled

/-- The moves that the curator has before it once `curator_run` is zero. -/
def CuratorPhase.left : CuratorPhase → Nat
  | .test => 1
  | .asleep => fastcacheShardsize + 2
  | .visiting remaining => remaining.length + 1
  | .done => 0

namespace CuratorPhase

@[simp] theorem left_test : CuratorPhase.test.left = 1 := rfl

@[simp] theorem left_asleep : CuratorPhase.asleep.left = fastcacheShardsize + 2 := rfl

@[simp] theorem left_visiting (remaining : List (Fin fastcacheShardsize)) :
    (CuratorPhase.visiting remaining).left = remaining.length + 1 := rfl

@[simp] theorem left_done : CuratorPhase.done.left = 0 := rfl

@[simp] theorem left_next (remaining : List (Fin fastcacheShardsize)) :
    (CuratorPhase.next remaining).left = remaining.length + 1 := by
  cases remaining <;> rfl

theorem next_ne_visiting (remaining : List (Fin fastcacheShardsize)) :
    CuratorPhase.next remaining ≠ .visiting [] := by
  cases remaining <;> simp [CuratorPhase.next]

end CuratorPhase

section Run

variable {hash} {s s' : Curating K T} {m : CurateMove K T} {moves : List (CurateMove K T)}
  {outs : List Unit} {o : Unit}

/-! ## One step -/

/-- What a step does to the threads, by who takes it. -/
inductive CurateEffect (s s' : Curating K T) (m : CurateMove K T) : Prop
  | curator (hm : m.isCurator = true) (howner : s'.owner = s.owner)
      (hflag : s'.curatorRun = s.curatorRun) (hlive : s.curator ≠ .done)
      (hnext : s'.curator ≠ .visiting [])
      (hless : s.curatorRun = 0 → s'.curator.left < s.curator.left)
      (hleft : s.curatorRun = 0 → m ≠ .leave → s'.curator.left + 1 = s.curator.left)
      (hbound : s.curator.left ≤ fastcacheShardsize + 2 →
        s'.curator.left ≤ fastcacheShardsize + 2)
  | other (hm : m.isCurator = false) (hne : m ≠ .retire) (howner : s'.owner = s.owner)
      (hflag : s'.curatorRun = s.curatorRun) (hcurator : s'.curator = s.curator)
  | retire (hm : m = .retire) (hbefore : s.owner = .alive) (howner : s'.owner = .joining)
      (hflag : s'.curatorRun = s.curatorRun - 1) (hcurator : s'.curator = s.curator)
  | join (hm : m = .join) (hbefore : s.owner = .joining) (howner : s'.owner = .destroyed)
      (hflag : s'.curatorRun = s.curatorRun) (hdone : s.curator = .done)
      (hcurator : s'.curator = s.curator)

theorem curateEffect (h : curateMove hash s m = .ok (s', o)) : CurateEffect s s' m := by
  cases m with
  | other x =>
      simp only [curateMove] at h
      split at h
      · cases h
        exact .other rfl (by simp) rfl rfl rfl
      · cases h
  | test =>
      simp only [curateMove] at h
      split at h
      · rename_i hphase
        cases h
        refine .curator rfl rfl rfl (by simp [hphase]) ?_ ?_ ?_ ?_
        · dsimp only
          split <;> simp
        · intro hzero
          simp [hzero, hphase]
        · intro hzero _
          simp [hzero, hphase]
        · intro _
          dsimp only
          split <;> simp
      · cases h
  | wake =>
      simp only [curateMove] at h
      split at h
      · rename_i hphase
        cases h
        refine .curator rfl rfl rfl (by simp [hphase]) ?_ ?_ ?_ ?_
        · dsimp only
          exact CuratorPhase.next_ne_visiting _
        · intro _
          simp [hphase]
        · intro _ _
          simp [hphase]
        · intro _
          simp
      · cases h
  | visit clock =>
      simp only [curateMove] at h
      split at h
      · rename_i index remaining hphase
        cases h
        refine .curator rfl rfl rfl (by simp [hphase]) (CuratorPhase.next_ne_visiting _) ?_ ?_ ?_
        · intro _
          simp [hphase]
        · intro _ _
          simp [hphase]
        · intro hbound
          rw [hphase, CuratorPhase.left_visiting, List.length_cons] at hbound
          rw [CuratorPhase.left_next]
          omega
      · cases h
  | leave =>
      simp only [curateMove] at h
      split at h
      · rename_i hphase
        cases h
        exact .curator rfl rfl rfl (by simp [hphase]) (by simp) (fun _ => by simp [hphase])
          (fun _ hne => absurd rfl hne) fun _ => by simp
      · rename_i remaining hphase
        cases h
        exact .curator rfl rfl rfl (by simp [hphase]) (by simp) (fun _ => by simp [hphase])
          (fun _ hne => absurd rfl hne) fun _ => by simp
      · cases h
  | retire =>
      simp only [curateMove] at h
      split at h
      · rename_i halive
        cases h
        exact .retire rfl halive rfl rfl rfl
      · cases h
  | join =>
      simp only [curateMove] at h
      split at h
      · rename_i hjoin
        cases h
        exact .join rfl hjoin.1 rfl rfl hjoin.2 rfl
      · cases h

/-- A curator that has not ended can go on. -/
theorem exists_curator_move (hlive : s.curator ≠ .done) (hnext : s.curator ≠ .visiting []) :
    ∃ m s', m.isCurator = true ∧ m ≠ .leave ∧ curateMove hash s m = .ok (s', ()) := by
  cases hphase : s.curator with
  | test => exact ⟨.test, _, rfl, by simp, by simp only [curateMove, hphase, if_true]; rfl⟩
  | asleep => exact ⟨.wake, _, rfl, by simp, by simp only [curateMove, hphase, if_true]; rfl⟩
  | visiting remaining =>
      cases remaining with
      | nil => exact absurd hphase hnext
      | cons index remaining =>
          exact ⟨.visit fun _ => 0, _, rfl, by simp, by simp only [curateMove, hphase]; rfl⟩
  | done => exact absurd hphase hlive

/-! ## Runs -/

/-- What holds of the threads in every run. -/
structure Tended (s : Curating K T) : Prop where
  flag : s.curatorRun = if s.owner = .alive then 1 else 0
  joined : s.owner = .destroyed → s.curator = .done
  next : s.curator ≠ .visiting []
  bound : s.curator.left ≤ fastcacheShardsize + 2

omit [DecidableEq K] in
theorem tended_construct : Tended (Curating.construct : Curating K T) := by
  refine ⟨rfl, ?_, ?_, ?_⟩
  · intro h
    cases h
  · simp [Curating.construct]
  · simp [Curating.construct]

theorem Tended.step (h : Tended s) (hstep : curateMove hash s m = .ok (s', o)) : Tended s' := by
  rcases h with ⟨hrun, hjoined, hvisiting, hleft⟩
  cases curateEffect hstep with
  | curator hm howner hflag hlive hnext hless _ hbound =>
      refine ⟨?_, ?_, hnext, hbound hleft⟩
      · rw [hflag, howner]
        exact hrun
      · intro hdestroyed
        exact absurd (hjoined (howner ▸ hdestroyed)) hlive
  | other hm _ howner hflag hcurator =>
      refine ⟨?_, ?_, hcurator ▸ hvisiting, hcurator ▸ hleft⟩
      · rw [hflag, howner]
        exact hrun
      · intro hdestroyed
        rw [hcurator]
        exact hjoined (howner ▸ hdestroyed)
  | retire hm hbefore howner hflag hcurator =>
      refine ⟨?_, ?_, hcurator ▸ hvisiting, hcurator ▸ hleft⟩
      · rw [hflag, howner, hrun, hbefore]
        rfl
      · intro hdestroyed
        rw [howner] at hdestroyed
        cases hdestroyed
  | join hm hbefore howner hflag hdone hcurator =>
      refine ⟨?_, fun _ => hcurator.trans hdone, hcurator ▸ hvisiting, hcurator ▸ hleft⟩
      rw [hflag, howner, hrun, hbefore]
      rfl

/-- Once the flag is cleared the curator uses up what it has before it. -/
theorem left_of_run (hflag : s.curatorRun = 0) (howner : s.owner ≠ .alive)
    (h : run (curateMove hash) s moves = .ok (s', outs)) :
    moves.countP CurateMove.isCurator + s'.curator.left ≤ s.curator.left ∧
      (.leave ∉ moves → moves.countP CurateMove.isCurator + s'.curator.left = s.curator.left) := by
  induction moves generalizing s outs with
  | nil =>
      cases h
      simp
  | cons m moves ih =>
      rcases run_cons_ok_iff.1 h with ⟨s₁, o, outs', hstep, hrest, _⟩
      cases curateEffect hstep with
      | curator hm howner' hflag' _ _ hless hleft _ =>
          rcases ih (hflag'.trans hflag) (howner' ▸ howner) hrest with ⟨hle, heq⟩
          rw [List.countP_cons_of_pos hm]
          have hstep := hless hflag
          refine ⟨by omega, fun hleave => ?_⟩
          rw [List.mem_cons, not_or] at hleave
          have hone := hleft hflag (Ne.symm hleave.1)
          have hmoves := heq hleave.2
          omega
      | other hm _ howner' hflag' hcurator =>
          rcases ih (hflag'.trans hflag) (howner' ▸ howner) hrest with ⟨hle, heq⟩
          rw [List.countP_cons_of_neg (by simp [hm]), ← hcurator]
          exact ⟨hle, fun hleave => heq fun hmem => hleave (List.mem_cons_of_mem m hmem)⟩
      | retire hm hbefore _ _ _ => exact absurd hbefore howner
      | join hm hbefore howner' hflag' _ hcurator =>
          have howner₁ : s₁.owner ≠ .alive := by
            rw [howner']
            simp
          rcases ih (hflag'.trans hflag) howner₁ hrest with ⟨hle, heq⟩
          rw [List.countP_cons_of_neg (by simp [hm, CurateMove.isCurator]), ← hcurator]
          exact ⟨hle, fun hleave => heq fun hmem => hleave (List.mem_cons_of_mem m hmem)⟩

/-- After the destructor has cleared the flag, the curator takes as many steps as it had before it,
one pass at most, and can always take them; the destructor has not returned before. -/
theorem curator_retires {before after : List (CurateMove K T)}
    (h : run (curateMove hash) Curating.construct (before ++ .retire :: after) = .ok (s, outs)) :
    ∃ m os, run (curateMove hash) Curating.construct before = .ok (m, os) ∧
      m.curator.left ≤ fastcacheShardsize + 2 ∧
      after.countP CurateMove.isCurator + s.curator.left ≤ m.curator.left ∧
      (.leave ∉ after → after.countP CurateMove.isCurator + s.curator.left = m.curator.left) ∧
      (s.curator ≠ .done → ∃ move s', move.isCurator = true ∧ move ≠ .leave ∧
        curateMove hash s move = .ok (s', ())) ∧
      (s.owner = .destroyed → s.curator = .done) := by
  rcases run_append_ok_iff.1 h with ⟨m, os, os', hbefore, hrest, _⟩
  rcases run_cons_ok_iff.1 hrest with ⟨m', o, os'', hretire, hafter, _⟩
  have htended : Tended m :=
    run_invariant (fun ht hstep => ht.step hstep) tended_construct hbefore
  have htended' := htended.step hretire
  have hend : Tended s := run_invariant (fun ht hstep => ht.step hstep) htended' hafter
  cases curateEffect hretire with
  | curator hm _ _ _ _ _ _ _ => cases hm
  | other _ hne _ _ _ => exact absurd rfl hne
  | join hm _ _ _ _ _ => cases hm
  | retire hm hbefore' howner hflag hcurator =>
      have hzero : m'.curatorRun = 0 := by
        rw [htended'.flag, howner]
        rfl
      rcases left_of_run hzero (by simp [howner]) hafter with ⟨hle, heq⟩
      rw [hcurator] at hle heq
      exact ⟨m, os, hbefore, htended.bound, hle, heq,
        fun hlive => exists_curator_move hlive hend.next, hend.joined⟩

/-- The rest of a pass, shard after shard. -/
theorem run_visits (clock : K → Int) (remaining : List (Fin fastcacheShardsize))
    (h : s.curator = .next remaining) :
    ∃ c outs, run (curateMove hash) s (List.replicate remaining.length (.visit clock)) =
      .ok ({ s with
              cache := c
              curator := .test }, outs) := by
  induction remaining generalizing s with
  | nil =>
      rcases s with ⟨c, flag, curator, owner⟩
      cases h
      exact ⟨c, [], rfl⟩
  | cons index remaining ih =>
      have hvisit : curateMove hash s (.visit clock) =
          .ok
            ({ s with
                cache := s.cache.cull index clock
                curator := .next remaining }, ()) := by
        rw [curateMove, h]
        rfl
      rcases ih (s := { s with cache := s.cache.cull index clock, curator := .next remaining }) rfl
        with ⟨c, outs, hrun⟩
      exact ⟨c, () :: outs, run_cons_ok_iff.2 ⟨_, (), outs, hvisit, hrun, rfl⟩⟩

end Run

/-- The curator is asleep when the flag is cleared.  It makes one more pass, which takes all the steps
it is allowed, and then `join` returns. -/
theorem curator_retires_asleep :
    let after : List (CurateMove Nat Nat) :=
      .wake :: (List.replicate fastcacheShardsize (.visit fun _ => 0) ++ [.test, .join])
    ∃ (s m : Curating Nat Nat) (outs os : List Unit),
      run (curateMove fun id => id) Curating.construct ([.test] ++ .retire :: after) = .ok (s, outs) ∧
      run (curateMove fun id => id) Curating.construct [.test] = .ok (m, os) ∧
      after.countP CurateMove.isCurator = fastcacheShardsize + 2 ∧
      after.countP CurateMove.isCurator + s.curator.left = m.curator.left ∧
      m.curator.left ≤ fastcacheShardsize + 2 ∧ s.owner = .destroyed ∧ s.curator = .done := by
  intro after
  have hwake : run (curateMove fun id : Nat => id) (Curating.construct : Curating Nat Nat)
      [.test, .retire, .wake] =
        .ok
          ({ cache := Cache.construct
             curatorRun := 0
             curator := .next (List.finRange fastcacheShardsize)
             owner := .joining }, [(), (), ()]) := rfl
  -- the whole pass, the look at the flag, and the end
  rcases @run_visits Nat Nat _ (fun id => id)
    { cache := Cache.construct
      curatorRun := 0
      curator := .next (List.finRange fastcacheShardsize)
      owner := .joining } (fun _ => 0) (List.finRange fastcacheShardsize) rfl with ⟨c, outs, hvisits⟩
  rw [List.length_finRange] at hvisits
  have hend : run (curateMove fun id : Nat => id)
      { cache := c
        curatorRun := 0
        curator := .test
        owner := .joining } [.test, .join] =
        .ok
          ({ cache := c
             curatorRun := 0
             curator := .done
             owner := .destroyed }, [(), ()]) := rfl
  have hpass := run_append_ok_iff.2 ⟨_, outs, _, hvisits, hend, rfl⟩
  have hall := run_append_ok_iff.2 ⟨_, _, _, hwake, hpass, rfl⟩
  have hrun : run (curateMove fun id => id) Curating.construct ([.test] ++ .retire :: after) =
      .ok _ := hall
  rcases curator_retires hrun with ⟨m, os, hbefore, hbound, _, hsteps, _, _⟩
  have hleave : .leave ∉ after := by
    simp [after]
  have hcount : after.countP CurateMove.isCurator = fastcacheShardsize + 2 := by
    rw [List.countP_cons_of_pos rfl, List.countP_append, List.countP_replicate]
    rfl
  exact ⟨_, m, _, os, hrun, hbefore, hcount, hsteps hleave, hbound, rfl, rfl⟩

end Cache

end CapyAmqp
