import CapyAmqp.Broker.OneReply

/-!
# Completion — when the complete handler of a replay fires

The destructor of a replay invokes the complete handler, and `commit` clears that handler, where it
was meant to clear the commit handler.  So a handler that is registered before `commit` never
fires.  `completion_once_iff` says for every run with one commit when a complete handler fires, and
which one.
-/

namespace CapyAmqp

open Lib

variable {H : Type}

def ReplayEvent.isOnComplete : ReplayEvent H → Bool
  | .call (.onComplete _) => true
  | _ => false

def ReplayAction.isCompleted : ReplayAction H → Bool
  | .completed _ => true
  | _ => false

/-- How often a complete handler has been invoked. -/
def completions (as : List (ReplayAction H)) : Nat :=
  as.countP ReplayAction.isCompleted

def ReplayAction.firedHandler : ReplayAction H → Option H
  | .completed handler => some handler
  | _ => none

/-- The complete handlers that have been invoked. -/
def completed (as : List (ReplayAction H)) : List H :=
  as.filterMap ReplayAction.firedHandler

theorem completed_append (xs ys : List (ReplayAction H)) :
    completed (xs ++ ys) = completed xs ++ completed ys :=
  List.filterMap_append

theorem length_completed (as : List (ReplayAction H)) :
    (completed as).length = completions as := by
  have hfired : (fun a : ReplayAction H => a.firedHandler.isSome) = ReplayAction.isCompleted := by
    funext a
    cases a <;> rfl
  rw [completed, List.length_filterMap_eq_countP, hfired, completions]

def ReplayEvent.newHandler : ReplayEvent H → Option H
  | .call (.onComplete handler) => some handler
  | _ => none

/-- The complete handler that has been registered last. -/
def lastHandler (evs : List (ReplayEvent H)) : Option H :=
  (evs.filterMap ReplayEvent.newHandler).getLast?

theorem lastHandler_concat (evs : List (ReplayEvent H)) (e : ReplayEvent H) :
    lastHandler (evs ++ [e]) = e.newHandler.or (lastHandler evs) := by
  rw [lastHandler, List.filterMap_append, List.getLast?_append, lastHandler]
  cases h : e.newHandler <;> simp [h]

theorem isSome_lastHandler (evs : List (ReplayEvent H)) :
    (lastHandler evs).isSome = evs.any ReplayEvent.isOnComplete := by
  induction evs using List.reverseRecOn with
  | nil => rfl
  | append_singleton evs e ih =>
      rw [lastHandler_concat, Option.isSome_or, ih, List.any_append, Bool.or_comm]
      congr 1
      rcases e with (_ | _ | _) | _ | _ <;> rfl

def ReplayEvent.isOutcome : ReplayEvent H → Bool
  | .outcome => true
  | _ => false

/-- What happens between the commit and the report of its transaction. -/
def openEvents (evs : List (ReplayEvent H)) : List (ReplayEvent H) :=
  ((evs.dropWhile fun e => !e.isCommit).drop 1).takeWhile fun e => !e.isOutcome

/-- `on_complete` is called in that time. -/
def rearmed (evs : List (ReplayEvent H)) : Bool :=
  (openEvents evs).any ReplayEvent.isOnComplete

theorem openEvents_of_split {pre mid : List (ReplayEvent H)} (rest : List (ReplayEvent H))
    (hpre : ∀ e ∈ pre, e.isCommit = false) (hmid : ∀ e ∈ mid, e.isOutcome = false) :
    openEvents (pre ++ .call .commit :: (mid ++ .outcome :: rest)) = mid := by
  have hdrop : (pre ++ .call .commit :: (mid ++ .outcome :: rest)).dropWhile
      (fun e => !e.isCommit) = .call .commit :: (mid ++ .outcome :: rest) := by
    rw [List.dropWhile_append_of_pos (by simpa using hpre)]
    rfl
  unfold openEvents
  rw [hdrop]
  simp only [List.drop_succ_cons, List.drop_zero]
  rw [List.takeWhile_append_of_pos (by simpa using hmid)]
  simp [ReplayEvent.isOutcome]

/-! ## The phases of a replay that is committed once -/

namespace ReplayLife

/-- Where a replay stands after the events `evs`, one of which at most is a commit. -/
inductive Phase (v : ReplayLife H) (history : List (ReplayAction H)) : List (ReplayEvent H) → Prop
  /-- It has not been committed. -/
  | fresh {evs : List (ReplayEvent H)} {o : ReplayImpl H} (hobject : v.object = some o)
      (hpending : v.pending = 0) (hdestroying : o.destroying = false)
      (hhandler : o.commitHandler.isSome = true) (hcompleted : completed history = [])
      (hevents : ∀ e ∈ evs, e.isCommit = false) : Phase v history evs
  /-- Its transaction is open; a complete handler is there if it has come since the commit, and of
  several the last one. -/
  | committed {pre mid : List (ReplayEvent H)} {o : ReplayImpl H} (hobject : v.object = some o)
      (hpending : v.pending = 1) (hdestroying : o.destroying = false)
      (hcompleted : completed history = []) (harmed : o.completeHandler = lastHandler mid)
      (hpre : ∀ e ∈ pre, e.isCommit = false) (hmid : ∀ e ∈ mid, e.isOutcome = false) :
      Phase v history (pre ++ .call .commit :: mid)
  /-- Its transaction has reported. -/
  | reported {pre mid rest : List (ReplayEvent H)}
      (hobject : ∀ o, v.object = some o → o.destroying = true) (hpending : v.pending = 0)
      (hcompleted : completed history = (lastHandler mid).toList)
      (hpre : ∀ e ∈ pre, e.isCommit = false) (hmid : ∀ e ∈ mid, e.isOutcome = false) :
      Phase v history (pre ++ .call .commit :: (mid ++ .outcome :: rest))

variable {codec : Codec} {v v' : ReplayLife H} {history as : List (ReplayAction H)}
  {evs : List (ReplayEvent H)}

theorem forall_mem_concat {p : ReplayEvent H → Bool} {e : ReplayEvent H}
    (h : ∀ e ∈ evs, p e = false) (he : p e = false) : ∀ x ∈ evs ++ [e], p x = false := by
  intro x hx
  rcases List.mem_append.1 hx with hx | hx
  · exact h x hx
  · rcases List.mem_singleton.1 hx with rfl
    exact he

theorem completed_replyOps (codec : Codec) (message : Payload) (h : CommitHandler) :
    completed ((BrokerImpl.replyOps codec message h).map (ReplayAction.channel (H := H))) = [] := rfl

/-- A step before the commit, or the commit itself. -/
theorem Phase.step_fresh {o : ReplayImpl H} (hobject : v.object = some o) (hpending : v.pending = 0)
    (hdestroying : o.destroying = false) (hhandler : o.commitHandler.isSome = true)
    (hcompleted : completed history = []) (hevents : ∀ e ∈ evs, e.isCommit = false)
    {e : ReplayEvent H} (hstep : step codec v e = .ok (v', as)) :
    Phase v' (history ++ as) (evs ++ [e]) := by
  cases e with
  | call c =>
      simp only [step, hobject, hpending, Except.ok.injEq] at hstep
      cases c with
      | setMessage message =>
          cases hstep
          refine .fresh rfl rfl hdestroying hhandler ?_ (forall_mem_concat hevents rfl)
          simpa using hcompleted
      | onComplete handler =>
          cases hstep
          refine .fresh rfl rfl hdestroying hhandler ?_ (forall_mem_concat hevents rfl)
          simpa using hcompleted
      -- the commit publishes the reply, opens the transaction and clears the complete handler
      | commit =>
          rcases Option.isSome_iff_exists.1 hhandler with ⟨h, hh⟩
          simp only [call, hh] at hstep
          cases hstep
          have hhistory : completed (history ++ (BrokerImpl.replyOps codec o.message h).map
              (ReplayAction.channel (H := H))) = [] := by
            rw [completed_append, hcompleted, completed_replyOps]
            rfl
          exact .committed rfl rfl hdestroying hhistory rfl hevents (by simp)
  | destroyed =>
      -- no deletion is under way
      simp [step, hobject, hdestroying] at hstep
  | outcome =>
      -- no transaction is open
      simp [step, hpending] at hstep

/-- A step while the transaction is open: there is no second commit. -/
theorem Phase.step_committed {pre mid : List (ReplayEvent H)} {o : ReplayImpl H}
    (hobject : v.object = some o) (hpending : v.pending = 1) (hdestroying : o.destroying = false)
    (hcompleted : completed history = []) (harmed : o.completeHandler = lastHandler mid)
    (hpre : ∀ e ∈ pre, e.isCommit = false) (hmid : ∀ e ∈ mid, e.isOutcome = false)
    {e : ReplayEvent H}
    (he : e.isCommit = false) (hstep : step codec v e = .ok (v', as)) :
    Phase v' (history ++ as) ((pre ++ .call .commit :: mid) ++ [e]) := by
  cases e with
  | call c =>
      have hevents : (pre ++ .call .commit :: mid) ++ [.call c] =
          pre ++ .call .commit :: (mid ++ [.call c]) := by
        simp
      simp only [step, hobject, hpending, Except.ok.injEq] at hstep
      rw [hevents]
      cases c with
      | setMessage message =>
          cases hstep
          refine .committed rfl rfl hdestroying ?_ ?_ hpre (forall_mem_concat hmid rfl)
          · simpa using hcompleted
          · rw [lastHandler_concat]
            exact harmed
      -- a handler that comes after the commit is there when the transaction reports
      | onComplete handler =>
          cases hstep
          refine .committed rfl rfl hdestroying ?_ ?_ hpre (forall_mem_concat hmid rfl)
          · simpa using hcompleted
          · rw [lastHandler_concat]
            rfl
      | commit =>
          -- only one commit is allowed
          cases he
  | destroyed =>
      simp [step, hobject, hdestroying] at hstep
  | outcome =>
      have hevents : (pre ++ .call .commit :: mid) ++ [.outcome] =
          pre ++ .call .commit :: (mid ++ .outcome :: []) := by
        simp
      -- the report of the transaction deletes the replay
      have hdelete : delete o 0 = .ok (v', as) := by
        simpa [step, hobject, hpending] using hstep
      rw [hevents]
      simp only [delete, hdestroying, Bool.false_eq_true, if_false] at hdelete
      cases hhandler : o.completeHandler with
      | none =>
          simp only [hhandler] at hdelete harmed
          cases hdelete
          -- without a handler the replay goes at once
          refine .reported (by simp) rfl ?_ hpre hmid
          rw [completed_append, hcompleted, ← harmed]
          rfl
      | some handler =>
          simp only [hhandler] at hdelete harmed
          cases hdelete
          -- with one, the deletion waits until it has returned
          refine .reported ?_ rfl ?_ hpre hmid
          · rintro o' ⟨⟩
            rfl
          · rw [completed_append, hcompleted, ← harmed]
            rfl

/-- A step after the report: the deletion ends. -/
theorem Phase.step_reported {pre mid rest : List (ReplayEvent H)}
    (hobject : ∀ o, v.object = some o → o.destroying = true) (hpending : v.pending = 0)
    (hcompleted : completed history = (lastHandler mid).toList)
    (hpre : ∀ e ∈ pre, e.isCommit = false) (hmid : ∀ e ∈ mid, e.isOutcome = false)
    {e : ReplayEvent H}
    (he : e.isCommit = false) (hstep : step codec v e = .ok (v', as)) :
    Phase v' (history ++ as) ((pre ++ .call .commit :: (mid ++ .outcome :: rest)) ++ [e]) := by
  have hevents : (pre ++ .call .commit :: (mid ++ .outcome :: rest)) ++ [e] =
      pre ++ .call .commit :: (mid ++ .outcome :: (rest ++ [e])) := by
    simp
  rw [hevents]
  cases e with
  | call c =>
      -- calls reach the replay only while its complete handler still runs
      cases hread : v.object with
      | none =>
          simp [step, hread] at hstep
      | some o =>
          have hdestroying := hobject o hread
          simp only [step, hread, hpending, Except.ok.injEq] at hstep
          cases c with
          | commit =>
              cases he
          | _ =>
              cases hstep
              refine .reported ?_ rfl ?_ hpre hmid
              · rintro o' ⟨⟩
                exact hdestroying
              · simpa using hcompleted
  | destroyed =>
      -- the complete handler has returned, and the replay goes without a further call
      simp only [step] at hstep
      split at hstep
      · cases hstep
      · split at hstep
        · cases hstep
          refine .reported (by simp) hpending ?_ hpre hmid
          rw [completed_append, hcompleted]
          exact List.append_nil _
        · cases hstep
  | outcome =>
      simp [step, hpending] at hstep

theorem Phase.step (h : Phase v history evs) {e : ReplayEvent H}
    (hone : (evs ++ [e]).countP ReplayEvent.isCommit ≤ 1)
    (hstep : step codec v e = .ok (v', as)) : Phase v' (history ++ as) (evs ++ [e]) := by
  -- behind a commit there is no second one
  have hlast : ∀ {pre post : List (ReplayEvent H)},
      evs = pre ++ .call .commit :: post → e.isCommit = false := by
    rintro pre post rfl
    by_contra hne
    have hcommit : e.isCommit = true := by
      simpa using hne
    have hcount : ReplayEvent.isCommit (.call .commit : ReplayEvent H) = true := rfl
    simp only [List.countP_append, List.countP_cons, hcommit, hcount, if_true] at hone
    omega
  cases h with
  | fresh hobject hpending hdestroying hhandler hcompleted hevents =>
      exact step_fresh hobject hpending hdestroying hhandler hcompleted hevents hstep
  | committed hobject hpending hdestroying hcompleted harmed hpre hmid =>
      exact step_committed hobject hpending hdestroying hcompleted harmed hpre hmid (hlast rfl) hstep
  | reported hobject hpending hcompleted hpre hmid =>
      exact step_reported hobject hpending hcompleted hpre hmid (hlast rfl) hstep

/-- A replay whose books are empty has not been committed. -/
theorem Books.phase {replyTo : String} (h : Books replyTo v 0 ([] : List (ReplayAction H))) :
    Phase v [] [] := by
  have hcommits := h.commits
  cases hobject : v.object with
  | none =>
      simp [spent, hobject] at hcommits
  | some o =>
      rcases h.handler o hobject with ⟨handler, hhandler, _⟩
      have hspent : v.pending = 0 ∧ o.destroying = false := by
        simpa [spent, hobject] using hcommits
      exact .fresh hobject hspent.1 hspent.2 (by simp [hhandler]) rfl (by simp)

end ReplayLife

/-! ## Runs -/

/-- In a run in which a replay is committed once and has been destroyed at the end, a complete
handler has been invoked exactly once if and only if `on_complete` has been called between the
commit and the report of its transaction, and then it is the handler of the last such call; a
handler registered before the commit has no part. -/
theorem completion_once_iff {codec : Codec} {message : Message} {r : Ptr} {b₀ b : BrokerImpl H}
    {es : List (Event H)} {outs : List (List (Action H))}
    (hstart : ReplayStarted codec message r b₀)
    (hrun : run (BrokerImpl.step codec) b₀ es = .ok (b, outs)) (hcommit : commits r es = 1)
    (hdestroyed : b.replays.read r = none) :
    (completions (replayHistory r outs) = 1 ↔
      rearmed (es.filterMap (Event.toReplay r)) = true) ∧
      completed (replayHistory r outs) =
        (lastHandler (openEvents (es.filterMap (Event.toReplay r)))).toList := by
  -- every prefix of a run with one commit has one at most
  let P : List (ReplayEvent H) → ReplayLife H → List (ReplayAction H) → Prop :=
    fun evs v history => evs.countP ReplayEvent.isCommit ≤ 1 → v.Phase history evs
  have hphase : P (es.filterMap (Event.toReplay r)) (b.replayLife r) (replayHistory r outs) := by
    refine replay_run (P := P) hstart.books.1 (fun _ => hstart.books.2.phase) ?_ hrun
    intro evs v v' e history as hP hstep hone
    have hprefix : evs.countP ReplayEvent.isCommit ≤ 1 := by
      rw [List.countP_append] at hone
      exact (Nat.le_add_right _ _).trans hone
    exact (hP hprefix).step hone hstep
  have hfinal : (b.replayLife r).Phase (replayHistory r outs)
      (es.filterMap (Event.toReplay r)) := hphase (le_of_eq hcommit)
  have hobject : (b.replayLife r).object = none := hdestroyed
  generalize es.filterMap (Event.toReplay r) = evs at hfinal ⊢
  have hcompleted : completed (replayHistory r outs) = (lastHandler (openEvents evs)).toList := by
    cases hfinal with
    -- the replay has been destroyed, so its transaction has reported
    | fresh hlive =>
        rw [hobject] at hlive
        cases hlive
    | committed hlive =>
        rw [hobject] at hlive
        cases hlive
    | reported _ _ hcompleted hpre hmid => rwa [openEvents_of_split _ hpre hmid]
  refine ⟨?_, hcompleted⟩
  rw [← length_completed, hcompleted, rearmed, ← isSome_lastHandler]
  cases lastHandler (openEvents evs) <;> simp

/-- Of the handlers that are registered the last one after the commit fires. -/
theorem completion_once :
    ∃ b₀ b outs,
      ReplayStarted Codec.small sampleRequest 0 b₀ ∧
      run (BrokerImpl.step Codec.small) b₀
        [.replayCall 0 0 (.onComplete 5), .replayCall 0 0 .commit, .replayCall 0 0 (.onComplete 6),
          .replayCall 0 0 (.onComplete 7), .replySuccess (sampleTransaction 0),
          .replayDestroyed 0] = .ok (b, outs) ∧
      completions (replayHistory 0 outs) = 1 ∧ completed (replayHistory 0 outs) = [7] := by
  obtain ⟨b₀, ⟨b, outs⟩, hstart, hrun, hdestroyed⟩ :
      ∃ (b₀ : BrokerImpl Nat) (r : BrokerImpl Nat × List (List (Action Nat))),
      ReplayStarted Codec.small sampleRequest 0 b₀ ∧
      run (BrokerImpl.step Codec.small) b₀
        [.replayCall 0 0 (.onComplete 5), .replayCall 0 0 .commit, .replayCall 0 0 (.onComplete 6),
          .replayCall 0 0 (.onComplete 7), .replySuccess (sampleTransaction 0),
          .replayDestroyed 0] = .ok r ∧
      r.1.replays.read 0 = none :=
    ⟨_, _, ⟨sampleConsuming, 0, "1", 7, none, _, _, sampleConsuming_consuming.reachable, rfl, rfl,
      rfl⟩, rfl, rfl⟩
  rcases completion_once_iff hstart hrun rfl hdestroyed with ⟨hiff, hcompleted⟩
  exact ⟨b₀, b, outs, hstart, hrun, hiff.2 rfl, hcompleted⟩

/-- In a run of one registration, one commit and a report of its transaction, the replay is
destroyed and no complete handler fires. -/
def CompletionLost (report : Event Nat) : Prop :=
  ∃ b₀ b outs,
    ReplayStarted Codec.small sampleRequest 0 b₀ ∧
    run (BrokerImpl.step Codec.small) b₀
      [.replayCall 0 0 (.onComplete 5), .replayCall 0 0 .commit, report] = .ok (b, outs) ∧
    b.replays.read 0 = none ∧ completions (replayHistory 0 outs) = 0

/-- A handler that is registered before the commit does not fire, whether the transaction succeeds
or fails. -/
theorem complete_handler_lost :
    CompletionLost (.replySuccess (sampleTransaction 0)) ∧
      CompletionLost (.replyFailure (sampleTransaction 0) "connection lost") := by
  constructor
  · exact ⟨_, _, _, ⟨sampleConsuming, 0, "1", 7, none, _, _, sampleConsuming_consuming.reachable, rfl,
      rfl, rfl⟩, rfl, rfl, rfl⟩
  · exact ⟨_, _, _, ⟨sampleConsuming, 0, "1", 7, none, _, _, sampleConsuming_consuming.reachable, rfl,
      rfl, rfl⟩, rfl, rfl, rfl⟩

end CapyAmqp
