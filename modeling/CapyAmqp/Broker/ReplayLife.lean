import CapyAmqp.Broker.Ownership

/-!
# ReplayLife — one replay, seen on its own

`ReplayLife` is a replay, until it is deleted, together with the number of its transactions that
have not reported yet.  `ReplayLife.step` says what each call on the replay, each outcome of a
transaction and the return of the complete handler do to it.  `step_replay` is the refinement:
whatever a broker does, a replay goes through the steps that concern it and through no others.
-/

namespace CapyAmqp

open Lib

variable {H : Type}

/-- A replay, or nothing once it has been deleted, and its open transactions. -/
structure ReplayLife (H : Type) where
  object : Option (ReplayImpl H)
  pending : Nat

/-- What happens to one replay. -/
inductive ReplayEvent (H : Type)
  | call (c : ReplayCall H)
  | destroyed
  | outcome

namespace ReplayLife

/-- A call on a live replay. -/
def call (codec : Codec) (o : ReplayImpl H) (pending : Nat) :
    ReplayCall H → ReplayLife H × List (ReplayAction H)
  | .setMessage message =>
      ({ object := some { o with message := message }
         pending := pending }, [])
  | .onComplete handler =>
      ({ object := some { o with completeHandler := some handler }
         pending := pending }, [])
  | .commit =>
      match o.commitHandler with
      | none =>
          ({ object := some o
             pending := pending }, [])
      | some h =>
          ({ object := some { o with completeHandler := none }
             pending := pending + 1 }, (BrokerImpl.replyOps codec o.message h).map .channel)

/-- The deletion of a live replay: at once, or when its complete handler returns. -/
def delete (o : ReplayImpl H) (pending : Nat) :
    Except Fault (ReplayLife H × List (ReplayAction H)) :=
  if o.destroying then .error .doubleDelete
  else
    match o.completeHandler with
    | none =>
        .ok ({ object := none
               pending := pending }, [.deleted])
    | some handler =>
        .ok ({ object := some { o with destroying := true }
               pending := pending }, [.completed handler])

def step (codec : Codec) (v : ReplayLife H) :
    ReplayEvent H → Except Fault (ReplayLife H × List (ReplayAction H))
  | .call c =>
      match v.object with
      | none => .error .dangling
      | some o => .ok (call codec o v.pending c)
  | .destroyed =>
      match v.object with
      | none => .error .disabled
      | some o =>
          if o.destroying then .ok ({ v with object := none }, [.deleted]) else .error .disabled
  | .outcome =>
      if v.pending = 0 then .error .disabled
      else
        match v.object with
        | none => .error .doubleDelete
        | some o => delete o (v.pending - 1)

end ReplayLife

/-- What an event means to the replay `r`. -/
def Event.toReplay (r : Ptr) : Event H → Option (ReplayEvent H)
  | .replayCall _ r' c => if r' = r then some (.call c) else none
  | .replayDestroyed r' => if r' = r then some .destroyed else none
  | .replySuccess transaction => if transaction.replay = r then some .outcome else none
  | .replyFailure transaction _ => if transaction.replay = r then some .outcome else none
  | _ => none

namespace BrokerImpl

/-- The open transactions of the replay `r`. -/
def pending (b : BrokerImpl H) (r : Ptr) : Nat :=
  b.transactions.countP fun transaction => transaction.replay = r

def replayLife (b : BrokerImpl H) (r : Ptr) : ReplayLife H :=
  { object := b.replays.read r
    pending := b.pending r }

/-! ## Steps that are not about the replay -/

/-- The replay `r` stays as it is. -/
structure ReplayKept (r : Ptr) (b : BrokerImpl H) (as : List (Action H)) (b' : BrokerImpl H) :
    Prop where
  life : b'.replayLife r = b.replayLife r
  next : b.replays.next ≤ b'.replays.next
  actions : as.filterMap (Action.toReplay r) = []

variable {r : Ptr}

theorem filterMap_toReplay_eq_nil {as : List (Action H)} (h : ∀ a ∈ as, a.isReplay = false) :
    as.filterMap (Action.toReplay r) = [] := by
  refine List.filterMap_eq_nil_iff.2 ?_
  intro a ha
  have hother := h a ha
  cases a with
  | replay q x => cases hother
  | _ => rfl

theorem filterMap_toReplay_self (as : List (ReplayAction H)) :
    (as.map (Action.replay r)).filterMap (Action.toReplay r) = as := by
  have hcomp : (Action.toReplay r ∘ Action.replay r : ReplayAction H → _) = some := by
    funext a
    simp [Action.toReplay]
  rw [List.filterMap_map, hcomp, List.filterMap_some]

theorem filterMap_toReplay_of_ne {r' : Ptr} (h : r' ≠ r) (as : List (ReplayAction H)) :
    (as.map (Action.replay r')).filterMap (Action.toReplay r) = [] := by
  simp [List.filterMap_eq_nil_iff, Action.toReplay, h]

/-- Replays and transactions are as they were. -/
theorem replayKept_of_eq {b b' : BrokerImpl H} {as : List (Action H)}
    (hreplays : b'.replays = b.replays) (htransactions : b'.transactions = b.transactions)
    (hactions : ∀ a ∈ as, a.isReplay = false) : ReplayKept r b as b' := by
  refine ⟨?_, by rw [hreplays], filterMap_toReplay_eq_nil hactions⟩
  simp only [replayLife, pending, hreplays, htransactions]

theorem replayKept_composes : Prog.Composes (ReplayKept (H := H) r) := by
  constructor
  · intro b
    exact ⟨rfl, le_refl _, rfl⟩
  · intro b b₁ b₂ as bs h₁ h₂
    exact ⟨h₂.life.trans h₁.life, h₁.next.trans h₂.next, by
      simp [List.filterMap_append, h₁.actions, h₂.actions]⟩

theorem OnListeners.replayKept {b b' : BrokerImpl H} {as : List (Action H)}
    (h : OnListeners b as b') : ReplayKept r b as b' := by
  refine replayKept_of_eq h.replays h.transactions ?_
  intro a ha
  have hlisten := h.actions a ha
  cases a with
  | listen p x => rfl
  | _ => cases hlisten

theorem Aside.replayKept {b b' : BrokerImpl H} {as : List (Action H)} (h : Aside b as b') :
    ReplayKept r b as b' :=
  replayKept_of_eq h.replays h.transactions fun a ha => (h.actions a ha).2

/-- A new replay is another one. -/
theorem replayKept_listenDispatch {id : String} {message : Message} {received : Json}
    {throws : Option Thrown} {b b' : BrokerImpl H} {as : List (Action H)} (hr : r < b.replays.next)
    (h : listenDispatch id message received throws b = .ok (b', as)) : ReplayKept r b as b' := by
  have hreport := (onObjects_listenReportData _ _ _ _ _ _ h).toOnListeners.replayKept (r := r)
  refine ⟨hreport.life.trans ?_, (Nat.le_succ _).trans hreport.next, hreport.actions⟩
  -- the new replay has the pointer `next`, above `r`
  have hread : ∀ replay, (b.replays.alloc replay).1.read r = b.replays.read r := by
    intro replay
    exact Heap.read_alloc_of_ne (Nat.ne_of_lt hr)
  simp only [replayLife, pending]
  congr 1
  exact hread _

theorem replayKept_listenReceived {codec : Codec} {thread : ThreadId} {id : String}
    {message : Message} {deliveryTag : Nat} {throws : Option Thrown} {b b' : BrokerImpl H}
    {as : List (Action H)} (hr : r < b.replays.next)
    (h : listenReceived codec thread id message deliveryTag throws b = .ok (b', as)) :
    ReplayKept r b as b' := by
  rcases listenReceived_ok_iff.1 h with ⟨b₁, bs, cs, hack, rfl, hrest⟩
  have hb₁ := (onObjects_listenAck _ _ _ _ _ hack).toOnListeners
  refine replayKept_composes.trans hb₁.replayKept ?_
  rcases hrest with ⟨thrown, _, herror⟩ | ⟨received, b₂, _, _, _, hreset, hdispatch, rfl⟩
  · exact (onObjects_listenReport _ _ _ _ _ herror).toOnListeners.replayKept
  · -- the pointer of the new replay is `next`, and `r` lies below it
    have hb₂ := onListeners_setDeferred _ _ _ _ _ hreset
    refine replayKept_composes.trans hb₂.replayKept (replayKept_listenDispatch ?_ hdispatch)
    rw [hb₂.replays, hb₁.replays]
    exact hr

theorem replayKept_listenMessages {thread : ThreadId} {queue : String} {keys : List String}
    {failed : Bool} {b b' : BrokerImpl H} {as : List (Action H)}
    (h : listenMessages thread queue keys failed b = .ok (b', as)) : ReplayKept r b as b' := by
  rcases listenMessages_ok_iff.1 h with ⟨_, h⟩
  have hget := aside_getConnection b.incrementId thread
  have hnew : ReplayKept r b [] (b.incrementId.newListener thread (idText b.uniqueId) failed).1 :=
    replayKept_of_eq hget.replays hget.transactions (by simp)
  have hseq := Prog.ensures_seq onListeners_composes (onListeners_setDeferred _ _)
    (onListeners_of_objects (onObjects_listenIssue _ _ _ _)) _ _ _ h
  exact replayKept_composes.trans hnew hseq.replayKept

/-! ## Steps that are about the replay -/

/-- What one step of the broker means to the replay `r`: a step of its life if the event concerns
it, and nothing otherwise. -/
def ReplayStep (codec : Codec) (r : Ptr) (b : BrokerImpl H) (e : Event H) (as : List (Action H))
    (b' : BrokerImpl H) : Prop :=
  match e.toReplay r with
  | none => b'.replayLife r = b.replayLife r ∧ as.filterMap (Action.toReplay r) = []
  | some e' =>
      ReplayLife.step codec (b.replayLife r) e' =
        .ok (b'.replayLife r, as.filterMap (Action.toReplay r))

theorem ReplayKept.replayStep {codec : Codec} {b b' : BrokerImpl H} {as : List (Action H)}
    {e : Event H} (h : ReplayKept r b as b') (he : e.toReplay r = none) :
    ReplayStep codec r b e as b' ∧ b.replays.next ≤ b'.replays.next := by
  refine ⟨?_, h.next⟩
  unfold ReplayStep
  rw [he]
  exact ⟨h.life, h.actions⟩

theorem replayKept_modifyReplay {r' : Ptr} (hr : r' ≠ r) (f : ReplayImpl H → ReplayImpl H)
    (b : BrokerImpl H) : ReplayKept r b [] { b with replays := b.replays.modify r' f } := by
  refine ⟨?_, le_refl _, rfl⟩
  simp only [replayLife, pending, Heap.read_modify_of_ne hr.symm]

theorem replayKept_free {r' : Ptr} (hr : r' ≠ r) (b : BrokerImpl H) :
    ReplayKept r b [] { b with replays := b.replays.free r' } := by
  refine ⟨?_, le_refl _, rfl⟩
  simp only [replayLife, pending, Heap.read_free_of_ne hr.symm]

/-! ### Calls -/

/-- A commit publishes the reply in a new transaction and clears the complete handler. -/
theorem replayCommit_cases {codec : Codec} {thread : ThreadId} {o : ReplayImpl H}
    {handler : CommitHandler} {b b' : BrokerImpl H} {as : List (Action H)}
    (hhandler : o.commitHandler = some handler)
    (h : replayCommit codec thread r o b = .ok (b', as)) :
    b'.replays = b.replays.modify r (fun o => { o with completeHandler := none }) ∧
      (∃ transaction, transaction.replay = r ∧ b'.transactions = transaction :: b.transactions) ∧
      as = ((replyOps codec o.message handler).map .channel).map (Action.replay r) := by
  have hget := aside_getConnection b thread
  simp only [replayCommit, hhandler, Prog.all, Prog.seq, runCommitHandler, modifyReplay, Prog.skip,
    Except.ok.injEq, Prod.mk.injEq] at h
  rcases h with ⟨rfl, rfl⟩
  -- the transaction runs on a new channel of the calling thread's connection
  let transaction : ReplyTransaction :=
    { replay := r
      channel := (b.getConnection thread).nextChannel
      correlationId := handler.correlationId }
  refine ⟨by simp only [hget.replays], ⟨transaction, rfl, by simp only [hget.transactions]; rfl⟩, ?_⟩
  simp

theorem replayCall_step {codec : Codec} {thread : ThreadId} {r' : Ptr} {c : ReplayCall H}
    {b b' : BrokerImpl H} {as : List (Action H)}
    (h : replayCall codec thread r' c b = .ok (b', as)) :
    ReplayStep codec r b (.replayCall thread r' c) as b' ∧ b.replays.next ≤ b'.replays.next := by
  rcases replayCall_ok_iff.1 h with ⟨o, hread, h⟩
  -- a call through `r` is a step of its life, and any other leaves it alone
  by_cases hr : r' = r
  · subst hr
    simp only [ReplayStep, Event.toReplay, if_true, ReplayLife.step, replayLife, hread]
    cases c with
    | setMessage message =>
        cases h
        refine ⟨?_, le_refl _⟩
        simp [ReplayLife.call, hread, pending]
    | onComplete handler =>
        cases h
        refine ⟨?_, le_refl _⟩
        simp [ReplayLife.call, hread, pending]
    | commit =>
        cases hhandler : o.commitHandler with
        | none =>
            simp only [replayCommit, hhandler, Prog.skip_ok_iff] at h
            rcases h with ⟨rfl, rfl⟩
            refine ⟨?_, le_refl _⟩
            simp [ReplayLife.call, hhandler, hread]
        | some handler =>
            rcases replayCommit_cases hhandler h with ⟨hreplays, ⟨tx, htx, htransactions⟩, rfl⟩
            refine ⟨?_, by rw [hreplays]; exact le_refl _⟩
            rw [filterMap_toReplay_self]
            simp [ReplayLife.call, hhandler, pending, hreplays, htransactions, hread, htx]
  · have hevent : (Event.replayCall thread r' c).toReplay r = none := by
      simp [Event.toReplay, hr]
    cases c with
    | setMessage message =>
        cases h
        exact (replayKept_modifyReplay hr _ b).replayStep hevent
    | onComplete handler =>
        cases h
        exact (replayKept_modifyReplay hr _ b).replayStep hevent
    | commit =>
        cases hhandler : o.commitHandler with
        | none =>
            simp only [replayCommit, hhandler, Prog.skip_ok_iff] at h
            rcases h with ⟨rfl, rfl⟩
            exact (replayKept_composes.refl b).replayStep hevent
        | some handler =>
            rcases replayCommit_cases hhandler h with ⟨hreplays, ⟨tx, htx, htransactions⟩, rfl⟩
            -- the new transaction belongs to the other replay
            have hne : ¬ tx.replay = r := fun hsame => hr (htx.symm.trans hsame)
            refine ReplayKept.replayStep ⟨?_, ?_, filterMap_toReplay_of_ne hr _⟩ hevent
            · simp [replayLife, pending, hreplays, htransactions, hne,
                Heap.read_modify_of_ne (Ne.symm hr)]
            · rw [hreplays]
              exact le_refl _

/-! ### Deletion -/

/-- `delete r` on its own: the deletion of a live replay. -/
theorem deleteReplay_step {r' : Ptr} {b b' : BrokerImpl H} {as : List (Action H)}
    (h : deleteReplay r' b = .ok (b', as)) :
    b'.transactions = b.transactions ∧ b.replays.next ≤ b'.replays.next ∧
      (r' = r → ∃ o, b.replays.read r = some o ∧
        ReplayLife.delete o (b.pending r) =
          .ok (b'.replayLife r, as.filterMap (Action.toReplay r))) ∧
      (r' ≠ r → ReplayKept r b as b') := by
  rcases deleteReplay_ok_iff.1 h with
    ⟨o, hread, hdestroying, ⟨hhandler, rfl, rfl⟩ | ⟨handler, hhandler, rfl, rfl⟩⟩
  · refine ⟨rfl, le_refl _, ?_, ?_⟩
    · rintro rfl
      refine ⟨o, hread, ?_⟩
      simp [ReplayLife.delete, hdestroying, hhandler, replayLife, pending, Action.toReplay]
    · intro hr
      have hkept := replayKept_free hr b
      exact ⟨hkept.life, hkept.next, filterMap_toReplay_of_ne hr [.deleted]⟩
  · -- the complete handler runs first, and the replay is still there
    refine ⟨rfl, le_refl _, ?_, ?_⟩
    · rintro rfl
      refine ⟨o, hread, ?_⟩
      simp [ReplayLife.delete, hdestroying, hhandler, replayLife, pending, Action.toReplay, hread]
    · intro hr
      have hkept := replayKept_modifyReplay hr (fun o => { o with destroying := true }) b
      exact ⟨hkept.life, hkept.next, filterMap_toReplay_of_ne hr [.completed handler]⟩

theorem replayDestroyed_step {codec : Codec} {r' : Ptr} {b b' : BrokerImpl H}
    {as : List (Action H)} (h : replayDestroyed r' b = .ok (b', as)) :
    ReplayStep codec r b (.replayDestroyed r') as b' ∧ b.replays.next ≤ b'.replays.next := by
  rcases replayDestroyed_ok_iff.1 h with ⟨o, hread, hdestroying, rfl, rfl⟩
  by_cases hr : r' = r
  · subst hr
    refine ⟨?_, le_refl _⟩
    simp [ReplayStep, Event.toReplay, ReplayLife.step, replayLife, hread, hdestroying, pending,
      Action.toReplay]
  · have hkept := replayKept_free hr b
    refine ReplayKept.replayStep ⟨hkept.life, hkept.next, filterMap_toReplay_of_ne hr [.deleted]⟩ ?_
    simp [Event.toReplay, hr]

/-! ### Outcomes of transactions -/

theorem pending_erase {b : BrokerImpl H} {transaction : ReplyTransaction}
    (hmem : transaction ∈ b.transactions) :
    ({ b with transactions := b.transactions.erase transaction } : BrokerImpl H).pending r =
      if transaction.replay = r then b.pending r - 1 else b.pending r := by
  by_cases hr : transaction.replay = r
  · simp [pending, List.countP_erase, hmem, hr]
  · simp [pending, List.countP_erase, hr]

theorem pending_pos {b : BrokerImpl H} {transaction : ReplyTransaction}
    (hmem : transaction ∈ b.transactions) : 0 < b.pending transaction.replay := by
  refine List.countP_pos_iff.2 ⟨transaction, hmem, ?_⟩
  simp

/-- A transaction is taken off the list and its replay deleted; in between, `b₁`, the replays are
as they were. -/
theorem outcome_step {codec : Codec} {transaction : ReplyTransaction} {b b₁ b' : BrokerImpl H}
    {e : Event H} {bs cs : List (Action H)} (hmem : transaction ∈ b.transactions)
    (h : deleteReplay transaction.replay b₁ = .ok (b', cs)) (hreplays : b₁.replays = b.replays)
    (htransactions : b₁.transactions = b.transactions.erase transaction)
    (he : e.toReplay r = if transaction.replay = r then some .outcome else none)
    (hbs : bs.filterMap (Action.toReplay r) = []) :
    ReplayStep codec r b e (bs ++ cs) b' ∧ b.replays.next ≤ b'.replays.next := by
  rcases deleteReplay_step (r := r) h with ⟨_, hnext, hself, hother⟩
  have hpending : b₁.pending r = if transaction.replay = r then b.pending r - 1 else b.pending r := by
    rw [← pending_erase hmem]
    simp only [pending, htransactions]
  have hactions : (bs ++ cs).filterMap (Action.toReplay r) = cs.filterMap (Action.toReplay r) := by
    rw [List.filterMap_append, hbs]
    rfl
  refine ⟨?_, by rw [← hreplays]; exact hnext⟩
  unfold ReplayStep
  rw [he, hactions]
  by_cases hr : transaction.replay = r
  · rcases hself hr with ⟨o, hread, hdelete⟩
    -- the transaction itself is one of the open ones
    have hpos : b.pending r ≠ 0 := by
      have hpos := pending_pos hmem
      rw [hr] at hpos
      exact Nat.ne_of_gt hpos
    rw [hreplays] at hread
    rw [hpending, if_pos hr] at hdelete
    simp only [hr, if_true, ReplayLife.step, replayLife, hpos, if_false, hread]
    exact hdelete
  -- the transaction of another replay: neither the object nor the count changes
  · rcases hother hr with ⟨hlife, _, hcs⟩
    simp only [hr, if_false] at hpending ⊢
    refine ⟨hlife.trans ?_, hcs⟩
    simp only [replayLife, hreplays, hpending]

theorem replySuccess_step {codec : Codec} {transaction : ReplyTransaction} {b b' : BrokerImpl H}
    {as : List (Action H)} (h : replySuccess transaction b = .ok (b', as)) :
    ReplayStep codec r b (.replySuccess transaction) as b' ∧ b.replays.next ≤ b'.replays.next := by
  rcases takeTransaction_ok_iff.1 h with ⟨hmem, h⟩
  have hnone : ([] : List (Action H)).filterMap (Action.toReplay r) = [] := rfl
  exact outcome_step hmem h rfl rfl rfl hnone

theorem replyFailure_step {codec : Codec} {transaction : ReplyTransaction} {message : String}
    {b b' : BrokerImpl H} {as : List (Action H)}
    (h : replyFailure transaction message b = .ok (b', as)) :
    ReplayStep codec r b (.replyFailure transaction message) as b' ∧
      b.replays.next ≤ b'.replays.next := by
  rcases takeTransaction_ok_iff.1 h with ⟨hmem, h⟩
  rcases Prog.seq_ok_iff.1 h with ⟨b₁, bs, cs, hreport, hdelete, rfl⟩
  have hb₁ := (onObjects_listenReport _ _ _ _ _ hreport).toOnListeners
  exact outcome_step hmem hdelete hb₁.replays hb₁.transactions rfl hb₁.replayKept.actions

/-! ## The broker refines the life of each replay -/

theorem step_replay {codec : Codec} {b b' : BrokerImpl H} {e : Event H} {as : List (Action H)}
    (hr : r < b.replays.next) (h : step codec b e = .ok (b', as)) :
    ReplayStep codec r b e as b' ∧ b.replays.next ≤ b'.replays.next := by
  cases e with
  | listenMessages thread queue keys failed =>
      exact (replayKept_listenMessages h).replayStep rfl
  | listenRegister p x =>
      exact (onObjects_listenRegister _ _ _ _ _ h).toOnListeners.replayKept.replayStep rfl
  | listenCallback thread id c =>
      rcases onListenCallback_ok_iff.1 h with ⟨_, h⟩
      cases c with
      | received message deliveryTag throws =>
          exact (replayKept_listenReceived hr h).replayStep rfl
      | consumeError message =>
          exact (onListeners_consumeError _ _ _ _ _ _ h).replayKept.replayStep rfl
      | _ =>
          exact (onObjects_listenReport _ _ _ _ _ h).toOnListeners.replayKept.replayStep rfl
  | replayCall thread r' c =>
      exact replayCall_step h
  | replayDestroyed r' =>
      exact replayDestroyed_step h
  | replySuccess transaction =>
      exact replySuccess_step h
  | replyFailure transaction message =>
      exact replyFailure_step h
  | connectionError thread message =>
      exact (onObjects_handlerReport _ _ _ _ _ h).toOnListeners.replayKept.replayStep rfl
  | connectionLost thread =>
      exact (onObjects_handlerReport _ _ _ _ _ h).toOnListeners.replayKept.replayStep rfl
  | _ =>
      exact (step_aside rfl h).replayKept.replayStep rfl

/-- Deleting a replay that is gone, or on its way, is the same fault in its life. -/
theorem deleteReplay_double {b : BrokerImpl H} (h : deleteReplay r b = .error .doubleDelete) :
    b.replays.read r = none ∨ ∃ o, b.replays.read r = some o ∧ o.destroying = true := by
  unfold deleteReplay at h
  split at h
  · rename_i hread
    exact Or.inl hread
  · rename_i o hread
    split at h
    · rename_i hdestroying
      exact Or.inr ⟨o, hread, hdestroying⟩
    · split at h <;> cases h

theorem listenReport_ne_double (id : String) (x : Report ListenData) (b : BrokerImpl H) :
    listenReport id x b ≠ .error .doubleDelete := by
  cases hget : b.listeners.get id with
  | none => simp [listenReport, withListener, hget]
  | some p => cases hread : b.listening.read p <;> simp [listenReport, withListener, hget, reportTo, hread]

theorem step_double {codec : Codec} {b : BrokerImpl H} {e : Event H}
    (he : e.toReplay r = some .outcome) (h : step codec b e = .error .doubleDelete) :
    ReplayLife.step codec (b.replayLife r) .outcome = .error .doubleDelete := by
  -- an open transaction of `r` and a replay that is gone: the life faults as well
  have hfault : ∀ {transaction : ReplyTransaction}, transaction.replay = r →
      transaction ∈ b.transactions →
      (b.replays.read r = none ∨ ∃ o, b.replays.read r = some o ∧ o.destroying = true) →
      ReplayLife.step codec (b.replayLife r) .outcome = .error .doubleDelete := by
    rintro transaction rfl hmem hgone
    have hpos : b.pending transaction.replay ≠ 0 := Nat.ne_of_gt (pending_pos hmem)
    simp only [ReplayLife.step, replayLife, hpos, if_false]
    rcases hgone with hread | ⟨o, hread, hdestroying⟩
    · rw [hread]
    · rw [hread]
      simp [ReplayLife.delete, hdestroying]
  cases e with
  | replySuccess transaction =>
      simp only [Event.toReplay, Option.ite_none_right_eq_some, and_true] at he
      simp only [step, replySuccess, takeTransaction] at h
      split at h
      · rename_i hmem
        rw [he] at h
        have hgone := deleteReplay_double h
        exact hfault he hmem hgone
      · cases h
  | replyFailure transaction message =>
      simp only [Event.toReplay, Option.ite_none_right_eq_some, and_true] at he
      simp only [step, replyFailure, takeTransaction] at h
      split at h
      · rename_i hmem
        -- the fault comes from the deletion, since the report never deletes
        rcases Prog.seq_error_iff.1 h with hreport | ⟨b₁, bs, hreport, hdelete⟩
        · exact absurd hreport (listenReport_ne_double _ _ _)
        · rw [he] at hdelete
          have hgone := deleteReplay_double hdelete
          rw [(onObjects_listenReport _ _ _ _ _ hreport).replays] at hgone
          exact hfault he hmem hgone
      · cases h
  | replayCall thread r' c =>
      simp [Event.toReplay] at he
  | replayDestroyed r' =>
      simp [Event.toReplay] at he
  | _ =>
      cases he

end BrokerImpl

end CapyAmqp
