import CapyAmqp.Broker.Delivery
import CapyAmqp.Broker.ReplayLife

/-!
# OneReply — how often a request is answered

`commit` clears the complete handler where the destructor clears the commit handler, so nothing
keeps a second `commit` from publishing again.  Each commit starts a transaction, and each outcome
of a transaction deletes the replay.  `one_reply_iff` says for every run when a request is answered
at most once and its replay is deleted at most once.
-/

namespace CapyAmqp

open Lib

variable {H : Type}

/-- `b₀` is the broker right after the delivery of a decodable request, for which the replay `r`
has been made. -/
def ReplayStarted (codec : Codec) (message : Message) (r : Ptr) (b₀ : BrokerImpl H) : Prop :=
  ∃ b thread id deliveryTag throws received as, BrokerImpl.Reachable codec b ∧
    codec.fromMsgpack message.body = .ok received ∧
    BrokerImpl.step codec b (.listenCallback thread id (.received message deliveryTag throws)) =
      .ok (b₀, as) ∧ r = b.replays.next

/-- What the outputs of a run say about the replay `r`. -/
def replayHistory (r : Ptr) (outs : List (List (Action H))) : List (ReplayAction H) :=
  outs.flatten.filterMap (Action.toReplay r)

theorem replayHistory_concat (r : Ptr) (outs : List (List (Action H))) (as : List (Action H)) :
    replayHistory r (outs ++ [as]) = replayHistory r outs ++ as.filterMap (Action.toReplay r) := by
  simp [replayHistory]

namespace ReplayAction

/-- A message is published to the queue `replyTo`. -/
def publishesTo (replyTo : String) : ReplayAction H → Bool
  | .channel (.publish exchange routingKey _ _) => exchange == "" && routingKey == replyTo
  | _ => false

def isDeleted : ReplayAction H → Bool
  | .deleted => true
  | _ => false

end ReplayAction

/-- How many messages have been published to `replyTo`. -/
def published (replyTo : String) (as : List (ReplayAction H)) : Nat :=
  as.countP (ReplayAction.publishesTo replyTo)

/-- How often the replay has been deleted. -/
def deletions (as : List (ReplayAction H)) : Nat :=
  as.countP ReplayAction.isDeleted

def ReplayEvent.isCommit : ReplayEvent H → Bool
  | .call .commit => true
  | _ => false

/-- How often `commit` has been called on the replay `r`. -/
def commits (r : Ptr) (es : List (Event H)) : Nat :=
  (es.filterMap (Event.toReplay r)).countP ReplayEvent.isCommit

/-! ## The books of one replay -/

namespace ReplayLife

/-- The deletion of the replay has begun. -/
def spent (v : ReplayLife H) : Nat :=
  match v.object with
  | none => 1
  | some o => if o.destroying then 1 else 0

/-- After `n` commits and the history: each commit has published one message and left one
transaction, which is open or has begun the deletion. -/
structure Books (replyTo : String) (v : ReplayLife H) (n : Nat) (history : List (ReplayAction H)) :
    Prop where
  handler : ∀ o, v.object = some o → ∃ h, o.commitHandler = some h ∧ h.replayTo = replyTo
  commits : v.pending + v.spent = n
  published : published replyTo history = n
  deletions : deletions history = if v.object.isSome then 0 else 1

variable {codec : Codec} {replyTo : String} {v v' : ReplayLife H} {n : Nat}
  {history as : List (ReplayAction H)}

theorem published_append (xs ys : List (ReplayAction H)) :
    CapyAmqp.published replyTo (xs ++ ys) =
      CapyAmqp.published replyTo xs + CapyAmqp.published replyTo ys := by
  simp [CapyAmqp.published]

theorem deletions_append (xs ys : List (ReplayAction H)) :
    CapyAmqp.deletions (xs ++ ys) = CapyAmqp.deletions xs + CapyAmqp.deletions ys := by
  simp [CapyAmqp.deletions]

/-- The channel operations of a commit publish one message, to the queue that was captured. -/
theorem published_replyOps (codec : Codec) (message : Payload) (h : CommitHandler) :
    CapyAmqp.published h.replayTo
        ((BrokerImpl.replyOps codec message h).map (ReplayAction.channel (H := H))) = 1 ∧
      CapyAmqp.deletions
        ((BrokerImpl.replyOps codec message h).map (ReplayAction.channel (H := H))) = 0 := by
  simp [CapyAmqp.published, CapyAmqp.deletions, BrokerImpl.replyOps, ReplayAction.publishesTo,
    ReplayAction.isDeleted]

/-- The deletion of a live replay, one of its transactions less. -/
theorem Books.delete {o : ReplayImpl H} {k : Nat}
    (h : Books replyTo { object := some o, pending := k + 1 } n history)
    (hstep : delete o k = .ok (v', as)) : Books replyTo v' n (history ++ as) := by
  unfold ReplayLife.delete at hstep
  split at hstep
  · cases hstep
  · rename_i hdestroying
    -- the transaction that has reported now counts as the deletion that has begun
    have hcommits : k + 1 + 0 = n := by
      simpa [spent, hdestroying] using h.commits
    have hdeletions : CapyAmqp.deletions history = 0 := h.deletions
    split at hstep
    · cases hstep
      -- without a complete handler the replay is deleted at once
      refine ⟨by simp, by simpa [spent] using hcommits, ?_, ?_⟩
      · rw [published_append, h.published]
        rfl
      · rw [deletions_append, hdeletions]
        rfl
    · cases hstep
      -- with one, the deletion has begun but is not in the history yet
      refine ⟨?_, by simpa [spent] using hcommits, ?_, ?_⟩
      · rintro o' ⟨⟩
        exact h.handler o rfl
      · rw [published_append, h.published]
        rfl
      · rw [deletions_append, hdeletions]
        rfl

/-- A step that publishes and deletes nothing. -/
theorem Books.idle (h : Books replyTo v n history)
    (hhandler : ∀ o, v'.object = some o → ∃ h, o.commitHandler = some h ∧ h.replayTo = replyTo)
    (hcommits : v'.pending + v'.spent = v.pending + v.spent)
    (hobject : v'.object.isSome = v.object.isSome) : Books replyTo v' n (history ++ []) := by
  refine ⟨hhandler, hcommits.trans h.commits, ?_, ?_⟩
  · rw [List.append_nil, h.published]
  · rw [List.append_nil, h.deletions, hobject]

/-- A call on a live replay. -/
theorem Books.call (codec : Codec) {o : ReplayImpl H} {k : Nat}
    (h : Books replyTo { object := some o, pending := k } n history) (c : ReplayCall H) :
    Books replyTo (ReplayLife.call codec o k c).1
      (n + [.call c].countP (ReplayEvent.isCommit (H := H)))
      (history ++ (ReplayLife.call codec o k c).2) := by
  rcases h.handler o rfl with ⟨handler, hhandler, rfl⟩
  cases c with
  | setMessage message =>
      refine h.idle ?_ rfl rfl
      rintro o' ⟨⟩
      exact ⟨handler, hhandler, rfl⟩
  | onComplete f =>
      refine h.idle ?_ rfl rfl
      rintro o' ⟨⟩
      exact ⟨handler, hhandler, rfl⟩
  | commit =>
      -- one message more and one open transaction more
      have hops := published_replyOps (H := H) codec o.message handler
      have hcommits : k + spent { object := some o, pending := k } = n := h.commits
      have hdeletions : CapyAmqp.deletions history = 0 := h.deletions
      simp only [ReplayLife.call, hhandler]
      refine ⟨?_, ?_, ?_, ?_⟩
      · rintro o' ⟨⟩
        exact ⟨handler, rfl, rfl⟩
      · simp only [spent, ReplayEvent.isCommit, List.countP_singleton, if_true] at hcommits ⊢
        omega
      · rw [published_append, h.published, hops.1]
        rfl
      · rw [deletions_append, hdeletions, hops.2]
        rfl

/-- One step keeps the books. -/
theorem Books.step (h : Books replyTo v n history) {e : ReplayEvent H}
    (hstep : ReplayLife.step codec v e = .ok (v', as)) :
    Books replyTo v' (n + [e].countP ReplayEvent.isCommit) (history ++ as) := by
  rcases v with ⟨object, pending⟩
  cases e with
  | call c =>
      cases object with
      | none =>
          cases hstep
      | some o =>
          have hcall : ReplayLife.call codec o pending c = (v', as) := by
            simpa [ReplayLife.step] using hstep
          have hbooks := h.call codec c
          rwa [hcall] at hbooks
  | destroyed =>
      cases object with
      | none =>
          cases hstep
      | some o =>
          simp only [ReplayLife.step] at hstep
          split at hstep
          · rename_i hdestroying
            cases hstep
            -- the deletion that has begun comes to its end
            have hcommits : pending + 1 = n := by
              simpa [spent, hdestroying] using h.commits
            have hdeletions : CapyAmqp.deletions history = 0 := h.deletions
            refine ⟨by simp, hcommits, ?_, ?_⟩
            · rw [published_append, h.published]
              rfl
            · rw [deletions_append, hdeletions]
              rfl
          · cases hstep
  | outcome =>
      simp only [ReplayLife.step] at hstep
      split at hstep
      · cases hstep
      · rename_i hpending
        cases object with
        | none =>
            cases hstep
        | some o =>
            obtain ⟨k, rfl⟩ : ∃ k, pending = k + 1 := ⟨pending - 1, by omega⟩
            exact h.delete hstep

/-- A second deletion takes a second commit. -/
theorem Books.double (h : Books replyTo v n history)
    (hstep : ReplayLife.step codec v .outcome = .error .doubleDelete) : 2 ≤ n := by
  have hcommits := h.commits
  simp only [ReplayLife.step] at hstep
  split at hstep
  · cases hstep
  · rename_i hpending
    -- the fault says that the object is gone or being deleted
    have hspent : v.spent = 1 := by
      split at hstep
      · rename_i hobject
        simp [spent, hobject]
      · rename_i o hobject
        unfold ReplayLife.delete at hstep
        split at hstep
        · rename_i hdestroying
          simp [spent, hobject, hdestroying]
        · split at hstep <;> cases hstep
    omega

end ReplayLife

/-! ## Runs -/

section Runs

variable {codec : Codec} {message : Message} {r : Ptr} {b₀ b : BrokerImpl H} {es : List (Event H)}
  {outs : List (List (Action H))}

/-- A delivered request has a live replay with its commit handler, and no transaction yet. -/
theorem ReplayStarted.books (h : ReplayStarted codec message r b₀) :
    r < b₀.replays.next ∧
      (b₀.replayLife r).Books message.replyTo 0 ([] : List (ReplayAction H)) := by
  rcases h with ⟨b, thread, id, deliveryTag, throws, received, as, hb, hdecode, hstep, rfl⟩
  rcases BrokerImpl.onListenCallback_ok_iff.1 hstep with ⟨_, hstep⟩
  rcases BrokerImpl.listenReceived_ok_iff.1 hstep with ⟨b₁, bs, cs, hack, _, hrest⟩
  rcases hrest with ⟨_, herror, _⟩ | ⟨received', b₂, _, _, hvalue, hreset, hdispatch, _⟩
  · cases hdecode.symm.trans herror
  have hb₁ := (BrokerImpl.onObjects_listenAck _ _ _ _ _ hack).toOnListeners
  have hb₂ := BrokerImpl.onListeners_setDeferred _ _ _ _ _ hreset
  have hreport := BrokerImpl.onObjects_listenReportData _ _ _ _ _ _ hdispatch
  have hreplays : b₂.replays = b.replays := hb₂.replays.trans hb₁.replays
  have htransactions : b₂.transactions = b.transactions :=
    hb₂.transactions.trans hb₁.transactions
  have hread : b₀.replays.read b.replays.next =
      some
        { message := .ok .null
          commitHandler := some
            { cid := message.correlationId
              replayTo := message.replyTo
              correlationId := id }
          completeHandler := none
          destroying := false } := by
    rw [← hreplays, hreport.replays]
    exact Heap.read_alloc_next _ _
  -- every open transaction is about an older replay
  have hpending : b₀.pending b.replays.next = 0 := by
    have hsame : b₀.transactions = b.transactions := hreport.transactions.trans htransactions
    refine List.countP_eq_zero.2 ?_
    intro transaction hmem
    have hlt := (hb.named.transactions (hsame ▸ hmem)).2
    simpa using Nat.ne_of_lt hlt
  refine ⟨Heap.lt_next_of_read hread, ?_, ?_, rfl, ?_⟩
  · intro o ho
    cases hread.symm.trans ho
    exact ⟨_, rfl, rfl⟩
  · simp [BrokerImpl.replayLife, hpending, hread, ReplayLife.spent]
  · simp [BrokerImpl.replayLife, hread, deletions]

/-- What the steps of the life of the replay `r` keep holds after every run of the broker. -/
theorem replay_run {P : List (ReplayEvent H) → ReplayLife H → List (ReplayAction H) → Prop}
    (hr : r < b₀.replays.next) (hstart : P [] (b₀.replayLife r) [])
    (hlife : ∀ evs v v' e history as, P evs v history →
      ReplayLife.step codec v e = .ok (v', as) → P (evs ++ [e]) v' (history ++ as))
    (hrun : run (BrokerImpl.step codec) b₀ es = .ok (b, outs)) :
    P (es.filterMap (Event.toReplay r)) (b.replayLife r) (replayHistory r outs) := by
  let Q : BrokerImpl H → List (Event H) → List (List (Action H)) → Prop :=
    fun b es outs => r < b.replays.next ∧
      P (es.filterMap (Event.toReplay r)) (b.replayLife r) (replayHistory r outs)
  refine (run_history (P := Q) ⟨hr, hstart⟩ ?_ hrun).2
  intro es m t outs e as _ hQ hstep
  rcases BrokerImpl.step_replay hQ.1 hstep with ⟨hreplay, hnext⟩
  refine ⟨hQ.1.trans_le hnext, ?_⟩
  rw [replayHistory_concat, List.filterMap_append]
  unfold BrokerImpl.ReplayStep at hreplay
  split at hreplay
  · rename_i he
    -- the event concerns something else
    have hevents : [e].filterMap (Event.toReplay r) = [] := by
      simp [he]
    rw [hevents, hreplay.1, hreplay.2, List.append_nil, List.append_nil]
    exact hQ.2
  · rename_i e' he
    have hevents : [e].filterMap (Event.toReplay r) = [e'] := by
      simp [he]
    rw [hevents]
    exact hlife _ _ _ _ _ _ hQ.2 hreplay

theorem books_of_run (hstart : ReplayStarted codec message r b₀)
    (hrun : run (BrokerImpl.step codec) b₀ es = .ok (b, outs)) :
    (b.replayLife r).Books message.replyTo (commits r es) (replayHistory r outs) := by
  let P : List (ReplayEvent H) → ReplayLife H → List (ReplayAction H) → Prop :=
    fun evs v history => v.Books message.replyTo (evs.countP ReplayEvent.isCommit) history
  refine replay_run (P := P) hstart.books.1 hstart.books.2 ?_ hrun
  intro evs v v' e history as hbooks hstep
  show v'.Books message.replyTo _ _
  rw [List.countP_append]
  exact hbooks.step hstep

/-- At most one reply to a request, and at most one deletion of its replay: in a run from the
delivery on, and in whatever transaction reports next, if and only if `commit` has been called at
most once. -/
theorem one_reply_iff (hstart : ReplayStarted codec message r b₀)
    (hrun : run (BrokerImpl.step codec) b₀ es = .ok (b, outs)) :
    (published message.replyTo (replayHistory r outs) ≤ 1 ∧
      deletions (replayHistory r outs) ≤ 1 ∧
      ∀ e, e.toReplay r = some .outcome → BrokerImpl.step codec b e ≠ .error .doubleDelete) ↔
    commits r es ≤ 1 := by
  have hbooks := books_of_run hstart hrun
  constructor
  · intro hone
    rw [← hbooks.published]
    exact hone.1
  · intro hcommits
    refine ⟨by rw [hbooks.published]; exact hcommits, ?_, ?_⟩
    · rw [hbooks.deletions]
      split <;> simp
    · intro e he hdouble
      -- a second deletion would take a second commit
      have htwo := hbooks.double (BrokerImpl.step_double he hdouble)
      omega

end Runs

/-- A request that asks for a reply. -/
def sampleRequest : Message :=
  { body := [0xc3]
    replyTo := "amq.gen-1"
    routingKey := "echo.ping"
    correlationId := "7" }

/-- The transactions that commits of its replay start. -/
def sampleTransaction (channel : Nat) : ReplyTransaction :=
  { replay := 0
    channel := channel
    correlationId := "1" }

/-- One commit, whose transaction succeeds. -/
theorem one_reply :
    ∃ b₀ b outs,
      ReplayStarted Codec.small sampleRequest 0 b₀ ∧
      run (BrokerImpl.step Codec.small) b₀
        [.replayCall 0 0 (.onComplete 5), .replayCall 0 0 .commit,
          .replySuccess (sampleTransaction 0)] = .ok (b, outs) ∧
      published "amq.gen-1" (replayHistory 0 outs) ≤ 1 ∧ deletions (replayHistory 0 outs) ≤ 1 := by
  obtain ⟨b₀, ⟨b, outs⟩, hstart, hrun⟩ : ∃ b₀ r,
      ReplayStarted Codec.small sampleRequest 0 b₀ ∧
      run (BrokerImpl.step Codec.small) b₀
        [.replayCall 0 0 (.onComplete 5), .replayCall 0 0 .commit,
          .replySuccess (sampleTransaction 0)] = .ok r :=
    ⟨_, _, ⟨sampleConsuming, 0, "1", 7, none, _, _, sampleConsuming_consuming.reachable, rfl, rfl,
      rfl⟩, rfl⟩
  have hone := (one_reply_iff hstart hrun).2 (le_refl 1)
  exact ⟨b₀, b, outs, hstart, hrun, hone.1, hone.2.1⟩

/-- Two commits publish two replies, and their transactions delete the replay twice. -/
theorem two_replies :
    (∃ b outs, run (BrokerImpl.step Codec.small) (.construct "amq.topic")
      (sampleListening ++
        [.listenCallback 0 "1" (.received sampleRequest 7 none), .replayCall 0 0 .commit,
          .replayCall 0 0 .commit]) = .ok (b, outs) ∧
      published "amq.gen-1" (replayHistory 0 outs) = 2) ∧
    run (BrokerImpl.step Codec.small) (.construct "amq.topic")
      (sampleListening ++
        [.listenCallback 0 "1" (.received sampleRequest 7 none), .replayCall 0 0 .commit,
          .replayCall 0 0 .commit, .replySuccess (sampleTransaction 0),
          .replySuccess (sampleTransaction 1)]) = .error .doubleDelete := by
  let es : List (Event Nat) :=
    sampleListening ++
      [.listenCallback 0 "1" (.received sampleRequest 7 none), .replayCall 0 0 .commit,
        .replayCall 0 0 .commit]
  let start : BrokerImpl Nat := .construct "amq.topic"
  constructor
  · have htwo : (run (BrokerImpl.step Codec.small) start es).map
        (fun r => published "amq.gen-1" (replayHistory 0 r.2)) = .ok 2 := by
      decide +kernel
    rcases ok_of_map htwo with ⟨⟨b, outs⟩, hrun, hpublished⟩
    exact ⟨b, outs, hrun, hpublished⟩
  · have hdouble : (run (BrokerImpl.step Codec.small) start
        (es ++ [.replySuccess (sampleTransaction 0), .replySuccess (sampleTransaction 1)])).map
        (fun _ => ()) = .error .doubleDelete := by
      decide +kernel
    exact error_of_map hdouble

end CapyAmqp
