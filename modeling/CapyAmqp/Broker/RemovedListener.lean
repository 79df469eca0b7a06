import CapyAmqp.Broker.Directory
import CapyAmqp.Broker.FetchOutcome

/-!
# RemovedListener — calls through the id of a listener that has been deleted

The callbacks of a listener and the error callback of its replies' transactions call through
`listeners_.get(correlation_id)` without asking `has`.  `step_null_iff` says that this is the only
way to a null pointer, `removed_of_run` that an id is absent exactly after its consume error, and
`no_null_call_iff` when a run is free of such calls.
-/

namespace CapyAmqp

open Lib

variable {H : Type}

/-- The code that the event runs in `b` calls through the id of a listener. -/
def Event.callsListener (b : BrokerImpl H) (id : String) : Event H → Prop
  | .listenCallback _ id' _ => id' = id ∧ b.listenChannels.has id = true
  | .replyFailure transaction _ => transaction.correlationId = id ∧ transaction ∈ b.transactions
  | _ => False

/-- The consume operation of the listener has reported an error. -/
def ConsumeFailed (id : String) (es : List (Event H)) : Prop :=
  ∃ thread message, .listenCallback thread id (.consumeError message) ∈ es

namespace BrokerImpl

/-! ## Statements that call through an id -/

/-- The statement calls through a null pointer exactly when the id is absent. -/
def NullIff (id : String) (p : Stmt H) : Prop :=
  ∀ b, p b = .error .nullPointer ↔ b.listeners.get id = none

theorem reportTo_ne_null (p : Ptr) (r : Report ListenData) (b : BrokerImpl H) :
    reportTo p r b ≠ .error .nullPointer := by
  unfold reportTo
  split <;> simp

theorem nullIff_withListener {id : String} {p : Ptr → Stmt H}
    (hp : ∀ q b, p q b ≠ .error .nullPointer) : NullIff id (withListener id p) := by
  intro b
  cases hget : b.listeners.get id with
  | none => simp [withListener, hget]
  | some q => simpa [withListener, hget] using hp q b

theorem nullIff_listenReport (id : String) (r : Report ListenData) :
    NullIff id (listenReport id r : Stmt H) :=
  nullIff_withListener fun q b => reportTo_ne_null q r b

theorem nullIff_listenAck (id : String) (deliveryTag : Nat) :
    NullIff id (listenAck id deliveryTag : Stmt H) := by
  refine nullIff_withListener ?_
  intro q b
  cases hread : b.listening.read q <;> simp

theorem nullIff_listenReportData (id : String) (data : ListenData) (throws : Option Thrown) :
    NullIff id (listenReportData id data throws : Stmt H) := by
  refine nullIff_withListener ?_
  intro q b
  cases hread : b.listening.read q with
  | none => simp
  | some o =>
      cases hthrows : o.deferred.dataThrows throws with
      | some thrown => simp [hthrows]
      | none => simpa [hthrows] using reportTo_ne_null q (.data data) b

/-- A statement that completes does not change what the next one calls through. -/
theorem NullIff.after {id : String} {p q : Stmt H} (hp : Completes p) (hq : NullIff id q) :
    NullIff id (.seq p q) := by
  intro b
  rcases hp b with ⟨b', as, h, hsame⟩
  have hnext := hq b'
  rw [hsame] at hnext
  rw [← hnext, Prog.seq_error_iff, h]
  simp

/-- Once a statement has called through the id, the id is present for the next one. -/
theorem NullIff.then {id : String} {p q : Stmt H} (hp : NullIff id p)
    (hkeep : Prog.Ensures OnObjects p)
    (hq : ∀ b, q b = .error .nullPointer → b.listeners.get id = none) : NullIff id (.seq p q) := by
  intro b
  rw [Prog.seq_error_iff, hp b]
  refine ⟨?_, Or.inl⟩
  intro h
  rcases h with h | ⟨m, bs, hm, hnull⟩
  · exact h
  · rw [← (hkeep _ _ _ hm).listeners]
    exact hq m hnull

theorem nullIff_listenDispatch (id : String) (message : Message) (received : Json)
    (throws : Option Thrown) : NullIff id (listenDispatch id message received throws : Stmt H) := by
  intro b
  exact nullIff_listenReportData _ _ _ _

theorem nullIff_listenReceived (codec : Codec) (thread : ThreadId) (id : String)
    (message : Message) (deliveryTag : Nat) (throws : Option Thrown) :
    NullIff id (listenReceived codec thread id message deliveryTag throws : Stmt H) := by
  -- the ack goes first, so what follows finds the id present
  refine (nullIff_listenAck id deliveryTag).then (onObjects_listenAck id deliveryTag) ?_
  cases codec.fromMsgpack message.body with
  | error thrown =>
      exact fun b => (nullIff_listenReport _ _ b).1
  | ok received =>
      have hdispatch := NullIff.after (completes_setDeferred thread none)
        (nullIff_listenDispatch (H := H) id message received throws)
      exact fun b => (hdispatch b).1

theorem listenDel_ne_null (id : String) (b : BrokerImpl H) :
    listenDel id b ≠ .error .nullPointer := by
  unfold listenDel
  split
  · simp
  -- the erased entry gives up its pointer, which always completes
  · rename_i p _
    rcases completes_release p { b with listeners := b.listeners.del id } with ⟨b', as, h, _⟩
    simp [h]

theorem nullIff_listenCallback (codec : Codec) (thread : ThreadId) (id : String)
    (c : ListenCallback) : NullIff id (listenCallback codec thread id c : Stmt H) := by
  cases c with
  | received message deliveryTag throws =>
      exact nullIff_listenReceived _ _ _ _ _ _
  | consumeError message =>
      -- reset the deferred, report the error, delete the listener: the report is what can fail
      refine NullIff.after (completes_setDeferred _ _) ?_
      refine (nullIff_listenReport _ _).then (onObjects_listenReport _ _) ?_
      intro b h
      exfalso
      rcases Prog.seq_error_iff.1 h with hdel | ⟨m, bs, _, hskip⟩
      · exact listenDel_ne_null id b hdel
      · simp [Prog.all, Prog.skip] at hskip
  | _ =>
      exact nullIff_listenReport _ _

theorem deleteReplay_ne_null (r : Ptr) (b : BrokerImpl H) :
    deleteReplay r b ≠ .error .nullPointer := by
  unfold deleteReplay
  cases b.replays.read r with
  | none => simp
  | some o => cases hhandler : o.completeHandler <;> cases ho : o.destroying <;> simp [hhandler, ho]

theorem nullIff_replyFailure {transaction : ReplyTransaction} {message : String}
    {b : BrokerImpl H} (hmem : transaction ∈ b.transactions) :
    replyFailure transaction message b = .error .nullPointer ↔
      b.listeners.get transaction.correlationId = none := by
  have hseq : NullIff transaction.correlationId
      (.seq (listenReport transaction.correlationId (.error (.broker .publish message)))
        (deleteReplay transaction.replay) : Stmt H) := by
    refine (nullIff_listenReport _ _).then (onObjects_listenReport _ _) ?_
    exact fun b h => absurd h (deleteReplay_ne_null _ b)
  -- taking the transaction off the list leaves `listeners_` alone
  have herase := hseq { b with transactions := b.transactions.erase transaction }
  simpa [replyFailure, takeTransaction, hmem] using herase

/-! ## A step that calls through a null pointer -/

theorem createUniqueId_ne_null (b : BrokerImpl H) :
    b.createUniqueId ≠ .error .nullPointer := by
  unfold createUniqueId
  split <;> simp

/-- The callbacks of fetches ask `has` first. -/
theorem onFetchCallback_ne_null (codec : Codec) (id : String) (c : FetchCallback)
    (b : BrokerImpl H) : onFetchCallback codec id c b ≠ .error .nullPointer := by
  unfold onFetchCallback
  split
  · simp
  · rename_i closure _
    rw [fetchCallback_eq_life]
    cases hlife : FetchLife.callback codec b.exchangeName id closure (b.fetchers.get id) c with
    | ok r => simp [liftFetch]
    | error f =>
        -- what a fetch's callback fails with is an exception that the data handler threw
        rcases (callback_error hlife).1 with ⟨message, rfl⟩
        simp [liftFetch]

theorem listenMessages_ne_null (thread : ThreadId) (queue : String) (keys : List String)
    (failed : Bool) (b : BrokerImpl H) :
    listenMessages thread queue keys failed b ≠ .error .nullPointer := by
  intro h
  unfold listenMessages at h
  split at h
  · rename_i f hid
    cases h
    exact createUniqueId_ne_null b hid
  · rename_i b₁ correlationId _
    rcases Prog.seq_error_iff.1 h with hset | ⟨m, bs, _, hissue⟩
    -- putting the new listener in its slot cannot fail
    · let new := b₁.newListener thread correlationId failed
      rcases completes_setDeferred thread (some new.2) new.1 with ⟨b', as, hok, _⟩
      cases hok.symm.trans hset
    · cases hissue

theorem replayCall_ne_null (codec : Codec) (thread : ThreadId) (r : Ptr) (call : ReplayCall H)
    (b : BrokerImpl H) : replayCall codec thread r call b ≠ .error .nullPointer := by
  unfold replayCall
  cases b.replays.read r with
  | none => simp
  | some o =>
      cases call with
      | commit =>
          cases hhandler : o.commitHandler <;>
            simp [replayCommit, hhandler, Prog.skip, Prog.all, Prog.seq, runCommitHandler,
              modifyReplay]
      | _ => simp [modifyReplay]

theorem handlerReport_ne_null (thread : ThreadId) (e : Error) (b : BrokerImpl H) :
    handlerReport thread e b ≠ .error .nullPointer := by
  unfold handlerReport
  split
  · simp
  · split
    · simp
    · exact reportTo_ne_null _ _ _

/-- The only way to a null pointer is a call through an absent id. -/
theorem step_null_iff (codec : Codec) (b : BrokerImpl H) (e : Event H) :
    step codec b e = .error .nullPointer ↔
      ∃ id, e.callsListener b id ∧ b.listeners.get id = none := by
  -- enough for an event that calls through no id: the step does not fail this way
  have hnever : step codec b e ≠ .error .nullPointer → (∀ id, ¬ e.callsListener b id) →
      (step codec b e = .error .nullPointer ↔
        ∃ id, e.callsListener b id ∧ b.listeners.get id = none) := by
    intro hstep hcalls
    exact iff_of_false hstep fun h => h.elim fun id hid => hcalls id hid.1
  cases e with
  | listenCallback thread id c =>
      -- before `listen_messages` has given the id out, its callbacks do not occur
      by_cases hid : b.listenChannels.has id = true
      · have hcallback := nullIff_listenCallback codec thread id c b
        simp only [step, onListenCallback, hid, if_true, hcallback, Event.callsListener]
        refine ⟨fun h => ⟨id, ⟨rfl, hid⟩, h⟩, ?_⟩
        rintro ⟨id', ⟨rfl, _⟩, h⟩
        exact h
      · refine hnever (by simp [step, onListenCallback, hid]) ?_
        rintro id' ⟨rfl, hhas⟩
        exact hid hhas
  | replyFailure transaction message =>
      -- the failure is reported under the id of the transaction, if that is open
      by_cases hmem : transaction ∈ b.transactions
      · simp only [step, nullIff_replyFailure hmem, Event.callsListener]
        refine ⟨fun h => ⟨_, ⟨rfl, hmem⟩, h⟩, ?_⟩
        rintro ⟨id, ⟨rfl, _⟩, h⟩
        exact h
      · refine hnever (by simp [step, replyFailure, takeTransaction, hmem]) ?_
        rintro id ⟨_, h⟩
        exact hmem h
  | uniqueId =>
      refine hnever ?_ fun _ h => h
      -- `create_unique_id` can fail, with an overflow
      intro h
      simp only [step, takeUniqueId] at h
      split at h
      · rename_i f hid
        cases h
        exact createUniqueId_ne_null b hid
      · cases h
  | fetchMessage thread message routingKey failed =>
      refine hnever ?_ fun _ h => h
      intro h
      simp only [step, fetchMessage] at h
      split at h
      · rename_i f hid
        cases h
        exact createUniqueId_ne_null b hid
      · cases h
  | fetchRegister id r =>
      refine hnever ?_ fun _ h => h
      cases hget : b.fetchers.get id <;> simp [step, fetchRegister, hget]
  | fetchCallback id c =>
      -- a fetch asks `has` before it calls
      exact hnever (onFetchCallback_ne_null _ _ _ _) fun _ h => h
  | listenMessages thread queue keys failed =>
      exact hnever (listenMessages_ne_null _ _ _ _ _) fun _ h => h
  | listenRegister p r =>
      refine hnever ?_ fun _ h => h
      cases hread : b.listening.read p <;> simp [step, listenRegister, hread]
  -- the rest of the API and the connection's errors go through pointers of their own
  | replayCall thread r call =>
      exact hnever (replayCall_ne_null _ _ _ _ _) fun _ h => h
  | replayDestroyed r =>
      refine hnever ?_ fun _ h => h
      cases hread : b.replays.read r with
      | none => simp [step, replayDestroyed, hread]
      | some o => cases ho : o.destroying <;> simp [step, replayDestroyed, hread, ho]
  | replySuccess transaction =>
      refine hnever ?_ fun _ h => h
      by_cases hmem : transaction ∈ b.transactions
      · simpa [step, replySuccess, takeTransaction, hmem] using deleteReplay_ne_null _ _
      · simp [step, replySuccess, takeTransaction, hmem]
  | connectionError thread message =>
      exact hnever (handlerReport_ne_null _ _ _) fun _ h => h
  | connectionLost thread =>
      exact hnever (handlerReport_ne_null _ _ _) fun _ h => h
  | publishMessage thread message routingKey =>
      exact hnever (by simp [step, publishMessage]) fun _ h => h

end BrokerImpl

/-! ## Which ids are absent -/

theorem consumeFailed_concat {id : String} {es : List (Event H)} {e : Event H} :
    ConsumeFailed id (es ++ [e]) ↔
      ConsumeFailed id es ∨ ∃ thread message, e = .listenCallback thread id (.consumeError message) := by
  constructor
  · rintro ⟨thread, message, hmem⟩
    rcases List.mem_append.1 hmem with hold | hnew
    · exact Or.inl ⟨thread, message, hold⟩
    · exact Or.inr ⟨thread, message, (List.mem_singleton.1 hnew).symm⟩
  · rintro (⟨thread, message, hmem⟩ | ⟨thread, message, rfl⟩)
    · exact ⟨thread, message, List.mem_append_left _ hmem⟩
    · exact ⟨thread, message, by simp⟩

/-- The directory agrees with the history about the listeners that have been deleted. -/
structure Directory.Remembers (d : Directory) (es : List (Event H)) : Prop where
  known : ∀ id, ConsumeFailed id es → d.channels.has id = true
  absent : ∀ id, d.channels.has id = true → (d.listeners.get id = none ↔ ConsumeFailed id es)

namespace Directory.Remembers

variable {d : Directory} {es : List (Event H)}

/-- An event that is no consume error changes nothing, if the directory stays. -/
theorem same {d' : Directory} {e : Event H} (h : d.Remembers es)
    (hlisteners : d'.listeners = d.listeners) (hchannels : d'.channels = d.channels)
    (he : ∀ thread id message, e ≠ .listenCallback thread id (.consumeError message)) :
    d'.Remembers (es ++ [e]) := by
  have hfailed : ∀ id, ConsumeFailed id (es ++ [e]) ↔ ConsumeFailed id es := by
    intro id
    rw [consumeFailed_concat]
    refine or_iff_left ?_
    rintro ⟨thread, message, hevent⟩
    exact he thread id message hevent
  refine ⟨?_, ?_⟩
  · intro id hid
    rw [hchannels]
    exact h.known id ((hfailed id).1 hid)
  · intro id hid
    rw [hfailed id, hlisteners]
    exact h.absent id (hchannels ▸ hid)

theorem enter (h : d.Remembers es) {id : String} (hfresh : d.channels.has id = false) (p : Ptr)
    (thread : ThreadId) (queue : String) (keys : List String) (failed : Bool) :
    (d.enter id p thread).Remembers (es ++ [.listenMessages thread queue keys failed]) := by
  have hfailed : ∀ k, ConsumeFailed k (es ++ [.listenMessages thread queue keys failed]) ↔
      ConsumeFailed k es := by
    intro k
    simp [consumeFailed_concat]
  refine ⟨?_, ?_⟩
  · intro k hk
    have hknown := h.known k ((hfailed k).1 hk)
    -- only the entered id is new to the directory
    by_cases hkid : k = id
    · simp [Directory.enter, hkid, Table.has]
    · simpa [Directory.enter, Table.has, Table.get_set_of_ne _ _ hkid] using hknown
  · intro k hk
    rw [hfailed k]
    by_cases hkid : k = id
    · -- a fresh id has neither been deleted nor reported an error
      subst hkid
      refine iff_of_false (by simp [Directory.enter]) ?_
      intro hold
      rw [h.known k hold] at hfresh
      cases hfresh
    · have hget := Table.get_set_of_ne d.listeners p hkid
      have hk' : d.channels.has k = true := by
        simpa [Directory.enter, Table.has, Table.get_set_of_ne _ _ hkid] using hk
      simpa only [Directory.enter, hget] using h.absent k hk'

theorem remove (h : d.Remembers es) {id : String} (hid : d.channels.has id = true)
    (thread : ThreadId) (message : String) :
    (d.remove id thread).Remembers (es ++ [.listenCallback thread id (.consumeError message)]) := by
  refine ⟨?_, ?_⟩
  · intro k hk
    -- an id that failed before stays known, and this one is known by assumption
    rcases consumeFailed_concat.1 hk with hold | ⟨_, _, hnew⟩
    · exact h.known k hold
    · cases hnew
      exact hid
  · intro k hk
    rw [consumeFailed_concat]
    by_cases hkid : k = id
    -- the deleted id: absent now, and its error is the last event
    · subst hkid
      exact iff_of_true (Table.get_del_self _ _) (Or.inr ⟨thread, message, rfl⟩)
    · have hget := Table.get_del_of_ne d.listeners hkid
      have hother : ¬ ∃ thread' message', (.listenCallback thread id (.consumeError message) : Event H) =
          .listenCallback thread' k (.consumeError message') := by
        rintro ⟨_, _, hevent⟩
        cases hevent
        exact hkid rfl
      rw [or_iff_left hother]
      simpa only [Directory.remove, hget] using h.absent k hk

end Directory.Remembers

section Runs

variable {codec : Codec} {exchangeName : String} {b : BrokerImpl H} {es : List (Event H)}
  {outs : List (List (Action H))}

theorem remembers_step {b' : BrokerImpl H} {e : Event H} {as : List (Action H)} (hb : b.Named)
    (h : b.directory.Remembers es) (hstep : BrokerImpl.step codec b e = .ok (b', as)) :
    b'.directory.Remembers (es ++ [e]) := by
  rw [BrokerImpl.step_directory hstep]
  cases e with
  | listenMessages thread queue keys failed =>
      -- the id of a new listener has not been used, by `Named`
      exact h.enter hb.fresh _ thread queue keys failed
  | listenCallback thread id c =>
      rcases BrokerImpl.onListenCallback_ok_iff.1 hstep with ⟨hid, hstep⟩
      cases c with
      -- a delivery may reset the thread's deferred, which is no part of what is remembered
      | received message deliveryTag throws =>
          cases hdecode : codec.fromMsgpack message.body <;>
            exact h.same (by simp [Directory.step, hdecode, Directory.clear])
              (by simp [Directory.step, hdecode, Directory.clear]) (by simp)
      | consumeError message =>
          exact h.remove hid thread message
      | _ =>
          exact h.same rfl rfl (by simp)
  | _ =>
      exact h.same rfl rfl (by simp)

/-- A registered id is absent from `listeners_` exactly after its consume error. -/
theorem removed_of_run
    (hrun : run (BrokerImpl.step codec) (.construct exchangeName) es = .ok (b, outs)) {id : String}
    (hid : b.listenChannels.has id = true) :
    b.listeners.get id = none ↔ ConsumeFailed id es := by
  -- the invariant of the run: ids are named, and the directory remembers the errors
  let P : BrokerImpl H → List (Event H) → List (List (Action H)) → Prop :=
    fun b es _ => b.Named ∧ b.directory.Remembers es
  have hinit : P (.construct exchangeName) [] [] := by
    refine ⟨BrokerImpl.named_construct exchangeName, ?_, ?_⟩
    · rintro id ⟨thread, message, hmem⟩
      cases hmem
    · intro id hhas
      cases hhas
  have hP : P b es outs := by
    refine run_history (P := P) hinit ?_ hrun
    intro es m t outs e as _ hm hstep
    exact ⟨hm.1.step hstep, remembers_step hm.1 hm.2 hstep⟩
  exact hP.2.absent id hid

/-- A run calls through the null pointer of a deleted listener unless every callback of a listener,
and every failure of one of its replies, comes before the listener's consume error. -/
theorem no_null_call_iff (codec : Codec) (exchangeName : String) (es : List (Event H)) :
    run (BrokerImpl.step codec) (.construct exchangeName) es ≠ .error .nullPointer ↔
      ∀ pre e post b outs, es = pre ++ e :: post →
        run (BrokerImpl.step codec) (.construct exchangeName) pre = .ok (b, outs) →
        ∀ id, e.callsListener b id → ¬ ConsumeFailed id pre := by
  -- a callback's or a failed reply's id is registered, so absent means deleted
  have hcalls : ∀ {pre : List (Event H)} {e : Event H} {b : BrokerImpl H}
      {outs : List (List (Action H))} {id : String}, e.callsListener b id →
      run (BrokerImpl.step codec) (.construct exchangeName) pre = .ok (b, outs) →
      (b.listeners.get id = none ↔ ConsumeFailed id pre) := by
    intro pre e b outs id hcall hrun
    refine removed_of_run hrun ?_
    cases e with
    | listenCallback thread id' c =>
        exact hcall.2
    | replyFailure transaction message =>
        rcases hcall with ⟨rfl, hmem⟩
        have hreachable : BrokerImpl.Reachable codec b := ⟨exchangeName, pre, outs, hrun⟩
        exact (hreachable.named.transactions hmem).1
    | _ =>
        exact hcall.elim
  constructor
  · intro hrun pre e post b outs hsplit hpre id hcall hfailed
    have hnull := (BrokerImpl.step_null_iff codec b e).2
      ⟨id, hcall, (hcalls hcall hpre).2 hfailed⟩
    exact hrun (run_error_iff.2 ⟨pre, e, post, b, outs, hsplit, hpre, hnull⟩)
  · intro hall hrun
    rcases run_error_iff.1 hrun with ⟨pre, e, post, b, outs, hsplit, hpre, hnull⟩
    rcases (BrokerImpl.step_null_iff codec b e).1 hnull with ⟨id, hcall, hget⟩
    exact hall pre e post b outs hsplit hpre id hcall ((hcalls hcall hpre).1 hget)

/-- The consume operation fails, the listener is deleted, and the channel reports its error. -/
theorem null_call_after_consume_error :
    run (BrokerImpl.step Codec.small) (.construct "amq.topic")
      [.listenMessages 0 "queue" ["echo.ping"] false,
        .listenCallback 1 "1" (.consumeError "access refused"),
        .listenCallback 1 "1" (.channelError "channel closed")] =
      (.error .nullPointer : Except Fault (BrokerImpl Nat × List (List (Action Nat)))) := rfl

end Runs

end CapyAmqp
