import CapyAmqp.Broker.Step

/-!
# Frame — what each family of statements leaves alone

The statements of the broker fall into families, by the part of the state that they work on.

* `OnObjects`: the objects of listeners.
* `OnListeners`: connections, listeners and their objects.
* `OnReplays`: replays and the transactions of replies.
* `NoFetch`: anything that is not about fetches; the two families above, one after the other.

Each of these relations composes, so it is established statement by statement.
-/

namespace CapyAmqp

open Lib

variable {H : Type}

/-- The part of an action that concerns the fetcher `id`. -/
def Action.toFetch (id : String) : Action H → Option (ObjectAction ChannelOp H FetchData)
  | .fetch id' a => if id' = id then some a else none
  | _ => none

/-- The part of an action that concerns the replay `r`. -/
def Action.toReplay (r : Ptr) : Action H → Option (ReplayAction H)
  | .replay r' a => if r' = r then some a else none
  | _ => none

def Action.isListen : Action H → Bool
  | .listen .. => true
  | _ => false

/-- An action on a listener object, whose channel publishes nothing. -/
def Action.onListener : Action H → Bool
  | .listen _ (.channel (.publish ..)) => false
  | .listen .. => true
  | _ => false

def Action.isReplay : Action H → Bool
  | .replay .. => true
  | _ => false

namespace BrokerImpl

/-! ## Statements on listeners -/

/-- Only connections, listeners and listener objects change. -/
structure OnListeners (b : BrokerImpl H) (as : List (Action H)) (b' : BrokerImpl H) : Prop where
  exchangeName : b'.exchangeName = b.exchangeName
  fetchers : b'.fetchers = b.fetchers
  fetchClosures : b'.fetchClosures = b.fetchClosures
  uniqueId : b'.uniqueId = b.uniqueId
  listenChannels : b'.listenChannels = b.listenChannels
  replays : b'.replays = b.replays
  transactions : b'.transactions = b.transactions
  actions : ∀ a ∈ as, a.onListener = true

theorem onListeners_composes : Prog.Composes (OnListeners (H := H)) := by
  constructor
  · intro b
    exact ⟨rfl, rfl, rfl, rfl, rfl, rfl, rfl, by simp⟩
  · intro b b₁ b₂ as bs h₁ h₂
    refine ⟨h₂.exchangeName.trans h₁.exchangeName, h₂.fetchers.trans h₁.fetchers,
      h₂.fetchClosures.trans h₁.fetchClosures, h₂.uniqueId.trans h₁.uniqueId,
      h₂.listenChannels.trans h₁.listenChannels, h₂.replays.trans h₁.replays,
      h₂.transactions.trans h₁.transactions, ?_⟩
    intro a ha
    rcases List.mem_append.1 ha with ha | ha
    · exact h₁.actions a ha
    · exact h₂.actions a ha

theorem onListeners_getConnection (b : BrokerImpl H) (thread : ThreadId) :
    OnListeners b [] (b.getConnection thread) := by
  unfold getConnection
  split
  · exact onListeners_composes.refl b
  · exact ⟨rfl, rfl, rfl, rfl, rfl, rfl, rfl, by simp⟩

theorem onListeners_assignSlot (b : BrokerImpl H) (thread : ThreadId) (p : Option Ptr) :
    OnListeners b [] (b.assignSlot thread p) := by
  have hget := onListeners_getConnection b thread
  exact ⟨hget.exchangeName, hget.fetchers, hget.fetchClosures, hget.uniqueId, hget.listenChannels,
    hget.replays, hget.transactions, by simp⟩

/-! ### Statements on listener objects -/

/-- Only listener objects change. -/
structure OnObjects (b : BrokerImpl H) (as : List (Action H)) (b' : BrokerImpl H) : Prop
    extends OnListeners b as b' where
  listeners : b'.listeners = b.listeners
  connections : b'.connections = b.connections

theorem OnObjects.slot {b b' : BrokerImpl H} {as : List (Action H)} (h : OnObjects b as b')
    (thread : ThreadId) : b'.slot thread = b.slot thread := by
  simp only [BrokerImpl.slot, h.connections]

theorem onObjects_composes : Prog.Composes (OnObjects (H := H)) := by
  constructor
  · intro b
    exact ⟨onListeners_composes.refl b, rfl, rfl⟩
  · intro b b₁ b₂ as bs h₁ h₂
    exact ⟨onListeners_composes.trans h₁.toOnListeners h₂.toOnListeners,
      h₂.listeners.trans h₁.listeners, h₂.connections.trans h₁.connections⟩

theorem onListeners_of_objects {p : Stmt H} (h : Prog.Ensures OnObjects p) :
    Prog.Ensures OnListeners p :=
  h.mono fun _ _ _ => OnObjects.toOnListeners

/-- A change of the objects, with actions on them. -/
theorem onObjects_listening (b : BrokerImpl H) (listening : Heap (DeferredListening H))
    {as : List (Action H)} (has : ∀ a ∈ as, a.onListener = true) :
    OnObjects b as { b with listening := listening } :=
  ⟨⟨rfl, rfl, rfl, rfl, rfl, rfl, rfl, has⟩, rfl, rfl⟩

/-- Letting go destroys the object, unless another owner is left. -/
theorem release_cases {p : Ptr} {b b' : BrokerImpl H} {as : List (Action H)}
    (h : release p b = .ok (b', as)) :
    (b' = b ∧ as = []) ∨
      ∃ o, b.listening.read p = some o ∧ b.listeners.get o.correlationId ≠ some p ∧
        b.slot o.connection ≠ some p ∧ b' = { b with listening := b.listening.free p } ∧
        as = [.listen p (.destroyed o.deferred.destroy)] := by
  unfold release at h
  split at h
  · cases h
    exact Or.inl ⟨rfl, rfl⟩
  · rename_i o hread
    split at h
    · cases h
      exact Or.inl ⟨rfl, rfl⟩
    · rename_i howners
      cases h
      exact Or.inr ⟨o, hread, fun hl => howners (Or.inl hl), fun hs => howners (Or.inr hs), rfl, rfl⟩

theorem onObjects_release (p : Ptr) : Prog.Ensures OnObjects (release p : Stmt H) := by
  intro b b' as h
  rcases release_cases h with ⟨rfl, rfl⟩ | ⟨o, _, _, _, rfl, rfl⟩
  · exact onObjects_composes.refl b'
  · exact onObjects_listening b _ (by simp [Action.onListener])

theorem onObjects_reportTo (p : Ptr) (r : Report ListenData) :
    Prog.Ensures OnObjects (reportTo p r : Stmt H) := by
  intro b b' as h
  rcases reportTo_ok_iff.1 h with ⟨o, _, rfl, rfl⟩
  exact onObjects_listening b _ (by simp [Action.onListener])

theorem onObjects_listenReport (id : String) (r : Report ListenData) :
    Prog.Ensures OnObjects (listenReport id r : Stmt H) := by
  intro b b' as h
  rcases withListener_ok_iff.1 h with ⟨q, _, h⟩
  exact onObjects_reportTo _ _ _ _ _ h

theorem onObjects_listenAck (id : String) (deliveryTag : Nat) :
    Prog.Ensures OnObjects (listenAck id deliveryTag : Stmt H) := by
  intro b b' as h
  rcases listenAck_ok_iff.1 h with ⟨q, o, _, _, rfl, rfl⟩
  exact onObjects_listening _ _ (by simp [Action.onListener])

theorem onObjects_listenReportData (id : String) (data : ListenData) (throws : Option Thrown) :
    Prog.Ensures OnObjects (listenReportData id data throws : Stmt H) := by
  intro b b' as h
  rcases listenReportData_ok_iff.1 h with ⟨q, o, _, _, _, h⟩
  exact onObjects_reportTo _ _ _ _ _ h

theorem onObjects_listenRegister (p : Ptr) (r : Registration H) :
    Prog.Ensures OnObjects (listenRegister p r) := by
  intro b b' as h
  rcases listenRegister_ok_iff.1 h with ⟨o, _, rfl, rfl⟩
  exact onObjects_listening b _ (by simp)

theorem onObjects_handlerReport (thread : ThreadId) (e : Error) :
    Prog.Ensures OnObjects (handlerReport thread e : Stmt H) := by
  intro b b' as h
  rcases handlerReport_ok_iff.1 h with ⟨connection, _, ⟨_, rfl, rfl⟩ | ⟨q, _, h⟩⟩
  · exact onObjects_composes.refl b'
  · exact onObjects_reportTo _ _ _ _ _ h

theorem onObjects_listenIssue (p : Ptr) (exchangeName queue : String) (keys : List String) :
    Prog.Ensures OnObjects (listenIssue p (listenOps exchangeName queue keys) : Stmt H) := by
  intro b b' as h
  cases h
  refine onObjects_listening b b.listening ?_
  intro a ha
  rcases List.mem_map.1 ha with ⟨op, hop, rfl⟩
  simp only [listenOps, List.mem_append, List.mem_cons, List.mem_map, List.not_mem_nil,
    or_false] at hop
  rcases hop with (rfl | ⟨key, _, rfl⟩) | rfl <;> rfl

/-! ### Statements that change an owner -/

/-- Assigning the slot comes first, letting go of its old value second. -/
theorem setDeferred_cases {thread : ThreadId} {p : Option Ptr} {b b' : BrokerImpl H}
    {as : List (Action H)} (h : setDeferred thread p b = .ok (b', as)) :
    OnObjects (b.assignSlot thread p) as b' := by
  unfold setDeferred at h
  split at h
  · cases h
    exact onObjects_composes.refl _
  · exact onObjects_release _ _ _ _ h

theorem onListeners_setDeferred (thread : ThreadId) (p : Option Ptr) :
    Prog.Ensures OnListeners (setDeferred thread p : Stmt H) := by
  intro b b' as h
  exact onListeners_composes.trans (onListeners_assignSlot b thread p)
    (setDeferred_cases h).toOnListeners

theorem onListeners_listenDel (id : String) :
    Prog.Ensures OnListeners (listenDel id : Stmt H) := by
  intro b b' as h
  rcases listenDel_ok_iff.1 h with ⟨_, rfl, rfl⟩ | ⟨q, _, h⟩
  · exact onListeners_composes.refl b'
  · have hdel : OnListeners b [] { b with listeners := b.listeners.del id } :=
      ⟨rfl, rfl, rfl, rfl, rfl, rfl, rfl, by simp⟩
    exact onListeners_composes.trans hdel (onObjects_release _ _ _ _ h).toOnListeners

theorem onListeners_consumeError (thread : ThreadId) (id message : String) :
    Prog.Ensures OnListeners
      (.all
        [resetDeferred thread,
          listenReport id (.error (.broker .queueConsuming message)),
          listenDel id] : Stmt H) := by
  refine Prog.ensures_all onListeners_composes ?_
  intro p hp
  simp only [List.mem_cons, List.not_mem_nil, or_false] at hp
  rcases hp with rfl | rfl | rfl
  · exact onListeners_setDeferred _ _
  · exact onListeners_of_objects (onObjects_listenReport _ _)
  · exact onListeners_listenDel _

/-! ## Statements on replays -/

/-- Only replays, their transactions and the set of connections change. -/
structure OnReplays (b : BrokerImpl H) (as : List (Action H)) (b' : BrokerImpl H) : Prop where
  exchangeName : b'.exchangeName = b.exchangeName
  fetchers : b'.fetchers = b.fetchers
  fetchClosures : b'.fetchClosures = b.fetchClosures
  uniqueId : b'.uniqueId = b.uniqueId
  listenChannels : b'.listenChannels = b.listenChannels
  listeners : b'.listeners = b.listeners
  listening : b'.listening = b.listening
  slot : ∀ thread, b'.slot thread = b.slot thread
  actions : ∀ a ∈ as, a.isReplay = true

theorem onReplays_composes : Prog.Composes (OnReplays (H := H)) := by
  constructor
  · intro b
    exact ⟨rfl, rfl, rfl, rfl, rfl, rfl, rfl, fun _ => rfl, by simp⟩
  · intro b b₁ b₂ as bs h₁ h₂
    refine ⟨h₂.exchangeName.trans h₁.exchangeName, h₂.fetchers.trans h₁.fetchers,
      h₂.fetchClosures.trans h₁.fetchClosures, h₂.uniqueId.trans h₁.uniqueId,
      h₂.listenChannels.trans h₁.listenChannels, h₂.listeners.trans h₁.listeners,
      h₂.listening.trans h₁.listening, fun thread => (h₂.slot thread).trans (h₁.slot thread), ?_⟩
    intro a ha
    rcases List.mem_append.1 ha with ha | ha
    · exact h₁.actions a ha
    · exact h₂.actions a ha

/-- A connection that is made on demand has an empty slot, as the missing one had. -/
theorem slot_getConnection (b : BrokerImpl H) (thread thread' : ThreadId) :
    (b.getConnection thread).slot thread' = b.slot thread' := by
  unfold getConnection
  split
  · rfl
  · rename_i hnew
    by_cases ht : thread' = thread
    · subst ht
      have hnone : b.connections.get thread' = none := by
        simpa [Table.has] using hnew
      simp [slot, hnone]
    · simp [slot, Table.get_set_of_ne _ _ ht]

theorem onReplays_getConnection (b : BrokerImpl H) (thread : ThreadId) :
    OnReplays b [] (b.getConnection thread) := by
  have hslot := slot_getConnection b thread
  have hget := onListeners_getConnection b thread
  refine ⟨hget.exchangeName, hget.fetchers, hget.fetchClosures, hget.uniqueId, hget.listenChannels,
    ?_, ?_, hslot, by simp⟩
  · unfold getConnection
    split <;> rfl
  · unfold getConnection
    split <;> rfl

theorem onReplays_runCommitHandler (codec : Codec) (thread : ThreadId) (r : Ptr)
    (message : Payload) (h : CommitHandler) :
    Prog.Ensures OnReplays (runCommitHandler codec thread r message h : Stmt H) := by
  intro b b' as hrun
  cases hrun
  have hget := onReplays_getConnection b thread
  refine ⟨hget.exchangeName, hget.fetchers, hget.fetchClosures, hget.uniqueId, hget.listenChannels,
    hget.listeners, hget.listening, hget.slot, ?_⟩
  intro a ha
  rcases List.mem_map.1 ha with ⟨op, _, rfl⟩
  rfl

theorem onReplays_modifyReplay (r : Ptr) (f : ReplayImpl H → ReplayImpl H) :
    Prog.Ensures OnReplays (modifyReplay r f) := by
  intro b b' as h
  cases h
  exact ⟨rfl, rfl, rfl, rfl, rfl, rfl, rfl, fun _ => rfl, by simp⟩

theorem onReplays_replayCommit (codec : Codec) (thread : ThreadId) (r : Ptr) (o : ReplayImpl H) :
    Prog.Ensures OnReplays (replayCommit codec thread r o) := by
  unfold replayCommit
  cases o.commitHandler with
  | none =>
      exact Prog.ensures_skip onReplays_composes
  | some h =>
      refine Prog.ensures_all onReplays_composes ?_
      intro p hp
      simp only [List.mem_cons, List.not_mem_nil, or_false] at hp
      rcases hp with rfl | rfl
      · exact onReplays_runCommitHandler _ _ _ _ _
      · exact onReplays_modifyReplay _ _

theorem onReplays_replayCall (codec : Codec) (thread : ThreadId) (r : Ptr) (call : ReplayCall H) :
    Prog.Ensures OnReplays (replayCall codec thread r call) := by
  intro b b' as h
  rcases replayCall_ok_iff.1 h with ⟨o, _, h⟩
  cases call with
  | setMessage message => exact onReplays_modifyReplay _ _ _ _ _ h
  | onComplete handler => exact onReplays_modifyReplay _ _ _ _ _ h
  | commit => exact onReplays_replayCommit _ _ _ _ _ _ _ h

theorem onReplays_deleteReplay (r : Ptr) : Prog.Ensures OnReplays (deleteReplay r : Stmt H) := by
  intro b b' as h
  rcases deleteReplay_ok_iff.1 h with ⟨o, _, _, ⟨_, rfl, rfl⟩ | ⟨handler, _, rfl, rfl⟩⟩
  · exact ⟨rfl, rfl, rfl, rfl, rfl, rfl, rfl, fun _ => rfl, by simp [Action.isReplay]⟩
  · exact ⟨rfl, rfl, rfl, rfl, rfl, rfl, rfl, fun _ => rfl, by simp [Action.isReplay]⟩

theorem onReplays_replayDestroyed (r : Ptr) :
    Prog.Ensures OnReplays (replayDestroyed r : Stmt H) := by
  intro b b' as h
  rcases replayDestroyed_ok_iff.1 h with ⟨_, _, _, rfl, rfl⟩
  exact ⟨rfl, rfl, rfl, rfl, rfl, rfl, rfl, fun _ => rfl, by simp [Action.isReplay]⟩

/-- Taking a transaction off the list, before its callback runs. -/
theorem onReplays_eraseTransaction (b : BrokerImpl H) (transaction : ReplyTransaction) :
    OnReplays b [] { b with transactions := b.transactions.erase transaction } :=
  ⟨rfl, rfl, rfl, rfl, rfl, rfl, rfl, fun _ => rfl, by simp⟩

/-! ## Statements that are not about fetches -/

/-- Nothing that belongs to fetches changes. -/
structure NoFetch (b : BrokerImpl H) (as : List (Action H)) (b' : BrokerImpl H) : Prop where
  exchangeName : b'.exchangeName = b.exchangeName
  fetchers : b'.fetchers = b.fetchers
  fetchClosures : b'.fetchClosures = b.fetchClosures
  uniqueId : b'.uniqueId = b.uniqueId
  actions : ∀ id, as.filterMap (Action.toFetch id) = []

theorem noFetch_composes : Prog.Composes (NoFetch (H := H)) := by
  constructor
  · intro b
    exact ⟨rfl, rfl, rfl, rfl, fun _ => rfl⟩
  · intro b b₁ b₂ as bs h₁ h₂
    refine ⟨h₂.exchangeName.trans h₁.exchangeName, h₂.fetchers.trans h₁.fetchers,
      h₂.fetchClosures.trans h₁.fetchClosures, h₂.uniqueId.trans h₁.uniqueId, ?_⟩
    intro id
    simp [List.filterMap_append, h₁.actions id, h₂.actions id]

theorem OnListeners.noFetch {b b' : BrokerImpl H} {as : List (Action H)}
    (h : OnListeners b as b') : NoFetch b as b' := by
  refine ⟨h.exchangeName, h.fetchers, h.fetchClosures, h.uniqueId, ?_⟩
  intro id
  refine List.filterMap_eq_nil_iff.2 ?_
  intro a ha
  have hlisten := h.actions a ha
  cases a with
  | listen p x => rfl
  | _ => cases hlisten

theorem OnReplays.noFetch {b b' : BrokerImpl H} {as : List (Action H)} (h : OnReplays b as b') :
    NoFetch b as b' := by
  refine ⟨h.exchangeName, h.fetchers, h.fetchClosures, h.uniqueId, ?_⟩
  intro id
  refine List.filterMap_eq_nil_iff.2 ?_
  intro a ha
  have hreplay := h.actions a ha
  cases a with
  | replay r x => rfl
  | _ => cases hreplay

theorem noFetch_listenDispatch (id : String) (message : Message) (received : Json)
    (throws : Option Thrown) :
    Prog.Ensures NoFetch (listenDispatch id message received throws : Stmt H) := by
  intro b b' as h
  have hreport := (onObjects_listenReportData _ _ _ _ _ _ h).noFetch
  exact ⟨hreport.exchangeName, hreport.fetchers, hreport.fetchClosures, hreport.uniqueId,
    hreport.actions⟩

theorem noFetch_listenReceived (codec : Codec) (thread : ThreadId) (id : String)
    (message : Message) (deliveryTag : Nat) (throws : Option Thrown) :
    Prog.Ensures NoFetch (listenReceived codec thread id message deliveryTag throws : Stmt H) := by
  refine Prog.ensures_seq noFetch_composes
    (fun _ _ _ h => (onObjects_listenAck _ _ _ _ _ h).noFetch) ?_
  split
  · exact fun _ _ _ h => (onObjects_listenReport _ _ _ _ _ h).noFetch
  · exact Prog.ensures_seq noFetch_composes
      (fun _ _ _ h => (onListeners_setDeferred _ _ _ _ _ h).noFetch)
      (noFetch_listenDispatch _ _ _ _)

theorem noFetch_listenCallback (codec : Codec) (thread : ThreadId) (id : String)
    (c : ListenCallback) : Prog.Ensures NoFetch (listenCallback codec thread id c : Stmt H) := by
  have hreport : ∀ r, Prog.Ensures NoFetch (listenReport id r : Stmt H) := by
    intro r b b' as h
    exact (onObjects_listenReport _ _ _ _ _ h).noFetch
  cases c with
  | received message deliveryTag throws =>
      exact noFetch_listenReceived _ _ _ _ _ _
  | consumeError message =>
      intro b b' as h
      exact (onListeners_consumeError _ _ _ _ _ _ h).noFetch
  | _ =>
      exact hreport _

theorem noFetch_replyFailure (transaction : ReplyTransaction) (message : String) :
    Prog.Ensures NoFetch (replyFailure transaction message : Stmt H) := by
  intro b b' as h
  rcases takeTransaction_ok_iff.1 h with ⟨_, h⟩
  have herase := (onReplays_eraseTransaction b transaction).noFetch
  have hrest := Prog.ensures_seq noFetch_composes
    (fun _ _ _ h => (onObjects_listenReport (H := H) _ _ _ _ _ h).noFetch)
    (fun _ _ _ h => (onReplays_deleteReplay _ _ _ _ h).noFetch) _ _ _ h
  exact noFetch_composes.trans herase hrest

theorem onReplays_replySuccess (transaction : ReplyTransaction) :
    Prog.Ensures OnReplays (replySuccess transaction : Stmt H) := by
  intro b b' as h
  rcases takeTransaction_ok_iff.1 h with ⟨_, h⟩
  exact onReplays_composes.trans (onReplays_eraseTransaction b transaction)
    (onReplays_deleteReplay _ _ _ _ h)

theorem noFetch_newListener (b : BrokerImpl H) (thread : ThreadId) (correlationId : String)
    (failed : Bool) : NoFetch b [] (b.newListener thread correlationId failed).1 := by
  have hget := onListeners_getConnection b thread
  exact ⟨hget.exchangeName, hget.fetchers, hget.fetchClosures, hget.uniqueId, fun _ => rfl⟩

/-- `listen_messages` takes an id and otherwise leaves the fetches alone. -/
theorem noFetch_listenMessages {thread : ThreadId} {queue : String} {keys : List String}
    {failed : Bool} {b b' : BrokerImpl H} {as : List (Action H)}
    (h : listenMessages thread queue keys failed b = .ok (b', as)) :
    NoFetch b.incrementId as b' := by
  rcases listenMessages_ok_iff.1 h with ⟨_, h⟩
  have hseq := Prog.ensures_seq onListeners_composes (onListeners_setDeferred _ _)
    (onListeners_of_objects (onObjects_listenIssue _ _ _ _)) _ _ _ h
  exact noFetch_composes.trans (noFetch_newListener _ _ _ _) hseq.noFetch

end BrokerImpl

end CapyAmqp
