import CapyAmqp.Broker.FetchLife

/-!
# Ownership — who holds which object, in every reachable broker

* `Owned`: `listeners_` and the slots of the connections point to live listeners, each under its
  own id and on its own connection.
* `Named`: whatever carries the id of a listener carries one that `listen_messages` has given out.

Both hold of every reachable broker (`Reachable.owned`, `Reachable.named`).
-/

namespace CapyAmqp

open Lib

variable {H : Type}

/-- Steps that are neither about listeners nor about replays. -/
def Event.isAside : Event H → Bool
  | .uniqueId => true
  | .fetchMessage .. => true
  | .fetchRegister .. => true
  | .fetchCallback .. => true
  | .publishMessage .. => true
  | _ => false

namespace BrokerImpl

/-! ## Steps aside from listeners and replays -/

/-- Listeners, replays and the slots of the connections stay as they are. -/
structure Aside (b : BrokerImpl H) (as : List (Action H)) (b' : BrokerImpl H) : Prop where
  listeners : b'.listeners = b.listeners
  listening : b'.listening = b.listening
  replays : b'.replays = b.replays
  transactions : b'.transactions = b.transactions
  listenChannels : b'.listenChannels = b.listenChannels
  slot : ∀ thread, b'.slot thread = b.slot thread
  uniqueId : b.uniqueId ≤ b'.uniqueId
  actions : ∀ a ∈ as, a.isListen = false ∧ a.isReplay = false

/-- A connection made on demand is all that changes. -/
theorem aside_getConnection (b : BrokerImpl H) (thread : ThreadId) :
    Aside b [] (b.getConnection thread) := by
  have hlisten := onListeners_getConnection b thread
  have hreplay := onReplays_getConnection b thread
  exact ⟨hreplay.listeners, hreplay.listening, hlisten.replays, hlisten.transactions,
    hlisten.listenChannels, hreplay.slot, hlisten.uniqueId.ge, by simp⟩

theorem aside_fetchMessage {thread : ThreadId} {message : Json} {routingKey : String}
    {failed : Bool} {b b' : BrokerImpl H} {as : List (Action H)}
    (h : fetchMessage thread message routingKey failed b = .ok (b', as)) : Aside b as b' := by
  rcases fetchMessage_ok_iff.1 h with ⟨_, rfl, rfl⟩
  have hget := aside_getConnection b.incrementId thread
  refine ⟨hget.listeners, hget.listening, hget.replays, hget.transactions, hget.listenChannels,
    hget.slot, (Nat.le_succ b.uniqueId).trans hget.uniqueId, ?_⟩
  simp [Action.isListen, Action.isReplay]

theorem aside_onFetchCallback {codec : Codec} {id : String} {c : FetchCallback}
    {b b' : BrokerImpl H} {as : List (Action H)}
    (h : onFetchCallback codec id c b = .ok (b', as)) : Aside b as b' := by
  rcases onFetchCallback_ok_iff.1 h with ⟨closure, v, xs, _, _, rfl, rfl⟩
  refine ⟨rfl, rfl, rfl, rfl, rfl, fun _ => rfl, le_refl _, ?_⟩
  intro a ha
  rcases List.mem_map.1 ha with ⟨x, _, rfl⟩
  exact ⟨rfl, rfl⟩

theorem step_aside {codec : Codec} {b b' : BrokerImpl H} {e : Event H} {as : List (Action H)}
    (he : e.isAside = true) (h : step codec b e = .ok (b', as)) : Aside b as b' := by
  cases e with
  | uniqueId =>
      rcases takeUniqueId_ok_iff.1 h with ⟨_, rfl, rfl⟩
      exact ⟨rfl, rfl, rfl, rfl, rfl, fun _ => rfl, Nat.le_succ b.uniqueId, by simp⟩
  | fetchMessage thread message routingKey failed =>
      exact aside_fetchMessage h
  | fetchRegister id r =>
      rcases fetchRegister_ok_iff.1 h with ⟨_, _, rfl, rfl⟩
      exact ⟨rfl, rfl, rfl, rfl, rfl, fun _ => rfl, le_refl _, by simp⟩
  | fetchCallback id c =>
      exact aside_onFetchCallback h
  | publishMessage thread message routingKey =>
      cases h
      -- a publication may make the connection of its thread first
      have hget := aside_getConnection b thread
      refine ⟨hget.listeners, hget.listening, hget.replays, hget.transactions,
        hget.listenChannels, hget.slot, hget.uniqueId, ?_⟩
      simp [Action.isListen, Action.isReplay]
  | _ =>
      cases he

/-! ## The slots of the connections -/

@[simp] theorem slot_assignSlot_self (b : BrokerImpl H) (thread : ThreadId) (p : Option Ptr) :
    (b.assignSlot thread p).slot thread = p := by
  simp [slot, assignSlot]

theorem slot_assignSlot_of_ne (b : BrokerImpl H) {thread thread' : ThreadId} (p : Option Ptr)
    (h : thread' ≠ thread) : (b.assignSlot thread p).slot thread' = b.slot thread' := by
  have hget := slot_getConnection b thread thread'
  simpa [slot, assignSlot, Table.get_set_of_ne _ _ h] using hget

@[simp] theorem listeners_assignSlot (b : BrokerImpl H) (thread : ThreadId) (p : Option Ptr) :
    (b.assignSlot thread p).listeners = b.listeners :=
  (onReplays_getConnection b thread).listeners

@[simp] theorem listening_assignSlot (b : BrokerImpl H) (thread : ThreadId) (p : Option Ptr) :
    (b.assignSlot thread p).listening = b.listening :=
  (onReplays_getConnection b thread).listening

/-- The statement always completes, and leaves `listeners_` alone. -/
def Completes (p : Stmt H) : Prop :=
  ∀ b, ∃ b' as, p b = .ok (b', as) ∧ b'.listeners = b.listeners

theorem completes_release (p : Ptr) : Completes (release p : Stmt H) := by
  intro b
  cases hrelease : (release p b : Except Fault _) with
  | error f =>
      -- neither branch of a release fails
      unfold release at hrelease
      split at hrelease
      · cases hrelease
      · split at hrelease <;> cases hrelease
  | ok r =>
      exact ⟨r.1, r.2, rfl, (onObjects_release p b r.1 r.2 hrelease).listeners⟩

theorem completes_setDeferred (thread : ThreadId) (p : Option Ptr) :
    Completes (setDeferred thread p : Stmt H) := by
  intro b
  have hassign := listeners_assignSlot b thread p
  cases hslot : b.slot thread with
  | none =>
      exact ⟨b.assignSlot thread p, [], by simp [setDeferred, hslot], hassign⟩
  -- the slot has been assigned before the old pointer is given up
  | some old =>
      rcases completes_release old (b.assignSlot thread p) with ⟨b', as, h, hsame⟩
      exact ⟨b', as, by simpa [setDeferred, hslot] using h, hsame.trans hassign⟩

/-! ## Owners of listeners -/

/-- What `listeners_` and the slots point to is alive and knows where it is held. -/
structure Owned (b : BrokerImpl H) : Prop where
  listener : ∀ {id : String} {p : Ptr}, b.listeners.get id = some p →
    ∃ o, b.listening.read p = some o ∧ o.correlationId = id
  slot : ∀ {thread : ThreadId} {p : Ptr}, b.slot thread = some p →
    ∃ o, b.listening.read p = some o ∧ o.connection = thread

theorem Owned.of_eq {b b' : BrokerImpl H} (hb : b.Owned) (hlisteners : b'.listeners = b.listeners)
    (hlistening : b'.listening = b.listening) (hslot : ∀ thread, b'.slot thread = b.slot thread) :
    b'.Owned := by
  refine ⟨?_, ?_⟩
  · intro id p hget
    rw [hlistening]
    exact hb.listener (hlisteners ▸ hget)
  · intro thread p hget
    rw [hlistening]
    exact hb.slot ((hslot thread).symm.trans hget)

theorem Aside.owned {b b' : BrokerImpl H} {as : List (Action H)} (h : Aside b as b')
    (hb : b.Owned) : b'.Owned :=
  hb.of_eq h.listeners h.listening h.slot

theorem OnReplays.owned {b b' : BrokerImpl H} {as : List (Action H)} (h : OnReplays b as b')
    (hb : b.Owned) : b'.Owned :=
  hb.of_eq h.listeners h.listening h.slot

/-- An object may change as long as it stays where it is held. -/
theorem Owned.modify {b : BrokerImpl H} (hb : b.Owned) (p : Ptr)
    {f : DeferredListening H → DeferredListening H}
    (hid : ∀ o, (f o).correlationId = o.correlationId)
    (hconnection : ∀ o, (f o).connection = o.connection) :
    ({ b with listening := b.listening.modify p f } : BrokerImpl H).Owned := by
  refine ⟨?_, ?_⟩
  · intro id q hget
    rcases hb.listener hget with ⟨o, hread, ho⟩
    refine ⟨_, Heap.exists_read_modify hread, ?_⟩
    -- the object that changes keeps its id, and the others are untouched
    split
    · rw [hid, ho]
    · exact ho
  · intro thread q hget
    rcases hb.slot hget with ⟨o, hread, ho⟩
    refine ⟨_, Heap.exists_read_modify hread, ?_⟩
    split
    · rw [hconnection, ho]
    · exact ho

/-! ### Statements that keep the owners -/

theorem owned_release (p : Ptr) : Prog.Ensures (Prog.Keeps Owned) (release p : Stmt H) := by
  intro b b' as h hb
  rcases release_cases h with ⟨rfl, _⟩ | ⟨o, hread, hlistener, hslot, rfl, _⟩
  · exact hb
  · -- an owner that still points to `p` would be one that the object knows of
    refine ⟨?_, ?_⟩
    · intro id q hget
      rcases hb.listener hget with ⟨o', hread', rfl⟩
      have hqp : q ≠ p := by
        rintro rfl
        cases hread.symm.trans hread'
        exact hlistener hget
      exact ⟨o', (Heap.read_free_of_ne hqp).trans hread', rfl⟩
    · intro thread q hget
      rcases hb.slot hget with ⟨o', hread', rfl⟩
      have hqp : q ≠ p := by
        rintro rfl
        cases hread.symm.trans hread'
        exact hslot hget
      exact ⟨o', (Heap.read_free_of_ne hqp).trans hread', rfl⟩

theorem owned_assignSlot {b : BrokerImpl H} (hb : b.Owned) {thread : ThreadId} {p : Option Ptr}
    (hp : ∀ q, p = some q → ∃ o, b.listening.read q = some o ∧ o.connection = thread) :
    (b.assignSlot thread p).Owned := by
  refine ⟨?_, ?_⟩
  · intro id q hget
    simp only [listeners_assignSlot, listening_assignSlot] at hget ⊢
    exact hb.listener hget
  · intro thread' q hget
    rw [listening_assignSlot]
    -- only the slot of `thread` points elsewhere than before
    by_cases ht : thread' = thread
    · subst ht
      rw [slot_assignSlot_self] at hget
      exact hp q hget
    · rw [slot_assignSlot_of_ne _ _ ht] at hget
      exact hb.slot hget

theorem owned_setDeferred {b b' : BrokerImpl H} {as : List (Action H)} (hb : b.Owned)
    {thread : ThreadId} {p : Option Ptr}
    (hp : ∀ q, p = some q → ∃ o, b.listening.read q = some o ∧ o.connection = thread)
    (h : setDeferred thread p b = .ok (b', as)) : b'.Owned := by
  have hassign := owned_assignSlot hb hp
  unfold setDeferred at h
  split at h
  · cases h
    exact hassign
  · exact owned_release _ _ _ _ h hassign

theorem owned_resetDeferred (thread : ThreadId) :
    Prog.Ensures (Prog.Keeps Owned) (resetDeferred thread : Stmt H) := by
  intro b b' as h hb
  exact owned_setDeferred hb (by simp) h

theorem owned_reportTo (p : Ptr) (r : Report ListenData) :
    Prog.Ensures (Prog.Keeps Owned) (reportTo p r : Stmt H) := by
  intro b b' as h hb
  rcases reportTo_ok_iff.1 h with ⟨o, _, rfl, rfl⟩
  exact hb.modify p (fun _ => rfl) fun _ => rfl

theorem owned_listenReport (id : String) (r : Report ListenData) :
    Prog.Ensures (Prog.Keeps Owned) (listenReport id r : Stmt H) := by
  intro b b' as h
  rcases withListener_ok_iff.1 h with ⟨q, _, h⟩
  exact owned_reportTo _ _ _ _ _ h

theorem owned_listenAck (id : String) (deliveryTag : Nat) :
    Prog.Ensures (Prog.Keeps Owned) (listenAck id deliveryTag : Stmt H) := by
  intro b b' as h hb
  rcases listenAck_ok_iff.1 h with ⟨q, o, _, _, rfl, rfl⟩
  exact hb

theorem owned_listenReportData (id : String) (data : ListenData) (throws : Option Thrown) :
    Prog.Ensures (Prog.Keeps Owned) (listenReportData id data throws : Stmt H) := by
  intro b b' as h
  rcases listenReportData_ok_iff.1 h with ⟨q, o, _, _, _, h⟩
  exact owned_reportTo _ _ _ _ _ h

theorem Owned.del {b : BrokerImpl H} (hb : b.Owned) (id : String) :
    ({ b with listeners := b.listeners.del id } : BrokerImpl H).Owned := by
  refine ⟨?_, hb.slot⟩
  intro id' q hget
  refine hb.listener ?_
  by_cases hid : id' = id
  · simp [hid] at hget
  · exact (Table.get_del_of_ne _ hid).symm.trans hget

theorem owned_listenDel (id : String) : Prog.Ensures (Prog.Keeps Owned) (listenDel id : Stmt H) := by
  intro b b' as h hb
  rcases listenDel_ok_iff.1 h with ⟨_, rfl, rfl⟩ | ⟨q, _, h⟩
  · exact hb
  · exact owned_release _ _ _ _ h (hb.del id)

theorem owned_listenRegister (p : Ptr) (r : Registration H) :
    Prog.Ensures (Prog.Keeps Owned) (listenRegister p r) := by
  intro b b' as h hb
  rcases listenRegister_ok_iff.1 h with ⟨o, _, rfl, rfl⟩
  exact hb.modify p (fun _ => rfl) fun _ => rfl

theorem owned_handlerReport (thread : ThreadId) (e : Error) :
    Prog.Ensures (Prog.Keeps Owned) (handlerReport thread e : Stmt H) := by
  intro b b' as h
  rcases handlerReport_ok_iff.1 h with ⟨connection, _, ⟨_, rfl, rfl⟩ | ⟨q, _, h⟩⟩
  · exact fun hb => hb
  · exact owned_reportTo _ _ _ _ _ h

theorem owned_listenDispatch (id : String) (message : Message) (received : Json)
    (throws : Option Thrown) :
    Prog.Ensures (Prog.Keeps Owned) (listenDispatch id message received throws : Stmt H) := by
  intro b b' as h hb
  exact owned_listenReportData _ _ _ _ _ _ h (hb.of_eq rfl rfl fun _ => rfl)

theorem owned_listenCallback (codec : Codec) (thread : ThreadId) (id : String) (c : ListenCallback) :
    Prog.Ensures (Prog.Keeps Owned) (listenCallback codec thread id c : Stmt H) := by
  have hcomposes := Prog.keeps_composes (α := Action H) (Owned (H := H))
  cases c with
  | received message deliveryTag throws =>
      refine Prog.ensures_seq hcomposes (owned_listenAck _ _) ?_
      split
      · exact owned_listenReport _ _
      · exact Prog.ensures_seq hcomposes (owned_resetDeferred _) (owned_listenDispatch _ _ _ _)
  | consumeError message =>
      refine Prog.ensures_all hcomposes ?_
      intro p hp
      simp only [List.mem_cons, List.not_mem_nil, or_false] at hp
      rcases hp with rfl | rfl | rfl
      · exact owned_resetDeferred _
      · exact owned_listenReport _ _
      · exact owned_listenDel _
  | _ =>
      exact owned_listenReport _ _

/-- The new listener is held under its id, on the connection of its thread. -/
theorem owned_newListener {b : BrokerImpl H} (hb : b.Owned) (thread : ThreadId)
    (correlationId : String) (failed : Bool) : (b.newListener thread correlationId failed).1.Owned := by
  have hget := aside_getConnection b thread
  have hget' := hget.owned hb
  refine ⟨?_, ?_⟩
  · intro id q hq
    by_cases hid : id = correlationId
    · subst hid
      simp only [newListener, Table.get_set_self, Option.some.injEq] at hq
      subst hq
      exact ⟨_, Heap.read_alloc_next _ _, rfl⟩
    · simp only [newListener, Table.get_set_of_ne _ _ hid] at hq
      rcases hget'.listener hq with ⟨o, hread, ho⟩
      exact ⟨o, Heap.read_alloc_of_read hread, ho⟩
  · intro thread' q hq
    rcases hget'.slot hq with ⟨o, hread, ho⟩
    exact ⟨o, Heap.read_alloc_of_read hread, ho⟩

theorem owned_listenMessages {thread : ThreadId} {queue : String} {keys : List String}
    {failed : Bool} {b b' : BrokerImpl H} {as : List (Action H)} (hb : b.Owned)
    (h : listenMessages thread queue keys failed b = .ok (b', as)) : b'.Owned := by
  rcases listenMessages_ok_iff.1 h with ⟨_, h⟩
  have hincrement : b.incrementId.Owned := hb.of_eq rfl rfl fun _ => rfl
  have hnew := owned_newListener hincrement thread (idText b.uniqueId) failed
  rcases Prog.seq_ok_iff.1 h with ⟨m, bs, cs, hset, hissue, _⟩
  have hm : m.Owned := by
    refine owned_setDeferred hnew ?_ hset
    -- the slot is assigned the listener that has just been made
    intro q hq
    cases hq
    exact ⟨_, Heap.read_alloc_next _ _, rfl⟩
  cases hissue
  exact hm

theorem owned_replyFailure (transaction : ReplyTransaction) (message : String) :
    Prog.Ensures (Prog.Keeps Owned) (replyFailure transaction message : Stmt H) := by
  intro b b' as h hb
  rcases takeTransaction_ok_iff.1 h with ⟨_, h⟩
  rcases Prog.seq_ok_iff.1 h with ⟨m, bs, cs, hreport, hdelete, _⟩
  have hm := owned_listenReport _ _ _ _ _ hreport (hb.of_eq rfl rfl fun _ => rfl)
  exact (onReplays_deleteReplay _ _ _ _ hdelete).owned hm

theorem Owned.step {codec : Codec} {b b' : BrokerImpl H} {e : Event H} {as : List (Action H)}
    (hb : b.Owned) (h : step codec b e = .ok (b', as)) : b'.Owned := by
  cases e with
  | listenMessages thread queue keys failed =>
      exact owned_listenMessages hb h
  | listenRegister p r =>
      exact owned_listenRegister _ _ _ _ _ h hb
  | listenCallback thread id c =>
      rcases onListenCallback_ok_iff.1 h with ⟨_, h⟩
      exact owned_listenCallback _ _ _ _ _ _ _ h hb
  | replayCall thread r call =>
      exact (onReplays_replayCall _ _ _ _ _ _ _ h).owned hb
  | replayDestroyed r =>
      exact (onReplays_replayDestroyed _ _ _ _ h).owned hb
  | replySuccess transaction =>
      exact (onReplays_replySuccess _ _ _ _ h).owned hb
  | replyFailure transaction message =>
      exact owned_replyFailure _ _ _ _ _ h hb
  | connectionError thread message =>
      exact owned_handlerReport _ _ _ _ _ h hb
  | connectionLost thread =>
      exact owned_handlerReport _ _ _ _ _ h hb
  | _ =>
      exact (step_aside rfl h).owned hb

theorem owned_construct (exchangeName : String) : (construct exchangeName : BrokerImpl H).Owned := by
  refine ⟨?_, ?_⟩
  · intro id p h
    cases h
  · intro thread p h
    cases h

theorem Reachable.owned {codec : Codec} {b : BrokerImpl H} (h : Reachable codec b) : b.Owned := by
  rcases h with ⟨exchangeName, es, outs, hrun⟩
  exact run_invariant (I := Owned) Owned.step (owned_construct exchangeName) hrun

/-! ## Names of listeners -/

/-- Ids of listeners have been given out, and so have those that replies carry; the transactions
of replies are about replays that have been made. -/
structure Named (b : BrokerImpl H) : Prop where
  channels : ∀ {id : String}, b.listenChannels.has id = true → ∃ n, n < b.uniqueId ∧ id = idText n
  handlers : ∀ {r : Ptr} {o : ReplayImpl H} {h : CommitHandler}, b.replays.read r = some o →
    o.commitHandler = some h → b.listenChannels.has h.correlationId = true
  transactions : ∀ {transaction : ReplyTransaction}, transaction ∈ b.transactions →
    b.listenChannels.has transaction.correlationId = true ∧ transaction.replay < b.replays.next

/-- The next id is not the id of a listener. -/
theorem Named.fresh {b : BrokerImpl H} (hb : b.Named) :
    b.listenChannels.has (idText b.uniqueId) = false := by
  by_contra hhas
  -- the id of a listener is the text of a smaller number
  have hissued : Issued idText b.uniqueId (idText b.uniqueId) :=
    hb.channels (Bool.not_eq_false _ ▸ hhas)
  exact not_issued_self @idText_injective hissued

theorem Named.of_eq {b b' : BrokerImpl H} (hb : b.Named) (huniqueId : b.uniqueId ≤ b'.uniqueId)
    (hchannels : b'.listenChannels = b.listenChannels) (hreplays : b'.replays = b.replays)
    (htransactions : b'.transactions = b.transactions) : b'.Named := by
  refine ⟨?_, ?_, ?_⟩
  · intro id hhas
    rcases hb.channels (hchannels ▸ hhas) with ⟨n, hn, hid⟩
    exact ⟨n, hn.trans_le huniqueId, hid⟩
  · intro r o h hread hhandler
    rw [hchannels]
    exact hb.handlers (hreplays ▸ hread) hhandler
  · intro transaction hmem
    rw [hchannels, hreplays]
    exact hb.transactions (htransactions ▸ hmem)

theorem Aside.named {b b' : BrokerImpl H} {as : List (Action H)} (h : Aside b as b')
    (hb : b.Named) : b'.Named :=
  hb.of_eq h.uniqueId h.listenChannels h.replays h.transactions

theorem OnListeners.named {b b' : BrokerImpl H} {as : List (Action H)} (h : OnListeners b as b')
    (hb : b.Named) : b'.Named :=
  hb.of_eq h.uniqueId.ge h.listenChannels h.replays h.transactions

/-! ### Replays keep their commit handlers -/

/-- Every replay that is there now was there before, with the same commit handler. -/
def HandlersFrom (b b' : BrokerImpl H) : Prop :=
  ∀ r o', b'.replays.read r = some o' →
    ∃ o, b.replays.read r = some o ∧ o'.commitHandler = o.commitHandler

theorem handlersFrom_modify (b : BrokerImpl H) (r : Ptr) {f : ReplayImpl H → ReplayImpl H}
    (hf : ∀ o, (f o).commitHandler = o.commitHandler) :
    HandlersFrom b { b with replays := b.replays.modify r f } := by
  intro q o' hread
  by_cases hqr : q = r
  · subst hqr
    rw [Heap.read_modify_self] at hread
    rcases Option.map_eq_some_iff.1 hread with ⟨o, ho, rfl⟩
    exact ⟨o, ho, hf o⟩
  · rw [Heap.read_modify_of_ne hqr] at hread
    exact ⟨o', hread, rfl⟩

theorem handlersFrom_free (b : BrokerImpl H) (r : Ptr) :
    HandlersFrom b { b with replays := b.replays.free r } := by
  intro q o' hread
  by_cases hqr : q = r
  · subst hqr
    simp at hread
  · rw [Heap.read_free_of_ne hqr] at hread
    exact ⟨o', hread, rfl⟩

/-- The replays change, and no transaction is started. -/
theorem Named.of_handlers {b b' : BrokerImpl H} (hb : b.Named) (hfrom : HandlersFrom b b')
    (hnext : b.replays.next ≤ b'.replays.next) (huniqueId : b'.uniqueId = b.uniqueId)
    (hchannels : b'.listenChannels = b.listenChannels)
    (htransactions : ∀ transaction ∈ b'.transactions, transaction ∈ b.transactions) :
    b'.Named := by
  refine ⟨?_, ?_, ?_⟩
  · intro id hhas
    rw [huniqueId]
    exact hb.channels (hchannels ▸ hhas)
  · intro r o' h hread hhandler
    rcases hfrom _ _ hread with ⟨o, ho, hsame⟩
    rw [hchannels]
    exact hb.handlers ho (hsame.symm.trans hhandler)
  · intro transaction hmem
    rcases hb.transactions (htransactions _ hmem) with ⟨hhas, hlt⟩
    exact ⟨hchannels ▸ hhas, hlt.trans_le hnext⟩

theorem named_deleteReplay (r : Ptr) : Prog.Ensures (Prog.Keeps Named) (deleteReplay r : Stmt H) := by
  intro b b' as h hb
  rcases deleteReplay_ok_iff.1 h with ⟨o, _, _, ⟨_, rfl, _⟩ | ⟨handler, _, rfl, _⟩⟩
  · exact hb.of_handlers (handlersFrom_free b r) (le_refl _) rfl rfl fun _ => id
  · refine hb.of_handlers (handlersFrom_modify b r ?_) (le_refl _) rfl rfl fun _ => id
    intro o
    rfl

theorem named_replayDestroyed (r : Ptr) :
    Prog.Ensures (Prog.Keeps Named) (replayDestroyed r : Stmt H) := by
  intro b b' as h hb
  rcases replayDestroyed_ok_iff.1 h with ⟨_, _, _, rfl, rfl⟩
  exact hb.of_handlers (handlersFrom_free b r) (le_refl _) rfl rfl fun _ => id

theorem named_modifyReplay (r : Ptr) {f : ReplayImpl H → ReplayImpl H}
    (hf : ∀ o, (f o).commitHandler = o.commitHandler) :
    Prog.Ensures (Prog.Keeps Named) (modifyReplay r f) := by
  intro b b' as h hb
  cases h
  exact hb.of_handlers (handlersFrom_modify b r hf) (le_refl _) rfl rfl fun _ => id

/-- The commit handler starts a transaction under the id that it has captured. -/
theorem named_runCommitHandler {codec : Codec} {thread : ThreadId} {r : Ptr} {message : Payload}
    {h : CommitHandler} {b b' : BrokerImpl H} {as : List (Action H)} (hb : b.Named)
    (hid : b.listenChannels.has h.correlationId = true) (hr : r < b.replays.next)
    (hrun : runCommitHandler codec thread r message h b = .ok (b', as)) : b'.Named := by
  cases hrun
  have hget := aside_getConnection b thread
  have hget' := hget.named hb
  refine ⟨hget'.channels, hget'.handlers, ?_⟩
  intro transaction hmem
  rcases List.mem_cons.1 hmem with rfl | hold
  · refine ⟨?_, ?_⟩
    · simpa [hget.listenChannels] using hid
    · simpa [hget.replays] using hr
  · exact hget'.transactions hold

theorem named_replayCall (codec : Codec) (thread : ThreadId) (r : Ptr) (call : ReplayCall H) :
    Prog.Ensures (Prog.Keeps Named) (replayCall codec thread r call) := by
  intro b b' as h hb
  rcases replayCall_ok_iff.1 h with ⟨o, hread, h⟩
  cases call with
  | setMessage message =>
      refine named_modifyReplay r ?_ _ _ _ h hb
      intro o
      rfl
  | onComplete handler =>
      refine named_modifyReplay r ?_ _ _ _ h hb
      intro o
      rfl
  | commit =>
      cases hhandler : o.commitHandler with
      | none =>
          simp only [replayCommit, hhandler, Prog.skip_ok_iff] at h
          exact h.1 ▸ hb
      -- the transaction carries the id of the handler, which is named by assumption
      | some handler =>
          simp only [replayCommit, hhandler] at h
          rcases Prog.seq_ok_iff.1 h with ⟨m, bs, cs, hcommit, hclear, _⟩
          have hm := named_runCommitHandler hb (hb.handlers hread hhandler)
            (Heap.lt_next_of_read hread) hcommit
          have hcomposes := Prog.keeps_composes (α := Action H) (Named (H := H))
          refine Prog.ensures_seq hcomposes (named_modifyReplay r ?_)
            (Prog.ensures_skip hcomposes) _ _ _ hclear hm
          intro o
          rfl

theorem Named.erase {b : BrokerImpl H} (hb : b.Named) (transaction : ReplyTransaction) :
    ({ b with transactions := b.transactions.erase transaction } : BrokerImpl H).Named :=
  hb.of_handlers (fun _ o' hread => ⟨o', hread, rfl⟩) (le_refl _) rfl rfl
    fun _ hmem => List.mem_of_mem_erase hmem

theorem named_takeTransaction (transaction : ReplyTransaction) {p : Stmt H}
    (hp : Prog.Ensures (Prog.Keeps Named) p) :
    Prog.Ensures (Prog.Keeps Named) (takeTransaction transaction p) := by
  intro b b' as h hb
  rcases takeTransaction_ok_iff.1 h with ⟨_, h⟩
  exact hp _ _ _ h (hb.erase transaction)

theorem named_onListeners {p : Stmt H} (hp : Prog.Ensures OnListeners p) :
    Prog.Ensures (Prog.Keeps Named) p := by
  intro b b' as h hb
  exact (hp _ _ _ h).named hb

/-- The replay of a delivery carries the id of its listener. -/
theorem named_listenDispatch {id : String} {message : Message} {received : Json}
    {throws : Option Thrown} {b b' : BrokerImpl H} {as : List (Action H)} (hb : b.Named)
    (hid : b.listenChannels.has id = true)
    (h : listenDispatch id message received throws b = .ok (b', as)) : b'.Named := by
  refine (onObjects_listenReportData _ _ _ _ _ _ h).named ?_
  refine ⟨hb.channels, ?_, ?_⟩
  · intro r o handler hread hhandler
    change (b.replays.alloc _).1.read r = some o at hread
    -- the new replay has captured `id`, the others are as before
    by_cases hr : r = b.replays.next
    · subst hr
      rw [Heap.read_alloc_next] at hread
      cases hread
      cases hhandler
      exact hid
    · rw [Heap.read_alloc_of_ne hr] at hread
      exact hb.handlers hread hhandler
  · intro transaction hmem
    rcases hb.transactions hmem with ⟨hhas, hlt⟩
    exact ⟨hhas, Nat.lt_succ_of_lt hlt⟩

theorem named_listenReceived {codec : Codec} {thread : ThreadId} {id : String} {message : Message}
    {deliveryTag : Nat} {throws : Option Thrown} {b b' : BrokerImpl H} {as : List (Action H)}
    (hb : b.Named) (hid : b.listenChannels.has id = true)
    (h : listenReceived codec thread id message deliveryTag throws b = .ok (b', as)) : b'.Named := by
  rcases listenReceived_ok_iff.1 h with ⟨m, _, _, hack, _, hrest⟩
  have hm := onObjects_listenAck _ _ _ _ _ hack
  rcases hrest with ⟨thrown, _, herror⟩ | ⟨received, m', _, _, _, hreset, hdispatch, _⟩
  · exact (onObjects_listenReport _ _ _ _ _ herror).toOnListeners.named (hm.named hb)
  · -- the new replay captures the listener's id, which is still registered
    have hm' := onListeners_setDeferred _ _ _ _ _ hreset
    refine named_listenDispatch (hm'.named (hm.named hb)) ?_ hdispatch
    rw [hm'.listenChannels, hm.listenChannels]
    exact hid

theorem named_newListener {b : BrokerImpl H} (hb : b.Named) (thread : ThreadId) (failed : Bool) :
    (b.incrementId.newListener thread (idText b.uniqueId) failed).1.Named := by
  have hget := aside_getConnection b.incrementId thread
  have hget' := hget.named (hb.of_eq (Nat.le_succ _) rfl rfl rfl)
  -- entering the new id forgets none of the old ones
  have hkeep : ∀ {id : String}, (b.incrementId.getConnection thread).listenChannels.has id = true →
      ((b.incrementId.getConnection thread).listenChannels.set (idText b.uniqueId) thread).has id =
        true := by
    intro id hhas
    -- the new id has the number that the counter has just passed
    by_cases hid : id = idText b.uniqueId
    · simp [hid, Table.has]
    · simpa [Table.has, Table.get_set_of_ne _ _ hid] using hhas
  refine ⟨?_, ?_, ?_⟩
  · intro id hhas
    by_cases hid : id = idText b.uniqueId
    · exact ⟨b.uniqueId, Nat.lt_of_lt_of_le (Nat.lt_succ_self _) hget.uniqueId, hid⟩
    · refine hget'.channels ?_
      simpa [newListener, Table.has, Table.get_set_of_ne _ _ hid] using hhas
  · intro r o h hread hhandler
    exact hkeep (hget'.handlers hread hhandler)
  · intro transaction hmem
    rcases hget'.transactions hmem with ⟨hhas, hlt⟩
    exact ⟨hkeep hhas, hlt⟩

theorem named_listenMessages {thread : ThreadId} {queue : String} {keys : List String}
    {failed : Bool} {b b' : BrokerImpl H} {as : List (Action H)} (hb : b.Named)
    (h : listenMessages thread queue keys failed b = .ok (b', as)) : b'.Named := by
  rcases listenMessages_ok_iff.1 h with ⟨_, h⟩
  have hseq := Prog.ensures_seq onListeners_composes (onListeners_setDeferred _ _)
    (onListeners_of_objects (onObjects_listenIssue _ _ _ _)) _ _ _ h
  exact hseq.named (named_newListener hb thread failed)

theorem Named.step {codec : Codec} {b b' : BrokerImpl H} {e : Event H} {as : List (Action H)}
    (hb : b.Named) (h : step codec b e = .ok (b', as)) : b'.Named := by
  cases e with
  | listenMessages thread queue keys failed =>
      exact named_listenMessages hb h
  | listenRegister p r =>
      exact (onObjects_listenRegister _ _ _ _ _ h).named hb
  | listenCallback thread id c =>
      rcases onListenCallback_ok_iff.1 h with ⟨hid, h⟩
      cases c with
      | received message deliveryTag throws =>
          exact named_listenReceived hb hid h
      | consumeError message =>
          exact (onListeners_consumeError _ _ _ _ _ _ h).named hb
      | _ =>
          exact (onObjects_listenReport _ _ _ _ _ h).named hb
  | replayCall thread r call =>
      exact named_replayCall _ _ _ _ _ _ _ h hb
  | replayDestroyed r =>
      exact named_replayDestroyed _ _ _ _ h hb
  | replySuccess transaction =>
      exact named_takeTransaction _ (named_deleteReplay _) _ _ _ h hb
  | replyFailure transaction message =>
      have hcomposes := Prog.keeps_composes (α := Action H) (Named (H := H))
      exact named_takeTransaction _
        (Prog.ensures_seq hcomposes (named_onListeners (onListeners_of_objects (onObjects_listenReport _ _)))
          (named_deleteReplay _)) _ _ _ h hb
  | connectionError thread message =>
      exact (onObjects_handlerReport _ _ _ _ _ h).named hb
  | connectionLost thread =>
      exact (onObjects_handlerReport _ _ _ _ _ h).named hb
  | _ =>
      exact (step_aside rfl h).named hb

theorem named_construct (exchangeName : String) : (construct exchangeName : BrokerImpl H).Named := by
  refine ⟨?_, ?_, ?_⟩
  · intro id h
    cases h
  · intro r o h hread
    cases hread
  · intro transaction hmem
    cases hmem

theorem Reachable.named {codec : Codec} {b : BrokerImpl H} (h : Reachable codec b) : b.Named := by
  rcases h with ⟨exchangeName, es, outs, hrun⟩
  exact run_invariant (I := Named) Named.step (named_construct exchangeName) hrun

end BrokerImpl

end CapyAmqp
