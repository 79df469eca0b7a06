import CapyAmqp.Broker.Directory

/-!
# ListenLife — one listener, and what leaves it alone

A listener `p` that `listeners_` holds under `id`, with its channel on the connection `c`, is
reached in three ways only: by the callbacks of `id`, through the slot of `c`, and through the
client's reference.  `Untouched` is what every other statement satisfies; `step_untouched` is the
frame rule for the broker's steps.
-/

namespace CapyAmqp

open Lib

variable {H : Type}

/-- The part of an action that concerns the listener `p`. -/
def Action.toListen (p : Ptr) : Action H → Option (ObjectAction ChannelOp H ListenData)
  | .listen q a => if q = p then some a else none
  | _ => none

/-- The event does not reach the listener `p` of `id` and `c`. -/
def Event.avoids (id : String) (p : Ptr) (c : ThreadId) : Event H → Prop
  | .listenRegister q _ => q ≠ p
  | .listenCallback _ id' _ => id' ≠ id
  | .replyFailure transaction _ => transaction.correlationId ≠ id
  | .connectionError thread _ => thread ≠ c
  | .connectionLost thread => thread ≠ c
  | _ => True

namespace BrokerImpl

/-- `listeners_` holds the listener `p` under `id`, and its channel is on the connection `c`. -/
structure Carries (id : String) (p : Ptr) (c : ThreadId) (b : BrokerImpl H) : Prop where
  owned : b.Owned
  listener : b.listeners.get id = some p
  connection : ∃ o, b.listening.read p = some o ∧ o.connection = c

/-- Whatever happens, the listener `p` stays as it is. -/
def Untouched (id : String) (p : Ptr) (c : ThreadId) (b : BrokerImpl H) (as : List (Action H))
    (b' : BrokerImpl H) : Prop :=
  b.Carries id p c →
    b'.Carries id p c ∧ b'.listening.read p = b.listening.read p ∧
      as.filterMap (Action.toListen p) = []

variable {id : String} {p : Ptr} {c : ThreadId}

/-- A pointer under another id is another pointer. -/
theorem Carries.ne_of_get {b : BrokerImpl H} (hb : b.Carries id p c) {id' : String} {q : Ptr}
    (hid : id' ≠ id) (hget : b.listeners.get id' = some q) : q ≠ p := by
  rintro rfl
  rcases hb.owned.listener hget with ⟨o, hread, rfl⟩
  rcases hb.owned.listener hb.listener with ⟨o', hread', rfl⟩
  cases hread.symm.trans hread'
  exact hid rfl

/-- A pointer in the slot of another connection is another pointer. -/
theorem Carries.ne_of_slot {b : BrokerImpl H} (hb : b.Carries id p c) {thread : ThreadId} {q : Ptr}
    (hthread : thread ≠ c) (hslot : b.slot thread = some q) : q ≠ p := by
  rintro rfl
  rcases hb.owned.slot hslot with ⟨o, hread, rfl⟩
  rcases hb.connection with ⟨o', hread', rfl⟩
  cases hread.symm.trans hread'
  exact hthread rfl

/-- The table and the object stay; the owners are still in order. -/
theorem Carries.of_read {b b' : BrokerImpl H} (hb : b.Carries id p c) (howned : b'.Owned)
    (hget : b'.listeners.get id = b.listeners.get id)
    (hread : b'.listening.read p = b.listening.read p) : b'.Carries id p c := by
  refine ⟨howned, hget.trans hb.listener, ?_⟩
  rw [hread]
  exact hb.connection

/-! ## Statements that leave the listener alone -/

theorem untouched_composes : Prog.Composes (Untouched (H := H) id p c) := by
  constructor
  · intro b hb
    exact ⟨hb, rfl, rfl⟩
  · intro b b₁ b₂ as bs h₁ h₂ hb
    rcases h₁ hb with ⟨hb₁, hread₁, has⟩
    rcases h₂ hb₁ with ⟨hb₂, hread₂, hbs⟩
    exact ⟨hb₂, hread₂.trans hread₁, by simp [List.filterMap_append, has, hbs]⟩

theorem filterMap_toListen_eq_nil {as : List (Action H)} (h : ∀ a ∈ as, a.isListen = false) :
    as.filterMap (Action.toListen p) = [] := by
  refine List.filterMap_eq_nil_iff.2 ?_
  intro a ha
  have hother := h a ha
  cases a with
  | listen q x => cases hother
  | _ => rfl

theorem toListen_of_ne {q : Ptr} (hq : q ≠ p) (a : ObjectAction ChannelOp H ListenData) :
    [Action.listen q a].filterMap (Action.toListen p) = [] := by
  simp [Action.toListen, hq]

theorem Aside.untouched {b b' : BrokerImpl H} {as : List (Action H)} (h : Aside b as b') :
    Untouched id p c b as b' := by
  intro hb
  have hread : b'.listening.read p = b.listening.read p := by
    rw [h.listening]
  exact ⟨hb.of_read (h.owned hb.owned) (by rw [h.listeners]) hread, hread,
    filterMap_toListen_eq_nil fun a ha => (h.actions a ha).1⟩

theorem OnReplays.untouched {b b' : BrokerImpl H} {as : List (Action H)} (h : OnReplays b as b') :
    Untouched id p c b as b' := by
  intro hb
  have hread : b'.listening.read p = b.listening.read p := by
    rw [h.listening]
  refine ⟨hb.of_read (h.owned hb.owned) (by rw [h.listeners]) hread, hread,
    filterMap_toListen_eq_nil ?_⟩
  intro a ha
  have hreplay := h.actions a ha
  cases a with
  | replay r x => rfl
  | _ => cases hreplay

/-- Letting go of any listener: this one is still held by `listeners_`. -/
theorem untouched_release (q : Ptr) : Prog.Ensures (Untouched id p c) (release q : Stmt H) := by
  intro b b' as h hb
  have howned := owned_release q b b' as h hb.owned
  rcases release_cases h with ⟨rfl, rfl⟩ | ⟨o, hread, hlistener, _, rfl, rfl⟩
  · exact ⟨hb, rfl, rfl⟩
  · have hqp : q ≠ p := by
      rintro rfl
      rcases hb.owned.listener hb.listener with ⟨o', hread', rfl⟩
      cases hread.symm.trans hread'
      exact hlistener hb.listener
    have hsame := Heap.read_free_of_ne (h := b.listening) hqp.symm
    exact ⟨hb.of_read howned rfl hsame, hsame, toListen_of_ne hqp _⟩

theorem untouched_setDeferred {thread : ThreadId} {q : Option Ptr} {b b' : BrokerImpl H}
    {as : List (Action H)}
    (hq : ∀ r, q = some r → ∃ o, b.listening.read r = some o ∧ o.connection = thread)
    (h : setDeferred thread q b = .ok (b', as)) : Untouched id p c b as b' := by
  intro hb
  have howned := owned_assignSlot hb.owned hq
  have hread : (b.assignSlot thread q).listening.read p = b.listening.read p := by
    rw [listening_assignSlot]
  have hassign : (b.assignSlot thread q).Carries id p c :=
    hb.of_read howned (by rw [listeners_assignSlot]) hread
  unfold setDeferred at h
  split at h
  · cases h
    exact ⟨hassign, hread, rfl⟩
  · rcases untouched_release _ _ _ _ h hassign with ⟨hb', hread', has⟩
    exact ⟨hb', hread'.trans hread, has⟩

theorem untouched_resetDeferred (thread : ThreadId) :
    Prog.Ensures (Untouched id p c) (resetDeferred thread : Stmt H) := by
  intro b b' as h
  exact untouched_setDeferred (by simp) h

theorem untouched_reportTo {q : Ptr} (hq : q ≠ p) (r : Report ListenData) :
    Prog.Ensures (Untouched id p c) (reportTo q r : Stmt H) := by
  intro b b' as h hb
  have howned := owned_reportTo q r b b' as h hb.owned
  rcases reportTo_ok_iff.1 h with ⟨o, _, rfl, rfl⟩
  refine ⟨hb.of_read howned rfl ?_, ?_, toListen_of_ne hq _⟩
  · exact Heap.read_modify_of_ne hq.symm
  · exact Heap.read_modify_of_ne hq.symm

/-- Calls through another id reach other listeners. -/
theorem untouched_listenReport {id' : String} (hid : id' ≠ id) (r : Report ListenData) :
    Prog.Ensures (Untouched id p c) (listenReport id' r : Stmt H) := by
  intro b b' as h hb
  rcases withListener_ok_iff.1 h with ⟨q, hget, h⟩
  exact untouched_reportTo (hb.ne_of_get hid hget) _ _ _ _ h hb

theorem untouched_listenAck {id' : String} (hid : id' ≠ id) (deliveryTag : Nat) :
    Prog.Ensures (Untouched id p c) (listenAck id' deliveryTag : Stmt H) := by
  intro b b' as h hb
  rcases listenAck_ok_iff.1 h with ⟨q, o, hget, _, rfl, rfl⟩
  exact ⟨hb, rfl, toListen_of_ne (hb.ne_of_get hid hget) _⟩

theorem untouched_listenReportData {id' : String} (hid : id' ≠ id) (data : ListenData)
    (throws : Option Thrown) :
    Prog.Ensures (Untouched id p c) (listenReportData id' data throws : Stmt H) := by
  intro b b' as h hb
  rcases listenReportData_ok_iff.1 h with ⟨q, o, hget, _, _, h⟩
  exact untouched_reportTo (hb.ne_of_get hid hget) _ _ _ _ h hb

theorem untouched_listenDel {id' : String} (hid : id' ≠ id) :
    Prog.Ensures (Untouched id p c) (listenDel id' : Stmt H) := by
  intro b b' as h hb
  rcases listenDel_ok_iff.1 h with ⟨_, rfl, rfl⟩ | ⟨q, _, h⟩
  · exact ⟨hb, rfl, rfl⟩
  · let b₁ : BrokerImpl H := { b with listeners := b.listeners.del id' }
    have hget : b₁.listeners.get id = b.listeners.get id := Table.get_del_of_ne _ hid.symm
    have hb₁ : b₁.Carries id p c := hb.of_read (hb.owned.del id') hget rfl
    exact untouched_release _ b₁ b' as h hb₁

theorem untouched_listenRegister {q : Ptr} (hq : q ≠ p) (r : Registration H) :
    Prog.Ensures (Untouched id p c) (listenRegister q r) := by
  intro b b' as h hb
  have howned := owned_listenRegister q r b b' as h hb.owned
  rcases listenRegister_ok_iff.1 h with ⟨o, _, rfl, rfl⟩
  refine ⟨hb.of_read howned rfl ?_, ?_, rfl⟩
  · exact Heap.read_modify_of_ne hq.symm
  · exact Heap.read_modify_of_ne hq.symm

theorem untouched_handlerReport {thread : ThreadId} (hthread : thread ≠ c) (e : Error) :
    Prog.Ensures (Untouched id p c) (handlerReport thread e : Stmt H) := by
  intro b b' as h hb
  rcases handlerReport_ok_iff.1 h with ⟨connection, hconnection, ⟨_, rfl, rfl⟩ | ⟨q, hq, h⟩⟩
  · exact ⟨hb, rfl, rfl⟩
  · have hslot : b.slot thread = some q := by
      simp [BrokerImpl.slot, hconnection, hq]
    exact untouched_reportTo (hb.ne_of_slot hthread hslot) _ _ _ _ h hb

theorem untouched_listenDispatch {id' : String} (hid : id' ≠ id) (message : Message)
    (received : Json) (throws : Option Thrown) :
    Prog.Ensures (Untouched id p c) (listenDispatch id' message received throws : Stmt H) := by
  intro b b' as h hb
  let b₁ : BrokerImpl H :=
    { b with
      replays := (b.replays.alloc
        { message := .ok .null
          commitHandler := some
            { cid := message.correlationId
              replayTo := message.replyTo
              correlationId := id' }
          completeHandler := none
          destroying := false }).1 }
  have hb₁ : b₁.Carries id p c := hb.of_read (hb.owned.of_eq rfl rfl fun _ => rfl) rfl rfl
  exact untouched_listenReportData hid _ _ b₁ b' as h hb₁

theorem untouched_listenCallback (codec : Codec) (thread : ThreadId) {id' : String}
    (hid : id' ≠ id) (callback : ListenCallback) :
    Prog.Ensures (Untouched id p c) (listenCallback codec thread id' callback : Stmt H) := by
  have hcomposes : Prog.Composes (Untouched (H := H) id p c) := untouched_composes
  cases callback with
  | received message deliveryTag throws =>
      refine Prog.ensures_seq hcomposes (untouched_listenAck hid _) ?_
      -- a body that does not decode is reported, any other dispatched with a new replay
      split
      · exact untouched_listenReport hid _
      · exact Prog.ensures_seq hcomposes (untouched_resetDeferred _)
          (untouched_listenDispatch hid _ _ _)
  | consumeError message =>
      refine Prog.ensures_all hcomposes ?_
      intro q hq
      simp only [List.mem_cons, List.not_mem_nil, or_false] at hq
      rcases hq with rfl | rfl | rfl
      · exact untouched_resetDeferred _
      · exact untouched_listenReport hid _
      · exact untouched_listenDel hid
  | _ =>
      exact untouched_listenReport hid _

theorem untouched_replyFailure {transaction : ReplyTransaction}
    (hid : transaction.correlationId ≠ id) (message : String) :
    Prog.Ensures (Untouched id p c) (replyFailure transaction message : Stmt H) := by
  intro b b' as h hb
  rcases takeTransaction_ok_iff.1 h with ⟨_, h⟩
  have hcomposes : Prog.Composes (Untouched (H := H) id p c) := untouched_composes
  have herase := onReplays_eraseTransaction b transaction
  have hrest := Prog.ensures_seq hcomposes (untouched_listenReport hid _)
    (fun _ _ _ hdelete => (onReplays_deleteReplay _ _ _ _ hdelete).untouched) _ _ _ h
  exact hcomposes.trans herase.untouched hrest hb

/-- A new listener takes an id and a pointer of its own. -/
theorem untouched_newListener {b : BrokerImpl H} {id' : String} (hid : id' ≠ id)
    (thread : ThreadId) (failed : Bool) :
    Untouched id p c b [] (b.newListener thread id' failed).1 := by
  intro hb
  have hget := aside_getConnection b thread
  rcases hb.connection with ⟨o, hread, ho⟩
  -- allocation keeps the live objects
  have hread' : (b.newListener thread id' failed).1.listening.read p = some o := by
    refine Heap.read_alloc_of_read ?_
    rw [hget.listening]
    exact hread
  have hlistener : (b.newListener thread id' failed).1.listeners.get id = b.listeners.get id := by
    simp only [newListener, Table.get_set_of_ne _ _ (Ne.symm hid), hget.listeners]
  have howned := owned_newListener hb.owned thread id' failed
  exact ⟨hb.of_read howned hlistener (hread'.trans hread.symm), hread'.trans hread.symm, rfl⟩

theorem untouched_listenMessages {thread : ThreadId} {queue : String} {keys : List String}
    {failed : Bool} {b b' : BrokerImpl H} {as : List (Action H)} (hid : idText b.uniqueId ≠ id)
    (h : listenMessages thread queue keys failed b = .ok (b', as)) :
    Untouched id p c b as b' := by
  rcases listenMessages_ok_iff.1 h with ⟨_, h⟩
  rcases Prog.seq_ok_iff.1 h with ⟨b₂, as₁, as₂, hset, hissue, rfl⟩
  intro hb
  have hincrement : b.incrementId.Carries id p c :=
    hb.of_read (hb.owned.of_eq rfl rfl fun _ => rfl) rfl rfl
  rcases hb.connection with ⟨o, hread, _⟩
  -- the new pointer is `next`, and a live one lies below it
  have hp : (b.incrementId.newListener thread (idText b.uniqueId) failed).2 ≠ p := by
    show (b.incrementId.getConnection thread).listening.next ≠ p
    rw [(aside_getConnection _ _).listening]
    exact Nat.ne_of_gt (Heap.lt_next_of_read hread)
  rcases untouched_newListener hid thread failed hincrement with ⟨hnew, hreadNew, _⟩
  -- the new object knows the connection that it is put on
  have hown : ∀ r, some (b.incrementId.getConnection thread).listening.next = some r →
      ∃ o, (b.incrementId.newListener thread (idText b.uniqueId) failed).1.listening.read r =
        some o ∧ o.connection = thread := by
    rintro r ⟨⟩
    exact ⟨_, Heap.read_alloc_next _ _, rfl⟩
  rcases untouched_setDeferred hown hset hnew with ⟨hb₂, hread₂, has₁⟩
  -- what is issued goes to the new listener
  have has₂ : as₂.filterMap (Action.toListen p) = [] := by
    cases hissue
    simp [List.filterMap_eq_nil_iff, Action.toListen, hp]
  cases hissue
  refine ⟨hb₂, hread₂.trans hreadNew, ?_⟩
  rw [List.filterMap_append, has₁, has₂]
  rfl

/-- The frame rule: a step that does not reach the listener leaves it as it is. -/
theorem step_untouched {codec : Codec} {b b' : BrokerImpl H} {e : Event H} {as : List (Action H)}
    (hb : b.Named) (hid : b.listenChannels.has id = true) (he : e.avoids id p c)
    (h : step codec b e = .ok (b', as)) : Untouched id p c b as b' := by
  cases e with
  | listenMessages thread queue keys failed =>
      refine untouched_listenMessages ?_ h
      -- the next id is fresh, so it is not the listener's
      rintro rfl
      rw [hb.fresh] at hid
      cases hid
  | listenRegister q r =>
      exact untouched_listenRegister he _ _ _ _ h
  | listenCallback thread id' callback =>
      rcases onListenCallback_ok_iff.1 h with ⟨_, h⟩
      exact untouched_listenCallback _ _ he _ _ _ _ h
  | replayCall thread r call =>
      exact (onReplays_replayCall _ _ _ _ _ _ _ h).untouched
  | replayDestroyed r =>
      exact (onReplays_replayDestroyed _ _ _ _ h).untouched
  | replySuccess transaction =>
      exact (onReplays_replySuccess _ _ _ _ h).untouched
  | replyFailure transaction message =>
      exact untouched_replyFailure he _ _ _ _ h
  | connectionError thread message =>
      exact untouched_handlerReport he _ _ _ _ h
  | connectionLost thread =>
      exact untouched_handlerReport he _ _ _ _ h
  | _ =>
      exact (step_aside rfl h).untouched

end BrokerImpl

end CapyAmqp
