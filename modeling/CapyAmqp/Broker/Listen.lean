import CapyAmqp.Broker.Replay

/-!
# Listen — `listen_messages`, its callbacks and those of the replies

The callbacks of a listener share the captured `correlation_id`.  Unlike those of a fetch they
call through `listeners_.get(correlation_id)` without asking `has` first.
-/

namespace CapyAmqp

open Lib

/-- The callbacks that `listen_messages` registers, with what AMQP-CPP passes to them.  For a
binding error, `formatted` is what `vsnprintf` makes of a format with more conversions than
arguments; for a delivery, `throws` is what the data handler throws, should it be invoked. -/
inductive ListenCallback
  | channelError (message : String)
  | declareError (message : String)
  | bindError (formatted : String)
  | received (message : Message) (deliveryTag : Nat) (throws : Option Thrown)
  | consumed
  | consumeError (message : String)

namespace BrokerImpl

variable {H : Type}

/-! ## Statements on a listener -/

/-- A report to the listener object `p`. -/
def reportTo (p : Ptr) (r : Report ListenData) : Stmt H := fun b =>
  match b.listening.read p with
  | none => .error .dangling
  | some o =>
      let result := o.deferred.report r
      .ok ({ b with listening := b.listening.modify p fun o => { o with deferred := result.1 } },
        [.listen p (.report r result.2)])

/-- Call a member through `listeners_.get(correlation_id)`. -/
def withListener (id : String) (p : Ptr → Stmt H) : Stmt H := fun b =>
  match b.listeners.get id with
  | none => .error .nullPointer
  | some o => p o b

/-- `listeners_.get(correlation_id)->report_…`. -/
def listenReport (id : String) (r : Report ListenData) : Stmt H :=
  withListener id fun p => reportTo p r

/-- `listeners_.get(correlation_id)->get_channel().ack(deliveryTag)`. -/
def listenAck (id : String) (deliveryTag : Nat) : Stmt H :=
  withListener id fun p b =>
    match b.listening.read p with
    | none => .error .dangling
    | some _ => .ok (b, [.listen p (.channel (.ack deliveryTag))])

/-- `report_data` inside its try block.  When the handler throws, the listener is deleted and the
process aborts. -/
def listenReportData (id : String) (data : ListenData) (throws : Option Thrown) : Stmt H :=
  withListener id fun p b =>
    match b.listening.read p with
    | none => .error .dangling
    | some o =>
        match o.deferred.dataThrows throws with
        | some thrown => .error (.abort thrown.abortText)
        | none => reportTo p (.data data) b

/-- `listeners_.del(correlation_id)`. -/
def listenDel (id : String) : Stmt H := fun b =>
  match b.listeners.get id with
  | none => .ok (b, [])
  | some p => release p { b with listeners := b.listeners.del id }

/-! ## The callbacks -/

/-- A new replay for the request, and its delivery to the data handler. -/
def listenDispatch (id : String) (message : Message) (received : Json) (throws : Option Thrown) :
    Stmt H := fun b =>
  let handler : CommitHandler :=
    { cid := message.correlationId
      replayTo := message.replyTo
      correlationId := id }
  let replay : ReplayImpl H :=
    { message := .ok .null
      commitHandler := some handler
      completeHandler := none
      destroying := false }
  let rpc : Rpc :=
    { message := received
      routingKey := message.routingKey }
  let (replays, r) := b.replays.alloc replay
  listenReportData id (.ok rpc, r) throws { b with replays := replays }

/-- A delivery is acknowledged first and decoded after that. -/
def listenReceived (codec : Codec) (thread : ThreadId) (id : String) (message : Message)
    (deliveryTag : Nat) (throws : Option Thrown) : Stmt H :=
  .seq (listenAck id deliveryTag)
    (match codec.fromMsgpack message.body with
    | .error thrown => listenReport id (.error (.broker .channelMessage thrown.listenText))
    | .ok received =>
        .seq (resetDeferred thread) (listenDispatch id message received throws))

def listenCallback (codec : Codec) (thread : ThreadId) (id : String) : ListenCallback → Stmt H
  | .channelError message => listenReport id (.error (.broker .channelMessage message))
  | .declareError message => listenReport id (.error (.broker .queueDeclaration message))
  | .bindError formatted =>
      listenReport id (.error (.broker .queueBinding ("Cappy error: " ++ formatted)))
  | .received message deliveryTag throws => listenReceived codec thread id message deliveryTag throws
  | .consumed => listenReport id .success
  | .consumeError message =>
      .all
        [resetDeferred thread,
          listenReport id (.error (.broker .queueConsuming message)),
          listenDel id]

/-! ## The callbacks of a reply's transaction -/

/-- Each transaction reports once. -/
def takeTransaction (transaction : ReplyTransaction) (p : Stmt H) : Stmt H := fun b =>
  if transaction ∈ b.transactions then
    p { b with transactions := b.transactions.erase transaction }
  else .error .disabled

def replySuccess (transaction : ReplyTransaction) : Stmt H :=
  takeTransaction transaction (deleteReplay transaction.replay)

def replyFailure (transaction : ReplyTransaction) (message : String) : Stmt H :=
  takeTransaction transaction
    (.seq (listenReport transaction.correlationId (.error (.broker .publish message)))
      (deleteReplay transaction.replay))

/-! ## `listen_messages` and the client's reference -/

/-- The operations that `listen_messages` issues on the listener's channel. -/
def listenOps (exchangeName queue : String) (keys : List String) : List ChannelOp :=
  .declareQueue queue [.durable] ::
    (keys.map fun routingKey => .bindQueue exchangeName queue routingKey) ++
    [.consume queue []]

/-- A new listener under `correlationId`, with a channel on the connection of `thread`; `failed`
is the content of the uninitialised field. -/
def newListener (b : BrokerImpl H) (thread : ThreadId) (correlationId : String) (failed : Bool) :
    BrokerImpl H × Ptr :=
  let b := b.getConnection thread
  let (listening, p) := b.listening.alloc
    { deferred := .construct .ok failed
      connection := thread
      correlationId := correlationId }
  ({ b with
      listening := listening
      listeners := b.listeners.set correlationId p
      listenChannels := b.listenChannels.set correlationId thread }, p)

/-- Issue operations on the channel of the listener object `p`. -/
def listenIssue (p : Ptr) (ops : List ChannelOp) : Stmt H := fun b =>
  .ok (b, ops.map fun op => .listen p (.channel op))

/-- `listen_messages`, called on `thread`. -/
def listenMessages (thread : ThreadId) (queue : String) (keys : List String) (failed : Bool) :
    Stmt H := fun b =>
  match b.createUniqueId with
  | .error f => .error f
  | .ok (b, correlationId) =>
      let (b, p) := b.newListener thread correlationId failed
      Prog.seq (setDeferred thread (some p)) (listenIssue p (listenOps b.exchangeName queue keys)) b

section Spec

variable {b b' : BrokerImpl H} {as : List (Action H)}

theorem takeTransaction_ok_iff {transaction : ReplyTransaction} {p : Stmt H} :
    takeTransaction transaction p b = .ok (b', as) ↔
      transaction ∈ b.transactions ∧
        p { b with transactions := b.transactions.erase transaction } = .ok (b', as) := by
  unfold takeTransaction
  split
  · rename_i hmem
    simp [hmem]
  · rename_i hmem
    simp [hmem]

theorem listenMessages_ok_iff {thread : ThreadId} {queue : String} {keys : List String}
    {failed : Bool} :
    listenMessages thread queue keys failed b = .ok (b', as) ↔
      b.uniqueId ≠ 2 ^ 31 - 1 ∧
        Prog.seq
          (setDeferred thread
            (some (b.incrementId.newListener thread (idText b.uniqueId) failed).2))
          (listenIssue (b.incrementId.newListener thread (idText b.uniqueId) failed).2
            (listenOps (b.incrementId.newListener thread (idText b.uniqueId) failed).1.exchangeName
              queue keys))
          (b.incrementId.newListener thread (idText b.uniqueId) failed).1 = .ok (b', as) := by
  constructor
  · intro h
    unfold listenMessages at h
    split at h
    · cases h
    · rename_i b₁ correlationId hid
      rcases createUniqueId_ok_iff.1 hid with ⟨hunique, rfl, rfl⟩
      exact ⟨hunique, h⟩
  · rintro ⟨hunique, h⟩
    have hid : b.createUniqueId = .ok (b.incrementId, idText b.uniqueId) :=
      createUniqueId_ok_iff.2 ⟨hunique, rfl, rfl⟩
    simp only [listenMessages, hid]
    exact h

end Spec

/-- The client registers a handler through the reference that `listen_messages` returned. -/
def listenRegister (p : Ptr) (r : Registration H) : Stmt H := fun b =>
  match b.listening.read p with
  | none => .error .dangling
  | some _ =>
      .ok ({ b with
              listening := b.listening.modify p fun o =>
                { o with deferred := o.deferred.register r } }, [])

/-! ## `ConnectionHandler` -/

/-- Report to the listener in the slot of the connection of `thread`, if there is one. -/
def handlerReport (thread : ThreadId) (e : Error) : Stmt H := fun b =>
  match b.connections.get thread with
  | none => .error .disabled
  | some connection =>
      match connection.deferred with
      | none => .ok (b, [])
      | some p => reportTo p (.error e) b

/-- `ConnectionHandler::onError`. -/
def onConnectionError (thread : ThreadId) (message : String) : Stmt H :=
  handlerReport thread (.broker .connection message)

/-- `ConnectionHandler::onLost`. -/
def onConnectionLost (thread : ThreadId) : Stmt H :=
  handlerReport thread (.broker .connectionLost "connection lost")

/-! ## What the statements ask for and do -/

section Spec

variable {b b' : BrokerImpl H} {as : List (Action H)} {p : Ptr} {id : String} {thread : ThreadId}

theorem reportTo_ok_iff {r : Report ListenData} :
    reportTo p r b = .ok (b', as) ↔
      ∃ o, b.listening.read p = some o ∧
        b' = { b with
          listening := b.listening.modify p fun o' =>
            { o' with deferred := (o.deferred.report r).1 } } ∧
        as = [.listen p (.report r (o.deferred.report r).2)] := by
  unfold reportTo
  cases b.listening.read p with
  | none => simp
  | some o => simpa using and_congr eq_comm eq_comm

theorem withListener_ok_iff {f : Ptr → Stmt H} :
    withListener id f b = .ok (b', as) ↔
      ∃ q, b.listeners.get id = some q ∧ f q b = .ok (b', as) := by
  unfold withListener
  cases b.listeners.get id <;> simp

theorem listenAck_ok_iff {deliveryTag : Nat} :
    listenAck id deliveryTag b = .ok (b', as) ↔
      ∃ q o, b.listeners.get id = some q ∧ b.listening.read q = some o ∧ b' = b ∧
        as = [.listen q (.channel (.ack deliveryTag))] := by
  refine withListener_ok_iff.trans (exists_congr fun q => ?_)
  cases hread : b.listening.read q with
  | none => simp
  | some o => simpa [hread] using fun _ => and_congr eq_comm eq_comm

/-- A completed delivery is one whose data handler has not thrown. -/
theorem listenReportData_ok_iff {data : ListenData} {throws : Option Thrown} :
    listenReportData id data throws b = .ok (b', as) ↔
      ∃ q o, b.listeners.get id = some q ∧ b.listening.read q = some o ∧
        o.deferred.dataThrows throws = none ∧ reportTo q (.data data) b = .ok (b', as) := by
  refine withListener_ok_iff.trans (exists_congr fun q => ?_)
  cases hread : b.listening.read q with
  | none => simp
  | some o => cases hthrows : o.deferred.dataThrows throws <;> simp [hthrows]

theorem listenDel_ok_iff :
    listenDel id b = .ok (b', as) ↔
      (b.listeners.get id = none ∧ b' = b ∧ as = []) ∨
        ∃ q, b.listeners.get id = some q ∧
          release q { b with listeners := b.listeners.del id } = .ok (b', as) := by
  unfold listenDel
  cases b.listeners.get id with
  | none => simpa using fun _ => eq_comm
  | some q => simp

/-- A delivery that completes is acknowledged; then the decoding's error is reported, or the slot of
the thread's connection is emptied and the request dispatched. -/
theorem listenReceived_ok_iff {codec : Codec} {message : Message} {deliveryTag : Nat}
    {throws : Option Thrown} :
    listenReceived codec thread id message deliveryTag throws b = .ok (b', as) ↔
      ∃ b₁ bs cs, listenAck id deliveryTag b = .ok (b₁, bs) ∧ as = bs ++ cs ∧
        ((∃ thrown, codec.fromMsgpack message.body = .error thrown ∧
            listenReport id (.error (.broker .channelMessage thrown.listenText)) b₁ =
              .ok (b', cs)) ∨
          ∃ received b₂ ds es, codec.fromMsgpack message.body = .ok received ∧
            resetDeferred thread b₁ = .ok (b₂, ds) ∧
            listenDispatch id message received throws b₂ = .ok (b', es) ∧ cs = ds ++ es) := by
  refine Prog.seq_ok_iff.trans (exists_congr fun b₁ => exists_congr fun bs => exists_congr fun cs => ?_)
  refine and_congr_right fun _ => and_comm.trans (and_congr_right fun _ => ?_)
  cases hdecode : codec.fromMsgpack message.body with
  | error thrown => simp
  | ok received =>
      simp only [Prog.seq_ok_iff]
      constructor
      · rintro ⟨b₂, ds, es, hreset, hdispatch, hcs⟩
        exact Or.inr ⟨received, b₂, ds, es, rfl, hreset, hdispatch, hcs⟩
      · rintro (⟨thrown, herror, _⟩ | ⟨received', b₂, ds, es, hvalue, hreset, hdispatch, hcs⟩)
        · cases herror
        · cases hvalue
          exact ⟨b₂, ds, es, hreset, hdispatch, hcs⟩

theorem listenRegister_ok_iff {r : Registration H} :
    listenRegister p r b = .ok (b', as) ↔
      ∃ o, b.listening.read p = some o ∧
        b' = { b with
          listening := b.listening.modify p fun o =>
            { o with deferred := o.deferred.register r } } ∧
        as = [] := by
  unfold listenRegister
  cases b.listening.read p with
  | none => simp
  | some o => simpa using fun _ => eq_comm

theorem handlerReport_ok_iff {e : Error} :
    handlerReport thread e b = .ok (b', as) ↔
      ∃ connection, b.connections.get thread = some connection ∧
        ((connection.deferred = none ∧ b' = b ∧ as = []) ∨
          ∃ q, connection.deferred = some q ∧ reportTo q (.error e) b = .ok (b', as)) := by
  unfold handlerReport
  cases b.connections.get thread with
  | none => simp
  | some connection =>
      cases hslot : connection.deferred with
      | none => simpa [hslot] using fun _ => eq_comm
      | some q => simp [hslot]

end Spec

end BrokerImpl

end CapyAmqp
