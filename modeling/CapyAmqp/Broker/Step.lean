import CapyAmqp.Broker.Fetch
import CapyAmqp.Broker.Listen
import CapyAmqp.Lib.Run

/-!
# Step — everything that can happen to a broker

An `Event` is one atomic step: a call of the client's, a callback of AMQP-CPP's, or the return
of a complete handler.  `BrokerImpl.step` runs it, and `Lib.run` runs a list of them in the order
in which the threads take their steps.
-/

namespace CapyAmqp

open Lib

inductive Event (H : Type)
  /-- Another broker of the process takes an id. -/
  | uniqueId
  | fetchMessage (thread : ThreadId) (message : Json) (routingKey : String) (failed : Bool)
  | fetchRegister (id : String) (r : Registration H)
  | fetchCallback (id : String) (callback : FetchCallback)
  | listenMessages (thread : ThreadId) (queue : String) (keys : List String) (failed : Bool)
  | listenRegister (p : Ptr) (r : Registration H)
  | listenCallback (thread : ThreadId) (id : String) (callback : ListenCallback)
  | replayCall (thread : ThreadId) (r : Ptr) (call : ReplayCall H)
  | replayDestroyed (r : Ptr)
  | replySuccess (transaction : ReplyTransaction)
  | replyFailure (transaction : ReplyTransaction) (message : String)
  | connectionError (thread : ThreadId) (message : String)
  | connectionLost (thread : ThreadId)
  | publishMessage (thread : ThreadId) (message : Json) (routingKey : String)

namespace BrokerImpl

variable {H : Type}

def takeUniqueId : Stmt H := fun b =>
  match b.createUniqueId with
  | .error f => .error f
  | .ok (b, _) => .ok (b, [])

/-- The operations that `publish_message` issues on a channel of its own. -/
def publishOps (codec : Codec) (exchangeName : String) (message : Json) (routingKey : String) :
    List ChannelOp :=
  [.startTransaction,
    .publish exchangeName routingKey
      { body := codec.toMsgpack message
        deliveryMode := 2 } [.autodelete, .mandatory],
    .commitTransaction]

/-- `publish_message`, up to the point where it waits for the transaction. -/
def publishMessage (codec : Codec) (thread : ThreadId) (message : Json) (routingKey : String) :
    Stmt H := fun b =>
  .ok (b.getConnection thread,
    (publishOps codec b.exchangeName message routingKey).map .publisher)

/-- A callback of a fetch exists once `fetch_message` has registered it. -/
def onFetchCallback (codec : Codec) (id : String) (callback : FetchCallback) : Stmt H := fun b =>
  match b.fetchClosures.get id with
  | none => .error .disabled
  | some closure => fetchCallback codec id closure callback b

/-- A callback of a listener exists once `listen_messages` has registered it. -/
def onListenCallback (codec : Codec) (thread : ThreadId) (id : String) (callback : ListenCallback) :
    Stmt H := fun b =>
  if b.listenChannels.has id then listenCallback codec thread id callback b else .error .disabled

theorem takeUniqueId_ok_iff {b b' : BrokerImpl H} {as : List (Action H)} :
    takeUniqueId b = .ok (b', as) ↔
      b.uniqueId ≠ 2 ^ 31 - 1 ∧ b' = b.incrementId ∧ as = [] := by
  constructor
  · intro h
    unfold takeUniqueId at h
    split at h
    · cases h
    · rename_i b₁ correlationId hid
      rcases createUniqueId_ok_iff.1 hid with ⟨hunique, rfl, rfl⟩
      cases h
      exact ⟨hunique, rfl, rfl⟩
  · rintro ⟨hunique, rfl, rfl⟩
    have hid : b.createUniqueId = .ok (b.incrementId, idText b.uniqueId) :=
      createUniqueId_ok_iff.2 ⟨hunique, rfl, rfl⟩
    simp only [takeUniqueId, hid]

theorem onListenCallback_ok_iff {codec : Codec} {thread : ThreadId} {id : String}
    {callback : ListenCallback} {b b' : BrokerImpl H} {as : List (Action H)} :
    onListenCallback codec thread id callback b = .ok (b', as) ↔
      b.listenChannels.has id = true ∧
        listenCallback codec thread id callback b = .ok (b', as) := by
  unfold onListenCallback
  cases hid : b.listenChannels.has id <;> simp

def step (codec : Codec) (b : BrokerImpl H) : Event H → Except Fault (BrokerImpl H × List (Action H))
  | .uniqueId => takeUniqueId b
  | .fetchMessage thread message routingKey failed =>
      fetchMessage thread message routingKey failed b
  | .fetchRegister id r => fetchRegister id r b
  | .fetchCallback id callback => onFetchCallback codec id callback b
  | .listenMessages thread queue keys failed => listenMessages thread queue keys failed b
  | .listenRegister p r => listenRegister p r b
  | .listenCallback thread id callback => onListenCallback codec thread id callback b
  | .replayCall thread r call => replayCall codec thread r call b
  | .replayDestroyed r => replayDestroyed r b
  | .replySuccess transaction => replySuccess transaction b
  | .replyFailure transaction message => replyFailure transaction message b
  | .connectionError thread message => onConnectionError thread message b
  | .connectionLost thread => onConnectionLost thread b
  | .publishMessage thread message routingKey => publishMessage codec thread message routingKey b

/-- A state of a broker that some run from its construction ends in. -/
def Reachable (codec : Codec) (b : BrokerImpl H) : Prop :=
  ∃ exchangeName es outs, run (step codec) (construct exchangeName) es = .ok (b, outs)

theorem Reachable.step {codec : Codec} {b b' : BrokerImpl H} {e : Event H} {as : List (Action H)}
    (h : Reachable codec b) (hstep : step codec b e = .ok (b', as)) : Reachable codec b' := by
  rcases h with ⟨exchangeName, es, outs, hrun⟩
  exact ⟨exchangeName, es ++ [e], outs ++ [as], run_concat_ok_iff.2 ⟨b, outs, as, hrun, hstep, rfl⟩⟩

end BrokerImpl

end CapyAmqp
