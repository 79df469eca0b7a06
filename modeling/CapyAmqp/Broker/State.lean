import CapyAmqp.Cache.Table
import CapyAmqp.Common.Payload
import CapyAmqp.Deferred
import CapyAmqp.Lib.Heap
import CapyAmqp.Lib.Prog

/-!
# State — what a broker holds, and the faults of its code

The callbacks of `broker.cc` run on shared state: the caches of fetchers, listeners and
connections, the objects these own, the replays, and the counter of `create_unique_id`.
AMQP-CPP is outside the repository: its channels appear as the operations that are issued on
them (`ChannelOp`), and its callbacks as events that may arrive once they have been registered.

* A fetcher is owned by `fetchers_` alone, so the object lives in the table.
* A listener is owned by `listeners_` and by the `deferred` slot of at most one connection; it
  lives on a heap and is destroyed when the last owner lets go.
* A connection is owned by `connections_` and belongs to one thread, which identifies it.
-/

namespace CapyAmqp

open Lib

abbrev ThreadId := Nat

abbrev Ptr := Nat

/-- Why the model stops. -/
inductive Fault
  /-- Not a step of the program: nothing that could make this call has been set up. -/
  | disabled
  /-- A member is called through a null pointer. -/
  | nullPointer
  /-- An object is used after its end. -/
  | dangling
  /-- An object is deleted again. -/
  | doubleDelete
  /-- The counter of `create_unique_id` leaves the range of `int`. -/
  | overflow
  /-- `throw_abort`. -/
  | abort (message : String)
  deriving DecidableEq, Repr

/-! ## AMQP messages and channel operations -/

/-- `AMQP::Envelope`; fields that are not set are empty. -/
structure Envelope where
  body : Bytes
  deliveryMode : Nat := 0
  correlationId : String := ""
  replyTo : String := ""

/-- `AMQP::Message`, as far as the callbacks read it. -/
structure Message where
  body : Bytes
  replyTo : String
  routingKey : String
  correlationId : String

inductive Flag
  | durable
  | exclusive
  | autodelete
  | mandatory
  | noack
  deriving DecidableEq, Repr

/-- An operation issued on a channel. -/
inductive ChannelOp
  | declareQueue (queue : String) (flags : List Flag)
  | bindQueue (exchange queue routingKey : String)
  | startTransaction
  | publish (exchange routingKey : String) (envelope : Envelope) (flags : List Flag)
  | commitTransaction
  | consume (queue : String) (flags : List Flag)
  | ack (deliveryTag : Nat)

/-! ## Objects -/

/-- The parameters of a fetcher's data handler. -/
abbrev FetchData := Payload

/-- The parameters of a listener's data handler: the request and the pointer to its replay. -/
abbrev ListenData := Request × Ptr

/-- `DeferredFetching`; its channel is on the connection of the thread that made it. -/
structure DeferredFetching (H : Type) where
  deferred : Deferred H FetchData
  connection : ThreadId

/-- `DeferredListening`, with the id under which `listeners_` holds it. -/
structure DeferredListening (H : Type) where
  deferred : Deferred H ListenData
  connection : ThreadId
  correlationId : String

/-- `Connection`: what the code reads of it is the slot `handler_->deferred`. -/
structure Connection where
  deferred : Option Ptr

/-- The variables that the commit handler of a replay captures. -/
structure CommitHandler where
  cid : String
  replayTo : String
  correlationId : String
  deriving DecidableEq

/-- `ReplayImpl`; `destroying` says that its destructor is running the complete handler. -/
structure ReplayImpl (H : Type) where
  message : Payload
  commitHandler : Option CommitHandler
  completeHandler : Option H
  destroying : Bool

/-- The variables that the callbacks of a reply's transaction capture. -/
structure ReplyTransaction where
  replay : Ptr
  channel : Nat
  correlationId : String
  deriving DecidableEq

/-- The variables that the callbacks of a fetch capture. -/
structure FetchClosure where
  message : Json
  routingKey : String

/-! ## The broker -/

/-- `BrokerImpl`, with the objects behind its pointers and the callbacks that are registered. -/
structure BrokerImpl (H : Type) where
  exchangeName : String
  connections : Table ThreadId Connection
  fetchers : Table String (DeferredFetching H)
  listeners : Table String Ptr
  /-- The listener objects. -/
  listening : Heap (DeferredListening H)
  /-- The replays that have not been deleted. -/
  replays : Heap (ReplayImpl H)
  /-- The static counter of `create_unique_id`. -/
  uniqueId : Nat
  nextChannel : Nat
  /-- What the callbacks of each fetch have captured. -/
  fetchClosures : Table String FetchClosure
  /-- The connection whose channel has the callbacks of each listener. -/
  listenChannels : Table String ThreadId
  /-- The reply transactions that have not reported yet. -/
  transactions : List ReplyTransaction

/-- What the code does on a replay. -/
inductive ReplayAction (H : Type)
  | completed (handler : H)
  | channel (op : ChannelOp)
  | deleted

/-- An observable action: on a fetcher, on a listener object, on a replay, or on the channel that
`publish_message` makes for itself. -/
inductive Action (H : Type)
  | fetch (id : String) (a : ObjectAction ChannelOp H FetchData)
  | listen (p : Ptr) (a : ObjectAction ChannelOp H ListenData)
  | replay (r : Ptr) (a : ReplayAction H)
  | publisher (op : ChannelOp)

namespace BrokerImpl

variable {H : Type}

/-- A statement of the broker's code. -/
abbrev Stmt (H : Type) := Prog (BrokerImpl H) (Action H) Fault

/-- `BrokerImpl::BrokerImpl`, in a process whose counter stands at 1. -/
def construct (exchangeName : String) : BrokerImpl H :=
  { exchangeName := exchangeName
    connections := Table.empty
    fetchers := Table.empty
    listeners := Table.empty
    listening := ∅
    replays := ∅
    uniqueId := 1
    nextChannel := 0
    fetchClosures := Table.empty
    listenChannels := Table.empty
    transactions := [] }

/-! ## `create_unique_id` -/

/-- The text that `std::ostream` prints for the counter. -/
def idText (n : Nat) : String :=
  toString n

/-- Different values of the counter print differently: the text can be read back. -/
theorem idText_injective {m n : Nat} (h : idText m = idText n) : m = n := by
  have hread : ∀ k, Nat.ofDigitChars 10 (idText k).toList 0 = k := by
    intro k
    have hlist : (idText k).toList = Nat.toDigits 10 k := Nat.toList_repr
    rw [hlist, Nat.ofDigitChars_ten_toDigits]
  rw [← hread m, h, hread n]

def incrementId (b : BrokerImpl H) : BrokerImpl H :=
  { b with uniqueId := b.uniqueId + 1 }

/-- Increment the counter and print its old value; `int` has 32 bits and its overflow is
undefined. -/
def createUniqueId (b : BrokerImpl H) : Except Fault (BrokerImpl H × String) :=
  if b.uniqueId = 2 ^ 31 - 1 then .error .overflow
  else .ok (b.incrementId, idText b.uniqueId)

theorem createUniqueId_ok_iff {b b' : BrokerImpl H} {id : String} :
    b.createUniqueId = .ok (b', id) ↔
      b.uniqueId ≠ 2 ^ 31 - 1 ∧ b' = b.incrementId ∧ id = idText b.uniqueId := by
  unfold createUniqueId
  split
  · simp_all
  · simp_all [eq_comm]

/-! ## `ConnectionCache` -/

/-- `handler_->deferred` of the connection of `thread`. -/
def slot (b : BrokerImpl H) (thread : ThreadId) : Option Ptr :=
  (b.connections.get thread).bind Connection.deferred

/-- `ConnectionCache::new_channel` and `get_conection` make the thread's connection on demand. -/
def getConnection (b : BrokerImpl H) (thread : ThreadId) : BrokerImpl H :=
  if b.connections.has thread then b
  else
    { b with
      connections := b.connections.set thread { deferred := none } }

/-- Assign `handler_->deferred` of the connection of `thread`. -/
def assignSlot (b : BrokerImpl H) (thread : ThreadId) (p : Option Ptr) : BrokerImpl H :=
  let b := b.getConnection thread
  { b with
    connections := b.connections.set thread { deferred := p } }

/-- An owner has let go of the listener `p`: without another owner it is destroyed. -/
def release (p : Ptr) : Stmt H := fun b =>
  match b.listening.read p with
  | none => .ok (b, [])
  | some o =>
      if b.listeners.get o.correlationId = some p ∨ b.slot o.connection = some p then .ok (b, [])
      else
        .ok ({ b with listening := b.listening.free p },
          [.listen p (.destroyed o.deferred.destroy)])

/-- `connections_->set_deferred` and `reset_deferred`: the old value of the slot is released. -/
def setDeferred (thread : ThreadId) (p : Option Ptr) : Stmt H := fun b =>
  match b.slot thread with
  | none => .ok (b.assignSlot thread p, [])
  | some old => release old (b.assignSlot thread p)

def resetDeferred (thread : ThreadId) : Stmt H :=
  setDeferred thread none

end BrokerImpl

end CapyAmqp
