import CapyAmqp.Broker.State

/-!
# Fetch — `fetch_message` and its callbacks

The callbacks of a fetch share the captured `correlation_id` and look the fetcher up under it
each time.  A body that cannot be decoded is reported as an error, and the callback then goes on
to `report_data` with the default value of `received`, which is null.
-/

namespace CapyAmqp

open Lib

/-- The callbacks that `fetch_message` registers, with what AMQP-CPP passes to them.  For a
delivery, `throws` is what the data handler throws, should it be invoked. -/
inductive FetchCallback
  | declared (name : String)
  | declareError (message : String)
  | commitError (message : String)
  | received (body : Bytes) (throws : Option Thrown)
  | consumed
  | consumeError (message : String)

/-- The data handler, should the callback invoke it, returns normally. -/
def FetchCallback.Returns : FetchCallback → Prop
  | .received _ throws => throws = none
  | _ => True

namespace BrokerImpl

variable {H : Type}

/-! ## Statements on a fetcher -/

/-- `fetchers_.get(correlation_id)->report_…`. -/
def fetchReport (id : String) (r : Report FetchData) : Stmt H := fun b =>
  match b.fetchers.get id with
  | none => .error .nullPointer
  | some o =>
      let result := o.deferred.report r
      .ok ({ b with fetchers := b.fetchers.set id { o with deferred := result.1 } },
        [.fetch id (.report r result.2)])

/-- `report_data` inside its try block; a handler that throws ends the process. -/
def fetchReportData (id : String) (payload : FetchData) (throws : Option Thrown) : Stmt H := fun b =>
  match b.fetchers.get id with
  | none => .error .nullPointer
  | some o =>
      match o.deferred.dataThrows throws with
      | some thrown => .error (.abort thrown.abortText)
      | none => fetchReport id (.data payload) b

/-- `fetchers_.del(correlation_id)`: the table is the only owner, so the fetcher is destroyed. -/
def fetchDel (id : String) : Stmt H := fun b =>
  match b.fetchers.get id with
  | none => .ok (b, [])
  | some o =>
      .ok ({ b with fetchers := b.fetchers.del id }, [.fetch id (.destroyed o.deferred.destroy)])

/-- `if (fetchers_.has(correlation_id))`. -/
def ifFetching (id : String) (p : Stmt H) : Stmt H := fun b =>
  if b.fetchers.has id then p b else .ok (b, [])

/-- Operations on the channel of a fetcher. -/
def fetchChannel (id : String) (ops : List ChannelOp) : Stmt H := fun b =>
  match b.fetchers.get id with
  | none => .error .nullPointer
  | some _ => .ok (b, ops.map fun op => .fetch id (.channel op))

/-! ## The callbacks -/

/-- The envelope of a request. -/
def fetchEnvelope (codec : Codec) (id name : String) (message : Json) : Envelope :=
  { body := codec.toMsgpack message
    deliveryMode := 2
    correlationId := id
    replyTo := name }

/-- What is issued on the channel once the reply queue `name` has been declared. -/
def fetchOps (codec : Codec) (exchangeName id name : String) (closure : FetchClosure) :
    List ChannelOp :=
  [.startTransaction,
    .publish exchangeName closure.routingKey (fetchEnvelope codec id name closure.message)
      [.autodelete, .mandatory],
    .commitTransaction,
    .consume name [.noack]]

def fetchDeclared (codec : Codec) (id : String) (closure : FetchClosure) (name : String) : Stmt H :=
  ifFetching id fun b =>
    fetchChannel id (fetchOps codec b.exchangeName id name closure) b

def fetchReceived (codec : Codec) (id : String) (body : Bytes) (throws : Option Thrown) : Stmt H :=
  match codec.fromMsgpack body with
  | .ok received =>
      .all
        [ifFetching id (fetchReportData id (.ok received) throws),
          ifFetching id (fetchDel id)]
  | .error thrown =>
      -- no return after the catch clauses: `received` is still null
      .all
        [ifFetching id (fetchReport id (.error (.broker .dataResponse thrown.fetchText))),
          ifFetching id (fetchReportData id (.ok .null) throws),
          ifFetching id (fetchDel id)]

/-- The error callbacks of `declareQueue` and `consume`. -/
def fetchFail (id : String) (code : BrokerError) (message : String) : Stmt H :=
  ifFetching id
    (.all
      [fetchReport id (.error (.broker code message)),
        fetchDel id])

def fetchCallback (codec : Codec) (id : String) (closure : FetchClosure) :
    FetchCallback → Stmt H
  | .declared name => fetchDeclared codec id closure name
  | .declareError message => fetchFail id .queueDeclaration message
  | .commitError message => ifFetching id (fetchReport id (.error (.broker .publish message)))
  | .received body throws => fetchReceived codec id body throws
  | .consumed => ifFetching id (fetchReport id .success)
  | .consumeError message => fetchFail id .dataResponse message

/-! ## `fetch_message` and the client's reference -/

/-- A new fetcher under `correlationId`, with a channel on the connection of `thread`; `failed`
is the content of the uninitialised field. -/
def newFetcher (b : BrokerImpl H) (thread : ThreadId) (correlationId : String)
    (closure : FetchClosure) (failed : Bool) : BrokerImpl H :=
  let b := b.getConnection thread
  let fetcher : DeferredFetching H :=
    { deferred := .construct .ok failed
      connection := thread }
  { b with
    fetchers := b.fetchers.set correlationId fetcher
    fetchClosures := b.fetchClosures.set correlationId closure }

/-- `fetch_message`, called on `thread`. -/
def fetchMessage (thread : ThreadId) (message : Json) (routingKey : String) (failed : Bool) :
    Stmt H := fun b =>
  match b.createUniqueId with
  | .error f => .error f
  | .ok (b, correlationId) =>
      let closure : FetchClosure :=
        { message := message
          routingKey := routingKey }
      .ok (b.newFetcher thread correlationId closure failed,
        [.fetch correlationId (.channel (.declareQueue "" [.exclusive, .autodelete]))])

/-- The client registers a handler through the reference that `fetch_message` returned. -/
def fetchRegister (id : String) (r : Registration H) : Stmt H := fun b =>
  match b.fetchers.get id with
  | none => .error .dangling
  | some o =>
      .ok ({ b with fetchers := b.fetchers.set id { o with deferred := o.deferred.register r } }, [])

section Spec

variable {b b' : BrokerImpl H} {as : List (Action H)} {thread : ThreadId} {message : Json}
  {routingKey id : String} {failed : Bool} {r : Registration H}

theorem fetchMessage_ok_iff :
    fetchMessage thread message routingKey failed b = .ok (b', as) ↔
      b.uniqueId ≠ 2 ^ 31 - 1 ∧
        b' = b.incrementId.newFetcher thread (idText b.uniqueId)
          { message := message, routingKey := routingKey } failed ∧
        as = [.fetch (idText b.uniqueId)
          (.channel (.declareQueue "" [.exclusive, .autodelete]))] := by
  constructor
  · intro h
    unfold fetchMessage at h
    split at h
    · cases h
    · rename_i b₁ correlationId hid
      rcases createUniqueId_ok_iff.1 hid with ⟨hunique, rfl, rfl⟩
      cases h
      exact ⟨hunique, rfl, rfl⟩
  · rintro ⟨hunique, rfl, rfl⟩
    have hid : b.createUniqueId = .ok (b.incrementId, idText b.uniqueId) :=
      createUniqueId_ok_iff.2 ⟨hunique, rfl, rfl⟩
    simp only [fetchMessage, hid]

theorem fetchRegister_ok_iff :
    fetchRegister id r b = .ok (b', as) ↔
      ∃ o, b.fetchers.get id = some o ∧
        b' = { b with fetchers := b.fetchers.set id { o with deferred := o.deferred.register r } } ∧
        as = [] := by
  unfold fetchRegister
  cases b.fetchers.get id with
  | none => simp
  | some o => simp [eq_comm]

end Spec

end BrokerImpl

end CapyAmqp
