import CapyAmqp.Broker.State

/-!
# Replay — the replay object and the handler that commits it

`ReplayImpl` is created for each decoded request and handed to the data handler as a raw
pointer.  `commit` runs the commit handler, which publishes the reply in a transaction of its
own; the callbacks of that transaction delete the replay.

The destructor runs the complete handler when there is one.  While that handler runs, its code
may still call the replay, so deleting takes two steps then: the handler is invoked, and the
object goes when it returns (`replayDestroyed`).
-/

namespace CapyAmqp

open Lib

/-- What the code that holds a replay can do with it. -/
inductive ReplayCall (H : Type)
  | setMessage (message : Payload)
  | onComplete (handler : H)
  | commit

/-! ## The reply's body -/

/-- `{"error", {{"code", code}, {"message", message}}}`. -/
def replyErrorJson (code : Int) (message : String) : Json :=
  .array
    [.string "error",
      .object [("code", .number code), ("message", .string message)]]

/-- What the commit handler leaves in `error_json`. -/
def replyError : Payload → Json
  | .error e => replyErrorJson e.value e.message
  | .ok value =>
      if value.empty then replyErrorJson BrokerError.emptyReplay.toInt "worker replay is empty"
      else .null

/-- The value that is encoded: `error_json.empty() ? r->message.value() : error_json`. -/
def replyJson (message : Payload) : Json :=
  if (replyError message).empty then
    match message with
    | .ok value => value
    | .error _ => .null
  else replyError message

namespace BrokerImpl

variable {H : Type}

/-! ## `commit` -/

/-- The operations on the channel that the commit handler makes. -/
def replyOps (codec : Codec) (message : Payload) (h : CommitHandler) : List ChannelOp :=
  [.startTransaction,
    .publish "" h.replayTo
      { body := codec.toMsgpack (replyJson message)
        correlationId := h.cid } [],
    .commitTransaction]

/-- The handler that `listen_messages` passes to `set_commit`, called on `thread`. -/
def runCommitHandler (codec : Codec) (thread : ThreadId) (r : Ptr) (message : Payload)
    (h : CommitHandler) : Stmt H := fun b =>
  let b := b.getConnection thread
  let transaction : ReplyTransaction :=
    { replay := r
      channel := b.nextChannel
      correlationId := h.correlationId }
  .ok ({ b with
          nextChannel := b.nextChannel + 1
          transactions := transaction :: b.transactions },
    (replyOps codec message h).map fun op => .replay r (.channel op))

/-- Change a live replay. -/
def modifyReplay (r : Ptr) (f : ReplayImpl H → ReplayImpl H) : Stmt H := fun b =>
  .ok ({ b with replays := b.replays.modify r f }, [])

/-- `ReplayImpl::commit` clears the complete handler and leaves the commit handler. -/
def replayCommit (codec : Codec) (thread : ThreadId) (r : Ptr) (o : ReplayImpl H) : Stmt H :=
  match o.commitHandler with
  | none => .skip
  | some h =>
      .all
        [runCommitHandler codec thread r o.message h,
          modifyReplay r fun o => { o with completeHandler := none }]

/-- A call through the pointer. -/
def replayCall (codec : Codec) (thread : ThreadId) (r : Ptr) (call : ReplayCall H) : Stmt H :=
  fun b =>
    match b.replays.read r with
    | none => .error .dangling
    | some o =>
        match call with
        | .setMessage message => modifyReplay r (fun o => { o with message := message }) b
        | .onComplete handler => modifyReplay r (fun o => { o with completeHandler := some handler }) b
        | .commit => replayCommit codec thread r o b

/-! ## The destructor -/

/-- `delete r`. -/
def deleteReplay (r : Ptr) : Stmt H := fun b =>
  match b.replays.read r with
  | none => .error .doubleDelete
  | some o =>
      if o.destroying then .error .doubleDelete
      else
        match o.completeHandler with
        | none => .ok ({ b with replays := b.replays.free r }, [.replay r .deleted])
        | some handler =>
            .ok ({ b with replays := b.replays.modify r fun o => { o with destroying := true } },
              [.replay r (.completed handler)])

/-- The complete handler returns to the destructor. -/
def replayDestroyed (r : Ptr) : Stmt H := fun b =>
  match b.replays.read r with
  | none => .error .disabled
  | some o =>
      if o.destroying then .ok ({ b with replays := b.replays.free r }, [.replay r .deleted])
      else .error .disabled

section Spec

variable {b b' : BrokerImpl H} {as : List (Action H)} {r : Ptr}

/-- A call that returns goes to a live replay. -/
theorem replayCall_ok_iff {codec : Codec} {thread : ThreadId} {call : ReplayCall H} :
    replayCall codec thread r call b = .ok (b', as) ↔
      ∃ o, b.replays.read r = some o ∧
        match call with
        | .setMessage message => modifyReplay r (fun o => { o with message := message }) b = .ok (b', as)
        | .onComplete handler =>
            modifyReplay r (fun o => { o with completeHandler := some handler }) b = .ok (b', as)
        | .commit => replayCommit codec thread r o b = .ok (b', as) := by
  unfold replayCall
  cases b.replays.read r with
  | none => simp
  | some o => cases call <;> simp

/-- The deletion of a live replay ends at once, or it waits for the complete handler. -/
theorem deleteReplay_ok_iff :
    deleteReplay r b = .ok (b', as) ↔
      ∃ o, b.replays.read r = some o ∧ o.destroying = false ∧
        ((o.completeHandler = none ∧ b' = { b with replays := b.replays.free r } ∧
            as = [.replay r .deleted]) ∨
          ∃ handler, o.completeHandler = some handler ∧
            b' = { b with replays := b.replays.modify r fun o => { o with destroying := true } } ∧
            as = [.replay r (.completed handler)]) := by
  unfold deleteReplay
  cases b.replays.read r with
  | none => simp
  | some o =>
      cases hdestroying : o.destroying with
      | true => simp [hdestroying]
      | false =>
          cases hhandler : o.completeHandler with
          | none =>
              simpa [hdestroying, hhandler] using and_congr eq_comm eq_comm
          | some handler =>
              simpa [hdestroying, hhandler] using and_congr eq_comm eq_comm

theorem replayDestroyed_ok_iff :
    replayDestroyed r b = .ok (b', as) ↔
      ∃ o, b.replays.read r = some o ∧ o.destroying = true ∧
        b' = { b with replays := b.replays.free r } ∧ as = [.replay r .deleted] := by
  unfold replayDestroyed
  cases b.replays.read r with
  | none => simp
  | some o =>
      cases hdestroying : o.destroying with
      | true =>
          simpa [hdestroying] using and_congr eq_comm eq_comm
      | false => simp [hdestroying]

end Spec

end BrokerImpl

end CapyAmqp
