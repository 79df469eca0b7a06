import CapyAmqp.Broker.ReplayLife

/-!
# Traffic — what a broker exchanges with the AMQP server

The server sees a broker through the operations that it issues: the messages that it publishes
and the queues that it consumes.  `step_publication` and `step_consumption` say what a step can
send: a fetch sends its request and consumes its reply queue when the queue has been declared,
`commit` sends the reply of its replay, `publish_message` sends a message that asks for no reply,
and no other step sends anything.
-/

namespace CapyAmqp

open Lib

variable {H : Type}

/-! ## Observations -/

/-- What a message is published for. -/
inductive Purpose
  /-- The request of the fetch `id`. -/
  | request (id : String)
  /-- The commit of the replay `r`, whose message is `message` at that moment. -/
  | reply (r : Ptr) (message : Payload)
  | notice

/-- A published message. -/
structure Publication where
  purpose : Purpose
  exchange : String
  routingKey : String
  envelope : Envelope

def ChannelOp.publication (purpose : Purpose) : ChannelOp → Option Publication
  | .publish exchange routingKey envelope _ =>
      some
        { purpose := purpose
          exchange := exchange
          routingKey := routingKey
          envelope := envelope }
  | _ => none

/-- What an action publishes; `b` is the broker before the step. -/
def Action.publication (b : BrokerImpl H) : Action H → Option Publication
  | .fetch id (.channel op) => op.publication (.request id)
  | .listen _ (.channel op) => op.publication .notice
  | .replay r (.channel op) =>
      (b.replays.read r).bind fun o => op.publication (.reply r o.message)
  | .publisher op => op.publication .notice
  | _ => none

/-- The fetch and the queue that it begins to consume. -/
def Action.consumption : Action H → Option (String × String)
  | .fetch id (.channel (.consume queue _)) => some (id, queue)
  | _ => none

/-- The replay that a listener's data handler is to be called with. -/
def Action.dispatched : Action H → Option Ptr
  | .listen _ (.report (.data data) _) => some data.2
  | _ => none

/-- The replay that a report passes on. -/
def Report.dispatched : Report ListenData → List Ptr
  | .data parameters => [parameters.2]
  | _ => []

/-- The server sees nothing of an action. -/
def Action.Silent (b : BrokerImpl H) (a : Action H) : Prop :=
  a.publication b = none ∧ a.consumption = none

namespace BrokerImpl

/-! ## Silent steps -/

section Silent

variable {b : BrokerImpl H} {a : Action H}

theorem silent_of_onListener (h : a.onListener = true) : a.Silent b := by
  cases a with
  | listen p x =>
      cases x with
      | channel op =>
          cases op with
          | publish => cases h
          | _ => exact ⟨rfl, rfl⟩
      | _ => exact ⟨rfl, rfl⟩
  | _ => cases h

theorem OnListeners.silent {b₁ b₂ : BrokerImpl H} {as : List (Action H)} (h : OnListeners b₁ as b₂)
    (ha : a ∈ as) : a.Silent b :=
  silent_of_onListener (h.actions a ha)

theorem silent_deleteReplay {r : Ptr} {b₁ b₂ : BrokerImpl H} {as : List (Action H)}
    (h : deleteReplay r b₁ = .ok (b₂, as)) (ha : a ∈ as) : a.Silent b := by
  rcases deleteReplay_ok_iff.1 h with ⟨o, _, _, ⟨_, _, rfl⟩ | ⟨handler, _, _, rfl⟩⟩
  · rcases List.mem_singleton.1 ha with rfl
    exact ⟨rfl, rfl⟩
  · rcases List.mem_singleton.1 ha with rfl
    exact ⟨rfl, rfl⟩

end Silent

/-- A fetch uses its channel when its reply queue has been declared, and not again. -/
theorem channel_not_mem_callback {codec : Codec} {exchangeName id : String}
    {closure : FetchClosure} {v v' : FetchLife H} {c : FetchCallback} {xs : List (FetchAction H)}
    (h : FetchLife.callback codec exchangeName id closure v c = .ok (v', xs))
    (hc : ∀ name, c ≠ .declared name) (op : ChannelOp) : .channel op ∉ xs := by
  cases v with
  | none =>
      cases h
      simp
  | some o =>
      cases c with
      | declared name =>
          -- the callback that issues the channel operations is excluded
          exact absurd rfl (hc name)
      | received body throws =>
          rcases FetchLife.receive_ok_iff.1 h with ⟨_, ⟨_, _, _, rfl⟩ | ⟨_, _, _, _, rfl⟩⟩
          · simp
          · simp
      | _ =>
          cases h
          simp

/-- Every action of a delivery is on a listener. -/
theorem onListener_listenReceived {codec : Codec} {thread : ThreadId} {id : String}
    {message : Message} {deliveryTag : Nat} {throws : Option Thrown} {b b' : BrokerImpl H}
    {as : List (Action H)}
    (h : listenReceived codec thread id message deliveryTag throws b = .ok (b', as)) :
    ∀ a ∈ as, a.onListener = true := by
  rcases listenReceived_ok_iff.1 h with ⟨b₁, bs, cs, hack, rfl, hrest⟩
  have hbs := (onObjects_listenAck _ _ _ _ _ hack).actions
  have hcs : ∀ a ∈ cs, a.onListener = true := by
    rcases hrest with ⟨thrown, _, herror⟩ | ⟨received, b₂, ds, es, _, hreset, hdispatch, rfl⟩
    · exact (onObjects_listenReport _ _ _ _ _ herror).actions
    · have hds := (onListeners_setDeferred _ _ _ _ _ hreset).actions
      have hes := (onObjects_listenReportData _ _ _ _ _ _ hdispatch).actions
      intro a ha
      rcases List.mem_append.1 ha with ha | ha
      · exact hds a ha
      · exact hes a ha
  intro a ha
  rcases List.mem_append.1 ha with ha | ha
  · exact hbs a ha
  · exact hcs a ha

end BrokerImpl

/-- The steps in which a broker sends something. -/
def Event.sends : Event H → Bool
  | .fetchCallback _ (.declared _) => true
  | .replayCall _ _ .commit => true
  | .publishMessage .. => true
  | _ => false

namespace BrokerImpl

variable {codec : Codec} {b b' : BrokerImpl H} {e : Event H} {as : List (Action H)} {a : Action H}

theorem step_silent (he : e.sends = false) (h : step codec b e = .ok (b', as)) (ha : a ∈ as) :
    a.Silent b := by
  cases e with
  | uniqueId =>
      rcases takeUniqueId_ok_iff.1 h with ⟨_, rfl, rfl⟩
      cases ha
  | fetchMessage thread message routingKey failed =>
      rcases fetchMessage_ok_iff.1 h with ⟨_, rfl, rfl⟩
      rcases List.mem_singleton.1 ha with rfl
      exact ⟨rfl, rfl⟩
  | fetchRegister id r =>
      rcases fetchRegister_ok_iff.1 h with ⟨_, _, rfl, rfl⟩
      cases ha
  | fetchCallback id c =>
      rcases onFetchCallback_ok_iff.1 h with ⟨closure, v, xs, _, hlife, _, rfl⟩
      rcases List.mem_map.1 ha with ⟨x, hx, rfl⟩
      have hchannel := channel_not_mem_callback hlife (by rintro name rfl; cases he)
      -- of a fetch's actions only the channel operations could reach the server
      cases x with
      | channel op => exact absurd hx (hchannel op)
      | _ => exact ⟨rfl, rfl⟩
  | listenMessages thread queue keys failed =>
      rcases listenMessages_ok_iff.1 h with ⟨_, h⟩
      have hseq := Prog.ensures_seq onListeners_composes (onListeners_setDeferred _ _)
        (onListeners_of_objects (onObjects_listenIssue _ _ _ _)) _ _ _ h
      -- the deferred is reset and the listener is issued: both act on listeners only
      exact hseq.silent ha
  | listenRegister p r =>
      exact (onObjects_listenRegister _ _ _ _ _ h).toOnListeners.silent ha
  | listenCallback thread id c =>
      rcases onListenCallback_ok_iff.1 h with ⟨_, h⟩
      cases c with
      | received message deliveryTag throws =>
          exact silent_of_onListener (onListener_listenReceived h a ha)
      | consumeError message =>
          exact (onListeners_consumeError _ _ _ _ _ _ h).silent ha
      | _ =>
          exact (onObjects_listenReport _ _ _ _ _ h).toOnListeners.silent ha
  | replayCall thread r c =>
      rcases replayCall_ok_iff.1 h with ⟨o, _, h⟩
      cases c with
      | commit => cases he
      | _ =>
          cases h
          cases ha
  | replayDestroyed r =>
      rcases replayDestroyed_ok_iff.1 h with ⟨_, _, _, rfl, rfl⟩
      rcases List.mem_singleton.1 ha with rfl
      exact ⟨rfl, rfl⟩
  | replySuccess transaction =>
      rcases takeTransaction_ok_iff.1 h with ⟨_, h⟩
      exact silent_deleteReplay h ha
  | replyFailure transaction message =>
      rcases takeTransaction_ok_iff.1 h with ⟨_, h⟩
      -- the listener hears of the failure, then the replay is deleted
      rcases Prog.seq_ok_iff.1 h with ⟨b₁, bs, cs, hreport, hdelete, rfl⟩
      rcases List.mem_append.1 ha with ha | ha
      · exact (onObjects_listenReport _ _ _ _ _ hreport).toOnListeners.silent ha
      · exact silent_deleteReplay hdelete ha
  | connectionError thread message =>
      exact (onObjects_handlerReport _ _ _ _ _ h).toOnListeners.silent ha
  | connectionLost thread =>
      exact (onObjects_handlerReport _ _ _ _ _ h).toOnListeners.silent ha
  | publishMessage thread message routingKey =>
      cases he

/-! ## Steps that send -/

/-- What a step may publish. -/
inductive Publishes (codec : Codec) (b : BrokerImpl H) : Event H → Publication → Prop
  | request {id name : String} {closure : FetchClosure} (hclosure : b.fetchClosures.get id = some closure) :
      Publishes codec b (.fetchCallback id (.declared name))
        { purpose := .request id
          exchange := b.exchangeName
          routingKey := closure.routingKey
          envelope := fetchEnvelope codec id name closure.message }
  | reply {thread : ThreadId} {r : Ptr} {o : ReplayImpl H} {handler : CommitHandler}
      (hread : b.replays.read r = some o) (hhandler : o.commitHandler = some handler) :
      Publishes codec b (.replayCall thread r .commit)
        { purpose := .reply r o.message
          exchange := ""
          routingKey := handler.replayTo
          envelope :=
            { body := codec.toMsgpack (replyJson o.message)
              correlationId := handler.cid } }
  | notice {thread : ThreadId} {message : Json} {routingKey : String} :
      Publishes codec b (.publishMessage thread message routingKey)
        { purpose := .notice
          exchange := b.exchangeName
          routingKey := routingKey
          envelope :=
            { body := codec.toMsgpack message
              deliveryMode := 2 } }

/-- The channel operations of the callback that learns the name of the reply queue. -/
theorem declared_actions {id name : String}
    (h : step codec b (.fetchCallback id (.declared name)) = .ok (b', as)) (ha : a ∈ as) :
    ∃ closure op, b.fetchClosures.get id = some closure ∧ a = .fetch id (.channel op) ∧
      op ∈ fetchOps codec b.exchangeName id name closure := by
  simp only [step, onFetchCallback] at h
  split at h
  · cases h
  · rename_i closure hclosure
    simp only [fetchCallback, fetchDeclared, ifFetching] at h
    split at h
    · simp only [fetchChannel] at h
      split at h
      · cases h
      · cases h
        rcases List.mem_map.1 ha with ⟨op, hop, rfl⟩
        exact ⟨closure, op, hclosure, rfl, hop⟩
    · cases h
      cases ha

theorem step_publication (h : step codec b e = .ok (b', as)) (ha : a ∈ as) {m : Publication}
    (hm : a.publication b = some m) : Publishes codec b e m := by
  have hsilent : e.sends = true := by
    by_contra hno
    rw [(step_silent (by simpa using hno) h ha).1] at hm
    cases hm
  cases e with
  | fetchCallback id c =>
      cases c with
      | declared name =>
          -- one of the four operations is a publication, the second of the transaction
          rcases declared_actions h ha with ⟨closure, op, hclosure, rfl, hop⟩
          simp only [fetchOps, List.mem_cons, List.not_mem_nil, or_false] at hop
          rcases hop with rfl | rfl | rfl | rfl
          · cases hm
          · cases hm
            exact .request hclosure
          · cases hm
          · cases hm
      | _ => cases hsilent
  | replayCall thread r c =>
      rcases replayCall_ok_iff.1 h with ⟨o, hread, h⟩
      cases c with
      | commit =>
          cases hhandler : o.commitHandler with
          | none =>
              simp only [replayCommit, hhandler, Prog.skip_ok_iff] at h
              rw [h.2] at ha
              cases ha
          | some handler =>
              rcases replayCommit_cases hhandler h with ⟨_, _, rfl⟩
              simp only [replyOps, List.map_cons, List.map_nil, List.mem_cons, List.not_mem_nil,
                or_false] at ha
              -- of the transaction's operations only the publish in the middle reaches the server
              rcases ha with rfl | rfl | rfl
              · simp [Action.publication, ChannelOp.publication] at hm
              · simp only [Action.publication, ChannelOp.publication, hread, Option.bind_some,
                  Option.some.injEq] at hm
                rw [← hm]
                exact .reply hread hhandler
              · simp [Action.publication, ChannelOp.publication] at hm
      | _ => cases hsilent
  | publishMessage thread message routingKey =>
      cases h
      simp only [publishOps, List.map_cons, List.map_nil, List.mem_cons, List.not_mem_nil,
        or_false] at ha
      rcases ha with rfl | rfl | rfl
      · cases hm
      · cases hm
        exact .notice
      · cases hm
  | _ => cases hsilent

/-- A fetch consumes the queue that has been declared for it. -/
theorem step_consumption (h : step codec b e = .ok (b', as)) (ha : a ∈ as) {id queue : String}
    (hc : a.consumption = some (id, queue)) : e = .fetchCallback id (.declared queue) := by
  have hsilent : e.sends = true := by
    by_contra hno
    rw [(step_silent (by simpa using hno) h ha).2] at hc
    cases hc
  cases e with
  | fetchCallback id' c =>
      cases c with
      | declared name =>
          rcases declared_actions h ha with ⟨closure, op, _, rfl, hop⟩
          simp only [fetchOps, List.mem_cons, List.not_mem_nil, or_false] at hop
          rcases hop with rfl | rfl | rfl | rfl
          · cases hc
          · cases hc
          · cases hc
          · cases hc
            rfl
      | _ => cases hsilent
  | replayCall thread r c =>
      have hreplay := (onReplays_replayCall _ _ _ _ _ _ _ h).actions a ha
      cases a with
      | replay q x => cases hc
      | _ => cases hreplay
  | publishMessage thread message routingKey =>
      cases h
      rcases List.mem_map.1 ha with ⟨op, _, rfl⟩
      cases hc
  | _ => cases hsilent

/-! ## The commit handlers of the replays -/

/-- No replay is made, and the commit handlers stay as they are. -/
structure KeepsHandlers (b b' : BrokerImpl H) : Prop where
  -- pointers are never given out twice, so with this `next` nothing has been allocated
  next : b'.replays.next = b.replays.next
  handler : ∀ r o', b'.replays.read r = some o' →
    ∃ o, b.replays.read r = some o ∧ o'.commitHandler = o.commitHandler

theorem keepsHandlers_of_eq (h : b'.replays = b.replays) :
    KeepsHandlers b b' := by
  refine ⟨by rw [h], ?_⟩
  intro r o' hread
  rw [h] at hread
  exact ⟨o', hread, rfl⟩

theorem keepsHandlers_modify {r : Ptr} {f : ReplayImpl H → ReplayImpl H}
    (h : b'.replays = b.replays.modify r f) (hf : ∀ o, (f o).commitHandler = o.commitHandler) :
    KeepsHandlers b b' := by
  refine ⟨by rw [h]; rfl, ?_⟩
  intro q o' hread
  rw [h] at hread
  exact handlersFrom_modify b r hf q o' hread

theorem keepsHandlers_free {r : Ptr} (h : b'.replays = b.replays.free r) : KeepsHandlers b b' := by
  refine ⟨by rw [h]; rfl, ?_⟩
  intro q o' hread
  rw [h] at hread
  exact handlersFrom_free b r q o' hread

theorem keepsHandlers_deleteReplay {r : Ptr} {b₁ b₂ : BrokerImpl H}
    (h : deleteReplay r b₁ = .ok (b₂, as)) : KeepsHandlers b₁ b₂ := by
  rcases deleteReplay_ok_iff.1 h with ⟨o, _, _, ⟨_, rfl, _⟩ | ⟨handler, _, rfl, _⟩⟩
  · exact keepsHandlers_free rfl
  · exact keepsHandlers_modify rfl fun _ => rfl

/-- Only the delivery of a request makes a replay. -/
theorem step_keepsHandlers (he : ∀ thread id message deliveryTag throws,
      e ≠ .listenCallback thread id (.received message deliveryTag throws))
    (h : step codec b e = .ok (b', as)) : KeepsHandlers b b' := by
  cases e with
  | listenMessages thread queue keys failed =>
      rcases listenMessages_ok_iff.1 h with ⟨_, h⟩
      have hget := (aside_getConnection b.incrementId thread).replays
      have hseq := Prog.ensures_seq onListeners_composes (onListeners_setDeferred _ _)
        (onListeners_of_objects (onObjects_listenIssue _ _ _ _)) _ _ _ h
      exact keepsHandlers_of_eq (hseq.replays.trans hget)
  | listenRegister p r =>
      exact keepsHandlers_of_eq (onObjects_listenRegister _ _ _ _ _ h).replays
  | listenCallback thread id c =>
      rcases onListenCallback_ok_iff.1 h with ⟨_, h⟩
      cases c with
      | received message deliveryTag throws =>
          -- the delivery of a request, which is excluded
          exact absurd rfl (he thread id message deliveryTag throws)
      | consumeError message =>
          exact keepsHandlers_of_eq (onListeners_consumeError _ _ _ _ _ _ h).replays
      | _ =>
          exact keepsHandlers_of_eq (onObjects_listenReport _ _ _ _ _ h).replays
  | replayCall thread r c =>
      rcases replayCall_ok_iff.1 h with ⟨o, _, h⟩
      cases c with
      | setMessage message =>
          cases h
          exact keepsHandlers_modify rfl fun _ => rfl
      | onComplete handler =>
          cases h
          exact keepsHandlers_modify rfl fun _ => rfl
      | commit =>
          -- a commit clears the complete handler only
          cases hhandler : o.commitHandler with
          | none =>
              simp only [replayCommit, hhandler, Prog.skip_ok_iff] at h
              exact keepsHandlers_of_eq (by rw [h.1])
          | some handler =>
              exact keepsHandlers_modify (replayCommit_cases hhandler h).1 fun _ => rfl
  | replayDestroyed r =>
      rcases replayDestroyed_ok_iff.1 h with ⟨_, _, _, rfl, rfl⟩
      exact keepsHandlers_free rfl
  | replySuccess transaction =>
      rcases takeTransaction_ok_iff.1 h with ⟨_, h⟩
      have hdelete := keepsHandlers_deleteReplay h
      exact ⟨hdelete.next, hdelete.handler⟩
  | replyFailure transaction message =>
      rcases takeTransaction_ok_iff.1 h with ⟨_, h⟩
      rcases Prog.seq_ok_iff.1 h with ⟨b₁, bs, cs, hreport, hdelete, rfl⟩
      have hreplays : b₁.replays = b.replays := (onObjects_listenReport _ _ _ _ _ hreport).replays
      -- the report in front of the deletion leaves the replays alone
      have hkept := keepsHandlers_deleteReplay hdelete
      refine ⟨by rw [hkept.next, hreplays], ?_⟩
      rw [← hreplays]
      exact hkept.handler
  | connectionError thread message =>
      exact keepsHandlers_of_eq (onObjects_handlerReport _ _ _ _ _ h).replays
  | connectionLost thread =>
      exact keepsHandlers_of_eq (onObjects_handlerReport _ _ _ _ _ h).replays
  | _ =>
      exact keepsHandlers_of_eq (step_aside rfl h).replays

theorem dispatched_setDeferred {thread : ThreadId} {p : Option Ptr}
    (h : setDeferred thread p b = .ok (b', as)) : as.filterMap Action.dispatched = [] := by
  unfold setDeferred at h
  split at h
  · cases h
    rfl
  · rcases release_cases h with ⟨_, rfl⟩ | ⟨o, _, _, _, _, rfl⟩ <;> rfl

theorem dispatched_listenAck {id : String} {deliveryTag : Nat}
    (h : listenAck id deliveryTag b = .ok (b', as)) : as.filterMap Action.dispatched = [] := by
  rcases listenAck_ok_iff.1 h with ⟨q, o, _, _, rfl, rfl⟩
  rfl

theorem dispatched_reportTo {p : Ptr} {r : Report ListenData}
    (h : reportTo p r b = .ok (b', as)) :
    as.filterMap Action.dispatched = r.dispatched := by
  rcases reportTo_ok_iff.1 h with ⟨o, _, rfl, rfl⟩
  cases r <;> rfl

theorem dispatched_listenReport {id : String} {r : Report ListenData}
    (h : listenReport id r b = .ok (b', as)) :
    as.filterMap Action.dispatched = r.dispatched := by
  rcases withListener_ok_iff.1 h with ⟨q, _, h⟩
  exact dispatched_reportTo h

theorem dispatched_listenReportData {id : String} {data : ListenData} {throws : Option Thrown}
    (h : listenReportData id data throws b = .ok (b', as)) :
    as.filterMap Action.dispatched = [data.2] := by
  rcases listenReportData_ok_iff.1 h with ⟨q, o, _, _, _, h⟩
  exact dispatched_reportTo h

/-- A delivery makes no replay, or it makes one that is to reply to the queue the message names,
and dispatches it. -/
theorem delivery_replays {thread : ThreadId} {id : String} {message : Message} {deliveryTag : Nat}
    {throws : Option Thrown}
    (h : step codec b (.listenCallback thread id (.received message deliveryTag throws)) =
      .ok (b', as)) :
    (b'.replays = b.replays ∧ as.filterMap Action.dispatched = []) ∨
      ∃ replay handler, b'.replays = (b.replays.alloc replay).1 ∧
        replay.commitHandler = some handler ∧ handler.replayTo = message.replyTo ∧
        as.filterMap Action.dispatched = [b.replays.next] := by
  rcases onListenCallback_ok_iff.1 h with ⟨_, h⟩
  rcases listenReceived_ok_iff.1 h with ⟨b₁, bs, cs, hack, rfl, hrest⟩
  have hb₁ : b₁.replays = b.replays := (onObjects_listenAck _ _ _ _ _ hack).replays
  rw [List.filterMap_append, dispatched_listenAck hack, List.nil_append]
  rcases hrest with ⟨thrown, _, herror⟩ | ⟨received, b₂, ds, es, _, hreset, hdispatch, rfl⟩
  · -- a body that does not decode is reported to the listener, without a replay
    have hb' : b'.replays = b₁.replays := (onObjects_listenReport _ _ _ _ _ herror).replays
    exact Or.inl ⟨hb'.trans hb₁, dispatched_listenReport herror⟩
  · have hb₂ : b₂.replays = b.replays :=
      (onListeners_setDeferred _ _ _ _ _ hreset).replays.trans hb₁
    -- the replay as `ReplayImpl` is constructed with the captured correlation id and reply queue
    let handler : CommitHandler :=
      { cid := message.correlationId
        replayTo := message.replyTo
        correlationId := id }
    let replay : ReplayImpl H :=
      { message := .ok .null
        commitHandler := some handler
        completeHandler := none
        destroying := false }
    have hb' : b'.replays = (b₂.replays.alloc replay).1 :=
      (onObjects_listenReportData _ _ _ _ _ _ hdispatch).replays
    have hes := dispatched_listenReportData hdispatch
    rw [List.filterMap_append, dispatched_setDeferred hreset, List.nil_append, hes]
    refine Or.inr ⟨replay, handler, by rw [hb', hb₂], rfl, rfl, ?_⟩
    rw [← hb₂]

end BrokerImpl

end CapyAmqp
