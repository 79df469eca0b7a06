import CapyAmqp.Broker.Traffic

/-!
# Requests — what a listener's data handler is called with

A listener is handed data by one event only, the delivery of a message, and what it is handed is what
the message decodes to, with its routing key (`step_request`).
-/

namespace CapyAmqp

open Lib

variable {H : Type}

/-- The data that a listener is handed. -/
def Action.request : Action H → Option ListenData
  | .listen _ (.report (.data data) _) => some data
  | _ => none

/-- The data of a report. -/
def Report.request : Report ListenData → List ListenData
  | .data parameters => [parameters]
  | _ => []

namespace BrokerImpl

/-- No listener is handed anything. -/
def Quiet (_ : BrokerImpl H) (as : List (Action H)) (_ : BrokerImpl H) : Prop :=
  as.filterMap Action.request = []

section Statements

variable {b b' : BrokerImpl H} {as : List (Action H)} {id : String} {thread : ThreadId}

theorem quiet_composes : Prog.Composes (Quiet (H := H)) := by
  constructor
  · intro b
    rfl
  · intro b b₁ b₂ as bs h₁ h₂
    simp only [Quiet] at h₁ h₂ ⊢
    rw [List.filterMap_append, h₁, h₂]
    rfl

theorem quiet_of_not_listen (h : ∀ a ∈ as, a.isListen = false) : Quiet b as b' := by
  refine List.filterMap_eq_nil_iff.2 fun a ha => ?_
  have hlisten := h a ha
  cases a with
  | listen p x => cases hlisten
  | _ => rfl

theorem OnReplays.quiet (h : OnReplays b as b') : Quiet b as b' := by
  refine quiet_of_not_listen fun a ha => ?_
  have hreplay := h.actions a ha
  cases a with
  | replay r x => rfl
  | _ => cases hreplay

theorem Aside.quiet (h : Aside b as b') : Quiet b as b' :=
  quiet_of_not_listen fun a ha => (h.actions a ha).1

theorem request_release {p : Ptr} (h : release p b = .ok (b', as)) :
    as.filterMap Action.request = [] := by
  rcases release_cases h with ⟨_, rfl⟩ | ⟨o, _, _, _, _, rfl⟩ <;> rfl

theorem quiet_setDeferred (thread : ThreadId) (p : Option Ptr) :
    Prog.Ensures Quiet (setDeferred thread p : Stmt H) := by
  intro b b' as h
  unfold setDeferred at h
  split at h
  · cases h
    rfl
  · exact request_release h

theorem quiet_listenAck (id : String) (deliveryTag : Nat) :
    Prog.Ensures Quiet (listenAck id deliveryTag : Stmt H) := by
  intro b b' as h
  rcases listenAck_ok_iff.1 h with ⟨q, o, _, _, _, rfl⟩
  rfl

theorem request_reportTo {p : Ptr} {r : Report ListenData} (h : reportTo p r b = .ok (b', as)) :
    as.filterMap Action.request = r.request := by
  rcases reportTo_ok_iff.1 h with ⟨o, _, rfl, rfl⟩
  cases r <;> rfl

theorem request_listenReport {r : Report ListenData} (h : listenReport id r b = .ok (b', as)) :
    as.filterMap Action.request = r.request := by
  rcases withListener_ok_iff.1 h with ⟨q, _, h⟩
  exact request_reportTo h

theorem quiet_listenReport {r : Report ListenData} (hr : r.request = []) :
    Prog.Ensures Quiet (listenReport id r : Stmt H) :=
  fun _ _ _ h => (request_listenReport h).trans hr

theorem quiet_listenDel (id : String) : Prog.Ensures Quiet (listenDel id : Stmt H) := by
  intro b b' as h
  rcases listenDel_ok_iff.1 h with ⟨_, _, rfl⟩ | ⟨q, _, h⟩
  · rfl
  · exact request_release h

theorem quiet_handlerReport (thread : ThreadId) (e : Error) :
    Prog.Ensures Quiet (handlerReport thread e : Stmt H) := by
  intro b b' as h
  rcases handlerReport_ok_iff.1 h with ⟨connection, _, ⟨_, _, rfl⟩ | ⟨q, _, h⟩⟩
  · rfl
  · exact request_reportTo h

/-- A dispatched request is the decoded value with the routing key of the message. -/
theorem request_listenDispatch {message : Message} {received : Json} {throws : Option Thrown}
    (h : listenDispatch id message received throws b = .ok (b', as)) :
    as.filterMap Action.request =
      [(.ok { message := received, routingKey := message.routingKey }, b.replays.next)] := by
  rcases listenReportData_ok_iff.1 h with ⟨q, o, _, _, _, h⟩
  exact request_reportTo h

/-- A delivery is acknowledged; then the listener is handed what the body decodes to. -/
theorem request_listenReceived {codec : Codec} {message : Message} {deliveryTag : Nat}
    {throws : Option Thrown}
    (h : listenReceived codec thread id message deliveryTag throws b = .ok (b', as))
    {data : ListenData} (hdata : data ∈ as.filterMap Action.request) :
    ∃ received, codec.fromMsgpack message.body = .ok received ∧
      data.1 = .ok { message := received, routingKey := message.routingKey } := by
  rcases listenReceived_ok_iff.1 h with ⟨b₁, bs, cs, hack, rfl, hrest⟩
  have hbs : bs.filterMap Action.request = [] := quiet_listenAck _ _ _ _ _ hack
  rw [List.filterMap_append, hbs, List.nil_append] at hdata
  rcases hrest with ⟨thrown, _, herror⟩ | ⟨received, b₂, ds, es, hdecode, hreset, hdispatch, rfl⟩
  · rw [request_listenReport herror] at hdata
    cases hdata
  · have hds : ds.filterMap Action.request = [] := quiet_setDeferred _ _ _ _ _ hreset
    rw [List.filterMap_append, hds, request_listenDispatch hdispatch] at hdata
    rcases List.mem_singleton.1 hdata with rfl
    exact ⟨received, hdecode, rfl⟩

theorem quiet_consumeError (thread : ThreadId) (id message : String) (codec : Codec) :
    Prog.Ensures Quiet (listenCallback codec thread id (.consumeError message) : Stmt H) := by
  refine Prog.ensures_all quiet_composes ?_
  intro q hq
  simp only [List.mem_cons, List.not_mem_nil, or_false] at hq
  rcases hq with rfl | rfl | rfl
  · exact quiet_setDeferred _ _
  · exact quiet_listenReport rfl
  · exact quiet_listenDel _

/-- All callbacks but the delivery hand nothing to the listener. -/
theorem quiet_listenCallback {codec : Codec} {callback : ListenCallback}
    (hcallback : ∀ message deliveryTag throws, callback ≠ .received message deliveryTag throws) :
    Prog.Ensures Quiet (listenCallback codec thread id callback : Stmt H) := by
  cases callback with
  | received message deliveryTag throws => exact (hcallback _ _ _ rfl).elim
  | consumeError message => exact quiet_consumeError thread id message codec
  | _ => exact quiet_listenReport rfl

theorem quiet_replyFailure {transaction : ReplyTransaction} {message : String}
    (h : replyFailure transaction message b = .ok (b', as)) : Quiet b as b' := by
  rcases takeTransaction_ok_iff.1 h with ⟨_, h⟩
  have hseq := Prog.ensures_seq quiet_composes (quiet_listenReport rfl)
    (fun _ _ _ hdelete => (onReplays_deleteReplay _ _ _ _ hdelete).quiet) _ _ _ h
  exact hseq

theorem quiet_listenMessages {queue : String} {keys : List String} {failed : Bool}
    (h : listenMessages thread queue keys failed b = .ok (b', as)) : Quiet b as b' := by
  rcases listenMessages_ok_iff.1 h with ⟨_, h⟩
  rcases Prog.seq_ok_iff.1 h with ⟨b₁, bs, cs, hset, hissue, rfl⟩
  have hbs : bs.filterMap Action.request = [] := quiet_setDeferred _ _ _ _ _ hset
  cases hissue
  simp [Quiet, List.filterMap_append, hbs, List.filterMap_eq_nil_iff, Action.request]

end Statements

/-- In a broker, a listener is handed data when a message is delivered to it. -/
theorem step_request {codec : Codec} {b b' : BrokerImpl H} {e : Event H} {as : List (Action H)}
    {data : ListenData} (h : step codec b e = .ok (b', as))
    (hdata : data ∈ as.filterMap Action.request) :
    ∃ thread id message deliveryTag throws received,
      e = .listenCallback thread id (.received message deliveryTag throws) ∧
        codec.fromMsgpack message.body = .ok received ∧
        data.1 = .ok { message := received, routingKey := message.routingKey } := by
  have hquiet : Quiet b as b' → False := by
    intro hnone
    rw [hnone] at hdata
    cases hdata
  cases e with
  | listenMessages thread queue keys failed => exact (hquiet (quiet_listenMessages h)).elim
  | listenRegister q r =>
      rcases listenRegister_ok_iff.1 h with ⟨o, _, _, rfl⟩
      cases hdata
  | listenCallback thread id callback =>
      rcases onListenCallback_ok_iff.1 h with ⟨_, h⟩
      cases callback with
      | received message deliveryTag throws =>
          rcases request_listenReceived h hdata with ⟨received, hdecode, hvalue⟩
          exact ⟨thread, id, message, deliveryTag, throws, received, rfl, hdecode, hvalue⟩
      | _ => exact (hquiet (quiet_listenCallback (by simp) _ _ _ h)).elim
  | replayCall thread r call => exact (hquiet (onReplays_replayCall _ _ _ _ _ _ _ h).quiet).elim
  | replayDestroyed r => exact (hquiet (onReplays_replayDestroyed _ _ _ _ h).quiet).elim
  | replySuccess transaction => exact (hquiet (onReplays_replySuccess _ _ _ _ h).quiet).elim
  | replyFailure transaction message => exact (hquiet (quiet_replyFailure h)).elim
  | connectionError thread message => exact (hquiet (quiet_handlerReport _ _ _ _ _ h)).elim
  | connectionLost thread => exact (hquiet (quiet_handlerReport _ _ _ _ _ h)).elim
  | _ => exact (hquiet (step_aside rfl h).quiet).elim

end BrokerImpl

end CapyAmqp
