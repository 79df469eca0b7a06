import CapyAmqp.Broker.ConnectionLoss
import CapyAmqp.Broker.ListenLife

/-!
# Delivery — which deliveries reach the handlers of their listener

A delivery is acknowledged before anything else.  After that a body that cannot be decoded is
reported as an error, and a decoded one goes through `report_data`, which passes nothing on after
an error.  `deliveries_handled_iff` says for every run when each delivery is handled.
-/

namespace CapyAmqp

open Lib

variable {H : Type}

/-- A delivery to the listener `id`, whose handlers return normally. -/
def delivery (thread : ThreadId) (id : String) (message : Message) (deliveryTag : Nat) : Event H :=
  .listenCallback thread id (.received message deliveryTag none)

/-- The delivery has been acknowledged. -/
def Acked (p : Ptr) (deliveryTag : Nat) (as : List (Action H)) : Prop :=
  .listen p (.channel (.ack deliveryTag)) ∈ as

/-- A decodable message invokes the data handler `hd` exactly once, with its own routing key and
decoded body; another one invokes the error handler `he` exactly once.  Nothing else is invoked. -/
def Handled (codec : Codec) (p : Ptr) (hd he : H) (message : Message) (as : List (Action H)) :
    Prop :=
  match codec.fromMsgpack message.body with
  | .ok received =>
      ∃ r, handlerCalls (as.filterMap (Action.toListen p)) =
        [.data hd (.ok { message := received, routingKey := message.routingKey }, r)]
  | .error thrown =>
      handlerCalls (as.filterMap (Action.toListen p)) =
        [.error he (.broker .channelMessage thrown.listenText)]

/-- The event reports an error to the listener `id`: a body that cannot be decoded, or a reply
whose transaction fails. -/
def Event.closes (codec : Codec) (id : String) : Event H → Prop
  | .listenCallback _ id' (.received message _ _) =>
      id' = id ∧ ∃ thrown, codec.fromMsgpack message.body = .error thrown
  | .replyFailure transaction _ => transaction.correlationId = id
  | _ => False

/-- Deliveries to the listener and failures of its replies, in between whatever does not reach it. -/
def Event.Admitted (id : String) (p : Ptr) (c : ThreadId) (e : Event H) : Prop :=
  e.avoids id p c ∨
    (∃ thread message deliveryTag, e = delivery thread id message deliveryTag) ∨
    ∃ transaction message, e = .replyFailure transaction message ∧ transaction.correlationId = id

/-- The listener `p` of `id` and `c` is in `listeners_` with its handlers registered, and it is
open: the success of consume leaves it so. -/
structure Consuming (codec : Codec) (id : String) (p : Ptr) (c : ThreadId) (hd he : H)
    (b : BrokerImpl H) : Prop where
  reachable : BrokerImpl.Reachable codec b
  channel : b.listenChannels.has id = true
  listener : b.listeners.get id = some p
  object : ∃ o, b.listening.read p = some o ∧ o.connection = c ∧
    o.deferred.dataHandler = some hd ∧ o.deferred.errorHandler = some he ∧ o.deferred.failed = false

/-- As `Consuming`, but the listener is closed exactly if one of the events has closed it. -/
structure Tracking (codec : Codec) (id : String) (p : Ptr) (c : ThreadId) (hd he : H)
    (b : BrokerImpl H) (es : List (Event H)) : Prop where
  reachable : BrokerImpl.Reachable codec b
  channel : b.listenChannels.has id = true
  carries : b.Carries id p c
  object : ∃ o, b.listening.read p = some o ∧ o.deferred.dataHandler = some hd ∧
    o.deferred.errorHandler = some he ∧
    (o.deferred.failed = true ↔ ∃ e ∈ es, e.closes codec id)

section Steps

variable {codec : Codec} {id : String} {p : Ptr} {c : ThreadId} {hd he : H} {b b' : BrokerImpl H}
  {es : List (Event H)} {as : List (Action H)} {o : DeferredListening H}

theorem Consuming.tracking (h : Consuming codec id p c hd he b) :
    Tracking codec id p c hd he b [] := by
  rcases h.object with ⟨o, hread, hconnection, hdata, herror, hopen⟩
  exact ⟨h.reachable, h.channel, ⟨h.reachable.owned, h.listener, o, hread, hconnection⟩,
    o, hread, hdata, herror, by simp [hopen]⟩

/-! ## Reports to the listener -/

namespace BrokerImpl

theorem reportTo_of_live (hread : b.listening.read p = some o) (r : Report ListenData) :
    ∃ b' as, reportTo p r b = .ok (b', as) := by
  simp [reportTo, hread]

/-- A report to the listener itself. -/
theorem reportTo_self {r : Report ListenData} (hb : b.Carries id p c)
    (hread : b.listening.read p = some o) (h : reportTo p r b = .ok (b', as)) :
    b'.Carries id p c ∧
      b'.listening.read p = some { o with deferred := (o.deferred.report r).1 } ∧
      as = [.listen p (.report r (o.deferred.report r).2)] := by
  have howned := owned_reportTo p r b b' as h hb.owned
  rcases hb.connection with ⟨o', hread', hconnection⟩
  cases hread.symm.trans hread'
  simp only [reportTo, hread, Except.ok.injEq, Prod.mk.injEq] at h
  rcases h with ⟨rfl, rfl⟩
  -- the report changes the deferred of the object and nothing else of it
  have hnew : (b.listening.modify p fun o' => { o' with deferred := (o.deferred.report r).1 }).read
      p = some { o with deferred := (o.deferred.report r).1 } := by
    rw [Heap.read_modify_self, hread]
    rfl
  exact ⟨⟨howned, hb.listener, _, hnew, hconnection⟩, hnew, rfl⟩

theorem listenReport_self {r : Report ListenData} (hb : b.Carries id p c)
    (hread : b.listening.read p = some o) (h : listenReport id r b = .ok (b', as)) :
    b'.Carries id p c ∧
      b'.listening.read p = some { o with deferred := (o.deferred.report r).1 } ∧
      as = [.listen p (.report r (o.deferred.report r).2)] := by
  simp only [listenReport, withListener, hb.listener] at h
  exact reportTo_self hb hread h

/-- What a delivery reports to its listener; `r` is the pointer to the new replay. -/
def deliveryReport (codec : Codec) (r : Ptr) (message : Message) : Report ListenData :=
  match codec.fromMsgpack message.body with
  | .ok received => .data (.ok { message := received, routingKey := message.routingKey }, r)
  | .error thrown => .error (.broker .channelMessage thrown.listenText)

/-- A delivery to the listener is acknowledged and then reported, whatever came before. -/
theorem step_delivery (hb : b.Carries id p c) (hid : b.listenChannels.has id = true)
    (hread : b.listening.read p = some o) (thread : ThreadId) (message : Message)
    (deliveryTag : Nat) :
    ∃ b' as, step codec b (delivery thread id message deliveryTag) = .ok (b', as) ∧
      b'.Carries id p c ∧
      b'.listening.read p =
        some { o with
          deferred := (o.deferred.report (deliveryReport codec b.replays.next message)).1 } ∧
      as.filterMap (Action.toListen p) =
        [.channel (.ack deliveryTag),
          .report (deliveryReport codec b.replays.next message)
            (o.deferred.report (deliveryReport codec b.replays.next message)).2] := by
  -- the ack finds the id present and the object alive
  have hack : listenAck id deliveryTag b =
      .ok (b, [.listen p (.channel (.ack deliveryTag))]) := by
    simp [listenAck, withListener, hb.listener, hread]
  have hackOf : [Action.listen p (.channel (.ack deliveryTag))].filterMap (Action.toListen (H := H) p) =
      [.channel (.ack deliveryTag)] := by
    simp [Action.toListen]
  have hreportOf : ∀ r : Report ListenData,
      [Action.listen p (.report r (o.deferred.report r).2)].filterMap (Action.toListen p) =
        [.report r (o.deferred.report r).2] := by
    simp [Action.toListen]
  simp only [step, delivery, onListenCallback, hid, if_true, listenCallback, listenReceived,
    deliveryReport]
  cases hdecode : codec.fromMsgpack message.body with
  | error thrown =>
      let r : Report ListenData := .error (.broker .channelMessage thrown.listenText)
      rcases reportTo_of_live hread r with ⟨b', as, hreport⟩
      rcases reportTo_self hb hread hreport with ⟨hb', hread', rfl⟩
      have hlisten : listenReport id r b = .ok (b', [.listen p (.report r (o.deferred.report r).2)]) := by
        simpa [listenReport, withListener, hb.listener] using hreport
      refine ⟨b', _, Prog.seq_ok_iff.2 ⟨b, _, _, hack, hlisten, rfl⟩, hb', hread', ?_⟩
      rw [List.filterMap_append, hackOf, hreportOf]
      rfl
  | ok received =>
      let data : ListenData :=
        (.ok { message := received, routingKey := message.routingKey }, b.replays.next)
      -- the slot of the thread is emptied, which does not reach the listener
      rcases completes_setDeferred thread none b with ⟨b₁, bs, hreset, _⟩
      rcases untouched_resetDeferred thread b b₁ bs hreset hb with ⟨hb₁, hread₁, hbs⟩
      have hreplays : b₁.replays = b.replays := (onListeners_setDeferred _ _ _ _ _ hreset).replays
      have hread₁ : b₁.listening.read p = some o := hread₁.trans hread
      let b₂ : BrokerImpl H :=
        { b₁ with
          replays := (b₁.replays.alloc
            { message := .ok .null
              commitHandler := some
                { cid := message.correlationId
                  replayTo := message.replyTo
                  correlationId := id }
              completeHandler := none
              destroying := false }).1 }
      have hb₂ : b₂.Carries id p c := hb₁.of_read (hb₁.owned.of_eq rfl rfl fun _ => rfl) rfl rfl
      rcases reportTo_of_live (b := b₂) hread₁ (.data data) with ⟨b', as, hreport⟩
      rcases reportTo_self hb₂ hread₁ hreport with ⟨hb', hread', rfl⟩
      have hdispatch : listenDispatch id message received none b₁ =
          .ok (b', [.listen p (.report (.data data) (o.deferred.report (.data data)).2)]) := by
        have hlistener : b₂.listeners.get id = some p := hb₂.listener
        have hlive : b₂.listening.read p = some o := hread₁
        have hthrows : o.deferred.dataThrows (none : Option Thrown) = none := by
          simp [Deferred.dataThrows]
        calc listenDispatch id message received none b₁
            = listenReportData id
                (.ok { message := received, routingKey := message.routingKey }, b₁.replays.next)
                none b₂ := rfl
          _ = listenReportData id data none b₂ := by rw [hreplays]
          _ = reportTo p (.data data) b₂ := by
                simp only [listenReportData, withListener, hlistener, hlive, hthrows]
          _ = .ok (b', [.listen p (.report (.data data) (o.deferred.report (.data data)).2)]) :=
                hreport
      refine ⟨b', _, Prog.seq_ok_iff.2 ⟨b, _, _, hack,
        Prog.seq_ok_iff.2 ⟨b₁, bs, _, hreset, hdispatch, rfl⟩, rfl⟩, hb', hread', ?_⟩
      rw [List.filterMap_append, List.filterMap_append, hackOf, hbs, hreportOf]
      rfl

/-- A failed reply reports to the listener that made it. -/
theorem step_replyFailure (hb : b.Carries id p c) (hread : b.listening.read p = some o)
    {transaction : ReplyTransaction} (hid : transaction.correlationId = id) {message : String}
    (h : step codec b (.replyFailure transaction message) = .ok (b', as)) :
    b'.Carries id p c ∧
      b'.listening.read p =
        some { o with deferred := (o.deferred.reportError (.broker .publish message)).1 } := by
  subst hid
  rcases takeTransaction_ok_iff.1 h with ⟨_, h⟩
  rcases Prog.seq_ok_iff.1 h with ⟨b₁, bs, cs, hreport, hdelete, _⟩
  -- the transaction is off the list when the report is made
  let b₀ : BrokerImpl H := { b with transactions := b.transactions.erase transaction }
  have hb₀ : b₀.Carries transaction.correlationId p c :=
    hb.of_read (hb.owned.of_eq rfl rfl fun _ => rfl) rfl rfl
  rcases listenReport_self hb₀ hread hreport with ⟨hb₁, hread₁, _⟩
  have hframe := onReplays_deleteReplay _ _ _ _ hdelete
  rcases hframe.untouched hb₁ with ⟨hb', hread', _⟩
  exact ⟨hb', hread'.trans hread₁⟩

end BrokerImpl

/-! ## Runs -/

/-- What a report leaves of the handlers and of the gate. -/
theorem Tracking.report (h : Tracking codec id p c hd he b es) {e : Event H} {r : Report ListenData}
    (hreachable : BrokerImpl.Reachable codec b') (hchannel : b'.listenChannels.has id = true)
    (hcarries : b'.Carries id p c)
    (hread : ∀ o, b.listening.read p = some o →
      b'.listening.read p = some { o with deferred := (o.deferred.report r).1 })
    (hgate : (∃ data, r = .data data) ∧ ¬ e.closes codec id ∨
      (∃ code message, r = .error (.broker code message)) ∧ e.closes codec id) :
    Tracking codec id p c hd he b' (es ++ [e]) := by
  rcases h.object with ⟨o, ho, hdata, herror, hfailed⟩
  refine ⟨hreachable, hchannel, hcarries, _, hread o ho, ?_⟩
  rcases hgate with ⟨⟨data, rfl⟩, hopen⟩ | ⟨⟨code, message, rfl⟩, hcloses⟩
  · refine ⟨hdata, herror, hfailed.trans ?_⟩
    -- data leaves the gate as it is
    simp [or_and_right, exists_or, hopen]
  -- an error closes it, for good
  · refine ⟨?_, ?_, iff_of_true ?_ ⟨e, by simp, hcloses⟩⟩
    · exact Deferred.dataHandler_reportError.trans hdata
    · exact Deferred.errorHandler_reportError.trans herror
    · exact Deferred.failed_reportError (Error.toBool_broker code message)

theorem Event.not_closes_of_avoids {e : Event H} (h : e.avoids id p c) : ¬ e.closes codec id := by
  intro hcloses
  cases e with
  | listenCallback thread id' callback =>
      cases callback with
      | received message deliveryTag throws =>
          exact h hcloses.1
      | _ =>
          exact hcloses
  | replyFailure transaction message =>
      exact h hcloses
  | _ =>
      exact hcloses

theorem Tracking.step (h : Tracking codec id p c hd he b es) {e : Event H}
    (hadmitted : e.Admitted id p c) (hstep : BrokerImpl.step codec b e = .ok (b', as)) :
    Tracking codec id p c hd he b' (es ++ [e]) := by
  have hreachable := h.reachable.step hstep
  have hchannel := BrokerImpl.step_channels_has h.channel hstep
  rcases hadmitted with havoids | ⟨thread, message, deliveryTag, rfl⟩ | ⟨transaction, message, rfl, hid⟩
  -- an event that avoids the listener, a delivery to it, or a failure of one of its replies
  · have hsame := BrokerImpl.step_untouched h.reachable.named h.channel havoids hstep
    rcases hsame h.carries with ⟨hcarries, hread, _⟩
    rcases h.object with ⟨o, ho, hdata, herror, hfailed⟩
    refine ⟨hreachable, hchannel, hcarries, o, hread.trans ho, hdata, herror, hfailed.trans ?_⟩
    simp [or_and_right, exists_or, Event.not_closes_of_avoids havoids]
  · rcases h.object with ⟨o, ho, _⟩
    rcases BrokerImpl.step_delivery h.carries h.channel ho thread message deliveryTag with
      ⟨b'', as', hstep', hcarries, hread, _⟩
    cases hstep.symm.trans hstep'
    refine h.report (r := BrokerImpl.deliveryReport codec b.replays.next message) hreachable hchannel
      hcarries ?_ ?_
    · intro o' ho'
      cases ho.symm.trans ho'
      exact hread
    · -- what can be decoded keeps the gate as it is, anything else closes it
      cases hdecode : codec.fromMsgpack message.body with
      | ok received =>
          simp [BrokerImpl.deliveryReport, delivery, Event.closes, hdecode]
      | error thrown =>
          simp [BrokerImpl.deliveryReport, delivery, Event.closes, hdecode]
  · rcases h.object with ⟨o, ho, _⟩
    rcases BrokerImpl.step_replyFailure h.carries ho hid hstep with ⟨hcarries, hread⟩
    refine h.report (r := .error (.broker .publish message)) hreachable hchannel hcarries ?_
      (Or.inr ⟨⟨_, _, rfl⟩, hid⟩)
    intro o' ho'
    cases ho.symm.trans ho'
    exact hread

theorem tracking_of_run {b₀ : BrokerImpl H} {outs : List (List (Action H))}
    (hstart : Consuming codec id p c hd he b₀) (hes : ∀ e ∈ es, e.Admitted id p c)
    (hrun : run (BrokerImpl.step codec) b₀ es = .ok (b, outs)) :
    Tracking codec id p c hd he b es := by
  let P : BrokerImpl H → List (Event H) → List (List (Action H)) → Prop :=
    fun b es _ => (∀ e ∈ es, e.Admitted id p c) → Tracking codec id p c hd he b es
  refine run_history (P := P) (fun _ => hstart.tracking) ?_ hrun hes
  intro es m t outs e as _ hm hstep hadmitted
  refine (hm fun x hx => hadmitted x (by simp [hx])).step (hadmitted e (by simp)) hstep

/-! ## Handled deliveries -/

/-- The next delivery is acknowledged in any case, and handled unless it comes too late. -/
theorem Tracking.delivery_iff (h : Tracking codec id p c hd he b es) (thread : ThreadId)
    (message : Message) (deliveryTag : Nat) :
    ∃ b' as, BrokerImpl.step codec b (delivery thread id message deliveryTag) = .ok (b', as) ∧
      Acked p deliveryTag as ∧
      (Handled codec p hd he message as ↔
        ((∃ received, codec.fromMsgpack message.body = .ok received) →
          ∀ e ∈ es, ¬ e.closes codec id)) := by
  rcases h.object with ⟨o, ho, hdata, herror, hfailed⟩
  rcases BrokerImpl.step_delivery h.carries h.channel ho thread message deliveryTag with
    ⟨b', as, hstep, _, _, has⟩
  refine ⟨b', as, hstep, ?_, ?_⟩
  -- the ack is the first action of the delivery
  · have hmem : ObjectAction.channel (.ack deliveryTag) ∈ as.filterMap (Action.toListen p) := by
      simp [has]
    rcases List.mem_filterMap.1 hmem with ⟨a, ha, hview⟩
    cases a with
    | listen q x =>
        simp only [Action.toListen] at hview
        split at hview
        · rename_i hq
          subst hq
          cases hview
          exact ha
        · cases hview
    | _ =>
        cases hview
  -- the gate is open as long as nothing has closed it
  · have hopen : o.deferred.failed = false ↔ ∀ e ∈ es, ¬ e.closes codec id := by
      rw [← Bool.not_eq_true, hfailed]
      push Not
      rfl
    simp only [Handled, has]
    cases hdecode : codec.fromMsgpack message.body with
    | error thrown =>
        -- the error handler is invoked, whether the gate is open or not
        simp [BrokerImpl.deliveryReport, hdecode, handlerCalls, ObjectAction.calls,
          Deferred.report, Deferred.reportError, herror]
    | ok received =>
        simp only [BrokerImpl.deliveryReport, hdecode, handlerCalls, Deferred.report]
        rw [← hopen]
        cases hgate : o.deferred.failed with
        | true => simp [Deferred.reportData_of_failed hgate, ObjectAction.calls]
        | false => simp [Deferred.reportData_of_open hgate hdata, ObjectAction.calls]

/-- Every delivery of a run is acknowledged; every one is handled if and only if no decodable
delivery comes after an undecodable one or after a failed reply of the same listener. -/
theorem deliveries_handled_iff {b₀ : BrokerImpl H} {outs : List (List (Action H))}
    (hstart : Consuming codec id p c hd he b₀) (hes : ∀ e ∈ es, e.Admitted id p c)
    (hrun : run (BrokerImpl.step codec) b₀ es = .ok (b, outs)) :
    (∀ pre thread message deliveryTag post,
      es = pre ++ delivery thread id message deliveryTag :: post →
      ∃ m bs b' as, run (BrokerImpl.step codec) b₀ pre = .ok (m, bs) ∧
        BrokerImpl.step codec m (delivery thread id message deliveryTag) = .ok (b', as) ∧
        Acked p deliveryTag as ∧ Handled codec p hd he message as) ↔
    ∀ pre thread message deliveryTag post received,
      es = pre ++ delivery thread id message deliveryTag :: post →
      codec.fromMsgpack message.body = .ok received → ∀ e ∈ pre, ¬ e.closes codec id := by
  -- the run up to a delivery succeeds, and tracks the listener
  have hprefix : ∀ {pre post : List (Event H)} {e : Event H}, es = pre ++ e :: post →
      ∃ m bs, run (BrokerImpl.step codec) b₀ pre = .ok (m, bs) ∧
        Tracking codec id p c hd he m pre := by
    intro pre post e hsplit
    rw [hsplit] at hrun hes
    rcases run_append_ok_iff.1 hrun with ⟨m, bs, _, hm, _⟩
    exact ⟨m, bs, hm, tracking_of_run hstart (fun x hx => hes x (by simp [hx])) hm⟩
  constructor
  · intro hall pre thread message deliveryTag post received hsplit hdecode
    rcases hall pre thread message deliveryTag post hsplit with
      ⟨m, bs, b', as, hm, hstep, _, hhandled⟩
    rcases hprefix hsplit with ⟨m', bs', hm', htracking⟩
    cases hm.symm.trans hm'
    rcases htracking.delivery_iff thread message deliveryTag with ⟨b'', as', hstep', _, hiff⟩
    cases hstep.symm.trans hstep'
    exact hiff.1 hhandled ⟨received, hdecode⟩
  · intro hnone pre thread message deliveryTag post hsplit
    rcases hprefix hsplit with ⟨m, bs, hm, htracking⟩
    rcases htracking.delivery_iff thread message deliveryTag with ⟨b', as, hstep, hacked, hiff⟩
    refine ⟨m, bs, b', as, hm, hstep, hacked, hiff.2 ?_⟩
    rintro ⟨received, hdecode⟩
    exact hnone pre thread message deliveryTag post received hsplit hdecode

end Steps

/-- The success of consume opens a listener. -/
theorem consuming_of_consumed {codec : Codec} {id : String} {p : Ptr} {hd he : H}
    {b b' : BrokerImpl H} {as : List (Action H)} {o : DeferredListening H} {thread : ThreadId}
    (hb : BrokerImpl.Reachable codec b) (hid : b.listenChannels.has id = true)
    (hlistener : b.listeners.get id = some p) (hread : b.listening.read p = some o)
    (hdata : o.deferred.dataHandler = some hd) (herror : o.deferred.errorHandler = some he)
    (hstep : BrokerImpl.step codec b (.listenCallback thread id .consumed) = .ok (b', as)) :
    Consuming codec id p o.connection hd he b' := by
  have hcarries : b.Carries id p o.connection := ⟨hb.owned, hlistener, o, hread, rfl⟩
  have hreport : BrokerImpl.listenReport id .success b = .ok (b', as) := by
    simpa [BrokerImpl.step, BrokerImpl.onListenCallback, hid, BrokerImpl.listenCallback] using hstep
  rcases BrokerImpl.listenReport_self hcarries hread hreport with ⟨hcarries', hread', _⟩
  exact ⟨hb.step hstep, BrokerImpl.step_channels_has hid hstep, hcarries'.listener, _, hread', rfl,
    hdata, herror, rfl⟩

/-- A thread makes a listener, registers both handlers, and consume succeeds. -/
def sampleListening : List (Event Nat) :=
  [.listenMessages 0 "capy-test" ["echo.ping"] true, .listenRegister 0 (.onData 1),
    .listenRegister 0 (.onError 2), .listenCallback 0 "1" .consumed]

/-- The broker after these events. -/
def sampleConsuming : BrokerImpl Nat :=
  match run (BrokerImpl.step Codec.small) (.construct "amq.topic") sampleListening with
  | .ok (b, _) => b
  | .error _ => .construct "amq.topic"

theorem sampleConsuming_consuming : Consuming Codec.small "1" 0 0 1 2 sampleConsuming := by
  have hb : ∃ b outs, run (BrokerImpl.step Codec.small) (.construct "amq.topic")
      (sampleListening.take 3) = .ok (b, outs) ∧ b.listenChannels.has "1" = true ∧
      b.listeners.get "1" = some 0 ∧
      ∃ o as, b.listening.read 0 = some o ∧ o.connection = 0 ∧
        o.deferred.dataHandler = some 1 ∧ o.deferred.errorHandler = some 2 ∧
        BrokerImpl.step Codec.small b (.listenCallback 0 "1" .consumed) =
          .ok (sampleConsuming, as) :=
    ⟨_, _, rfl, rfl, rfl, _, _, rfl, rfl, rfl, rfl, rfl⟩
  rcases hb with ⟨b, outs, hrun, hid, hlistener, o, as, hread, hconnection, hdata, herror, hstep⟩
  have hconsuming := consuming_of_consumed ⟨"amq.topic", _, outs, hrun⟩ hid hlistener hread hdata
    herror hstep
  rwa [hconnection] at hconsuming

/-- A good message and then a bad one: both are handled. -/
theorem deliveries_handled :
    ∃ m bs b' as,
      run (BrokerImpl.step Codec.small) sampleConsuming
        [delivery 0 "1" (sampleMessage [0xc3]) 7] = .ok (m, bs) ∧
      BrokerImpl.step Codec.small m (delivery 0 "1" (sampleMessage [0xc1]) 8) = .ok (b', as) ∧
      Acked 0 8 as ∧ Handled Codec.small 0 1 2 (sampleMessage [0xc1]) as := by
  let es : List (Event Nat) :=
    [delivery 0 "1" (sampleMessage [0xc3]) 7, delivery 0 "1" (sampleMessage [0xc1]) 8]
  have hes : ∀ e ∈ es, e.Admitted "1" 0 0 := by
    intro e he
    simp only [es, List.mem_cons, List.not_mem_nil, or_false] at he
    rcases he with rfl | rfl
    · exact Or.inr (Or.inl ⟨_, _, _, rfl⟩)
    · exact Or.inr (Or.inl ⟨_, _, _, rfl⟩)
  obtain ⟨⟨b, outs⟩, hrun⟩ : ∃ r,
      run (BrokerImpl.step Codec.small) sampleConsuming es = .ok r := ⟨_, rfl⟩
  refine (deliveries_handled_iff sampleConsuming_consuming hes hrun).2 ?_
    [delivery 0 "1" (sampleMessage [0xc3]) 7] 0 (sampleMessage [0xc1]) 8 [] rfl
  -- the only message before the last one can be decoded
  intro pre thread message deliveryTag post received hsplit hdecode e he hcloses
  match pre, hsplit with
  | [], _ =>
      cases he
  | [x], hsplit =>
      simp only [es, List.cons_append, List.nil_append, List.cons.injEq] at hsplit
      rcases hsplit with ⟨_, hlast, _⟩
      cases hlast
      cases hdecode
  | x :: y :: pre, hsplit =>
      have hlength := congrArg List.length hsplit
      simp [es] at hlength

/-- A bad message and then a good one: the good one is acknowledged, and nothing is invoked. -/
theorem delivery_dropped :
    ∃ (b b' : BrokerImpl Nat) (outs : List (List (Action Nat))) (as : List (Action Nat)),
      run (BrokerImpl.step Codec.small) (.construct "amq.topic")
        (sampleListening ++ [delivery 0 "1" (sampleMessage [0xc1]) 7]) = .ok (b, outs) ∧
      BrokerImpl.step Codec.small b (delivery 0 "1" (sampleMessage [0xc3]) 8) = .ok (b', as) ∧
      Acked 0 8 as ∧ ¬ Handled Codec.small 0 1 2 (sampleMessage [0xc3]) as := by
  refine ⟨_, _, _, _, rfl, rfl, .head _, ?_⟩
  rintro ⟨r, hcalls⟩
  cases hcalls

end CapyAmqp
