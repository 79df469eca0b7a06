import CapyAmqp.Broker.FetchOutcome

/-!
# LateRegistration — which replies reach the data handler

`fetch_message` returns its `Deferred` before the client has registered anything on it, while the
loop may already be running the callbacks in another thread.  A reply that arrives is passed to
the handler that is registered at that moment, or to nobody, and the fetcher is removed either
way.

`fetch_reply_passed_iff` says, from the events of the run alone, when a decodable reply reaches
the data handler of a fetch that has reported no error.
-/

namespace CapyAmqp

open Lib

variable {H : Type}

/-! ## What the events of a run say about a fetch -/

def FetchEvent.onData : FetchEvent H → Option H
  | .register (.onData handler) => some handler
  | _ => none

def FetchEvent.isReceived : FetchEvent H → Bool
  | .callback (.received ..) => true
  | _ => false

def FetchEvent.isConsumed : FetchEvent H → Bool
  | .callback .consumed => true
  | _ => false

/-- The handler that the client registered last with `on_data`. -/
def lastOnData (id : String) (es : List (Event H)) : Option H :=
  ((fetchEvents id es).filterMap FetchEvent.onData).getLast?

def anyReceived (id : String) (es : List (Event H)) : Bool :=
  (fetchEvents id es).any FetchEvent.isReceived

def anyConsumed (id : String) (es : List (Event H)) : Bool :=
  (fetchEvents id es).any FetchEvent.isConsumed

/-- The fetch has called `report_error`. -/
def ObjectAction.isErrorReport {Op P : Type} : ObjectAction Op H P → Bool
  | .report (.error _) _ => true
  | _ => false

def anyErrorReport (history : List (FetchAction H)) : Bool :=
  history.any ObjectAction.isErrorReport

/-! ## The state of a fetch, read off its events -/

/-- A fetcher that has seen `es` and has the history `history`: its data handler is the one
registered last, and as long as no error has been reported its gate is open if it was open from
the start or the consumer has succeeded.  Once it has gone, a message has been received or an
error reported. -/
def EventsInv (failed : Bool) (v : FetchLife H) (es : List (FetchEvent H))
    (history : List (FetchAction H)) : Prop :=
  match v with
  | some o =>
      es.any FetchEvent.isReceived = false ∧
        o.deferred.dataHandler = (es.filterMap FetchEvent.onData).getLast? ∧
        (anyErrorReport history = false →
          o.deferred.failed = (failed && !es.any FetchEvent.isConsumed))
  | none => es.any FetchEvent.isReceived = true ∨ anyErrorReport history = true

/-- A live fetcher after one more event. -/
theorem EventsInv.step_live {codec : Codec} {exchangeName id : String} {closure : FetchClosure}
    {failed : Bool} {o : DeferredFetching H} {v : FetchLife H} {es : List (FetchEvent H)}
    {history as : List (FetchAction H)} {e : FetchEvent H}
    (h : EventsInv failed (some o) es history)
    (hstep : FetchLife.step codec exchangeName id closure (some o) e = .ok (v, as)) :
    EventsInv failed v (es ++ [e]) (history ++ as) := by
  rcases h with ⟨hreceived, hdata, hfailed⟩
  cases e with
  | register r =>
      cases hstep
      cases r with
      | onData callback =>
          -- the new handler is the last one registered
          refine ⟨by simp [hreceived, FetchEvent.isReceived], ?_, ?_⟩
          · simp [FetchEvent.onData, Deferred.register, Deferred.onData]
          · intro hnone
            simpa [FetchEvent.isConsumed] using hfailed (by simpa using hnone)
      | _ =>
          -- the other registrations leave the data handler and the gate alone
          refine ⟨by simp [hreceived, FetchEvent.isReceived], ?_, ?_⟩
          · simpa [FetchEvent.onData, Deferred.register, Deferred.onSuccess, Deferred.onError,
              Deferred.onFinalize] using hdata
          · intro hnone
            simpa [FetchEvent.isConsumed] using hfailed (by simpa using hnone)
  | callback c =>
      cases c with
      | declared name =>
          cases hstep
          refine ⟨by simp [hreceived, FetchEvent.isReceived], by simpa [FetchEvent.onData] using hdata,
            ?_⟩
          intro hnone
          -- no report is among the channel operations, so the earlier history has no error either
          have hold : anyErrorReport history = false := by
            simp only [anyErrorReport, List.any_append, Bool.or_eq_false_iff] at hnone
            exact hnone.1
          simpa [FetchEvent.isConsumed] using hfailed hold
      | declareError message =>
          cases hstep
          -- the fetcher goes, and an error has been reported
          exact Or.inr (by simp [anyErrorReport, ObjectAction.isErrorReport])
      | commitError message =>
          cases hstep
          refine ⟨by simp [hreceived, FetchEvent.isReceived], ?_, ?_⟩
          · simpa [FetchEvent.onData, Deferred.report] using hdata
          · -- with an error in the history there is nothing to show about the gate
            intro hnone
            simp [anyErrorReport, ObjectAction.isErrorReport] at hnone
      | received body throws =>
          rcases FetchLife.receive_ok_iff.1 hstep with ⟨rfl, _⟩
          -- the fetcher goes, and a message has been received
          exact Or.inl (by simp [FetchEvent.isReceived])
      | consumed =>
          cases hstep
          refine ⟨by simp [hreceived, FetchEvent.isReceived], ?_, ?_⟩
          · simpa [FetchEvent.onData, Deferred.report] using hdata
          · intro _
            -- `report_success` opens the gate
            simp [FetchEvent.isConsumed, Deferred.report]
      | consumeError message =>
          cases hstep
          exact Or.inr (by simp [anyErrorReport, ObjectAction.isErrorReport])

theorem EventsInv.step {codec : Codec} {exchangeName id : String} {closure : FetchClosure}
    {failed : Bool} {v v' : FetchLife H} {es : List (FetchEvent H)}
    {history as : List (FetchAction H)} {e : FetchEvent H} (h : EventsInv failed v es history)
    (hstep : FetchLife.step codec exchangeName id closure v e = .ok (v', as)) :
    EventsInv failed v' (es ++ [e]) (history ++ as) := by
  cases v with
  | some o =>
      exact h.step_live hstep
  | none =>
      rcases FetchLife.step_removed hstep with ⟨rfl, rfl⟩
      rcases h with hreceived | herror
      · exact Or.inl (by simp [hreceived])
      · exact Or.inr (by simp [herror])

/-! ## Runs -/

section Runs

variable {codec : Codec} {id : String} {closure : FetchClosure} {failed : Bool}
  {b₀ b : BrokerImpl H} {es : List (Event H)} {outs : List (List (Action H))}

theorem eventsInv_of_run (hstart : FetchStarted codec id closure failed b₀)
    (hrun : run (BrokerImpl.step codec) b₀ es = .ok (b, outs)) :
    b.Tracked id closure ∧
      EventsInv failed (b.fetchers.get id) (fetchEvents id es) (fetchHistory id outs) := by
  refine hstart.run_life (P := EventsInv failed) ?_ ?_ hrun
  · intro thread
    refine ⟨rfl, rfl, ?_⟩
    intro _
    simp [Deferred.construct]
  · intro exchangeName v v' evs history e as h hstep
    exact EventsInv.step h hstep

/-- A decodable reply to a fetch that has reported no error is passed to the handler that the
client registered last, and this once, if and only if it is the first message received, the
client had registered a handler before, and the gate was open: the consumer had succeeded, or the
uninitialised flag happened to be false. -/
theorem fetch_reply_passed_iff (hstart : FetchStarted codec id closure failed b₀)
    (hrun : run (BrokerImpl.step codec) b₀ es = .ok (b, outs))
    (hnone : anyErrorReport (fetchHistory id outs) = false) {body : Bytes} {received : Json}
    (hdecode : codec.fromMsgpack body = .ok received) {b' : BrokerImpl H} {as : List (Action H)}
    (hstep : BrokerImpl.step codec b (.fetchCallback id (.received body none)) = .ok (b', as))
    (handler : H) :
    dataCalls (as.filterMap (Action.toFetch id)) = [.data handler (.ok received)] ↔
      anyReceived id es = false ∧ lastOnData id es = some handler ∧
        (failed = false ∨ anyConsumed id es = true) := by
  rcases eventsInv_of_run hstart hrun with ⟨htracked, hinv⟩
  have hfetch := (BrokerImpl.step_fetch htracked hstep).1
  simp only [BrokerImpl.FetchStep, Event.toFetch, if_true] at hfetch
  cases hlive : b.fetchers.get id with
  | none =>
      rw [hlive] at hfetch hinv
      rcases FetchLife.step_removed hfetch with ⟨_, hnil⟩
      -- without a fetcher there is no call, and a message has been received before
      refine iff_of_false (by simp [hnil, dataCalls, handlerCalls]) ?_
      intro hcond
      rcases hinv with hreceived | herror
      · rw [anyReceived, hreceived] at hcond
        cases hcond.1
      · rw [hnone] at herror
        cases herror
  | some o =>
      rw [hlive] at hfetch hinv
      rcases hinv with ⟨hreceived, hdata, hfailed⟩
      have hgate := hfailed hnone
      have hthrows : o.deferred.dataThrows (none : Option Thrown) = none := by
        simp [Deferred.dataThrows]
      simp only [FetchLife.step, FetchLife.callback, FetchLife.receive, hdecode, hthrows,
        Except.ok.injEq, Prod.mk.injEq] at hfetch
      -- the destructor passes no data, so the calls are those of the report
      have hcalls : dataCalls (as.filterMap (Action.toFetch id)) =
          (o.deferred.reportData (.ok received)).filter Call.isData := by
        have hsplit := dataCalls_append
          [(.report (.data (.ok received)) (o.deferred.reportData (.ok received)) : FetchAction H)]
          [.destroyed o.deferred.destroy]
        rw [dataCalls_destroy, List.append_nil] at hsplit
        rw [← hfetch.2]
        simpa [dataCalls, handlerCalls, ObjectAction.calls] using hsplit
      rw [hcalls, anyReceived, lastOnData, anyConsumed, hreceived, ← hdata]
      cases hopen : o.deferred.failed with
      | true =>
          -- the gate is shut: uninitialised memory held true and the consumer has not succeeded
          rw [hopen] at hgate
          have hshut : ¬ (failed = false ∨ (fetchEvents id es).any FetchEvent.isConsumed = true) := by
            intro hor
            rcases hor with hor | hor <;> simp [hor] at hgate
          rw [Deferred.reportData_of_failed hopen]
          exact iff_of_false (by simp) fun hcond => hshut hcond.2.2
      | false =>
          -- the gate is open, and what remains is whether a handler is registered
          have hor : failed = false ∨ (fetchEvents id es).any FetchEvent.isConsumed = true := by
            rw [hopen] at hgate
            cases failed with
            | false => exact Or.inl rfl
            | true => exact Or.inr (by simpa using hgate)
          cases hregistered : o.deferred.dataHandler with
          | none =>
              simp [Deferred.reportData, hregistered]
          | some handler' =>
              have hor' : failed = false ∨ ∃ e ∈ fetchEvents id es, e.isConsumed = true := by
                simpa using hor
              rw [Deferred.reportData_of_open hopen hregistered]
              simp [List.filter_cons, Call.isData, hor']

/-- With the handler registered in time, the reply is passed to it. -/
theorem fetch_reply_passed :
    ∃ b outs b' as,
      run (BrokerImpl.step Codec.small) (sampleFetch true)
        [.fetchCallback "1" (.declared "amq.gen-1"), .fetchRegister "1" (.onData 1),
          .fetchCallback "1" .consumed] = .ok (b, outs) ∧
      BrokerImpl.step Codec.small b (.fetchCallback "1" (.received [0xc3] none)) = .ok (b', as) ∧
      dataCalls (as.filterMap (Action.toFetch "1")) = [.data 1 (.ok (.boolean true))] := by
  obtain ⟨⟨b, outs⟩, hrun, hnone, ⟨b', as⟩, hstep⟩ : ∃ r,
      run (BrokerImpl.step Codec.small) (sampleFetch true)
        [.fetchCallback "1" (.declared "amq.gen-1"), .fetchRegister "1" (.onData 1),
          .fetchCallback "1" .consumed] = .ok r ∧
      anyErrorReport (fetchHistory "1" r.2) = false ∧
      ∃ r', BrokerImpl.step Codec.small r.1 (.fetchCallback "1" (.received [0xc3] none)) = .ok r' :=
    ⟨_, rfl, rfl, _, rfl⟩
  refine ⟨b, outs, b', as, hrun, hstep, ?_⟩
  exact (fetch_reply_passed_iff (sampleFetch_started true) hrun hnone rfl hstep 1).2
    ⟨rfl, rfl, Or.inr rfl⟩

/-- A reply that arrives before the registration is passed to nobody, and the client's
registration then goes to an object that has been destroyed. -/
theorem fetch_reply_lost :
    ∃ b outs b' as,
      FetchStarted Codec.small "1" { message := .null, routingKey := "echo.ping" } true
        (sampleFetch true) ∧
      run (BrokerImpl.step Codec.small) (sampleFetch true)
        [.fetchCallback "1" (.declared "amq.gen-1"), .fetchCallback "1" .consumed] =
        .ok (b, outs) ∧
      anyErrorReport (fetchHistory "1" outs) = false ∧
      BrokerImpl.step Codec.small b (.fetchCallback "1" (.received [0xc3] none)) = .ok (b', as) ∧
      dataCalls (as.filterMap (Action.toFetch "1")) = [] ∧
      BrokerImpl.step Codec.small b' (.fetchRegister "1" (.onData 1)) = .error .dangling :=
  ⟨_, _, _, _, sampleFetch_started true, rfl, rfl, rfl, rfl, rfl⟩

end Runs

end CapyAmqp
