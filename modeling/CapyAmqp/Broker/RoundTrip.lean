import CapyAmqp.Broker.FetchOutcome
import CapyAmqp.Broker.OneReply

/-!
# RoundTrip — a reply on its way from the listener to the fetch

The commit handler encodes an error as the JSON array `["error", …]`; the callback of the fetch
passes on whatever it decodes as a value.  `reply_round_trip_iff` follows a reply from the commit
of one broker to the data handler of another and says when the two ends agree.
-/

namespace CapyAmqp

open Lib

variable {H : Type}

/-- What the fetch receives agrees with what the listener has committed. -/
structure Agrees (message received : Payload) : Prop where
  /-- A non-empty value arrives as itself. -/
  value : ∀ v, message = .ok v → v.empty = false → received = .ok v
  /-- An error arrives as an error with its value and message. -/
  error : ∀ e, message = .error e →
    ∃ e', received = .error e' ∧ e'.value = e.value ∧ e'.message = e.message
  /-- An error reply is not delivered as a value, and no other reply as an error. -/
  kind : (replyError message).empty = false ↔ ∃ e, received = .error e

/-! ## The two ends -/

@[simp] theorem empty_null : Json.null.empty = true := rfl

@[simp] theorem empty_replyErrorJson (code : Int) (message : String) :
    (replyErrorJson code message).empty = false := rfl

theorem replyError_of_value {v : Json} (hv : v.empty = false) : replyError (.ok v) = .null := by
  simp [replyError, hv]

theorem replyError_of_empty {v : Json} (hv : v.empty = true) :
    replyError (.ok v) =
      replyErrorJson BrokerError.emptyReplay.toInt "worker replay is empty" := by
  simp [replyError, hv]

/-- The reply carries the committed value, unless the commit handler makes an error of it. -/
theorem replyJson_of_value {v : Json} (hv : v.empty = false) : replyJson (.ok v) = v := by
  simp [replyJson, replyError_of_value hv]

/-- What the callback decodes is always passed on as a value. -/
theorem agrees_value_iff (message : Payload) :
    Agrees message (.ok (replyJson message)) ↔ ∃ v, message = .ok v ∧ v.empty = false := by
  constructor
  · intro h
    cases message with
    | error e =>
        rcases h.error e rfl with ⟨e', he', _⟩
        cases he'
    | ok v =>
        refine ⟨v, rfl, ?_⟩
        cases hv : v.empty with
        | false => rfl
        | true =>
            -- an empty value is replaced by an error reply, which arrives as a value
            have hreply : (replyError (.ok v)).empty = false := by
              simp [replyError_of_empty hv]
            rcases h.kind.1 hreply with ⟨e, he⟩
            cases he
  · rintro ⟨v, rfl, hv⟩
    rw [replyJson_of_value hv]
    refine ⟨?_, ?_, ?_⟩
    · rintro w ⟨⟩ _
      rfl
    · rintro e ⟨⟩
    · simp [replyError_of_value hv]

/-- The body that a commit publishes is the encoded reply. -/
theorem body_of_commit {codec : Codec} {thread : ThreadId} {r : Ptr} {o : ReplayImpl H}
    {b b' : BrokerImpl H} {as : List (Action H)} {exchange routingKey : String}
    {envelope : Envelope} {flags : List Flag} (hread : b.replays.read r = some o)
    (hstep : BrokerImpl.step codec b (.replayCall thread r .commit) = .ok (b', as))
    (hpublish : .replay r (.channel (.publish exchange routingKey envelope flags)) ∈ as) :
    envelope.body = codec.toMsgpack (replyJson o.message) := by
  simp only [BrokerImpl.step, BrokerImpl.replayCall, hread] at hstep
  cases hhandler : o.commitHandler with
  | none =>
      simp only [BrokerImpl.replayCommit, hhandler, Prog.skip_ok_iff] at hstep
      rw [hstep.2] at hpublish
      cases hpublish
  | some h =>
      rcases BrokerImpl.replayCommit_cases hhandler hstep with ⟨_, _, rfl⟩
      -- of the three operations only the middle one publishes
      simp [BrokerImpl.replyOps] at hpublish
      rw [hpublish.2.2.1]

/-- A decodable reply to a live and open fetch is passed to the data handler, once. -/
theorem data_of_reply {codec : Codec} {id : String} {closure : FetchClosure}
    {f : DeferredFetching H} {hd : H} {b : BrokerImpl H} {body : Bytes} {received : Json}
    (hclosure : b.fetchClosures.get id = some closure) (hlive : b.fetchers.get id = some f)
    (hopen : f.deferred.failed = false) (hdata : f.deferred.dataHandler = some hd)
    (hdecode : codec.fromMsgpack body = .ok received) :
    ∃ b' as, BrokerImpl.step codec b (.fetchCallback id (.received body none)) = .ok (b', as) ∧
      dataCalls (as.filterMap (Action.toFetch id)) = [.data hd (.ok received)] := by
  let as : List (FetchAction H) :=
    [.report (.data (.ok received)) (f.deferred.reportData (.ok received)),
      .destroyed f.deferred.destroy]
  -- the value is reported, then the fetcher goes
  have hreceive : FetchLife.receive codec f body none = .ok (none, as) := by
    simp [FetchLife.receive, hdecode, Deferred.dataThrows, as]
  have hstep : BrokerImpl.step codec b (.fetchCallback id (.received body none)) =
      .ok (b.withFetcher id none, as.map (.fetch id)) := by
    simp only [BrokerImpl.step, BrokerImpl.onFetchCallback, hclosure, BrokerImpl.fetchCallback,
      BrokerImpl.fetchReceived_of_live codec hlive, hreceive, liftFetch]
  have hreport : f.deferred.reportData (.ok received) = [.data hd (.ok received)] :=
    Deferred.reportData_of_open hopen hdata
  refine ⟨_, _, hstep, ?_⟩
  calc dataCalls ((as.map (Action.fetch id)).filterMap (Action.toFetch id))
      = dataCalls as := by rw [BrokerImpl.filterMap_toFetch_self]
    _ = dataCalls [.report (.data (.ok received)) (f.deferred.reportData (.ok received))] ++
          dataCalls [.destroyed f.deferred.destroy] := dataCalls_append [_] [_]
    _ = [.data hd (.ok received)] := by
          rw [dataCalls_destroy, hreport]
          rfl

/-- A reply agrees with what the fetch receives exactly if the listener has committed a non-empty
value: an error, and the error that takes the place of an empty value, arrive as values. -/
theorem reply_round_trip_iff {codec : Codec} {thread : ThreadId} {r : Ptr} {o : ReplayImpl H}
    {server server' client : BrokerImpl H} {as : List (Action H)} {exchange routingKey id : String}
    {envelope : Envelope} {flags : List Flag} {closure : FetchClosure} {f : DeferredFetching H}
    {hd : H} (hread : server.replays.read r = some o)
    (hcommit : BrokerImpl.step codec server (.replayCall thread r .commit) = .ok (server', as))
    (hpublish : .replay r (.channel (.publish exchange routingKey envelope flags)) ∈ as)
    (hclosure : client.fetchClosures.get id = some closure)
    (hlive : client.fetchers.get id = some f) (hopen : f.deferred.failed = false)
    (hdata : f.deferred.dataHandler = some hd)
    (hcodec : codec.fromMsgpack (codec.toMsgpack (replyJson o.message)) =
      .ok (replyJson o.message)) :
    ∃ client' bs received,
      BrokerImpl.step codec client (.fetchCallback id (.received envelope.body none)) =
        .ok (client', bs) ∧
      dataCalls (bs.filterMap (Action.toFetch id)) = [.data hd received] ∧
      (Agrees o.message received ↔ ∃ v, o.message = .ok v ∧ v.empty = false) := by
  -- the published body is the encoded reply, and the codec brings it back
  have hdecode : codec.fromMsgpack envelope.body = .ok (replyJson o.message) := by
    rw [body_of_commit hread hcommit hpublish]
    exact hcodec
  rcases data_of_reply hclosure hlive hopen hdata hdecode with ⟨client', bs, hstep, hcalls⟩
  exact ⟨client', bs, _, hstep, hcalls, agrees_value_iff o.message⟩

/-! ## Two replies -/

/-- The message of a live replay can be set. -/
theorem step_setMessage {codec : Codec} {thread : ThreadId} {r : Ptr} {o : ReplayImpl H}
    {b : BrokerImpl H} (hread : b.replays.read r = some o) (message : Payload) :
    ∃ b', BrokerImpl.step codec b (.replayCall thread r (.setMessage message)) = .ok (b', []) ∧
      b'.replays.read r = some { o with message := message } := by
  refine ⟨_, by simp only [BrokerImpl.step, BrokerImpl.replayCall, hread]; rfl, ?_⟩
  simp [hread]

/-- A commit publishes to the queue that the request has named. -/
theorem step_commit {codec : Codec} {thread : ThreadId} {r : Ptr} {o : ReplayImpl H}
    {h : CommitHandler} {b : BrokerImpl H} (hread : b.replays.read r = some o)
    (hhandler : o.commitHandler = some h) :
    ∃ b' as envelope, BrokerImpl.step codec b (.replayCall thread r .commit) = .ok (b', as) ∧
      .replay r (.channel (.publish "" h.replayTo envelope [])) ∈ as := by
  obtain ⟨⟨b', as⟩, hstep⟩ : ∃ result,
      BrokerImpl.step codec b (.replayCall thread r .commit) = .ok result := by
    simp [BrokerImpl.step, BrokerImpl.replayCall, hread, BrokerImpl.replayCommit, hhandler, Prog.all,
      Prog.seq, Prog.skip, BrokerImpl.runCommitHandler, BrokerImpl.modifyReplay]
  have hcommit : BrokerImpl.replayCommit codec thread r o b = .ok (b', as) := by
    simpa only [BrokerImpl.step, BrokerImpl.replayCall, hread] using hstep
  rcases BrokerImpl.replayCommit_cases hhandler hcommit with ⟨_, _, rfl⟩
  exact ⟨b', _, _, hstep, .tail _ (.head _)⟩

/-- The MessagePack form of the error reply with the code 318 and the text "some error". -/
def errorReplyBytes : Bytes :=
  [0x92, 0xa5, 0x65, 0x72, 0x72, 0x6f, 0x72, 0x82, 0xa4, 0x63, 0x6f, 0x64, 0x65, 0xcd, 0x01, 0x3e,
    0xa7, 0x6d, 0x65, 0x73, 0x73, 0x61, 0x67, 0x65, 0xaa, 0x73, 0x6f, 0x6d, 0x65, 0x20, 0x65, 0x72,
    0x72, 0x6f, 0x72]

/-- The coder on this reply and on the values of `Codec.small`. -/
def Codec.errorReply : Codec :=
  { toMsgpack := fun value =>
      match value with
      | .array _ => errorReplyBytes
      | value => Codec.small.toMsgpack value
    fromMsgpack := fun body =>
      if body = errorReplyBytes then .ok (replyErrorJson 318 "some error")
      else Codec.small.fromMsgpack body }

/-- A fetch that waits for its reply. -/
def sampleWaiting : List (Event Nat) :=
  [.fetchRegister "1" (.onData 1), .fetchCallback "1" (.declared "amq.gen-1"),
    .fetchCallback "1" .consumed]

/-- A client whose fetch waits. -/
theorem sampleWaiting_run :
    ∃ client outs f,
      run (BrokerImpl.step Codec.errorReply) (sampleFetch true) sampleWaiting = .ok (client, outs) ∧
      client.fetchClosures.get "1" = some { message := .null, routingKey := "echo.ping" } ∧
      client.fetchers.get "1" = some f ∧ f.deferred.failed = false ∧
      f.deferred.dataHandler = some 1 :=
  ⟨_, _, _, rfl, rfl, rfl, rfl, rfl⟩

/-- `server` is a broker whose listener has been given a request, and whose handler has set the
message of the replay. -/
def Served (message : Payload) (server : BrokerImpl Nat) : Prop :=
  ∃ b₀, ReplayStarted Codec.errorReply sampleRequest 0 b₀ ∧
    BrokerImpl.step Codec.errorReply b₀ (.replayCall 0 0 (.setMessage message)) = .ok (server, [])

theorem served_commit (message : Payload) :
    ∃ server server' as o envelope, Served message server ∧
      server.replays.read 0 = some o ∧ o.message = message ∧
      BrokerImpl.step Codec.errorReply server (.replayCall 0 0 .commit) = .ok (server', as) ∧
      .replay 0 (.channel (.publish "" "amq.gen-1" envelope [])) ∈ as := by
  obtain ⟨b₀, o, h, hstart, hread, hhandler, hreplyTo⟩ :
      ∃ (b₀ : BrokerImpl Nat) (o : ReplayImpl Nat) (h : CommitHandler),
        ReplayStarted Codec.errorReply sampleRequest 0 b₀ ∧ b₀.replays.read 0 = some o ∧
        o.commitHandler = some h ∧ h.replayTo = "amq.gen-1" :=
    ⟨_, _, _, ⟨sampleConsuming, 0, "1", 7, none, .boolean true, _,
      ⟨"amq.topic", sampleListening, _, rfl⟩, rfl, rfl, rfl⟩, rfl, rfl, rfl⟩
  -- the handler sets the message, then commits
  rcases step_setMessage hread message with ⟨server, hset, hread'⟩
  rcases step_commit hread' hhandler with ⟨server', as, envelope, hcommit, hpublish⟩
  rw [hreplyTo] at hpublish
  exact ⟨server, server', as, _, envelope, ⟨b₀, hstart, hset⟩, hread', rfl, hcommit, hpublish⟩

/-- A value that is committed arrives as itself. -/
theorem value_reply_delivered :
    ∃ (server server' client' : BrokerImpl Nat) (as bs : List (Action Nat)) (envelope : Envelope)
      (received : Payload),
      Served (.ok (.boolean true)) server ∧
      BrokerImpl.step Codec.errorReply server (.replayCall 0 0 .commit) = .ok (server', as) ∧
      .replay 0 (.channel (.publish "" "amq.gen-1" envelope [])) ∈ as ∧
      (∃ client outs, run (BrokerImpl.step Codec.errorReply) (sampleFetch true) sampleWaiting =
          .ok (client, outs) ∧
        BrokerImpl.step Codec.errorReply client (.fetchCallback "1" (.received envelope.body none)) =
          .ok (client', bs)) ∧
      dataCalls (bs.filterMap (Action.toFetch "1")) = [.data 1 received] ∧
      Agrees (.ok (.boolean true)) received := by
  rcases served_commit (.ok (.boolean true)) with
    ⟨server, server', as, o, envelope, hserved, hread, hmessage, hcommit, hpublish⟩
  rcases sampleWaiting_run with ⟨client, outs, f, hrun, hclosure, hlive, hopen, hdata⟩
  -- this codec brings the committed value back
  have hcodec : Codec.errorReply.fromMsgpack (Codec.errorReply.toMsgpack (replyJson o.message)) =
      .ok (replyJson o.message) := by
    rw [hmessage]
    rfl
  rcases reply_round_trip_iff hread hcommit hpublish hclosure hlive hopen hdata hcodec with
    ⟨client', bs, received, hstep, hcalls, hagrees⟩
  rw [hmessage] at hagrees
  exact ⟨server, server', client', as, bs, envelope, received, hserved, hcommit, hpublish,
    ⟨client, outs, hrun, hstep⟩, hcalls, hagrees.2 ⟨.boolean true, rfl, rfl⟩⟩

/-- An error that is committed arrives as a value. -/
theorem error_reply_delivered_as_value :
    ∃ (server server' client' : BrokerImpl Nat) (as bs : List (Action Nat)) (envelope : Envelope)
      (received : Payload),
      Served (.error (.broker .dataResponse "some error")) server ∧
      BrokerImpl.step Codec.errorReply server (.replayCall 0 0 .commit) = .ok (server', as) ∧
      .replay 0 (.channel (.publish "" "amq.gen-1" envelope [])) ∈ as ∧
      (∃ client outs, run (BrokerImpl.step Codec.errorReply) (sampleFetch true) sampleWaiting =
          .ok (client, outs) ∧
        BrokerImpl.step Codec.errorReply client (.fetchCallback "1" (.received envelope.body none)) =
          .ok (client', bs)) ∧
      dataCalls (bs.filterMap (Action.toFetch "1")) = [.data 1 received] ∧
      ¬ Agrees (.error (.broker .dataResponse "some error")) received := by
  rcases served_commit (.error (.broker .dataResponse "some error")) with
    ⟨server, server', as, o, envelope, hserved, hread, hmessage, hcommit, hpublish⟩
  rcases sampleWaiting_run with ⟨client, outs, f, hrun, hclosure, hlive, hopen, hdata⟩
  have hdecode : Codec.errorReply.fromMsgpack envelope.body =
      .ok (replyErrorJson 318 "some error") := by
    -- the error is published as the object with its code and text
    have hbytes : Codec.errorReply.toMsgpack
        (replyJson (.error (.broker .dataResponse "some error"))) = errorReplyBytes := rfl
    rw [body_of_commit hread hcommit hpublish, hmessage, hbytes]
    simp [Codec.errorReply]
  rcases data_of_reply hclosure hlive hopen hdata hdecode with ⟨client', bs, hstep, hcalls⟩
  refine ⟨server, server', client', as, bs, envelope, _, hserved, hcommit, hpublish,
    ⟨client, outs, hrun, hstep⟩, hcalls, ?_⟩
  intro h
  -- the error has arrived as a value
  rcases h.error _ rfl with ⟨e', he', _⟩
  cases he'

end CapyAmqp
