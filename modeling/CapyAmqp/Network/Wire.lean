import CapyAmqp.Broker.Requests
import CapyAmqp.Broker.RoundTrip
import CapyAmqp.Msgpack.RoundTrip
import CapyAmqp.Network.Correlation

/-!
# Wire — values on their way through a network

The network with MessagePack as its coder.  What a listener is handed is what the client has passed
to `fetch_message`, and what the data handler of a fetch gets is the reply that the listener has
committed for it, exactly if these are values that a `basic_json` can hold and their sizes have 32
bits (`request_arrives`, `reply_arrives`).  There is no other way for a value to change.
-/

namespace CapyAmqp

open Lib

/-- The coder of the library. -/
def Codec.msgpack : Codec :=
  { toMsgpack := Msgpack.writeMsgpack
    fromMsgpack := Msgpack.fromMsgpack }

/-- What is decoded of an encoded value is the value exactly if it can be encoded. -/
theorem Codec.msgpack_eq_iff {v received : Json}
    (h : Codec.msgpack.fromMsgpack (Codec.msgpack.toMsgpack v) = .ok received) :
    received = v ↔ v.Valid ∧ v.Fits := by
  rw [← Msgpack.spells_writeMsgpack_iff]
  constructor
  · rintro rfl
    exact Msgpack.spells_of_fromMsgpack h
  · intro hv
    have heq : (Except.ok received : Except Thrown Json) = .ok v := h.symm.trans hv.fromMsgpack
    cases heq
    rfl

variable {B H : Type} [DecidableEq B]

/-- In every run of a network, a listener is handed what has been published; if that is the request
of a fetch, it is the client's message exactly if that can be encoded. -/
theorem request_arrives {exchangeName : B → String} {es : List (NetworkEvent B H)}
    {net net' : Network B H} {outs : List (List (Action H))} {e : NetworkEvent B H}
    {as : List (Action H)} {data : ListenData}
    (hrun : run (Network.step Codec.msgpack) (Network.construct exchangeName) es = .ok (net, outs))
    (hstep : Network.step Codec.msgpack net e = .ok (net', as))
    (hdata : data ∈ as.filterMap Action.request) :
    ∃ thread id n deliveryTag throws m received,
      e = .requestDelivered e.broker thread id n deliveryTag throws ∧
      net.published[n]? = some m ∧
      data.1 = .ok { message := received, routingKey := m.routingKey } ∧
      ∀ id' closure, m.purpose = .request id' →
        (net.brokers m.sender).fetchClosures.get id' = some closure →
        m.routingKey = closure.routingKey ∧
          (received = closure.message ↔ closure.message.Valid ∧ closure.message.Fits) := by
  have hnet := (Network.correlated_of_run hrun).1
  cases e with
  | own c e =>
      rcases Network.own_ok_iff.1 hstep with ⟨hlocal, hperform⟩
      rcases Network.perform_ok_iff.1 hperform with ⟨b, hb, rfl⟩
      rcases BrokerImpl.step_request hb hdata with ⟨_, _, _, _, _, _, rfl, _⟩
      exact absurd rfl hlocal
  | queueDeclared c id name =>
      rcases Network.perform_ok_iff.1 (Network.queueDeclared_ok_iff.1 hstep).2.2 with ⟨b, hb, rfl⟩
      rcases BrokerImpl.step_request hb hdata with ⟨_, _, _, _, _, _, hevent, _⟩
      cases hevent
  | replyDelivered c id queue n throws =>
      rcases Network.replyDelivered_ok_iff.1 hstep with ⟨m, _, _, _, hperform⟩
      rcases Network.perform_ok_iff.1 hperform with ⟨b, hb, rfl⟩
      rcases BrokerImpl.step_request hb hdata with ⟨_, _, _, _, _, _, hevent, _⟩
      cases hevent
  | requestDelivered c thread id n deliveryTag throws =>
      rcases Network.requestDelivered_ok_iff.1 hstep with ⟨m, b, hm, hb, rfl⟩
      rcases BrokerImpl.step_request hb hdata with ⟨_, _, _, _, _, received, hevent, hdecode, hvalue⟩
      cases hevent
      refine ⟨thread, id, n, deliveryTag, throws, m, received, rfl, hm, hvalue, ?_⟩
      intro id' closure hpurpose hclosure
      -- the request carries what the fetch has captured
      have haccounted := hnet.published m (List.mem_of_getElem? hm)
      simp only [Network.Accounted, hpurpose] at haccounted
      rcases haccounted.1.closure with ⟨name, closure', hclosure', henvelope, hkey⟩
      rw [hclosure] at hclosure'
      cases hclosure'
      refine ⟨hkey, Codec.msgpack_eq_iff ?_⟩
      have hbody : m.message.body = Codec.msgpack.toMsgpack closure.message := by
        rw [Packet.message, henvelope, BrokerImpl.fetchEnvelope]
      rw [← hbody]
      exact hdecode

/-- Some listener is handed null under the routing key `echo.ping`. -/
def requestsPing (as : List (Action Nat)) : Bool :=
  (as.filterMap Action.request).any fun data =>
    match data.1 with
    | .ok { message := .null, routingKey := key } => key == "echo.ping"
    | _ => false

/-- The first message is the request of the client's fetch, whose message is null. -/
def asksPing (net : Network Bool Nat) : Bool :=
  match (net.published[0]? : Option (Packet Bool)), (net.brokers false).fetchClosures.get "1" with
  | some ⟨⟨.request id, _, _, _⟩, sender⟩, some ⟨.null, _⟩ =>
      id == "1" && sender == false
  | _, _ => false

theorem exists_of_asksPing {net : Network Bool Nat} (h : asksPing net = true) :
    ∃ m closure, net.published[0]? = some m ∧ m.purpose = .request "1" ∧
      (net.brokers m.sender).fetchClosures.get "1" = some closure ∧ closure.message = .null := by
  unfold asksPing at h
  split at h
  · rename_i hpublished hclosure
    simp only [Bool.and_eq_true, beq_iff_eq] at h
    rcases h with ⟨rfl, rfl⟩
    exact ⟨_, _, hpublished, rfl, hclosure, rfl⟩
  · cases h

/-- A listener is handed the message of a fetch, null. -/
theorem request_arrives_ping :
    ∃ (net net' : Network Bool Nat) (outs : List (List (Action Nat))) (as : List (Action Nat))
      (data : ListenData) (m : Packet Bool) (received : Json) (closure : FetchClosure),
      run (Network.step Codec.msgpack) (Network.construct fun _ => "amq.topic")
        (sampleExchange.take 5) = .ok (net, outs) ∧
      Network.step Codec.msgpack net (.requestDelivered true 0 "1" 0 7 none) = .ok (net', as) ∧
      requestsPing as = true ∧ data ∈ as.filterMap Action.request ∧
      net.published[0]? = some m ∧
      data.1 = .ok { message := received, routingKey := m.routingKey } ∧
      m.purpose = .request "1" ∧ (net.brokers m.sender).fetchClosures.get "1" = some closure ∧
      m.routingKey = closure.routingKey ∧
      (received = closure.message ↔ closure.message.Valid ∧ closure.message.Fits) ∧
      received = .null := by
  have hsample : (run (Network.step Codec.msgpack) (Network.construct fun _ => "amq.topic")
      (sampleExchange.take 5 ++ [.requestDelivered true 0 "1" 0 7 none])).map
      (fun r => r.2.getLast?.map requestsPing) = .ok (some true) := by
    decide +kernel
  have hasks : (run (Network.step Codec.msgpack) (Network.construct fun _ => "amq.topic")
      (sampleExchange.take 5)).map (fun r => asksPing r.1) = .ok true := by
    decide +kernel
  rcases ok_of_map hsample with ⟨⟨net', outs'⟩, hall, hlast⟩
  rcases run_concat_ok_iff.1 hall with ⟨net, outs, as, hrun, hstep, rfl⟩
  have hping : requestsPing as = true := by
    simpa using hlast
  rcases List.any_eq_true.1 hping with ⟨data, hdata, _⟩
  rcases request_arrives hrun hstep hdata with
    ⟨_, _, n, _, _, m, received, hevent, hm, hvalue, hrequest⟩
  cases hevent
  -- the message is the request of the fetch
  rw [hrun] at hasks
  rcases exists_of_asksPing (Except.ok.inj hasks) with ⟨m', closure, hm', hpurpose, hclosure, hnull⟩
  rw [hm] at hm'
  cases hm'
  rcases hrequest "1" closure hpurpose hclosure with ⟨hkey, hiff⟩
  have hencodable : closure.message.Valid ∧ closure.message.Fits := by
    rw [hnull]
    exact ⟨trivial, trivial⟩
  exact ⟨net, net', outs, as, data, m, received, closure, hrun, hstep, hping, hdata, hm, hvalue,
    hpurpose, hclosure, hkey, hiff, (hiff.2 hencodable).trans hnull⟩

/-- In every run of a network, what the data handler of a fetch gets is a reply to its request, and
it is what has been committed exactly if that can be encoded. -/
theorem reply_arrives {exchangeName : B → String} {es : List (NetworkEvent B H)}
    {net net' : Network B H} {outs : List (List (Action H))} {e : NetworkEvent B H}
    {as : List (Action H)} {id : String} {handler : H} {payload : Payload}
    (hrun : run (Network.step Codec.msgpack) (Network.construct exchangeName) es = .ok (net, outs))
    (hstep : Network.step Codec.msgpack net e = .ok (net', as))
    (hdata : .data handler payload ∈ dataCalls (as.filterMap (Action.toFetch id))) :
    ∃ queue n throws reply r message received, e = .replyDelivered e.broker id queue n throws ∧
      net.published[n]? = some reply ∧ reply.purpose = .reply r message ∧
      net.Answers Codec.msgpack reply e.broker id ∧ payload = .ok received ∧
      (received = replyJson message ↔ (replyJson message).Valid ∧ (replyJson message).Fits) := by
  have hnet := (Network.correlated_of_run hrun).1
  cases e with
  | own c e =>
      rcases Network.own_ok_iff.1 hstep with ⟨hlocal, hperform⟩
      rcases Network.perform_ok_iff.1 hperform with ⟨b, hb, rfl⟩
      rcases step_data hb hdata with ⟨_, _, _, rfl, _⟩
      exact absurd rfl hlocal
  | queueDeclared c id' name =>
      rcases Network.perform_ok_iff.1 (Network.queueDeclared_ok_iff.1 hstep).2.2 with ⟨b, hb, rfl⟩
      rcases step_data hb hdata with ⟨_, _, _, hevent, _⟩
      cases hevent
  | replyDelivered c id' queue n throws =>
      rcases Network.replyDelivered_ok_iff.1 hstep with ⟨m, hm, hreplies, hconsumer, hperform⟩
      rcases Network.perform_ok_iff.1 hperform with ⟨b, hb, rfl⟩
      rcases step_data hb hdata with ⟨_, _, received, hevent, hdecode, hpayload⟩
      cases hevent
      have hanswers := hnet.answers (List.mem_of_getElem? hm) hreplies hconsumer
      rcases hanswers with ⟨r, message, n', request, hpurpose, hbody, hrest⟩
      rw [hbody] at hdecode
      exact ⟨queue, n, throws, m, r, message, received, rfl, hm, hpurpose,
        ⟨r, message, n', request, hpurpose, hbody, hrest⟩, hpayload, Codec.msgpack_eq_iff hdecode⟩
  | requestDelivered c thread id' n deliveryTag throws =>
      rcases Network.requestDelivered_ok_iff.1 hstep with ⟨m, b, hm, hb, rfl⟩
      rcases step_data hb hdata with ⟨_, _, _, hevent, _⟩
      cases hevent

theorem reply_arrives_true :
    ∃ (net net' : Network Bool Nat) (outs : List (List (Action Nat))) (as : List (Action Nat))
      (reply : Packet Bool) (r : Ptr) (message : Payload) (received : Json),
      run (Network.step Codec.msgpack) (Network.construct fun _ => "amq.topic") sampleExchange =
        .ok (net, outs) ∧
      Network.step Codec.msgpack net (.replyDelivered false "1" "amq.gen-1" 1 none) = .ok (net', as) ∧
      receivesTrue as = true ∧ reply.purpose = .reply r message ∧
      (received = replyJson message ↔ (replyJson message).Valid ∧ (replyJson message).Fits) := by
  have hsample : (run (Network.step Codec.msgpack) (Network.construct fun _ => "amq.topic")
      (sampleExchange ++ [.replyDelivered false "1" "amq.gen-1" 1 none])).map
      (fun r => r.2.getLast?.map receivesTrue) = .ok (some true) := by
    decide +kernel
  rcases ok_of_map hsample with ⟨⟨net', outs'⟩, hall, hlast⟩
  rcases run_concat_ok_iff.1 hall with ⟨net, outs, as, hrun, hstep, rfl⟩
  have hreceives : receivesTrue as = true := by
    simpa using hlast
  rcases List.any_eq_true.1 hreceives with ⟨call, hcall, hshape⟩
  obtain ⟨payload, hdata⟩ : ∃ payload, .data 2 payload ∈
      dataCalls (as.filterMap (Action.toFetch "1")) := by
    split at hshape
    · exact ⟨_, hcall⟩
    · cases hshape
  rcases reply_arrives hrun hstep hdata with
    ⟨_, _, _, reply, r, message, received, _, _, hpurpose, _, _, hiff⟩
  exact ⟨net, net', outs, as, reply, r, message, received, hrun, hstep, hreceives, hpurpose, hiff⟩

end CapyAmqp
