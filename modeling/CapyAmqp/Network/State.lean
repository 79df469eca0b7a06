import CapyAmqp.Broker.Traffic

/-!
# Network — brokers around one AMQP server

A network has any number of brokers, each with the counter of its process, and one AMQP server.
The server is outside the repository; a step of the network assumes of it that

* it gives every reply queue a name of its own, which is not empty and is not given again;
* it delivers to a consumer of a reply queue only what has been published to that queue, and
  nothing but the library's `commit` publishes there;
* it delivers to a listener only what has been published.

Apart from that it is free: every message may be delivered at any time after it has been
published, in any order, more than once or never, and to any listener.
-/

namespace CapyAmqp

open Lib

variable {B H : Type}

/-- A published message with the broker that has published it. -/
structure Packet (B : Type) extends Publication where
  sender : B

namespace Packet

def isReply (m : Packet B) : Bool :=
  match m.purpose with
  | .reply .. => true
  | _ => false

/-- The message as a listener receives it. -/
def message (m : Packet B) : Message :=
  { body := m.envelope.body
    replyTo := m.envelope.replyTo
    routingKey := m.routingKey
    correlationId := m.envelope.correlationId }

/-- The default exchange delivers a message to the queue that its routing key names. -/
def repliesTo (m : Packet B) (queue : String) : Bool :=
  m.isReply && m.exchange == "" && m.routingKey == queue

end Packet

structure Network (B H : Type) where
  brokers : B → BrokerImpl H
  /-- The fetch for which each reply queue has been declared. -/
  queues : Table String (B × String)
  /-- The reply queues that are consumed, and the fetches that do. -/
  consumers : List (String × B × String)
  published : List (Packet B)
  /-- The message for which each replay of each broker has been made, by its place in
  `published`. -/
  requests : B → Table Ptr Nat

/-- A step of a broker; what the server passes on comes with its source. -/
inductive NetworkEvent (B H : Type)
  /-- A step in which the server passes neither a queue name nor a message. -/
  | own (c : B) (e : Event H)
  | queueDeclared (c : B) (id name : String)
  /-- The `n`-th message is delivered from a reply queue. -/
  | replyDelivered (c : B) (id queue : String) (n : Nat) (throws : Option Thrown)
  /-- The `n`-th message is delivered to a listener. -/
  | requestDelivered (c : B) (thread : ThreadId) (id : String) (n deliveryTag : Nat)
      (throws : Option Thrown)

/-- The broker that takes the step. -/
def NetworkEvent.broker : NetworkEvent B H → B
  | .own c _ => c
  | .queueDeclared c .. => c
  | .replyDelivered c .. => c
  | .requestDelivered c .. => c

/-- The callbacks that get a queue name or a message from the server. -/
def Event.fromServer : Event H → Bool
  | .fetchCallback _ (.declared _) => true
  | .fetchCallback _ (.received ..) => true
  | .listenCallback _ _ (.received ..) => true
  | _ => false

namespace Network

def construct (exchangeName : B → String) : Network B H :=
  { brokers := fun c => .construct (exchangeName c)
    queues := Table.empty
    consumers := []
    published := []
    requests := fun _ => Table.empty }

variable [DecidableEq B]

/-- The server notes what the step of a broker has sent. -/
def record (net : Network B H) (c : B) (b : BrokerImpl H) (as : List (Action H)) : Network B H :=
  { net with
    brokers := Function.update net.brokers c b
    consumers := net.consumers ++
      as.filterMap fun a => a.consumption.map fun consumer => (consumer.2, c, consumer.1)
    published := net.published ++
      as.filterMap fun a => (a.publication (net.brokers c)).map fun m =>
        { toPublication := m
          sender := c } }

/-- A broker takes a step. -/
def perform (codec : Codec) (net : Network B H) (c : B) (e : Event H) :
    Except Fault (Network B H × List (Action H)) :=
  match BrokerImpl.step codec (net.brokers c) e with
  | .error f => .error f
  | .ok (b, as) => .ok (net.record c b as, as)

/-- Note for which message the dispatched replays have been made. -/
def serve (net : Network B H) (c : B) (n : Nat) (as : List (Action H)) : Network B H :=
  { net with
    requests := Function.update net.requests c
      ((as.filterMap Action.dispatched).foldl (fun t r => t.set r n) (net.requests c)) }

def step (codec : Codec) (net : Network B H) :
    NetworkEvent B H → Except Fault (Network B H × List (Action H))
  | .own c e => if e.fromServer then .error .disabled else net.perform codec c e
  | .queueDeclared c id name =>
      if name = "" ∨ net.queues.has name then .error .disabled
      else
        { net with queues := net.queues.set name (c, id) }.perform codec c
          (.fetchCallback id (.declared name))
  | .replyDelivered c id queue n throws =>
      match net.published[n]? with
      | none => .error .disabled
      | some m =>
          if m.repliesTo queue ∧ (queue, c, id) ∈ net.consumers then
            net.perform codec c (.fetchCallback id (.received m.envelope.body throws))
          else .error .disabled
  | .requestDelivered c thread id n deliveryTag throws =>
      match net.published[n]? with
      | none => .error .disabled
      | some m =>
          match net.perform codec c
              (.listenCallback thread id (.received m.message deliveryTag throws)) with
          | .error f => .error f
          | .ok (net', as) => .ok (net'.serve c n as, as)

/-! ## The broker in a step of the network -/

variable {codec : Codec} {net net' : Network B H} {as : List (Action H)}

theorem perform_ok_iff {c : B} {e : Event H} :
    net.perform codec c e = .ok (net', as) ↔
      ∃ b, BrokerImpl.step codec (net.brokers c) e = .ok (b, as) ∧ net' = net.record c b as := by
  unfold perform
  cases hstep : BrokerImpl.step codec (net.brokers c) e with
  | error f => simp
  | ok r =>
      simp only [Except.ok.injEq, Prod.mk.injEq]
      constructor
      · rintro ⟨rfl, rfl⟩
        exact ⟨r.1, rfl, rfl⟩
      · rintro ⟨b, hr, rfl⟩
        rw [hr]
        exact ⟨rfl, rfl⟩

/-! ### What each event asks for and does -/

section Steps

variable {c : B} {id queue name : String} {n : Nat}

theorem own_ok_iff {e : Event H} :
    step codec net (.own c e) = .ok (net', as) ↔
      ¬ e.fromServer = true ∧ net.perform codec c e = .ok (net', as) := by
  simp only [step]
  split
  · rename_i hserver
    simp [hserver]
  · rename_i hlocal
    simp [hlocal]

/-- The server makes up a name that it has not given before. -/
theorem queueDeclared_ok_iff :
    step codec net (.queueDeclared c id name : NetworkEvent B H) = .ok (net', as) ↔
      name ≠ "" ∧ net.queues.get name = none ∧
        { net with queues := net.queues.set name (c, id) }.perform codec c
          (.fetchCallback id (.declared name)) = .ok (net', as) := by
  simp only [step]
  split
  · rename_i hused
    refine iff_of_false (by simp) ?_
    rintro ⟨hne, hnone, _⟩
    rcases hused with rfl | hhas
    · exact hne rfl
    · simp [Table.has, hnone] at hhas
  · rename_i hnew
    have hnone : net.queues.get name = none := by
      simpa [Table.has] using (not_or.1 hnew).2
    simp [(not_or.1 hnew).1, hnone]

/-- A reply goes to a consumer of the queue that it names. -/
theorem replyDelivered_ok_iff {throws : Option Thrown} :
    step codec net (.replyDelivered c id queue n throws : NetworkEvent B H) = .ok (net', as) ↔
      ∃ m, net.published[n]? = some m ∧ m.repliesTo queue ∧ (queue, c, id) ∈ net.consumers ∧
        net.perform codec c (.fetchCallback id (.received m.envelope.body throws)) =
          .ok (net', as) := by
  simp only [step]
  cases net.published[n]? with
  | none => simp
  | some m =>
      simp only [Option.some.injEq, exists_eq_left']
      split
      · rename_i hguard
        simp [hguard]
      · rename_i hguard
        refine iff_of_false (by simp) ?_
        rintro ⟨hreplies, hconsumer, _⟩
        exact hguard ⟨hreplies, hconsumer⟩

theorem requestDelivered_ok_iff {thread : ThreadId} {deliveryTag : Nat} {throws : Option Thrown} :
    step codec net (.requestDelivered c thread id n deliveryTag throws : NetworkEvent B H) =
        .ok (net', as) ↔
      ∃ m b, net.published[n]? = some m ∧
        BrokerImpl.step codec (net.brokers c)
          (.listenCallback thread id (.received m.message deliveryTag throws)) = .ok (b, as) ∧
        net' = (net.record c b as).serve c n as := by
  simp only [step]
  cases net.published[n]? with
  | none => simp
  | some m =>
      simp only [Option.some.injEq, exists_and_left, exists_eq_left']
      constructor
      · intro h
        split at h
        · cases h
        · rename_i net₁ bs hperform
          cases h
          rcases perform_ok_iff.1 hperform with ⟨b, hb, rfl⟩
          exact ⟨b, hb, rfl⟩
      · rintro ⟨b, hb, rfl⟩
        rw [perform_ok_iff.2 ⟨b, hb, rfl⟩]

end Steps

/-- What a step of the network means to the brokers: one of them takes a step. -/
theorem step_broker {e : NetworkEvent B H} (h : step codec net e = .ok (net', as)) :
    ∃ e' b, BrokerImpl.step codec (net.brokers e.broker) e' = .ok (b, as) ∧
      net'.brokers = Function.update net.brokers e.broker b := by
  cases e with
  | own c e =>
      rcases perform_ok_iff.1 (own_ok_iff.1 h).2 with ⟨b, hb, rfl⟩
      exact ⟨e, b, hb, rfl⟩
  | queueDeclared c id name =>
      rcases perform_ok_iff.1 (queueDeclared_ok_iff.1 h).2.2 with ⟨b, hb, rfl⟩
      exact ⟨_, b, hb, rfl⟩
  | replyDelivered c id queue n throws =>
      rcases replyDelivered_ok_iff.1 h with ⟨m, _, _, _, hperform⟩
      rcases perform_ok_iff.1 hperform with ⟨b, hb, rfl⟩
      exact ⟨_, b, hb, rfl⟩
  | requestDelivered c thread id n deliveryTag throws =>
      rcases requestDelivered_ok_iff.1 h with ⟨m, b, _, hb, rfl⟩
      exact ⟨_, b, hb, rfl⟩

/-- A broker of a network is a broker: whatever holds of every reachable broker holds of it. -/
theorem reachable_brokers {exchangeName : B → String} {es : List (NetworkEvent B H)}
    {outs : List (List (Action H))}
    (hrun : run (step codec) (construct exchangeName) es = .ok (net, outs)) (c : B) :
    BrokerImpl.Reachable codec (net.brokers c) := by
  let I : Network B H → Prop := fun net => ∀ c, BrokerImpl.Reachable codec (net.brokers c)
  have hinv : I net := by
    refine run_invariant (I := I) ?_ ?_ hrun
    · intro net net' e as hI hstep c
      rcases step_broker hstep with ⟨e', b, hb, hbrokers⟩
      rw [hbrokers]
      by_cases hc : c = e.broker
      · subst hc
        rw [Function.update_self]
        exact (hI e.broker).step hb
      · rw [Function.update_of_ne hc]
        exact hI c
    · intro c
      exact ⟨exchangeName c, [], [], rfl⟩
  exact hinv c

end Network

end CapyAmqp
