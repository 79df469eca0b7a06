import CapyAmqp.Broker.FetchOutcome
import CapyAmqp.Network.State

/-!
# Correlation — which request a reply belongs to

A fetch never looks at the correlation id of a reply.  What ties a reply to its request is the
name of the reply queue: the request carries it, the replay captures it from the request, `commit`
publishes to it, and the server delivers from it to the one fetch for which it has been declared.
`Correlated` states this chain for everything that is in flight; `reply_answers_own_request` draws
the conclusion for every run of a network.
-/

namespace CapyAmqp

open Lib

variable {B H : Type}

namespace Network

/-! ## Requests and replies -/

/-- `m` is the request of the fetch `id` of the broker `c`. -/
structure IsRequest (codec : Codec) (net : Network B H) (c : B) (id : String) (m : Packet B) :
    Prop where
  sender : m.sender = c
  purpose : m.purpose = .request id
  closure : ∃ name closure, (net.brokers c).fetchClosures.get id = some closure ∧
    m.envelope = BrokerImpl.fetchEnvelope codec id name closure.message ∧
    m.routingKey = closure.routingKey

/-- `m` is a reply that has been committed on a replay, and the replay has been made for the
request of the fetch `id` of the broker `c`. -/
def Answers (codec : Codec) (net : Network B H) (m : Packet B) (c : B) (id : String) : Prop :=
  ∃ r message n request, m.purpose = .reply r message ∧
    m.envelope.body = codec.toMsgpack (replyJson message) ∧
    (net.requests m.sender).get r = some n ∧ net.published[n]? = some request ∧
    net.IsRequest codec c id request

/-- A reply answers one request. -/
theorem Answers.unique {codec : Codec} {net : Network B H} {m : Packet B} {c c' : B}
    {id id' : String} (h : net.Answers codec m c id) (h' : net.Answers codec m c' id') :
    c' = c ∧ id' = id := by
  rcases h with ⟨r, message, n, request, hpurpose, _, hrequest, hread, hm⟩
  rcases h' with ⟨r', message', n', request', hpurpose', _, hrequest', hread', hm'⟩
  rw [hpurpose] at hpurpose'
  cases hpurpose'
  rw [hrequest] at hrequest'
  cases hrequest'
  rw [hread] at hread'
  cases hread'
  have hid := hm.purpose.symm.trans hm'.purpose
  cases hid
  exact ⟨hm'.sender.symm.trans hm.sender, rfl⟩

/-! ## What is in flight -/

/-- What is known of a published message. -/
def Accounted (codec : Codec) (net : Network B H) (m : Packet B) : Prop :=
  match m.purpose with
  | .request id =>
      net.IsRequest codec m.sender id m ∧
        net.queues.get m.envelope.replyTo = some (m.sender, id)
  | .reply r message =>
      m.envelope.body = codec.toMsgpack (replyJson message) ∧ m.envelope.replyTo = "" ∧
        ∃ n request, (net.requests m.sender).get r = some n ∧ net.published[n]? = some request ∧
          m.routingKey = request.envelope.replyTo
  | .notice => m.envelope.replyTo = ""

/-- What has been sent can be accounted for, and a reply queue is consumed by the fetch for which it
has been declared. -/
structure Correlated (codec : Codec) (net : Network B H) : Prop where
  reachable : ∀ c, BrokerImpl.Reachable codec (net.brokers c)
  unnamed : net.queues.get "" = none
  published : ∀ m ∈ net.published, net.Accounted codec m
  consumers : ∀ queue c id, (queue, c, id) ∈ net.consumers → net.queues.get queue = some (c, id)

/-- Every replay is to reply to the queue that its request names. -/
structure Served (net : Network B H) : Prop where
  replays : ∀ c r o handler, (net.brokers c).replays.read r = some o →
    o.commitHandler = some handler →
    ∃ n request, (net.requests c).get r = some n ∧ net.published[n]? = some request ∧
      handler.replayTo = request.envelope.replyTo
  fresh : ∀ c r n, (net.requests c).get r = some n → r < (net.brokers c).replays.next

/-! ## Growth -/

/-- Nothing that has been noted is forgotten. -/
structure Grows (net net' : Network B H) : Prop where
  queues : ∀ name f, net.queues.get name = some f → net'.queues.get name = some f
  published : ∀ (n : Nat) m, net.published[n]? = some m → net'.published[n]? = some m
  requests : ∀ c r n, (net.requests c).get r = some n → (net'.requests c).get r = some n
  closures : ∀ c id closure, (net.brokers c).fetchClosures.get id = some closure →
    (net'.brokers c).fetchClosures.get id = some closure

variable {codec : Codec} {net net' : Network B H}

theorem IsRequest.grows (hgrows : Grows net net') {c : B} {id : String} {m : Packet B}
    (h : net.IsRequest codec c id m) : net'.IsRequest codec c id m := by
  rcases h.closure with ⟨name, closure, hclosure, henvelope, hkey⟩
  exact ⟨h.sender, h.purpose, name, closure, hgrows.closures c id closure hclosure, henvelope, hkey⟩

theorem Accounted.grows (hgrows : Grows net net') {m : Packet B} (h : net.Accounted codec m) :
    net'.Accounted codec m := by
  unfold Accounted at h ⊢
  split at h
  · exact ⟨h.1.grows hgrows, hgrows.queues _ _ h.2⟩
  · rcases h with ⟨hbody, hreplyTo, n, request, hrequest, hread, hkey⟩
    exact ⟨hbody, hreplyTo, n, request, hgrows.requests _ _ _ hrequest,
      hgrows.published _ _ hread, hkey⟩
  · exact h

/-! ## Deliveries -/

/-- What is delivered from a reply queue answers the request of the fetch that consumes it. -/
theorem Correlated.answers (h : net.Correlated codec) {m : Packet B} {queue id : String} {c : B}
    (hm : m ∈ net.published) (hqueue : m.repliesTo queue = true)
    (hconsumer : (queue, c, id) ∈ net.consumers) : net.Answers codec m c id := by
  have howner := h.consumers queue c id hconsumer
  simp only [Packet.repliesTo, Bool.and_eq_true, beq_iff_eq] at hqueue
  rcases hqueue with ⟨⟨hreply, _⟩, hkey⟩
  have haccounted := h.published m hm
  unfold Accounted at haccounted
  split at haccounted
  · rename_i id' hpurpose
    simp [Packet.isReply, hpurpose] at hreply
  · rename_i r message hpurpose
    rcases haccounted with ⟨hbody, _, n, request, hrequest, hpublished, hreplyTo⟩
    have hmem : request ∈ net.published := List.mem_of_getElem? hpublished
    have hnamed : request.envelope.replyTo = queue := hreplyTo.symm.trans hkey
    -- the reply came from a declared queue, and no queue is declared without a name
    have hunnamed : request.envelope.replyTo ≠ "" := by
      intro hempty
      rw [← hnamed, hempty, h.unnamed] at howner
      cases howner
    -- only a request names a queue, and it names the one declared for its fetch
    have hrequestAccounted := h.published request hmem
    unfold Accounted at hrequestAccounted
    split at hrequestAccounted
    · rename_i id' hpurpose'
      rw [hnamed, howner] at hrequestAccounted
      rcases hrequestAccounted with ⟨hrequest', hsame⟩
      cases hsame
      exact ⟨r, message, n, request, hpurpose, hbody, hrequest, hpublished, hrequest'⟩
    · exact absurd hrequestAccounted.2.1 hunnamed
    · exact absurd hrequestAccounted hunnamed
  · rename_i hpurpose
    simp [Packet.isReply, hpurpose] at hreply

/-! ## One step -/

/-- The server names a queue. -/
theorem grows_declare {name : String} (hname : net.queues.get name = none) (f : B × String) :
    Grows net { net with queues := net.queues.set name f } := by
  refine ⟨?_, fun _ _ h => h, fun _ _ _ h => h, fun _ _ _ h => h⟩
  intro name' f' hget
  -- the server gives out a name that is not taken
  have hne : name' ≠ name := by
    rintro rfl
    rw [hname] at hget
    cases hget
  show (net.queues.set name f).get name' = some f'
  rw [Table.get_set_of_ne _ _ hne]
  exact hget

theorem Correlated.declare (h : net.Correlated codec) {name : String} (hname : name ≠ "")
    (hnew : net.queues.get name = none) (f : B × String) :
    ({ net with queues := net.queues.set name f } : Network B H).Correlated codec := by
  have hgrows := grows_declare hnew f
  refine ⟨h.reachable, ?_, fun m hm => (h.published m hm).grows hgrows, ?_⟩
  · show (net.queues.set name f).get "" = none
    rw [Table.get_set_of_ne _ _ (Ne.symm hname)]
    exact h.unnamed
  · intro queue c id hconsumer
    exact hgrows.queues _ _ (h.consumers queue c id hconsumer)

variable [DecidableEq B] {c : B} {b : BrokerImpl H} {e : Event H} {as : List (Action H)}

/-- A broker takes a step. -/
theorem grows_record (h : net.Correlated codec)
    (hb : BrokerImpl.step codec (net.brokers c) e = .ok (b, as)) : Grows net (net.record c b as) := by
  refine ⟨fun _ _ h => h, ?_, fun _ _ _ h => h, ?_⟩
  · intro n m hread
    -- publications are put behind the ones that are there
    have hlt : n < net.published.length := by
      by_contra hge
      rw [List.getElem?_eq_none (Nat.le_of_not_lt hge)] at hread
      cases hread
    simp only [record, List.getElem?_append_left hlt]
    exact hread
  · intro c' id closure hclosure
    by_cases hc : c' = c
    · subst hc
      -- the step keeps the closures of its own fetches
      have htracked := (h.reachable c').tracked hclosure
      simp only [record, Function.update_self]
      exact (BrokerImpl.step_fetch htracked hb).2.1.closure
    · simp only [record, Function.update_of_ne hc]
      exact hclosure

theorem mem_published_record {m : Packet B} (hm : m ∈ (net.record c b as).published) :
    m ∈ net.published ∨
      ∃ a ∈ as, a.publication (net.brokers c) = some m.toPublication ∧ m.sender = c := by
  rcases List.mem_append.1 hm with hm | hm
  · exact Or.inl hm
  · rcases List.mem_filterMap.1 hm with ⟨a, ha, hpublication⟩
    rcases Option.map_eq_some_iff.1 hpublication with ⟨x, hx, rfl⟩
    exact Or.inr ⟨a, ha, hx, rfl⟩

theorem mem_consumers_record {queue id : String} {c' : B}
    (h : (queue, c', id) ∈ (net.record c b as).consumers) :
    (queue, c', id) ∈ net.consumers ∨
      ∃ a ∈ as, a.consumption = some (id, queue) ∧ c' = c := by
  rcases List.mem_append.1 h with h | h
  · exact Or.inl h
  · rcases List.mem_filterMap.1 h with ⟨a, ha, hconsumption⟩
    rcases Option.map_eq_some_iff.1 hconsumption with ⟨x, hx, heq⟩
    cases heq
    exact Or.inr ⟨a, ha, hx, rfl⟩

/-- What a step publishes can be accounted for: a request names the queue that has been declared
for it, and a reply goes to the queue that the request of its replay names. -/
theorem accounted_of_publishes (h : net.Correlated codec) (hserved : net.Served)
    (hb : BrokerImpl.step codec (net.brokers c) e = .ok (b, as))
    (hname : ∀ id name, e = .fetchCallback id (.declared name) →
      net.queues.get name = some (c, id)) {m : Packet B}
    (hm : BrokerImpl.Publishes codec (net.brokers c) e m.toPublication) (hsender : m.sender = c) :
    (net.record c b as).Accounted codec m := by
  have hgrows := grows_record h hb
  rcases m with ⟨publication, sender⟩
  obtain rfl : sender = c := hsender
  have hpublishes : BrokerImpl.Publishes codec (net.brokers sender) e publication := hm
  cases hpublishes with
  | request hclosure =>
      refine ⟨⟨rfl, rfl, _, _, hgrows.closures _ _ _ hclosure, rfl, rfl⟩, ?_⟩
      exact hname _ _ rfl
  | reply hread hhandler =>
      rcases hserved.replays _ _ _ _ hread hhandler with ⟨n, request, hrequest, hpublished, hkey⟩
      exact ⟨rfl, rfl, n, request, hrequest, hgrows.published _ _ hpublished, hkey⟩
  | notice =>
      exact rfl

theorem Correlated.record (h : net.Correlated codec) (hserved : net.Served)
    (hb : BrokerImpl.step codec (net.brokers c) e = .ok (b, as))
    (hname : ∀ id name, e = .fetchCallback id (.declared name) →
      net.queues.get name = some (c, id)) : (net.record c b as).Correlated codec := by
  have hgrows := grows_record h hb
  refine ⟨?_, h.unnamed, ?_, ?_⟩
  · intro c'
    by_cases hc : c' = c
    · subst hc
      simp only [Network.record, Function.update_self]
      exact (h.reachable c').step hb
    · simp only [Network.record, Function.update_of_ne hc]
      exact h.reachable c'
  · intro m hm
    -- what was published before is still accounted for, and the rest is this step's
    rcases mem_published_record hm with hm | ⟨a, ha, hpublication, hsender⟩
    · exact (h.published m hm).grows hgrows
    · exact accounted_of_publishes h hserved hb hname
        (BrokerImpl.step_publication hb ha hpublication) hsender
  · intro queue c' id hconsumer
    -- a new consumer is that of the queue that the server has just named
    rcases mem_consumers_record hconsumer with hconsumer | ⟨a, ha, hconsumption, rfl⟩
    · exact h.consumers queue c' id hconsumer
    · exact hname id queue (BrokerImpl.step_consumption hb ha hconsumption)

/-- A step that makes no replay. -/
theorem Served.record (hserved : net.Served) (hgrows : Grows net (net.record c b as))
    (hkeeps : BrokerImpl.KeepsHandlers (net.brokers c) b) : (net.record c b as).Served := by
  refine ⟨?_, ?_⟩
  · intro c' r o handler hread hhandler
    obtain ⟨o', hread', hhandler'⟩ : ∃ o', (net.brokers c').replays.read r = some o' ∧
        o'.commitHandler = some handler := by
      by_cases hc : c' = c
      · subst hc
        simp only [Network.record, Function.update_self] at hread
        rcases hkeeps.handler r o hread with ⟨o', hread', hsame⟩
        exact ⟨o', hread', hsame ▸ hhandler⟩
      · simp only [Network.record, Function.update_of_ne hc] at hread
        exact ⟨o, hread, hhandler⟩
    rcases hserved.replays c' r o' handler hread' hhandler' with ⟨n, request, hn, hpublished, hkey⟩
    exact ⟨n, request, hn, hgrows.published _ _ hpublished, hkey⟩
  · intro c' r n hn
    have hlt := hserved.fresh c' r n hn
    by_cases hc : c' = c
    · subst hc
      simp only [Network.record, Function.update_self, hkeeps.next]
      exact hlt
    · simp only [Network.record, Function.update_of_ne hc]
      exact hlt

/-- A new replay is noted. -/
theorem grows_serve (hserved : net.Served) {n : Nat} :
    Grows net
      { net with
        requests := Function.update net.requests c
          ((net.requests c).set (net.brokers c).replays.next n) } := by
  refine ⟨fun _ _ h => h, fun _ _ h => h, ?_, fun _ _ _ h => h⟩
  intro c' r n' hget
  by_cases hc : c' = c
  · subst hc
    -- the replay is new, so no request has been noted for it
    have hne : r ≠ (net.brokers c').replays.next := Nat.ne_of_lt (hserved.fresh c' r n' hget)
    simp only [Function.update_self, Table.get_set_of_ne _ _ hne]
    exact hget
  · simp only [Function.update_of_ne hc]
    exact hget

/-- The new replay is to reply to the queue that its request names. -/
theorem Served.serve {n : Nat} {m : Packet B} {replay : ReplayImpl H} {handler : CommitHandler}
    (hserved : net.Served) (hgrows : Grows net (net.record c b as))
    (hm : net.published[n]? = some m)
    (hreplays : b.replays = ((net.brokers c).replays.alloc replay).1)
    (hhandler : replay.commitHandler = some handler)
    (hreplyTo : handler.replayTo = m.envelope.replyTo) :
    ({ net.record c b as with
      requests := Function.update net.requests c
        ((net.requests c).set (net.brokers c).replays.next n) } : Network B H).Served := by
  let requests := Function.update net.requests c
    ((net.requests c).set (net.brokers c).replays.next n)
  have hnoted : Grows net { net with requests := requests } := grows_serve hserved
  refine ⟨?_, ?_⟩
  · intro c' r o handler' hread hhandler'
    have hold : ∀ o, (net.brokers c').replays.read r = some o →
        o.commitHandler = some handler' →
        ∃ n request, (requests c').get r = some n ∧
          (net.record c b as).published[n]? = some request ∧
          handler'.replayTo = request.envelope.replyTo := by
      intro o hread hhandler'
      rcases hserved.replays c' r o handler' hread hhandler' with
        ⟨n', request, hn, hpublished, hkey⟩
      exact ⟨n', request, hnoted.requests _ _ _ hn, hgrows.published _ _ hpublished, hkey⟩
    by_cases hc : c' = c
    · subst hc
      simp only [Network.record, Function.update_self, hreplays] at hread
      by_cases hr : r = (net.brokers c').replays.next
      · subst hr
        -- the replay that has just been made for the message
        rw [Heap.read_alloc_next] at hread
        cases hread
        rw [hhandler] at hhandler'
        cases hhandler'
        exact ⟨n, m, by simp, hgrows.published _ _ hm, hreplyTo⟩
      · rw [Heap.read_alloc_of_ne hr] at hread
        exact hold o hread hhandler'
    · simp only [Network.record, Function.update_of_ne hc] at hread
      exact hold o hread hhandler'
  · intro c' r n' hn
    by_cases hc : c' = c
    · subst hc
      have hnext : (Network.record net c' b as).brokers c' = b := by
        simp [Network.record]
      show r < ((Network.record net c' b as).brokers c').replays.next
      rw [hnext, hreplays]
      by_cases hr : r = (net.brokers c').replays.next
      · rw [hr]
        exact Nat.lt_succ_self _
      · have hget : (net.requests c').get r = some n' := by
          simpa [Table.get_set_of_ne _ _ hr] using hn
        exact Nat.lt_succ_of_lt (hserved.fresh c' r n' hget)
    · -- the other brokers have the replays and the requests that they had
      have hget : (net.requests c').get r = some n' := by
        simpa [Function.update_of_ne hc] using hn
      have hlt := hserved.fresh c' r n' hget
      simpa [Network.record, Function.update_of_ne hc] using hlt

/-- The delivery of a message to a listener: the replay that it may make is noted. -/
theorem delivery_step {n : Nat} {m : Packet B} {thread : ThreadId} {id : String} {deliveryTag : Nat}
    {throws : Option Thrown} (h : net.Correlated codec) (hserved : net.Served)
    (hm : net.published[n]? = some m)
    (hb : BrokerImpl.step codec (net.brokers c)
      (.listenCallback thread id (.received m.message deliveryTag throws)) = .ok (b, as)) :
    ((net.record c b as).serve c n as).Correlated codec ∧
      ((net.record c b as).serve c n as).Served := by
  have hgrows := grows_record h hb
  have hrecord := h.record hserved hb (by simp)
  rcases BrokerImpl.delivery_replays hb with
    ⟨hreplays, hnone⟩ | ⟨replay, handler, hreplays, hhandler, hreplyTo, hnew⟩
  · have hsame : (net.record c b as).serve c n as = net.record c b as := by
      simp [serve, hnone, Network.record]
    rw [hsame]
    exact ⟨hrecord, hserved.record hgrows (BrokerImpl.keepsHandlers_of_eq hreplays)⟩
  · let requests := Function.update net.requests c
      ((net.requests c).set (net.brokers c).replays.next n)
    have hserve : (net.record c b as).serve c n as =
        { net.record c b as with requests := requests } := by
      simp [serve, hnew, Network.record, requests]
    have hnoted : Grows net { net with requests := requests } := grows_serve hserved
    have hall : Grows (net.record c b as) { net.record c b as with requests := requests } :=
      ⟨fun _ _ h => h, fun _ _ h => h, hnoted.requests, fun _ _ _ h => h⟩
    rw [hserve]
    refine ⟨⟨hrecord.reachable, hrecord.unnamed, ?_, hrecord.consumers⟩, ?_⟩
    · intro x hx
      exact (hrecord.published x hx).grows hall
    · exact hserved.serve hgrows hm hreplays hhandler hreplyTo

/-- A step of a broker that makes no replay. -/
theorem perform_step (h : net.Correlated codec) (hserved : net.Served)
    (he : ∀ thread id message deliveryTag throws,
      e ≠ .listenCallback thread id (.received message deliveryTag throws))
    (hname : ∀ id name, e = .fetchCallback id (.declared name) →
      net.queues.get name = some (c, id))
    (hperform : net.perform codec c e = .ok (net', as)) :
    net'.Correlated codec ∧ net'.Served := by
  rcases perform_ok_iff.1 hperform with ⟨b, hb, rfl⟩
  have hgrows := grows_record h hb
  exact ⟨h.record hserved hb hname, hserved.record hgrows (BrokerImpl.step_keepsHandlers he hb)⟩

theorem Correlated.step (h : net.Correlated codec) (hserved : net.Served) {e : NetworkEvent B H}
    (hstep : step codec net e = .ok (net', as)) : net'.Correlated codec ∧ net'.Served := by
  cases e with
  | own c e =>
      rcases own_ok_iff.1 hstep with ⟨hlocal, hperform⟩
      refine perform_step h hserved ?_ ?_ hperform
      · rintro thread id message deliveryTag throws rfl
        -- deliveries and queue names do not come as steps of the broker's own
        exact hlocal rfl
      · rintro id name rfl
        exact absurd rfl hlocal
  | queueDeclared c id name =>
      rcases queueDeclared_ok_iff.1 hstep with ⟨hne, hnone, hperform⟩
      -- the name is noted before the callback runs
      have hdeclared := h.declare hne hnone (c, id)
      refine perform_step hdeclared ⟨hserved.replays, hserved.fresh⟩ (by simp) ?_ hperform
      intro id' name' hevent
      cases hevent
      exact Table.get_set_self _ _ _
  | replyDelivered c id queue n throws =>
      rcases replyDelivered_ok_iff.1 hstep with ⟨m, _, _, _, hperform⟩
      exact perform_step h hserved (by simp) (by simp) hperform
  | requestDelivered c thread id n deliveryTag throws =>
      rcases requestDelivered_ok_iff.1 hstep with ⟨m, b, hm, hb, rfl⟩
      exact delivery_step h hserved hm hb

theorem correlated_of_run {exchangeName : B → String} {es : List (NetworkEvent B H)}
    {outs : List (List (Action H))}
    (hrun : run (step codec) (construct exchangeName) es = .ok (net, outs)) :
    net.Correlated codec ∧ net.Served := by
  refine run_invariant (I := fun net => net.Correlated codec ∧ net.Served) ?_ ?_ hrun
  · intro net net' e as hI hstep
    exact hI.1.step hI.2 hstep
  · refine ⟨⟨fun c => ⟨exchangeName c, [], [], rfl⟩, rfl, ?_, ?_⟩, ⟨?_, ?_⟩⟩ <;>
      simp [construct, BrokerImpl.construct]

end Network

/-! ## Runs -/

variable [DecidableEq B]

/-- In every run of a network, if the data handler of a fetch is called, then with what a reply
decodes to that a listener's handler has committed for the request of that fetch, and for that of
no other fetch of any broker. -/
theorem reply_answers_own_request {codec : Codec} {exchangeName : B → String}
    {es : List (NetworkEvent B H)} {net net' : Network B H} {outs : List (List (Action H))}
    {e : NetworkEvent B H} {as : List (Action H)} {id : String} {handler : H} {payload : Payload}
    (hrun : run (Network.step codec) (Network.construct exchangeName) es = .ok (net, outs))
    (hstep : Network.step codec net e = .ok (net', as))
    (hdata : .data handler payload ∈ dataCalls (as.filterMap (Action.toFetch id))) :
    ∃ queue n throws reply received, e = .replyDelivered e.broker id queue n throws ∧
      net.published[n]? = some reply ∧ net.Answers codec reply e.broker id ∧
      (∀ c' id', net.Answers codec reply c' id' → c' = e.broker ∧ id' = id) ∧
      codec.fromMsgpack reply.envelope.body = .ok received ∧ payload = .ok received := by
  have hnet := (Network.correlated_of_run hrun).1
  cases e with
  | own c e =>
      rcases Network.own_ok_iff.1 hstep with ⟨hlocal, hperform⟩
      rcases Network.perform_ok_iff.1 hperform with ⟨b, hb, rfl⟩
      rcases step_data hb hdata with ⟨body, throws, received, rfl, _⟩
      exact absurd rfl hlocal
  | queueDeclared c id' name =>
      rcases Network.perform_ok_iff.1 (Network.queueDeclared_ok_iff.1 hstep).2.2 with ⟨b, hb, rfl⟩
      rcases step_data hb hdata with ⟨body, throws, received, hevent, _⟩
      cases hevent
  | replyDelivered c id' queue n throws =>
      -- the one event that can hand data to a fetch
      rcases Network.replyDelivered_ok_iff.1 hstep with ⟨m, hm, hreplies, hconsumer, hperform⟩
      rcases Network.perform_ok_iff.1 hperform with ⟨b, hb, rfl⟩
      rcases step_data hb hdata with ⟨body, throws', received, hevent, hdecode, hpayload⟩
      cases hevent
      have hanswers := hnet.answers (List.mem_of_getElem? hm) hreplies hconsumer
      exact ⟨queue, n, throws, m, received, rfl, hm, hanswers, fun c' id' => hanswers.unique,
        hdecode, hpayload⟩
  | requestDelivered c thread id' n deliveryTag throws =>
      rcases Network.requestDelivered_ok_iff.1 hstep with ⟨m, b, hm, hb, rfl⟩
      rcases step_data hb hdata with ⟨body, throws', received, hevent, _⟩
      cases hevent

/-- A client, the broker `false`, and a listener, the broker `true`, up to the commit. -/
def sampleExchange : List (NetworkEvent Bool Nat) :=
  [.own true (.listenMessages 0 "workers" ["echo.ping"] false),
    .own true (.listenRegister 0 (.onData 1)),
    .own false (.fetchMessage 0 .null "echo.ping" false),
    .own false (.fetchRegister "1" (.onData 2)),
    .queueDeclared false "1" "amq.gen-1",
    .requestDelivered true 0 "1" 0 7 none,
    .own true (.replayCall 0 0 (.setMessage (.ok (.boolean true)))),
    .own true (.replayCall 0 0 .commit)]

/-- The data handler `2` is called with `true`. -/
def receivesTrue (as : List (Action Nat)) : Bool :=
  (dataCalls (as.filterMap (Action.toFetch "1"))).any fun
    | .data 2 (.ok (.boolean true)) => true
    | _ => false

theorem reply_answers_request_true :
    ∃ (net net' : Network Bool Nat) (outs : List (List (Action Nat))) (as : List (Action Nat))
      (reply : Packet Bool),
      run (Network.step Codec.small) (Network.construct fun _ => "amq.topic") sampleExchange =
        .ok (net, outs) ∧
      Network.step Codec.small net (.replyDelivered false "1" "amq.gen-1" 1 none) = .ok (net', as) ∧
      receivesTrue as = true ∧ net.Answers Codec.small reply false "1" := by
  have hsample : (run (Network.step Codec.small) (Network.construct fun _ => "amq.topic")
      (sampleExchange ++ [.replyDelivered false "1" "amq.gen-1" 1 none])).map
      (fun r => r.2.getLast?.map receivesTrue) = .ok (some true) := by
    decide +kernel
  rcases ok_of_map hsample with ⟨⟨net', outs'⟩, hall, hlast⟩
  rcases run_concat_ok_iff.1 hall with ⟨net, outs, as, hrun, hstep, rfl⟩
  have hreceives : receivesTrue as = true := by
    simpa using hlast
  rcases List.any_eq_true.1 hreceives with ⟨call, hcall, hshape⟩
  obtain ⟨payload, hdata⟩ : ∃ payload, .data 2 payload ∈
      dataCalls (as.filterMap (Action.toFetch "1")) := by
    split at hshape
    · exact ⟨_, hcall⟩
    · cases hshape
  rcases reply_answers_own_request hrun hstep hdata with ⟨_, _, _, reply, _, _, _, hanswers, _⟩
  exact ⟨net, net', outs, as, reply, hrun, hstep, hreceives, hanswers⟩

end CapyAmqp
