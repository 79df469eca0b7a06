import CapyAmqp.Broker.ListenLife
import CapyAmqp.Broker.OneOutcome
import CapyAmqp.Broker.Rules
import CapyAmqp.Broker.UniqueId
import CapyAmqp.Deferred.Object

/-!
# Lifetimes — the objects that a broker makes, over whole runs

A listener object begins with `listen_messages`, and what happens to it afterwards is a life in the
sense of `Deferred.Lives`: it is destroyed at most once and is not touched after that
(`listener_lives`).  Until then it has an owner (`Reachable.held`), so none is ever forgotten.  A
fetcher lives in the same way (`fetcher_lives`).
-/

namespace CapyAmqp

open Lib

variable {H : Type}

/-- The registration that an event makes at the listener `p`. -/
def Event.listenRegistration (p : Ptr) : Event H → Option (Registration H)
  | .listenRegister q r => if q = p then some r else none
  | _ => none

/-- The registration that an event makes at the fetch `id`. -/
def Event.fetchRegistration (id : String) : Event H → Option (Registration H)
  | .fetchRegister id' r => if id' = id then some r else none
  | _ => none

/-- What the outputs of a run say about the listener `p`. -/
def listenHistory (p : Ptr) (outs : List (List (Action H))) :
    List (ObjectAction ChannelOp H ListenData) :=
  outs.flatten.filterMap (Action.toListen p)

namespace BrokerImpl

/-- The listener object behind `p`. -/
def listener (b : BrokerImpl H) (p : Ptr) : Option (Deferred H ListenData) :=
  (b.listening.read p).map DeferredListening.deferred

/-- The fetcher under `id`. -/
def fetcher (b : BrokerImpl H) (id : String) : Option (Deferred H FetchData) :=
  (b.fetchers.get id).map DeferredFetching.deferred

/-! ## What the statements do to a listener -/

/-- The listener `p` goes through a piece of its life, with the registrations `rs`, and no listener
is made. -/
structure ListenerLives (p : Ptr) (rs : List (Registration H)) (b : BrokerImpl H)
    (as : List (Action H)) (b' : BrokerImpl H) : Prop where
  next : b'.listening.next = b.listening.next
  lives : Deferred.Lives (b.listener p) rs (as.filterMap (Action.toListen p)) (b'.listener p)

section Statements

variable {b b' : BrokerImpl H} {as : List (Action H)} {p q : Ptr} {id : String} {thread : ThreadId}

theorem listenerLives_composes : Prog.Composes (ListenerLives (H := H) p []) := by
  constructor
  · intro b
    exact ⟨rfl, Deferred.Lives.refl _⟩
  · intro b b₁ b₂ as bs h₁ h₂
    refine ⟨h₂.next.trans h₁.next, ?_⟩
    rw [List.filterMap_append]
    exact h₁.lives.trans h₂.lives

/-- The heap stays, and the actions concern others. -/
theorem listenerLives_of_eq (hlistening : b'.listening = b.listening)
    (has : ∀ a ∈ as, a.isListen = false) : ListenerLives p [] b as b' := by
  have hsame : b'.listener p = b.listener p := by
    simp only [listener, hlistening]
  refine ⟨by rw [hlistening], ?_⟩
  rw [filterMap_toListen_eq_nil has, hsame]
  exact Deferred.Lives.refl _

theorem Aside.listenerLives (h : Aside b as b') : ListenerLives p [] b as b' :=
  listenerLives_of_eq h.listening fun a ha => (h.actions a ha).1

theorem OnReplays.listenerLives (h : OnReplays b as b') : ListenerLives p [] b as b' := by
  refine listenerLives_of_eq h.listening fun a ha => ?_
  have hreplay := h.actions a ha
  cases a with
  | replay r x => rfl
  | _ => cases hreplay

theorem filterMap_toListen_self (xs : List (ObjectAction ChannelOp H ListenData)) :
    (xs.map (Action.listen p)).filterMap (Action.toListen p) = xs := by
  have hcomp : (Action.toListen p ∘ Action.listen p : _ → Option (ObjectAction ChannelOp H _)) =
      some := by
    funext a
    simp [Action.toListen]
  rw [List.filterMap_map, hcomp, List.filterMap_some]

theorem filterMap_toListen_of_ne (hq : q ≠ p) (xs : List (ObjectAction ChannelOp H ListenData)) :
    (xs.map (Action.listen q)).filterMap (Action.toListen p) = [] := by
  simp [List.filterMap_eq_nil_iff, Action.toListen, hq]

/-- A piece of the life of `q`, with the object in its place. -/
theorem listenerLives_modify {o : DeferredListening H} {rs : List (Registration H)}
    {xs : List (ObjectAction ChannelOp H ListenData)}
    {f : DeferredListening H → DeferredListening H} (hread : b.listening.read q = some o)
    (h : Deferred.Lives (some o.deferred) rs xs (some (f o).deferred)) :
    ListenerLives p (if q = p then rs else []) b (xs.map (.listen q))
      { b with listening := b.listening.modify q f } := by
  refine ⟨rfl, ?_⟩
  by_cases hq : q = p
  · subst hq
    rw [filterMap_toListen_self, if_pos rfl]
    simpa [listener, hread] using h
  · rw [filterMap_toListen_of_ne hq, if_neg hq]
    have hsame := Heap.read_modify_of_ne (h := b.listening) (f := f) (Ne.symm hq)
    simp only [listener, hsame]
    exact Deferred.Lives.refl _

theorem listenerLives_release (q : Ptr) :
    Prog.Ensures (ListenerLives p []) (release q : Stmt H) := by
  intro b b' as h
  rcases release_cases h with ⟨rfl, rfl⟩ | ⟨o, hread, _, _, rfl, rfl⟩
  · exact listenerLives_composes.refl b'
  · refine ⟨rfl, ?_⟩
    by_cases hq : q = p
    · -- this is the end of the listener
      subst hq
      simpa [listener, hread, Action.toListen] using Deferred.lives_destroy o.deferred
    · have hsame := Heap.read_free_of_ne (h := b.listening) (Ne.symm hq)
      rw [toListen_of_ne hq]
      simp only [listener, hsame]
      exact Deferred.Lives.refl _

theorem listenerLives_setDeferred (thread : ThreadId) (r : Option Ptr) :
    Prog.Ensures (ListenerLives p []) (setDeferred thread r : Stmt H) := by
  intro b b' as h
  have hassign : ListenerLives p [] b [] (b.assignSlot thread r) :=
    listenerLives_of_eq (listening_assignSlot b thread r) (by simp)
  unfold setDeferred at h
  split at h
  · cases h
    exact hassign
  · exact listenerLives_composes.trans hassign (listenerLives_release _ _ _ _ h)

theorem listenerLives_reportTo (q : Ptr) (r : Report ListenData) :
    Prog.Ensures (ListenerLives p []) (reportTo q r : Stmt H) := by
  intro b b' as h
  rcases reportTo_ok_iff.1 h with ⟨o, hread, rfl, rfl⟩
  have hlives := listenerLives_modify (p := p)
    (f := fun o' => { o' with deferred := (o.deferred.report r).1 }) hread
    (Deferred.lives_report o.deferred r)
  rw [ite_self] at hlives
  exact hlives

/-- Operations on the channel of a live listener. -/
theorem listenerLives_channel {o : DeferredListening H} (hread : b.listening.read q = some o)
    (ops : List ChannelOp) :
    ListenerLives p [] b (ops.map fun op => .listen q (.channel op)) b := by
  have hlives := Deferred.lives_channel (H := H) o.deferred ops
  have hmap : (ops.map fun op => (.listen q (.channel op) : Action H)) =
      (ops.map fun op => .channel op).map (.listen q) := by
    rw [List.map_map]
    rfl
  refine ⟨rfl, ?_⟩
  rw [hmap]
  by_cases hq : q = p
  · subst hq
    rw [filterMap_toListen_self]
    simpa [listener, hread] using hlives
  · rw [filterMap_toListen_of_ne hq]
    exact Deferred.Lives.refl _

theorem listenerLives_listenAck (id : String) (deliveryTag : Nat) :
    Prog.Ensures (ListenerLives p []) (listenAck id deliveryTag : Stmt H) := by
  intro b b' as h
  rcases listenAck_ok_iff.1 h with ⟨q, o, _, hread, rfl, rfl⟩
  exact listenerLives_channel hread [.ack deliveryTag]

theorem listenerLives_listenDel (id : String) :
    Prog.Ensures (ListenerLives p []) (listenDel id : Stmt H) := by
  intro b b' as h
  rcases listenDel_ok_iff.1 h with ⟨_, rfl, rfl⟩ | ⟨q, _, h⟩
  · exact listenerLives_composes.refl b'
  · have hrelease := listenerLives_release (p := p) q _ _ _ h
    exact ⟨hrelease.next, hrelease.lives⟩

theorem listenerLives_rules (p : Ptr) : StepRules (ListenerLives (H := H) p []) :=
  { composes := listenerLives_composes
    aside := Aside.listenerLives
    replays := OnReplays.listenerLives
    reportTo := listenerLives_reportTo
    listenAck := listenerLives_listenAck
    resetDeferred := fun thread => listenerLives_setDeferred thread none
    listenDel := listenerLives_listenDel }

theorem listenerLives_listenRegister {r : Registration H}
    (h : listenRegister q r b = .ok (b', as)) :
    ListenerLives p (if q = p then [r] else []) b as b' := by
  rcases listenRegister_ok_iff.1 h with ⟨o, hread, rfl, rfl⟩
  exact listenerLives_modify (f := fun o => { o with deferred := o.deferred.register r }) hread
    (Deferred.lives_register o.deferred r)

/-! ## The beginning of a listener -/

theorem listener_newListener (b : BrokerImpl H) (thread : ThreadId) (id : String) (failed : Bool)
    (p : Ptr) :
    (b.newListener thread id failed).1.listener p =
      if p = b.listening.next then some (.construct .ok failed) else b.listener p := by
  have hlistening : (b.getConnection thread).listening = b.listening :=
    (onReplays_getConnection b thread).listening
  simp only [newListener, listener, hlistening]
  split
  · rename_i hp
    subst hp
    rw [Heap.read_alloc_next]
    rfl
  · rename_i hp
    rw [Heap.read_alloc_of_ne hp]

/-- What `listen_messages` issues goes to the listener that it has made. -/
theorem listenerLives_newListener {queue : String} {keys : List String} {failed : Bool}
    (hb : b.Owned) (h : listenMessages thread queue keys failed b = .ok (b', as)) (p : Ptr) :
    ListenerLives p [] (b.incrementId.newListener thread (idText b.uniqueId) failed).1 as b' := by
  rcases listenMessages_ok_iff.1 h with ⟨_, h⟩
  rcases Prog.seq_ok_iff.1 h with ⟨b₁, bs, cs, hset, hissue, rfl⟩
  have hincrement : b.incrementId.Owned := hb.of_eq rfl rfl fun _ => rfl
  have howned := owned_newListener hincrement thread (idText b.uniqueId) failed
  have hread := Heap.read_alloc_next (b.incrementId.getConnection thread).listening
    { deferred := .construct .ok failed, connection := thread, correlationId := idText b.uniqueId }
  -- its id holds it, whatever the slot held before
  have hcarries : (b.incrementId.newListener thread (idText b.uniqueId) failed).1.Carries
      (idText b.uniqueId) (b.incrementId.newListener thread (idText b.uniqueId) failed).2 thread :=
    ⟨howned, Table.get_set_self _ _ _, _, hread, rfl⟩
  have hkept := untouched_setDeferred (fun r hr => by cases hr; exact ⟨_, hread, rfl⟩) hset hcarries
  have hchannel := listenerLives_channel (p := p) (hkept.2.1.trans hread)
    (listenOps (b.incrementId.newListener thread (idText b.uniqueId) failed).1.exchangeName queue keys)
  cases hissue
  exact listenerLives_composes.trans (listenerLives_setDeferred _ _ _ _ _ hset) hchannel

end Statements

/-! ## Every listener, over a run -/

section Runs

variable {codec : Codec} {b b' : BrokerImpl H} {e : Event H} {as : List (Action H)}

/-- `listen_messages` gives the next listener its start; the other steps go on with what there is. -/
theorem step_listener (hb : b.Owned) (h : step codec b e = .ok (b', as)) (p : Ptr) :
    (b'.listening.next = b.listening.next + 1 ∧ e.listenRegistration p = none ∧
        ∃ failed, Deferred.Lives
          (if p = b.listening.next then some (.construct .ok failed) else b.listener p) []
          (as.filterMap (Action.toListen p)) (b'.listener p)) ∨
      ListenerLives p (e.listenRegistration p).toList b as b' := by
  cases e with
  | listenMessages thread queue keys failed =>
      have hlives := listenerLives_newListener hb h p
      have hlistening : (b.incrementId.getConnection thread).listening = b.listening :=
        (onReplays_getConnection b.incrementId thread).listening
      refine Or.inl ⟨?_, rfl, failed, ?_⟩
      · rw [hlives.next]
        exact congrArg (fun heap => heap.next + 1) hlistening
      · have hpiece := hlives.lives
        rw [listener_newListener] at hpiece
        exact hpiece
  | listenRegister q r =>
      refine Or.inr ?_
      have hlives := listenerLives_listenRegister (p := p) h
      by_cases hq : q = p
      · simpa [Event.listenRegistration, hq] using hlives
      · simpa [Event.listenRegistration, hq] using hlives
  | _ => exact Or.inr ((listenerLives_rules p).step rfl h)

/-- A listener that has been made is going through its life; of any other, nothing has been heard. -/
theorem listener_lives {exchangeName : String} {es : List (Event H)}
    {outs : List (List (Action H))}
    (hrun : run (step codec) (construct exchangeName) es = .ok (b, outs)) (p : Ptr) :
    (b.listening.next ≤ p ∧ listenHistory p outs = [] ∧ b.listener p = none) ∨
      (p < b.listening.next ∧ ∃ failed, Deferred.Lives (some (.construct .ok failed))
        (es.filterMap (Event.listenRegistration p)) (listenHistory p outs) (b.listener p)) := by
  let P : BrokerImpl H → List (Event H) → List (List (Action H)) → Prop := fun b es outs =>
    (b.listening.next ≤ p ∧ es.filterMap (Event.listenRegistration p) = [] ∧
        listenHistory p outs = [] ∧ b.listener p = none) ∨
      (p < b.listening.next ∧ ∃ failed, Deferred.Lives (some (.construct .ok failed))
        (es.filterMap (Event.listenRegistration p)) (listenHistory p outs) (b.listener p))
  have hP : P b es outs := by
    refine run_history (P := P) (Or.inl ⟨Nat.zero_le p, rfl, rfl, rfl⟩) ?_ hrun
    intro es m t outs e as hm hP hstep
    have howned : m.Owned := Reachable.owned ⟨exchangeName, es, outs, hm⟩
    have houts : listenHistory p (outs ++ [as]) =
        listenHistory p outs ++ as.filterMap (Action.toListen p) := by
      simp [listenHistory]
    have hes : (es ++ [e]).filterMap (Event.listenRegistration p) =
        es.filterMap (Event.listenRegistration p) ++ (e.listenRegistration p).toList := by
      rw [List.filterMap_append]
      cases hregister : e.listenRegistration p <;> simp [hregister]
    simp only [P, houts, hes]
    rcases step_listener howned hstep p with ⟨hnext, hregister, failed, hlives⟩ | hlives
    · -- a listener is made: this one, or one beside it
      rw [hregister, hnext]
      rcases hP with ⟨hle, hevents, hhistory, hnone⟩ | ⟨hlt, failed₀, hlives₀⟩
      · rw [hevents, hhistory]
        by_cases hp : p = m.listening.next
        · rw [if_pos hp] at hlives
          exact Or.inr ⟨Nat.lt_succ_of_le (le_of_eq hp), failed, hlives⟩
        · rw [if_neg hp, hnone] at hlives
          exact Or.inl ⟨Nat.lt_of_le_of_ne hle (Ne.symm hp), rfl, hlives.2.1, hlives.2.2⟩
      · rw [if_neg (Nat.ne_of_lt hlt)] at hlives
        exact Or.inr ⟨Nat.lt_succ_of_lt hlt, failed₀, hlives₀.trans hlives⟩
    · rw [hlives.next]
      rcases hP with ⟨hle, hevents, hhistory, hnone⟩ | ⟨hlt, failed₀, hlives₀⟩
      · have hpiece := hlives.lives
        rw [hnone] at hpiece
        rw [hevents, hhistory, hpiece.1, hpiece.2.1]
        exact Or.inl ⟨hle, rfl, rfl, hpiece.2.2⟩
      · exact Or.inr ⟨hlt, failed₀, hlives₀.trans hlives.lives⟩
  rcases hP with ⟨hle, _, hhistory, hnone⟩ | hmade
  · exact Or.inl ⟨hle, hhistory, hnone⟩
  · exact Or.inr hmade

end Runs

end BrokerImpl

/-! ## Every fetcher -/

/-- The registration of a step of a fetch's life. -/
def FetchEvent.registration? : FetchEvent H → Option (Registration H)
  | .callback _ => none
  | .register r => some r

namespace FetchLife

variable {codec : Codec} {o : DeferredFetching H}

/-- A report, and the end right after it. -/
theorem lives_fail (o : DeferredFetching H) (e : Error) :
    Deferred.Lives (some o.deferred) [] (fail o e).2
      ((fail o e).1.map DeferredFetching.deferred) := by
  have hreport := @Deferred.lives_report ChannelOp H FetchData o.deferred (.error e)
  exact hreport.trans (Deferred.lives_destroy (o.deferred.report (.error e)).1)

theorem lives_keep (o : DeferredFetching H) (r : Report FetchData) :
    Deferred.Lives (some o.deferred) [] (keep o r).2
      ((keep o r).1.map DeferredFetching.deferred) :=
  Deferred.lives_report o.deferred r

theorem lives_receive {body : Bytes} {throws : Option Thrown} {v : FetchLife H}
    {as : List (FetchAction H)} (h : receive codec o body throws = .ok (v, as)) :
    Deferred.Lives (some o.deferred) [] as (v.map DeferredFetching.deferred) := by
  rcases receive_ok_iff.1 h with ⟨rfl, ⟨received, _, _, rfl⟩ | ⟨thrown, e, _, rfl, rfl⟩⟩
  · have hreport := @Deferred.lives_report ChannelOp H FetchData o.deferred (.data (.ok received))
    exact hreport.trans (Deferred.lives_destroy o.deferred)
  · -- the error has closed the gate, so the report of the null value invokes nothing
    let d := (o.deferred.reportError (.broker .dataResponse thrown.fetchText)).1
    have hclosed : d.reportData (.ok .null) = [] :=
      Deferred.reportData_of_failed (Deferred.failed_reportError (Error.toBool_broker _ _))
    have hreport := @Deferred.lives_report ChannelOp H FetchData o.deferred
      (.error (.broker .dataResponse thrown.fetchText))
    have hnull := @Deferred.lives_report ChannelOp H FetchData d (.data (.ok .null))
    have hnone : (d.report (.data (.ok .null))).2 = [] := hclosed
    rw [hnone] at hnull
    exact (hreport.trans hnull).trans (Deferred.lives_destroy d)

theorem lives_step {exchangeName id : String} {closure : FetchClosure} {v v' : FetchLife H}
    {e : FetchEvent H} {as : List (FetchAction H)}
    (h : step codec exchangeName id closure v e = .ok (v', as)) :
    Deferred.Lives (v.map DeferredFetching.deferred) e.registration?.toList as
      (v'.map DeferredFetching.deferred) := by
  cases v with
  | none =>
      cases e with
      | callback c =>
          cases h
          exact ⟨rfl, rfl, rfl⟩
      | register r => cases h
  | some o =>
      cases e with
      | register r =>
          cases h
          exact Deferred.lives_register o.deferred r
      | callback c =>
          cases c with
          | received body throws => exact lives_receive h
          | declared name =>
              cases h
              exact Deferred.lives_channel o.deferred _
          | declareError message =>
              cases h
              exact lives_fail o _
          | consumeError message =>
              cases h
              exact lives_fail o _
          | commitError message =>
              cases h
              exact lives_keep o _
          | consumed =>
              cases h
              exact lives_keep o _

end FetchLife

namespace BrokerImpl

variable {codec : Codec} {b b' : BrokerImpl H} {e : Event H} {as : List (Action H)} {id : String}

/-- A step of the broker is a piece of the life of every fetch that has been started. -/
theorem step_fetcher {closure : FetchClosure} (ht : b.Tracked id closure)
    (h : step codec b e = .ok (b', as)) :
    Deferred.Lives (b.fetcher id) (e.fetchRegistration id).toList
      (as.filterMap (Action.toFetch id)) (b'.fetcher id) := by
  have hregister : e.fetchRegistration id = (e.toFetch id).bind FetchEvent.registration? := by
    cases e with
    | fetchRegister id' r =>
        by_cases hid : id' = id <;>
          simp [Event.fetchRegistration, Event.toFetch, FetchEvent.registration?, hid]
    | fetchCallback id' c =>
        by_cases hid : id' = id <;>
          simp [Event.fetchRegistration, Event.toFetch, FetchEvent.registration?, hid]
    | _ => rfl
  have hfetch := (step_fetch ht h).1
  unfold FetchStep at hfetch
  rw [hregister]
  cases hevent : e.toFetch id with
  | none =>
      rw [hevent] at hfetch
      rw [hfetch.2, fetcher, fetcher, hfetch.1]
      exact Deferred.Lives.refl _
  | some e' =>
      rw [hevent] at hfetch
      exact FetchLife.lives_step hfetch

/-- No fetch has been started under the id, and no fetcher is held there. -/
def Unstarted (b : BrokerImpl H) (id : String) : Prop :=
  b.fetchClosures.get id = none ∧ b.fetchers.get id = none

/-- An id without a fetch stays so, until `fetch_message` takes it. -/
theorem step_unstarted (hid : b.Unstarted id) (h : step codec b e = .ok (b', as)) :
    (b'.Unstarted id ∧ e.fetchRegistration id = none ∧ as.filterMap (Action.toFetch id) = []) ∨
      ((b'.fetchClosures.get id).isSome = true ∧ e.fetchRegistration id = none ∧
        ∃ failed, Deferred.Lives (some (.construct .ok failed)) []
          (as.filterMap (Action.toFetch id)) (b'.fetcher id)) := by
  cases e with
  | fetchMessage thread message routingKey failed =>
      rcases fetchMessage_ok_iff.1 h with ⟨_, rfl, rfl⟩
      have hget := onListeners_getConnection b.incrementId thread
      by_cases hnew : id = idText b.uniqueId
      · subst hnew
        refine Or.inr ⟨by simp [newFetcher], rfl, failed, ?_⟩
        have hops := Deferred.lives_channel (H := H) (.construct .ok failed : Deferred H FetchData)
          [ChannelOp.declareQueue "" [.exclusive, .autodelete]]
        simpa [fetcher, newFetcher, Action.toFetch] using hops
      · refine Or.inl ⟨⟨?_, ?_⟩, rfl, by simp [Action.toFetch, Ne.symm hnew]⟩
        · simp only [newFetcher, Table.get_set_of_ne _ _ hnew, hget.fetchClosures]
          exact hid.1
        · simp only [newFetcher, Table.get_set_of_ne _ _ hnew, hget.fetchers]
          exact hid.2
  | fetchRegister id' r =>
      rcases fetchRegister_ok_iff.1 h with ⟨o, hlive, rfl, rfl⟩
      have hne : id' ≠ id := by
        rintro rfl
        rw [hid.2] at hlive
        cases hlive
      refine Or.inl ⟨⟨hid.1, ?_⟩, by simp [Event.fetchRegistration, hne], rfl⟩
      rw [Table.get_set_of_ne _ _ (Ne.symm hne)]
      exact hid.2
  | fetchCallback id' c =>
      rcases onFetchCallback_ok_iff.1 h with ⟨closure, v, xs, hclosure, _, rfl, rfl⟩
      have hne : id' ≠ id := by
        rintro rfl
        rw [hid.1] at hclosure
        cases hclosure
      refine Or.inl ⟨⟨hid.1, ?_⟩, rfl, filterMap_toFetch_of_ne hne xs⟩
      rw [get_withFetcher_of_ne b v (Ne.symm hne)]
      exact hid.2
  | _ =>
      rcases step_noFetch rfl h with ⟨_, hframe⟩ | ⟨_, hframe⟩
      · exact Or.inl ⟨⟨hframe.fetchClosures ▸ hid.1, hframe.fetchers ▸ hid.2⟩, rfl,
          hframe.actions id⟩
      · exact Or.inl ⟨⟨hframe.fetchClosures ▸ hid.1, hframe.fetchers ▸ hid.2⟩, rfl,
          hframe.actions id⟩

/-- A fetch that has been started is going through its life; of any other id, nothing has been
heard. -/
theorem fetcher_lives {exchangeName : String} {es : List (Event H)}
    {outs : List (List (Action H))}
    (hrun : run (step codec) (construct exchangeName) es = .ok (b, outs)) (id : String) :
    (b.Unstarted id ∧ fetchHistory id outs = []) ∨
      ((b.fetchClosures.get id).isSome = true ∧
        ∃ failed, Deferred.Lives (some (.construct .ok failed))
          (es.filterMap (Event.fetchRegistration id)) (fetchHistory id outs) (b.fetcher id)) := by
  let P : BrokerImpl H → List (Event H) → List (List (Action H)) → Prop := fun b es outs =>
    (b.Unstarted id ∧ es.filterMap (Event.fetchRegistration id) = [] ∧
        fetchHistory id outs = []) ∨
      ((b.fetchClosures.get id).isSome = true ∧
        ∃ failed, Deferred.Lives (some (.construct .ok failed))
          (es.filterMap (Event.fetchRegistration id)) (fetchHistory id outs) (b.fetcher id))
  have hP : P b es outs := by
    refine run_history (P := P) (Or.inl ⟨⟨rfl, rfl⟩, rfl, rfl⟩) ?_ hrun
    intro es m t outs e as hm hP hstep
    have hes : (es ++ [e]).filterMap (Event.fetchRegistration id) =
        es.filterMap (Event.fetchRegistration id) ++ (e.fetchRegistration id).toList := by
      rw [List.filterMap_append]
      cases hregister : e.fetchRegistration id <;> simp [hregister]
    simp only [P, fetchHistory_concat, hes]
    rcases hP with ⟨hunstarted, hevents, hhistory⟩ | ⟨hstarted, failed, hlives⟩
    · rw [hevents, hhistory]
      rcases step_unstarted hunstarted hstep with
        ⟨hid, hregister, hactions⟩ | ⟨hid, hregister, failed, hlives⟩
      · rw [hregister, hactions]
        exact Or.inl ⟨hid, rfl, rfl⟩
      · rw [hregister]
        exact Or.inr ⟨hid, failed, hlives⟩
    · rcases Option.isSome_iff_exists.1 hstarted with ⟨closure, hclosure⟩
      have htracked := Reachable.tracked ⟨exchangeName, es, outs, hm⟩ hclosure
      have hkept := (step_fetch htracked hstep).2.1.closure
      exact Or.inr ⟨by rw [hkept]; rfl, failed, hlives.trans (step_fetcher htracked hstep)⟩
  rcases hP with ⟨hunstarted, _, hhistory⟩ | hstarted
  · exact Or.inl ⟨hunstarted, hhistory⟩
  · exact Or.inr hstarted

end BrokerImpl

end CapyAmqp
