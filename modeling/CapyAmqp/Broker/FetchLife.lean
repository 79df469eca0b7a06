import CapyAmqp.Broker.Frame
import CapyAmqp.Lib.Supply

/-!
# FetchLife — one fetch, seen on its own

`FetchLife` is the life of one fetcher: the object, until it is removed from `fetchers_`, and
nothing after that.  `FetchLife.step` says what each callback and each registration does to it,
without tables, lookups and ids.  `step_fetch` is the refinement: whatever a broker does, the
fetcher under a given id goes through the steps of its life that concern it and through no
others.
-/

namespace CapyAmqp

open Lib

/-- A fetcher, or nothing once it has been removed. -/
abbrev FetchLife (H : Type) := Option (DeferredFetching H)

abbrev FetchAction (H : Type) := ObjectAction ChannelOp H FetchData

/-- What happens to one fetch. -/
inductive FetchEvent (H : Type)
  | callback (c : FetchCallback)
  | register (r : Registration H)

namespace FetchLife

variable {H : Type}

/-- Report an error and remove the fetcher. -/
def fail (o : DeferredFetching H) (e : Error) : FetchLife H × List (FetchAction H) :=
  let result := o.deferred.reportError e
  (none, [.report (.error e) result.2, .destroyed result.1.destroy])

/-- A delivery to a live fetcher. -/
def receive (codec : Codec) (o : DeferredFetching H) (body : Bytes) (throws : Option Thrown) :
    Except Fault (FetchLife H × List (FetchAction H)) :=
  match codec.fromMsgpack body with
  | .ok received =>
      match o.deferred.dataThrows throws with
      | some thrown => .error (.abort thrown.abortText)
      | none =>
          .ok (none,
            [.report (.data (.ok received)) (o.deferred.reportData (.ok received)),
              .destroyed o.deferred.destroy])
  | .error thrown =>
      let e := Error.broker .dataResponse thrown.fetchText
      let result := o.deferred.reportError e
      -- the error has closed the gate, so the null value is passed to nobody
      .ok (none,
        [.report (.error e) result.2, .report (.data (.ok .null)) [],
          .destroyed result.1.destroy])

/-- A delivery that returns removes the fetcher, after the data or the error of the decoding. -/
theorem receive_ok_iff {codec : Codec} {o : DeferredFetching H} {body : Bytes}
    {throws : Option Thrown} {v : FetchLife H} {as : List (FetchAction H)} :
    receive codec o body throws = .ok (v, as) ↔
      v = none ∧
        ((∃ received, codec.fromMsgpack body = .ok received ∧ o.deferred.dataThrows throws = none ∧
            as = [.report (.data (.ok received)) (o.deferred.reportData (.ok received)),
              .destroyed o.deferred.destroy]) ∨
          ∃ thrown e, codec.fromMsgpack body = .error thrown ∧
            e = Error.broker .dataResponse thrown.fetchText ∧
            as = [.report (.error e) (o.deferred.reportError e).2, .report (.data (.ok .null)) [],
              .destroyed (o.deferred.reportError e).1.destroy]) := by
  unfold receive
  cases hdecode : codec.fromMsgpack body with
  | error thrown =>
      simpa using and_congr eq_comm eq_comm
  | ok received =>
      cases hthrows : o.deferred.dataThrows throws with
      | some thrown => simp
      | none => simpa using and_congr eq_comm eq_comm

/-- A report after which the fetcher stays. -/
def keep (o : DeferredFetching H) (r : Report FetchData) : FetchLife H × List (FetchAction H) :=
  let result := o.deferred.report r
  (some { o with deferred := result.1 }, [.report r result.2])

def callback (codec : Codec) (exchangeName id : String) (closure : FetchClosure) :
    FetchLife H → FetchCallback → Except Fault (FetchLife H × List (FetchAction H))
  | none, _ => .ok (none, [])
  | some o, .declared name =>
      .ok (some o, (BrokerImpl.fetchOps codec exchangeName id name closure).map .channel)
  | some o, .declareError message => .ok (fail o (.broker .queueDeclaration message))
  | some o, .commitError message => .ok (keep o (.error (.broker .publish message)))
  | some o, .received body throws => receive codec o body throws
  | some o, .consumed => .ok (keep o .success)
  | some o, .consumeError message => .ok (fail o (.broker .dataResponse message))

def step (codec : Codec) (exchangeName id : String) (closure : FetchClosure) :
    FetchLife H → FetchEvent H → Except Fault (FetchLife H × List (FetchAction H))
  | v, .callback c => callback codec exchangeName id closure v c
  | none, .register _ => .error .dangling
  | some o, .register r => .ok (some { o with deferred := o.deferred.register r }, [])

end FetchLife

/-! ## The callbacks refine the life -/

section Refinement

variable {H : Type}

/-- Put the life of the fetcher `id` in place. -/
def BrokerImpl.withFetcher (b : BrokerImpl H) (id : String) (v : FetchLife H) : BrokerImpl H :=
  { b with fetchers := Function.update b.fetchers id v }

@[simp] theorem get_withFetcher_self (b : BrokerImpl H) (id : String) (v : FetchLife H) :
    (b.withFetcher id v).fetchers.get id = v := by
  simp [BrokerImpl.withFetcher, Table.get]

theorem get_withFetcher_of_ne (b : BrokerImpl H) {id k : String} (v : FetchLife H) (hk : k ≠ id) :
    (b.withFetcher id v).fetchers.get k = b.fetchers.get k := by
  simp [BrokerImpl.withFetcher, Table.get, hk]

theorem withFetcher_get (b : BrokerImpl H) (id : String) :
    b.withFetcher id (b.fetchers.get id) = b := by
  simp [BrokerImpl.withFetcher, Table.get]

/-- An outcome of the life, put in place in the broker. -/
def liftFetch (b : BrokerImpl H) (id : String) :
    Except Fault (FetchLife H × List (FetchAction H)) →
      Except Fault (BrokerImpl H × List (Action H))
  | .error f => .error f
  | .ok (v, as) => .ok (b.withFetcher id v, as.map (.fetch id))

namespace BrokerImpl

variable {b : BrokerImpl H} {id : String} {o : DeferredFetching H}

theorem fetchReport_of_live (h : b.fetchers.get id = some o) (r : Report FetchData) :
    fetchReport id r b = liftFetch b id (.ok (FetchLife.keep o r)) := by
  simp [fetchReport, h, liftFetch, FetchLife.keep, withFetcher, Table.set]

theorem fetchDel_of_live (h : b.fetchers.get id = some o) :
    fetchDel id b = liftFetch b id (.ok (none, [.destroyed o.deferred.destroy])) := by
  simp [fetchDel, h, liftFetch, withFetcher, Table.del]

theorem ifFetching_of_live (h : b.fetchers.get id = some o) (p : Stmt H) :
    ifFetching id p b = p b := by
  simp [ifFetching, Table.has, h]

theorem ifFetching_of_removed (h : b.fetchers.get id = none) (p : Stmt H) :
    ifFetching id p b = .ok (b, []) := by
  simp [ifFetching, Table.has, h]

theorem withFetcher_withFetcher (v w : FetchLife H) :
    (b.withFetcher id v).withFetcher id w = b.withFetcher id w := by
  simp [withFetcher]

/-- Two steps of the life, one after the other. -/
theorem seq_liftFetch {p q : Stmt H} {v w : FetchLife H} {as cs : List (FetchAction H)}
    (hp : p b = liftFetch b id (.ok (v, as)))
    (hq : q (b.withFetcher id v) = liftFetch (b.withFetcher id v) id (.ok (w, cs))) :
    Prog.seq p q b = liftFetch b id (.ok (w, as ++ cs)) := by
  have hseq := Prog.seq_of_ok (q := q) hp
  rw [hseq]
  simp only [hq, liftFetch, withFetcher_withFetcher, List.map_append]

theorem all_singleton_liftFetch {p : Stmt H} {v : FetchLife H} {as : List (FetchAction H)}
    (hp : p b = liftFetch b id (.ok (v, as))) :
    Prog.all [p] b = liftFetch b id (.ok (v, as)) := by
  have hskip : (Prog.skip : Stmt H) (b.withFetcher id v) =
      liftFetch (b.withFetcher id v) id (.ok (v, [])) := by
    simp [Prog.skip, liftFetch, withFetcher_withFetcher]
  have hseq := seq_liftFetch hp hskip
  simpa [Prog.all] using hseq

/-- `report_data` to a live fetcher whose handler returns normally, or is not invoked. -/
theorem fetchReportData_of_live (h : b.fetchers.get id = some o) {throws : Option Thrown}
    (hthrows : o.deferred.dataThrows throws = none) (payload : FetchData) :
    fetchReportData id payload throws b = liftFetch b id (.ok (FetchLife.keep o (.data payload))) := by
  simp [fetchReportData, h, hthrows, fetchReport_of_live h]

theorem fetchFail_of_live (h : b.fetchers.get id = some o) (code : BrokerError) (message : String) :
    fetchFail id code message b = liftFetch b id (.ok (FetchLife.fail o (.broker code message))) := by
  have hreport := fetchReport_of_live h (.error (.broker code message))
  have hlive := get_withFetcher_self b id (FetchLife.keep o (.error (.broker code message))).1
  -- the report keeps the fetcher, so `del` finds it
  have hdel := all_singleton_liftFetch (fetchDel_of_live hlive)
  unfold fetchFail
  rw [ifFetching_of_live h]
  exact seq_liftFetch hreport hdel

theorem fetchReceived_of_live (codec : Codec) (h : b.fetchers.get id = some o) (body : Bytes)
    (throws : Option Thrown) :
    fetchReceived codec id body throws b = liftFetch b id (FetchLife.receive codec o body throws) := by
  unfold fetchReceived FetchLife.receive
  cases codec.fromMsgpack body with
  | ok received =>
      cases hthrows : o.deferred.dataThrows throws with
      | some thrown =>
          -- what the handler throws leaves the callback
          simp [Prog.all, Prog.seq, ifFetching_of_live h, fetchReportData, h, hthrows, liftFetch]
      | none =>
          -- `has` is asked before the report and again before `del`
          have hdata := fetchReportData_of_live h hthrows (.ok received)
          have hlive := get_withFetcher_self b id (FetchLife.keep o (.data (.ok received))).1
          have hdel := fetchDel_of_live hlive
          exact seq_liftFetch ((ifFetching_of_live h _).trans hdata)
            (all_singleton_liftFetch ((ifFetching_of_live hlive _).trans hdel))
  | error thrown =>
      let r : Report FetchData := .error (.broker .dataResponse thrown.fetchText)
      let o' : DeferredFetching H := { o with deferred := (o.deferred.report r).1 }
      have hfailed : o'.deferred.failed = true :=
        Deferred.failed_reportError (Error.toBool_broker _ _)
      -- the gate is closed, so nothing is invoked and nothing can throw
      have hthrows : o'.deferred.dataThrows throws = none := by
        simp [Deferred.dataThrows, Deferred.toBool, hfailed]
      have hclosed : o'.deferred.reportData (.ok .null) = [] :=
        Deferred.reportData_of_failed hfailed
      have hgone : (o'.deferred.report (.data (.ok .null))).2 = [] := hclosed
      have hreport := fetchReport_of_live h r
      have hlive := get_withFetcher_self b id (some o')
      have hnull := fetchReportData_of_live hlive hthrows (.ok .null)
      have hlive' := get_withFetcher_self (b.withFetcher id (some o')) id (some o')
      have hdel := fetchDel_of_live hlive'
      -- report the error, pass the null value to nobody, remove
      have hall := seq_liftFetch ((ifFetching_of_live h _).trans hreport)
        (seq_liftFetch ((ifFetching_of_live hlive _).trans hnull)
          (all_singleton_liftFetch ((ifFetching_of_live hlive' _).trans hdel)))
      simp only [hgone] at hall
      exact hall

theorem fetchReceived_of_removed (codec : Codec) (h : b.fetchers.get id = none) (body : Bytes)
    (throws : Option Thrown) : fetchReceived codec id body throws b = .ok (b, []) := by
  unfold fetchReceived
  cases codec.fromMsgpack body with
  | ok received =>
      simp [Prog.all, Prog.seq, Prog.skip, ifFetching_of_removed h]
  | error thrown =>
      simp [Prog.all, Prog.seq, Prog.skip, ifFetching_of_removed h]

/-- The callbacks do to the broker what they do to the life of their fetcher. -/
theorem fetchCallback_eq_life (codec : Codec) (b : BrokerImpl H) (id : String)
    (closure : FetchClosure) (c : FetchCallback) :
    fetchCallback codec id closure c b =
      liftFetch b id
        (FetchLife.callback codec b.exchangeName id closure (b.fetchers.get id) c) := by
  cases h : b.fetchers.get id with
  | none =>
      -- `has` says no, and the callback does nothing
      have hsame : b.withFetcher id none = b := by
        simpa [h] using withFetcher_get b id
      cases c with
      | received body throws =>
          simp [fetchCallback, fetchReceived_of_removed codec h, FetchLife.callback, liftFetch, hsame]
      | _ =>
          simp [fetchCallback, fetchDeclared, fetchFail, ifFetching_of_removed h,
            FetchLife.callback, liftFetch, hsame]
  | some o =>
      -- channel operations put the same fetcher back
      have hsame : b.withFetcher id (some o) = b := by
        simpa [h] using withFetcher_get b id
      cases c with
      | declared name =>
          simp [fetchCallback, fetchDeclared, ifFetching_of_live h, fetchChannel, h,
            FetchLife.callback, liftFetch, hsame]
      | declareError message =>
          exact fetchFail_of_live h _ message
      | commitError message =>
          have hreport := fetchReport_of_live h (.error (.broker .publish message))
          simpa [fetchCallback, FetchLife.callback, ifFetching_of_live h] using hreport
      | received body throws =>
          exact fetchReceived_of_live codec h body throws
      | consumed =>
          have hreport := fetchReport_of_live h .success
          simpa [fetchCallback, FetchLife.callback, ifFetching_of_live h] using hreport
      | consumeError message =>
          exact fetchFail_of_live h _ message

end BrokerImpl

end Refinement

/-! ## The broker refines the life of each fetch -/

section Broker

variable {H : Type}

/-- What an event means to the fetch `id`. -/
def Event.toFetch (id : String) : Event H → Option (FetchEvent H)
  | .fetchCallback id' c => if id' = id then some (.callback c) else none
  | .fetchRegister id' r => if id' = id then some (.register r) else none
  | _ => none

/-- The calls of `create_unique_id`. -/
def Event.takesId : Event H → Bool
  | .uniqueId => true
  | .fetchMessage .. => true
  | .listenMessages .. => true
  | _ => false

def Event.isFetch : Event H → Bool
  | .fetchMessage .. => true
  | .fetchRegister .. => true
  | .fetchCallback .. => true
  | _ => false

namespace BrokerImpl

/-- The fetch `id` has been started with `closure`; its id will not be given out again. -/
structure Tracked (b : BrokerImpl H) (id : String) (closure : FetchClosure) : Prop where
  closure : b.fetchClosures.get id = some closure
  used : ∃ n, n < b.uniqueId ∧ id = idText n

theorem Tracked.ne_idText {b : BrokerImpl H} {id : String} {closure : FetchClosure}
    (h : b.Tracked id closure) : id ≠ idText b.uniqueId := by
  rintro rfl
  exact not_issued_self @idText_injective h.used

theorem Tracked.increment {b : BrokerImpl H} {id : String} {closure : FetchClosure}
    (h : b.Tracked id closure) : b.incrementId.Tracked id closure := by
  rcases h.used with ⟨n, hn, hid⟩
  exact ⟨h.closure, n, Nat.lt_succ_of_lt hn, hid⟩

theorem NoFetch.tracked {b b' : BrokerImpl H} {as : List (Action H)} {id : String}
    {closure : FetchClosure} (h : NoFetch b as b') (ht : b.Tracked id closure) :
    b'.Tracked id closure :=
  { closure := h.fetchClosures ▸ ht.closure
    used := h.uniqueId ▸ ht.used }

theorem filterMap_toFetch_self (id : String) (as : List (FetchAction H)) :
    (as.map (Action.fetch id)).filterMap (Action.toFetch id) = as := by
  have hcomp : (Action.toFetch id ∘ Action.fetch id : FetchAction H → _) = some := by
    funext a
    simp [Action.toFetch]
  rw [List.filterMap_map, hcomp, List.filterMap_some]

theorem filterMap_toFetch_of_ne {id id' : String} (h : id' ≠ id) (as : List (FetchAction H)) :
    (as.map (Action.fetch id')).filterMap (Action.toFetch id) = [] := by
  simp [List.filterMap_eq_nil_iff, Action.toFetch, h]

/-- What one step of the broker means to the fetch `id`: a step of its life if the event
concerns it, and nothing otherwise. -/
def FetchStep (codec : Codec) (id : String) (closure : FetchClosure) (b : BrokerImpl H)
    (e : Event H) (as : List (Action H)) (b' : BrokerImpl H) : Prop :=
  match e.toFetch id with
  | none => b'.fetchers.get id = b.fetchers.get id ∧ as.filterMap (Action.toFetch id) = []
  | some e' =>
      FetchLife.step codec b.exchangeName id closure (b.fetchers.get id) e' =
        .ok (b'.fetchers.get id, as.filterMap (Action.toFetch id))

theorem fetchStep_of_noFetch {codec : Codec} {id : String} {closure : FetchClosure}
    {b b₀ b' : BrokerImpl H} {e : Event H} {as : List (Action H)} (hevent : e.toFetch id = none)
    (h : NoFetch b₀ as b') (hsame : b₀.fetchers = b.fetchers) :
    FetchStep codec id closure b e as b' := by
  unfold FetchStep
  rw [hevent]
  exact ⟨by rw [h.fetchers, hsame], h.actions id⟩

/-- A callback is a step of the life of its fetcher, put in place. -/
theorem onFetchCallback_ok_iff {codec : Codec} {id : String} {c : FetchCallback}
    {b b' : BrokerImpl H} {as : List (Action H)} :
    onFetchCallback codec id c b = .ok (b', as) ↔
      ∃ closure v xs, b.fetchClosures.get id = some closure ∧
        FetchLife.callback codec b.exchangeName id closure (b.fetchers.get id) c = .ok (v, xs) ∧
        b' = b.withFetcher id v ∧ as = xs.map (.fetch id) := by
  unfold onFetchCallback
  cases hclosure : b.fetchClosures.get id with
  | none => simp
  | some closure =>
      simp only [fetchCallback_eq_life]
      cases hlife : FetchLife.callback codec b.exchangeName id closure (b.fetchers.get id) c with
      | error f => simp [liftFetch, hlife]
      | ok r =>
          simp only [liftFetch, Except.ok.injEq, Prod.mk.injEq, Option.some.injEq]
          constructor
          · rintro ⟨rfl, rfl⟩
            exact ⟨closure, r.1, r.2, rfl, hlife, rfl, rfl⟩
          · rintro ⟨closure', v, xs, rfl, hcallback, rfl, rfl⟩
            rw [hlife] at hcallback
            cases hcallback
            exact ⟨rfl, rfl⟩

/-- A callback of the fetch `id'`, seen from the fetch `id`. -/
theorem fetchCallback_fetchStep {codec : Codec} {id : String} {closure : FetchClosure}
    {b b' : BrokerImpl H} {as : List (Action H)} (ht : b.Tracked id closure) {id' : String}
    {c : FetchCallback} (h : onFetchCallback codec id' c b = .ok (b', as)) :
    FetchStep codec id closure b (.fetchCallback id' c) as b' ∧ b'.Tracked id closure ∧
      b'.exchangeName = b.exchangeName := by
  rcases onFetchCallback_ok_iff.1 h with ⟨closure', v, xs, hclosure, hlife, rfl, rfl⟩
  refine ⟨?_, ⟨ht.closure, ht.used⟩, rfl⟩
  unfold FetchStep
  by_cases hid : id' = id
  · subst hid
    -- the callback runs the closure that the fetch was started with
    have hsame : closure' = closure := by
      rw [ht.closure] at hclosure
      exact (Option.some.inj hclosure).symm
    simp only [Event.toFetch, if_true]
    rw [get_withFetcher_self, filterMap_toFetch_self, ← hsame]
    exact hlife
  · simp only [Event.toFetch, hid, if_false]
    exact ⟨get_withFetcher_of_ne b v (Ne.symm hid), filterMap_toFetch_of_ne hid xs⟩

theorem fetchRegister_fetchStep {codec : Codec} {id : String} {closure : FetchClosure}
    {b b' : BrokerImpl H} {as : List (Action H)} (ht : b.Tracked id closure) {id' : String}
    {r : Registration H} (h : fetchRegister id' r b = .ok (b', as)) :
    FetchStep codec id closure b (.fetchRegister id' r) as b' ∧ b'.Tracked id closure ∧
      b'.exchangeName = b.exchangeName := by
  rcases fetchRegister_ok_iff.1 h with ⟨o, hlive, rfl, rfl⟩
  refine ⟨?_, ⟨ht.closure, ht.used⟩, rfl⟩
  unfold FetchStep
  by_cases hid : id' = id
  · subst hid
    simp [Event.toFetch, hlive, FetchLife.step]
  · simp [Event.toFetch, hid, Table.get_set_of_ne _ _ (Ne.symm hid)]

theorem fetchMessage_fetchStep {codec : Codec} {id : String} {closure : FetchClosure}
    {b b' : BrokerImpl H} {as : List (Action H)} (ht : b.Tracked id closure) {thread : ThreadId}
    {message : Json} {routingKey : String} {failed : Bool}
    (h : fetchMessage thread message routingKey failed b = .ok (b', as)) :
    FetchStep codec id closure b (.fetchMessage thread message routingKey failed) as b' ∧
      b'.Tracked id closure ∧ b'.exchangeName = b.exchangeName := by
  rcases fetchMessage_ok_iff.1 h with ⟨_, rfl, rfl⟩
  -- the new fetch has another id
  have hne := ht.ne_idText
  have hget := (onListeners_getConnection b.incrementId thread).noFetch
  have htracked := hget.tracked ht.increment
  refine ⟨⟨?_, ?_⟩, ⟨?_, htracked.used⟩, hget.exchangeName⟩
  · simp only [newFetcher]
    rw [Table.get_set_of_ne _ _ hne, hget.fetchers]
    rfl
  · have hne' : idText b.uniqueId ≠ id := hne.symm
    simp [Action.toFetch, hne']
  · simp only [newFetcher]
    rw [Table.get_set_of_ne _ _ hne, htracked.closure]

/-- Whatever is not about fetches leaves them alone; some steps take an id. -/
theorem step_noFetch {codec : Codec} {b b' : BrokerImpl H} {e : Event H} {as : List (Action H)}
    (he : e.isFetch = false) (h : step codec b e = .ok (b', as)) :
    (e.takesId = false ∧ NoFetch b as b') ∨ (e.takesId = true ∧ NoFetch b.incrementId as b') := by
  cases e with
  | uniqueId =>
      rcases takeUniqueId_ok_iff.1 h with ⟨_, rfl, rfl⟩
      exact Or.inr ⟨rfl, noFetch_composes.refl _⟩
  | listenMessages thread queue keys failed =>
      exact Or.inr ⟨rfl, noFetch_listenMessages h⟩
  | listenRegister p r =>
      exact Or.inl ⟨rfl, (onObjects_listenRegister p r _ _ _ h).noFetch⟩
  | listenCallback thread id' c =>
      rcases onListenCallback_ok_iff.1 h with ⟨_, h⟩
      exact Or.inl ⟨rfl, noFetch_listenCallback _ _ _ _ _ _ _ h⟩
  | replayCall thread r call =>
      exact Or.inl ⟨rfl, (onReplays_replayCall _ _ _ _ _ _ _ h).noFetch⟩
  | replayDestroyed r =>
      exact Or.inl ⟨rfl, (onReplays_replayDestroyed _ _ _ _ h).noFetch⟩
  | replySuccess transaction =>
      exact Or.inl ⟨rfl, (onReplays_replySuccess _ _ _ _ h).noFetch⟩
  | replyFailure transaction message =>
      exact Or.inl ⟨rfl, noFetch_replyFailure _ _ _ _ _ h⟩
  | connectionError thread message =>
      exact Or.inl ⟨rfl, (onObjects_handlerReport _ _ _ _ _ h).noFetch⟩
  | connectionLost thread =>
      exact Or.inl ⟨rfl, (onObjects_handlerReport _ _ _ _ _ h).noFetch⟩
  | publishMessage thread message routingKey =>
      cases h
      -- a publication may make the thread's connection, nothing more
      have hget := onListeners_getConnection b thread
      refine Or.inl ⟨rfl, hget.exchangeName, hget.fetchers, hget.fetchClosures, hget.uniqueId, ?_⟩
      intro k
      simp [List.filterMap_eq_nil_iff, Action.toFetch]
  | _ =>
      cases he

/-- The refinement: every step of the broker is a step of the life of `id`, or none at all. -/
theorem step_fetch {codec : Codec} {id : String} {closure : FetchClosure} {b b' : BrokerImpl H}
    {e : Event H} {as : List (Action H)} (ht : b.Tracked id closure)
    (h : step codec b e = .ok (b', as)) :
    FetchStep codec id closure b e as b' ∧ b'.Tracked id closure ∧
      b'.exchangeName = b.exchangeName := by
  cases e with
  | fetchMessage thread message routingKey failed =>
      exact fetchMessage_fetchStep ht h
  | fetchRegister id' r =>
      exact fetchRegister_fetchStep ht h
  | fetchCallback id' c =>
      exact fetchCallback_fetchStep ht h
  | _ =>
      rcases step_noFetch rfl h with ⟨_, hframe⟩ | ⟨_, hframe⟩
      · exact ⟨fetchStep_of_noFetch rfl hframe rfl, hframe.tracked ht, hframe.exchangeName⟩
      · exact ⟨fetchStep_of_noFetch rfl hframe rfl, hframe.tracked ht.increment,
          hframe.exchangeName⟩

/-! ### The fetches that have been started -/

/-- A fetch is started with the id that the counter stands at. -/
theorem fetchMessage_ok {thread : ThreadId} {message : Json} {routingKey : String} {failed : Bool}
    {b b' : BrokerImpl H} {as : List (Action H)}
    (h : fetchMessage thread message routingKey failed b = .ok (b', as)) :
    b'.fetchClosures = b.fetchClosures.set (idText b.uniqueId)
        { message := message
          routingKey := routingKey } ∧
      b'.uniqueId = b.uniqueId + 1 := by
  rcases fetchMessage_ok_iff.1 h with ⟨_, rfl, rfl⟩
  have hget := onListeners_getConnection b.incrementId thread
  refine ⟨?_, hget.uniqueId⟩
  simp only [newFetcher, hget.fetchClosures]
  rfl

/-- Only `fetch_message` registers the callbacks of a fetch. -/
theorem step_fetchClosures {codec : Codec} {b b' : BrokerImpl H} {e : Event H}
    {as : List (Action H)}
    (he : ∀ thread message routingKey failed, e ≠ .fetchMessage thread message routingKey failed)
    (h : step codec b e = .ok (b', as)) : b'.fetchClosures = b.fetchClosures := by
  cases e with
  | fetchMessage thread message routingKey failed =>
      exact absurd rfl (he thread message routingKey failed)
  | fetchRegister id r =>
      rcases fetchRegister_ok_iff.1 h with ⟨_, _, rfl, rfl⟩
      rfl
  | fetchCallback id c =>
      rcases onFetchCallback_ok_iff.1 h with ⟨closure, v, xs, _, _, rfl, _⟩
      rfl
  | _ =>
      rcases step_noFetch rfl h with ⟨_, hframe⟩ | ⟨_, hframe⟩
      · exact hframe.fetchClosures
      · exact hframe.fetchClosures

/-- The ids of a broker's fetches have all been taken from the counter. -/
theorem Reachable.tracked {codec : Codec} {b : BrokerImpl H} (hb : Reachable codec b) {id : String}
    {closure : FetchClosure} (hclosure : b.fetchClosures.get id = some closure) :
    b.Tracked id closure := by
  rcases hb with ⟨exchangeName, es, outs, hrun⟩
  let I : BrokerImpl H → Prop := fun b =>
    ∀ id closure, b.fetchClosures.get id = some closure → b.Tracked id closure
  have hinv : I b := by
    refine run_invariant (I := I) ?_ ?_ hrun
    · intro b b' e as hI hstep id closure hget
      cases e with
      | fetchMessage thread message routingKey failed =>
          rcases fetchMessage_ok hstep with ⟨hclosures, hunique⟩
          -- the new fetch's id is the counter's, which the step has passed
          by_cases hid : id = idText b.uniqueId
          · exact ⟨hget, b.uniqueId, by omega, hid⟩
          · rw [hclosures, Table.get_set_of_ne _ _ hid] at hget
            exact (step_fetch (hI id closure hget) hstep).2.1
      | _ =>
          rw [step_fetchClosures (by simp) hstep] at hget
          exact (step_fetch (hI id closure hget) hstep).2.1
    · intro id closure hget
      simp [construct] at hget
  exact hinv id closure hclosure

end BrokerImpl

end Broker

end CapyAmqp
