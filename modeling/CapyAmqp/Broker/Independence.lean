import CapyAmqp.Broker.FetchOutcome
import CapyAmqp.Broker.Traffic

/-!
# Independence — fetches do not disturb each other

The callbacks of a fetch touch its own entry of `fetchers_` only, and no two fetches share an id.
So a fetch sees in a run of the broker what it sees in the run in which the fetches are started as
before but only its own callbacks occur (`fetches_independent`).
-/

namespace CapyAmqp

open Lib

variable {H : Type}

/-- How often an id has been taken. -/
def takes (es : List (Event H)) : Nat :=
  es.countP Event.takesId

/-- What is left of an event when only the fetch `id` has callbacks: fetches are still started, and
of a `listen_messages` there remains the call of `create_unique_id`. -/
def Event.alone (id : String) : Event H → Option (Event H)
  | .uniqueId => some .uniqueId
  | .fetchMessage thread message routingKey failed =>
      some (.fetchMessage thread message routingKey failed)
  | .listenMessages .. => some .uniqueId
  | .fetchRegister id' r => if id' = id then some (.fetchRegister id' r) else none
  | .fetchCallback id' c => if id' = id then some (.fetchCallback id' c) else none
  | _ => none

/-- The fetch that an action starts. -/
def Action.started : Action H → Option String
  | .fetch id (.channel (.declareQueue ..)) => some id
  | _ => none

/-- The ids of the fetches that have been started. -/
def startedIds (outs : List (List (Action H))) : List String :=
  outs.flatten.filterMap Action.started

namespace BrokerImpl

/-- Two brokers that the fetch `id` cannot tell apart. -/
structure SameFetch (id : String) (b b' : BrokerImpl H) : Prop where
  exchangeName : b'.exchangeName = b.exchangeName
  fetchClosures : b'.fetchClosures = b.fetchClosures
  uniqueId : b'.uniqueId = b.uniqueId
  fetcher : b'.fetchers.get id = b.fetchers.get id

variable {codec : Codec} {id : String} {b b₁ b' : BrokerImpl H} {e e' : Event H}
  {as : List (Action H)}

/-- The fetch `id` is as it was, and so is what its callbacks read. -/
theorem SameFetch.of_frame (h : SameFetch id b b') (hexchange : b₁.exchangeName = b.exchangeName)
    (hclosures : b₁.fetchClosures = b.fetchClosures) (hunique : b₁.uniqueId = b.uniqueId)
    (hfetcher : b₁.fetchers.get id = b.fetchers.get id) : SameFetch id b₁ b' :=
  ⟨h.exchangeName.trans hexchange.symm, h.fetchClosures.trans hclosures.symm,
    h.uniqueId.trans hunique.symm, h.fetcher.trans hfetcher.symm⟩

/-- An event of another object. -/
theorem SameFetch.skip (h : SameFetch id b b') (hstep : step codec b e = .ok (b₁, as))
    (he : e.alone id = none) : SameFetch id b₁ b' ∧ as.filterMap (Action.toFetch id) = [] := by
  cases e with
  | uniqueId => cases he
  | fetchMessage => cases he
  | listenMessages => cases he
  -- another fetch's registrations and callbacks write their own entry only
  | fetchRegister id' r =>
      have hid : id' ≠ id := by
        simpa [Event.alone] using he
      rcases fetchRegister_ok_iff.1 hstep with ⟨_, _, rfl, rfl⟩
      exact ⟨h.of_frame rfl rfl rfl (Table.get_set_of_ne _ _ hid.symm), rfl⟩
  | fetchCallback id' c =>
      have hid : id' ≠ id := by
        simpa [Event.alone] using he
      rcases onFetchCallback_ok_iff.1 hstep with ⟨closure, v, xs, _, _, rfl, rfl⟩
      exact ⟨h.of_frame rfl rfl rfl (get_withFetcher_of_ne b v hid.symm),
        filterMap_toFetch_of_ne hid xs⟩
  -- listeners and replays do not touch fetches at all
  | _ =>
      rcases step_noFetch rfl hstep with ⟨_, hframe⟩ | ⟨htakes, _⟩
      · exact ⟨h.of_frame hframe.exchangeName hframe.fetchClosures hframe.uniqueId
          (by rw [hframe.fetchers]), hframe.actions id⟩
      · cases htakes

/-- The counter of the other broker stands where this one's does. -/
theorem SameFetch.takeUniqueId (h : SameFetch id b b') (hunique : b.uniqueId ≠ 2 ^ 31 - 1)
    (hframe : NoFetch b.incrementId as b₁) :
    ∃ b₂ bs, step codec b' .uniqueId = .ok (b₂, bs) ∧ SameFetch id b₁ b₂ ∧
      bs.filterMap (Action.toFetch id) = as.filterMap (Action.toFetch id) := by
  have hunique' : b'.uniqueId ≠ 2 ^ 31 - 1 := by
    rw [h.uniqueId]
    exact hunique
  have hsame : SameFetch id b.incrementId b'.incrementId :=
    ⟨h.exchangeName, h.fetchClosures, by simp [incrementId, h.uniqueId], h.fetcher⟩
  refine ⟨b'.incrementId, [], takeUniqueId_ok_iff.2 ⟨hunique', rfl, rfl⟩, ?_, ?_⟩
  · exact hsame.of_frame hframe.exchangeName hframe.fetchClosures hframe.uniqueId
      (by rw [hframe.fetchers])
  · rw [hframe.actions id]
    rfl

theorem SameFetch.fetchMessage (h : SameFetch id b b') {thread : ThreadId} {message : Json}
    {routingKey : String} {failed : Bool}
    (hstep : step codec b (.fetchMessage thread message routingKey failed) = .ok (b₁, as)) :
    ∃ b₂ bs, step codec b' (.fetchMessage thread message routingKey failed) = .ok (b₂, bs) ∧
      SameFetch id b₁ b₂ ∧
      bs.filterMap (Action.toFetch id) = as.filterMap (Action.toFetch id) := by
  rcases BrokerImpl.fetchMessage_ok_iff.1 hstep with ⟨hunique, rfl, rfl⟩
  have hget := onListeners_getConnection b.incrementId thread
  have hget' := onListeners_getConnection b'.incrementId thread
  refine ⟨b'.incrementId.newFetcher thread (idText b.uniqueId)
      { message := message, routingKey := routingKey } failed, _,
    BrokerImpl.fetchMessage_ok_iff.2 ⟨?_, by rw [h.uniqueId], rfl⟩, ⟨?_, ?_, ?_, ?_⟩,
    by rw [h.uniqueId]⟩
  · rw [h.uniqueId]
    exact hunique
  · exact hget'.exchangeName.trans (h.exchangeName.trans hget.exchangeName.symm)
  · simp only [newFetcher, hget.fetchClosures, hget'.fetchClosures]
    exact congrArg (fun t : Table String FetchClosure => t.set _ _) h.fetchClosures
  · refine hget'.uniqueId.trans (Eq.trans ?_ hget.uniqueId.symm)
    simp [incrementId, h.uniqueId]
  · simp only [newFetcher, hget.fetchers, hget'.fetchers]
    -- both brokers make the same entry, whoever's fetch it is
    by_cases hnew : id = idText b.uniqueId
    · subst hnew
      simp
    · rw [Table.get_set_of_ne _ _ hnew, Table.get_set_of_ne _ _ hnew]
      exact h.fetcher

/-- An event that is kept has the same effect in both brokers. -/
theorem SameFetch.keep (h : SameFetch id b b') (hstep : step codec b e = .ok (b₁, as))
    (he : e.alone id = some e') :
    ∃ b₂ bs, step codec b' e' = .ok (b₂, bs) ∧ SameFetch id b₁ b₂ ∧
      bs.filterMap (Action.toFetch id) = as.filterMap (Action.toFetch id) := by
  cases e with
  | uniqueId =>
      cases he
      rcases BrokerImpl.takeUniqueId_ok_iff.1 hstep with ⟨hunique, rfl, rfl⟩
      exact h.takeUniqueId hunique (noFetch_composes.refl _)
  | fetchMessage thread message routingKey failed =>
      cases he
      exact h.fetchMessage hstep
  | listenMessages thread queue keys failed =>
      cases he
      -- of a new listener, the other run keeps the id that it takes
      have hframe := noFetch_listenMessages hstep
      exact h.takeUniqueId (BrokerImpl.listenMessages_ok_iff.1 hstep).1 hframe
  | fetchRegister id' r =>
      simp only [Event.alone, Option.ite_none_right_eq_some, Option.some.injEq] at he
      rcases he with ⟨rfl, rfl⟩
      rcases BrokerImpl.fetchRegister_ok_iff.1 hstep with ⟨o, hlive, rfl, rfl⟩
      have hlive' : b'.fetchers.get id' = some o := h.fetcher.trans hlive
      let o' : DeferredFetching H := { o with deferred := o.deferred.register r }
      refine ⟨{ b' with fetchers := b'.fetchers.set id' o' }, [],
        BrokerImpl.fetchRegister_ok_iff.2 ⟨o, hlive', rfl, rfl⟩,
        ⟨h.exchangeName, h.fetchClosures, h.uniqueId, ?_⟩, rfl⟩
      rw [Table.get_set_self, Table.get_set_self]
  | fetchCallback id' c =>
      simp only [Event.alone, Option.ite_none_right_eq_some, Option.some.injEq] at he
      rcases he with ⟨rfl, rfl⟩
      rcases onFetchCallback_ok_iff.1 hstep with ⟨closure, v, xs, hclosure, hlife, rfl, rfl⟩
      -- the callback reads the closure, the exchange and its own entry
      rw [← h.fetchClosures] at hclosure
      rw [← h.exchangeName, ← h.fetcher] at hlife
      refine ⟨_, _, onFetchCallback_ok_iff.2 ⟨closure, v, xs, hclosure, hlife, rfl, rfl⟩,
        ⟨h.exchangeName, h.fetchClosures, h.uniqueId, ?_⟩, rfl⟩
      rw [get_withFetcher_self, get_withFetcher_self]
  | _ =>
      cases he

/-! ## The ids -/

theorem step_uniqueId (h : step codec b e = .ok (b', as)) :
    b'.uniqueId = b.uniqueId + if e.takesId then 1 else 0 := by
  cases e with
  | fetchMessage thread message routingKey failed =>
      exact (fetchMessage_ok h).2
  | fetchRegister id r =>
      rcases BrokerImpl.fetchRegister_ok_iff.1 h with ⟨_, _, rfl, rfl⟩
      rfl
  | fetchCallback id c =>
      rcases onFetchCallback_ok_iff.1 h with ⟨closure, v, xs, _, _, rfl, _⟩
      rfl
  | _ =>
      rcases step_noFetch rfl h with ⟨htakes, hframe⟩ | ⟨htakes, hframe⟩
      · rw [hframe.uniqueId, htakes]
        rfl
      · rw [hframe.uniqueId, htakes]
        rfl

/-- Only `fetch_message` starts a fetch, under the id that the counter stands at. -/
theorem step_started (h : step codec b e = .ok (b', as)) {id : String}
    (hid : id ∈ as.filterMap Action.started) :
    id = idText b.uniqueId ∧ as.filterMap Action.started = [id] ∧
      ∃ thread message routingKey failed, e = .fetchMessage thread message routingKey failed := by
  rcases List.mem_filterMap.1 hid with ⟨a, ha, hstarted⟩
  -- a fetch is started by the action that declares its reply queue
  obtain ⟨queue, flags, rfl⟩ : ∃ queue flags, a = .fetch id (.channel (.declareQueue queue flags)) := by
    unfold Action.started at hstarted
    split at hstarted
    · cases hstarted
      exact ⟨_, _, rfl⟩
    · cases hstarted
  cases e with
  | fetchMessage thread message routingKey failed =>
      rcases BrokerImpl.fetchMessage_ok_iff.1 h with ⟨_, rfl, rfl⟩
      rcases List.mem_singleton.1 ha with hsame
      cases hsame
      exact ⟨rfl, rfl, thread, message, routingKey, failed, rfl⟩
  | fetchRegister id' r =>
      rcases BrokerImpl.fetchRegister_ok_iff.1 h with ⟨_, _, rfl, rfl⟩
      cases ha
  | fetchCallback id' c =>
      cases c with
      | declared name =>
          rcases declared_actions h ha with ⟨closure, op, _, hop, hmem⟩
          cases hop
          -- the later operations declare no queue
          simp [fetchOps] at hmem
      | _ =>
          rcases onFetchCallback_ok_iff.1 h with ⟨closure, v, xs, _, hlife, _, rfl⟩
          rcases List.mem_map.1 ha with ⟨x, hx, hsame⟩
          cases hsame
          exact absurd hx (channel_not_mem_callback hlife (by simp) _)
  | _ =>
      have hnone : as.filterMap (Action.toFetch id) = [] := by
        rcases step_noFetch rfl h with ⟨_, hframe⟩ | ⟨_, hframe⟩
        · exact hframe.actions id
        · exact hframe.actions id
      have haction := List.filterMap_eq_nil_iff.1 hnone _ ha
      simp [Action.toFetch] at haction

end BrokerImpl

theorem startedIds_concat (outs : List (List (Action H))) (as : List (Action H)) :
    startedIds (outs ++ [as]) = startedIds outs ++ as.filterMap Action.started := by
  simp [startedIds]

/-- The ids are distinct, and each has its callbacks registered. -/
theorem startedIds_of_run {codec : Codec} {exchangeName : String} {es : List (Event H)}
    {b : BrokerImpl H} {outs : List (List (Action H))}
    (hrun : run (BrokerImpl.step codec) (.construct exchangeName) es = .ok (b, outs)) :
    (startedIds outs).Nodup ∧
      ∀ id ∈ startedIds outs, ∃ closure, b.fetchClosures.get id = some closure := by
  let P : BrokerImpl H → List (Event H) → List (List (Action H)) → Prop :=
    fun b _ outs => BrokerImpl.Reachable codec b ∧ (startedIds outs).Nodup ∧
      ∀ id ∈ startedIds outs, ∃ closure, b.fetchClosures.get id = some closure
  have hinv : P b es outs := by
    refine run_history (P := P) ⟨⟨exchangeName, [], [], rfl⟩, by simp [startedIds], by
      simp [startedIds]⟩ ?_ hrun
    intro es m t outs e as _ hP hstep
    rcases hP with ⟨hreachable, hnodup, hclosures⟩
    -- closures are never taken away
    have hkept : ∀ id ∈ startedIds outs, ∃ closure, t.fetchClosures.get id = some closure := by
      intro id hid
      rcases hclosures id hid with ⟨closure, hclosure⟩
      have htracked := hreachable.tracked hclosure
      exact ⟨closure, (BrokerImpl.step_fetch htracked hstep).2.1.closure⟩
    refine ⟨hreachable.step hstep, ?_⟩
    rw [startedIds_concat]
    cases hstarted : as.filterMap Action.started with
    | nil =>
        simpa using ⟨hnodup, hkept⟩
    | cons id rest =>
        have hmem : id ∈ as.filterMap Action.started := by
          simp [hstarted]
        rcases BrokerImpl.step_started hstep hmem with ⟨hid, hone, thread, message, key, failed, rfl⟩
        -- the counter has passed every id that is in use
        have hnew : id ∉ startedIds outs := by
          intro hold
          rcases hclosures id hold with ⟨closure, hclosure⟩
          exact (hreachable.tracked hclosure).ne_idText hid
        rw [← hstarted, hone]
        refine ⟨List.nodup_append.2 ⟨hnodup, by simp, ?_⟩, ?_⟩
        · intro x hx y hy hxy
          rcases List.mem_singleton.1 hy with rfl
          exact hnew (hxy ▸ hx)
        · intro x hx
          rcases List.mem_append.1 hx with hx | hx
          · exact hkept x hx
          · rcases List.mem_singleton.1 hx with rfl
            rw [(BrokerImpl.fetchMessage_ok hstep).1, hid]
            exact ⟨_, Table.get_set_self _ _ _⟩
  exact hinv.2

theorem uniqueId_of_run {codec : Codec} {exchangeName : String} {es : List (Event H)}
    {b : BrokerImpl H} {outs : List (List (Action H))}
    (hrun : run (BrokerImpl.step codec) (.construct exchangeName) es = .ok (b, outs)) :
    b.uniqueId = takes es + 1 := by
  have hcount := count_of_run BrokerImpl.step_uniqueId hrun
  rw [hcount, Nat.add_comm]
  rfl

/-! ## Fetches on their own -/

theorem fetchHistory_eq_flatMap (id : String) (outs : List (List (Action H))) :
    fetchHistory id outs = outs.flatMap fun as => as.filterMap (Action.toFetch id) := by
  induction outs with
  | nil => rfl
  | cons as outs ih =>
      simp only [fetchHistory, List.flatten_cons, List.filterMap_append] at ih ⊢
      rw [ih]
      rfl

/-- Fetches do not disturb each other.

Each of fewer than 2^31 - 1 calls of `create_unique_id` returns an id, and the fetches of a run have
different ones.  A callback of a fetch can come at any time: it does not fault when its handler
returns.  What happens to a fetch in the run, the handlers that are invoked among it, and what is
left of it in `fetchers_`, is the same in the run in which only its own callbacks occur. -/
theorem fetches_independent {codec : Codec} {exchangeName : String} {es : List (Event H)}
    {b : BrokerImpl H} {outs : List (List (Action H))}
    (hrun : run (BrokerImpl.step codec) (.construct exchangeName) es = .ok (b, outs)) :
    (takes es + 1 < 2 ^ 31 - 1 → ∃ id, b.createUniqueId = .ok (b.incrementId, id)) ∧
    (startedIds outs).Nodup ∧
    ∀ id ∈ startedIds outs,
      (∀ c : FetchCallback, c.Returns →
        ∃ r, BrokerImpl.step codec b (.fetchCallback id c) = .ok r) ∧
      ∃ b' outs',
        run (BrokerImpl.step codec) (.construct exchangeName) (es.filterMap (Event.alone id)) =
          .ok (b', outs') ∧
        fetchHistory id outs' = fetchHistory id outs ∧ b'.fetchers.get id = b.fetchers.get id := by
  rcases startedIds_of_run hrun with ⟨hnodup, hclosures⟩
  have hreachable : BrokerImpl.Reachable codec b := ⟨exchangeName, es, outs, hrun⟩
  refine ⟨?_, hnodup, ?_⟩
  · intro htakes
    -- the counter stands one above the number of calls
    have hunique := uniqueId_of_run hrun
    exact ⟨_, BrokerImpl.createUniqueId_ok_iff.2 ⟨by omega, rfl, rfl⟩⟩
  · intro id hid
    rcases hclosures id hid with ⟨closure, hclosure⟩
    refine ⟨?_, ?_⟩
    · intro c hreturns
      cases hstep : BrokerImpl.step codec b (.fetchCallback id c) with
      | ok r => exact ⟨r, rfl⟩
      | error f =>
          have htracked := hreachable.tracked hclosure
          exact absurd hreturns (step_fetchCallback_error htracked hstep).2
    · have hstart : BrokerImpl.SameFetch id (.construct exchangeName : BrokerImpl H)
          (.construct exchangeName) := ⟨rfl, rfl, rfl, rfl⟩
      -- the projected run runs in step with this one
      obtain ⟨b', outs', hrun', hsame, hviews⟩ :
          ∃ b' outs', run (BrokerImpl.step codec) (.construct exchangeName)
              (es.filterMap (Event.alone id)) = .ok (b', outs') ∧ BrokerImpl.SameFetch id b b' ∧
            outs'.flatMap (fun as => as.filterMap (Action.toFetch id)) =
              outs.flatMap fun as => as.filterMap (Action.toFetch id) := by
        refine run_project (R := BrokerImpl.SameFetch id) ?_ ?_ hstart hrun
        · intro b b₁ b' e as hR hstep he
          exact hR.skip hstep he
        · intro b b₁ b' e e' as hR hstep he
          exact hR.keep hstep he
      refine ⟨b', outs', hrun', ?_, hsame.fetcher⟩
      rw [fetchHistory_eq_flatMap, fetchHistory_eq_flatMap]
      exact hviews

/-- Two fetches whose callbacks are interleaved. -/
def sampleFetches : List (Event Nat) :=
  [.fetchMessage 0 .null "echo.ping" false, .fetchMessage 1 .null "echo.pong" false,
    .fetchRegister "2" (.onData 7), .fetchCallback "1" (.declared "amq.gen-1"),
    .fetchCallback "2" (.declared "amq.gen-2"), .fetchCallback "1" (.declareError "lost"),
    .fetchCallback "2" (.received [0xc3] none)]

theorem fetches_independent_two :
    ∃ b outs b' outs',
      run (BrokerImpl.step Codec.small) (.construct "amq.topic") sampleFetches = .ok (b, outs) ∧
      startedIds outs = ["1", "2"] ∧
      run (BrokerImpl.step Codec.small) (.construct "amq.topic")
        (sampleFetches.filterMap (Event.alone "2")) = .ok (b', outs') ∧
      fetchHistory "2" outs' = fetchHistory "2" outs := by
  have hids : (run (BrokerImpl.step Codec.small) (.construct "amq.topic") sampleFetches).map
      (fun r => startedIds r.2) = .ok ["1", "2"] := by
    decide +kernel
  rcases ok_of_map hids with ⟨⟨b, outs⟩, hrun, hstarted⟩
  have hmem : "2" ∈ startedIds outs := by
    have hlist : startedIds outs = ["1", "2"] := hstarted
    simp [hlist]
  rcases ((fetches_independent hrun).2.2 "2" hmem).2 with ⟨b', outs', hrun', hhistory, _⟩
  exact ⟨b, outs, b', outs', hrun, hstarted, hrun', hhistory⟩

end CapyAmqp
