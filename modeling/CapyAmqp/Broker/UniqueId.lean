import CapyAmqp.Broker.Directory
import CapyAmqp.Broker.Independence

/-!
# UniqueId — the ids of `create_unique_id`

`fetchers_` and `listeners_` are keyed by texts of one counter.  An entry has an id that has been
issued (`Reachable.issued`), so the next one is new as long as there is a next one: the counter is
an `int`, and it is never set back.
-/

namespace CapyAmqp

open Lib

variable {H : Type}

namespace BrokerImpl

/-- An entry of `fetchers_` or of `listeners_` has the id. -/
def HasEntry (b : BrokerImpl H) (id : String) : Prop :=
  b.fetchers.has id = true ∨ b.listeners.has id = true

/-- No entry is lost or replaced. -/
structure KeepsEntries (b b' : BrokerImpl H) : Prop where
  fetchers : ∀ {id : String} {o : DeferredFetching H}, b.fetchers.get id = some o →
    b'.fetchers.get id = some o
  listeners : ∀ {id : String} {p : Ptr}, b.listeners.get id = some p →
    b'.listeners.get id = some p

/-- What is expected of the call of `create_unique_id` that an event makes: the counter does not
overflow, no entry has the id that is returned, and `set` replaces none. -/
def NewId (codec : Codec) (b : BrokerImpl H) (e : Event H) : Prop :=
  e.takesId = true →
    ∃ id b' as, b.createUniqueId = .ok (b.incrementId, id) ∧ ¬ b.HasEntry id ∧
      step codec b e = .ok (b', as) ∧ b.KeepsEntries b'

/-- Every call of `create_unique_id` that the run comes to is one of the first 2^31 - 2. -/
def FewIds (codec : Codec) (exchangeName : String) (es : List (Event H)) : Prop :=
  ∀ pre e post b outs, es = pre ++ e :: post →
    run (step codec) (construct exchangeName) pre = .ok (b, outs) → e.takesId = true →
      takes pre < 2 ^ 31 - 2

variable {codec : Codec} {b b' : BrokerImpl H} {e : Event H} {as : List (Action H)}

/-! ## What a step enters -/

theorem fetchers_newFetcher (b : BrokerImpl H) (thread : ThreadId) (id : String)
    (closure : FetchClosure) (failed : Bool) :
    (b.newFetcher thread id closure failed).fetchers =
      b.fetchers.set id { deferred := .construct .ok failed, connection := thread } := by
  have hget := onListeners_getConnection b thread
  simp only [newFetcher, hget.fetchers]

/-- The only fetcher that a step enters has the next id. -/
theorem step_fetchers_has {id : String} (h : step codec b e = .ok (b', as))
    (hid : b'.fetchers.has id = true) :
    b.fetchers.has id = true ∨ e.takesId = true ∧ id = idText b.uniqueId := by
  cases e with
  | fetchMessage thread message routingKey failed =>
      rcases fetchMessage_ok_iff.1 h with ⟨_, rfl, rfl⟩
      by_cases hnext : id = idText b.uniqueId
      · exact Or.inr ⟨rfl, hnext⟩
      · rw [fetchers_newFetcher, Table.has, Table.get_set_of_ne _ _ hnext] at hid
        exact Or.inl hid
  | fetchRegister id' r =>
      rcases fetchRegister_ok_iff.1 h with ⟨o, hlive, rfl, rfl⟩
      refine Or.inl ?_
      by_cases hsame : id = id'
      · subst hsame
        simp [Table.has, hlive]
      · rwa [Table.has, Table.get_set_of_ne _ _ hsame] at hid
  | fetchCallback id' c =>
      rcases onFetchCallback_ok_iff.1 h with ⟨closure, v, xs, _, hlife, rfl, _⟩
      refine Or.inl ?_
      by_cases hsame : id = id'
      · subst hsame
        -- a callback brings no fetcher back
        cases hget : b.fetchers.get id with
        | none =>
            rw [hget] at hlife
            cases hlife
            simp [Table.has] at hid
        | some o => simp [Table.has, hget]
      · rwa [Table.has, get_withFetcher_of_ne b v hsame] at hid
  | _ =>
      rcases step_noFetch rfl h with ⟨_, hframe⟩ | ⟨_, hframe⟩
      · exact Or.inl (hframe.fetchers ▸ hid)
      · exact Or.inl (hframe.fetchers ▸ hid)

/-- The only listener that a step enters has the next id. -/
theorem step_listeners_has {id : String} (h : step codec b e = .ok (b', as))
    (hid : b'.listeners.has id = true) :
    b.listeners.has id = true ∨ e.takesId = true ∧ id = idText b.uniqueId := by
  have hlisteners : b'.listeners = _ := congrArg Directory.listeners (step_directory h)
  rw [hlisteners] at hid
  cases e with
  | listenMessages thread queue keys failed =>
      by_cases hnext : id = idText b.uniqueId
      · exact Or.inr ⟨rfl, hnext⟩
      · rw [Table.has] at hid
        exact Or.inl ((congrArg Option.isSome (Table.get_set_of_ne _ _ hnext)).symm.trans hid)
  | listenCallback thread id' c =>
      refine Or.inl ?_
      cases c with
      | received message deliveryTag throws =>
          -- a delivery may empty a slot
          cases hdecode : codec.fromMsgpack message.body with
          | error thrown =>
              simp only [Directory.step, hdecode] at hid
              exact hid
          | ok received =>
              simp only [Directory.step, hdecode, Directory.clear] at hid
              exact hid
      | consumeError message =>
          by_cases hsame : id = id'
          · subst hsame
            simp [Directory.step, Directory.remove, Table.has] at hid
          · simp only [Directory.step, Directory.remove, Table.has,
              Table.get_del_of_ne _ hsame] at hid
            exact hid
      | _ => exact hid
  | _ => exact Or.inl hid

theorem step_hasEntry {id : String} (h : step codec b e = .ok (b', as)) (hid : b'.HasEntry id) :
    b.HasEntry id ∨ e.takesId = true ∧ id = idText b.uniqueId := by
  rcases hid with hid | hid
  · exact (step_fetchers_has h hid).imp_left Or.inl
  · exact (step_listeners_has h hid).imp_left Or.inr

/-! ## Calls of `create_unique_id` -/

/-- What a caller does after `create_unique_id` completes: it is the counter that decides. -/
theorem step_takesId_ok_iff (he : e.takesId = true) :
    (∃ b' as, step codec b e = .ok (b', as)) ↔ b.uniqueId ≠ 2 ^ 31 - 1 := by
  constructor
  · rintro ⟨b', as, h⟩
    cases e with
    | uniqueId => exact (takeUniqueId_ok_iff.1 h).1
    | fetchMessage thread message routingKey failed => exact (fetchMessage_ok_iff.1 h).1
    | listenMessages thread queue keys failed => exact (listenMessages_ok_iff.1 h).1
    | _ => cases he
  · intro hunique
    cases e with
    | uniqueId =>
        exact ⟨_, _, takeUniqueId_ok_iff.2 ⟨hunique, rfl, rfl⟩⟩
    | fetchMessage thread message routingKey failed =>
        exact ⟨_, _, fetchMessage_ok_iff.2 ⟨hunique, rfl, rfl⟩⟩
    | listenMessages thread queue keys failed =>
        -- neither the slot nor the operations on the channel can fail
        let new := b.incrementId.newListener thread (idText b.uniqueId) failed
        rcases completes_setDeferred thread (some new.2) new.1 with ⟨m, bs, hset, _⟩
        exact ⟨_, _, listenMessages_ok_iff.2
          ⟨hunique, Prog.seq_ok_iff.2 ⟨m, bs, _, hset, rfl, rfl⟩⟩⟩
    | _ => cases he

/-- An id that no entry has can be entered without a loss. -/
theorem keepsEntries_of_new (hnew : ¬ b.HasEntry (idText b.uniqueId)) (he : e.takesId = true)
    (h : step codec b e = .ok (b', as)) : b.KeepsEntries b' := by
  have hlisteners : b'.listeners = _ := congrArg Directory.listeners (step_directory h)
  cases e with
  | uniqueId =>
      rcases takeUniqueId_ok_iff.1 h with ⟨_, rfl, rfl⟩
      exact ⟨id, id⟩
  | fetchMessage thread message routingKey failed =>
      refine ⟨?_, fun hget => hlisteners ▸ hget⟩
      intro id o hget
      have hid : id ≠ idText b.uniqueId := by
        rintro rfl
        exact hnew (Or.inl (by simp [Table.has, hget]))
      rcases fetchMessage_ok_iff.1 h with ⟨_, rfl, rfl⟩
      rw [fetchers_newFetcher, Table.get_set_of_ne _ _ hid]
      exact hget
  | listenMessages thread queue keys failed =>
      refine ⟨fun hget => (noFetch_listenMessages h).fetchers ▸ hget, ?_⟩
      intro id p hget
      have hid : id ≠ idText b.uniqueId := by
        rintro rfl
        exact hnew (Or.inr (by simp [Table.has, hget]))
      rw [hlisteners]
      exact (Table.get_set_of_ne _ _ hid).trans hget
  | _ => cases he

theorem newId_iff (hnew : ¬ b.HasEntry (idText b.uniqueId)) :
    b.NewId codec e ↔ (e.takesId = true → b.uniqueId ≠ 2 ^ 31 - 1) := by
  refine forall_congr' fun he => ?_
  constructor
  · rintro ⟨id, _, _, hid, _⟩
    exact (createUniqueId_ok_iff.1 hid).1
  · intro hunique
    rcases (step_takesId_ok_iff he).2 hunique with ⟨b', as, hstep⟩
    exact ⟨idText b.uniqueId, b', as, createUniqueId_ok_iff.2 ⟨hunique, rfl, rfl⟩, hnew, hstep,
      keepsEntries_of_new hnew he hstep⟩

/-! ## Runs -/

/-- Entries have ids that have been issued. -/
theorem Reachable.issued (hb : Reachable codec b) {id : String} (hid : b.HasEntry id) :
    Issued idText b.uniqueId id := by
  rcases hb with ⟨exchangeName, es, outs, hrun⟩
  have hissued : ∀ id, b.HasEntry id → Issued idText b.uniqueId id := by
    refine live_issued_of_run step_uniqueId step_hasEntry ?_ hrun
    rintro id (h | h) <;> cases h
  exact hissued id hid

theorem Reachable.next_new (hb : Reachable codec b) : ¬ b.HasEntry (idText b.uniqueId) :=
  fun h => not_issued_self @idText_injective (hb.issued h)

/-- The counter stays in range. -/
theorem Reachable.uniqueId_lt (hb : Reachable codec b) : b.uniqueId < 2 ^ 31 := by
  rcases hb with ⟨exchangeName, es, outs, hrun⟩
  have hinit : (construct exchangeName : BrokerImpl H).uniqueId < 2 ^ 31 := by
    simp [construct]
  refine run_invariant (I := fun b : BrokerImpl H => b.uniqueId < 2 ^ 31) ?_ hinit hrun
  intro b b' e as hb hstep
  have hb : b.uniqueId < 2 ^ 31 := hb
  show b'.uniqueId < 2 ^ 31
  rw [step_uniqueId hstep]
  cases he : e.takesId with
  | false => simpa using hb
  | true =>
      have hunique := (step_takesId_ok_iff he).1 ⟨b', as, hstep⟩
      simp only [if_true]
      omega

end BrokerImpl

/-- Live ids are not reused as long as `create_unique_id` is called 2^31 - 2 times at most: over a
run, each call returns an id that no entry of `fetchers_` and `listeners_` has, and replaces none,
exactly if each is one of the first 2^31 - 2. -/
theorem ids_never_reused_iff {codec : Codec} {exchangeName : String} {es : List (Event H)} :
    Along (BrokerImpl.step codec) (BrokerImpl.NewId codec) (.construct exchangeName) es ↔
      BrokerImpl.FewIds codec exchangeName es := by
  refine forall_congr' fun pre => forall_congr' fun e => forall_congr' fun post =>
    forall_congr' fun b => forall_congr' fun outs => forall_congr' fun _ =>
      forall_congr' fun hrun => ?_
  have hreachable : BrokerImpl.Reachable codec b := ⟨exchangeName, pre, outs, hrun⟩
  refine (BrokerImpl.newId_iff hreachable.next_new).trans (forall_congr' fun _ => ?_)
  -- the counter is ahead of the calls by one
  have hcount := uniqueId_of_run hrun
  have hlt := hreachable.uniqueId_lt
  omega

/-! ## Requests that are never answered -/

/-- The same request over and over. -/
def lostRequests (n : ℕ) : List (Event Nat) :=
  List.replicate n (.fetchMessage 0 .null "echo.ping" false)

theorem takes_lostRequests (n : ℕ) : takes (lostRequests n) = n := by
  simp [takes, lostRequests, List.countP_replicate, Event.takesId]

theorem lostRequests_succ (n : ℕ) :
    lostRequests (n + 1) = lostRequests n ++ [.fetchMessage 0 .null "echo.ping" false] :=
  List.replicate_succ'

theorem run_lostRequests (codec : Codec) (exchangeName : String) {n : ℕ} (hn : n ≤ 2 ^ 31 - 2) :
    ∃ b outs, run (BrokerImpl.step codec) (.construct exchangeName) (lostRequests n) =
      .ok (b, outs) := by
  induction n with
  | zero => exact ⟨_, _, rfl⟩
  | succ n ih =>
      rcases ih (Nat.le_of_succ_le hn) with ⟨b, outs, hrun⟩
      have hcount := uniqueId_of_run hrun
      rw [takes_lostRequests] at hcount
      have hunique : b.uniqueId ≠ 2 ^ 31 - 1 := by
        omega
      have hok : ∃ b' as,
          BrokerImpl.step codec b (.fetchMessage 0 .null "echo.ping" false) = .ok (b', as) :=
        (BrokerImpl.step_takesId_ok_iff rfl).2 hunique
      rcases hok with ⟨b', as, hstep⟩
      rw [lostRequests_succ]
      exact ⟨b', _, run_concat_ok_iff.2 ⟨b, outs, as, hrun, hstep, rfl⟩⟩

/-- The last of 2^31 - 1 calls of `fetch_message` overflows the counter. -/
theorem lostRequests_overflow :
    ¬ Along (BrokerImpl.step Codec.small) (BrokerImpl.NewId Codec.small)
        (.construct "amq.topic") (lostRequests (2 ^ 31 - 1)) := by
  intro h
  obtain ⟨n, hn⟩ : ∃ n, n = 2 ^ 31 - 2 := ⟨_, rfl⟩
  have hsucc : 2 ^ 31 - 1 = n + 1 := by
    omega
  rw [hsucc, lostRequests_succ] at h
  rcases run_lostRequests Codec.small "amq.topic" hn.le with ⟨b, outs, hrun⟩
  rcases h (lostRequests n) _ [] b outs rfl hrun rfl with ⟨id, _, _, hid, _⟩
  have hcount := uniqueId_of_run hrun
  rw [takes_lostRequests] at hcount
  exact (BrokerImpl.createUniqueId_ok_iff.1 hid).1 (by omega)

end CapyAmqp
