import CapyAmqp.Broker.Lifetimes

/-!
# Destructor — the end of a broker, and of all that it holds

`~BrokerImpl` flushes the connections, and the caches of listeners and of fetchers go after that.  A
listener is shared by `listeners_` and by the slot of its connection, so the last of the two to let
go ends it; a live listener always has such an owner (`Reachable.held`).  `destructor_ends_all` puts
the two together: what a broker has made ends exactly once, in its lifetime or with it.
-/

namespace CapyAmqp

open Lib

variable {H : Type}

namespace BrokerImpl

/-! ## Owners -/

/-- `listeners_` or the slot of its connection points to the listener `o` behind `p`. -/
def OwnerOf (b : BrokerImpl H) (p : Ptr) (o : DeferredListening H) : Prop :=
  b.listeners.get o.correlationId = some p ∨ b.slot o.connection = some p

/-- Every live listener has an owner. -/
def Held (b : BrokerImpl H) : Prop :=
  ∀ p o, b.listening.read p = some o → b.OwnerOf p o

/-- Every live listener but `q` has one. -/
def HeldBut (q : Ptr) (b : BrokerImpl H) : Prop :=
  ∀ p o, b.listening.read p = some o → p ≠ q → b.OwnerOf p o

section Statements

variable {b b' : BrokerImpl H} {as : List (Action H)} {thread : ThreadId}

theorem Held.of_eq (hb : b.Held) (hlisteners : b'.listeners = b.listeners)
    (hlistening : b'.listening = b.listening) (hslot : ∀ thread, b'.slot thread = b.slot thread) :
    b'.Held := by
  intro p o hread
  rw [hlistening] at hread
  unfold OwnerOf
  rw [hlisteners, hslot]
  exact hb _ _ hread

theorem Held.modify (hb : b.Held) (q : Ptr) {f : DeferredListening H → DeferredListening H}
    (hid : ∀ o, (f o).correlationId = o.correlationId)
    (hconnection : ∀ o, (f o).connection = o.connection) :
    ({ b with listening := b.listening.modify q f } : BrokerImpl H).Held := by
  intro p o hread
  by_cases hp : p = q
  · subst hp
    simp only [Heap.read_modify_self, Option.map_eq_some_iff] at hread
    rcases hread with ⟨o', hread, rfl⟩
    -- the object is held where it was before
    have howner := hb _ _ hread
    unfold OwnerOf at howner ⊢
    rw [hid, hconnection]
    exact howner
  · rw [Heap.read_modify_of_ne hp] at hread
    exact hb _ _ hread

/-- Letting go of the only listener that may have lost its owner. -/
theorem HeldBut.release {q : Ptr} (hb : b.HeldBut q) (h : release q b = .ok (b', as)) : b'.Held := by
  intro p o hread
  unfold BrokerImpl.release at h
  split at h
  · rename_i hnone
    cases h
    refine hb _ _ hread ?_
    rintro rfl
    rw [hnone] at hread
    cases hread
  · rename_i o' hlive
    split at h
    · rename_i howner
      cases h
      by_cases hp : p = q
      · subst hp
        cases hlive.symm.trans hread
        exact howner
      · exact hb _ _ hread hp
    · cases h
      -- the object that is freed is the one without an owner
      have hp : p ≠ q := by
        rintro rfl
        simp at hread
      rw [Heap.read_free_of_ne hp] at hread
      exact hb _ _ hread hp

/-- When only the slot of `thread` changes, only its old value may lose an owner. -/
theorem Held.slot_changed (hb : b.Held) (hlisteners : b'.listeners = b.listeners)
    (hlistening : b'.listening = b.listening)
    (hslot : ∀ thread', thread' ≠ thread → b'.slot thread' = b.slot thread') (p : Ptr)
    (o : DeferredListening H) (hread : b'.listening.read p = some o)
    (hp : b.slot thread ≠ some p) : b'.OwnerOf p o := by
  rw [hlistening] at hread
  rcases hb _ _ hread with hlistener | hconnection
  · exact Or.inl (hlisteners ▸ hlistener)
  · have hthread : o.connection ≠ thread := by
      rintro rfl
      exact hp hconnection
    exact Or.inr ((hslot _ hthread).trans hconnection)

theorem held_setDeferred (thread : ThreadId) (r : Option Ptr) :
    Prog.Ensures (Prog.Keeps Held) (setDeferred thread r : Stmt H) := by
  intro b b' as h hb
  have hassign := hb.slot_changed (listeners_assignSlot b thread r)
    (listening_assignSlot b thread r) fun thread' hne => slot_assignSlot_of_ne b r hne
  unfold setDeferred at h
  cases hslot : b.slot thread with
  | none =>
      rw [hslot] at h
      cases h
      intro p o hread
      exact hassign p o hread (by simp [hslot])
  | some old =>
      rw [hslot] at h
      refine HeldBut.release (q := old) ?_ h
      intro p o hread hp
      exact hassign p o hread (by simpa [hslot] using Ne.symm hp)

theorem held_listenDel (id : String) : Prog.Ensures (Prog.Keeps Held) (listenDel id : Stmt H) := by
  intro b b' as h hb
  rcases listenDel_ok_iff.1 h with ⟨_, rfl, rfl⟩ | ⟨q, hq, h⟩
  · exact hb
  · refine HeldBut.release (q := q) ?_ h
    intro p o hread hp
    -- another listener is under another id
    refine (hb _ _ hread).imp_left fun hget => ?_
    have hid : o.correlationId ≠ id := by
      rintro rfl
      exact hp (Option.some.inj (hget.symm.trans hq))
    exact (Table.get_del_of_ne _ hid).trans hget

theorem held_rules : StepRules (Prog.Keeps (α := Action H) Held) :=
  { composes := Prog.keeps_composes _
    aside := fun h hb => hb.of_eq h.listeners h.listening h.slot
    replays := fun h hb => hb.of_eq h.listeners h.listening h.slot
    reportTo := by
      intro q r b b' as h hb
      rcases reportTo_ok_iff.1 h with ⟨o, _, rfl, rfl⟩
      exact hb.modify q (fun _ => rfl) fun _ => rfl
    listenAck := by
      intro id deliveryTag b b' as h hb
      rcases listenAck_ok_iff.1 h with ⟨q, o, _, _, rfl, rfl⟩
      exact hb
    resetDeferred := fun thread => held_setDeferred thread none
    listenDel := held_listenDel }

/-- A new listener under a new id takes no owner from another one. -/
theorem held_newListener (hb : b.Held) {id : String} (hid : b.listeners.get id = none)
    (thread : ThreadId) (failed : Bool) : (b.newListener thread id failed).1.Held := by
  have hget := aside_getConnection b thread
  intro p o hread
  simp only [newListener, hget.listening] at hread
  by_cases hp : p = b.listening.next
  · subst hp
    rw [Heap.read_alloc_next] at hread
    cases hread
    refine Or.inl ?_
    simp only [newListener, hget.listening, Table.get_set_self, Heap.alloc_snd]
  · rw [Heap.read_alloc_of_ne hp] at hread
    refine (hb _ _ hread).imp (fun hlistener => ?_) fun hslot => (hget.slot _).trans hslot
    have hne : o.correlationId ≠ id := by
      rintro rfl
      rw [hid] at hlistener
      cases hlistener
    simp only [newListener, Table.get_set_of_ne _ _ hne, hget.listeners]
    exact hlistener

end Statements

variable {codec : Codec} {b b' : BrokerImpl H} {e : Event H} {as : List (Action H)}

theorem Held.step (hreachable : Reachable codec b) (hb : b.Held)
    (h : BrokerImpl.step codec b e = .ok (b', as)) : b'.Held := by
  cases e with
  | listenMessages thread queue keys failed =>
      rcases listenMessages_ok_iff.1 h with ⟨_, h⟩
      rcases Prog.seq_ok_iff.1 h with ⟨b₁, _, _, hset, hissue, _⟩
      have hincrement : b.incrementId.Held := hb.of_eq rfl rfl fun _ => rfl
      -- the id that comes next is nobody's
      have hnew : b.listeners.get (idText b.uniqueId) = none := by
        have hnone := hreachable.next_new
        simp only [HasEntry, not_or] at hnone
        simpa [Table.has] using hnone.2
      have hheld := held_newListener hincrement hnew thread failed
      cases hissue
      exact held_setDeferred _ _ _ _ _ hset hheld
  | listenRegister q r =>
      rcases listenRegister_ok_iff.1 h with ⟨o, _, rfl, rfl⟩
      exact hb.modify q (fun _ => rfl) fun _ => rfl
  | _ => exact held_rules.step rfl h hb

theorem Reachable.held (h : Reachable codec b) : b.Held := by
  rcases h with ⟨exchangeName, es, outs, hrun⟩
  refine run_history (P := fun b _ _ => b.Held) ?_ ?_ hrun
  · intro p o hread
    cases hread
  · intro es m t outs e as hm hheld hstep
    exact hheld.step ⟨exchangeName, es, outs, hm⟩ hstep

/-- Every listener that a broker has made is alive and has an owner, or has ended, once. -/
theorem listener_accounted {exchangeName : String} {es : List (Event H)}
    {outs : List (List (Action H))}
    (hrun : run (step codec) (construct exchangeName) es = .ok (b, outs)) {p : Ptr}
    (hp : p < b.listening.next) :
    (∃ o, b.listening.read p = some o ∧ b.OwnerOf p o ∧
        ∀ a ∈ listenHistory p outs, a.isDestroyed = false) ∨
      (b.listening.read p = none ∧ ∃ failed, Deferred.EndsOnce .ok failed
        (es.filterMap (Event.listenRegistration p)) (listenHistory p outs)) := by
  rcases listener_lives hrun p with ⟨hle, _⟩ | ⟨_, failed, hlives⟩
  · exact absurd hp (Nat.not_lt.2 hle)
  · cases hread : b.listening.read p with
    | none =>
        have hnone : b.listener p = none := by
          simp [listener, hread]
        rw [hnone] at hlives
        exact Or.inr ⟨rfl, failed, hlives.endsOnce⟩
    | some o =>
        have hsome : b.listener p = some o.deferred := by
          simp [listener, hread]
        rw [hsome] at hlives
        exact Or.inl ⟨o, rfl, Reachable.held ⟨exchangeName, es, outs, hrun⟩ _ _ hread,
          fun a ha => hlives.alive ha⟩

/-- A listener whose consumer has failed has ended. -/
theorem listener_accounted_failed :
    ∃ (b : BrokerImpl Nat) (outs : List (List (Action Nat))),
      run (step Codec.small) (construct "amq.topic")
        [.listenMessages 0 "capy-test" ["echo.ping"] false, .listenRegister 0 (.onFinalize 7),
          .listenCallback 0 "1" (.consumeError "gone")] = .ok (b, outs) ∧
      ∃ failed, Deferred.EndsOnce .ok failed [.onFinalize 7] (listenHistory 0 outs) := by
  obtain ⟨⟨b, outs⟩, hrun, hnext, hread⟩ : ∃ r : BrokerImpl Nat × List (List (Action Nat)),
      run (step Codec.small) (construct "amq.topic")
        [.listenMessages 0 "capy-test" ["echo.ping"] false, .listenRegister 0 (.onFinalize 7),
          .listenCallback 0 "1" (.consumeError "gone")] = .ok r ∧
      0 < r.1.listening.next ∧ r.1.listening.read 0 = none := ⟨_, rfl, by decide, rfl⟩
  rcases listener_accounted hrun hnext with ⟨o, hlive, _⟩ | ⟨_, hended⟩
  · rw [hread] at hlive
    cases hlive
  · exact ⟨b, outs, hrun, hended⟩

/-! ## `~BrokerImpl` -/

/-- The entry of `thread` leaves `connections_`, and `~Connection` lets go of its slot. -/
def closeConnection (thread : ThreadId) : Stmt H := fun b =>
  let b' : BrokerImpl H := { b with connections := b.connections.del thread }
  match b.slot thread with
  | none => .ok (b', [])
  | some p => release p b'

/-- `~BrokerImpl`: the flush of the connections, and then the members in the reverse order of their
declaration.  The lists are the keys of the three caches, in the order in which these are cleared. -/
def destroy (threads : List ThreadId) (listenIds fetchIds : List String) : Stmt H :=
  .all
    [.sweep closeConnection threads,
      .sweep listenDel listenIds,
      .sweep fetchDel fetchIds]

theorem slot_closeConnection (b : BrokerImpl H) (thread thread' : ThreadId) :
    ({ b with connections := b.connections.del thread } : BrokerImpl H).slot thread' =
      if thread' = thread then none else b.slot thread' := by
  split
  · rename_i hthread
    simp [slot, hthread]
  · rename_i hthread
    simp [slot, Table.get_del_of_ne _ hthread]

theorem closeConnection_cases {thread : ThreadId} (h : closeConnection thread b = .ok (b', as)) :
    OnObjects { b with connections := b.connections.del thread } as b' := by
  unfold closeConnection at h
  split at h
  · cases h
    exact onObjects_composes.refl _
  · exact onObjects_release _ _ _ _ h

theorem slot_of_closeConnection {thread : ThreadId}
    (h : closeConnection thread b = .ok (b', as)) (thread' : ThreadId) :
    b'.slot thread' = if thread' = thread then none else b.slot thread' := by
  rw [(closeConnection_cases h).slot, slot_closeConnection]

theorem get_of_listenDel {id : String} (h : listenDel id b = .ok (b', as)) (id' : String) :
    b'.listeners.get id' = if id' = id then none else b.listeners.get id' := by
  have hdirectory := congrArg Directory.listeners (directory_listenDel h)
  have hlisteners : b'.listeners = b.listeners.del id := hdirectory
  rw [hlisteners]
  split
  · rename_i hid
    simp [hid]
  · rename_i hid
    exact Table.get_del_of_ne _ hid

theorem fetchDel_ok_iff {id : String} :
    fetchDel id b = .ok (b', as) ↔
      b' = { b with fetchers := b.fetchers.del id } ∧
        as = (b.fetchers.get id).toList.map fun o => .fetch id (.destroyed o.deferred.destroy) := by
  unfold fetchDel
  cases hid : b.fetchers.get id with
  | none =>
      -- deleting what is not there changes nothing
      have hsame : b.fetchers.del id = b.fetchers := by
        funext k
        by_cases hk : k = id
        · subst hk
          exact (Table.get_del_self _ _).trans hid.symm
        · exact Table.get_del_of_ne _ hk
      simpa [hsame] using fun _ => eq_comm
  | some o => simp [eq_comm]

/-! ### It always completes -/

theorem total_release (p : Ptr) : Prog.Total (release p : Stmt H) := by
  intro b
  rcases completes_release p b with ⟨b', as, h, _⟩
  exact ⟨b', as, h⟩

theorem total_destroy (threads : List ThreadId) (listenIds fetchIds : List String) :
    Prog.Total (destroy threads listenIds fetchIds : Stmt H) := by
  have hclose : ∀ thread, Prog.Total (closeConnection thread : Stmt H) := by
    intro thread b
    cases hslot : b.slot thread with
    | none => exact ⟨_, [], by simp only [closeConnection, hslot]; rfl⟩
    | some p =>
        rcases total_release p { b with connections := b.connections.del thread } with ⟨b', as, h⟩
        exact ⟨b', as, by simpa only [closeConnection, hslot] using h⟩
  have hlisten : ∀ id, Prog.Total (listenDel id : Stmt H) := by
    intro id b
    cases hget : b.listeners.get id with
    | none => exact ⟨b, [], listenDel_ok_iff.2 (Or.inl ⟨hget, rfl, rfl⟩)⟩
    | some q =>
        rcases total_release q { b with listeners := b.listeners.del id } with ⟨b', as, h⟩
        exact ⟨b', as, listenDel_ok_iff.2 (Or.inr ⟨q, hget, h⟩)⟩
  have hfetch : ∀ id, Prog.Total (fetchDel id : Stmt H) :=
    fun id b => ⟨_, _, fetchDel_ok_iff.2 ⟨rfl, rfl⟩⟩
  refine Prog.total_all fun p hp => ?_
  simp only [List.mem_cons, List.not_mem_nil, or_false] at hp
  rcases hp with rfl | rfl | rfl
  · exact Prog.total_sweep hclose threads
  · exact Prog.total_sweep hlisten listenIds
  · exact Prog.total_sweep hfetch fetchIds

/-! ### What it does to each object -/

/-- Objects end or stay as they are, and replays are not touched. -/
structure Ends (b : BrokerImpl H) (as : List (Action H)) (b' : BrokerImpl H) : Prop where
  listener : ∀ p, ListenerLives p [] b as b'
  fetcher : ∀ id, Deferred.Lives (b.fetcher id) [] (as.filterMap (Action.toFetch id))
    (b'.fetcher id)
  replays : b'.replays = b.replays
  held : b.Held → b'.Held

theorem ends_composes : Prog.Composes (Ends (H := H)) := by
  constructor
  · intro b
    exact ⟨fun _ => listenerLives_composes.refl b, fun _ => Deferred.Lives.refl _, rfl, id⟩
  · intro b b₁ b₂ as bs h₁ h₂
    refine ⟨fun p => listenerLives_composes.trans (h₁.listener p) (h₂.listener p), fun id => ?_,
      h₂.replays.trans h₁.replays, fun hb => h₂.held (h₁.held hb)⟩
    rw [List.filterMap_append]
    exact (h₁.fetcher id).trans (h₂.fetcher id)

/-- Statements on listeners end no fetcher. -/
theorem OnListeners.ends (h : OnListeners b as b')
    (hlistener : ∀ p, ListenerLives p [] b as b') (hheld : b.Held → b'.Held) : Ends b as b' := by
  refine ⟨hlistener, fun id => ?_, h.replays, hheld⟩
  rw [h.noFetch.actions id, fetcher, fetcher, h.fetchers]
  exact Deferred.Lives.refl _

theorem ends_closeConnection (thread : ThreadId) :
    Prog.Ensures Ends (closeConnection thread : Stmt H) := by
  intro b b' as h
  let b₁ : BrokerImpl H := { b with connections := b.connections.del thread }
  have hdel : OnListeners b [] b₁ := ⟨rfl, rfl, rfl, rfl, rfl, rfl, rfl, by simp⟩
  refine (onListeners_composes.trans hdel (closeConnection_cases h).toOnListeners).ends ?_ ?_
  · intro p
    have hfirst : ListenerLives p [] b [] b₁ := listenerLives_of_eq rfl (by simp)
    unfold closeConnection at h
    split at h
    · cases h
      exact hfirst
    · exact listenerLives_composes.trans hfirst (listenerLives_release _ _ _ _ h)
  · intro hb
    -- the listener in the slot may be held by nothing else
    have hchanged : ∀ p o, b₁.listening.read p = some o → b.slot thread ≠ some p → b₁.OwnerOf p o :=
      hb.slot_changed rfl rfl fun thread' hne =>
        (slot_closeConnection b thread thread').trans (if_neg hne)
    unfold closeConnection at h
    cases hslot : b.slot thread with
    | none =>
        rw [hslot] at h
        cases h
        intro p o hread
        exact hchanged p o hread (by simp [hslot])
    | some old =>
        rw [hslot] at h
        refine HeldBut.release (q := old) ?_ h
        intro p o hread hp
        exact hchanged p o hread (by simpa [hslot] using Ne.symm hp)

theorem ends_listenDel (id : String) : Prog.Ensures Ends (listenDel id : Stmt H) := by
  intro b b' as h
  exact (onListeners_listenDel _ _ _ _ h).ends (fun p => listenerLives_listenDel _ _ _ _ h)
    (held_listenDel _ _ _ _ h)

theorem ends_fetchDel (id : String) : Prog.Ensures Ends (fetchDel id : Stmt H) := by
  intro b b' as h
  rcases fetchDel_ok_iff.1 h with ⟨rfl, rfl⟩
  refine ⟨fun p => listenerLives_of_eq rfl (by simp [Action.isListen]), fun id' => ?_, rfl,
    fun hb => hb.of_eq rfl rfl fun _ => rfl⟩
  by_cases hid : id' = id
  · subst hid
    cases hget : b.fetchers.get id' with
    | none => simpa [fetcher, hget, Action.toFetch] using Deferred.Lives.refl _
    | some o => simpa [fetcher, hget, Action.toFetch] using Deferred.lives_destroy o.deferred
  · have hsame := Table.get_del_of_ne b.fetchers hid
    have hnone : ((b.fetchers.get id).toList.map fun o =>
        (.fetch id (.destroyed o.deferred.destroy) : Action H)).filterMap (Action.toFetch id') =
          [] := by
      simp [List.filterMap_eq_nil_iff, Action.toFetch, Ne.symm hid]
    rw [hnone]
    simp only [fetcher, hsame]
    exact Deferred.Lives.refl _

theorem ends_destroy (threads : List ThreadId) (listenIds fetchIds : List String) :
    Prog.Ensures Ends (destroy threads listenIds fetchIds : Stmt H) := by
  refine Prog.ensures_all ends_composes fun p hp => ?_
  simp only [List.mem_cons, List.not_mem_nil, or_false] at hp
  rcases hp with rfl | rfl | rfl
  · exact Prog.ensures_sweep ends_composes ends_closeConnection threads
  · exact Prog.ensures_sweep ends_composes ends_listenDel listenIds
  · exact Prog.ensures_sweep ends_composes ends_fetchDel fetchIds

/-! ### What is left -/

/-- Closing connections leaves no slot. -/
theorem slot_of_close {threads : List ThreadId}
    (hthreads : ∀ thread, b.connections.has thread = true → thread ∈ threads)
    (h : Prog.sweep closeConnection threads b = .ok (b', as)) (thread : ThreadId) :
    b'.slot thread = none := by
  refine Prog.sweep_done (fun thread b => b.slot thread = none) ?_ ?_ h ?_
  · intro thread b b' as h
    rw [slot_of_closeConnection h, if_pos rfl]
  · intro thread thread' b b' as hnone h
    rw [slot_of_closeConnection h, hnone, ite_self]
  · by_cases hhas : b.connections.has thread = true
    · exact Or.inl (hthreads thread hhas)
    · have hnone : b.connections.get thread = none := by
        simpa [Table.has] using hhas
      exact Or.inr (by simp [slot, hnone])

/-- Clearing `listeners_` leaves no listener there. -/
theorem listener_of_clear {listenIds : List String}
    (hlisten : ∀ id, b.listeners.has id = true → id ∈ listenIds)
    (h : Prog.sweep listenDel listenIds b = .ok (b', as)) (id : String) :
    b'.listeners.get id = none := by
  refine Prog.sweep_done (fun id b => b.listeners.get id = none) ?_ ?_ h ?_
  · intro id b b' as h
    rw [get_of_listenDel h, if_pos rfl]
  · intro id id' b b' as hnone h
    rw [get_of_listenDel h, hnone, ite_self]
  · by_cases hhas : b.listeners.has id = true
    · exact Or.inl (hlisten id hhas)
    · exact Or.inr (by simpa [Table.has] using hhas)

/-- Clearing `fetchers_` leaves no fetcher there. -/
theorem fetcher_of_clear {fetchIds : List String}
    (hfetch : ∀ id, b.fetchers.has id = true → id ∈ fetchIds)
    (h : Prog.sweep fetchDel fetchIds b = .ok (b', as)) (id : String) :
    b'.fetchers.get id = none := by
  refine Prog.sweep_done (fun id b => b.fetchers.get id = none) ?_ ?_ h ?_
  · intro id b b' as h
    rcases fetchDel_ok_iff.1 h with ⟨rfl, rfl⟩
    exact Table.get_del_self _ _
  · intro id id' b b' as hnone h
    rcases fetchDel_ok_iff.1 h with ⟨rfl, rfl⟩
    by_cases hid : id = id'
    · subst hid
      exact Table.get_del_self _ _
    · exact (Table.get_del_of_ne _ hid).trans hnone
  · by_cases hhas : b.fetchers.has id = true
    · exact Or.inl (hfetch id hhas)
    · exact Or.inr (by simpa [Table.has] using hhas)

/-- The tables of listeners and of fetchers stay as they are. -/
def SameTables (b : BrokerImpl H) (_ : List (Action H)) (b' : BrokerImpl H) : Prop :=
  b'.listeners = b.listeners ∧ b'.fetchers = b.fetchers

theorem sameTables_close (threads : List ThreadId) :
    Prog.Ensures SameTables (.sweep closeConnection threads : Stmt H) := by
  refine Prog.ensures_sweep ⟨fun _ => ⟨rfl, rfl⟩, ?_⟩ ?_ threads
  · intro b b₁ b₂ as bs h₁ h₂
    exact ⟨h₂.1.trans h₁.1, h₂.2.trans h₁.2⟩
  · intro thread b b' as h
    have hobjects := closeConnection_cases h
    exact ⟨hobjects.listeners, hobjects.fetchers⟩

/-- No owner is left in the tables. -/
theorem destroy_empties {threads : List ThreadId} {listenIds fetchIds : List String}
    (hthreads : ∀ thread, b.connections.has thread = true → thread ∈ threads)
    (hlisten : ∀ id, b.listeners.has id = true → id ∈ listenIds)
    (hfetch : ∀ id, b.fetchers.has id = true → id ∈ fetchIds)
    (h : destroy threads listenIds fetchIds b = .ok (b', as)) :
    (∀ thread, b'.slot thread = none) ∧ (∀ id, b'.listeners.get id = none) ∧
      ∀ id, b'.fetchers.get id = none := by
  rcases Prog.seq_ok_iff.1 h with ⟨b₁, _, _, hclose, h, _⟩
  rcases Prog.seq_ok_iff.1 h with ⟨b₂, _, _, hdel, h, _⟩
  rcases Prog.seq_ok_iff.1 h with ⟨b₃, _, _, hfetchDel, h, _⟩
  rcases Prog.skip_ok_iff.1 h with ⟨rfl, _⟩
  have hsame := sameTables_close threads _ _ _ hclose
  have hsame' := Prog.ensures_sweep onListeners_composes onListeners_listenDel listenIds _ _ _ hdel
  -- clearing `listeners_` fills no slot, and clearing `fetchers_` no slot and no entry
  have hslots : ∀ thread, b₂.slot thread = none := by
    refine Prog.ensures_sweep (Prog.keeps_composes fun b : BrokerImpl H =>
      ∀ thread, b.slot thread = none) ?_ listenIds _ _ _ hdel (slot_of_close hthreads hclose)
    intro id b b' as h hb thread
    have hdirectory : b'.slot = b.slot := congrArg Directory.slot (directory_listenDel h)
    rw [hdirectory]
    exact hb thread
  have hlisteners : ∀ id, b₂.listeners.get id = none :=
    listener_of_clear (fun id hid => hlisten id (hsame.1 ▸ hid)) hdel
  have hkept : (∀ thread, b₃.slot thread = none) ∧ ∀ id, b₃.listeners.get id = none := by
    refine Prog.ensures_sweep (Prog.keeps_composes fun b : BrokerImpl H =>
      (∀ thread, b.slot thread = none) ∧ ∀ id, b.listeners.get id = none) ?_ fetchIds _ _ _
      hfetchDel ⟨hslots, hlisteners⟩
    intro id b b' as h hb
    rcases fetchDel_ok_iff.1 h with ⟨rfl, rfl⟩
    exact hb
  have hfetchers : b₂.fetchers = b.fetchers := hsame'.fetchers.trans hsame.2
  exact ⟨hkept.1, hkept.2, fetcher_of_clear (fun id hid => hfetch id (hfetchers ▸ hid)) hfetchDel⟩

/-- What the end of a broker leaves behind, after the events `es` and the outputs `outs`, which
include the destructor's: of the listeners that it has made and of its fetches, nothing. -/
structure AllEnded (b : BrokerImpl H) (es : List (Event H)) (outs : List (List (Action H)))
    (b' : BrokerImpl H) : Prop where
  listeners : ∀ p, p < b.listening.next → b'.listening.read p = none ∧
    ∃ failed, Deferred.EndsOnce .ok failed (es.filterMap (Event.listenRegistration p))
      (listenHistory p outs)
  fetchers : ∀ id, (b.fetchClosures.get id).isSome = true → b'.fetchers.get id = none ∧
    ∃ failed, Deferred.EndsOnce .ok failed (es.filterMap (Event.fetchRegistration id))
      (fetchHistory id outs)
  /-- The replays are their holders' business. -/
  replays : b'.replays = b.replays

/-- Destroying a broker after any run ends each of its listeners and each of its fetchers, unless it
has ended before, and finalizes each of them exactly once. -/
theorem destructor_ends_all {exchangeName : String} {es : List (Event H)}
    {outs : List (List (Action H))}
    (hrun : run (step codec) (construct exchangeName) es = .ok (b, outs))
    {threads : List ThreadId} {listenIds fetchIds : List String}
    (hthreads : ∀ thread, b.connections.has thread = true → thread ∈ threads)
    (hlisten : ∀ id, b.listeners.has id = true → id ∈ listenIds)
    (hfetch : ∀ id, b.fetchers.has id = true → id ∈ fetchIds) :
    ∃ b' as, destroy threads listenIds fetchIds b = .ok (b', as) ∧
      AllEnded b es (outs ++ [as]) b' := by
  rcases total_destroy threads listenIds fetchIds b with ⟨b', as, hdestroy⟩
  have hends := ends_destroy threads listenIds fetchIds _ _ _ hdestroy
  rcases destroy_empties hthreads hlisten hfetch hdestroy with ⟨hslots, hlisteners, hfetchers⟩
  refine ⟨b', as, hdestroy, ?_⟩
  constructor
  case listeners =>
    intro p hp
    have hheld := hends.held (Reachable.held ⟨exchangeName, es, outs, hrun⟩)
    -- a live listener would have an owner
    have hread : b'.listening.read p = none := by
      cases hread : b'.listening.read p with
      | none => rfl
      | some o =>
          rcases hheld p o hread with hlistener | hslot
          · rw [hlisteners] at hlistener
            cases hlistener
          · rw [hslots] at hslot
            cases hslot
    refine ⟨hread, ?_⟩
    rcases listener_lives hrun p with ⟨hle, _⟩ | ⟨_, failed, hlives⟩
    · exact absurd hp (Nat.not_lt.2 hle)
    · have hwhole := hlives.trans (hends.listener p).lives
      have hnone : b'.listener p = none := by
        simp [listener, hread]
      have houts : listenHistory p (outs ++ [as]) =
          listenHistory p outs ++ as.filterMap (Action.toListen p) := by
        simp [listenHistory]
      rw [List.append_nil, hnone, ← houts] at hwhole
      exact ⟨failed, hwhole.endsOnce⟩
  case fetchers =>
    intro id hstarted
    refine ⟨hfetchers id, ?_⟩
    rcases fetcher_lives hrun id with ⟨hunstarted, _⟩ | ⟨_, failed, hlives⟩
    · rw [hunstarted.1] at hstarted
      cases hstarted
    · have hwhole := hlives.trans (hends.fetcher id)
      have hnone : b'.fetcher id = none := by
        simp [fetcher, hfetchers id]
      rw [List.append_nil, hnone, ← fetchHistory_concat] at hwhole
      exact ⟨failed, hwhole.endsOnce⟩
  case replays =>
    exact hends.replays

theorem eq_or_has_of_has_set {K V : Type} [DecidableEq K] {t : Table K V} {id k : K} {val : V}
    (h : (t.set id val).has k = true) : k = id ∨ t.has k = true := by
  by_cases hk : k = id
  · exact Or.inl hk
  · simpa [Table.has, Table.get_set_of_ne _ _ hk, hk] using h

/-- A broker that goes while it listens and while it waits for a reply. -/
theorem destructor_ends_all_pending :
    ∃ (b b' : BrokerImpl Nat) (outs : List (List (Action Nat))) (as : List (Action Nat)),
      run (step Codec.small) (construct "amq.topic")
        [.listenMessages 0 "capy-test" ["echo.ping"] false, .listenRegister 0 (.onFinalize 7),
          .fetchMessage 1 .null "echo.ping" false, .fetchRegister "2" (.onFinalize 8)] =
        .ok (b, outs) ∧
      destroy [1, 0] ["1"] ["2"] b = .ok (b', as) ∧
      AllEnded b
        [.listenMessages 0 "capy-test" ["echo.ping"] false, .listenRegister 0 (.onFinalize 7),
          .fetchMessage 1 .null "echo.ping" false, .fetchRegister "2" (.onFinalize 8)]
        (outs ++ [as]) b' := by
  obtain ⟨⟨b, outs⟩, hrun, ⟨c₀, c₁, c₂, hconnections⟩, ⟨p, hlisteners⟩, o, o', hfetchers⟩ :
      ∃ r : BrokerImpl Nat × List (List (Action Nat)),
        run (step Codec.small) (construct "amq.topic")
          [.listenMessages 0 "capy-test" ["echo.ping"] false, .listenRegister 0 (.onFinalize 7),
            .fetchMessage 1 .null "echo.ping" false, .fetchRegister "2" (.onFinalize 8)] = .ok r ∧
        (∃ c₀ c₁ c₂, r.1.connections = ((Table.empty.set 0 c₀).set 0 c₁).set 1 c₂) ∧
        (∃ p, r.1.listeners = Table.empty.set "1" p) ∧
        ∃ o o', r.1.fetchers = (Table.empty.set "2" o).set "2" o' :=
    ⟨_, rfl, ⟨_, _, _, rfl⟩, ⟨_, rfl⟩, _, _, rfl⟩
  have hthreads : ∀ thread, b.connections.has thread = true → thread ∈ [1, 0] := by
    intro thread h
    rw [hconnections] at h
    rcases eq_or_has_of_has_set h with rfl | h
    · simp
    · rcases eq_or_has_of_has_set h with rfl | h
      · simp
      · rcases eq_or_has_of_has_set h with rfl | h
        · simp
        · cases h
  have hlisten : ∀ id, b.listeners.has id = true → id ∈ ["1"] := by
    intro id h
    rw [hlisteners] at h
    rcases eq_or_has_of_has_set h with rfl | h
    · simp
    · cases h
  have hfetch : ∀ id, b.fetchers.has id = true → id ∈ ["2"] := by
    intro id h
    rw [hfetchers] at h
    rcases eq_or_has_of_has_set h with rfl | h
    · simp
    · rcases eq_or_has_of_has_set h with rfl | h
      · simp
      · cases h
  rcases destructor_ends_all hrun hthreads hlisten hfetch with ⟨b', as, hdestroy, hended⟩
  exact ⟨b, b', outs, as, hrun, hdestroy, hended⟩

end BrokerImpl

end CapyAmqp
