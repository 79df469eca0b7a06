import CapyAmqp.Broker.Directory

/-!
# ConnectionLoss — who is told that a connection is lost

`ConnectionHandler::onLost` reports to the listener in the one slot of its connection.  Listeners
of the same thread share that slot, and `reset_deferred` empties it.  `connection_lost_reported_iff`
says for every run when a live listener is still in the slot of its connection.
-/

namespace CapyAmqp

open Lib

variable {H : Type}

/-- `b₀` is the broker right after `listen_messages`, called on `thread`, has returned the
listener `id`. -/
def ListenStarted (codec : Codec) (thread : ThreadId) (id : String) (b₀ : BrokerImpl H) : Prop :=
  ∃ b queue keys failed as, BrokerImpl.Reachable codec b ∧
    BrokerImpl.step codec b (.listenMessages thread queue keys failed) = .ok (b₀, as) ∧
    id = BrokerImpl.idText b.uniqueId

/-- The event takes the slot of the connection of `thread` away from the listener in it: another
listener enters it, or `reset_deferred` is called on that thread. -/
def Event.clobbers (codec : Codec) (thread : ThreadId) : Event H → Prop
  | .listenMessages thread' _ _ _ => thread' = thread
  | .listenCallback thread' _ (.received message _ _) =>
      thread' = thread ∧ ∃ received, codec.fromMsgpack message.body = .ok received
  | .listenCallback thread' _ (.consumeError _) => thread' = thread
  | _ => False

/-- The error that `onLost` reports. -/
def connectionLostError : Error :=
  .broker .connectionLost "connection lost"

/-! ## The slot of a listener -/

namespace Directory

/-- The listener `p` has been removed, or it is in the slot of its connection exactly if no event
has taken the slot away. -/
def Holds (codec : Codec) (thread : ThreadId) (id : String) (p : Ptr) (d : Directory)
    (es : List (Event H)) : Prop :=
  d.channels.has id = true ∧
    (d.listeners.get id = none ∨
      d.listeners.get id = some p ∧ (d.slot thread = some p ↔ ∀ e ∈ es, ¬ e.clobbers codec thread))

variable {codec : Codec} {thread : ThreadId} {id : String} {p : Ptr} {d d' : Directory}
  {es : List (Event H)} {e : Event H}

/-- An event that leaves the slot of `thread` alone. -/
theorem Holds.quiet (h : d.Holds codec thread id p es)
    (hchannels : d'.channels.has id = d.channels.has id)
    (hlisteners : d'.listeners.get id = d.listeners.get id)
    (hslot : d'.slot thread = d.slot thread) (he : ¬ e.clobbers codec thread) :
    d'.Holds codec thread id p (es ++ [e]) := by
  have hall : (∀ x ∈ es ++ [e], ¬ x.clobbers codec thread) ↔
      ∀ x ∈ es, ¬ x.clobbers codec thread := by
    simp [or_imp, forall_and, he]
  refine ⟨hchannels.trans h.1, ?_⟩
  rw [hlisteners, hslot, hall]
  exact h.2

/-- An event that takes the slot away. -/
theorem Holds.lose (h : d.Holds codec thread id p es)
    (hchannels : d'.channels.has id = d.channels.has id)
    (hlisteners : d'.listeners.get id = d.listeners.get id)
    (hslot : d.listeners.get id = some p → d'.slot thread ≠ some p)
    (he : e.clobbers codec thread) : d'.Holds codec thread id p (es ++ [e]) := by
  refine ⟨hchannels.trans h.1, ?_⟩
  rw [hlisteners]
  rcases h.2 with hnone | ⟨hsome, _⟩
  -- a listener that has been removed holds no slot
  · exact Or.inl hnone
  · refine Or.inr ⟨hsome, iff_of_false (hslot hsome) ?_⟩
    intro hall
    exact hall e (by simp) he

/-- Another listener enters the directory. -/
theorem Holds.enter (h : d.Holds codec thread id p es) {id' : String} {p' : Ptr}
    {thread' : ThreadId} {queue : String} {keys : List String} {failed : Bool} (hid : id' ≠ id)
    (hp : d.listeners.get id = some p → p' ≠ p) :
    (d.enter id' p' thread').Holds codec thread id p
      (es ++ [.listenMessages thread' queue keys failed]) := by
  have hget := Table.get_set_of_ne d.listeners p' (Ne.symm hid)
  have hhas : (d.enter id' p' thread').channels.has id = d.channels.has id := by
    simp [Directory.enter, Table.has, Table.get_set_of_ne _ _ (Ne.symm hid)]
  -- on the listener's own thread the new one takes the slot
  by_cases ht : thread' = thread
  · subst ht
    refine h.lose hhas hget ?_ rfl
    intro hsome
    simpa [Directory.enter] using hp hsome
  · refine h.quiet hhas hget ?_ ht
    simp [Directory.enter, Function.update_of_ne (Ne.symm ht)]

/-- `reset_deferred` on the thread of the event. -/
theorem Holds.clear (h : d.Holds codec thread id p es) (thread' : ThreadId)
    (he : e.clobbers codec thread ↔ thread' = thread) :
    (d.clear thread').Holds codec thread id p (es ++ [e]) := by
  by_cases ht : thread' = thread
  · subst ht
    refine h.lose rfl rfl ?_ (he.2 rfl)
    simp [Directory.clear]
  · refine h.quiet rfl rfl ?_ fun hclobbers => ht (he.1 hclobbers)
    simp [Directory.clear, Function.update_of_ne (Ne.symm ht)]

/-- A listener is removed: this one, or another. -/
theorem Holds.remove (h : d.Holds codec thread id p es) (id' : String) (thread' : ThreadId)
    (he : e.clobbers codec thread ↔ thread' = thread) :
    (d.remove id' thread').Holds codec thread id p (es ++ [e]) := by
  -- the slot of the event's thread is emptied before the listener is removed
  have hclear := h.clear thread' he
  by_cases hid : id = id'
  · subst hid
    exact ⟨hclear.1, Or.inl (Table.get_del_self _ _)⟩
  · refine ⟨hclear.1, ?_⟩
    have hget : (d.remove id' thread').listeners.get id = (d.clear thread').listeners.get id :=
      Table.get_del_of_ne _ hid
    rw [hget]
    exact hclear.2

end Directory

section Runs

variable {codec : Codec} {thread : ThreadId} {id : String} {p : Ptr} {b₀ b : BrokerImpl H}
  {es : List (Event H)} {outs : List (List (Action H))}

theorem holds_step {b' : BrokerImpl H} {e : Event H} {as : List (Action H)}
    (hb : BrokerImpl.Reachable codec b) (h : b.directory.Holds codec thread id p es)
    (hstep : BrokerImpl.step codec b e = .ok (b', as)) :
    b'.directory.Holds codec thread id p (es ++ [e]) := by
  rw [BrokerImpl.step_directory hstep]
  have hsame : ¬ e.clobbers codec thread → b.directory.Holds codec thread id p (es ++ [e]) :=
    h.quiet rfl rfl rfl
  cases e with
  | listenMessages thread' queue keys failed =>
      refine h.enter ?_ ?_
      · rintro rfl
        -- the id of the new listener has not been registered
        have hfresh := hb.named.fresh
        rw [show b.listenChannels.has _ = true from h.1] at hfresh
        cases hfresh
      · -- a live listener lies below the frontier of the heap
        intro hget hp
        rcases hb.owned.listener hget with ⟨o, hread, _⟩
        exact Nat.ne_of_gt (Heap.lt_next_of_read hread) hp
  | listenCallback thread' id' c =>
      cases c with
      | received message deliveryTag throws =>
          cases hdecode : codec.fromMsgpack message.body with
          | error thrown =>
              -- what cannot be decoded returns before the slot is emptied
              simpa only [Directory.step, hdecode] using hsame (by simp [Event.clobbers, hdecode])
          | ok received =>
              simpa only [Directory.step, hdecode] using
                h.clear thread' (by simp [Event.clobbers, hdecode])
      | consumeError message =>
          exact h.remove id' thread' Iff.rfl
      | _ =>
          exact hsame fun hclobbers => hclobbers
  | _ =>
      exact hsame fun hclobbers => hclobbers

/-- The new listener is in the slot of its connection. -/
theorem ListenStarted.holds (h : ListenStarted codec thread id b₀) :
    BrokerImpl.Reachable codec b₀ ∧
      ∃ p, b₀.directory.Holds codec thread id p ([] : List (Event H)) := by
  rcases h with ⟨b, queue, keys, failed, as, hb, hstep, rfl⟩
  refine ⟨hb.step hstep, b.listening.next, ?_⟩
  rw [BrokerImpl.step_directory hstep]
  refine ⟨?_, Or.inr ⟨?_, ?_⟩⟩
  · simp [Directory.step, Directory.enter, Table.has]
  · simp [Directory.step, Directory.enter]
  · simp [Directory.step, Directory.enter]

/-- `onLost` reports to the listener in the slot, and to nobody else. -/
theorem reports_lost_iff {o : DeferredListening H} (hread : b.listening.read p = some o) :
    (∃ b' as calls, BrokerImpl.step codec b (.connectionLost thread) = .ok (b', as) ∧
      .listen p (.report (.error connectionLostError) calls) ∈ as) ↔ b.slot thread = some p := by
  constructor
  · rintro ⟨b', as, calls, hstep, hmem⟩
    rcases BrokerImpl.handlerReport_ok_iff.1 hstep with
      ⟨connection, hconnection, ⟨_, rfl, rfl⟩ | ⟨q, hq, hreport⟩⟩
    · cases hmem
    -- the one report goes to the listener in the slot
    · rcases BrokerImpl.reportTo_ok_iff.1 hreport with ⟨o, _, rfl, rfl⟩
      cases List.mem_singleton.1 hmem
      simp [BrokerImpl.slot, hconnection, hq]
  · intro hslot
    rcases Option.bind_eq_some_iff.1 hslot with ⟨connection, hconnection, hq⟩
    -- conversely the report to a live object completes
    let result := o.deferred.report (.error connectionLostError)
    let b' : BrokerImpl H :=
      { b with
        listening := b.listening.modify p fun o => { o with deferred := result.1 } }
    refine ⟨b', [.listen p (.report (.error connectionLostError) result.2)], result.2, ?_, by simp⟩
    have hreport : BrokerImpl.reportTo p (.error connectionLostError) b =
        .ok (b', [.listen p (.report (.error connectionLostError) result.2)]) :=
      BrokerImpl.reportTo_ok_iff.2 ⟨o, hread, rfl, rfl⟩
    exact BrokerImpl.handlerReport_ok_iff.2 ⟨connection, hconnection, Or.inr ⟨p, hq, hreport⟩⟩

/-- A live listener is told that its connection is lost exactly if, since it was made, no other
listener has been made on its thread, and neither a decodable message nor a consume error has been
handled there. -/
theorem connection_lost_reported_iff (hstart : ListenStarted codec thread id b₀)
    (hrun : run (BrokerImpl.step codec) b₀ es = .ok (b, outs))
    (hlive : b.listeners.get id = some p) :
    (∃ b' as calls, BrokerImpl.step codec b (.connectionLost thread) = .ok (b', as) ∧
      .listen p (.report (.error connectionLostError) calls) ∈ as) ↔
    ∀ e ∈ es, ¬ e.clobbers codec thread := by
  rcases hstart.holds with ⟨hreachable, p₀, hholds⟩
  let P : BrokerImpl H → List (Event H) → List (List (Action H)) → Prop :=
    fun b es _ => BrokerImpl.Reachable codec b ∧ b.directory.Holds codec thread id p₀ es
  have hP : P b es outs := by
    refine run_history (P := P) ⟨hreachable, hholds⟩ ?_ hrun
    intro es m t outs e as _ hm hstep
    exact ⟨hm.1.step hstep, holds_step hm.1 hm.2 hstep⟩
  rcases hP.1.owned.listener hlive with ⟨o, hread, _⟩
  rcases hP.2.2 with hnone | ⟨hsome, hslot⟩
  -- the listener is still there
  · cases hnone.symm.trans hlive
  · cases hsome.symm.trans hlive
    rw [reports_lost_iff hread]
    exact hslot

/-- A broker whose first thread has just made its first listener. -/
def sampleListen : BrokerImpl Nat :=
  let b := ((BrokerImpl.construct "amq.topic").incrementId.newListener 0 "1" false).1
  b.assignSlot 0 (some 0)

theorem sampleListen_started : ListenStarted Codec.small 0 "1" sampleListen :=
  ⟨BrokerImpl.construct "amq.topic", "capy-test", ["echo.ping"], false, _,
    ⟨"amq.topic", [], [], rfl⟩, rfl, rfl⟩

/-- A request that does not ask for a reply. -/
def sampleMessage (body : Bytes) : Message :=
  { body := body
    replyTo := ""
    routingKey := "echo.ping"
    correlationId := "" }

/-- A message that another thread handles leaves the slot alone. -/
theorem connection_lost_reported :
    ∃ b outs,
      run (BrokerImpl.step Codec.small) sampleListen
        [.listenCallback 1 "1" (.received (sampleMessage [0xc3]) 7 none)] = .ok (b, outs) ∧
      ∃ b' as calls, BrokerImpl.step Codec.small b (.connectionLost 0) = .ok (b', as) ∧
        .listen 0 (.report (.error connectionLostError) calls) ∈ as := by
  obtain ⟨⟨b, outs⟩, hrun, hlive⟩ : ∃ r,
      run (BrokerImpl.step Codec.small) sampleListen
        [.listenCallback 1 "1" (.received (sampleMessage [0xc3]) 7 none)] = .ok r ∧
      r.1.listeners.get "1" = some 0 := ⟨_, rfl, rfl⟩
  refine ⟨b, outs, hrun, ?_⟩
  refine (connection_lost_reported_iff sampleListen_started hrun hlive).2 ?_
  simp [Event.clobbers]

/-- One message handled on the listener's own thread, and the loss is reported to nobody. -/
theorem connection_lost_missed :
    ∃ (b b' : BrokerImpl Nat) (outs : List (List (Action Nat))),
      run (BrokerImpl.step Codec.small) (.construct "amq.topic")
        [.listenMessages 0 "capy-test" ["echo.ping"] false,
          .listenRegister 0 (.onError 2),
          .listenCallback 0 "1" .consumed,
          .listenCallback 0 "1" (.received (sampleMessage [0xc3]) 7 none)] = .ok (b, outs) ∧
      b.listeners.get "1" = some 0 ∧
      BrokerImpl.step Codec.small b (.connectionLost 0) = .ok (b', []) :=
  ⟨_, _, _, rfl, rfl, rfl⟩

end Runs

end CapyAmqp
