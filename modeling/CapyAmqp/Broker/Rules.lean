import CapyAmqp.Broker.Ownership

/-!
# Rules — what holds of every step but two

Apart from `listen_messages` and the client's registrations, everything that happens to the listeners
of a broker is put together from five statements.  A relation that composes and is satisfied by these
is therefore satisfied by every other step (`StepRules.step`).
-/

namespace CapyAmqp

open Lib

variable {H : Type}

/-- The steps that make no listener and register no handler with one. -/
def Event.onCallbacks : Event H → Bool
  | .listenMessages .. => false
  | .listenRegister .. => false
  | _ => true

namespace BrokerImpl

/-- The statements that the callbacks consist of satisfy `R`. -/
structure StepRules (R : BrokerImpl H → List (Action H) → BrokerImpl H → Prop) : Prop where
  composes : Prog.Composes R
  aside : ∀ {b as b'}, Aside b as b' → R b as b'
  replays : ∀ {b as b'}, OnReplays b as b' → R b as b'
  reportTo : ∀ p r, Prog.Ensures R (reportTo p r : Stmt H)
  listenAck : ∀ id deliveryTag, Prog.Ensures R (listenAck id deliveryTag : Stmt H)
  resetDeferred : ∀ thread, Prog.Ensures R (resetDeferred thread : Stmt H)
  listenDel : ∀ id, Prog.Ensures R (listenDel id : Stmt H)

namespace StepRules

variable {R : BrokerImpl H → List (Action H) → BrokerImpl H → Prop}

theorem listenReport (h : StepRules R) (id : String) (r : Report ListenData) :
    Prog.Ensures R (BrokerImpl.listenReport id r) := by
  intro b b' as hrun
  rcases withListener_ok_iff.1 hrun with ⟨q, _, hrun⟩
  exact h.reportTo _ _ _ _ _ hrun

/-- A request makes a replay, which is no listener's, and is handed over. -/
theorem listenDispatch (h : StepRules R) (id : String) (message : Message) (received : Json)
    (throws : Option Thrown) : Prog.Ensures R (BrokerImpl.listenDispatch id message received throws) := by
  intro b b' as hrun
  rcases listenReportData_ok_iff.1 hrun with ⟨q, o, _, _, _, hrun⟩
  have halloc : OnReplays b []
      { b with
        replays := (b.replays.alloc
          { message := .ok .null
            commitHandler := some
              { cid := message.correlationId
                replayTo := message.replyTo
                correlationId := id }
            completeHandler := none
            destroying := false }).1 } :=
    ⟨rfl, rfl, rfl, rfl, rfl, rfl, rfl, fun _ => rfl, by simp⟩
  exact h.composes.trans (h.replays halloc) (h.reportTo _ _ _ _ _ hrun)

theorem listenCallback (h : StepRules R) (codec : Codec) (thread : ThreadId) (id : String)
    (callback : ListenCallback) :
    Prog.Ensures R (BrokerImpl.listenCallback codec thread id callback) := by
  cases callback with
  | received message deliveryTag throws =>
      refine Prog.ensures_seq h.composes (h.listenAck _ _) ?_
      -- a body that does not decode is reported, any other dispatched
      split
      · exact h.listenReport _ _
      · exact Prog.ensures_seq h.composes (h.resetDeferred _) (h.listenDispatch _ _ _ _)
  | consumeError message =>
      refine Prog.ensures_all h.composes ?_
      intro p hp
      simp only [List.mem_cons, List.not_mem_nil, or_false] at hp
      rcases hp with rfl | rfl | rfl
      · exact h.resetDeferred _
      · exact h.listenReport _ _
      · exact h.listenDel _
  | _ => exact h.listenReport _ _

theorem handlerReport (h : StepRules R) (thread : ThreadId) (e : Error) :
    Prog.Ensures R (BrokerImpl.handlerReport thread e) := by
  intro b b' as hrun
  rcases handlerReport_ok_iff.1 hrun with ⟨connection, _, ⟨_, rfl, rfl⟩ | ⟨q, _, hrun⟩⟩
  · exact h.composes.refl b'
  · exact h.reportTo _ _ _ _ _ hrun

theorem replyFailure (h : StepRules R) (transaction : ReplyTransaction) (message : String) :
    Prog.Ensures R (BrokerImpl.replyFailure transaction message) := by
  intro b b' as hrun
  rcases takeTransaction_ok_iff.1 hrun with ⟨_, hrun⟩
  have herase := h.replays (onReplays_eraseTransaction b transaction)
  have hrest := Prog.ensures_seq h.composes (h.listenReport _ _)
    (fun _ _ _ hdelete => h.replays (onReplays_deleteReplay _ _ _ _ hdelete)) _ _ _ hrun
  exact h.composes.trans herase hrest

theorem step (h : StepRules R) {codec : Codec} {b b' : BrokerImpl H} {e : Event H}
    {as : List (Action H)} (he : e.onCallbacks = true) (hstep : step codec b e = .ok (b', as)) :
    R b as b' := by
  cases e with
  | listenMessages thread queue keys failed => cases he
  | listenRegister p r => cases he
  | listenCallback thread id callback =>
      rcases onListenCallback_ok_iff.1 hstep with ⟨_, hstep⟩
      exact h.listenCallback _ _ _ _ _ _ _ hstep
  | replayCall thread r call => exact h.replays (onReplays_replayCall _ _ _ _ _ _ _ hstep)
  | replayDestroyed r => exact h.replays (onReplays_replayDestroyed _ _ _ _ hstep)
  | replySuccess transaction => exact h.replays (onReplays_replySuccess _ _ _ _ hstep)
  | replyFailure transaction message => exact h.replyFailure _ _ _ _ _ hstep
  | connectionError thread message => exact h.handlerReport _ _ _ _ _ hstep
  | connectionLost thread => exact h.handlerReport _ _ _ _ _ hstep
  | _ => exact h.aside (step_aside rfl hstep)

end StepRules

end BrokerImpl

end CapyAmqp
