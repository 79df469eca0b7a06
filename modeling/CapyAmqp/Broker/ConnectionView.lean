import CapyAmqp.Broker.OneConnection

/-!
# ConnectionView — the steps of the cache and the steps of the broker

The broker's model makes and uses the connection of a thread in one step, `getConnection` or
`assignSlot`; a call of `ConnectionCache` takes up to four, and other threads move in between.
`entry_of_run` justifies the one step: a thread that is in no call finds in the cache what the
broker's operations leave for it, one for each completed call, in the order of completion.
-/

namespace CapyAmqp

open Lib

/-- The call that a step completes. -/
def ConnectionOutput.completes : ConnectionOutput → Option ConnectionCall
  | .channel _ => some .newChannel
  | .slot _ (some aDeferred) => some (.setDeferred aDeferred)
  | .slot _ none => some .resetDeferred
  | _ => none

/-- What a completed call leaves of the connection of its thread. -/
def ConnectionCall.leaves : ConnectionCall → Option Connection → Connection
  | .newChannel, v => v.getD { deferred := none }
  | .setDeferred aDeferred, _ => { deferred := some aDeferred }
  | .resetDeferred, _ => { deferred := none }

/-! ## The broker's operations -/

namespace BrokerImpl

variable {H : Type}

/-- What the broker's model does for a call. -/
def onCall (b : BrokerImpl H) (thread : ThreadId) : ConnectionCall → BrokerImpl H
  | .newChannel => b.getConnection thread
  | .setDeferred aDeferred => b.assignSlot thread (some aDeferred)
  | .resetDeferred => b.assignSlot thread none

/-- The operations for the calls that are completed in a run of the cache. -/
def onCalls (b : BrokerImpl H) (outs : List (ThreadId × ConnectionOutput)) : BrokerImpl H :=
  outs.foldl (fun b o => o.2.completes.elim b (b.onCall o.1)) b

theorem onCalls_concat (b : BrokerImpl H) (outs : List (ThreadId × ConnectionOutput))
    (o : ThreadId × ConnectionOutput) :
    b.onCalls (outs ++ [o]) = o.2.completes.elim (b.onCalls outs) ((b.onCalls outs).onCall o.1) := by
  simp [onCalls]

theorem connections_getConnection_self (b : BrokerImpl H) (thread : ThreadId) :
    (b.getConnection thread).connections.get thread =
      some ((b.connections.get thread).getD { deferred := none }) := by
  unfold getConnection
  cases hget : b.connections.get thread with
  | none => simp [Table.has, hget]
  | some connection => simp [Table.has, hget]

theorem connections_getConnection_of_ne (b : BrokerImpl H) {thread thread' : ThreadId}
    (h : thread' ≠ thread) :
    (b.getConnection thread).connections.get thread' = b.connections.get thread' := by
  unfold getConnection
  split
  · rfl
  · exact Table.get_set_of_ne _ _ h

theorem connections_onCall_self (b : BrokerImpl H) (thread : ThreadId) (call : ConnectionCall) :
    (b.onCall thread call).connections.get thread =
      some (call.leaves (b.connections.get thread)) := by
  cases call with
  | newChannel => exact connections_getConnection_self b thread
  | setDeferred aDeferred => exact Table.get_set_self _ _ _
  | resetDeferred => exact Table.get_set_self _ _ _

theorem connections_onCall_of_ne (b : BrokerImpl H) {thread thread' : ThreadId}
    (h : thread' ≠ thread) (call : ConnectionCall) :
    (b.onCall thread call).connections.get thread' = b.connections.get thread' := by
  have hget := connections_getConnection_of_ne b h
  cases call with
  | newChannel => exact hget
  | setDeferred aDeferred => exact (Table.get_set_of_ne _ _ h).trans hget
  | resetDeferred => exact (Table.get_set_of_ne _ _ h).trans hget

end BrokerImpl

namespace ConnectionCache

variable {K : Type} [DecidableEq K] (hash : K → Nat)

/-- The connection that the cache holds under an id. -/
def entry (s : ConnectionCache K) (id : K) : Option Connection :=
  ((s.connections.table hash).get id).bind s.objects.read

/-- How the entry of a thread is related to `v`, the broker's connection for the calls that the
thread has completed: within a call it may have been made already. -/
def Agrees (v : Option Connection) (s : ConnectionCache K) (id : K) : ConnectionPhase → Prop
  | .idle => s.entry hash id = v
  | .missing _ => v = none
  | .made _ connection => v = none ∧ s.objects.read connection = some { deferred := none }
  | .present _ => s.entry hash id = some (v.getD { deferred := none })
  | .holding _ _ => s.entry hash id = some (v.getD { deferred := none })

section Steps

variable {hash} {v : Option Connection} {s s' : ConnectionCache K} {id k : K}
  {connection : Ptr} {phase phase' phase₁ : ConnectionPhase} {output : ConnectionOutput}
  {m : ConnectionMove} {as : List ConnectionOutput}

theorem entry_of_get (h : (s.connections.table hash).get id = some connection) :
    s.entry hash id = s.objects.read connection := by
  simp [entry, h]

/-- A step changes the connection only that its thread holds. -/
theorem step_read (h : s.step hash id phase m = .ok (s', phase', output)) (hlive : s.Lives connection)
    (hother : ∀ call, phase ≠ .holding call connection) :
    s'.objects.read connection = s.objects.read connection := by
  unfold step at h
  split at h
  case h_1 =>
    cases h
    rfl
  case h_2 =>
    cases h
    rcases hlive with ⟨o, ho⟩
    exact (Heap.read_alloc_of_read ho).trans ho.symm
  case h_3 =>
    cases h
    rfl
  case h_4 call now =>
    simp only [look] at h
    split at h
    · cases h
    · cases h
      rfl
  case h_5 call c now =>
    have hne : connection ≠ c := by
      rintro rfl
      exact hother call rfl
    simp only [use] at h
    split at h
    · cases h
    · cases call with
      | newChannel =>
          cases h
          rfl
      | setDeferred aDeferred =>
          cases h
          exact Heap.read_modify_of_ne hne
      | resetDeferred =>
          cases h
          exact Heap.read_modify_of_ne hne
  case h_6 => cases h

/-- What the steps of another thread leave alone. -/
theorem Agrees.frame (h : Agrees hash v s k phase₁) (hassertion : Assertion hash k s phase₁ as)
    (hstep : s.step hash id phase m = .ok (s', phase', output))
    (hguarantees : Guarantees hash id s s') (hk : k ≠ id)
    (hother : ∀ call c, phase = .holding call c → madeIn as ≠ [c]) :
    Agrees hash v s' k phase₁ := by
  have hget := hguarantees.others k hk
  -- the connection that the thread has made is not the one the other thread holds
  have hread : ∀ c, s.Bound c as → s'.objects.read c = s.objects.read c := by
    intro c hbound
    refine step_read hstep hbound.live ?_
    intro call hphase
    exact hother call c hphase hbound.made
  have hstored : ∀ c, Stored hash k s c as → s'.entry hash k = s.entry hash k := by
    intro c hc
    rw [entry_of_get hc.1, entry_of_get (hget.trans hc.1), hread c hc.2]
  cases phase₁ with
  | idle =>
      rcases hassertion with ⟨hnone, _⟩ | ⟨c, hc⟩
      · have hempty : s'.entry hash k = s.entry hash k := by
          simp only [entry, hget, hnone, Option.bind_none]
        exact hempty.trans h
      · exact (hstored c hc).trans h
  | missing call => exact h
  | made call c => exact ⟨h.1, (hread c hassertion.2).trans h.2⟩
  | present call =>
      rcases hassertion with ⟨c, hc⟩
      exact (hstored c hc).trans h
  | holding call c => exact (hstored c hassertion).trans h

/-- A step of the thread itself.  The call that it completes, if any, is counted. -/
theorem Agrees.step (h : Agrees hash v s id phase) (hassertion : Assertion hash id s phase as)
    (hlasting : s.connections.Lasting hash)
    (hstep : s.step hash id phase m = .ok (s', phase', output)) :
    Agrees hash (output.completes.elim v fun call => some (call.leaves v)) s' id phase' := by
  unfold ConnectionCache.step at hstep
  split at hstep
  case h_1 call now =>
    cases hstep
    have hentry : (s.ask hash id call now).1.entry hash id = s.entry hash id :=
      congrArg (fun t => (Table.get t id).bind s.objects.read) (hlasting.has id now).2.1
    have hv : s.entry hash id = v := h
    show Agrees hash v (s.ask hash id call now).1 id (s.ask hash id call now).2.1
    rcases hassertion with ⟨hnone, _⟩ | ⟨c, hget, hbound⟩
    · rw [ask_of_none hlasting hnone]
      have hempty : s.entry hash id = none := by
        simp [entry, hnone]
      exact hv.symm.trans hempty
    · rw [ask_of_some hlasting hget]
      rcases hbound.live with ⟨o, ho⟩
      have hthere : s.entry hash id = some o := (entry_of_get hget).trans ho
      show (s.ask hash id call now).1.entry hash id = some (v.getD _)
      rw [hentry, ← hv, hthere, Option.getD_some]
  case h_2 call now =>
    cases hstep
    exact ⟨h, Heap.read_alloc_next _ _⟩
  case h_3 call c now =>
    cases hstep
    rcases h with ⟨rfl, hread⟩
    have hentry : (s.store hash id call c).1.entry hash id = some { deferred := none } :=
      (entry_of_get (get_store hlasting id call c)).trans hread
    cases call <;> exact hentry
  case h_4 call now =>
    rcases look_cases hlasting hstep with ⟨c, _, rfl, rfl, rfl⟩
    have htable := (hlasting.get id now).2.1
    have hentry := congrArg (fun t => (Table.get t id).bind s.objects.read) htable
    exact hentry.trans h
  case h_5 call c now =>
    -- the entry is read off the objects, whatever the call makes of them
    have hentry : ∀ objects : Heap Connection,
        ({ s with objects := objects } : ConnectionCache K).entry hash id = objects.read c :=
      fun _ => entry_of_get hassertion.1
    have hread : s.objects.read c = some (v.getD { deferred := none }) :=
      (hentry s.objects).symm.trans h
    cases call with
    | newChannel =>
        simp only [use, hread, Except.ok.injEq, Prod.mk.injEq] at hstep
        rcases hstep with ⟨rfl, rfl, rfl⟩
        exact h
    | setDeferred aDeferred =>
        simp only [use, hread, Except.ok.injEq, Prod.mk.injEq] at hstep
        rcases hstep with ⟨rfl, rfl, rfl⟩
        refine (hentry _).trans ?_
        simp [hread, ConnectionOutput.completes, ConnectionCall.leaves]
    | resetDeferred =>
        simp only [use, hread, Except.ok.injEq, Prod.mk.injEq] at hstep
        rcases hstep with ⟨rfl, rfl, rfl⟩
        refine (hentry _).trans ?_
        simp [hread, ConnectionOutput.completes, ConnectionCall.leaves]
  case h_6 => cases hstep

end Steps

/-! ## Runs -/

variable {H : Type} {hash} {id : ThreadId → K} {moves : List (ThreadId × ConnectionMove)}
  {c : Threads ThreadId (ConnectionCache K) ConnectionPhase}
  {outs : List (ThreadId × ConnectionOutput)}

theorem agrees_of_run (hid : Function.Injective id) (exchangeName : String)
    (hrun : run (Threads.move (threadStep hash id)) start moves = .ok (c, outs)) (t : ThreadId) :
    Agrees hash (((BrokerImpl.construct exchangeName : BrokerImpl H).onCalls outs).connections.get t)
      c.shared (id t) (c.phase t) := by
  let b : BrokerImpl H := .construct exchangeName
  refine run_history (P := fun c _ outs => ∀ t,
    Agrees hash ((b.onCalls outs).connections.get t) c.shared (id t) (c.phase t)) ?_ ?_ hrun t
  · intro t
    show (construct : ConnectionCache K).entry hash (id t) = none
    simp [entry, Table.get, Cache.table, construct, Cache.construct]
  · intro ms c₁ c₂ outs m o hprefix hP hmove t
    rcases assertion_of_run hid hprefix with ⟨hlasting, hall⟩
    rcases Threads.move_ok_iff.1 hmove with ⟨s, phase, output, hstep, rfl, rfl⟩
    rw [BrokerImpl.onCalls_concat]
    by_cases ht : t = m.1
    · subst ht
      have hnext := (hP m.1).step (hall m.1) hlasting hstep
      simp only [Function.update_self]
      cases hcompletes : output.completes with
      | none => simpa [hcompletes] using hnext
      | some call =>
          simpa [hcompletes, BrokerImpl.connections_onCall_self] using hnext
    · have hsame : ((output.completes.elim (b.onCalls outs)
          ((b.onCalls outs).onCall m.1)).connections.get t) = (b.onCalls outs).connections.get t := by
        cases output.completes with
        | none => rfl
        | some call => exact BrokerImpl.connections_onCall_of_ne _ ht call
      simp only [hsame, Function.update_of_ne ht]
      refine (hP t).frame (hall t) hstep (step_guarantees hlasting hstep) (hid.ne ht) ?_
      intro call connection hphase hmade
      have hmover := hall m.1
      rw [hphase] at hmover
      exact ht (made_by_one hprefix hmade hmover.2.made)

/-- The one step of the broker's model stands for the steps of the cache.  However the steps of the
threads are interleaved, a thread that is in no call has the connection, and in its slot the
listener, that the broker's operations give it, taken in the order in which the calls complete. -/
theorem entry_of_run (hid : Function.Injective id) (exchangeName : String)
    (hrun : run (Threads.move (threadStep hash id)) start moves = .ok (c, outs)) {t : ThreadId}
    (hidle : c.phase t = .idle) :
    let b := (BrokerImpl.construct exchangeName : BrokerImpl H).onCalls outs
    c.shared.entry hash (id t) = b.connections.get t ∧
      (c.shared.entry hash (id t)).bind Connection.deferred = b.slot t := by
  intro b
  have hagrees := agrees_of_run (H := H) hid exchangeName hrun t
  rw [hidle] at hagrees
  have hentry : c.shared.entry hash (id t) = b.connections.get t := hagrees
  exact ⟨hentry, congrArg (fun v => v.bind Connection.deferred) hentry⟩

/-- A thread registers a listener while another one opens a channel. -/
theorem entry_of_run_listener :
    ∃ c outs,
      run (Threads.move (threadStep (fun n : Nat => n) fun t : ThreadId => t)) start
        [(0, .call .newChannel 0), (1, .call (.setDeferred 5) 0), (0, .proceed 0), (1, .proceed 0),
          (1, .proceed 0), (0, .proceed 0), (1, .proceed 0), (0, .proceed 0), (1, .proceed 0)] =
        .ok (c, outs) ∧
      (c.shared.entry (fun n : Nat => n) 1 =
          ((BrokerImpl.construct "amq.topic" : BrokerImpl Nat).onCalls outs).connections.get 1 ∧
        (c.shared.entry (fun n : Nat => n) 1).bind Connection.deferred =
          ((BrokerImpl.construct "amq.topic" : BrokerImpl Nat).onCalls outs).slot 1) := by
  obtain ⟨⟨c, outs⟩, hrun, hidle⟩ : ∃ r,
      run (Threads.move (threadStep (fun n : Nat => n) fun t : ThreadId => t)) start
        [(0, .call .newChannel 0), (1, .call (.setDeferred 5) 0), (0, .proceed 0), (1, .proceed 0),
          (1, .proceed 0), (0, .proceed 0), (1, .proceed 0), (0, .proceed 0), (1, .proceed 0)] =
        .ok r ∧
      r.1.phase 1 = .idle := ⟨_, rfl, rfl⟩
  exact ⟨c, outs, hrun, entry_of_run (fun _ _ h => h) "amq.topic" hrun hidle⟩

end ConnectionCache

end CapyAmqp
