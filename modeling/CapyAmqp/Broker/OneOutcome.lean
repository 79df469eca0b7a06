import CapyAmqp.Broker.FetchOutcome

/-!
# OneOutcome — when a fetch has one terminal outcome

A terminal outcome is a `report_error`, or a `report_data` that reaches the data handler.  The
callbacks that report an error delete the fetcher, with one exception: the error callback of
`commitTransaction` reports and leaves the fetcher in place.  And a decodable reply deletes the
fetcher even when nobody received it.

`fetch_one_outcome_iff` says that these two are the only ways to go wrong: over every run the
fetch has one outcome, and is in `fetchers_` exactly as long as it has none, if and only if no
commit error and no reply that would be passed to nobody hits the live fetcher.
-/

namespace CapyAmqp

open Lib

variable {H : Type}

/-- A report that ends a fetch as far as the client is concerned. -/
def ObjectAction.isTerminal {Op P : Type} : ObjectAction Op H P → Bool
  | .report (.error _) _ => true
  | .report (.data _) calls => !calls.isEmpty
  | _ => false

def Call.isError {P : Type} : Call H P → Bool
  | .error .. => true
  | _ => false

/-- One terminal outcome at most, nothing but finalize after an error, and the fetcher is present
exactly as long as there has been no outcome. -/
structure OneOutcome (present : Bool) (history : List (FetchAction H)) : Prop where
  terminal : (history.filter ObjectAction.isTerminal).length ≤ 1
  quiet : ∀ pre handler e post, handlerCalls history = pre ++ .error handler e :: post →
    ∀ c ∈ post, c.isFinalize = true
  present_iff : present = true ↔ ∀ a ∈ history, a.isTerminal = false

/-- What may happen to the live fetcher `o`: no commit error, and a decodable reply only when it
will be passed to a data handler. -/
def OutcomeOk (codec : Codec) (o : DeferredFetching H) : FetchEvent H → Prop
  | .callback (.commitError _) => False
  | .callback (.received body _) =>
      (∃ received, codec.fromMsgpack body = .ok received) →
        o.deferred.failed = false ∧ o.deferred.dataHandler.isSome = true
  | _ => True

/-- Every event of the run that hits the fetch while it is live is of that kind. -/
def Orderly (codec : Codec) (id : String) (b₀ : BrokerImpl H) (es : List (Event H)) : Prop :=
  ∀ pre e post, es = pre ++ e :: post → ∀ b outs o e',
    run (BrokerImpl.step codec) b₀ pre = .ok (b, outs) → b.fetchers.get id = some o →
      e.toFetch id = some e' → OutcomeOk codec o e'

/-! ## Histories -/

/-- The fetcher is live and has reported no outcome. -/
structure Pending (o : DeferredFetching H) (history : List (FetchAction H)) : Prop where
  error : o.deferred.error.toBool = false
  terminal : ∀ a ∈ history, a.isTerminal = false
  calls : ∀ c ∈ handlerCalls history, c.isError = false

theorem Pending.oneOutcome {o : DeferredFetching H} {history : List (FetchAction H)}
    (h : Pending o history) : OneOutcome true history := by
  have hnone : history.filter ObjectAction.isTerminal = [] := by
    refine List.filter_eq_nil_iff.2 ?_
    intro a ha
    simp [h.terminal a ha]
  refine ⟨by simp [hnone], ?_, iff_of_true rfl h.terminal⟩
  intro pre handler e post hsplit
  have herror := h.calls (.error handler e) (by simp [hsplit])
  cases herror

theorem Pending.append {o o' : DeferredFetching H} {history as : List (FetchAction H)}
    (h : Pending o history) (has : Pending o' as) : Pending o' (history ++ as) := by
  refine ⟨has.error, ?_, ?_⟩
  · intro a ha
    rcases List.mem_append.1 ha with hold | hnew
    · exact h.terminal a hold
    · exact has.terminal a hnew
  · intro c hc
    rw [handlerCalls_append] at hc
    rcases List.mem_append.1 hc with hold | hnew
    · exact h.calls c hold
    · exact has.calls c hnew

/-- An outcome after a history without one. -/
theorem OneOutcome.after {o : DeferredFetching H} {history as : List (FetchAction H)}
    (h : Pending o history) (has : OneOutcome false as) : OneOutcome false (history ++ as) := by
  have hnone : history.filter ObjectAction.isTerminal = [] := by
    refine List.filter_eq_nil_iff.2 ?_
    intro a ha
    simp [h.terminal a ha]
  refine ⟨by simpa [List.filter_append, hnone] using has.terminal, ?_, ?_⟩
  · intro pre handler e post hsplit
    rw [handlerCalls_append] at hsplit
    -- the error is not among the calls of the earlier history
    rcases List.append_eq_append_iff.1 hsplit with ⟨mid, hpre, hcalls⟩ | ⟨mid, hhistory, hrest⟩
    · exact has.quiet mid handler e post hcalls
    · cases mid with
      | nil =>
          exact has.quiet [] handler e post (by simpa using hrest.symm)
      | cons c mid =>
          simp only [List.cons_append, List.cons.injEq] at hrest
          have herror := h.calls c (by simp [hhistory])
          rw [← hrest.1] at herror
          cases herror
  · refine iff_of_false (by simp) ?_
    intro hall
    refine absurd (has.present_iff.2 ?_) (by simp)
    intro a ha
    exact hall a (by simp [ha])

/-- After at most one call nothing but finalize. -/
theorem quiet_of_length_le {P : Type} {xs ys : List (Call H P)} (hxs : xs.length ≤ 1)
    (hys : ∀ c ∈ ys, c.isFinalize = true) (pre : List (Call H P)) (handler : H) (e : Error)
    (post : List (Call H P)) (h : xs ++ ys = pre ++ .error handler e :: post) :
    ∀ c ∈ post, c.isFinalize = true := by
  intro c hc
  refine hys c ?_
  rcases List.append_eq_append_iff.1 h with ⟨mid, hpre, hcalls⟩ | ⟨mid, hxs', hrest⟩
  · simp [hcalls, hc]
  · cases mid with
    | nil =>
        have hys' : ys = .error handler e :: post := by simpa using hrest.symm
        simp [hys', hc]
    | cons x mid =>
        -- the error is the one call of `xs`, so what follows is all of `ys`
        have hmid : mid = [] := by
          rw [hxs'] at hxs
          simp only [List.length_append, List.length_cons] at hxs
          exact List.length_eq_zero_iff.1 (by omega)
        subst hmid
        simp only [List.cons_append, List.nil_append, List.cons.injEq] at hrest
        rw [← hrest.2]
        exact hc

/-! ## One step -/

section Step

variable {codec : Codec} {exchangeName id : String} {closure : FetchClosure}
  {o : DeferredFetching H} {v : FetchLife H} {as : List (FetchAction H)}

theorem length_errorCalls_le (d : Deferred H FetchData) (e : Error) :
    (d.reportError e).2.length ≤ 1 := by
  unfold Deferred.reportError
  split
  · cases d.errorHandler <;> simp
  · simp

theorem oneOutcome_fail (o : DeferredFetching H) (code : BrokerError) (message : String) :
    OneOutcome false (FetchLife.fail o (.broker code message)).2 := by
  let e := Error.broker code message
  -- the destructor reports no second error
  have herror : (o.deferred.reportError e).1.error.toBool = false := by
    rw [Deferred.error_reportError (Error.toBool_broker code message)]
    rfl
  refine ⟨by simp [FetchLife.fail, ObjectAction.isTerminal, List.filter_cons], ?_, ?_⟩
  · intro pre handler e' post hsplit
    have hcalls : (o.deferred.reportError e).2 ++ (o.deferred.reportError e).1.destroy =
        pre ++ .error handler e' :: post := by
      simpa [FetchLife.fail, handlerCalls, ObjectAction.calls] using hsplit
    exact quiet_of_length_le (length_errorCalls_le _ _)
      (fun c hc => Deferred.isFinalize_of_mem_destroy herror hc) pre handler e' post hcalls
  · simp [FetchLife.fail, ObjectAction.isTerminal]

/-- A delivery to a live fetcher is an outcome, unless it can be decoded and is passed to
nobody. -/
theorem oneOutcome_receive (ho : o.deferred.error.toBool = false) {body : Bytes}
    {throws : Option Thrown} (hok : OutcomeOk codec o (.callback (.received body throws)))
    (h : FetchLife.receive codec o body throws = .ok (v, as)) : OneOutcome false as := by
  rcases FetchLife.receive_ok_iff.1 h with
    ⟨_, ⟨received, hdecode, _, rfl⟩ | ⟨thrown, _, _, rfl, rfl⟩⟩
  -- the handler is registered and the gate open: the value is the outcome
  · rcases hok ⟨received, hdecode⟩ with ⟨hfailed, hsome⟩
    rcases Option.isSome_iff_exists.1 hsome with ⟨handler, hhandler⟩
    have hdata : o.deferred.reportData (.ok received) = [.data handler (.ok received)] :=
      Deferred.reportData_of_open hfailed hhandler
    refine ⟨by simp [ObjectAction.isTerminal, hdata], ?_, by simp [ObjectAction.isTerminal, hdata]⟩
    intro pre handler' e post hsplit
    have hcalls : [.data handler (.ok received)] ++ o.deferred.destroy =
        pre ++ .error handler' e :: post := by
      simpa [handlerCalls, ObjectAction.calls, hdata] using hsplit
    exact quiet_of_length_le (by simp) (fun c hc => Deferred.isFinalize_of_mem_destroy ho hc)
      pre handler' e post hcalls
  · have hfail := oneOutcome_fail o .dataResponse thrown.fetchText
    -- the null value changes neither the calls nor the outcomes
    refine ⟨by simp [ObjectAction.isTerminal, List.filter_cons], ?_,
      by simp [ObjectAction.isTerminal]⟩
    intro pre handler e post hsplit
    refine hfail.quiet pre handler e post ?_
    simpa [FetchLife.fail, handlerCalls, ObjectAction.calls] using hsplit

/-- An orderly step of a pending fetch leaves it pending or gives it its one outcome. -/
theorem Pending.step (ho : o.deferred.error.toBool = false) {e : FetchEvent H}
    (hok : OutcomeOk codec o e)
    (h : FetchLife.step codec exchangeName id closure (some o) e = .ok (v, as)) :
    (∃ o', v = some o' ∧ Pending o' as) ∨ v = none ∧ OneOutcome false as := by
  cases e with
  | register r =>
      cases h
      exact Or.inl ⟨_, rfl, by simpa using ho, by simp, by simp [handlerCalls]⟩
  | callback c =>
      cases c with
      | declared name =>
          cases h
          refine Or.inl ⟨o, rfl, ho, ?_, by simp [handlerCalls, ObjectAction.calls]⟩
          intro a ha
          rcases List.mem_map.1 ha with ⟨op, _, rfl⟩
          rfl
      | declareError message =>
          cases h
          exact Or.inr ⟨rfl, oneOutcome_fail o _ message⟩
      | commitError message =>
          -- not orderly: the fetcher would stay with an outcome
          exact hok.elim
      | received body throws =>
          have hnone : v = none := (FetchLife.removed_receive ho h).1
          exact Or.inr ⟨hnone, oneOutcome_receive ho hok h⟩
      | consumed =>
          cases h
          refine Or.inl ⟨_, rfl, ho, by simp [ObjectAction.isTerminal], ?_⟩
          intro c hc
          -- the success handler is called, which is no outcome
          have hsuccess : c ∈ o.deferred.successHandler.toList.map (Call.success (P := FetchData)) := by
            simpa [handlerCalls, ObjectAction.calls, Deferred.report, Deferred.reportSuccess] using hc
          rcases List.mem_map.1 hsuccess with ⟨handler, _, rfl⟩
          rfl
      | consumeError message =>
          cases h
          exact Or.inr ⟨rfl, oneOutcome_fail o _ message⟩

end Step

/-! ## Runs -/

section Runs

variable {codec : Codec} {id : String} {closure : FetchClosure} {failed : Bool}
  {b₀ b : BrokerImpl H} {es : List (Event H)} {outs : List (List (Action H))}

theorem Orderly.of_append {es' : List (Event H)} (h : Orderly codec id b₀ (es ++ es')) :
    Orderly codec id b₀ es := by
  intro pre e post hsplit
  exact h pre e (post ++ es') (by simp [hsplit])

/-- What an orderly run leaves of the fetch. -/
def OutcomeInv (v : FetchLife H) (history : List (FetchAction H)) : Prop :=
  match v with
  | some o => Pending o history
  | none => OneOutcome false history

theorem OutcomeInv.oneOutcome {v : FetchLife H} {history : List (FetchAction H)}
    (h : OutcomeInv v history) : OneOutcome v.isSome history := by
  cases v with
  | none => exact h
  | some o => exact Pending.oneOutcome h

theorem outcomeInv_of_run (hstart : FetchStarted codec id closure failed b₀)
    (horderly : Orderly codec id b₀ es) (hrun : run (BrokerImpl.step codec) b₀ es = .ok (b, outs)) :
    OutcomeInv (b.fetchers.get id) (fetchHistory id outs) := by
  let P : BrokerImpl H → List (Event H) → List (List (Action H)) → Prop :=
    fun b es outs => b.Tracked id closure ∧
      (Orderly codec id b₀ es → OutcomeInv (b.fetchers.get id) (fetchHistory id outs))
  have hinit : P b₀ [] [] := by
    rcases hstart.tracked with ⟨htracked, thread, hget⟩
    refine ⟨htracked, fun _ => ?_⟩
    rw [hget]
    exact ⟨rfl, by simp [fetchHistory], by simp [fetchHistory, handlerCalls]⟩
  have hP : P b es outs := by
    refine run_history (P := P) hinit ?_ hrun
    intro es m t outs e as hm hP hstep
    rcases BrokerImpl.step_fetch hP.1 hstep with ⟨hfetch, htracked, _⟩
    refine ⟨htracked, ?_⟩
    intro horderly
    -- the run up to here is orderly as well
    have hinv := hP.2 horderly.of_append
    rw [fetchHistory_concat]
    unfold BrokerImpl.FetchStep at hfetch
    split at hfetch
    · rw [hfetch.1, hfetch.2, List.append_nil]
      exact hinv
    · rename_i e' hevent
      cases hlive : m.fetchers.get id with
      | none =>
          rw [hlive] at hinv hfetch
          rcases FetchLife.step_removed hfetch with ⟨hgone, hnil⟩
          rw [hgone, hnil, List.append_nil]
          exact hinv
      | some o =>
          rw [hlive] at hinv hfetch
          -- the event is orderly because the whole run is
          have hok := horderly es e [] rfl m outs o e' hm hlive hevent
          rcases Pending.step hinv.error hok hfetch with ⟨o', hlive', hnew⟩ | ⟨hgone, hnew⟩
          · rw [hlive']
            exact hinv.append hnew
          · rw [hgone]
            exact OneOutcome.after hinv hnew
  exact hP.2 horderly

/-- A step that is not orderly leaves the fetcher present with an outcome, or absent without. -/
theorem not_oneOutcome_of_step {exchangeName : String} {o : DeferredFetching H} {v : FetchLife H}
    {history as : List (FetchAction H)} {e : FetchEvent H}
    (hhistory : OneOutcome true history) (hbad : ¬ OutcomeOk codec o e)
    (h : FetchLife.step codec exchangeName id closure (some o) e = .ok (v, as)) :
    ¬ OneOutcome v.isSome (history ++ as) := by
  intro houtcome
  cases e with
  | register r =>
      exact hbad trivial
  | callback c =>
      cases c with
      | commitError message =>
          cases h
          -- after the commit error the fetcher is present, which forbids an outcome
          have hnone := houtcome.present_iff.1 rfl
            (.report (.error (.broker .publish message))
              (o.deferred.report (.error (.broker .publish message))).2) (by simp)
          cases hnone
      | received body throws =>
          simp only [OutcomeOk] at hbad
          push Not at hbad
          rcases hbad with ⟨⟨received, hdecode⟩, hclosed⟩
          -- nobody receives the value, so the removal comes without an outcome
          have hdata : o.deferred.reportData (.ok received) = [] := by
            by_contra hne
            rcases Deferred.reportData_ne_nil_iff.1 hne with ⟨hfailed, hsome⟩
            exact hclosed hfailed hsome
          rcases FetchLife.receive_ok_iff.1 h with
            ⟨rfl, ⟨received', hvalue, _, rfl⟩ | ⟨thrown, e, herror, _⟩⟩
          · cases hdecode.symm.trans hvalue
            have hpresent : (none : FetchLife H).isSome = true := by
              refine houtcome.present_iff.2 ?_
              intro a ha
              rcases List.mem_append.1 ha with hold | hnew
              · exact hhistory.present_iff.1 rfl a hold
              · simp only [hdata, List.mem_cons, List.not_mem_nil, or_false] at hnew
                rcases hnew with rfl | rfl
                · rfl
                · rfl
            cases hpresent
          · cases hdecode.symm.trans herror
      | _ =>
          exact hbad trivial

/-- One outcome per fetch: in every state of a run, if and only if the run is orderly. -/
theorem fetch_one_outcome_iff (hstart : FetchStarted codec id closure failed b₀)
    (hrun : run (BrokerImpl.step codec) b₀ es = .ok (b, outs)) :
    (∀ pre post, es = pre ++ post → ∀ b' outs',
      run (BrokerImpl.step codec) b₀ pre = .ok (b', outs') →
        OneOutcome (b'.fetchers.has id) (fetchHistory id outs')) ↔
      Orderly codec id b₀ es := by
  constructor
  · intro hall pre e post hsplit b' outs' o e' hpre hlive hevent
    by_contra hbad
    -- the run goes on through `e`
    rw [hsplit] at hrun
    rcases run_append_ok_iff.1 hrun with ⟨m, bs, cs, hm, hrest, _⟩
    rw [hpre] at hm
    cases hm
    rcases run_cons_ok_iff.1 hrest with ⟨b₂, as, cs', hstep, _, _⟩
    have hnext : run (BrokerImpl.step codec) b₀ (pre ++ [e]) = .ok (b₂, outs' ++ [as]) :=
      run_concat_ok_iff.2 ⟨b', outs', as, hpre, hstep, rfl⟩
    have hbefore := hall pre (e :: post) hsplit b' outs' hpre
    have hafter := hall (pre ++ [e]) post (by simp [hsplit]) b₂ (outs' ++ [as]) hnext
    rcases lifeInv_of_run hstart hpre with ⟨htracked, _⟩
    -- before `e` the fetch is pending, and `e` breaks that
    have hfetch := (BrokerImpl.step_fetch htracked hstep).1
    simp only [BrokerImpl.FetchStep, hevent, hlive] at hfetch
    rw [fetchHistory_concat] at hafter
    simp only [Table.has, hlive, Option.isSome_some] at hbefore
    exact not_oneOutcome_of_step hbefore hbad hfetch hafter
  · intro horderly pre post hsplit b' outs' hpre
    have hpreOrderly : Orderly codec id b₀ pre := by
      rw [hsplit] at horderly
      exact horderly.of_append
    exact (outcomeInv_of_run hstart hpreOrderly hpre).oneOutcome

/-- A reply is passed to the data handler. -/
def sampleReply : List (Event Nat) :=
  [.fetchRegister "1" (.onData 1), .fetchCallback "1" (.declared "amq.gen-1"),
    .fetchCallback "1" .consumed, .fetchCallback "1" (.received [0xc3] none)]

theorem orderly_sampleReply : Orderly Codec.small "1" (sampleFetch true) sampleReply := by
  have halong : Along (BrokerImpl.step Codec.small)
      (fun b e => ∀ o e', b.fetchers.get "1" = some o → e.toFetch "1" = some e' →
        OutcomeOk Codec.small o e') (sampleFetch true) sampleReply := by
    refine (along_cons_of_ok rfl).2 ⟨?_, (along_cons_of_ok rfl).2 ⟨?_, (along_cons_of_ok rfl).2
      ⟨?_, (along_cons_of_ok rfl).2 ⟨?_, along_nil⟩⟩⟩⟩
    · rintro o e' _ ⟨⟩
      trivial
    · rintro o e' _ ⟨⟩
      trivial
    · rintro o e' _ ⟨⟩
      trivial
    · -- the data handler was registered, and no error is pending
      rintro o e' ⟨⟩ ⟨⟩ _
      exact ⟨rfl, rfl⟩
  intro pre e post hsplit b outs o e' hrun
  exact halong pre e post b outs hsplit hrun o e'

/-- In a run in which a reply is passed to the data handler there is one outcome at most, in every
state. -/
theorem fetch_one_outcome_iff_reply :
    ∃ b outs, run (BrokerImpl.step Codec.small) (sampleFetch true) sampleReply = .ok (b, outs) ∧
      Orderly Codec.small "1" (sampleFetch true) sampleReply ∧
      ∀ pre post, sampleReply = pre ++ post → ∀ b' outs',
        run (BrokerImpl.step Codec.small) (sampleFetch true) pre = .ok (b', outs') →
          OneOutcome (b'.fetchers.has "1") (fetchHistory "1" outs') := by
  obtain ⟨⟨b, outs⟩, hrun⟩ : ∃ r,
      run (BrokerImpl.step Codec.small) (sampleFetch true) sampleReply = .ok r := ⟨_, rfl⟩
  exact ⟨b, outs, hrun, orderly_sampleReply,
    (fetch_one_outcome_iff (sampleFetch_started true) hrun).2 orderly_sampleReply⟩

/-- After a commit error the fetcher is still present, although it has reported an error. -/
theorem fetch_one_outcome_fails :
    ∃ b outs,
      FetchStarted Codec.small "1" { message := .null, routingKey := "echo.ping" } true
        (sampleFetch true) ∧
      run (BrokerImpl.step Codec.small) (sampleFetch true)
        [.fetchRegister "1" (.onError 1), .fetchCallback "1" (.declared "amq.gen-1"),
          .fetchCallback "1" (.commitError "refused")] = .ok (b, outs) ∧
      ¬ OneOutcome (b.fetchers.has "1") (fetchHistory "1" outs) := by
  obtain ⟨⟨b, outs⟩, hrun, hpresent, hany⟩ : ∃ r,
      run (BrokerImpl.step Codec.small) (sampleFetch true)
        [.fetchRegister "1" (.onError 1), .fetchCallback "1" (.declared "amq.gen-1"),
          .fetchCallback "1" (.commitError "refused")] = .ok r ∧
      r.1.fetchers.has "1" = true ∧
      (fetchHistory "1" r.2).any ObjectAction.isTerminal = true := ⟨_, rfl, rfl, rfl⟩
  refine ⟨b, outs, sampleFetch_started true, hrun, ?_⟩
  intro houtcome
  rcases List.any_eq_true.1 hany with ⟨a, ha, hterminal⟩
  have hnone := houtcome.present_iff.1 hpresent a ha
  rw [hnone] at hterminal
  cases hterminal

end Runs

end CapyAmqp
