import CapyAmqp.Broker.ConnectionCache

/-!
# OneConnection — every thread has a connection of its own

`has` and `set` are separate steps, so between them the entry that was missing could be there.  No
other thread writes under the id of this one, though: each step of a thread leaves the entries of
the others and the connections that exist alone (`Guarantees`).  So what a thread has found out
about its entry stays true (`Assertion`), however the threads are interleaved.
-/

namespace CapyAmqp

open Lib

/-- The connection that a step constructs. -/
def ConnectionOutput.made? : ConnectionOutput → Option Ptr
  | .constructed connection => some connection
  | _ => none

/-- The connections that a thread has constructed. -/
def madeIn (as : List ConnectionOutput) : List Ptr :=
  as.filterMap ConnectionOutput.made?

namespace ConnectionCache

variable {K : Type}

/-- The connection has not ended. -/
def Lives (s : ConnectionCache K) (connection : Ptr) : Prop :=
  ∃ o, s.objects.read connection = some o

variable [DecidableEq K] (hash : K → Nat)

/-! ## What a step does to the others -/

/-- What a step of the thread `id` leaves to the other threads. -/
structure Guarantees (id : K) (s s' : ConnectionCache K) : Prop where
  lasting : s'.connections.Lasting hash
  others : ∀ k, k ≠ id → (s'.connections.table hash).get k = (s.connections.table hash).get k
  live : ∀ c, s.Lives c → s'.Lives c

section Steps

variable {hash} {s s' : ConnectionCache K} {id : K} {call : ConnectionCall} {connection : Ptr}
  {phase phase' : ConnectionPhase} {output : ConnectionOutput} {m : ConnectionMove}

omit [DecidableEq K] in
/-- A thread that uses its connection is done, and no connection begins or ends. -/
theorem use_cases (h : s.use call connection = .ok (s', phase', output)) :
    s.Lives connection ∧ phase' = .idle ∧ output.connection = some connection ∧
      output.made? = none ∧ s'.connections = s.connections ∧ s'.objects.next = s.objects.next ∧
      ∀ c, s.Lives c → s'.Lives c := by
  cases hread : s.objects.read connection with
  | none => simp [use, hread] at h
  | some o =>
      have hmodify : ∀ (f : Connection → Connection) c, s.Lives c →
          ∃ o, (s.objects.modify connection f).read c = some o := by
        rintro f c ⟨o', ho'⟩
        exact ⟨_, Heap.exists_read_modify ho'⟩
      cases call with
      | newChannel =>
          simp only [use, hread, Except.ok.injEq, Prod.mk.injEq] at h
          rcases h with ⟨rfl, rfl, rfl⟩
          exact ⟨⟨o, hread⟩, rfl, rfl, rfl, rfl, rfl, fun _ hlive => hlive⟩
      | setDeferred aDeferred =>
          simp only [use, hread, Except.ok.injEq, Prod.mk.injEq] at h
          rcases h with ⟨rfl, rfl, rfl⟩
          exact ⟨⟨o, hread⟩, rfl, rfl, rfl, rfl, rfl, hmodify _⟩
      | resetDeferred =>
          simp only [use, hread, Except.ok.injEq, Prod.mk.injEq] at h
          rcases h with ⟨rfl, rfl, rfl⟩
          exact ⟨⟨o, hread⟩, rfl, rfl, rfl, rfl, rfl, hmodify _⟩

theorem look_cases (hlasting : s.connections.Lasting hash) {now : Int}
    (h : s.look hash id call now = .ok (s', phase', output)) :
    ∃ c, (s.connections.table hash).get id = some c ∧
      s' = { s with connections := (s.connections.get hash id now).1 } ∧
      phase' = .holding call c ∧ output = .looked c := by
  have hresult := (hlasting.get id now).1
  simp only [look, hresult] at h
  cases hget : (s.connections.table hash).get id with
  | none => simp [hget] at h
  | some c =>
      simp only [hget, Except.ok.injEq, Prod.mk.injEq] at h
      exact ⟨c, rfl, h.1.symm, h.2.1.symm, h.2.2.symm⟩

/-- `has` answers what the table says. -/
theorem ask_of_none (hlasting : s.connections.Lasting hash)
    (h : (s.connections.table hash).get id = none) (call : ConnectionCall) (now : Int) :
    (s.ask hash id call now).2.1 = .missing call := by
  have hfound : (s.connections.has hash id now).2 = false := by
    simp [(hlasting.has id now).1, Table.has, h]
  simp [ask, hfound]

theorem ask_of_some (hlasting : s.connections.Lasting hash)
    (h : (s.connections.table hash).get id = some connection) (call : ConnectionCall) (now : Int) :
    (s.ask hash id call now).2.1 = .present call := by
  have hfound : (s.connections.has hash id now).2 = true := by
    simp [(hlasting.has id now).1, Table.has, h]
  simp [ask, hfound]

/-- From here on `get` finds what has been made. -/
theorem get_store (hlasting : s.connections.Lasting hash) (id : K) (call : ConnectionCall)
    (connection : Ptr) :
    ((s.store hash id call connection).1.connections.table hash).get id = some connection := by
  have htable : (s.store hash id call connection).1.connections.table hash =
      (s.connections.table hash).set id connection := (hlasting.set id connection).1
  rw [htable, Table.get_set_self]

theorem step_guarantees (hlasting : s.connections.Lasting hash)
    (h : s.step hash id phase m = .ok (s', phase', output)) : Guarantees hash id s s' := by
  unfold step at h
  split at h
  case h_1 call now =>
    cases h
    rcases hlasting.has id now with ⟨_, htable, hlasting'⟩
    refine ⟨hlasting', ?_, fun _ hlive => hlive⟩
    intro k _
    exact congrArg (fun t => t.get k) htable
  case h_2 call now =>
    cases h
    refine ⟨hlasting, fun _ _ => rfl, ?_⟩
    -- the new connection is none of those that exist
    rintro c ⟨o, ho⟩
    exact ⟨o, Heap.read_alloc_of_read ho⟩
  case h_3 call connection now =>
    cases h
    rcases hlasting.set id connection with ⟨htable, hlasting'⟩
    refine ⟨hlasting', ?_, fun _ hlive => hlive⟩
    intro k hk
    exact (congrArg (fun t => t.get k) htable).trans (Table.get_set_of_ne _ _ hk)
  case h_4 call now =>
    rcases hlasting.get id now with ⟨_, htable, hlasting'⟩
    rcases look_cases hlasting h with ⟨c, _, rfl, _, _⟩
    refine ⟨hlasting', ?_, fun _ hlive => hlive⟩
    intro k _
    exact congrArg (fun t => t.get k) htable
  case h_5 call connection now =>
    rcases use_cases h with ⟨_, _, _, _, hconnections, _, hlive⟩
    exact ⟨hconnections ▸ hlasting, fun k _ => by rw [hconnections], hlive⟩
  case h_6 => cases h

end Steps

/-! ## What a thread knows -/

/-- The thread has constructed `connection` and worked on no other. -/
structure Bound (s : ConnectionCache K) (connection : Ptr) (as : List ConnectionOutput) : Prop where
  made : madeIn as = [connection]
  only : ∀ a ∈ as, ∀ c, a.connection = some c → c = connection
  live : s.Lives connection

/-- The thread has no entry and has not worked on a connection. -/
def Vacant (id : K) (s : ConnectionCache K) (as : List ConnectionOutput) : Prop :=
  (s.connections.table hash).get id = none ∧ ∀ a ∈ as, a.connection = none

/-- The entry of the thread is its connection. -/
def Stored (id : K) (s : ConnectionCache K) (connection : Ptr) (as : List ConnectionOutput) : Prop :=
  (s.connections.table hash).get id = some connection ∧ s.Bound connection as

/-- What holds of a thread, from where it stands and what it has done. -/
def Assertion (id : K) (s : ConnectionCache K) : ConnectionPhase → List ConnectionOutput → Prop
  | .idle, as => Vacant hash id s as ∨ ∃ connection, Stored hash id s connection as
  | .missing _, as => Vacant hash id s as
  | .made _ connection, as =>
      (s.connections.table hash).get id = none ∧ s.Bound connection as
  | .present _, as => ∃ connection, Stored hash id s connection as
  | .holding _ connection, as => Stored hash id s connection as

section Assertion

variable {hash} {s s' : ConnectionCache K} {id k : K} {connection : Ptr}
  {phase phase' : ConnectionPhase} {output : ConnectionOutput} {m : ConnectionMove}
  {as : List ConnectionOutput}

omit [DecidableEq K] in
theorem Bound.concat (h : s.Bound connection as) (hmade : output.made? = none)
    (honly : ∀ c, output.connection = some c → c = connection)
    (hlive : ∀ c, s.Lives c → s'.Lives c) : s'.Bound connection (as ++ [output]) := by
  refine ⟨?_, ?_, hlive _ h.live⟩
  · simpa [madeIn, hmade] using h.made
  · intro a ha
    rcases List.mem_append.1 ha with ha | ha
    · exact h.only a ha
    · rcases List.mem_singleton.1 ha with rfl
      exact honly

omit [DecidableEq K] in
/-- The first connection that a thread makes is the one it is bound to. -/
theorem bound_made (h : ∀ a ∈ as, a.connection = none) (hlive : s.Lives connection) :
    s.Bound connection (as ++ [.constructed connection]) := by
  have hnone : madeIn as = [] := by
    refine List.filterMap_eq_nil_iff.2 ?_
    intro a ha
    cases a with
    | constructed c => cases h _ ha
    | _ => rfl
  refine ⟨by simp [madeIn, ConnectionOutput.made?] at hnone ⊢; exact hnone, ?_, hlive⟩
  intro a ha c hc
  rcases List.mem_append.1 ha with ha | ha
  · rw [h a ha] at hc
    cases hc
  · rcases List.mem_singleton.1 ha with rfl
    exact (Option.some.inj hc).symm

omit [DecidableEq K] in
theorem Bound.mono (h : s.Bound connection as) (hlive : ∀ c, s.Lives c → s'.Lives c) :
    s'.Bound connection as :=
  ⟨h.made, h.only, hlive _ h.live⟩

/-- What is known of another thread is not disturbed. -/
theorem Assertion.frame (h : Assertion hash k s phase as) (hg : Guarantees hash id s s')
    (hk : k ≠ id) : Assertion hash k s' phase as := by
  have hentry := hg.others k hk
  have hstored : ∀ c, Stored hash k s c as → Stored hash k s' c as := by
    rintro c ⟨hget, hbound⟩
    exact ⟨hentry.trans hget, hbound.mono hg.live⟩
  cases phase with
  | idle =>
      rcases h with ⟨hget, hnone⟩ | ⟨c, hc⟩
      · exact Or.inl ⟨hentry.trans hget, hnone⟩
      · exact Or.inr ⟨c, hstored c hc⟩
  | missing call =>
      exact ⟨hentry.trans h.1, h.2⟩
  | made call c =>
      exact ⟨hentry.trans h.1, h.2.mono hg.live⟩
  | present call =>
      rcases h with ⟨c, hc⟩
      exact ⟨c, hstored c hc⟩
  | holding call c =>
      exact hstored c h

/-- A step of the thread brings it from one assertion to the next. -/
theorem Assertion.step (h : Assertion hash id s phase as)
    (hlasting : s.connections.Lasting hash)
    (hstep : s.step hash id phase m = .ok (s', phase', output)) :
    Assertion hash id s' phase' (as ++ [output]) := by
  have hlive := (step_guarantees hlasting hstep).live
  unfold ConnectionCache.step at hstep
  split at hstep
  case h_1 call now =>
    cases hstep
    have hentry : ((s.ask hash id call now).1.connections.table hash).get id =
        (s.connections.table hash).get id :=
      congrArg (fun t => t.get id) (hlasting.has id now).2.1
    show Assertion hash id (s.ask hash id call now).1 (s.ask hash id call now).2.1 _
    rcases h with ⟨hget, hnone⟩ | ⟨c, hget, hbound⟩
    · -- there is no entry, and `has` says so
      rw [ask_of_none hlasting hget]
      refine ⟨hentry.trans hget, ?_⟩
      intro a ha
      rcases List.mem_append.1 ha with ha | ha
      · exact hnone a ha
      · rcases List.mem_singleton.1 ha with rfl
        rfl
    · rw [ask_of_some hlasting hget]
      refine ⟨c, hentry.trans hget, hbound.concat rfl ?_ hlive⟩
      intro c' hc'
      cases hc'
  case h_2 call now =>
    cases hstep
    exact ⟨h.1, bound_made h.2 ⟨_, Heap.read_alloc_next _ _⟩⟩
  case h_3 call c now =>
    cases hstep
    have hget := get_store hlasting id call c
    have hbound : (s.store hash id call c).1.Bound c (as ++ [(s.store hash id call c).2.2]) := by
      refine h.2.concat rfl ?_ hlive
      intro c' hc'
      cases hc'
    cases call with
    | newChannel => exact ⟨hget, hbound⟩
    | setDeferred aDeferred => exact ⟨c, hget, hbound⟩
    | resetDeferred => exact ⟨c, hget, hbound⟩
  case h_4 call now =>
    rcases h with ⟨c, hget, hbound⟩
    rcases look_cases hlasting hstep with ⟨c', hget', rfl, rfl, rfl⟩
    rcases Option.some.inj (hget.symm.trans hget') with rfl
    have htable := (hlasting.get id now).2.1
    refine ⟨(congrArg (fun t => t.get id) htable).trans hget, hbound.concat rfl ?_ hlive⟩
    intro c' hc'
    exact (Option.some.inj hc').symm
  case h_5 call c now =>
    rcases use_cases hstep with ⟨_, rfl, hconnection, hmade, hconnections, _, _⟩
    refine Or.inr ⟨c, ?_, h.2.concat hmade ?_ hlive⟩
    · rw [hconnections]
      exact h.1
    · intro c' hc'
      exact Option.some.inj (hc'.symm.trans hconnection)
  case h_6 => cases hstep

/-- A thread that stands where its assertion holds neither meets an empty pointer nor an ended
connection. -/
theorem Assertion.error (h : Assertion hash id s phase as)
    (hlasting : s.connections.Lasting hash) {f : Fault} (hstep : s.step hash id phase m = .error f) :
    f = .disabled := by
  unfold ConnectionCache.step at hstep
  split at hstep
  case h_1 => cases hstep
  case h_2 => cases hstep
  case h_3 => cases hstep
  case h_4 call now =>
    rcases h with ⟨c, hget, _⟩
    have hresult := (hlasting.get id now).1
    simp [look, hresult, hget] at hstep
  case h_5 call c now =>
    rcases h.2.live with ⟨o, hread⟩
    cases call <;> simp [use, hread] at hstep
  case h_6 =>
    cases hstep
    rfl

end Assertion

/-! ## Connections are distinct -/

section Distinct

variable {hash} {s s' : ConnectionCache K} {id : K} {phase phase' : ConnectionPhase}
  {output : ConnectionOutput} {m : ConnectionMove}

/-- A pointer that a step hands out is the frontier of the heap, which then moves past it. -/
theorem step_next (h : s.step hash id phase m = .ok (s', phase', output)) :
    (output.made? = none ∧ s'.objects.next = s.objects.next) ∨
      (output.made? = some s.objects.next ∧ s'.objects.next = s.objects.next + 1) := by
  unfold step at h
  split at h
  case h_1 =>
    cases h
    exact Or.inl ⟨rfl, rfl⟩
  case h_2 =>
    cases h
    exact Or.inr ⟨rfl, rfl⟩
  case h_3 =>
    cases h
    exact Or.inl ⟨rfl, rfl⟩
  case h_4 call now =>
    simp only [look] at h
    split at h
    · cases h
    · cases h
      exact Or.inl ⟨rfl, rfl⟩
  case h_5 call c now =>
    rcases use_cases h with ⟨_, _, _, hmade, _, hnext, _⟩
    exact Or.inl ⟨hmade, hnext⟩
  case h_6 => cases h

end Distinct

section Runs

variable {T : Type} [DecidableEq T] {hash} {id : T → K} {moves : List (T × ConnectionMove)}
  {c : Threads T (ConnectionCache K) ConnectionPhase} {outs : List (T × ConnectionOutput)}

/-- The connections that have been constructed, each with the thread that did. -/
def constructions (outs : List (T × ConnectionOutput)) : List (T × Ptr) :=
  outs.filterMap fun o => o.2.made?.map (Prod.mk o.1)

omit [DecidableEq K] [DecidableEq T] in
theorem mem_constructions {t : T} {connection : Ptr} :
    (t, connection) ∈ constructions outs ↔ (t, .constructed connection) ∈ outs := by
  constructor
  · intro h
    rcases List.mem_filterMap.1 h with ⟨⟨t', output⟩, hmem, hsome⟩
    cases output with
    | constructed connection' =>
        cases hsome
        exact hmem
    | _ => cases hsome
  · intro h
    exact List.mem_filterMap.2 ⟨_, h, rfl⟩

theorem constructions_nodup
    (hrun : run (Threads.move (threadStep hash id)) start moves = .ok (c, outs)) :
    ((constructions outs).map Prod.snd).Nodup ∧
      ∀ connection ∈ (constructions outs).map Prod.snd, connection < c.shared.objects.next := by
  refine run_history (P := fun c _ outs => ((constructions outs).map Prod.snd).Nodup ∧
    ∀ connection ∈ (constructions outs).map Prod.snd, connection < c.shared.objects.next)
    ⟨List.nodup_nil, by simp [constructions]⟩ ?_ hrun
  intro ms c₁ c₂ outs m o _ hP hmove
  rcases hP with ⟨hnodup, hbound⟩
  rcases Threads.move_ok_iff.1 hmove with ⟨s, phase, output, hstep, rfl, rfl⟩
  have hconcat : constructions (outs ++ [(m.1, output)]) =
      constructions outs ++ (output.made?.map (Prod.mk m.1)).toList := by
    simp [constructions, List.filterMap_append, List.filterMap_cons]
    cases output.made? <;> rfl
  rw [hconcat, List.map_append]
  rcases step_next hstep with ⟨hmade, hnext⟩ | ⟨hmade, hnext⟩
  · simp only [hmade, Option.map_none, Option.toList_none, List.map_nil, List.append_nil, hnext]
    exact ⟨hnodup, hbound⟩
  · refine ⟨?_, ?_⟩
    · refine List.nodup_append.2 ⟨hnodup, by simp [hmade], ?_⟩
      intro x hx y hy hxy
      have hnew : y = c₁.shared.objects.next := by
        simpa [hmade] using hy
      rw [hxy, hnew] at hx
      exact Nat.lt_irrefl _ (hbound _ hx)
    · intro x hx
      simp only [hnext]
      rcases List.mem_append.1 hx with hx | hx
      · exact Nat.lt_succ_of_lt (hbound x hx)
      · have hnew : x = c₁.shared.objects.next := by
          simpa [hmade] using hx
        rw [hnew]
        exact Nat.lt_succ_self _

/-- A connection is constructed once, so by one thread. -/
theorem made_by_one
    (hrun : run (Threads.move (threadStep hash id)) start moves = .ok (c, outs)) {t t' : T}
    {connection : Ptr} (ht : madeIn (Threads.outputsOf t outs) = [connection])
    (ht' : madeIn (Threads.outputsOf t' outs) = [connection]) : t = t' := by
  have hconstructed : ∀ u, madeIn (Threads.outputsOf u outs) = [connection] →
      (u, connection) ∈ constructions outs := by
    intro u hu
    have hmem : connection ∈ madeIn (Threads.outputsOf u outs) := by
      simp [hu]
    rcases List.mem_filterMap.1 hmem with ⟨output, houtput, hsome⟩
    cases output with
    | constructed connection' =>
        cases hsome
        exact mem_constructions.2 (Threads.mem_outputsOf.1 houtput)
    | _ => cases hsome
  have hnodup := (constructions_nodup hrun).1
  have hpair := List.inj_on_of_nodup_map hnodup (hconstructed t ht) (hconstructed t' ht') rfl
  exact congrArg Prod.fst hpair

/-- Every thread is where its assertion holds. -/
theorem assertion_of_run (hid : Function.Injective id)
    (hrun : run (Threads.move (threadStep hash id)) start moves = .ok (c, outs)) :
    c.shared.connections.Lasting hash ∧
      ∀ t, Assertion hash (id t) c.shared (c.phase t) (Threads.outputsOf t outs) := by
  have hinit : (construct : ConnectionCache K).connections.Lasting hash ∧
      ∀ t : T, Assertion hash (id t) construct .idle [] := by
    refine ⟨Cache.lasting_construct hash, ?_⟩
    intro t
    refine Or.inl ⟨?_, by simp⟩
    simp [Table.get, Cache.table, construct, Cache.construct]
  refine Threads.run_interference_free (I := fun s => s.connections.Lasting hash)
    (J := fun t => Assertion hash (id t)) hinit ?_ ?_ ?_ hrun
  · intro t s s' phase phase' m output as hI _ hstep
    exact (step_guarantees hI hstep).lasting
  · intro t s s' phase phase' m output as hI hJ hstep
    exact hJ.step hI hstep
  · intro t t' s s' phase phase' phase₁ m output as as₁ ht hI _ hJ₁ hstep
    -- the other thread goes by another id
    exact hJ₁.frame (step_guarantees hI hstep) (hid.ne ht)

/-- A thread that has worked on a connection has constructed that one and no other. -/
theorem Assertion.madeIn {s : ConnectionCache K} {k : K} {phase : ConnectionPhase}
    {as : List ConnectionOutput} (h : Assertion hash k s phase as) :
    (∀ a ∈ as, a.connection = none) ∨
      ∃ connection, CapyAmqp.madeIn as = [connection] ∧
        ∀ a ∈ as, ∀ c, a.connection = some c → c = connection := by
  cases phase with
  | idle =>
      rcases h with ⟨_, hnone⟩ | ⟨c, _, hbound⟩
      · exact Or.inl hnone
      · exact Or.inr ⟨c, hbound.made, hbound.only⟩
  | missing call => exact Or.inl h.2
  | made call c => exact Or.inr ⟨c, h.2.made, h.2.only⟩
  | present call =>
      rcases h with ⟨c, _, hbound⟩
      exact Or.inr ⟨c, hbound.made, hbound.only⟩
  | holding call c => exact Or.inr ⟨c, h.2.made, h.2.only⟩

end Runs

end ConnectionCache

/-! ## One connection for each thread -/

variable {T K : Type} [DecidableEq T] [DecidableEq K]

/-- The thread constructs the connection, looks it up, or uses it for a channel or a slot. -/
def WorksOn (outs : List (T × ConnectionOutput)) (t : T) (connection : Ptr) : Prop :=
  ∃ output, (t, output) ∈ outs ∧ output.connection = some connection

/-- Every thread has one connection.  In every interleaving of the steps of threads with different
ids, no lookup comes back empty and no connection is used after its end; a thread constructs at most
one connection, works on the one it has constructed only, and no other thread works on it. -/
theorem one_connection_per_thread (hash : K → Nat) {id : T → K} (hid : Function.Injective id)
    (moves : List (T × ConnectionMove)) :
    (∀ f, run (Threads.move (ConnectionCache.threadStep hash id)) ConnectionCache.start moves =
      .error f → f = .disabled) ∧
    ∀ c outs,
      run (Threads.move (ConnectionCache.threadStep hash id)) ConnectionCache.start moves =
        .ok (c, outs) →
      (∀ t, (madeIn (Threads.outputsOf t outs)).length ≤ 1) ∧
      (∀ t connection, WorksOn outs t connection →
        madeIn (Threads.outputsOf t outs) = [connection]) ∧
      ∀ t t' connection, WorksOn outs t connection → WorksOn outs t' connection → t = t' := by
  constructor
  · intro f hrun
    rcases run_error_iff.1 hrun with ⟨pre, m, post, c, outs, rfl, hpre, hmove⟩
    rcases ConnectionCache.assertion_of_run hid hpre with ⟨hlasting, hall⟩
    exact (hall m.1).error hlasting (Threads.move_error_iff.1 hmove)
  · intro c outs hrun
    rcases ConnectionCache.assertion_of_run hid hrun with ⟨_, hall⟩
    have hmade : ∀ t connection, WorksOn outs t connection →
        madeIn (Threads.outputsOf t outs) = [connection] := by
      rintro t connection ⟨output, hmem, hconnection⟩
      have hmem' := Threads.mem_outputsOf.2 hmem
      rcases (hall t).madeIn with hnone | ⟨connection', hmade, honly⟩
      · rw [hnone output hmem'] at hconnection
        cases hconnection
      · rw [honly output hmem' connection hconnection]
        exact hmade
    refine ⟨?_, hmade, ?_⟩
    · intro t
      rcases (hall t).madeIn with hnone | ⟨connection, hmade', _⟩
      · have hempty : madeIn (Threads.outputsOf t outs) = [] := by
          refine List.filterMap_eq_nil_iff.2 ?_
          intro a ha
          cases a with
          | constructed connection => cases hnone _ ha
          | _ => rfl
        simp [hempty]
      · simp [hmade']
    · intro t t' connection ht ht'
      exact ConnectionCache.made_by_one hrun (hmade t connection ht) (hmade t' connection ht')

/-- Two threads whose ids fall into one shard; both ask before either has stored a connection. -/
def sampleMoves : List (Bool × ConnectionMove) :=
  [(false, .call .newChannel 0), (true, .call (.setDeferred 5) 0), (false, .proceed 0),
    (true, .proceed 0), (true, .proceed 0), (false, .proceed 0), (true, .proceed 0),
    (false, .proceed 0), (true, .proceed 0)]

theorem one_connection_for_two_threads :
    ∃ c outs,
      run (Threads.move (ConnectionCache.threadStep (fun n : Nat => n)
        fun t : Bool => if t then 263 else 7)) ConnectionCache.start sampleMoves = .ok (c, outs) ∧
      WorksOn outs false 0 ∧ WorksOn outs true 1 ∧ ¬ WorksOn outs true 0 := by
  have hid : Function.Injective fun t : Bool => if t then 263 else 7 := by
    decide
  have houts : (run (Threads.move (ConnectionCache.threadStep (fun n : Nat => n)
      fun t : Bool => if t then 263 else 7)) ConnectionCache.start sampleMoves).map Prod.snd =
        .ok [(false, .asked false), (true, .asked false), (false, .constructed 0),
          (true, .constructed 1), (true, .stored), (false, .stored), (true, .looked 1),
          (false, .channel 0), (true, .slot 1 (some 5))] := rfl
  rcases ok_of_map houts with ⟨⟨c, outs⟩, hrun, rfl⟩
  have hthreads := ((one_connection_per_thread _ hid sampleMoves).2 c _ hrun).2.2
  have hfalse : WorksOn [(false, .asked false), (true, .asked false), (false, .constructed 0),
      (true, .constructed 1), (true, .stored), (false, .stored), (true, .looked 1),
      (false, .channel 0), (true, .slot 1 (some 5))] false 0 := ⟨.channel 0, by simp, rfl⟩
  refine ⟨c, _, hrun, hfalse, ⟨.looked 1, by simp, rfl⟩, ?_⟩
  intro htrue
  cases hthreads false true 0 hfalse htrue

end CapyAmqp
