import CapyAmqp.Deferred
import Mathlib.Data.List.Induction

/-!
# Gate — what a `Deferred` lets through to its data handler

`report_data` invokes the data handler unless the object has failed.  The constructor leaves
`failed_` uninitialised, so until the first `report_success` or `report_error` the gate stands as
the memory happens to say.  `data_gate_iff` says for which sequences of calls that can be seen.
-/

namespace CapyAmqp

variable {H P : Type}

/-- A call of a member function. -/
inductive DeferredCall (H P : Type)
  | register (r : Registration H)
  | report (r : Report P)

namespace Deferred

/-- The object after a call. -/
def call (d : Deferred H P) : DeferredCall H P → Deferred H P
  | .register r => d.register r
  | .report r => (d.report r).1

/-- The object after a sequence of calls. -/
def after (d : Deferred H P) (cs : List (DeferredCall H P)) : Deferred H P :=
  cs.foldl call d

@[simp] theorem after_nil (d : Deferred H P) : d.after [] = d := rfl

@[simp] theorem after_concat (d : Deferred H P) (cs : List (DeferredCall H P))
    (c : DeferredCall H P) : d.after (cs ++ [c]) = (d.after cs).call c := by
  simp [after]

end Deferred

/-! ## The gate, read off the calls -/

/-- A non-OK error has been reported since the last report of success. -/
def ErrorPending (cs : List (DeferredCall H P)) : Prop :=
  ∃ pre e post, cs = pre ++ .report (.error e) :: post ∧ e.toBool = true ∧
    ∀ c ∈ post, c ≠ .report .success

/-- A report that assigns `failed_`. -/
def DeferredCall.Settles : DeferredCall H P → Prop
  | .report .success => True
  | .report (.error e) => e.toBool = true
  | _ => False

/-- `failed_` has been assigned. -/
def Settled (cs : List (DeferredCall H P)) : Prop :=
  ∃ c ∈ cs, c.Settles

/-- Each `report_data` invokes the data handler, if one is registered, exactly when no error is
pending; `failed` is what the constructor leaves in `failed_`. -/
def GateOk (failed : Bool) (cs : List (DeferredCall H P)) : Prop :=
  ∀ pre parameters post, cs = pre ++ .report (.data parameters) :: post →
    ∀ handler, ((Deferred.construct .ok failed).after pre).dataHandler = some handler →
      (((Deferred.construct .ok failed).after pre).reportData parameters =
          [.data handler parameters] ↔
        ¬ ErrorPending pre)

theorem not_errorPending_nil : ¬ ErrorPending ([] : List (DeferredCall H P)) := by
  intro h
  rcases h with ⟨pre, e, post, hcs, _⟩
  simp at hcs

theorem not_errorPending_success (cs : List (DeferredCall H P)) :
    ¬ ErrorPending (cs ++ [.report .success]) := by
  intro h
  rcases h with ⟨pre, e, post, hcs, _, hpost⟩
  cases post using List.reverseRecOn with
  -- the pending error would be the last call, or a success would come after it
  | nil =>
      have hlast := congrArg List.getLast? hcs
      simp at hlast
  | append_singleton post c _ =>
      have hlast := congrArg List.getLast? hcs
      simp only [List.getLast?_append, List.getLast?_cons] at hlast
      refine hpost c (by simp) ?_
      simpa using hlast.symm

theorem errorPending_error (cs : List (DeferredCall H P)) {e : Error} (he : e.toBool = true) :
    ErrorPending (cs ++ [.report (.error e)]) :=
  ⟨cs, e, [], rfl, he, by simp⟩

/-- Any other call leaves the question as it is. -/
theorem errorPending_concat (cs : List (DeferredCall H P)) {c : DeferredCall H P}
    (hc : ¬ c.Settles) : ErrorPending (cs ++ [c]) ↔ ErrorPending cs := by
  constructor
  · rintro ⟨pre, e, post, hcs, he, hpost⟩
    cases post using List.reverseRecOn with
    | nil =>
        -- the pending error would be `c` itself
        rcases List.append_inj' hcs rfl with ⟨_, hlast⟩
        cases hlast
        exact absurd he hc
    | append_singleton post c' _ =>
        -- otherwise it comes earlier, with one call less behind it
        have hsplit : cs ++ [c] = (pre ++ .report (.error e) :: post) ++ [c'] := by
          simpa using hcs
        rcases List.append_inj' hsplit rfl with ⟨hinit, _⟩
        exact ⟨pre, e, post, hinit, he, fun x hx => hpost x (by simp [hx])⟩
  · rintro ⟨pre, e, post, rfl, he, hpost⟩
    refine ⟨pre, e, post ++ [c], by simp, he, ?_⟩
    intro x hx
    rcases List.mem_append.1 hx with hx | hx
    · exact hpost x hx
    · rcases List.mem_singleton.1 hx with rfl
      rintro rfl
      exact hc trivial

theorem settled_concat (cs : List (DeferredCall H P)) (c : DeferredCall H P) :
    Settled (cs ++ [c]) ↔ Settled cs ∨ c.Settles := by
  simp [Settled, or_and_right, exists_or]

theorem ErrorPending.settled {cs : List (DeferredCall H P)} (h : ErrorPending cs) : Settled cs := by
  rcases h with ⟨pre, e, post, rfl, he, _⟩
  exact ⟨.report (.error e), by simp, he⟩

/-! ## What `failed_` holds -/

namespace Deferred

theorem failed_call_of_not_settles (d : Deferred H P) {c : DeferredCall H P} (hc : ¬ c.Settles) :
    (d.call c).failed = d.failed := by
  cases c with
  | register r =>
      exact failed_register r
  | report r =>
      cases r with
      | data parameters => rfl
      | success => exact absurd trivial hc
      | error e =>
          have he : e.toBool = false := by
            simpa [DeferredCall.Settles] using hc
          simp [call, report, reportError, he]

/-- The gate is closed by a pending error, or by what the memory held to begin with. -/
theorem failed_after_iff (error : Error) (failed : Bool) (cs : List (DeferredCall H P)) :
    ((construct error failed).after cs).failed = true ↔
      ErrorPending cs ∨ (¬ Settled cs ∧ failed = true) := by
  induction cs using List.reverseRecOn with
  | nil =>
      simp [not_errorPending_nil, Settled, construct]
  | append_singleton cs c ih =>
      rw [after_concat, settled_concat]
      by_cases hc : c.Settles
      · -- the call assigns `failed_`, whatever it was before
        cases c with
        | register r => cases hc
        | report r =>
            cases r with
            | data parameters => cases hc
            | success =>
                simp [call, report, not_errorPending_success, DeferredCall.Settles]
            | error e =>
                have hfailed : (((construct error failed).after cs).call
                    (.report (.error e))).failed = true := failed_reportError hc
                simp [hfailed, errorPending_error cs hc]
      -- the call leaves `failed_` and the question alone
      · rw [failed_call_of_not_settles _ hc, ih, errorPending_concat cs hc]
        simp [hc]

@[simp] theorem dataHandler_call_report (d : Deferred H P) (r : Report P) :
    (d.call (.report r)).dataHandler = d.dataHandler := by
  cases r with
  | error e => exact dataHandler_reportError
  | _ => rfl

/-- A data handler is registered once `on_data` has been called. -/
theorem dataHandler_after_iff (error : Error) (failed : Bool) (cs : List (DeferredCall H P)) :
    (∃ handler, ((construct error failed).after cs).dataHandler = some handler) ↔
      ∃ handler, .register (.onData handler) ∈ cs := by
  induction cs using List.reverseRecOn with
  | nil =>
      simp [construct]
  | append_singleton cs c ih =>
      rw [after_concat]
      cases c with
      | report r =>
          simpa using ih
      | register r =>
          cases r with
          | onData callback => simp [call, register, onData]
          | _ => simpa [call, register, onSuccess, onError, onFinalize] using ih

theorem reportData_eq_iff {d : Deferred H P} {handler : H} (hd : d.dataHandler = some handler)
    (parameters : P) :
    d.reportData parameters = [.data handler parameters] ↔ ¬ d.failed = true := by
  cases hfailed : d.failed with
  | false => simp [reportData_of_open hfailed hd]
  | true => simp [reportData_of_failed hfailed]

end Deferred

/-! ## When the gate can be relied on -/

/-- The gate shows what the memory held exactly if that was not `false` and some `report_data`
with a registered data handler comes before the first report of success or of an error. -/
theorem data_gate_iff (failed : Bool) (cs : List (DeferredCall H P)) :
    GateOk failed cs ↔
      failed = false ∨
        ∀ pre parameters post, cs = pre ++ .report (.data parameters) :: post →
          (∃ handler, .register (.onData handler) ∈ pre) → Settled pre := by
  -- one report goes wrong only if memory held true and nothing has settled the gate
  have hreport : ∀ (pre : List (DeferredCall H P)) (parameters : P) (handler : H),
      ((Deferred.construct .ok failed).after pre).dataHandler = some handler →
      ((((Deferred.construct .ok failed).after pre).reportData parameters =
          [.data handler parameters] ↔ ¬ ErrorPending pre) ↔
        (failed = true → Settled pre)) := by
    intro pre parameters handler hd
    have hsettled : ErrorPending pre → Settled pre := ErrorPending.settled
    rw [Deferred.reportData_eq_iff hd, Deferred.failed_after_iff]
    tauto
  constructor
  · intro h
    cases hfailed : failed with
    | false => exact Or.inl rfl
    | true =>
        refine Or.inr ?_
        intro pre parameters post hcs hregistered
        rcases (Deferred.dataHandler_after_iff .ok failed pre).2 hregistered with ⟨handler, hd⟩
        exact (hreport pre parameters handler hd).1 (h pre parameters post hcs handler hd) hfailed
  · intro h pre parameters post hcs handler hd
    refine (hreport pre parameters handler hd).2 ?_
    intro hfailed
    rcases h with hopen | hall
    · rw [hfailed] at hopen
      cases hopen
    · exact hall pre parameters post hcs
        ((Deferred.dataHandler_after_iff .ok failed pre).1 ⟨handler, hd⟩)

/-- When the memory holds `true`, the first data that arrives is dropped. -/
theorem data_dropped_by_memory :
    ¬ ∀ (failed : Bool) (cs : List (DeferredCall Nat Bool)), GateOk failed cs := by
  intro h
  have hgate := h true [.register (.onData 1), .report (.data true)] [.register (.onData 1)] true []
    rfl 1 rfl
  have hempty : ((Deferred.construct .ok true).after
      [.register (.onData 1)] : Deferred Nat Bool).reportData true = [] := rfl
  rw [hempty] at hgate
  have hpending := (Deferred.failed_after_iff (H := Nat) (P := Bool) .ok false
    [.register (.onData 1)]).2
  -- nothing but a registration has been called
  have hclosed : ¬ ErrorPending [(.register (.onData 1) : DeferredCall Nat Bool)] := by
    intro herror
    have hfailed := hpending (Or.inl herror)
    cases hfailed
  cases hgate.2 hclosed

end CapyAmqp
