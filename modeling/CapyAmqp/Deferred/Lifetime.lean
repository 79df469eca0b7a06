import CapyAmqp.Deferred.Gate

/-!
# Lifetime — the handlers that a `Deferred` invokes from its construction to its end

The constructor's error, the argument of `report_error` and the error that the destructor looks for
share the member `error_`.  `Deferred.lifetime` is the log of all handler calls; what it says about
errors and about the finalize handler is compared with the calls that were made, read on their own
(`lastOnError`, `reportedErrors`, `lastOnFinalize`).
-/

namespace CapyAmqp

variable {H P : Type}

/-- The handler and the error of a call of an error handler. -/
def Call.toError : Call H P → Option (H × Error)
  | .error handler e => some (handler, e)
  | _ => none

/-! ## What the calls of the member functions say -/

def DeferredCall.onError? : DeferredCall H P → Option H
  | .register (.onError callback) => some callback
  | _ => none

def DeferredCall.onFinalize? : DeferredCall H P → Option H
  | .register (.onFinalize callback) => some callback
  | _ => none

def DeferredCall.isErrorReport : DeferredCall H P → Bool
  | .report (.error _) => true
  | _ => false

/-- The error handler that has been registered last. -/
def lastOnError (cs : List (DeferredCall H P)) : Option H :=
  cs.reverse.findSome? DeferredCall.onError?

/-- The finalize handler that has been registered last. -/
def lastOnFinalize (cs : List (DeferredCall H P)) : Option H :=
  cs.reverse.findSome? DeferredCall.onFinalize?

/-- `report_error` has been called, with whatever error. -/
def errorReplaced (cs : List (DeferredCall H P)) : Bool :=
  cs.any DeferredCall.isErrorReport

/-- One entry for each report of an error that is one: the error, and the handler of that moment if
there is any.  The handler that is registered to begin with is `handler`. -/
def reportedErrors (handler : Option H) : List (DeferredCall H P) → List (H × Error)
  | [] => []
  | .register (.onError callback) :: cs => reportedErrors (some callback) cs
  | .report (.error e) :: cs =>
      (if e.toBool then handler.toList.map fun h => (h, e) else []) ++ reportedErrors handler cs
  | _ :: cs => reportedErrors handler cs

/-- The construction error, if it is one and has not been replaced, with the last handler. -/
def constructionError (error : Error) (cs : List (DeferredCall H P)) : List (H × Error) :=
  if error.toBool && !errorReplaced cs then (lastOnError cs).toList.map fun h => (h, error) else []

/-! ## The log -/

namespace Deferred

/-- The handlers that a call invokes. -/
def invoked (d : Deferred H P) : DeferredCall H P → List (Call H P)
  | .register _ => []
  | .report r => (d.report r).2

/-- The handlers that a sequence of calls invokes. -/
def invokedBy (d : Deferred H P) : List (DeferredCall H P) → List (Call H P)
  | [] => []
  | c :: cs => d.invoked c ++ (d.call c).invokedBy cs

/-- The handlers that are invoked from the construction, over the calls, to the destruction. -/
def lifetime (error : Error) (failed : Bool) (cs : List (DeferredCall H P)) : List (Call H P) :=
  (construct error failed).invokedBy cs ++ ((construct error failed).after cs).destroy

/-! ## The members that the destructor reads -/

section Members

variable (d : Deferred H P) (error : Error) (failed : Bool)

theorem errorHandler_call (c : DeferredCall H P) :
    (d.call c).errorHandler = c.onError?.or d.errorHandler := by
  cases c with
  | register r =>
      cases r <;> rfl
  | report r =>
      cases r with
      | error e => exact errorHandler_reportError
      | _ => rfl

theorem finalizeHandler_reportError (e : Error) :
    (d.reportError e).1.finalizeHandler = d.finalizeHandler := by
  unfold reportError
  split <;> rfl

theorem finalizeHandler_call (c : DeferredCall H P) :
    (d.call c).finalizeHandler = c.onFinalize?.or d.finalizeHandler := by
  cases c with
  | register r =>
      cases r <;> rfl
  | report r =>
      cases r with
      | error e => exact finalizeHandler_reportError d e
      | _ => rfl

/-- A member that the calls assign holds what the last of them has assigned. -/
theorem member_after {α : Type} {member : Deferred H P → Option α}
    {assigns : DeferredCall H P → Option α}
    (hcall : ∀ d c, member (d.call c) = (assigns c).or (member d)) (cs : List (DeferredCall H P)) :
    member (d.after cs) = (cs.reverse.findSome? assigns).or (member d) := by
  induction cs using List.reverseRecOn with
  | nil => rfl
  | append_singleton cs c ih =>
      rw [after_concat, hcall, ih]
      cases h : assigns c <;> simp [h]

theorem errorHandler_after (cs : List (DeferredCall H P)) :
    ((construct error failed).after cs).errorHandler = lastOnError cs :=
  (member_after _ errorHandler_call cs).trans (Option.or_none)

theorem finalizeHandler_after (cs : List (DeferredCall H P)) :
    ((construct error failed).after cs).finalizeHandler = lastOnFinalize cs :=
  (member_after _ finalizeHandler_call cs).trans (Option.or_none)

/-- After any `report_error` the member holds no error. -/
theorem toBool_error_reportError (e : Error) : (d.reportError e).1.error.toBool = false := by
  unfold reportError
  split
  · rfl
  · rename_i hok
    simpa using hok

theorem error_call_of_not_report {c : DeferredCall H P} (hc : c.isErrorReport = false) :
    (d.call c).error = d.error := by
  cases c with
  | register r => exact error_register r
  | report r =>
      cases r with
      | error e => cases hc
      | _ => rfl

/-- What the member holds is the construction error, or nothing to report. -/
theorem error_after (cs : List (DeferredCall H P)) :
    if errorReplaced cs then ((construct error failed).after cs).error.toBool = false
    else ((construct error failed).after cs).error = error := by
  induction cs using List.reverseRecOn with
  | nil => rfl
  | append_singleton cs c ih =>
      have hreplaced : errorReplaced (cs ++ [c]) = (errorReplaced cs || c.isErrorReport) := by
        simp [errorReplaced]
      rw [after_concat, hreplaced]
      cases hc : c.isErrorReport with
      | false =>
          rw [error_call_of_not_report _ hc, Bool.or_false]
          exact ih
      | true =>
          -- the call is a `report_error`, so nothing is left to report
          rw [Bool.or_true]
          cases c with
          | register r => cases hc
          | report r =>
              cases r with
              | error e => exact toBool_error_reportError _ e
              | _ => cases hc

end Members

/-! ## The handlers that are invoked -/

section Invoked

variable (d : Deferred H P)

theorem invoked_reportError {e : Error} (he : e.toBool = true) :
    d.invoked (.report (.error e)) = d.errorHandler.toList.map fun handler => .error handler e := by
  simp [invoked, report, reportError, he]

/-- Only `report_error` invokes an error handler, and only for an error that is one. -/
theorem toError_invoked (c : DeferredCall H P) :
    (d.invoked c).filterMap Call.toError = reportedErrors d.errorHandler [c] := by
  cases c with
  | register r =>
      cases r <;> rfl
  | report r =>
      cases r with
      | data parameters =>
          cases hgate : d.toBool <;> cases hd : d.dataHandler <;>
            simp [invoked, report, reportData, hgate, hd, reportedErrors, Call.toError]
      | success =>
          cases hs : d.successHandler <;>
            simp [invoked, report, reportSuccess, hs, reportedErrors, Call.toError]
      | error e =>
          cases he : e.toBool <;> cases hh : d.errorHandler <;>
            simp [invoked, report, reportError, he, hh, reportedErrors, Call.toError]

/-- No call of a member function invokes the finalize handler. -/
theorem isFinalize_of_mem_invoked (c : DeferredCall H P) {x : Call H P} (hx : x ∈ d.invoked c) :
    x.isFinalize = false := by
  cases c with
  | register r => cases hx
  | report r =>
      cases r with
      | data parameters =>
          simp only [invoked, report, reportData] at hx
          split at hx
          · rcases List.mem_map.1 hx with ⟨handler, _, rfl⟩
            rfl
          · cases hx
      | success =>
          rcases List.mem_map.1 hx with ⟨handler, _, rfl⟩
          rfl
      | error e =>
          simp only [invoked, report, reportError] at hx
          split at hx
          · rcases List.mem_map.1 hx with ⟨handler, _, rfl⟩
            rfl
          · cases hx

theorem reportedErrors_cons (handler : Option H) (c : DeferredCall H P)
    (cs : List (DeferredCall H P)) :
    reportedErrors handler (c :: cs) =
      reportedErrors handler [c] ++ reportedErrors (c.onError?.or handler) cs := by
  cases c with
  | register r =>
      cases r <;> rfl
  | report r =>
      cases r with
      | error e => simp [reportedErrors, DeferredCall.onError?]
      | _ => rfl

theorem toError_invokedBy (cs : List (DeferredCall H P)) :
    (d.invokedBy cs).filterMap Call.toError = reportedErrors d.errorHandler cs := by
  induction cs generalizing d with
  | nil => rfl
  | cons c cs ih =>
      calc
        (d.invokedBy (c :: cs)).filterMap Call.toError
            = (d.invoked c).filterMap Call.toError ++
                ((d.call c).invokedBy cs).filterMap Call.toError := by
              simp [invokedBy]
        _ = reportedErrors d.errorHandler [c] ++ reportedErrors (d.call c).errorHandler cs := by
              rw [toError_invoked, ih]
        _ = reportedErrors d.errorHandler (c :: cs) := by
              rw [errorHandler_call, ← reportedErrors_cons]

theorem isFinalize_of_mem_invokedBy (cs : List (DeferredCall H P)) {x : Call H P}
    (hx : x ∈ d.invokedBy cs) : x.isFinalize = false := by
  induction cs generalizing d with
  | nil => cases hx
  | cons c cs ih =>
      rcases List.mem_append.1 hx with hx | hx
      · exact isFinalize_of_mem_invoked d c hx
      · exact ih (d.call c) hx

end Invoked

/-- The destructor reports the construction error if it is still there, and then finalizes. -/
theorem destroy_after (error : Error) (failed : Bool) (cs : List (DeferredCall H P)) :
    ((construct error failed).after cs).destroy =
      (constructionError error cs).map (fun entry => .error entry.1 entry.2) ++
        (lastOnFinalize cs).toList.map .finalize := by
  have herror := error_after error failed cs
  unfold destroy
  rw [errorHandler_after, finalizeHandler_after]
  cases hreplaced : errorReplaced cs with
  | true =>
      -- some `report_error` has taken the place of the construction error
      simp only [hreplaced, if_true] at herror
      simp [constructionError, hreplaced, herror]
  | false =>
      simp only [hreplaced, Bool.false_eq_true, if_false] at herror
      rw [herror]
      cases he : error.toBool <;> simp [constructionError, hreplaced, he]

end Deferred

/-! ## Errors once, finalize last -/

/-- What is promised about a `Deferred` that is constructed with `error`, sees the calls `cs` and
is destroyed. -/
structure OnceAndLast (error : Error) (failed : Bool) (cs : List (DeferredCall H P)) : Prop where
  /-- A report of an error invokes the handler registered at that moment, once, with that error. -/
  reported : ∀ pre e post, cs = pre ++ .report (.error e) :: post → e.toBool = true →
    ((Deferred.construct error failed).after pre).invoked (.report (.error e)) =
      (lastOnError pre).toList.map fun handler => .error handler e
  /-- The destructor reports the construction error alone, and that only if it was not replaced. -/
  destructor : (((Deferred.construct error failed).after cs).destroy).filterMap Call.toError =
    constructionError error cs
  /-- There are no other calls of error handlers. -/
  errors : (Deferred.lifetime error failed cs).filterMap Call.toError =
    reportedErrors none cs ++ constructionError error cs
  /-- The last finalize handler is called once, after all other handlers. -/
  last : ∃ others, Deferred.lifetime error failed cs =
      others ++ (lastOnFinalize cs).toList.map .finalize ∧ ∀ x ∈ others, x.isFinalize = false

/-- Errors are reported once, and finalize comes last. -/
theorem errors_once_finalize_last (error : Error) (failed : Bool)
    (cs : List (DeferredCall H P)) : OnceAndLast error failed cs := by
  have hdestroy := Deferred.destroy_after error failed cs
  have hdestructor : (((Deferred.construct error failed).after cs).destroy).filterMap Call.toError =
      constructionError error cs := by
    have hfinalize : ((lastOnFinalize cs).toList.map Call.finalize).filterMap
        (Call.toError (P := P)) = [] := by
      cases lastOnFinalize cs <;> rfl
    have hconstruction : ∀ entries : List (H × Error),
        (entries.map fun entry => (.error entry.1 entry.2 : Call H P)).filterMap Call.toError =
          entries := by
      intro entries
      simp [List.filterMap_map, Function.comp_def, Call.toError]
    rw [hdestroy, List.filterMap_append, hfinalize, hconstruction, List.append_nil]
  constructor
  case reported =>
    intro pre e post _ he
    rw [Deferred.invoked_reportError _ he, Deferred.errorHandler_after]
  case destructor =>
    exact hdestructor
  case errors =>
    rw [Deferred.lifetime, List.filterMap_append, Deferred.toError_invokedBy, hdestructor]
    rfl
  case last =>
    refine ⟨(Deferred.construct error failed).invokedBy cs ++
      (constructionError error cs).map (fun entry => .error entry.1 entry.2), ?_, ?_⟩
    · rw [Deferred.lifetime, hdestroy, List.append_assoc]
    · intro x hx
      rcases List.mem_append.1 hx with hx | hx
      · exact Deferred.isFinalize_of_mem_invokedBy _ cs hx
      · rcases List.mem_map.1 hx with ⟨entry, _, rfl⟩
        rfl

end CapyAmqp
