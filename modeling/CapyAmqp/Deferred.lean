import CapyAmqp.Common.Payload

/-!
# Deferred — the handler object that fetches and listeners report into

A `Deferred<Types...>` holds up to four registered handlers, an error and a `failed_` flag.
Handlers are opaque tokens of a type `H`; invoking one is recorded as a `Call` with the
parameters it receives, of a type `P`.  Each report returns the new object together with the
calls it makes, in order.

The constructor initialises `error_` only, so `construct` takes the content that the memory of
`failed_` happens to have.
-/

namespace CapyAmqp

/-- One invocation of a registered handler. -/
inductive Call (H P : Type)
  | data (handler : H) (parameters : P)
  | success (handler : H)
  | error (handler : H) (e : Error)
  | finalize (handler : H)

/-- A call of one of the `report_` methods. -/
inductive Report (P : Type)
  | data (parameters : P)
  | success
  | error (e : Error)

/-- A call of one of the `on_` methods. -/
inductive Registration (H : Type)
  | onData (callback : H)
  | onSuccess (callback : H)
  | onError (callback : H)
  | onFinalize (callback : H)

/-- What happens to a `Deferred` object: a report and the handlers it invokes, the end of its
life and the handlers the destructor invokes, or an operation on the channel it owns. -/
inductive ObjectAction (Op H P : Type)
  | report (r : Report P) (calls : List (Call H P))
  | destroyed (calls : List (Call H P))
  | channel (op : Op)

def Call.isData {H P : Type} : Call H P → Bool
  | .data .. => true
  | _ => false

def Call.isFinalize {H P : Type} : Call H P → Bool
  | .finalize _ => true
  | _ => false

namespace ObjectAction

variable {Op H P : Type}

/-- The handlers that are invoked in the course of an action. -/
def calls : ObjectAction Op H P → List (Call H P)
  | .report _ calls => calls
  | .destroyed calls => calls
  | .channel _ => []

def isDestroyed : ObjectAction Op H P → Bool
  | .destroyed _ => true
  | _ => false

end ObjectAction

/-- The handlers that are invoked in the course of several actions. -/
def handlerCalls {Op H P : Type} (as : List (ObjectAction Op H P)) : List (Call H P) :=
  as.flatMap ObjectAction.calls

/-- The invocations of the data handler among them. -/
def dataCalls {Op H P : Type} (as : List (ObjectAction Op H P)) : List (Call H P) :=
  (handlerCalls as).filter Call.isData

/-- `Deferred<Types...>`; `P` stands for the parameter types. -/
structure Deferred (H P : Type) where
  dataHandler : Option H
  successHandler : Option H
  errorHandler : Option H
  finalizeHandler : Option H
  error : Error
  failed : Bool

namespace Deferred

variable {H P : Type}

/-- `Deferred(error)`; `failed` is whatever the uninitialised field holds. -/
def construct (error : Error) (failed : Bool) : Deferred H P :=
  { dataHandler := none
    successHandler := none
    errorHandler := none
    finalizeHandler := none
    error := error
    failed := failed }

/-- `Deferred::operator bool`. -/
def toBool (d : Deferred H P) : Bool :=
  !d.failed

/-! ## Registration -/

def onData (d : Deferred H P) (callback : H) : Deferred H P :=
  { d with dataHandler := some callback }

def onSuccess (d : Deferred H P) (callback : H) : Deferred H P :=
  { d with successHandler := some callback }

def onError (d : Deferred H P) (callback : H) : Deferred H P :=
  { d with errorHandler := some callback }

def onFinalize (d : Deferred H P) (callback : H) : Deferred H P :=
  { d with finalizeHandler := some callback }

def register (d : Deferred H P) : Registration H → Deferred H P
  | .onData callback => d.onData callback
  | .onSuccess callback => d.onSuccess callback
  | .onError callback => d.onError callback
  | .onFinalize callback => d.onFinalize callback

/-! ## Reports -/

/-- `report_data` is `const`: it only invokes the data handler, and only if the gate is open. -/
def reportData (d : Deferred H P) (parameters : P) : List (Call H P) :=
  if d.toBool then d.dataHandler.toList.map fun handler => .data handler parameters else []

/-- What leaves `report_data` when the registered data handler ends by throwing `throws`. -/
def dataThrows {E : Type} (d : Deferred H P) (throws : Option E) : Option E :=
  if d.toBool && d.dataHandler.isSome then throws else none

def reportSuccess (d : Deferred H P) : Deferred H P × List (Call H P) :=
  ({ d with failed := false },
    d.successHandler.toList.map .success)

/-- The error is stored, reported if it is one, and then reset to `OK`. -/
def reportError (d : Deferred H P) (error : Error) : Deferred H P × List (Call H P) :=
  if error.toBool then
    ({ d with error := Error.ok, failed := true },
      d.errorHandler.toList.map fun handler => .error handler error)
  else
    ({ d with error := error }, [])

def report (d : Deferred H P) : Report P → Deferred H P × List (Call H P)
  | .data parameters => (d, d.reportData parameters)
  | .success => d.reportSuccess
  | .error e => d.reportError e

/-- `~Deferred`: an error that is still stored is reported, then the finalize handler runs. -/
def destroy (d : Deferred H P) : List (Call H P) :=
  (if d.error.toBool then d.errorHandler.toList.map fun handler => .error handler d.error else []) ++
    d.finalizeHandler.toList.map .finalize

/-! ## What a report does -/

section Reports

variable {d : Deferred H P} {error : Error} {parameters : P}

@[simp] theorem error_construct (failed : Bool) :
    (construct error failed : Deferred H P).error = error := rfl

theorem reportData_of_failed (h : d.failed = true) : d.reportData parameters = [] := by
  simp [reportData, toBool, h]

theorem reportData_of_open {handler : H} (h : d.failed = false) (hd : d.dataHandler = some handler) :
    d.reportData parameters = [.data handler parameters] := by
  simp [reportData, toBool, h, hd]

/-- The data handler is invoked exactly when it is registered and the gate is open. -/
theorem reportData_ne_nil_iff :
    d.reportData parameters ≠ [] ↔ d.failed = false ∧ d.dataHandler.isSome = true := by
  cases hf : d.failed <;> cases hd : d.dataHandler <;> simp [reportData, toBool, hf, hd]

@[simp] theorem error_register (r : Registration H) : (d.register r).error = d.error := by
  cases r <;> rfl

@[simp] theorem failed_register (r : Registration H) : (d.register r).failed = d.failed := by
  cases r <;> rfl

@[simp] theorem error_reportSuccess :
    d.reportSuccess.1.error = d.error := rfl

@[simp] theorem failed_reportSuccess :
    d.reportSuccess.1.failed = false := rfl

@[simp] theorem dataHandler_reportSuccess :
    d.reportSuccess.1.dataHandler = d.dataHandler := rfl

@[simp] theorem errorHandler_reportSuccess :
    d.reportSuccess.1.errorHandler = d.errorHandler := rfl

section Error

variable (h : error.toBool = true)

include h

theorem reportError_of_error :
    d.reportError error =
      ({ d with error := Error.ok, failed := true },
        d.errorHandler.toList.map fun handler => .error handler error) := by
  simp [reportError, h]

theorem failed_reportError :
    (d.reportError error).1.failed = true := by
  rw [reportError_of_error h]

theorem error_reportError :
    (d.reportError error).1.error = Error.ok := by
  rw [reportError_of_error h]

end Error

@[simp] theorem dataHandler_reportError :
    (d.reportError error).1.dataHandler = d.dataHandler := by
  unfold reportError
  split <;> rfl

@[simp] theorem errorHandler_reportError :
    (d.reportError error).1.errorHandler = d.errorHandler := by
  unfold reportError
  split <;> rfl

/-- A `Deferred` whose stored error is `OK` runs its finalize handler only. -/
theorem destroy_of_ok (h : d.error.toBool = false) :
    d.destroy = d.finalizeHandler.toList.map .finalize := by
  simp [destroy, h]

/-- Without a stored error the destructor invokes nothing but the finalize handler. -/
theorem isFinalize_of_mem_destroy (h : d.error.toBool = false) {c : Call H P} (hc : c ∈ d.destroy) :
    c.isFinalize = true := by
  rw [destroy_of_ok h] at hc
  rcases List.mem_map.1 hc with ⟨handler, _, rfl⟩
  rfl

end Reports

end Deferred

end CapyAmqp
