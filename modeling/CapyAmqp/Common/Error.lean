import Mathlib.Logic.Basic

/-!
# Error — error values, categories and codes

`Error` pairs a `std::error_code` with an optional text.  A category is a C++ object with a
virtual `message`; it is modelled by its name and that function, so that an error made from any
category can be carried around.  The enumerations keep the numeric values of the headers.
-/

namespace CapyAmqp

/-! ## Categories and conditions -/

/-- A `std::error_category`: its name and its virtual `message`. -/
structure ErrorCategory where
  name : String
  message : Int → String

/-- A `std::error_condition`: a value within a category. -/
structure ErrorCondition where
  value : Int
  category : ErrorCategory

inductive CommonError
  | ok
  | notSupported
  | unknown
  | notFound
  | outOfRange
  | last
  deriving DecidableEq, Repr

def CommonError.toInt : CommonError → Int
  | .ok => 0
  | .notSupported => 300
  | .unknown => 301
  | .notFound => 302
  | .outOfRange => 303
  | .last => 304

/-- The broker's codes start where the common ones end. -/
inductive BrokerError
  | connection
  | connectionClosed
  | connectionLost
  | memory
  | login
  | channelReady
  | channelMessage
  | publish
  | exchangeDeclaration
  | queueDeclaration
  | queueBinding
  | queueConsuming
  | listenerConflict
  | emptyReplay
  | dataResponse
  | last
  deriving DecidableEq, Repr

def BrokerError.toInt : BrokerError → Int
  | .connection => CommonError.last.toInt
  | .connectionClosed => 305
  | .connectionLost => 306
  | .memory => 307
  | .login => 308
  | .channelReady => 309
  | .channelMessage => 310
  | .publish => 311
  | .exchangeDeclaration => 312
  | .queueDeclaration => 313
  | .queueBinding => 314
  | .queueConsuming => 315
  | .listenerConflict => 316
  | .emptyReplay => 317
  | .dataResponse => 318
  | .last => 319

/-- `ErrorCategory::message`. -/
def commonMessage (ev : Int) : String :=
  if ev = CommonError.ok.toInt then "OK"
  else if ev = CommonError.notSupported.toInt then "Not supported format"
  else "Unknown error"

def errorCategory : ErrorCategory :=
  { name := "capy.amqp"
    message := commonMessage }

/-- `BrokerErrorCategory` overrides `message` only. -/
def brokerErrorCategory : ErrorCategory :=
  { name := "capy.amqp"
    message := fun ev =>
      if ev = BrokerError.connection.toInt then "ConnectionCache error" else commonMessage ev }

def CommonError.makeErrorCondition (e : CommonError) : ErrorCondition :=
  { value := e.toInt
    category := errorCategory }

def BrokerError.makeErrorCondition (e : BrokerError) : ErrorCondition :=
  { value := e.toInt
    category := brokerErrorCategory }

/-! ## Errors -/

structure Error where
  code : ErrorCondition
  exceptionMessage : Option String

namespace Error

/-- `Error(code, message)`; the message is optional. -/
def construct (code : ErrorCondition) (message : Option String := none) : Error :=
  { code := code
    exceptionMessage := message }

def value (e : Error) : Int :=
  e.code.value

def message (e : Error) : String :=
  match e.exceptionMessage with
  | some text => text
  | none => e.code.category.message e.code.value

/-- `Error::operator bool`: true when an error occurred. -/
def toBool (e : Error) : Bool :=
  e.value != CommonError.ok.toInt

/-- `Error(CommonError::OK)`, the value that `Deferred` goes back to. -/
def ok : Error :=
  construct CommonError.ok.makeErrorCondition

/-- `Error(code, message)` with a code of the broker. -/
def broker (code : BrokerError) (message : String) : Error :=
  construct code.makeErrorCondition (some message)

@[simp] theorem toBool_ok : ok.toBool = false := rfl

/-- No broker code is mistaken for `OK`. -/
@[simp] theorem toBool_broker (code : BrokerError) (message : String) :
    (broker code message).toBool = true := by
  cases code <;> rfl

@[simp] theorem value_broker (code : BrokerError) (message : String) :
    (broker code message).value = code.toInt := rfl

@[simp] theorem message_broker (code : BrokerError) (message : String) :
    (broker code message).message = message := rfl

end Error

end CapyAmqp
