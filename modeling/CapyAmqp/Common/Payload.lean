import CapyAmqp.Common.Error

/-!
# Payload — JSON values, their wire form and the result types

`Json` follows the value types of `nlohmann::json`; the two integer representations, which that
library compares by value, are one constructor.  The MessagePack coder belongs to the vendored
library and is a parameter, `Codec`.  `Payload` and `Request` are the `Result` types that the
data handlers of fetches and listeners receive.
-/

namespace CapyAmqp

/-! ## JSON -/

inductive Json
  | null
  | boolean (b : Bool)
  | number (n : Int)
  | float (bits : BitVec 64)
  | string (s : String)
  | array (elements : List Json)
  | object (members : List (String × Json))

/-- `basic_json::empty`: null, and containers without elements. -/
def Json.empty : Json → Bool
  | .null => true
  | .array elements => elements.isEmpty
  | .object members => members.isEmpty
  | _ => false

abbrev Bytes := List UInt8

/-- What a call of `from_msgpack` can throw, as the catch clauses tell it apart. -/
inductive Thrown
  | json (what : String)
  | std (what : String)
  | other
  deriving DecidableEq, Repr

/-- The text that the catch clauses around a fetch's decoder report. -/
def Thrown.fetchText : Thrown → String
  | .json what => what
  | .std what => what
  | .other => "unknown error"

/-- The text that the catch clauses around a listener's decoder report. -/
def Thrown.listenText : Thrown → String
  | .json what => what
  | _ => "unknown error"

/-- The text of `throw_abort` when a data handler throws. -/
def Thrown.abortText : Thrown → String
  | .json what => what
  | _ => "Unexpected exception..."

/-- `json::to_msgpack` and `json::from_msgpack`. -/
structure Codec where
  toMsgpack : Json → Bytes
  fromMsgpack : Bytes → Except Thrown Json

/-- The coder on null and the booleans, for runs on concrete bodies. -/
def Codec.small : Codec :=
  { toMsgpack := fun value =>
      match value with
      | .boolean false => [0xc2]
      | .boolean true => [0xc3]
      | _ => [0xc0]
    fromMsgpack := fun body =>
      if body = [0xc0] then .ok .null
      else if body = [0xc2] then .ok (.boolean false)
      else if body = [0xc3] then .ok (.boolean true)
      else .error (.json "parse error") }

/-! ## Result types -/

/-- `Result<json>`. -/
abbrev Payload := Except Error Json

/-- A request as a listener sees it. -/
structure Rpc where
  message : Json
  routingKey : String

/-- `Result<Rpc>`. -/
abbrev Request := Except Error Rpc

end CapyAmqp
