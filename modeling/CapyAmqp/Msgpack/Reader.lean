import CapyAmqp.Lib.BigEndian
import CapyAmqp.Lib.Ieee
import CapyAmqp.Lib.Reader
import CapyAmqp.Msgpack.Value

/-!
# Reader — `binary_reader` on MessagePack

`Head.ofByte` is the `switch` on the first byte of a value, `parseByte` what its cases do, and
`saxParse` the strict parse of a whole input, whose exceptions carry the count of the characters
asked for.

The C++ reader calls itself for the elements of arrays and objects.  Here the depth of these calls
is bounded by fuel; every call takes a byte, so as much fuel as there is input never runs out
(`parseMsgpackInternal_eq`).
-/

namespace CapyAmqp

namespace Msgpack

open Lib

/-! ## Errors -/

/-- What `unexpect_eof` is told about the place where the input ends. -/
inductive Context
  | value
  | string
  | number
  deriving DecidableEq

def Context.text : Context → String
  | .value => "value"
  | .string => "string"
  | .number => "number"

/-- What is wrong with a byte. -/
inductive Fault
  | invalidByte (b : UInt8)
  | notAString (b : UInt8)
  deriving DecidableEq

/-- `nlohmann::detail::parse_error`. -/
structure ParseError where
  id : Nat
  byte : Nat
  what : String
  deriving DecidableEq

def ParseError.create (id byte : Nat) (whatArg : String) : ParseError :=
  { id
    byte
    what := "[json.exception.parse_error." ++ toString id ++ "] parse error" ++
      (if byte ≠ 0 then " at byte " ++ toString byte else "") ++ ": " ++ whatArg }

/-- `get_token_string`: the byte as `"%.2hhX"`. -/
def tokenString (b : UInt8) : String :=
  String.ofList [(Nat.digitChar (b.toNat / 16)).toUpper, (Nat.digitChar (b.toNat % 16)).toUpper]

def exceptionMessage (detail context : String) : String :=
  "syntax error while parsing MessagePack " ++ context ++ ": " ++ detail

/-- How a parse fails, `chars_read` characters into the input. -/
inductive Failure
  | stopped (stop : Stop Context Fault) (charsRead : Nat)
  | trailing (b : UInt8) (charsRead : Nat)
  deriving DecidableEq

/-- The exception that is thrown. -/
def Failure.exception : Failure → ParseError
  | .stopped (.ended context) charsRead =>
      .create 110 charsRead (exceptionMessage "unexpected end of input" context.text)
  | .stopped (.failed (.invalidByte b)) charsRead =>
      .create 112 charsRead (exceptionMessage ("invalid byte: 0x" ++ tokenString b) "value")
  | .stopped (.failed (.notAString b)) charsRead =>
      .create 113 charsRead
        (exceptionMessage ("expected length specification (0xA0-0xBF, 0xD9-0xDB); last byte: 0x" ++
          tokenString b) "string")
  | .trailing b charsRead =>
      .create 110 charsRead
        (exceptionMessage ("expected end of input; last byte: 0x" ++ tokenString b) "value")

/-! ## The first byte of a value -/

/-- The cases of the `switch`, with what the byte itself says and the width of what follows. -/
inductive Head
  | positiveFixint (n : Nat)
  | fixmap (len : Nat)
  | fixarray (len : Nat)
  | fixstr (len : Nat)
  | nil
  | boolean (b : Bool)
  | float32
  | float64
  | uint (w : Nat)
  | int (w : Nat)
  | str (w : Nat)
  | array (w : Nat)
  | map (w : Nat)
  | negativeFixint (n : Int)
  | other
  deriving DecidableEq

def Head.ofByte (current : UInt8) : Head :=
  if current ≤ 0x7F then .positiveFixint current.toNat
  else if current ≤ 0x8F then .fixmap (current &&& 0x0F).toNat
  else if current ≤ 0x9F then .fixarray (current &&& 0x0F).toNat
  else if current ≤ 0xBF then .fixstr (current &&& 0x1F).toNat
  else if current = 0xC0 then .nil
  else if current = 0xC2 then .boolean false
  else if current = 0xC3 then .boolean true
  else if current = 0xCA then .float32
  else if current = 0xCB then .float64
  else if current = 0xCC then .uint 1
  else if current = 0xCD then .uint 2
  else if current = 0xCE then .uint 4
  else if current = 0xCF then .uint 8
  else if current = 0xD0 then .int 1
  else if current = 0xD1 then .int 2
  else if current = 0xD2 then .int 4
  else if current = 0xD3 then .int 8
  else if current = 0xD9 then .str 1
  else if current = 0xDA then .str 2
  else if current = 0xDB then .str 4
  else if current = 0xDC then .array 2
  else if current = 0xDD then .array 4
  else if current = 0xDE then .map 2
  else if current = 0xDF then .map 4
  else if 0xE0 ≤ current then .negativeFixint (signed 1 current.toNat)
  else .other

/-! ## The reader -/

abbrev MsgReader (β : Type) := Reader Context Fault UInt8 β

/-- The next character, which `unexpect_eof` requires. -/
def get (context : Context) : MsgReader UInt8 := Reader.item context

/-- `get_number` into an unsigned number of `w` bytes. -/
def getNumber (w : Nat) : MsgReader Nat := do
  let vec ← (get .number).times w
  return ofBigEndian vec

def getString (len : Nat) : MsgReader String := do
  let bytes ← (get .string).times len
  return ofStringBytes bytes

def getMsgpackString (current : UInt8) : MsgReader String :=
  match Head.ofByte current with
  | .fixstr len => getString len
  | .str w => do
      let len ← getNumber w
      getString len
  | _ => .fail (.notAString current)

/-- `len` elements, each read by `parse`. -/
def getMsgpackArray (parse : MsgReader Json) (len : Nat) : MsgReader Json := do
  let elements ← parse.times len
  return .array elements

/-- One turn of the loop of `get_msgpack_object`. -/
def getMember (parse : MsgReader Json) : MsgReader (String × Json) := do
  let current ← get .string
  let key ← getMsgpackString current
  let value ← parse
  return (key, value)

/-- `len` members, which the DOM parser assigns to the object in their order. -/
def getMsgpackObject (parse : MsgReader Json) (len : Nat) : MsgReader Json := do
  let members ← (getMember parse).times len
  return .object (SortedMap.assignAll members [])

/-- The body of the `switch`. -/
def parseByte (parse : MsgReader Json) (current : UInt8) : MsgReader Json :=
  match Head.ofByte current with
  | .positiveFixint n => return .number n
  | .fixmap len => getMsgpackObject parse len
  | .fixarray len => getMsgpackArray parse len
  | .fixstr _ | .str _ => do
      let s ← getMsgpackString current
      return .string s
  | .nil => return .null
  | .boolean b => return .boolean b
  | .float32 => do
      let number ← getNumber 4
      return .float (BitVec.ofNat 64 (Ieee.widen number))
  | .float64 => do
      let number ← getNumber 8
      return .float (BitVec.ofNat 64 number)
  | .uint w => do
      let number ← getNumber w
      return .number number
  | .int w => do
      let number ← getNumber w
      return .number (signed w number)
  | .array w => do
      let len ← getNumber w
      getMsgpackArray parse len
  | .map w => do
      let len ← getNumber w
      getMsgpackObject parse len
  | .negativeFixint n => return .number n
  | .other => .fail (.invalidByte current)

/-- `parse_msgpack_internal`, with fuel for the calls inside it.  Without fuel it only reads the
empty input right. -/
def parseMsgpackInternal : Nat → MsgReader Json
  | 0 => .next .value fun current => .fail (.invalidByte current)
  | fuel + 1 => .next .value (parseByte (parseMsgpackInternal fuel))

/-- `sax_parse` into a DOM parser that throws, strict. -/
def saxParse (input : Bytes) : Except Failure Json :=
  match (parseMsgpackInternal input.length).run input 0 with
  | .error (stop, charsRead) => .error (.stopped stop charsRead)
  | .ok (result, [], _) => .ok result
  | .ok (_, b :: _, charsRead) => .error (.trailing b (charsRead + 1))

/-- `json::from_msgpack`. -/
def fromMsgpack (input : Bytes) : Except Thrown Json :=
  (saxParse input).mapError fun failure => .json failure.exception.what

/-! ## Fuel -/

theorem getMsgpackArray_agree {k : Nat} {parse parse' : MsgReader Json}
    (h : Reader.AgreeUpTo k parse parse') (len : Nat) :
    Reader.AgreeUpTo k (getMsgpackArray parse len) (getMsgpackArray parse' len) :=
  (h.times len).bind fun _ => .refl k _

theorem getMsgpackObject_agree {k : Nat} {parse parse' : MsgReader Json}
    (h : Reader.AgreeUpTo k parse parse') (len : Nat) :
    Reader.AgreeUpTo k (getMsgpackObject parse len) (getMsgpackObject parse' len) := by
  have hmember : Reader.AgreeUpTo k (getMember parse) (getMember parse') :=
    (Reader.AgreeUpTo.refl k _).bind fun _ => (Reader.AgreeUpTo.refl k _).bind fun _ =>
      h.bind fun _ => .refl k _
  exact (hmember.times len).bind fun _ => .refl k _

theorem parseByte_agree {k : Nat} {parse parse' : MsgReader Json}
    (h : Reader.AgreeUpTo k parse parse') (current : UInt8) :
    Reader.AgreeUpTo k (parseByte parse current) (parseByte parse' current) := by
  unfold parseByte
  cases Head.ofByte current with
  | fixmap len => exact getMsgpackObject_agree h len
  | fixarray len => exact getMsgpackArray_agree h len
  | array w => exact (Reader.AgreeUpTo.refl k _).bind fun len => getMsgpackArray_agree h len
  | map w => exact (Reader.AgreeUpTo.refl k _).bind fun len => getMsgpackObject_agree h len
  | _ => exact .refl k _

/-- Fuel beyond the length of the input makes no difference. -/
theorem parseMsgpackInternal_agree {k i j : Nat} (hi : k ≤ i) (hj : k ≤ j) :
    Reader.AgreeUpTo k (parseMsgpackInternal i) (parseMsgpackInternal j) := by
  induction k generalizing i j with
  | zero =>
      intro input n hlength
      rw [List.length_eq_zero_iff.1 (Nat.le_zero.1 hlength)]
      cases i <;> cases j <;> rfl
  | succ k ih =>
      rcases Nat.exists_eq_succ_of_ne_zero (n := i) (by omega) with ⟨i, rfl⟩
      rcases Nat.exists_eq_succ_of_ne_zero (n := j) (by omega) with ⟨j, rfl⟩
      refine Reader.AgreeUpTo.next fun current l hl => parseByte_agree ?_ current
      intro input n hlength
      exact ih (by omega) (by omega) input n (by omega)

/-- With fuel for its input the reader is the recursion of the source. -/
theorem parseMsgpackInternal_eq (fuel : Nat) :
    Reader.AgreeUpTo fuel (parseMsgpackInternal fuel)
      (.next .value (parseByte (parseMsgpackInternal fuel))) :=
  parseMsgpackInternal_agree (Nat.le_refl fuel) (Nat.le_succ fuel)

end Msgpack

end CapyAmqp
