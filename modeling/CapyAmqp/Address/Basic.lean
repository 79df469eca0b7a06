import CapyAmqp.Common.Error
import CapyAmqp.Lib.Regex
import CapyAmqp.Lib.Stoi

/-!
# Address — address strings and what the broker makes of them

`Address::From` matches the string against a regular expression and reads the groups of the match.
A `std::string` is a list of characters; the C locale knows no letters outside ASCII, so other
characters are like any byte that the expression does not name.
-/

namespace CapyAmqp

open Lib Regex

/-- A `std::string`. -/
abbrev Text := List Char

/-! ## Errors -/

inductive AddressError
  | parse
  | empty
  | last
  deriving DecidableEq, Repr

/-- The codes start where the common ones end. -/
def AddressError.toInt : AddressError → Int
  | .parse => CommonError.last.toInt
  | .empty => 305
  | .last => 306

/-- `AddressErrorCategory` overrides `message` only. -/
def addressErrorCategory : ErrorCategory :=
  { name := "capy.amqp"
    message := fun ev =>
      if ev = AddressError.parse.toInt then "Parse error"
      else if ev = AddressError.empty.toInt then "Empty input"
      else commonMessage ev }

def AddressError.makeErrorCondition (e : AddressError) : ErrorCondition :=
  { value := e.toInt
    category := addressErrorCategory }

/-- `Error(code, message)` with a code of the address. -/
def Error.address (code : AddressError) (message : Option String := none) : Error :=
  Error.construct code.makeErrorCondition message

/-- `error_string`; `formatted` is what the conversion makes of its arguments. -/
def errorString (formatted : Text) : String :=
  "Cappy error: " ++ String.ofList (formatted.take 1023)

/-! ## The address -/

inductive Protocol
  | amqp
  | amqps
  | unknown
  deriving DecidableEq, Repr

structure LoginImp where
  user : Text
  password : Text
  deriving DecidableEq

structure AddressImpl where
  protocol : Protocol
  login : LoginImp
  hostname : Text
  vhost : Text
  port : UInt16
  deriving DecidableEq

structure Address where
  imp : AddressImpl
  deriving DecidableEq

namespace Address

def getHostname (a : Address) : Text :=
  a.imp.hostname

def getPort (a : Address) : UInt16 :=
  a.imp.port

def getVhost (a : Address) : Text :=
  a.imp.vhost

/-- `get_protocol` does not look at the address. -/
def getProtocol (_ : Address) : Protocol :=
  .amqp

def getLogin (a : Address) : LoginImp :=
  a.imp.login

/-! ## `Address::From` -/

/-- What a function that takes a `const char *` sees of a string. -/
def cStr (s : Text) : Text :=
  s.takeWhile (· ≠ '\x00')

/-- `\w`. -/
def isWord (c : Char) : Bool :=
  c.isAlphanum || decide (c = '_')

def word : Regex Char :=
  .char isWord

/-- `(amqp?|amqps)`. -/
def schemeEx : Regex Char :=
  .group 1 (.alt (.seq (text ['a', 'm', 'q']) (opt (lit 'p'))) (text ['a', 'm', 'q', 'p', 's']))

/-- `\w+:{0,1}\w*@`. -/
def userinfoEx : Regex Char :=
  seqs [plus word, opt (lit ':'), star word, lit '@']

/-- `([^/ :]+):?([^/ ]*)(/?[^ #?]*)\x3f?([^ #]*)#?([^ ]*)`. -/
def hostEx : Regex Char :=
  seqs
    [.group 3 (plus (noneOf ['/', ' ', ':'])),
      opt (lit ':'),
      .group 4 (star (noneOf ['/', ' '])),
      .group 5 (.seq (opt (lit '/')) (star (noneOf [' ', '#', '?']))),
      opt (lit '?'),
      .group 6 (star (noneOf [' ', '#'])),
      opt (lit '#'),
      .group 7 (star (noneOf [' ']))]

/-- `(amqp?|amqps)://(\w+:{0,1}\w*@)?([^/ :]+):?([^/ ]*)(/?[^ #?]*)\x3f?([^ #]*)#?([^ ]*)`. -/
def ex : Regex Char :=
  seqs [schemeEx, text [':', '/', '/'], opt (.group 2 userinfoEx), hostEx]

/-- The text of a group, empty if the group took no part in the match. -/
def subMatch (what : Captures Char) (n : Nat) : Text :=
  (what n).getD []

/-- `split` goes through the string with `std::getline`: at the end of the string there is a token
only if something was read. -/
def splitFrom (delimiter : Char) (token : Text) : Text → List Text
  | [] => if token.isEmpty then [] else [token]
  | c :: s =>
      if c = delimiter then token :: splitFrom delimiter [] s
      else splitFrom delimiter (token ++ [c]) s

def split (s : Text) (delimiter : Char) : List Text :=
  splitFrom delimiter [] s

/-- The protocol for the upper-case scheme. -/
def protocolOf (proto : Text) : Protocol :=
  if proto = ['A', 'M', 'Q', 'P'] then .amqp
  else if proto = ['A', 'M', 'Q', 'P', 'S'] then .amqps
  else .unknown

/-- The port, from the text of group 4; `what` gives the texts of the exceptions of `stoi`. -/
def readPort (what : StoiError → String) (port : Text) : Except Error UInt16 :=
  if port.isEmpty then .ok 5672
  else
    match stoi port with
    | .error e => .error (Error.address .parse (some (what e)))
    | .ok portNum =>
        if 0 ≤ portNum ∧ portNum ≤ 65535 then .ok (UInt16.ofNat portNum.toNat)
        else
          .error (Error.address .parse (some (errorString
            ("Address port number ".toList ++ port ++ " is out of range".toList))))

/-- The login, from the text of group 2; the error text names the port. -/
def readLogin (login port : Text) : Except Error LoginImp :=
  if login.isEmpty then
    .ok
      { user := "guest".toList
        password := "guest".toList }
  else
    match split login.dropLast ':' with
    | user :: password :: _ =>
        .ok
          { user := user
            password := password }
    | _ =>
        .error (Error.address .parse (some (errorString
          ("LoginImp ".toList ++ port ++ " is not correct".toList))))

/-- `From`, once the string has matched, from the texts of the groups 1 to 5. -/
def fromGroups (what : StoiError → String) (scheme login hostname port vhost : Text) :
    Except Error Address :=
  let proto := scheme.map Char.toUpper
  match protocolOf proto with
  | .unknown =>
      .error (Error.address .parse (some (errorString
        ("Url Protocol ".toList ++ proto ++ " is not supported yet".toList))))
  | aProtocol =>
      match readPort what port with
      | .error e => .error e
      | .ok portNum =>
          match readLogin login port with
          | .error e => .error e
          | .ok login =>
              .ok
                { imp :=
                    { protocol := aProtocol
                      login := login
                      hostname := hostname
                      vhost := vhost
                      port := portNum } }

/-- `Address::From`. -/
def fromString (what : StoiError → String) (address : Text) : Except Error Address :=
  if address.isEmpty then .error (Error.address .empty)
  else
    match regexMatch ex (cStr address) with
    | some m =>
        fromGroups what (subMatch m 1) (subMatch m 2) (subMatch m 3) (subMatch m 4) (subMatch m 5)
    | none => .error (Error.address .parse)

end Address

/-! ## What the AMQP library gets -/

/-- The arguments of `AMQP::Login`. -/
structure AmqpLogin where
  user : Text
  password : Text
  deriving DecidableEq

/-- The arguments of `AMQP::Address`. -/
structure AmqpAddress where
  hostname : Text
  port : UInt16
  login : AmqpLogin
  vhost : Text
  deriving DecidableEq

def toLogin (login : LoginImp) : AmqpLogin :=
  { user := login.user
    password := login.password }

def toAddress (address : Address) : AmqpAddress :=
  { hostname := address.getHostname
    port := address.getPort
    login := toLogin address.getLogin
    vhost := address.getVhost }

end CapyAmqp
