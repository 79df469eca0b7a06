import CapyAmqp.Lib.Descent
import CapyAmqp.Lib.SortedMap
import Mathlib.Data.String.Basic

/-!
# Parser — `dotenv::parser`

The parser of `.env` files is a recursive descent over the characters of a stream.  The token is the
next character; at the end of the stream there is none, although the source still has a `char` there.
A character stands for a byte.  Statements throw a `syntax_error` or, where the author expects it
never to happen, a `std::runtime_error`; what has been entered into the map by then stays there, so an
exception carries the parser along.
-/

namespace CapyAmqp

namespace Dotenv

open Lib

/-- `std::unordered_map<std::string, std::string>`. -/
abbrev Env := List (String × String)

inductive Exception
  | syntaxError (what : String)
  | runtimeError (what : String)
  deriving DecidableEq, Repr

/-! ## Characters -/

/-- `container`: the characters that are listed, or, if any are excluded, all others. -/
structure Container where
  included : List Char
  excluded : List Char

namespace Container

/-- `operator||(const char c)`. -/
def or (cont : Container) (c : Char) : Container :=
  { cont with included := cont.included ++ [c] }

/-- The test of `token_is(const container&)`. -/
def admits (cont : Container) (token : Char) : Bool :=
  if cont.included.contains token then true
  else if cont.excluded.isEmpty then false
  else !cont.excluded.contains token

end Container

def csC : Char := '#'
def eqC : Char := '='
def spC : Char := ' '
def sqC : Char := '\x27'
def dqC : Char := '\x22'
def tbC : Char := '\t'
def nlC : Char := '\n'
def crC : Char := '\r'

def sp : Container :=
  { included := [spC, tbC]
    excluded := [] }

def unquotedKeyChar : Container :=
  { included := []
    excluded := [csC, eqC, spC, dqC, sqC, tbC, nlC, crC] }

def unquotedValueChar : Container :=
  { included := []
    excluded := [csC, spC, dqC, sqC, tbC, nlC, crC] }

def unquotedCommentChar : Container :=
  { included := []
    excluded := [nlC, crC] }

/-- `UNQUOTED_KEY_CHAR || DQ_C || SQ_C`. -/
def keyChar : Container :=
  (unquotedKeyChar.or dqC).or sqC

/-- `UNQUOTED_VALUE_CHAR || DQ_C || SQ_C`. -/
def valueChar : Container :=
  (unquotedValueChar.or dqC).or sqC

/-! ## The parser -/

/-- What `binded` points to. -/
inductive Binding
  | key
  | value
  deriving DecidableEq, Repr

/-- `parser`; the input begins with the token. -/
structure Parser where
  input : List Char
  rowCount : UInt32
  colCount : UInt32
  bond : Bool
  binded : Option Binding
  key : String
  value : String
  map : Env

/-- The parser of a stream and a map, as it is constructed; `init` sets the counters. -/
def Parser.construct (input : List Char) (map : Env) : Parser :=
  { input := input
    rowCount := 0
    colCount := 0
    bond := false
    binded := none
    key := ""
    value := ""
    map := map }

abbrev Stmt := Descent.Stmt Parser (Exception × Parser)

namespace Parser

/-- `token_is`. -/
def tokenIs (p : Char → Bool) (s : Parser) : Bool :=
  match s.input with
  | [] => false
  | token :: _ => p token

/-- `token`; the stream returns -1 at its end. -/
def token (s : Parser) : Char :=
  s.input.headD '\xff'

/-- `binded -> append(1, token)`. -/
def append (s : Parser) : Binding → Parser
  | .key => { s with key := s.key.push s.token }
  | .value => { s with value := s.value.push s.token }

def advance (s : Parser) : Parser :=
  { s with
    input := s.input.tail
    colCount := s.colCount + 1 }

def next : Stmt := fun s =>
  match s.bond, s.binded with
  | true, some target => .ok (s.append target).advance
  | true, none => .error (.runtimeError "something weird happened to this pointer", s)
  | false, _ => .ok s.advance

def syntaxErr : Stmt := fun s =>
  .error (.syntaxError
    ("Syntax error on line " ++ toString s.rowCount ++ ":" ++ toString s.colCount), s)

/-- `match`. -/
def matchToken (p : Char → Bool) : Stmt :=
  .choose (tokenIs p) next syntaxErr

/-- `while (token_is(c)) match(c)`. -/
def matchAll (p : Char → Bool) : Stmt :=
  .loop input (tokenIs p) (matchToken p)

def bind (target : Binding) : Stmt := fun s =>
  match target with
  | .key => .ok { s with key := "", binded := some .key, bond := true }
  | .value => .ok { s with value := "", binded := some .value, bond := true }

def unbind : Stmt := fun s =>
  .ok { s with binded := none, bond := false }

def insertToMap : Stmt := fun s =>
  if s.bond || s.binded.isSome then .error (.runtimeError "Something weird is happening", s)
  else if s.key.isEmpty then .error (.runtimeError "", s)
  else .ok { s with map := SortedMap.emplace s.key s.value s.map }

/-- `STRING`. -/
def string : Stmt :=
  next

/-- `UNQUOTED_KEY`. -/
def unquotedKey : Stmt :=
  .seq (matchToken unquotedKeyChar.admits) (matchAll unquotedKeyChar.admits)

/-- `UNQUOTED_VALUE`. -/
def unquotedValue : Stmt :=
  .seq (matchToken unquotedValueChar.admits) (matchAll unquotedValueChar.admits)

/-- `UNQUOTED_COMMENT`. -/
def unquotedComment : Stmt :=
  .seq (matchToken unquotedCommentChar.admits) (matchAll unquotedCommentChar.admits)

/-- `if (token_is(UNQUOTED_KEY_CHAR)) UNQUOTED_KEY(); else STRING();`. -/
def keyPart : Stmt :=
  .choose (tokenIs unquotedKeyChar.admits) unquotedKey string

/-- `key`. -/
def readKey : Stmt :=
  .seq (bind .key)
    (.seq keyPart
      (.seq (.loop input (tokenIs keyChar.admits) keyPart) unbind))

/-- `value`. -/
def readValue : Stmt :=
  .seq (bind .value)
    (.seq
      (.loop input (tokenIs valueChar.admits)
        (.choose (tokenIs unquotedValueChar.admits) unquotedValue string))
      unbind)

def comment : Stmt :=
  .seq (matchToken (· == csC)) unquotedComment

/-- `NL`. -/
def nl : Stmt :=
  .seq (.choose (tokenIs (· == crC)) (matchToken (· == crC)) .skip) (matchToken (· == nlC))

def eof : Stmt :=
  .choose (fun s => s.input.isEmpty) .skip syntaxErr

/-- `++row_count; col_count = 1;`. -/
def startLine : Stmt := fun s =>
  .ok { s with rowCount := s.rowCount + 1, colCount := 1 }

def assignment : Stmt :=
  .seq readKey
    (.seq (matchAll sp.admits)
      (.seq (matchToken (· == eqC))
        (.seq (matchAll sp.admits)
          (.seq readValue
            (.seq (matchAll sp.admits) insertToMap)))))

/-- `line_content`. -/
def lineContent : Stmt :=
  .seq startLine
    (.seq (matchAll sp.admits)
      (.seq (.choose (tokenIs keyChar.admits) assignment .skip)
        (.choose (tokenIs (· == csC)) comment .skip)))

def init : Stmt := fun s =>
  .ok { s with rowCount := 0, colCount := 1 }

def env : Stmt :=
  .seq init
    (.seq lineContent
      (.seq
        (.loop input (fun s => tokenIs (· == nlC) s || tokenIs (· == crC) s) (.seq nl lineContent))
        eof))

end Parser

/-- `parser(file, _env).parse()`: the map afterwards, or the exception and the map that it leaves. -/
def parse (file : List Char) (map : Env) : Except (Exception × Env) Env :=
  match Parser.env (Parser.construct file map) with
  | .ok s => .ok s.map
  | .error (e, s) => .error (e, s.map)

end Dotenv

end CapyAmqp
