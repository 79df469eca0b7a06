import CapyAmqp.Dotenv.Parser

/-!
# Scanner — `.env` files, character by character

`Scan` is an automaton for `.env` files that has one phase for each place in a line; it enters an
assignment into its map when it leaves the value behind.  It knows nothing of functions, loops and
bound strings.  The parser follows it: `parse_eq` says that a file is accepted by both or by neither,
with the same map, and that the parser fails where the automaton gets stuck.
-/

namespace CapyAmqp

namespace Dotenv

open Lib

/-! ## The automaton -/

def isSpace (c : Char) : Bool :=
  c == ' ' || c == '\t'

def isNewline (c : Char) : Bool :=
  c == '\n' || c == '\r'

/-- Quotes are characters like any other. -/
def isValue (c : Char) : Bool :=
  !(isSpace c || isNewline c || c == '#')

def isKey (c : Char) : Bool :=
  isValue c && c != '='

/-- Where in a line the automaton is, and what it has read of an assignment. -/
inductive Phase
  | start
  | key (key : String)
  | separator (key : String)
  | gap (key : String)
  | value (key value : String)
  | tail (key value : String)
  | hash
  | comment
  | cr
  deriving DecidableEq, Repr

/-- The assignment that has been read and not been entered. -/
def Phase.entry : Phase → Option (String × String)
  | .gap k => some (k, "")
  | .value k v => some (k, v)
  | .tail k v => some (k, v)
  | _ => none

/-- A file may end here. -/
def Phase.complete : Phase → Bool
  | .key _ => false
  | .separator _ => false
  | .hash => false
  | .cr => false
  | _ => true

structure Scan where
  phase : Phase
  row : UInt32
  col : UInt32
  map : Env

namespace Scan

def start (map : Env) : Scan :=
  { phase := .start
    row := 1
    col := 1
    map := map }

/-- The map with the assignment of this line. -/
def settle (t : Scan) : Env :=
  match t.phase.entry with
  | none => t.map
  | some e => SortedMap.emplace e.1 e.2 t.map

def goto (t : Scan) (phase : Phase) : Scan :=
  { t with
    phase := phase
    col := t.col + 1 }

/-- Go to a phase without an assignment. -/
def leave (t : Scan) (phase : Phase) : Scan :=
  { t with
    phase := phase
    col := t.col + 1
    map := t.settle }

def newLine (t : Scan) : Scan :=
  { phase := .start
    row := t.row + 1
    col := 1
    map := t.settle }

/-- A comment or the end of the line. -/
def ends (t : Scan) (c : Char) : Option Scan :=
  if c == '#' then some (t.leave .hash)
  else if c == '\n' then some t.newLine
  else if c == '\r' then some (t.leave .cr)
  else none

def step (t : Scan) (c : Char) : Option Scan :=
  match t.phase with
  | .start =>
      if isSpace c then some (t.goto .start)
      else if isKey c then some (t.goto (.key ("".push c)))
      else t.ends c
  | .key key =>
      if isKey c then some (t.goto (.key (key.push c)))
      else if isSpace c then some (t.goto (.separator key))
      else if c == '=' then some (t.goto (.gap key))
      else none
  | .separator key =>
      if isSpace c then some (t.goto (.separator key))
      else if c == '=' then some (t.goto (.gap key))
      else none
  | .gap key =>
      if isSpace c then some (t.goto (.gap key))
      else if isValue c then some (t.goto (.value key ("".push c)))
      else t.ends c
  | .value key value =>
      if isValue c then some (t.goto (.value key (value.push c)))
      else if isSpace c then some (t.goto (.tail key value))
      else t.ends c
  | .tail key value =>
      if isSpace c then some (t.goto (.tail key value))
      else t.ends c
  | .hash => if isNewline c then none else some (t.goto .comment)
  | .comment => if isNewline c then t.ends c else some (t.goto .comment)
  | .cr => if c == '\n' then some t.newLine else none

def accepting (t : Scan) : Bool :=
  t.phase.complete

/-- The message of a `syntax_error` at this place. -/
def message (t : Scan) : String :=
  "Syntax error on line " ++ toString t.row ++ ":" ++ toString t.col

abbrev readAll := Automaton.readAll step

abbrev Stuck := Automaton.Stuck step accepting

theorem settle_of_entry_none {t : Scan} (h : t.phase.entry = none) : t.settle = t.map := by
  simp [settle, h]

end Scan

/-! ## Characters -/

theorem sp_admits : sp.admits = isSpace := by
  funext c
  rw [Bool.eq_iff_iff]
  simp [Container.admits, sp, isSpace, spC, tbC]

/-- The quotes are listed beside the characters that are not excluded. -/
theorem or_quotes_admits {cont : Container} (h : cont.included = []) (c : Char) :
    ((cont.or dqC).or sqC).admits c = true ↔
      c = dqC ∨ c = sqC ∨ (cont.excluded ≠ [] ∧ c ∉ cont.excluded) := by
  by_cases hdq : c = dqC
  · simp [Container.admits, Container.or, h, hdq]
  by_cases hsq : c = sqC
  · simp [Container.admits, Container.or, h, hsq]
  cases hexcluded : cont.excluded <;>
    simp [Container.admits, Container.or, h, hdq, hsq, hexcluded]

theorem valueChar_admits : valueChar.admits = isValue := by
  funext c
  rw [Bool.eq_iff_iff, valueChar, or_quotes_admits rfl]
  simp only [unquotedValueChar, isValue, isSpace, isNewline, csC, spC, dqC, sqC, tbC, nlC, crC]
  simp
  constructor
  · rintro (rfl | rfl | h)
    · decide
    · decide
    · tauto
  · tauto

theorem keyChar_admits : keyChar.admits = isKey := by
  funext c
  rw [Bool.eq_iff_iff, keyChar, or_quotes_admits rfl]
  simp only [unquotedKeyChar, isKey, isValue, isSpace, isNewline, csC, eqC, spC, dqC, sqC, tbC, nlC,
    crC]
  simp
  constructor
  · rintro (rfl | rfl | h)
    · decide
    · decide
    · tauto
  · tauto

theorem isKey_of_unquoted {c : Char} (h : unquotedKeyChar.admits c = true) : isKey c = true := by
  rw [← keyChar_admits, keyChar, or_quotes_admits rfl]
  have hexcluded : unquotedKeyChar.excluded ≠ [] ∧ c ∉ unquotedKeyChar.excluded := by
    simpa [Container.admits, unquotedKeyChar] using h
  exact Or.inr (Or.inr hexcluded)

theorem isValue_of_unquoted {c : Char} (h : unquotedValueChar.admits c = true) :
    isValue c = true := by
  rw [← valueChar_admits, valueChar, or_quotes_admits rfl]
  have hexcluded : unquotedValueChar.excluded ≠ [] ∧ c ∉ unquotedValueChar.excluded := by
    simpa [Container.admits, unquotedValueChar] using h
  exact Or.inr (Or.inr hexcluded)

theorem unquotedCommentChar_admits :
    unquotedCommentChar.admits = fun c => !isNewline c := by
  funext c
  rw [Bool.eq_iff_iff]
  simp [Container.admits, unquotedCommentChar, isNewline, nlC, crC]

theorem isSpace_of_isValue {c : Char} (h : isValue c = true) : isSpace c = false := by
  simp only [isValue, Bool.not_eq_true', Bool.or_eq_false_iff] at h
  exact h.1.1

theorem isValue_of_isKey {c : Char} (h : isKey c = true) : isValue c = true := by
  simp only [isKey, Bool.and_eq_true] at h
  exact h.1

end Dotenv

end CapyAmqp
