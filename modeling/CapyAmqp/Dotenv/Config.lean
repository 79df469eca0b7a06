import CapyAmqp.Common.Error
import CapyAmqp.Dotenv.Diagnosis

/-!
# Config — `dotenv::dotenv` and `get_dotenv`

There is one object for the variables; every translation unit loads `.env` into it when it is
initialised, and a program may load further files.  `getDotenv_ok_iff` says what `get_dotenv` returns
after any number of such loads.
-/

namespace CapyAmqp

namespace Dotenv

open Lib

/-- `dotenv`; `configured` is `_config`. -/
structure DotEnv where
  configured : Bool
  env : Env

/-- What `operator[]` throws. -/
inductive AccessError
  | logicError (what : String)
  | outOfRange (what : String)
  deriving DecidableEq, Repr

namespace DotEnv

def construct : DotEnv :=
  { configured := false
    env := [] }

/-- `config`; there is no content when the file cannot be opened.  An exception leaves the object
with what has been loaded. -/
def config (s : DotEnv) (file : Option (List Char)) : Except (Exception × DotEnv) DotEnv :=
  match file with
  | none => .ok { s with configured := true }
  | some content =>
      match parse content s.env with
      | .ok env =>
          .ok
            { configured := true
              env := env }
      | .error (e, env) => .error (e, { s with env := env })

def configErr : String :=
  "config() method must be called first"

/-- `operator[]`. -/
def get (s : DotEnv) (k : String) : Except AccessError String :=
  if !s.configured then .error (.logicError configErr)
  else
    match s.env.lookup k with
    | some value => .ok value
    | none => .error (.outOfRange ("key '" ++ k ++ "' not found"))

/-- The object after `config`, which may have thrown. -/
def after (s : DotEnv) (file : Option (List Char)) : DotEnv :=
  match s.config file with
  | .ok s' => s'
  | .error (_, s') => s'

/-- The object after a number of calls of `config`. -/
def configs (files : List (Option (List Char))) : DotEnv :=
  files.foldl after construct

end DotEnv

/-- What is left of a text that is handed on as a `const char *`. -/
def cString (text : String) : String :=
  String.ofList (text.toList.takeWhile (· ≠ '\x00'))

/-- `get_dotenv`; the texts of the errors are those of `e.what()`. -/
def getDotenv (env : DotEnv) (variableName : String) : Except Error String :=
  match env.get variableName with
  | .ok value => .ok value
  | .error (.outOfRange what) =>
      .error (.construct CommonError.outOfRange.makeErrorCondition (some (cString what)))
  | .error (.logicError what) =>
      .error (.construct CommonError.notFound.makeErrorCondition (some (cString what)))

/-! ## What a file contributes -/

/-- The assignments that a call of `config` comes across. -/
inductive Loads : Option (List Char) → List (String × String) → Prop
  | missing : Loads none []
  | intact {content w : List Char} {as : List (String × String)} (h : Intact content w as) :
      Loads (some content) as

/-- `config` does not throw for this file. -/
def InOrder (file : Option (List Char)) : Prop :=
  ∀ content, file = some content → IsFile content

theorem exists_loads (file : Option (List Char)) : ∃ as, Loads file as := by
  cases file with
  | none => exact ⟨[], .missing⟩
  | some content =>
      rcases exists_intact content with ⟨w, as, h⟩
      exact ⟨as, .intact h⟩

theorem exists_loads_all (files : List (Option (List Char))) :
    ∃ ass, List.Forall₂ Loads files ass := by
  induction files with
  | nil => exact ⟨[], .nil⟩
  | cons file files ih =>
      rcases exists_loads file with ⟨as, h⟩
      rcases ih with ⟨ass, hall⟩
      exact ⟨as :: ass, .cons h hall⟩

namespace DotEnv

variable {s : DotEnv} {file : Option (List Char)} {as : List (String × String)}

theorem config_ok_iff : (∃ s', s.config file = .ok s') ↔ InOrder file := by
  cases file with
  | none => simp [config, InOrder]
  | some content =>
      have hparse : (∃ m, parse content s.env = .ok m) ↔ IsFile content := by
        constructor
        · rintro ⟨m, h⟩
          rcases file_of_parse h with ⟨as, hfile, _⟩
          exact ⟨as, hfile⟩
        · rintro ⟨as, hfile⟩
          exact ⟨_, parse_file hfile s.env⟩
      have hinorder : InOrder (some content) ↔ IsFile content := by
        simp [InOrder]
      rw [hinorder, ← hparse, config]
      cases parse content s.env <;> simp

theorem configured_after : (s.after file).configured = true ↔ InOrder file ∨ s.configured = true := by
  rw [← config_ok_iff (s := s), after]
  cases file with
  | none => simp [config]
  | some content =>
      simp only [config]
      cases parse content s.env <;> simp

theorem env_after (h : Loads file as) : (s.after file).env = SortedMap.emplaceAll as s.env := by
  cases h with
  | missing => rfl
  | intact h =>
      rw [← leftBy_parse h, after, config]
      cases hparse : parse _ s.env <;> rfl

/-- An object was configured when some call of `config` did not throw. -/
theorem configured_foldl (files : List (Option (List Char))) (s : DotEnv) :
    (files.foldl after s).configured = true ↔
      (∃ file ∈ files, InOrder file) ∨ s.configured = true := by
  induction files generalizing s with
  | nil => simp
  | cons file files ih =>
      rw [List.foldl_cons, ih, configured_after]
      simp only [List.mem_cons, exists_eq_or_imp]
      rw [or_left_comm, or_assoc]

theorem env_foldl {files : List (Option (List Char))} {ass : List (List (String × String))}
    (h : List.Forall₂ Loads files ass) (s : DotEnv) :
    (files.foldl after s).env = SortedMap.emplaceAll ass.flatten s.env := by
  induction h generalizing s with
  | nil => rfl
  | cons hload _ ih =>
      rw [List.foldl_cons, ih, env_after hload, List.flatten_cons, emplaceAll_append]

theorem lookup_configs {files : List (Option (List Char))} {key : String} {value : Option String} :
    (configs files).env.lookup key = value ↔
      ∃ ass, List.Forall₂ Loads files ass ∧ ass.flatten.lookup key = value := by
  have hlookup : ∀ ass, List.Forall₂ Loads files ass →
      (configs files).env.lookup key = ass.flatten.lookup key := by
    intro ass h
    rw [configs, env_foldl h]
    exact SortedMap.lookup_emplaceAll ass.flatten
  constructor
  · intro h
    rcases exists_loads_all files with ⟨ass, hloads⟩
    exact ⟨ass, hloads, (hlookup ass hloads).symm.trans h⟩
  · rintro ⟨ass, hloads, h⟩
    exact (hlookup ass hloads).trans h

theorem configured_configs {files : List (Option (List Char))} :
    (configs files).configured = true ↔ ∃ file ∈ files, InOrder file := by
  rw [configs, configured_foldl]
  simp [construct]

end DotEnv

/-! ## What `get_dotenv` returns -/

variable {files : List (Option (List Char))} {key value : String}

theorem getDotenv_eq_ok {env : DotEnv} :
    getDotenv env key = .ok value ↔ env.configured = true ∧ env.env.lookup key = some value := by
  rw [getDotenv, DotEnv.get]
  cases env.configured with
  | false => simp
  | true => cases env.env.lookup key <;> simp

/-- The value is the first one that the loaded files assign to the key, as far as they are in order;
and one call of `config` must have gone well. -/
theorem getDotenv_ok_iff :
    getDotenv (.configs files) key = .ok value ↔
      (∃ file ∈ files, InOrder file) ∧
        ∃ ass, List.Forall₂ Loads files ass ∧ ass.flatten.lookup key = some value := by
  rw [getDotenv_eq_ok, DotEnv.configured_configs, DotEnv.lookup_configs]

theorem cString_configErr : cString DotEnv.configErr = DotEnv.configErr := rfl

/-- Without a successful call of `config` the answer is `NOT_FOUND`, whatever has been loaded; a
variable that is missing is `OUT_OF_RANGE`, with a text that ends where its name has a NUL. -/
theorem getDotenv_error_iff {e : Error} :
    getDotenv (.configs files) key = .error e ↔
      ((¬ ∃ file ∈ files, InOrder file) ∧
        e = .construct CommonError.notFound.makeErrorCondition (some DotEnv.configErr)) ∨
      ((∃ file ∈ files, InOrder file) ∧
        (∃ ass, List.Forall₂ Loads files ass ∧ ass.flatten.lookup key = none) ∧
        e = .construct CommonError.outOfRange.makeErrorCondition
          (some (cString ("key '" ++ key ++ "' not found")))) := by
  rw [← DotEnv.lookup_configs, ← DotEnv.configured_configs, getDotenv, DotEnv.get]
  cases (DotEnv.configs files).configured with
  | false => simp [cString_configErr, eq_comm]
  | true => cases (DotEnv.configs files).env.lookup key <;> simp [eq_comm]

/-! ## Which variables there can be -/

theorem Line.assigns {l : List Char} {a : Option (String × String)} (h : Line l a) :
    ∀ e ∈ a, IsKey e.1 ∧ IsValue e.2 := by
  have hcontent : ∀ {l : List Char} {a : Option (String × String)}, Content l a →
      ∀ e ∈ a, IsKey e.1 ∧ IsValue e.2 := by
    rintro l a (⟨_⟩ | ⟨⟨_, hkey, _⟩, _, hvalue, _⟩) e he
    · cases he
    · cases he
      exact ⟨hkey, hvalue⟩
  cases h with
  | plain h => exact hcontent h
  | comment h _ => exact hcontent h

theorem File.assigns {file : List Char} {as : List (String × String)} (h : File file as) :
    ∀ e ∈ as, IsKey e.1 ∧ IsValue e.2 := by
  have hlines : ∀ {w : List Char} {as : List (String × String)}, Lines w as →
      ∀ e ∈ as, IsKey e.1 ∧ IsValue e.2 := by
    intro w as h
    induction h with
    | nil => simp
    | snoc _ hl _ ih =>
        intro e he
        rcases List.mem_append.1 he with he | he
        · exact ih e he
        · exact hl.assigns e (Option.mem_toList.1 he)
  rcases h with ⟨h, hl⟩
  intro e he
  rcases List.mem_append.1 he with he | he
  · exact hlines h e he
  · exact hl.assigns e (Option.mem_toList.1 he)

theorem loads_assign {files : List (Option (List Char))} {ass : List (List (String × String))}
    (h : List.Forall₂ Loads files ass) : ∀ e ∈ ass.flatten, IsKey e.1 ∧ IsValue e.2 := by
  induction h with
  | nil => simp
  | cons hload _ ih =>
      intro e he
      rw [List.flatten_cons, List.mem_append] at he
      rcases he with he | he
      · cases hload with
        | missing => cases he
        | intact h => exact h.isFile.assigns e he
      · exact ih e he

/-- The line `key=value`. -/
theorem file_assignment (hkey : IsKey key) (hvalue : IsValue value) :
    File (key.toList ++ '=' :: value.toList) [(key, value)] := by
  have hleft : Left key ([] ++ key.toList ++ [] ++ ['=']) := .mk spaces_nil hkey spaces_nil
  have hcontent : Content (([] ++ key.toList ++ [] ++ ['=']) ++ [] ++ value.toList ++ [])
      (some (key, value)) :=
    .assignment hleft spaces_nil hvalue spaces_nil
  simpa using File.mk .nil (.plain hcontent)

/-- A variable has a key without blanks, quotes apart, and a value without blanks and without `#`;
every such pair can be had from a file. -/
theorem variable_iff :
    (∃ files, getDotenv (.configs files) key = .ok value) ↔ IsKey key ∧ IsValue value := by
  constructor
  · rintro ⟨files, h⟩
    rcases DotEnv.lookup_configs.1 (getDotenv_eq_ok.1 h).2 with ⟨ass, hloads, hlookup⟩
    rcases List.lookup_eq_some_iff.1 hlookup with ⟨l₁, l₂, hsplit, _⟩
    exact loads_assign hloads (key, value) (by simp [hsplit])
  · rintro ⟨hkey, hvalue⟩
    have hfile := file_assignment hkey hvalue
    have hload : Loads (some (key.toList ++ '=' :: value.toList)) [(key, value)] :=
      .intact (intact_file hfile)
    refine ⟨[some (key.toList ++ '=' :: value.toList)], getDotenv_eq_ok.2 ⟨?_, ?_⟩⟩
    · refine DotEnv.configured_configs.2 ⟨_, List.mem_singleton_self _, ?_⟩
      rintro content hcontent
      cases hcontent
      exact ⟨_, hfile⟩
    · exact DotEnv.lookup_configs.2 ⟨[[(key, value)]], .cons hload .nil, by simp⟩

end Dotenv

end CapyAmqp
