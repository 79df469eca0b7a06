import CapyAmqp.Address.Basic
import CapyAmqp.Broker.Step
import CapyAmqp.Lib.Printf

/-!
# Bind — `Broker::Bind`, and the formats that `error_string` is given

`error_string` hands its format and its arguments to `vsnprintf`.  An `ErrorStringCall` is one of the
calls in the library, with the run-time strings that reach it; five of them come with a literal
format, `Bind` passes the text of an exception as the format.
-/

namespace CapyAmqp

open Lib Printf

/-- `error_string`; `none` when what `vsnprintf` does is undefined. -/
def errorStringOf (format : CString) (args : List CString) : Option String :=
  (vsnprintf 1024 format args).map fun buffer => "Cappy error: " ++ String.ofList buffer

/-- The calls of `error_string`. -/
inductive ErrorStringCall
  /-- `Broker::Bind`, for an exception. -/
  | bindException (what : CString)
  /-- `Broker::Bind`, for anything else that is thrown. -/
  | bindUnknown
  /-- The error callback of `bindQueue` in `listen_messages`. -/
  | bindQueue (message exchangeName : CString)
  /-- `Address::From`, for a scheme, a port and a login that it does not take. -/
  | protocol (proto : CString)
  | portRange (port : CString)
  | login (port : CString)

namespace ErrorStringCall

def format : ErrorStringCall → CString
  | .bindException what => what
  | .bindUnknown => ⟨"Unknown error".toList, by decide⟩
  | .bindQueue _ _ => ⟨"%s: %s:%s <- %s".toList, by decide⟩
  | .protocol _ => ⟨"Url Protocol %s is not supported yet".toList, by decide⟩
  | .portRange _ => ⟨"Address port number %s is out of range".toList, by decide⟩
  | .login _ => ⟨"LoginImp %s is not correct".toList, by decide⟩

def arguments : ErrorStringCall → List CString
  | .bindException _ => []
  | .bindUnknown => []
  | .bindQueue message exchangeName => [message, exchangeName]
  | .protocol proto => [proto]
  | .portRange port => [port]
  | .login port => [port]

/-- What the call returns. -/
def text (call : ErrorStringCall) : Option String :=
  errorStringOf call.format call.arguments

end ErrorStringCall

/-! ## `Broker::Bind` -/

/-- What the body of `Bind` can throw. -/
inductive BindThrown
  | std (what : CString)
  | other

/-- `Broker::Bind` on `thread`; `thrown` is what its body throws, if anything, and `none` that
nothing can be said of the call. -/
def BrokerImpl.bind {H : Type} (thread : ThreadId) (exchangeName : String)
    (thrown : Option BindThrown) : Option (Except Error (BrokerImpl H)) :=
  match thrown with
  | none => some (.ok ((BrokerImpl.construct exchangeName).getConnection thread))
  | some (.std what) =>
      (ErrorStringCall.bindException what).text.map fun text => .error (.broker .connection text)
  | some .other => ErrorStringCall.bindUnknown.text.map fun text => .error (.broker .connection text)

/-! ## Calls with one text -/

/-- The format of the call is one `%s` between texts without `%`, and the argument goes there. -/
structure OneText (call : ErrorStringCall) (arg : CString) (pre post : List Char) : Prop where
  arguments : call.arguments = [arg]
  format : call.format.chars = pre ++ '%' :: 's' :: post
  pre : '%' ∉ pre
  post : '%' ∉ post

namespace OneText

variable {call : ErrorStringCall} {arg : CString} {pre post : List Char}

theorem matched (h : OneText call arg pre post) : Matched call.format call.arguments := by
  rw [h.arguments]
  exact matched_one_text h.format h.pre h.post arg

theorem text (h : OneText call arg pre post) :
    call.text = some (errorString (pre ++ arg.chars ++ post)) := by
  rw [ErrorStringCall.text, errorStringOf, h.arguments,
    vsnprintf_one_text 1024 h.format h.pre h.post]
  rfl

end OneText

theorem oneText_protocol (proto : CString) :
    OneText (.protocol proto) proto "Url Protocol ".toList " is not supported yet".toList := by
  have hformat : "Url Protocol %s is not supported yet".toList =
      "Url Protocol ".toList ++ '%' :: 's' :: " is not supported yet".toList := by
    decide
  exact ⟨rfl, hformat, by decide, by decide⟩

theorem oneText_portRange (port : CString) :
    OneText (.portRange port) port "Address port number ".toList " is out of range".toList := by
  have hformat : "Address port number %s is out of range".toList =
      "Address port number ".toList ++ '%' :: 's' :: " is out of range".toList := by
    decide
  exact ⟨rfl, hformat, by decide, by decide⟩

theorem oneText_login (port : CString) :
    OneText (.login port) port "LoginImp ".toList " is not correct".toList := by
  have hformat : "LoginImp %s is not correct".toList =
      "LoginImp ".toList ++ '%' :: 's' :: " is not correct".toList := by
    decide
  exact ⟨rfl, hformat, by decide, by decide⟩

/-- The texts that the model of `Address::From` puts into its errors are those of the calls. -/
theorem address_texts (s : CString) :
    (ErrorStringCall.protocol s).text =
        some (errorString ("Url Protocol ".toList ++ s.chars ++ " is not supported yet".toList)) ∧
      (ErrorStringCall.portRange s).text =
        some (errorString ("Address port number ".toList ++ s.chars ++ " is out of range".toList)) ∧
      (ErrorStringCall.login s).text =
        some (errorString ("LoginImp ".toList ++ s.chars ++ " is not correct".toList)) :=
  ⟨(oneText_protocol s).text, (oneText_portRange s).text, (oneText_login s).text⟩

/-! ## Formats and arguments -/

/-- `Bind` returns an error that carries the exception's text as it is, as far as it fits. -/
def BindCarries (what : CString) : Prop :=
  ∀ (H : Type) (thread : ThreadId) (exchangeName : String), ∃ e : Error,
    (BrokerImpl.bind thread exchangeName (some (.std what)) :
        Option (Except Error (BrokerImpl H))) = some (.error e) ∧
      e.message = "Cappy error: " ++ String.ofList (what.chars.take 1023)

namespace ErrorStringCall

/-- What is expected of a call: its arguments match its format, and `Bind` passes the text on. -/
def Meets (call : ErrorStringCall) : Prop :=
  Matched call.format call.arguments ∧ ∀ what, call = .bindException what → BindCarries what

/-- The calls whose format can be relied on. -/
def FormatSafe : ErrorStringCall → Prop
  | .bindException what => Paired what.chars ∧ CutVerbatim 1023 what.chars
  | .bindQueue _ _ => False
  | _ => True

end ErrorStringCall

theorem matched_bindException_iff {what : CString} :
    Matched (ErrorStringCall.bindException what).format [] ↔ Paired what.chars :=
  scan_paired_iff

theorem bind_of_text {H : Type} {what : CString} {text : String} (thread : ThreadId)
    (exchangeName : String) (h : (ErrorStringCall.bindException what).text = some text) :
    (BrokerImpl.bind thread exchangeName (some (.std what)) :
        Option (Except Error (BrokerImpl H))) = some (.error (.broker .connection text)) := by
  simp only [BrokerImpl.bind, h, Option.map_some]

/-- The text of an exception whose `%` come in pairs is passed on with each pair collapsed. -/
theorem text_bindException {what : CString} (h : Paired what.chars) :
    (ErrorStringCall.bindException what).text =
      some ("Cappy error: " ++ String.ofList ((collapse what.chars).take 1023)) := by
  rcases output_of_paired h [] with ⟨pieces, hscan, _, houtput⟩
  have hprintf : vsnprintf 1024 what [] = some ((collapse what.chars).take 1023) := by
    simp only [vsnprintf, hscan, houtput, Option.map_some]
  rw [ErrorStringCall.text, errorStringOf]
  show (vsnprintf 1024 what []).map _ = _
  rw [hprintf, Option.map_some]

theorem bindCarries_iff {what : CString} (h : Paired what.chars) :
    BindCarries what ↔ CutVerbatim 1023 what.chars := by
  have htext := text_bindException h
  rw [← take_collapse_iff h]
  constructor
  · intro hcarries
    rcases hcarries Nat 0 "amq.topic" with ⟨e, hbind, hmessage⟩
    rw [bind_of_text 0 "amq.topic" htext] at hbind
    have he : Error.broker .connection _ = e := Except.error.inj (Option.some.inj hbind)
    rw [← he, Error.message_broker] at hmessage
    have hlists := congrArg String.toList hmessage
    rw [String.toList_append, String.toList_append] at hlists
    have hcut := List.append_cancel_left hlists
    rwa [String.toList_ofList, String.toList_ofList] at hcut
  · intro heq H thread exchangeName
    refine ⟨_, bind_of_text thread exchangeName htext, ?_⟩
    rw [Error.message_broker, heq]

/-- A call that meets what is expected of it returns. -/
theorem text_of_meets {call : ErrorStringCall} (h : call.Meets) :
    ∃ text, call.text = some text := by
  rcases vsnprintf_of_matched 1024 h.1 with ⟨buffer, hbuffer⟩
  refine ⟨"Cappy error: " ++ String.ofList buffer, ?_⟩
  simp only [ErrorStringCall.text, errorStringOf, hbuffer, Option.map_some]

/-- The calls with a literal format match their arguments, but for the one of `bindQueue`, whose
format has two specifications too many; an exception's text does so if its `%` come in pairs, and is
passed on as it is if the pairs come late enough. -/
theorem error_string_meets_iff (call : ErrorStringCall) : call.Meets ↔ call.FormatSafe := by
  cases call with
  | bindException what =>
      constructor
      · rintro ⟨hmatched, hcarries⟩
        have hpaired := matched_bindException_iff.1 hmatched
        exact ⟨hpaired, (bindCarries_iff hpaired).1 (hcarries what rfl)⟩
      · rintro ⟨hpaired, hcut⟩
        refine ⟨matched_bindException_iff.2 hpaired, ?_⟩
        rintro what' ⟨⟩
        exact (bindCarries_iff hpaired).2 hcut
  | bindUnknown =>
      refine iff_of_true ⟨⟨_, rfl, rfl⟩, ?_⟩ trivial
      rintro what ⟨⟩
  | bindQueue message exchangeName =>
      refine iff_of_false ?_ id
      rintro ⟨⟨pieces, hscan, hdemands⟩, _⟩
      cases hscan
      cases hdemands
  | protocol proto =>
      refine iff_of_true ⟨(oneText_protocol proto).matched, ?_⟩ trivial
      rintro what ⟨⟩
  | portRange port =>
      refine iff_of_true ⟨(oneText_portRange port).matched, ?_⟩ trivial
      rintro what ⟨⟩
  | login port =>
      refine iff_of_true ⟨(oneText_login port).matched, ?_⟩ trivial
      rintro what ⟨⟩

/-- A binding fails; an exception's text looks like a conversion. -/
theorem error_string_reads_missing_arguments :
    ¬ (ErrorStringCall.bindQueue ⟨"NOT_FOUND".toList, by decide⟩
        ⟨"amq.topic".toList, by decide⟩).Meets ∧
      ¬ (ErrorStringCall.bindException ⟨"100% sure".toList, by decide⟩).Meets := by
  constructor
  · rintro ⟨⟨pieces, hscan, hdemands⟩, _⟩
    cases hscan
    cases hdemands
  · rintro ⟨⟨pieces, hscan, hdemands⟩, _⟩
    cases hscan
    cases hdemands

end CapyAmqp
