import CapyAmqp.Address.Grammar

/-!
# Scheme — an address and its TLS variant

Two strings that differ only in the scheme have the same parts (`Splits.scheme_irrelevant`).  `From`
stores the scheme, but nothing reads it back: `get_protocol` answers without it, and `to_address`
passes on the other parts only.  So the two runs of the path from the string to the connection agree
from `From` on.
-/

namespace CapyAmqp

open Lib

namespace Address

/-- An address and its TLS variant can be told apart, and report their schemes. -/
def Distinguished (plain tls : Address) : Prop :=
  plain.getProtocol = .amqp ∧ tls.getProtocol = .amqps ∧ toAddress tls ≠ toAddress plain

section Schemes

variable {what : StoiError → String} {s s' scheme scheme' r u t : Text} {a b : Address}

/-- What `to_address` passes on is determined by the text behind the scheme. -/
theorem Parses.toAddress_eq (h : Parses s a scheme r u t) (h' : Parses s' b scheme' r u t) :
    toAddress b = toAddress a := by
  have hlogin : b.getLogin = a.getLogin := h'.login.unique h'.userinfo.isUserinfo h.login
  have hport : b.getPort = a.getPort := h'.port.unique h.port
  have hhost : b.getHostname = a.getHostname := h'.hostname.trans h.hostname.symm
  have hvhost : b.getVhost = a.getVhost := h'.vhost.trans h.vhost.symm
  rw [toAddress, hlogin, hport, hhost, hvhost]
  rfl

/-- Another scheme in front of the same text leaves the other parts as they are. -/
theorem Splits.scheme_irrelevant (h : Splits s scheme r u t)
    (hscheme' : ∃ protocol, SchemeOf scheme' protocol) :
    Splits (scheme' ++ "://".toList ++ r) scheme' r u t :=
  ⟨rfl, hscheme', h.userinfo⟩

/-- The scheme that `From` stores is the one of the string. -/
theorem parses_of_scheme {protocol : Protocol} (hscheme : SchemeOf scheme protocol)
    (h : fromString what (scheme ++ "://".toList ++ r) = .ok a) :
    a.imp.protocol = protocol ∧
      ∃ u t, Parses (scheme ++ "://".toList ++ cStr r) a scheme (cStr r) u t := by
  rcases fromString_ok_iff.1 h with ⟨scheme', r', u, t, hparses⟩
  rw [hscheme.cStr_eq] at hparses
  -- the string has the scheme it was written with, and no other
  have hwritten : schemeOf (scheme ++ "://".toList ++ cStr r) = some (scheme, cStr r) :=
    schemeOf_eq_some_iff.2 ⟨hscheme.isScheme, rfl⟩
  have hread := hparses.scan.1
  rw [hwritten] at hread
  cases hread
  refine ⟨?_, u, t, hparses⟩
  have hstored := (protocolOf_upper hscheme.isScheme).2 hparses.scheme
  have hwritten := (protocolOf_upper hscheme.isScheme).2 hscheme
  exact hstored.1.symm.trans hwritten.1

/-- The scheme is lost: whatever follows it, the AMQP library gets the same from the plain address
and from its TLS variant. -/
theorem tls_lost (what : StoiError → String) {r : Text} {plain tls : Address}
    (hplain : fromString what ("amqp".toList ++ "://".toList ++ r) = .ok plain)
    (htls : fromString what ("amqps".toList ++ "://".toList ++ r) = .ok tls) :
    ¬ Distinguished plain tls ∧ toAddress tls = toAddress plain ∧
      tls.getProtocol = plain.getProtocol ∧ plain.imp.protocol = .amqp ∧
      tls.imp.protocol = .amqps := by
  rcases parses_of_scheme (Or.inl ⟨rfl, rfl⟩) hplain with ⟨hstored, u, t, hparses⟩
  rcases parses_of_scheme (Or.inr ⟨rfl, rfl⟩) htls with ⟨hstored', u', t', hparses'⟩
  -- both strings split in the same way behind the scheme
  have hsplits := hparses'.splits.1.scheme_irrelevant ⟨_, hparses.scheme⟩
  rcases hparses.splits_unique hsplits with ⟨_, _, rfl, rfl⟩
  have hsame : toAddress tls = toAddress plain := hparses.toAddress_eq hparses'
  refine ⟨?_, hsame, rfl, hstored, hstored'⟩
  rintro ⟨_, _, hne⟩
  exact hne hsame

/-- `amqp://host` or `amqps://host`. -/
theorem fromString_host {protocol : Protocol} (hscheme : SchemeOf scheme protocol) :
    fromString (fun _ => "stoi") (scheme ++ "://".toList ++ "host".toList) =
      .ok
        { imp :=
            { protocol := protocol
              login :=
                { user := "guest".toList
                  password := "guest".toList }
              hostname := "host".toList
              vhost := []
              port := 5672 } } := by
  rcases hscheme with ⟨rfl, rfl⟩ | ⟨rfl, rfl⟩
  · rfl
  · rfl

theorem tls_lost_host :
    ∃ plain tls,
      fromString (fun _ => "stoi") ("amqp".toList ++ "://".toList ++ "host".toList) = .ok plain ∧
      fromString (fun _ => "stoi") ("amqps".toList ++ "://".toList ++ "host".toList) = .ok tls ∧
      toAddress tls = toAddress plain := by
  have hplain := fromString_host (Or.inl ⟨rfl, rfl⟩)
  have htls := fromString_host (Or.inr ⟨rfl, rfl⟩)
  exact ⟨_, _, hplain, htls, (tls_lost (fun _ => "stoi") hplain htls).2.1⟩

/-- `amqp://host` and `amqps://host` cannot be told apart. -/
theorem host_not_distinguished :
    ∃ plain tls,
      fromString (fun _ => "stoi") ("amqp".toList ++ "://".toList ++ "host".toList) = .ok plain ∧
      fromString (fun _ => "stoi") ("amqps".toList ++ "://".toList ++ "host".toList) = .ok tls ∧
      ¬ Distinguished plain tls := by
  refine ⟨_, _, fromString_host (Or.inl ⟨rfl, rfl⟩), fromString_host (Or.inr ⟨rfl, rfl⟩), ?_⟩
  rintro ⟨_, hprotocol, _⟩
  cases hprotocol

end Schemes

end Address

end CapyAmqp
